import InterBtcClients.Bitcoin.Chain
import InterBtcClients.Bitcoin.LightChain
import InterBtcClients.Bitcoin.ThreeKeys

/-! The two clients on the same chain: the full node counts a block itself among its confirmations,
the light client only the blocks on top of it, so that they agree on all blocks and transactions but
those that have just as many confirmations as are asked for. -/

namespace InterBtcClients.Bitcoin

open Library InterBtcClients.Runtime

variable {E : Type}

/-- A chain that stands still, as the full node and the electrs server know it.  The node counts
blocks in an `int`, and no transaction is in two blocks. -/
structure StaticChain (lib : Lib E) where
  tree : BlockTree
  hashes : List BlockHash
  isChain : tree.IsChain hashes
  bounded : hashes.length < 2 ^ 31
  distinct : ∀ hash ∈ hashes, ∀ hash' ∈ hashes, ∀ txid, txid ∈ tree.txids lib hash →
    txid ∈ tree.txids lib hash' → hash' = hash
  raw : Txid → List UInt8
  deserialize_raw : ∀ hash ∈ hashes, ∀ tx ∈ (tree.block hash).txdata,
    lib.deserialize (raw (lib.txid tx)) = .ok tx
  proof : Txid → List UInt8
  fee : Txid → UInt64

namespace StaticChain

variable {lib : Lib E} (c : StaticChain lib)

/-- The height of the tip. -/
def tip : Nat := c.hashes.length - 1

def confirmations (hash : BlockHash) : Nat := c.hashes.length - c.tree.height hash

def blockOf (txid : Txid) : Option BlockHash :=
  c.hashes.find? fun hash => txid ∈ c.tree.txids lib hash

def transaction (txid : Txid) : Option Transaction :=
  (c.hashes.flatMap fun hash => (c.tree.block hash).txdata).find? fun tx => lib.txid tx = txid

/-- The full node's answers. -/
def node : (call : Core.Call) → (Core.api E).Answer call
  | .getBlockCount => .ok c.tip
  | .getBlockHash height =>
    match c.hashes[height]? with
    | some hash => .ok hash
    | none => .error (.rpc Core.RpcInvalidParameter)
  | .getBlockInfo hash => .ok (match c.tree.depth c.hashes hash with
    | some depth => Int32.ofNat depth
    | none => -1)
  | .getBlock hash => .ok (c.tree.block hash)
  | .getRawMempool => .ok []
  | .getRawTransaction txid _ =>
    match c.transaction txid with
    | some tx => .ok tx
    | none => .error (.rpc Core.RpcInvalidAddressOrKey)
  | .getRawTransactionInfo txid _ =>
    match c.blockOf txid with
    | some hash => .ok ⟨some (UInt32.ofNat (c.confirmations hash)), some hash⟩
    | none => .error (.rpc Core.RpcInvalidAddressOrKey)
  | .getTransaction txid =>
    match c.blockOf txid with
    | some hash => .ok ⟨Int32.ofNat (c.confirmations hash), some hash, some (-(c.fee txid).toNat)⟩
    | none => .error (.rpc Core.RpcInvalidAddressOrKey)
  | .getTxOutProof txid _ => .ok (c.proof txid)
  | .sleep => ()

/-- The electrs server's answers, with `notFound` for what it does not know. -/
def server (notFound : E) : (call : LightChain.Call) → (LightChain.api E).Answer call
  | .tx txid =>
    match c.blockOf txid with
    | some hash => .ok ⟨c.fee txid, some ⟨some (c.tree.height hash), some hash⟩⟩
    | none => .error notFound
  | .txHex txid => .ok (c.raw txid)
  | .txMerkleblockProof txid => .ok (c.proof txid)
  | .blocksTipHeight => .ok c.tip
  | .blockHeight height =>
    match c.hashes[height]? with
    | some hash => .ok hash
    | none => .error notFound
  | .blockHeader hash => .ok (c.tree.block hash).prevBlockhash
  | .blockTxids hash => .ok (c.tree.txids lib hash)
  | .sleep => ()

variable (serialize : Transaction → List UInt8) (notFound : E)

/-- The full node's client returns the block in the end. -/
def CoreAcceptsBlock (height : Nat) (numConfirmations : UInt32) : Prop :=
  ∃ fuel block, (Core.waitForBlock fuel height numConfirmations).run.eval c.node =
    .ok (some block)

def LightAcceptsBlock (height : Nat) (numConfirmations : UInt32) : Prop :=
  ∃ fuel block, (LightChain.waitForBlock lib fuel height numConfirmations).run.eval
    (c.server notFound) = .ok (some block)

/-- The full node's client returns the transaction's data in the end. -/
def CoreAcceptsTransaction (txid : Txid) (numConfirmations : UInt32) (blockHash : Option BlockHash)
    (isWallet : Bool) : Prop :=
  ∃ retries proofRetries metadata, (Core.waitForTransactionMetadata lib serialize retries
    proofRetries txid numConfirmations blockHash isWallet).run.eval c.node = .ok metadata

def LightAcceptsTransaction (txid : Txid) (numConfirmations : UInt32)
    (blockHash : Option BlockHash) (isWallet : Bool) : Prop :=
  ∃ retries proofRetries metadata, (LightChain.waitForTransactionMetadata retries proofRetries txid
    numConfirmations blockHash isWallet).run.eval (c.server notFound) = .ok metadata

/-! ### Blocks -/

section Blocks

variable {c} {height : Nat} {hash : BlockHash} {numConfirmations : UInt32}

theorem node_getBlockHash (h : c.hashes[height]? = some hash) :
    c.node (.getBlockHash height) = .ok hash := by
  simp only [node, h]

theorem node_getBlockInfo (h : c.hashes[height]? = some hash) :
    c.node (.getBlockInfo hash) = .ok (Int32.ofNat (c.hashes.length - height)) := by
  simp only [node, c.isChain.depth_eq h]

variable (numConfirmations) in
/-- The block has as many confirmations as the block itself and those on top of it. -/
theorem eval_core_waitForBlockRound (h : c.hashes[height]? = some hash) :
    (Core.waitForBlockRound height numConfirmations).run.eval c.node =
      if numConfirmations.toInt32 ≤ Int32.ofNat (c.hashes.length - height) then
        .ok (.inr (c.tree.block hash))
      else .ok (.inl ()) := by
  simp only [Core.waitForBlockRound, Core.ask, Prog.eval_run_bind, Prog.eval_run_lift, Prog.request,
    Prog.eval, Prog.bind_ok, Prog.eval_run_mk, Prog.eval_map, Prog.mapError_ok, node_getBlockHash h,
    node_getBlockInfo h]
  by_cases hdeep : numConfirmations.toInt32 ≤ Int32.ofNat (c.hashes.length - height)
  · rw [if_pos hdeep, if_pos hdeep]
    rfl
  · rw [if_neg hdeep, if_neg hdeep]
    rfl

theorem eval_getTransactionsInBlock (hmem : hash ∈ c.hashes) :
    (LightChain.getTransactionsInBlock lib hash).run.eval (c.server notFound) =
      .ok (c.tree.block hash).txdata := by
  have hraw := c.deserialize_raw hash hmem
  have htxids : (LightChain.get (LightChain.ask (E := E) (.blockTxids hash))).run.eval
      (c.server notFound) = .ok ((c.tree.block hash).txdata.map lib.txid) := rfl
  rw [LightChain.getTransactionsInBlock, Prog.eval_run_bind, htxids, Prog.bind_ok]
  generalize (c.tree.block hash).txdata = txs at hraw ⊢
  induction txs with
  | nil => rfl
  | cons tx txs ih =>
    obtain ⟨htx, hraw⟩ := List.forall_mem_cons.mp hraw
    have hget : (LightChain.getRawTx (E := E) (lib.txid tx)).run.eval (c.server notFound) =
      .ok (c.raw (lib.txid tx)) := rfl
    rw [List.map_cons, List.mapM_cons, Prog.eval_run_bind, Prog.eval_run_bind, hget, Prog.bind_ok,
      Prog.eval_run_ofExcept, htx, Prog.mapError_ok, Prog.bind_ok, Prog.eval_run_bind, ih hraw]
    rfl

theorem eval_light_getBlock (hmem : hash ∈ c.hashes) :
    (LightChain.getBlock lib hash).run.eval (c.server notFound) = .ok (c.tree.block hash) := by
  have hheader : (LightChain.get (LightChain.ask (E := E) (.blockHeader hash))).run.eval
      (c.server notFound) = .ok (c.tree.block hash).prevBlockhash := rfl
  rw [LightChain.getBlock, Prog.eval_run_bind, hheader, Prog.bind_ok, Prog.eval_run_bind,
    eval_getTransactionsInBlock notFound hmem]
  rfl

variable (numConfirmations) in
/-- Only the blocks on top count. -/
theorem eval_light_waitForBlockRound (h : c.hashes[height]? = some hash) :
    (LightChain.waitForBlockRound lib height numConfirmations).run.eval (c.server notFound) =
      if numConfirmations.toNat ≤ c.tip - height then .ok (.inr (c.tree.block hash))
      else .ok (.inl ()) := by
  have hhash : (LightChain.getBlockHash (E := E) height).run.eval (c.server notFound) =
      .ok hash := by
    simp only [LightChain.getBlockHash, LightChain.get, LightChain.ask, Prog.request,
      Prog.eval_run_mk, Prog.eval_map, Prog.eval, server, h, Prog.mapError_ok]
  have hbest : (LightChain.getBlocksTipHeight (E := E)).run.eval (c.server notFound) =
      .ok c.tip := rfl
  simp only [LightChain.waitForBlockRound, Prog.eval_run_bind, Prog.eval_run_lift, hhash, hbest,
    Prog.bind_ok, Prog.eval_run_pure]
  by_cases hdeep : numConfirmations.toNat ≤ c.tip - height
  · rw [if_pos hdeep, if_pos hdeep, Prog.eval_run_bind, Prog.eval_run_adapt,
      eval_light_getBlock notFound (List.mem_of_getElem? h)]
    rfl
  · rw [if_neg hdeep, if_neg hdeep]
    rfl

theorem coreAcceptsBlock_iff (h : c.hashes[height]? = some hash) :
    c.CoreAcceptsBlock height numConfirmations ↔
      numConfirmations.toInt32 ≤ Int32.ofNat (c.hashes.length - height) := by
  have hround := eval_core_waitForBlockRound numConfirmations h
  constructor
  · rintro ⟨fuel, block, hblock⟩
    by_contra hdeep
    rw [if_neg hdeep] at hround
    rw [Core.waitForBlock, Prog.eval_iterate_none hround] at hblock
    cases hblock
  · intro hdeep
    rw [if_pos hdeep] at hround
    exact ⟨1, _, Prog.eval_iterate_some hround 0⟩

theorem lightAcceptsBlock_iff (h : c.hashes[height]? = some hash) :
    c.LightAcceptsBlock notFound height numConfirmations ↔
      numConfirmations.toNat ≤ c.tip - height := by
  have hround := eval_light_waitForBlockRound notFound numConfirmations h
  constructor
  · rintro ⟨fuel, block, hblock⟩
    by_contra hdeep
    rw [if_neg hdeep] at hround
    rw [LightChain.waitForBlock, Prog.eval_iterate_none hround] at hblock
    cases hblock
  · intro hdeep
    rw [if_pos hdeep] at hround
    exact ⟨1, _, Prog.eval_iterate_some hround 0⟩

/-- As a signed number, a number of confirmations from 2 ^ 31 on is negative. -/
theorem toInt32_le_iff {depth : Nat} (hdepth : depth < 2 ^ 31) :
    numConfirmations.toInt32 ≤ Int32.ofNat depth ↔
      numConfirmations.toNat ≤ depth ∨ 2 ^ 31 ≤ numConfirmations.toNat := by
  have hlt := numConfirmations.toNat_lt
  have hsigned : numConfirmations.toInt32.toInt =
    (numConfirmations.toNat : Int).bmod Int32.size := by
    rw [← Int32.toInt_ofNat', ← UInt32.toInt32_ofNat', UInt32.ofNat_toNat]
  rw [Int32.le_iff_toInt_le, Int32.toInt_ofNat_of_lt hdepth, hsigned, Int.bmod_def,
    Int32.size]
  split <;> omega

end Blocks

/-! ### Transactions -/

section Transactions

variable {c} {height : Nat} {hash : BlockHash} {txid : Txid} {numConfirmations : UInt32}
variable {blockHash : Option BlockHash} {isWallet : Bool}

theorem blockOf_eq (h : c.hashes[height]? = some hash) (htx : txid ∈ c.tree.txids lib hash) :
    c.blockOf txid = some hash := by
  have hmem := List.mem_of_getElem? h
  cases hfind : c.blockOf txid with
  | none => simpa [htx] using List.find?_eq_none.mp hfind hash hmem
  | some other =>
    have hother : txid ∈ c.tree.txids lib other := by simpa using List.find?_some hfind
    rw [c.distinct hash hmem other (List.mem_of_find?_eq_some hfind) txid htx hother]

theorem confirmations_eq (h : c.hashes[height]? = some hash) :
    c.confirmations hash = c.hashes.length - height := by
  rw [confirmations, c.isChain.height h]

theorem transaction_eq_some {tx : Transaction} (hmem : hash ∈ c.hashes)
    (htx : tx ∈ (c.tree.block hash).txdata) : ∃ tx', c.transaction (lib.txid tx) = some tx' := by
  refine Option.isSome_iff_exists.mp (List.find?_isSome.mpr ⟨tx, ?_, decide_eq_true rfl⟩)
  exact List.mem_flatMap.mpr ⟨hash, hmem, htx⟩

/-- The node has the data of each transaction in a block, and of the first one. -/
theorem eval_core_getTransactionProof (hmem : hash ∈ c.hashes)
    (htx : txid ∈ c.tree.txids lib hash) : ∃ proof,
    (Core.getTransactionProof lib serialize txid hash).run.eval c.node = .ok proof := by
  obtain ⟨userTx, huserTx, rfl⟩ := List.mem_map.mp htx
  have hraw {tx : Transaction} (htx : tx ∈ (c.tree.block hash).txdata) : ∃ raw,
      (Core.getRawTx (E := E) serialize (lib.txid tx) hash).run.eval c.node = .ok raw := by
    obtain ⟨tx', htx'⟩ := transaction_eq_some hmem htx
    refine ⟨serialize tx', ?_⟩
    simp only [Core.getRawTx, Core.ask, Prog.request, Prog.eval_run_bind, Prog.eval_run_mk,
      Prog.eval_map, Prog.eval, node, htx', Prog.mapError_ok, Prog.bind_ok, Prog.eval_run_pure]
  have hblock : (Core.getBlock hash).run.eval c.node = .ok (c.tree.block hash) := rfl
  have hproof (txid : Txid) : (Core.getProof txid hash).run.eval c.node = .ok (c.proof txid) := rfl
  obtain ⟨rawUser, hrawUser⟩ := hraw huserTx
  rw [Core.getTransactionProof, Prog.eval_run_bind, hblock, Prog.bind_ok]
  cases hcoinbase : (c.tree.block hash).coinbase with
  | none =>
    rw [Block.coinbase, List.head?_eq_none_iff] at hcoinbase
    rw [hcoinbase] at huserTx
    cases huserTx
  | some coinbase =>
    obtain ⟨rawCoinbase, hrawCoinbase⟩ := hraw (List.mem_of_head? hcoinbase)
    simp only [Prog.eval_run_bind, hproof, hrawCoinbase, hrawUser, Prog.bind_ok, Prog.eval_run_pure]
    exact ⟨_, rfl⟩

variable (numConfirmations blockHash isWallet) in
theorem eval_core_getConfirmed (h : c.hashes[height]? = some hash)
    (htx : txid ∈ c.tree.txids lib hash) : ∃ fee,
    (Core.getConfirmed txid numConfirmations blockHash isWallet).run.eval c.node =
      if numConfirmations.toNat ≤ c.hashes.length - height then .ok (hash, fee)
      else .error .confirmationError := by
  have hbounded := c.bounded
  have hblock := blockOf_eq h htx
  have hconfirmations := confirmations_eq h
  have hle : numConfirmations ≤ UInt32.ofNat (c.hashes.length - height) ↔
      numConfirmations.toNat ≤ c.hashes.length - height := by
    rw [UInt32.le_iff_toNat_le, UInt32.toNat_ofNat_of_lt' (by rw [UInt32.size]; omega)]
  have hnonneg : (0 : Int32) ≤ Int32.ofNat (c.hashes.length - height) := by
    rw [Int32.le_iff_toInt_le, Int32.toInt_ofNat_of_lt (by omega)]
    exact Int.natCast_nonneg _
  cases isWallet with
  | true =>
    refine ⟨some (-(c.fee txid).toNat), ?_⟩
    simp only [Core.getConfirmed, Core.ask, Prog.request, if_true, Prog.eval_run_bind,
      Prog.eval_run_mk, Prog.eval_map, Prog.eval, node, hblock, hconfirmations, Prog.mapError_ok,
      Prog.bind_ok, ge_iff_le, hnonneg, true_and, Int32.toUInt32_ofNat', hle]
    split
    · rfl
    · rfl
  | false =>
    refine ⟨none, ?_⟩
    simp only [Core.getConfirmed, Core.ask, Prog.request, Bool.false_eq_true, if_false,
      Prog.eval_run_bind, Prog.eval_run_mk, Prog.eval_map, Prog.eval, node, hblock, hconfirmations,
      Prog.mapError_ok, Prog.bind_ok, ge_iff_le, hle]
    split
    · rfl
    · rfl

theorem coreAcceptsTransaction_iff (h : c.hashes[height]? = some hash)
    (htx : txid ∈ c.tree.txids lib hash) :
    c.CoreAcceptsTransaction serialize txid numConfirmations blockHash isWallet ↔
      numConfirmations.toNat ≤ c.hashes.length - height := by
  obtain ⟨fee, hconfirmed⟩ := eval_core_getConfirmed numConfirmations blockHash isWallet h htx
  constructor
  · rintro ⟨retries, proofRetries, metadata, hmetadata⟩
    by_contra hdeep
    rw [if_neg hdeep] at hconfirmed
    rw [Core.waitForTransactionMetadata, Prog.eval_run_bind, Prog.eval_retry, hconfirmed]
      at hmetadata
    cases hmetadata
  · intro hdeep
    rw [if_pos hdeep] at hconfirmed
    obtain ⟨proof, hproof⟩ := eval_core_getTransactionProof serialize (List.mem_of_getElem? h) htx
    refine ⟨0, 0, ⟨txid, proof, hash, fee⟩, ?_⟩
    rw [Core.waitForTransactionMetadata, Prog.eval_run_bind, Prog.eval_retry, hconfirmed,
      Prog.bind_ok]
    dsimp only
    rw [Prog.eval_run_bind, Prog.eval_retry, hproof]
    rfl

variable (numConfirmations) in
theorem eval_light_getConfirmed (h : c.hashes[height]? = some hash)
    (htx : txid ∈ c.tree.txids lib hash) : ∃ fee,
    (LightChain.getConfirmed txid numConfirmations).run.eval (c.server notFound) =
      if numConfirmations.toNat ≤ c.tip - height then .ok (hash, fee)
      else .error .confirmationError := by
  have hblock := blockOf_eq h htx
  have hheight := c.isChain.height h
  have hsmall : height % 2 ^ 32 = height := by
    have hlt := (List.getElem?_eq_some_iff.mp h).1
    have hbounded := c.bounded
    exact Nat.mod_eq_of_lt (by omega)
  refine ⟨(c.fee txid).toInt64.toInt, ?_⟩
  have hinfo : (LightChain.getTxInfo (E := E) txid).run.eval (c.server notFound) =
      .ok ⟨c.tip - height, height, hash, (c.fee txid).toInt64.toInt⟩ := by
    simp only [LightChain.getTxInfo, LightChain.getBlocksTipHeight, LightChain.get, LightChain.ask,
      Prog.request, Prog.eval_run_bind, Prog.eval_run_mk, Prog.eval_map, Prog.eval, server, hblock,
      Prog.mapError_ok, Prog.bind_ok, Option.bind_some, hheight, hsmall, Prog.eval_run_pure]
  simp only [LightChain.getConfirmed, Prog.eval_run_bind, Prog.eval_run_lift, hinfo, Prog.bind_ok,
    ge_iff_le]
  split
  · rfl
  · rfl

theorem eval_light_getTransactionProof (htx : txid ∈ c.tree.txids lib hash) : ∃ proof,
    (LightChain.getTransactionProof txid hash).run.eval (c.server notFound) = .ok proof := by
  have htxids : (LightChain.get (LightChain.ask (E := E) (.blockTxids hash))).run.eval
      (c.server notFound) = .ok (c.tree.txids lib hash) := rfl
  have hproof (txid : Txid) : (LightChain.getRawTxMerkleProof (E := E) txid).run.eval
      (c.server notFound) = .ok (c.proof txid) := rfl
  have hraw (txid : Txid) : (LightChain.getRawTx (E := E) txid).run.eval (c.server notFound) =
      .ok (c.raw txid) := rfl
  obtain ⟨coinbaseTxid, txids, hcons⟩ := List.exists_cons_of_ne_nil (List.ne_nil_of_mem htx)
  have hcoinbase : (LightChain.getCoinbaseTxid (E := E) hash).run.eval (c.server notFound) =
      .ok coinbaseTxid := by
    rw [LightChain.getCoinbaseTxid, Prog.eval_run_bind, htxids, hcons]
    rfl
  simp only [LightChain.getTransactionProof, Prog.eval_run_bind, Prog.eval_run_adapt, hcoinbase,
    hproof, hraw, Prog.mapError_ok, Prog.bind_ok, Prog.eval_run_pure]
  exact ⟨_, rfl⟩

theorem lightAcceptsTransaction_iff (h : c.hashes[height]? = some hash)
    (htx : txid ∈ c.tree.txids lib hash) :
    c.LightAcceptsTransaction notFound txid numConfirmations blockHash isWallet ↔
      numConfirmations.toNat ≤ c.tip - height := by
  obtain ⟨fee, hconfirmed⟩ := eval_light_getConfirmed notFound numConfirmations h htx
  constructor
  · rintro ⟨retries, proofRetries, metadata, hmetadata⟩
    by_contra hdeep
    rw [if_neg hdeep] at hconfirmed
    rw [LightChain.waitForTransactionMetadata, Prog.eval_run_bind, Prog.eval_retry, hconfirmed]
      at hmetadata
    cases hmetadata
  · intro hdeep
    rw [if_pos hdeep] at hconfirmed
    obtain ⟨proof, hproof⟩ := eval_light_getTransactionProof notFound htx
    refine ⟨0, 0, ⟨txid, proof, hash, some fee⟩, ?_⟩
    rw [LightChain.waitForTransactionMetadata, Prog.eval_run_bind, Prog.eval_retry, hconfirmed,
      Prog.bind_ok]
    dsimp only
    rw [Prog.eval_run_bind, Prog.eval_retry, hproof]
    rfl

end Transactions

/-! ### Agreement -/

/-- The clients take the block and the transaction for confirmed alike. -/
structure ClientsAgree (height : Nat) (txid : Txid) (numConfirmations : UInt32) : Prop where
  block : c.CoreAcceptsBlock height numConfirmations ↔
    c.LightAcceptsBlock notFound height numConfirmations
  transaction : ∀ blockHash isWallet,
    c.CoreAcceptsTransaction serialize txid numConfirmations blockHash isWallet ↔
      c.LightAcceptsTransaction notFound txid numConfirmations blockHash isWallet

/-- The clients agree unless the block has just as many confirmations as are asked for, itself
included, or the number is one that a signed one cannot hold. -/
theorem clientsAgree_iff {height : Nat} {hash : BlockHash} {txid : Txid}
    (h : c.hashes[height]? = some hash) (htx : txid ∈ c.tree.txids lib hash)
    (numConfirmations : UInt32) :
    c.ClientsAgree serialize notFound height txid numConfirmations ↔
      c.tip - height + 1 ≠ numConfirmations.toNat ∧ numConfirmations.toNat < 2 ^ 31 := by
  have hbounded := c.bounded
  have hlt := (List.getElem?_eq_some_iff.mp h).1
  have hdepth : c.hashes.length - height = c.tip - height + 1 := by
    rw [tip]
    omega
  have hblock : (c.CoreAcceptsBlock height numConfirmations ↔
      c.LightAcceptsBlock notFound height numConfirmations) ↔
      c.tip - height + 1 ≠ numConfirmations.toNat ∧ numConfirmations.toNat < 2 ^ 31 := by
    rw [coreAcceptsBlock_iff h, lightAcceptsBlock_iff notFound h, toInt32_le_iff (by omega), hdepth]
    omega
  constructor
  · exact fun hagree => hblock.mp hagree.block
  · intro hne
    refine ⟨hblock.mpr hne, fun blockHash isWallet => ?_⟩
    rw [coreAcceptsTransaction_iff serialize h htx, lightAcceptsTransaction_iff notFound h htx,
      hdepth]
    omega

/-! ### The first blocks -/

/-- A block with its coinbase transaction alone, which pays all of the reward to a public key. -/
structure MinedBlock where
  hash : BlockHash
  prevBlockhash : BlockHash
  txid : Txid
  inputScript : Script
  publicKey : Nat × Nat

namespace MinedBlock

variable (b : MinedBlock)

def outputScript : Script :=
  [65, 4] ++ toBytes 32 b.publicKey.1 ++ toBytes 32 b.publicKey.2 ++ [0xAC]

def coinbase : Transaction where
  version := 1
  lockTime := 0
  input := [⟨⟨0, 0xFFFFFFFF⟩, b.inputScript, 0xFFFFFFFF, []⟩]
  output := [⟨5000000000, b.outputScript⟩]

/-- The serialised form of the coinbase transaction, which has no witness. -/
def raw : List UInt8 :=
  [1, 0, 0, 0, 1] ++ List.replicate 32 0 ++
    [0xFF, 0xFF, 0xFF, 0xFF, b.inputScript.length.toUInt8] ++ b.inputScript ++
    [0xFF, 0xFF, 0xFF, 0xFF, 1, 0, 0xF2, 5, 0x2A, 1, 0, 0, 0, 67] ++
    b.outputScript ++ [0, 0, 0, 0]

end MinedBlock

def genesisBlock : MinedBlock where
  hash := 0x000000000019d6689c085ae165831e934ff763ae46a2a6c172b3f1b60a8ce26f
  prevBlockhash := 0
  txid := 0x4a5e1e4baab89f3a32518a88c31bc87f618f76673e2cc77ab2127b7afdeda33b
  inputScript :=
    toBytes 33 0x04ffff001d0104455468652054696d65732030332f4a616e2f3230303920436861 ++
    toBytes 33 0x6e63656c6c6f72206f6e206272696e6b206f66207365636f6e64206261696c6f75 ++
    toBytes 11 0x7420666f722062616e6b73
  publicKey :=
    (0x678afdb0fe5548271967f1a67130b7105cd6a828e03909a67962e0ea1f61deb6,
      0x49f6bc3f4cef38c4f35504e51ec112de5c384df7ba0b8d578a4c702b6bf11d5f)

def firstBlock : MinedBlock where
  hash := 0x00000000839a8e6886ab5951d76f411475428afc90947ee320161bbf18eb6048
  prevBlockhash := genesisBlock.hash
  txid := 0x0e3e2357e806b6cdb1f70b54c3a3a17b6714ee1f0e68bebb44a74b1efd512098
  inputScript := toBytes 7 0x04ffff001d0104
  publicKey :=
    (0x96b538e853519c726a2c91e61ec11600ae1390813a627c66fb8be7947be63c52,
      0xda7589379515d4e0a604f8141781e62294721166bf621e73a82cbf2342c858ee)

def secondBlock : MinedBlock where
  hash := 0x000000006a625f06636b8bb6ac7b960a8d03705d1ace08b1a19da3fdcc99ddbd
  prevBlockhash := firstBlock.hash
  txid := 0x9b0fc92260312ce44e74ef369f5c66bbb85848f2eddd5a7a1cde251e54ccfdd5
  inputScript := toBytes 7 0x04ffff001d010b
  publicKey :=
    (0x7211a824f55b505228e4c3d5194c1fcfaa15a456abdf37f9b9d97a4040afc073,
      0xdee6c89064984f03385237d92167c13e236446b417ab79a0fcae412ae3316b77)

/-- The first three blocks, by their heights. -/
def mined : Fin 3 → MinedBlock
  | 0 => genesisBlock
  | 1 => firstBlock
  | 2 => secondBlock

/-- The height of the block that the key is of. -/
def heightOf {K : Type} [DecidableEq K] (key : MinedBlock → K) (k : K) : Option (Fin 3) :=
  (List.finRange 3).find? fun i => key (mined i) = k

theorem heightOf_mined {K : Type} [DecidableEq K] {key : MinedBlock → K}
    (hkey : Function.Injective (key ∘ mined)) (i : Fin 3) :
    heightOf key (key (mined i)) = some i := by
  cases hfind : heightOf key (key (mined i)) with
  | none => simpa using List.find?_eq_none.mp hfind i (List.mem_finRange i)
  | some j => rw [@hkey j i (by simpa using List.find?_some hfind)]

theorem hash_injective : Function.Injective (MinedBlock.hash ∘ mined) := by
  decide +kernel

theorem txid_injective : Function.Injective (MinedBlock.txid ∘ mined) := by
  decide +kernel

/-- The last bytes of the input scripts differ. -/
theorem coinbase_injective : Function.Injective (MinedBlock.coinbase ∘ mined) :=
  .of_comp (f := fun tx : Transaction => tx.input.map fun txin => txin.scriptSig.getLast?)
    (by decide +kernel)

theorem raw_injective : Function.Injective (MinedBlock.raw ∘ mined) :=
  .of_comp (f := fun bytes : List UInt8 => (bytes[41]?, bytes[48]?)) (by decide +kernel)

def firstLib : Lib String :=
  { threeKeys [] ((List.finRange 3).map fun i => ((mined i).txid, (mined i).coinbase)) with
    deserialize := fun bytes =>
      match heightOf MinedBlock.raw bytes with
      | some i => .ok (mined i).coinbase
      | none => .error "malformed transaction" }

theorem txid_coinbase (i : Fin 3) : firstLib.txid (mined i).coinbase = (mined i).txid := by
  have hfound := heightOf_mined coinbase_injective i
  rw [heightOf] at hfound
  simp only [firstLib, threeKeys, List.find?_map, Function.comp_def, hfound, Option.map_some,
    Option.elim_some]

theorem deserialize_raw_mined (i : Fin 3) :
    firstLib.deserialize (mined i).raw = .ok (mined i).coinbase := by
  simp only [firstLib, heightOf_mined raw_injective i]

def firstTree : BlockTree where
  block hash := (heightOf MinedBlock.hash hash).elim ⟨0, []⟩ fun i =>
    ⟨(mined i).prevBlockhash, [(mined i).coinbase]⟩
  height hash := (heightOf MinedBlock.hash hash).elim 0 Fin.val

theorem block_mined (i : Fin 3) : firstTree.block (mined i).hash =
    ⟨(mined i).prevBlockhash, [(mined i).coinbase]⟩ := by
  simp only [firstTree, heightOf_mined hash_injective i, Option.elim_some]

theorem txids_mined (i : Fin 3) : firstTree.txids firstLib (mined i).hash = [(mined i).txid] := by
  rw [BlockTree.txids, block_mined, List.map_singleton, txid_coinbase]

def firstHashes : List BlockHash := List.ofFn fun i => (mined i).hash

theorem mem_firstHashes {hash : BlockHash} (h : hash ∈ firstHashes) :
    ∃ i, (mined i).hash = hash :=
  List.mem_ofFn.mp h

theorem isChain_firstTree : firstTree.IsChain firstHashes := by
  decide +kernel

/-- The chain of the first three blocks. -/
def firstChain : StaticChain firstLib where
  tree := firstTree
  hashes := firstHashes
  isChain := isChain_firstTree
  bounded := by simp [firstHashes]
  distinct hash hhash hash' hhash' txid htxid htxid' := by
    obtain ⟨i, rfl⟩ := mem_firstHashes hhash
    obtain ⟨j, rfl⟩ := mem_firstHashes hhash'
    rw [txids_mined, List.mem_singleton] at htxid htxid'
    rw [txid_injective (htxid'.symm.trans htxid)]
  raw txid := (heightOf MinedBlock.txid txid).elim [] fun i => (mined i).raw
  deserialize_raw hash hhash tx htx := by
    obtain ⟨i, rfl⟩ := mem_firstHashes hhash
    rw [block_mined, List.mem_singleton] at htx
    rw [htx, txid_coinbase, heightOf_mined txid_injective, Option.elim_some, deserialize_raw_mined]
  proof _ := []
  fee _ := 0

theorem getElem?_firstChain (i : Fin 3) : firstChain.hashes[i.val]? = some (mined i).hash := by
  simp only [firstChain, firstHashes, List.getElem?_ofFn, i.isLt, dif_pos]

/-- Both clients take the first of the three blocks when two confirmations are asked for. -/
theorem clientsAgree_firstChain :
    firstChain.ClientsAgree (fun _ => genesisBlock.raw) "not found" 0 genesisBlock.txid 2 ∧
      firstChain.CoreAcceptsBlock 0 2 := by
  have htxids : firstChain.tree.txids firstLib genesisBlock.hash = [genesisBlock.txid] :=
    txids_mined 0
  have hmem : genesisBlock.txid ∈ firstChain.tree.txids firstLib genesisBlock.hash := by
    rw [htxids]
    exact List.mem_singleton_self _
  exact ⟨(clientsAgree_iff firstChain _ "not found" (getElem?_firstChain 0) hmem 2).mpr (by decide),
    (coreAcceptsBlock_iff (getElem?_firstChain 0)).mpr (by decide)⟩

/-- The full node's client takes the second one as well, and the light client does not. -/
theorem not_clientsAgree :
    ¬firstChain.ClientsAgree (fun _ => firstBlock.raw) "not found" 1 firstBlock.txid 2 := by
  intro hagree
  have hcore : firstChain.CoreAcceptsBlock 1 2 :=
    (coreAcceptsBlock_iff (getElem?_firstChain 1)).mpr (by decide)
  have hlight : (2 : UInt32).toNat ≤ firstChain.tip - 1 :=
    (lightAcceptsBlock_iff "not found" (getElem?_firstChain 1)).mp (hagree.block.mp hcore)
  exact absurd hlight (by decide)

end StaticChain

end InterBtcClients.Bitcoin
