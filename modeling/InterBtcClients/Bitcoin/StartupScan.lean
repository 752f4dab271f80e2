import InterBtcClients.Bitcoin.FeeBump
import InterBtcClients.Bitcoin.Iter
import InterBtcClients.Library.Interleave

/-! The transactions that the backward stream has while blocks are mined between its calls: one that
leaves the mempool before it is fetched is in a block by then, and the best block is read later. -/

namespace InterBtcClients.Bitcoin.StartupScan

open Bitcoin.Core Library InterBtcClients.Runtime

variable {E : Type}

/-! ### The node -/

/-- The chain of the node, from the first block on, and the ids of the transactions in its
mempool. -/
structure World (tree : BlockTree) where
  chain : List BlockHash
  isChain : tree.IsChain chain
  nonempty : 0 < chain.length
  bounded : chain.length ≤ 2 ^ 32
  mempool : List Txid

variable (lib : Lib E) {tree : BlockTree}

/-- The transaction is in a block of the chain from the height on. -/
def MinedFrom (height : Nat) (txid : Txid) (w : World tree) : Prop :=
  ∃ i hash, height ≤ i ∧ w.chain[i]? = some hash ∧ txid ∈ tree.txids lib hash

/-- Blocks are mined and transactions are added to the mempool, which the ones that were there leave
only for the new blocks. -/
structure Mines (w w' : World tree) : Prop where
  chain : w.chain <+: w'.chain
  mempool : ∀ txid ∈ w.mempool, txid ∈ w'.mempool ∨ MinedFrom lib w.chain.length txid w'

/-- The node answers every call.  It may find a transaction that is in a block, and it finds every
one that is in the mempool. -/
def nodeEnv : Prog.Env (api E) (World tree)
  | w, .getRawMempool, r, w' => r = .ok w.mempool ∧ w' = w
  | w, .getRawTransaction txid none, r, w' =>
    ((∃ tx, r = .ok tx ∧ lib.txid tx = txid) ∨
      (r = .error (.rpc RpcInvalidAddressOrKey) ∧ txid ∉ w.mempool)) ∧ w' = w
  | w, .getBlockCount, r, w' => r = .ok (w.chain.length - 1) ∧ w' = w
  | w, .getBlockHash height, r, w' =>
    (∀ hash, w.chain[height]? = some hash → r = .ok hash) ∧ w' = w
  | w, .getBlock hash, r, w' => (hash ∈ w.chain → r = .ok (tree.block hash)) ∧ w' = w
  | w, _, _, w' => w' = w

/-- The node, with blocks mined between the calls. -/
abbrev mining : Prog.Env (api E) (World tree) := Prog.interfere (Mines lib) (nodeEnv lib)

/-- All elements of the stream of the transactions of the mempool and of the blocks down to a
height. -/
def scan (fuel stopHeight : Nat) : Rpc E (List (Except (Error E) Transaction)) := do
  let transactions ← reverseStreamTransactions fuel stopHeight
  ExceptT.lift transactions.collect

/-! ### What mining keeps -/

section Mines

variable {lib} {w w' : World tree} {call : Call} {r : (api E).Answer call} {txid : Txid}
variable {height : Nat}

theorem eq_of_nodeEnv (h : nodeEnv lib w call r w') : w' = w := by
  cases call with
  | getRawMempool | getBlockCount | getBlockHash _ | getBlock _ => exact h.2
  | getRawTransaction txid blockHash =>
    cases blockHash with
    | none => exact h.2
    | some hash => exact h
  | _ => exact h

theorem mines_of_mining (h : mining lib w call r w') : Mines lib w w' := by
  obtain ⟨w₁, hmines, hanswer⟩ := h
  rwa [eq_of_nodeEnv hanswer]

theorem getElem?_of_extends {chain chain' : List BlockHash} {i : Nat} {hash : BlockHash}
    (h : chain <+: chain') (hi : chain[i]? = some hash) : chain'[i]? = some hash := by
  obtain ⟨new, rfl⟩ := h
  rw [List.getElem?_append_left (List.getElem?_eq_some_iff.mp hi).1, hi]

theorem MinedFrom.mono (h : MinedFrom lib height txid w) (hextends : w.chain <+: w'.chain) :
    MinedFrom lib height txid w' := by
  obtain ⟨i, hash, hi, hhash, htxid⟩ := h
  exact ⟨i, hash, hi, getElem?_of_extends hextends hhash, htxid⟩

variable (lib) in
/-- A transaction that was in the mempool when the chain was `height` long is still there or in a
later block. -/
structure Awaited (height : Nat) (txid : Txid) (w : World tree) : Prop where
  height_le : height ≤ w.chain.length
  known : txid ∈ w.mempool ∨ MinedFrom lib height txid w

theorem Awaited.mines (h : Awaited lib height txid w) (hmines : Mines lib w w') :
    Awaited lib height txid w' := by
  refine ⟨h.height_le.trans hmines.chain.length_le, ?_⟩
  rcases h.known with hmem | hmined
  · rcases hmines.mempool txid hmem with hmem | ⟨i, hash, hi, hhash, htxid⟩
    · exact .inl hmem
    · exact .inr ⟨i, hash, h.height_le.trans hi, hhash, htxid⟩
  · exact .inr (hmined.mono hmines.chain)

end Mines

/-! ### The mempool -/

section Scan

variable {lib} {w w' : World tree} {txid : Txid} {height fuel stopHeight : Nat} {hash : BlockHash}

/-- The transactions of the mempool that are still to be fetched. -/
def unfetched (txids : List Txid) : AsyncStream (api E) (Except (Error E) Transaction) :=
  txids.foldr (fun txid rest => .call (.getRawTransaction txid none) fun
    | .ok tx => .yield (.ok tx) rest
    | .error e => if errNotInMempool e then rest else .yield (.error (.bitcoinError e)) rest) .done

variable (lib) in
def Yielded (txid : Txid) (items : List (Except (Error E) Transaction)) : Prop :=
  ∃ tx, .ok tx ∈ items ∧ lib.txid tx = txid

theorem Yielded.mono {items items' : List (Except (Error E) Transaction)}
    (h : Yielded lib txid items) (hsubset : items ⊆ items') : Yielded lib txid items' := by
  obtain ⟨tx, htx, htxid⟩ := h
  exact ⟨tx, hsubset htx, htxid⟩

variable (lib height) in
/-- A listed transaction is fetched, or it is in a later block when the last one has been. -/
theorem keeps_unfetched (txids : List Txid) :
    Prog.Keeps (mining lib) (fun _ => True) (unfetched txids).collect
      (fun items w' => ∀ txid ∈ txids, Awaited lib height txid w →
        Yielded lib txid items ∨ MinedFrom lib height txid w') w := by
  induction txids generalizing w with
  | nil => exact ⟨trivial, List.forall_mem_nil _⟩
  | cons first txids ih =>
    refine ⟨trivial, fun r w' hr => ?_⟩
    obtain ⟨w₁, hmines, hanswer, rfl⟩ := hr
    rcases hanswer with ⟨tx, rfl, htx⟩ | ⟨rfl, hgone⟩
    · refine Prog.keeps_map.mpr (ih.mono fun items _ _ hitems => List.forall_mem_cons.mpr ⟨?_, ?_⟩)
      · exact fun _ => .inl ⟨tx, List.mem_cons_self, htx⟩
      · exact fun txid hmem hawaited => (hitems txid hmem (hawaited.mines hmines)).imp_left
          fun hyielded => hyielded.mono (List.subset_cons_self _ _)
    · -- If the node had it, a block has taken it.
      have hmined (hawaited : Awaited lib height first w) : MinedFrom lib height first w' :=
        (hawaited.mines hmines).known.resolve_left hgone
      have hrest := (ih (w := w')).frame (J := fun w'' =>
        Awaited lib height first w → MinedFrom lib height first w'')
        (fun _ _ _ _ hmined hr hawaited => (hmined hawaited).mono (mines_of_mining hr).chain) hmined
      refine hrest.mono fun items _ _ hitems => List.forall_mem_cons.mpr ⟨?_, ?_⟩
      · exact fun hawaited => .inr (hitems.2 hawaited)
      · exact fun txid hmem hawaited => hitems.1 txid hmem (hawaited.mines hmines)

/-! ### The blocks -/

variable (lib fuel) in
/-- The stream has the ancestors of its last block, down to the height where it stops. -/
theorem keeps_reverseBlock (hstop : 1 ≤ stopHeight) (h : w.chain[height]? = some hash) :
    Prog.Keeps (mining lib) (fun _ => True)
      (AsyncStream.unfold (reverseBlock stopHeight) fuel
        ⟨some height, some (tree.block hash)⟩).collect
      (fun items _ => ∀ i hash, i < height → stopHeight ≤ i → height ≤ i + fuel →
        w.chain[i]? = some hash → .ok (tree.block hash) ∈ items) w := by
  induction fuel generalizing w height hash with
  | zero => exact ⟨trivial, fun i hash hi _ hfuel _ => by omega⟩
  | succ fuel ih =>
    rw [AsyncStream.unfold, AsyncStream.collect_after]
    refine Prog.keeps_bind.mpr ?_
    change Prog.Keeps _ _ (if height - 1 < stopHeight then _ else _) _ _
    split
    next hlow => exact ⟨trivial, trivial, fun i hash hi hstopi _ _ => by omega⟩
    next hlow =>
      obtain ⟨height, rfl⟩ := Nat.exists_eq_add_of_le' (show 1 ≤ height by omega)
      rw [Nat.add_sub_cancel] at hlow ⊢
      have hparent := w.isChain.parent h
      refine Prog.keeps_bind.mpr (Prog.keeps_request.mpr ⟨trivial, fun r w' hr => ⟨trivial, ?_⟩⟩)
      obtain ⟨w₁, hmines, hblock, rfl⟩ := hr
      have hparent' := getElem?_of_extends hmines.chain hparent
      rw [hblock (List.mem_of_getElem? hparent')]
      refine ⟨trivial, Prog.keeps_map.mpr ((ih hparent').mono fun items _ _ hitems => ?_)⟩
      intro i hash hi hstopi hfuel hhash
      rcases Nat.lt_succ_iff_lt_or_eq.mp hi with hlt | rfl
      · exact List.mem_cons_of_mem _
          (hitems i hash hlt hstopi (by omega) (getElem?_of_extends hmines.chain hhash))
      · rw [Option.some.inj (hhash.symm.trans hparent)]
        exact List.mem_cons_self

variable (lib) in
/-- The best block is not lower than the tip was when the stream was made. -/
theorem keeps_getBestBlockInfo {chain : List BlockHash} (h : chain <+: w.chain) :
    Prog.Keeps (mining lib) (fun _ => True) getBestBlockInfo.run
      (Prog.Outcome (fun (best, hash) w' => chain.length ≤ best + 1 ∧ chain <+: w'.chain ∧
        w'.chain[best]? = some hash) fun _ _ => False) w := by
  refine Prog.keeps_run_seq (P := fun count w' => count + 1 ≤ w'.chain.length ∧
    chain.length ≤ count + 1 ∧ chain <+: w'.chain) ?_ fun count w _ hcount => ?_
  · refine Prog.keeps_map.mpr (Prog.keeps_request.mpr ⟨trivial, fun r w' hr => ⟨trivial, ?_⟩⟩)
    obtain ⟨w₁, hmines, rfl, rfl⟩ := hr
    have hnonempty := w'.nonempty
    have hextends := h.trans hmines.chain
    have hlength := hextends.length_le
    exact ⟨by omega, by omega, hextends⟩
  · obtain ⟨hcount, hlength, hextends⟩ := hcount
    have hsmall : count % 2 ^ 32 = count := Nat.mod_eq_of_lt (by have := w.bounded; omega)
    rw [hsmall]
    refine Prog.keeps_run_bind.mpr (Prog.keeps_map.mpr (Prog.keeps_request.mpr
      ⟨trivial, fun r w' hr => ⟨trivial, ?_⟩⟩))
    obtain ⟨w₁, hmines, hhash, rfl⟩ := hr
    have hlt : count < w'.chain.length := hcount.trans hmines.chain.length_le
    rw [hhash _ (List.getElem?_eq_getElem hlt)]
    exact ⟨trivial, hlength, hextends.trans hmines.chain, List.getElem?_eq_getElem hlt⟩

theorem keeps_reverseStreamBlocks (hstop : 1 ≤ stopHeight) :
    Prog.Keeps (mining lib) (fun _ => True) (reverseStreamBlocks fuel stopHeight).collect
      (fun items w' => w'.chain.length ≤ fuel → ∀ i hash, stopHeight ≤ i →
        w.chain[i]? = some hash → .ok (tree.block hash) ∈ items) w := by
  cases fuel with
  | zero => exact ⟨trivial, fun hfuel => absurd hfuel w.nonempty.not_ge⟩
  | succ fuel =>
    rw [reverseStreamBlocks, AsyncStream.unfold, AsyncStream.collect_after]
    have hbest := keeps_getBestBlockInfo lib (List.prefix_refl w.chain)
    refine Prog.keeps_bind.mpr (Prog.keeps_bind.mpr (hbest.mono fun r w₁ _ hr => ?_))
    cases r with
    | error => exact hr.elim
    | ok best =>
      obtain ⟨best, hash⟩ := best
      obtain ⟨hlength, hextends, hhash⟩ := hr
      change Prog.Keeps _ _ (if best < stopHeight then _ else _) _ _
      split
      next hlow =>
        refine ⟨trivial, trivial, fun _ i hash hstopi hi => ?_⟩
        have hlt := (List.getElem?_eq_some_iff.mp hi).1
        omega
      next hlow =>
        refine Prog.keeps_bind.mpr (Prog.keeps_request.mpr ⟨trivial, fun r w' hr => ⟨trivial, ?_⟩⟩)
        obtain ⟨w₁, hmines, hblock, rfl⟩ := hr
        have hhash := getElem?_of_extends hmines.chain hhash
        have hextends := hextends.trans hmines.chain
        rw [hblock (List.mem_of_getElem? hhash)]
        have hrest := (keeps_reverseBlock lib fuel hstop hhash).frame
          (fun w call r w'' (h : w'.chain <+: w.chain) hr => h.trans (mines_of_mining hr).chain)
          (List.prefix_refl w'.chain)
        refine ⟨trivial, Prog.keeps_map.mpr (hrest.mono fun items w'' _ hitems => ?_)⟩
        intro hfuel i hash' hstopi hi
        have hi' := getElem?_of_extends hextends hi
        have hbest := (List.getElem?_eq_some_iff.mp hhash).1
        have hfinal := hitems.2.length_le
        have hlt := (List.getElem?_eq_some_iff.mp hi).1
        rcases Nat.lt_or_eq_of_le (show i ≤ best by omega) with hlt | rfl
        · exact List.mem_cons_of_mem _ (hitems.1 i hash' hlt hstopi (by omega) hi')
        · rw [Option.some.inj (hi'.symm.trans hhash)]
          exact List.mem_cons_self

/-! ### The scan -/

variable (lib) in
/-- The scan has what was in the mempool and in the blocks, down to a height, when it began; of the
transactions of the mempool those can be missing that have been mined below that height since. -/
structure Scanned (stopHeight : Nat) (w : World tree)
    (items : List (Except (Error E) Transaction)) (w' : World tree) : Prop where
  chain : ∀ {height hash}, stopHeight ≤ height → w.chain[height]? = some hash →
    ∀ tx ∈ (tree.block hash).txdata, .ok tx ∈ items
  mempool : ∀ txid ∈ w.mempool, Yielded lib txid items ∨ ∃ height hash,
    w.chain.length ≤ height ∧ height < stopHeight ∧ w'.chain[height]? = some hash ∧
      txid ∈ tree.txids lib hash

variable (lib w fuel) in
/-- The blocks that are read have all transactions that are in a block when the first one is. -/
theorem keeps_reverseStreamInChainTransactions (hstop : 1 ≤ stopHeight) :
    Prog.Keeps (mining lib) (fun _ => True)
      (reverseStreamInChainTransactions fuel stopHeight).collect
      (fun items w' => w'.chain.length ≤ fuel → ∀ i hash, stopHeight ≤ i →
        w.chain[i]? = some hash → ∀ tx ∈ (tree.block hash).txdata, .ok tx ∈ items) w := by
  rw [reverseStreamInChainTransactions, AsyncStream.collect_flatMap]
  refine Prog.keeps_map.mpr ((keeps_reverseStreamBlocks hstop).mono fun blocks w' _ hblocks => ?_)
  intro hfuel i hash hstopi hi tx htx
  exact List.mem_flatMap.mpr ⟨_, hblocks hfuel i hash hstopi hi, List.mem_map_of_mem htx⟩

theorem keeps_scan (hstop : 1 ≤ stopHeight) :
    Prog.Keeps (mining lib) (fun _ => True) (scan fuel stopHeight).run
      (Prog.Outcome (fun items w' => w'.chain.length ≤ fuel → Scanned lib stopHeight w items w')
        fun _ _ => False) w := by
  refine Prog.keeps_run_bind.mpr (Prog.keeps_run_bind.mpr (Prog.keeps_run_bind.mpr
    (Prog.keeps_map.mpr (Prog.keeps_request.mpr ⟨trivial, fun r w₁ hr => ⟨trivial, ?_⟩⟩))))
  obtain ⟨_, hmines, rfl, rfl⟩ := hr
  refine ⟨trivial, trivial, Prog.keeps_run_lift.mpr ?_⟩
  rw [AsyncStream.collect_append]
  have hlisted := (keeps_unfetched lib w.chain.length w₁.mempool).frame
      (fun _ _ _ _ (h : w₁.chain <+: _) hr => h.trans (mines_of_mining hr).chain)
      (List.prefix_refl w₁.chain)
  refine Prog.keeps_bind.mpr (hlisted.mono fun fetched w₂ _ hfetched => ?_)
  obtain ⟨hfetched, hextends⟩ := hfetched
  have hfound := (keeps_reverseStreamInChainTransactions lib w₂ fuel hstop).frame
    (fun _ _ _ _ (h : w₂.chain <+: _) hr => h.trans (mines_of_mining hr).chain)
      (List.prefix_refl w₂.chain)
  refine Prog.keeps_map.mpr (hfound.mono fun found w₃ _ hfound hfuel => ⟨?_, fun txid hmem => ?_⟩)
  · exact fun {height hash} hheight hhash tx htx => List.mem_append_right _ (hfound.1 hfuel height
      hash hheight (getElem?_of_extends (hmines.chain.trans hextends) hhash) tx htx)
  · have hyielded : Yielded lib txid fetched ∨ MinedFrom lib w.chain.length txid w₂ := by
      rcases hmines.mempool txid hmem with hmem | hmined
      · exact hfetched txid hmem ⟨hmines.chain.length_le, .inl hmem⟩
      · exact .inr (hmined.mono hextends)
    rcases hyielded with hyielded | ⟨i, hash, hi, hhash, htxid⟩
    · exact .inl (hyielded.mono (List.subset_append_left _ _))
    · by_cases hlow : i < stopHeight
      · exact .inr ⟨i, hash, hi, hlow, getElem?_of_extends hfound.2 hhash, htxid⟩
      · obtain ⟨tx, htx, rfl⟩ := List.mem_map.mp htxid
        exact .inl ⟨tx, List.mem_append_right _
          (hfound.1 hfuel i hash (Nat.le_of_not_lt hlow) hhash tx htx), rfl⟩

/-- Whenever blocks are mined, a stream that is read to its end has every transaction that was in
the mempool, or in a block at the height where it stops or above, when it was made, except for those
that are mined below that height. -/
theorem scanned_of_runs (lib : Lib E) {tree : BlockTree} {fuel stopHeight : Nat}
    (hstop : 1 ≤ stopHeight) {w w' : World tree}
    {r : Except (Error E) (List (Except (Error E) Transaction))}
    (hruns : Prog.Runs (mining lib) (scan fuel stopHeight).run w (.pure r) w')
    (hfuel : w'.chain.length ≤ fuel) :
    ∃ items, r = .ok items ∧ Scanned lib stopHeight w items w' := by
  have hscan := (keeps_scan hstop).returns hruns
  cases r with
  | ok items => exact ⟨items, rfl, hscan hfuel⟩
  | error e => exact hscan.elim

end Scan

/-! ### A payment that is mined before it is fetched -/

/-- The blocks 0 and 1, of which the second one has the payment. -/
def paymentTree : BlockTree where
  block hash := ⟨hash - 1, if hash = 1 then [Light.firstVersion] else []⟩
  height := BitVec.toNat

def pendingPayment : World paymentTree where
  chain := [0]
  isChain := by decide
  nonempty := by decide
  bounded := by decide
  mempool := [Light.firstTxid]

def minedPayment : World paymentTree where
  chain := [0, 1]
  isChain := by decide
  nonempty := by decide
  bounded := by decide
  mempool := []

/-- The payment is mined when it is asked for, by a node that does not look for it in the blocks. -/
def miningNode (w : World paymentTree) :
    (call : Call) → (api String).Answer call × World paymentTree
  | .getRawMempool => (.ok w.mempool, w)
  | .getRawTransaction _ none => (.error (.rpc RpcInvalidAddressOrKey), minedPayment)
  | .getBlockCount => (.ok (w.chain.length - 1), w)
  | .getBlockHash height => (match w.chain[height]? with
      | some hash => .ok hash
      | none => .error (.rpc RpcInvalidParameter), w)
  | .getBlock hash => (.ok (paymentTree.block hash), w)
  | .getRawTransaction _ (some _) => (.error (.rpc RpcInvalidAddressOrKey), w)
  | .getBlockInfo _ => (.error (.rpc RpcInvalidAddressOrKey), w)
  | .getRawTransactionInfo _ _ => (.error (.rpc RpcInvalidAddressOrKey), w)
  | .getTransaction _ => (.error (.rpc RpcInvalidAddressOrKey), w)
  | .getTxOutProof _ _ => (.error (.rpc RpcInvalidAddressOrKey), w)
  | .sleep => ((), w)

theorem mines_refl (w : World paymentTree) : Mines Light.twoPayments w w :=
  ⟨List.prefix_refl _, fun _ => .inl⟩

theorem mines_payment : Mines Light.twoPayments pendingPayment minedPayment := by
  refine ⟨⟨[1], rfl⟩, fun txid hmem => .inr ⟨1, 1, by decide, rfl, ?_⟩⟩
  rw [List.mem_singleton.mp hmem]
  decide +kernel

theorem mining_miningNode (w : World paymentTree) (call : Call)
    (h : w = pendingPayment ∨ w = minedPayment) :
    mining Light.twoPayments w call (miningNode w call).1 (miningNode w call).2 ∧
      ((miningNode w call).2 = pendingPayment ∨ (miningNode w call).2 = minedPayment) := by
  have hmines : Mines Light.twoPayments w minedPayment := by
    rcases h with rfl | rfl
    · exact mines_payment
    · exact mines_refl _
  cases call with
  | getRawTransaction txid blockHash =>
    cases blockHash with
    | none => exact ⟨⟨minedPayment, hmines, .inr ⟨rfl, List.not_mem_nil⟩, rfl⟩, .inr rfl⟩
    | some hash => exact ⟨⟨w, mines_refl w, rfl⟩, h⟩
  | getBlockHash height =>
    refine ⟨⟨w, mines_refl w, fun hash hhash => ?_, rfl⟩, h⟩
    dsimp only [miningNode]
    rw [hhash]
  | getBlock hash => exact ⟨⟨w, mines_refl w, fun _ => rfl, rfl⟩, h⟩
  | getRawMempool | getBlockCount => exact ⟨⟨w, mines_refl w, rfl, rfl⟩, h⟩
  | _ => exact ⟨⟨w, mines_refl w, rfl⟩, h⟩

/-- The payment is found in the block. -/
theorem scanned_of_runs_minedPayment : ∃ items,
    (.ok [.ok Light.firstVersion] : Except (Error String) _) = .ok items ∧
      Scanned Light.twoPayments 1 pendingPayment items minedPayment := by
  have hruns : Prog.Runs (mining Light.twoPayments) (scan 2 1).run pendingPayment
      (.pure (.ok [.ok Light.firstVersion])) minedPayment :=
    Prog.runs_exec_of_inv mining_miningNode (scan 2 1).run (.inl rfl)
  exact scanned_of_runs Light.twoPayments (by decide) hruns (by decide)

/-- With a height that the chain has not reached, it is not found at all. -/
theorem not_yielded_of_mined : ¬∀ (fuel stopHeight : Nat) (w w' : World paymentTree)
    (items : List (Except (Error String) Transaction)), 1 ≤ stopHeight →
    Prog.Runs (mining Light.twoPayments) (scan fuel stopHeight).run w (.pure (.ok items)) w' →
    w'.chain.length ≤ fuel → ∀ txid ∈ w.mempool, Yielded Light.twoPayments txid items := by
  intro hclaim
  have hruns : Prog.Runs (mining Light.twoPayments) (scan 2 3).run pendingPayment
      (.pure (.ok [])) minedPayment :=
    Prog.runs_exec_of_inv mining_miningNode (scan 2 3).run (.inl rfl)
  obtain ⟨tx, htx, -⟩ := hclaim 2 3 _ _ _ (by decide) hruns (by decide) Light.firstTxid
    List.mem_cons_self
  cases htx

end InterBtcClients.Bitcoin.StartupScan
