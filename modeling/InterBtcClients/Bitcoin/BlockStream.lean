import InterBtcClients.Bitcoin.Iter
import InterBtcClients.Library.Interleave
import Mathlib.Logic.Relation

/-! The forward stream of blocks on a chain that is extended and reorganised between the calls: a
block that has enough confirmations when they are counted stays where it is, so that the stream has
the blocks of every later chain, one after the other.  A poll ends with a block or with the failure
of a call, unless the block has been asked for too early in each round of the wait. -/

namespace InterBtcClients.Bitcoin.Core

open Library InterBtcClients.Runtime

variable {E : Type}

/-! ### The node -/

/-- One change of the chain: it is extended, or fewer than `depth` of its last blocks are replaced
by at least as many. -/
structure Step (tree : BlockTree) (depth : Nat) (chain chain' : List BlockHash) : Prop where
  isChain : tree.IsChain chain'
  shape : (∃ new, chain' = chain ++ new) ∨
    ∃ kept new, kept ≤ chain.length ∧ chain.length < kept + depth ∧
      chain' = chain.take kept ++ new ∧ chain.length ≤ chain'.length

/-- Any number of changes. -/
abbrev Evolves (tree : BlockTree) (depth : Nat) : List BlockHash → List BlockHash → Prop :=
  Relation.ReflTransGen (Step tree depth)

/-- The node answers from its chain, and has the blocks that have left it as well; any call may
fail. -/
def Answers (tree : BlockTree) (chain : List BlockHash) :
    (call : Call) → (api E).Answer call → Prop
  | .getBlockHash height, r => ∀ hash, r = .ok hash → chain[height]? = some hash
  | .getBlockInfo hash, r => ∀ confirmations : Int32, r = .ok confirmations →
    confirmations.toInt = match tree.depth chain hash with
      | some depth => (depth : Int)
      | none => -1
  | .getBlock hash, r => ∀ block, r = .ok block → block = tree.block hash
  | _, _ => True

/-- A call has failed.  That there is no block at a height yet is no failure. -/
def fails : (call : Call) → (api E).Answer call → Bool
  | .getBlockHash _, .error e => !e.hasCode RpcInvalidParameter
  | .getBlockInfo _, .error _ => true
  | .getBlock _, .error _ => true
  | _, _ => false

/-- A block is asked for before it has enough confirmations, or before it is there. -/
def asksEarly (numConfirmations : UInt32) (chain : List BlockHash) :
    (call : Call) → (api E).Answer call → Bool
  | .getBlockHash _, .error e => e.hasCode RpcInvalidParameter
  | .getBlockHash height, .ok _ => chain.length < height + numConfirmations.toNat
  | _, _ => false

/-- The chain of the node, with how many calls have failed and how many have asked too early. -/
structure ChainNode where
  chain : List BlockHash
  failed : Nat
  early : Nat

def ChainNode.count (numConfirmations : UInt32) (node : ChainNode) (call : Call)
    (r : (api E).Answer call) : ChainNode :=
  { node with
    failed := node.failed + (fails call r).toNat
    early := node.early + (asksEarly numConfirmations node.chain call r).toNat }

def nodeEnv (tree : BlockTree) (numConfirmations : UInt32) : Prog.Env (api E) ChainNode :=
  fun node call r node' => Answers tree node.chain call r ∧
    node' = node.count numConfirmations call r

/-- The chain changes, between two calls. -/
structure ChainNode.Evolves (tree : BlockTree) (depth : Nat) (node node' : ChainNode) : Prop where
  chain : Core.Evolves tree depth node.chain node'.chain
  failed : node'.failed = node.failed
  early : node'.early = node.early

/-- The node, with changes of the chain between the calls. -/
abbrev evolving (tree : BlockTree) (numConfirmations : UInt32) : Prog.Env (api E) ChainNode :=
  Prog.interfere (ChainNode.Evolves tree numConfirmations.toNat) (nodeEnv tree numConfirmations)

def okItems (items : List (Except (Error E) Block)) : List Block :=
  items.filterMap Except.toOption

@[simp] theorem okItems_nil : okItems ([] : List (Except (Error E) Block)) = [] := rfl

@[simp] theorem okItems_cons_ok (block : Block) (items : List (Except (Error E) Block)) :
    okItems (.ok block :: items) = block :: okItems items := rfl

@[simp] theorem okItems_cons_error (e : Error E) (items : List (Except (Error E) Block)) :
    okItems (.error e :: items) = okItems items := rfl

/-! ### Final blocks -/

/-- The block is at the height, with so many blocks from it on that no change reaches it. -/
structure Final (depth height : Nat) (hash : BlockHash) (chain : List BlockHash) : Prop where
  at_height : chain[height]? = some hash
  deep : height + depth ≤ chain.length

section Final

variable {tree : BlockTree} {depth height : Nat} {hash : BlockHash} {chain chain' : List BlockHash}

theorem Final.step (h : Final depth height hash chain) (hstep : Step tree depth chain chain') :
    Final depth height hash chain' := by
  have hlt := (List.getElem?_eq_some_iff.mp h.at_height).1
  have hdeep := h.deep
  rcases hstep.shape with ⟨new, rfl⟩ | ⟨kept, new, hkept, hreplaced, rfl, hlength⟩
  · refine ⟨by rw [List.getElem?_append_left hlt, h.at_height], ?_⟩
    rw [List.length_append]
    omega
  · have htake : height < (chain.take kept).length := by
      rw [List.length_take]
      omega
    refine ⟨?_, by omega⟩
    rw [List.getElem?_append_left htake, List.getElem?_take_of_lt (by omega), h.at_height]

theorem Final.evolves (h : Final depth height hash chain)
    (hevolves : Evolves tree depth chain chain') : Final depth height hash chain' := by
  induction hevolves with
  | refl => exact h
  | tail _ hstep ih => exact ih.step hstep

theorem isChain_evolves (h : tree.IsChain chain) (hevolves : Evolves tree depth chain chain') :
    tree.IsChain chain' := by
  cases hevolves with
  | refl => exact h
  | tail _ hstep => exact hstep.isChain

end Final

/-! ### The wait for a block -/

section Wait

variable {tree : BlockTree} {height fuel : Nat} {numConfirmations : UInt32} {node : ChainNode}
variable {chain : List BlockHash}

/-- What a wait that ends returns: the final block at the height. -/
def Found (tree : BlockTree) (numConfirmations : UInt32) (height : Nat) (block : Block)
    (chain : List BlockHash) : Prop :=
  ∃ hash, Final numConfirmations.toNat height hash chain ∧ block = tree.block hash

theorem toInt_numConfirmations (hsmall : numConfirmations.toNat < 2 ^ 31) :
    numConfirmations.toInt32.toInt = numConfirmations.toNat := by
  rw [← Int32.toInt_ofNat_of_lt hsmall, ← UInt32.toInt32_ofNat', UInt32.ofNat_toNat]

/-- A block of that height has enough confirmations just when it is in the chain, and as deep as
that. -/
theorem confirmed_iff_final {hash : BlockHash} {confirmations : Int32}
    (hsmall : numConfirmations.toNat < 2 ^ 31) (hheight : tree.height hash = height)
    (hinfo : confirmations.toInt = match tree.depth chain hash with
      | some depth => (depth : Int)
      | none => -1) :
    numConfirmations.toInt32 ≤ confirmations ↔
      Final numConfirmations.toNat height hash chain := by
  rw [Int32.le_iff_toInt_le, toInt_numConfirmations hsmall, hinfo]
  cases hdepth : tree.depth chain hash with
  | none =>
    refine iff_of_false (by simp only; omega) fun hfinal => ?_
    have hmem := hheight.symm ▸ hfinal.at_height
    cases hdepth.symm.trans (BlockTree.depth_eq_some_iff.mpr ⟨hmem, rfl⟩)
  | some depth =>
    obtain ⟨hmem, rfl⟩ := BlockTree.depth_eq_some_iff.mp hdepth
    rw [hheight] at hmem ⊢
    have hlt := (List.getElem?_eq_some_iff.mp hmem).1
    simp only
    exact ⟨fun hdeep => ⟨hmem, by omega⟩, fun hfinal => by have := hfinal.deep; omega⟩

/-- The node answers each call from one of the chains that evolve. -/
theorem keeps_ask {call : Call} {Q : (api E).Answer call → ChainNode → Prop}
    (h : tree.IsChain node.chain)
    (hQ : ∀ r node', tree.IsChain node'.chain →
      ChainNode.Evolves tree numConfirmations.toNat node node' → Answers tree node'.chain call r →
      Q r (node'.count numConfirmations call r)) :
    Prog.Keeps (evolving tree numConfirmations) (fun node => tree.IsChain node.chain) (ask call) Q
      node := by
  refine Prog.keeps_request.mpr ⟨h, fun r node' hr => ?_⟩
  obtain ⟨node₁, hevolves, hanswer, rfl⟩ := hr
  have h₁ := isChain_evolves h hevolves.chain
  exact ⟨h₁, hQ r node₁ h₁ hevolves hanswer⟩

/-- What a round of a wait that is started at `node` ends with. -/
def RoundEnds (tree : BlockTree) (numConfirmations : UInt32) (height : Nat) (node : ChainNode) :
    Except (Error E) (Unit ⊕ Block) → ChainNode → Prop
  | .ok (.inl ()), node' => node'.failed = node.failed ∧ node.early + 1 ≤ node'.early
  | .ok (.inr block), node' => node'.failed = node.failed ∧
    Found tree numConfirmations height block node'.chain
  | .error _, node' => node'.failed = node.failed + 1

/-- The round ends with another one to come. -/
theorem keeps_sleep {start : ChainNode} (h : tree.IsChain node.chain)
    (hfailed : node.failed = start.failed) (hearly : start.early + 1 ≤ node.early) :
    Prog.Keeps (evolving tree numConfirmations) (fun node => tree.IsChain node.chain) ((do
      ExceptT.lift (ask .sleep)
      return .inl () : Rpc E (Unit ⊕ Block)).run)
      (RoundEnds tree numConfirmations height start) node := by
  refine Prog.keeps_run_bind.mpr (Prog.keeps_run_lift.mpr
    (keeps_ask h fun _ node' h' hevolves _ => ?_))
  refine ⟨h', hevolves.failed.trans hfailed, ?_⟩
  change _ ≤ node'.early
  rw [hevolves.early]
  exact hearly

/-- A round sleeps only when it has asked early: a block that had enough confirmations when its hash
was asked for still has them when they are counted. -/
theorem keeps_waitForBlockRound (hsmall : numConfirmations.toNat < 2 ^ 31)
    (h : tree.IsChain node.chain) :
    Prog.Keeps (evolving (E := E) tree numConfirmations) (fun node => tree.IsChain node.chain)
      (waitForBlockRound height numConfirmations).run
      (RoundEnds tree numConfirmations height node) node := by
  refine Prog.keeps_run_bind.mpr (Prog.keeps_run_lift.mpr
    (keeps_ask h fun r node₁ h₁ hevolves₁ hhash => ?_))
  cases r with
  | error e =>
    change Prog.Keeps _ _ (ExceptT.run (if _ then _ else _)) _ _
    cases hcode : e.hasCode RpcInvalidParameter with
    | true =>
      refine keeps_sleep h₁ ?_ ?_
      · simp [ChainNode.count, fails, hcode, hevolves₁.failed]
      · simp [ChainNode.count, asksEarly, hcode, hevolves₁.early]
    | false =>
      refine ⟨h₁, ?_⟩
      simp [RoundEnds, ChainNode.count, fails, hcode, hevolves₁.failed]
  | ok hash =>
    have hheight := h₁.height (hhash hash rfl)
    refine Prog.keeps_run_bind.mpr (Prog.keeps_map.mpr
      (keeps_ask h₁ fun r node₂ h₂ hevolves₂ hinfo => ?_))
    have hfailed : node₂.failed = node.failed := hevolves₂.failed.trans hevolves₁.failed
    cases r with
    | error e => exact congrArg (· + 1) hfailed
    | ok confirmations =>
      have hconfirmed := confirmed_iff_final hsmall hheight (hinfo confirmations rfl)
      change Prog.Keeps _ _ (ExceptT.run (if _ then _ else _)) _ _
      split
      next hdeep =>
        have hfinal := hconfirmed.mp hdeep
        refine Prog.keeps_run_bind.mpr (Prog.keeps_map.mpr
          (keeps_ask h₂ fun r node₃ h₃ hevolves₃ hblock => ?_))
        have hfailed' : node₃.failed = node.failed := hevolves₃.failed.trans hfailed
        cases r with
        | error e => exact congrArg (· + 1) hfailed'
        | ok block =>
          exact ⟨h₃, hfailed', hash, hfinal.evolves hevolves₃.chain, hblock block rfl⟩
      next hshallow =>
        have hearly : node₁.chain.length < height + numConfirmations.toNat := by
          by_contra hdeep
          exact hshallow (hconfirmed.mpr
            (Final.evolves ⟨hhash hash rfl, Nat.not_lt.mp hdeep⟩ hevolves₂.chain))
        refine keeps_sleep h₂ hfailed ?_
        simp [ChainNode.count, asksEarly, hevolves₂.early, hevolves₁.early, hearly]

/-- What a wait of `fuel` rounds that is started at `node` ends with. -/
def WaitEnds (tree : BlockTree) (numConfirmations : UInt32) (fuel height : Nat)
    (node : ChainNode) : Except (Error E) (Option Block) → ChainNode → Prop
  | .ok none, node' => node'.failed = node.failed ∧ node.early + fuel ≤ node'.early
  | .ok (some block), node' => node'.failed = node.failed ∧
    Found tree numConfirmations height block node'.chain
  | .error _, node' => node'.failed = node.failed + 1

theorem keeps_waitForBlock (fuel : Nat) (hsmall : numConfirmations.toNat < 2 ^ 31)
    (h : tree.IsChain node.chain) :
    Prog.Keeps (evolving (E := E) tree numConfirmations) (fun node => tree.IsChain node.chain)
      (waitForBlock fuel height numConfirmations).run
      (WaitEnds tree numConfirmations fuel height node) node := by
  induction fuel generalizing node with
  | zero => exact ⟨h, rfl, le_rfl⟩
  | succ fuel ih =>
    refine Prog.keeps_run_bind.mpr ((keeps_waitForBlockRound hsmall h).mono fun r node₁ h₁ hr => ?_)
    match r, hr with
    | .error e, hr => exact hr
    | .ok (.inr block), hr => exact ⟨h₁, hr⟩
    | .ok (.inl ()), ⟨hfailed, hearly⟩ =>
      refine (ih h₁).mono fun r node₂ h₂ hr => ?_
      match r, hr with
      | .error e, hr => exact hr.trans (by rw [hfailed])
      | .ok (some block), hr => exact ⟨hr.1.trans hfailed, hr.2⟩
      | .ok none, ⟨hfailed', hearly'⟩ => exact ⟨hfailed'.trans hfailed, by omega⟩

end Wait

/-! ### The stream -/

section Stream

variable {tree : BlockTree} {fromHeight : Nat} {numConfirmations : UInt32}
variable {chain chain' : List BlockHash} {node node' : ChainNode}

/-- The blocks are the final ones from a height on. -/
def Consecutive (tree : BlockTree) (numConfirmations : UInt32) (fromHeight : Nat)
    (blocks : List Block) (chain : List BlockHash) : Prop :=
  ∀ i block, blocks[i]? = some block → Found tree numConfirmations (fromHeight + i) block chain

theorem Consecutive.evolves {blocks : List Block}
    (h : Consecutive tree numConfirmations fromHeight blocks chain)
    (hevolves : Evolves tree numConfirmations.toNat chain chain') :
    Consecutive tree numConfirmations fromHeight blocks chain' := by
  intro i block hi
  obtain ⟨hash, hfinal, hblock⟩ := h i block hi
  exact ⟨hash, hfinal.evolves hevolves, hblock⟩

/-- What a poll that is made at `node` ends with. -/
def Polled (tree : BlockTree) (numConfirmations : UInt32) (fuel height : Nat) (node : ChainNode) :
    Option (Except (Error E) Block × Nat) → ChainNode → Prop
  | none, node' => node'.failed = node.failed ∧ node.early + fuel ≤ node'.early
  | some (.ok block, next), node' => node'.failed = node.failed ∧
    Found tree numConfirmations height block node'.chain ∧ next = height + 1
  | some (.error _, next), node' => node'.failed = node.failed + 1 ∧ next = height

theorem keeps_nextBlock (fuel : Nat) (hsmall : numConfirmations.toNat < 2 ^ 31) (height : Nat)
    (h : tree.IsChain node.chain) :
    Prog.Keeps (evolving (E := E) tree numConfirmations) (fun node => tree.IsChain node.chain)
      (nextBlock fuel numConfirmations height)
      (Polled tree numConfirmations fuel height node) node := by
  refine Prog.keeps_bind.mpr ((keeps_waitForBlock fuel hsmall h).mono fun r node' h' hr => ?_)
  match r, hr with
  | .ok (some block), hr => exact ⟨h', hr.1, hr.2, rfl⟩
  | .ok none, hr => exact ⟨h', hr⟩
  | .error e, hr => exact ⟨h', hr, rfl⟩

theorem Consecutive.append {blocks : List Block} {block : Block}
    (h : Consecutive tree numConfirmations fromHeight blocks chain)
    (hblock : Found tree numConfirmations (fromHeight + blocks.length) block chain) :
    Consecutive tree numConfirmations fromHeight (blocks ++ [block]) chain := by
  intro i block' hi
  rcases Nat.lt_or_ge i blocks.length with hlt | hge
  · rw [List.getElem?_append_left hlt] at hi
    exact h i block' hi
  · rw [List.getElem?_append_right hge, List.getElem?_singleton] at hi
    split at hi
    next hlast =>
      cases hi
      rwa [show i = blocks.length by omega]
    next => cases hi

/-- A stream from `fromHeight` has had `blocks`, and then `items` from `node` on when it has been
polled `polls` times more: it has had one item for each poll, or is waiting for a block that it has
asked for too early in each of `fuel` rounds. -/
structure Streams (tree : BlockTree) (numConfirmations : UInt32) (fromHeight fuel polls : Nat)
    (blocks : List Block) (node : ChainNode) (items : List (Except (Error E) Block))
    (height : Nat) (node' : ChainNode) : Prop where
  consecutive : Consecutive tree numConfirmations fromHeight (blocks ++ okItems items) node'.chain
  height : height = fromHeight + (blocks ++ okItems items).length
  failed : node'.failed + (okItems items).length = node.failed + items.length
  polled : items.length = polls ∨ fuel ≤ node'.early

/-- The stream goes on where the blocks that it has had end. -/
theorem keeps_streamBlocks (fromHeight fuel polls : Nat) (blocks : List Block)
    (hsmall : numConfirmations.toNat < 2 ^ 31) (h : tree.IsChain node.chain)
    (hblocks : Consecutive tree numConfirmations fromHeight blocks node.chain) :
    Prog.Keeps (evolving (E := E) tree numConfirmations) (fun node => tree.IsChain node.chain)
      (streamBlocks fuel numConfirmations polls (fromHeight + blocks.length))
      (fun (items, height) => Streams tree numConfirmations fromHeight fuel polls blocks node items
        height) node := by
  have hcall (blocks : List Block) (node : ChainNode) (call : Call) (r : (api E).Answer call)
      (node' : ChainNode)
      (hblocks : Consecutive tree numConfirmations fromHeight blocks node.chain)
      (hr : evolving tree numConfirmations node call r node') :
      Consecutive tree numConfirmations fromHeight blocks node'.chain := by
    obtain ⟨node₁, hevolves, -, rfl⟩ := hr
    exact hblocks.evolves hevolves.chain
  induction polls generalizing blocks node with
  | zero => exact ⟨h, by simpa using hblocks, by simp, rfl, .inl rfl⟩
  | succ polls ih =>
    have hpoll := (keeps_nextBlock fuel hsmall (fromHeight + blocks.length) h).frame
      (hcall blocks) hblocks
    refine Prog.keeps_bind.mpr (hpoll.mono fun r node₁ h₁ hr => ?_)
    obtain ⟨hr, hblocks⟩ := hr
    match r, hr with
    | none, ⟨hfailed, hearly⟩ =>
      exact ⟨h₁, by simpa using hblocks, by simp, by simpa using hfailed, .inr (by omega)⟩
    | some (.ok block, next), ⟨hfailed, hblock, hnext⟩ =>
      subst hnext
      have hrest := ih (blocks ++ [block]) h₁ (hblocks.append hblock)
      rw [List.length_append, List.length_singleton, ← Nat.add_assoc] at hrest
      refine Prog.keeps_bind.mpr (hrest.mono fun r node₂ h₂ hr => ⟨h₂, ?_⟩)
      obtain ⟨items, height⟩ := r
      obtain ⟨hconsecutive, hheight, hcount, hpolled⟩ := hr
      dsimp only at hconsecutive hheight hcount hpolled ⊢
      refine ⟨?_, ?_, ?_, ?_⟩
      · rwa [okItems_cons_ok, List.append_cons]
      · rwa [okItems_cons_ok, List.append_cons]
      · rw [okItems_cons_ok, List.length_cons, List.length_cons]
        omega
      · rw [List.length_cons]
        omega
    | some (.error e, next), ⟨hfailed, hnext⟩ =>
      subst hnext
      refine Prog.keeps_bind.mpr ((ih blocks h₁ hblocks).mono fun r node₂ h₂ hr => ⟨h₂, ?_⟩)
      obtain ⟨items, height⟩ := r
      obtain ⟨hconsecutive, hheight, hcount, hpolled⟩ := hr
      dsimp only at hconsecutive hheight hcount hpolled ⊢
      refine ⟨hconsecutive, hheight, ?_, ?_⟩
      · rw [okItems_cons_error, List.length_cons]
        omega
      · rw [List.length_cons]
        omega

/-- Final blocks from a height on are those of the chain. -/
theorem Consecutive.eq {blocks : List Block}
    (h : Consecutive tree numConfirmations fromHeight blocks chain) :
    blocks = ((chain.drop fromHeight).take blocks.length).map tree.block := by
  refine List.ext_getElem? fun i => ?_
  cases hi : blocks[i]? with
  | none =>
    have hge := List.getElem?_eq_none_iff.mp hi
    rw [eq_comm, List.getElem?_eq_none_iff, List.length_map, List.length_take]
    omega
  | some block =>
    obtain ⟨hash, hfinal, rfl⟩ := h i block hi
    have hlt := (List.getElem?_eq_some_iff.mp hi).1
    rw [List.getElem?_map, List.getElem?_take_of_lt hlt, List.getElem?_drop, hfinal.at_height]
    rfl

end Stream

/-! ### A fork -/

/-- The blocks 0, 1 and 2, one after the other, and the branch of 3 and 4 from 1 on. -/
def forkTree : BlockTree where
  block hash := ⟨if hash = 3 then 1 else hash - 1, []⟩
  height hash := if hash < 3 then hash.toNat else hash.toNat - 1

/-- The branch takes over when a block's confirmations are asked for, and the first call fails. -/
def forkNode (node : ChainNode) (call : Call) : (api String).Answer call × ChainNode :=
  let chain := match call with
    | .getBlockInfo _ => [0, 1, 3, 4]
    | _ => node.chain
  let r : (api String).Answer call := match call with
    | .getBlockHash height => match node.failed, chain[height]? with
      | 0, _ => .error (.rpc RpcInvalidAddressOrKey)
      | _, some hash => .ok hash
      | _, none => .error (.rpc RpcInvalidParameter)
    | .getBlockInfo hash => .ok (match forkTree.depth chain hash with
      | some depth => Int32.ofNat depth
      | none => -1)
    | .getBlock hash => .ok (forkTree.block hash)
    | .getBlockCount => .ok (chain.length - 1)
    | .getRawMempool => .ok []
    | .getRawTransaction _ _ => .error (.rpc RpcInvalidAddressOrKey)
    | .getRawTransactionInfo _ _ => .error (.rpc RpcInvalidAddressOrKey)
    | .getTransaction _ => .error (.rpc RpcInvalidAddressOrKey)
    | .getTxOutProof _ _ => .error (.rpc RpcInvalidAddressOrKey)
    | .sleep => ()
  (r, { node with chain }.count 2 call r)

/-- The chains of the run. -/
def Forking (node : ChainNode) : Prop := node.chain = [0, 1, 2] ∨ node.chain = [0, 1, 3, 4]

theorem evolving_forkNode (node : ChainNode) (call : Call) (h : Forking node) :
    evolving forkTree 2 node call (forkNode node call).1 (forkNode node call).2 ∧
      Forking (forkNode node call).2 := by
  have hstep : Evolves forkTree 2 node.chain [0, 1, 3, 4] := by
    rcases h with h | h
    · rw [h]
      exact .single ⟨by decide, .inr ⟨2, [3, 4], by decide, by decide, rfl, by decide⟩⟩
    · rw [h]
  have hstays : ChainNode.Evolves forkTree 2 node { node with chain := node.chain } :=
    ⟨.refl, rfl, rfl⟩
  cases call with
  | getBlockInfo hash =>
    have hforks : ChainNode.Evolves forkTree 2 node { node with chain := [0, 1, 3, 4] } :=
      ⟨hstep, rfl, rfl⟩
    refine ⟨⟨_, hforks, fun confirmations hr => ?_, rfl⟩, .inr rfl⟩
    cases hr
    cases hdepth : forkTree.depth [0, 1, 3, 4] hash with
    | none => rfl
    | some depth =>
      have hle : depth ≤ 4 := (BlockTree.depth_eq_some_iff.mp hdepth).2 ▸ Nat.sub_le _ _
      exact Int32.toInt_ofNat_of_lt (by omega)
  | getBlockHash height =>
    refine ⟨⟨_, hstays, fun hash hr => ?_, rfl⟩, h⟩
    dsimp only [forkNode] at hr
    split at hr
    · cases hr
    next hhash _ =>
      cases hr
      exact hhash
    · cases hr
  | getBlock hash =>
    refine ⟨⟨_, hstays, fun block hr => ?_, rfl⟩, h⟩
    cases hr
    rfl
  | _ => exact ⟨⟨_, hstays, trivial, rfl⟩, h⟩

/-- A failure, and the block of the branch. -/
def forkItems : List (Except (Error String) Block) :=
  [.error (.bitcoinError (.rpc RpcInvalidAddressOrKey)), .ok (forkTree.block 3)]

end InterBtcClients.Bitcoin.Core
