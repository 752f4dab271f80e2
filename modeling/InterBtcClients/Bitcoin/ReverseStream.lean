import InterBtcClients.Bitcoin.BlockStream
import Mathlib.Data.List.Chain

/-! The backward stream of blocks on a chain that stays as it is, while finitely many calls fail:
the blocks that it has, and when it ends. -/

namespace InterBtcClients.Bitcoin.ReverseStream

open Bitcoin.Core Library InterBtcClients.Runtime

variable {E : Type} {tree : BlockTree}

/-! ### The node -/

/-- The node no longer has the block. -/
def reportsPruned : Except (RpcError E) Block → Bool
  | .ok _ => false
  | .error e => e.hasCode RpcMiscError

/-- A node that stays on its chain, with its answers.  It has the blocks of the chain or reports
them as pruned, and does not know the parent of the first one. -/
structure Node (E : Type) (tree : BlockTree) where
  chain : List BlockHash
  isChain : tree.IsChain chain
  nonempty : 0 < chain.length
  bounded : chain.length ≤ 2 ^ 32
  reply : (call : Call) → (api E).Answer call
  getBlockCount : reply .getBlockCount = .ok (chain.length - 1)
  getBlockHash : ∀ {height hash}, chain[height]? = some hash →
    reply (.getBlockHash height) = .ok hash
  getBlock : ∀ hash ∈ chain, reply (.getBlock hash) = .ok (tree.block hash) ∨
    reportsPruned (reply (.getBlock hash)) = true
  getBlock_unknown : ∀ {hash}, chain[0]? = some hash →
    ∃ e, reply (.getBlock (tree.block hash).prevBlockhash) = .error e ∧
      e.hasCode RpcMiscError = false

/-- An error that passes: the one for a pruned block is not among them. -/
abbrev Transient (E : Type) := {e : RpcError E // e.hasCode RpcMiscError = false}

def fail (e : RpcError E) : (call : Call) → (api E).Answer call
  | .sleep => ()
  | .getBlockCount | .getBlockHash _ | .getBlockInfo _ | .getBlock _ | .getRawMempool
  | .getRawTransaction _ _ | .getRawTransactionInfo _ _ | .getTransaction _ | .getTxOutProof _ _ =>
    .error e

namespace Node

variable (node : Node E tree)

/-- The list says of each call whether it fails, and no other call does. -/
def answer : List (Option (Transient E)) → (call : Call) →
    (api E).Answer call × List (Option (Transient E))
  | some e :: failures, call => (fail e.1 call, failures)
  | none :: failures, call => (node.reply call, failures)
  | [], call => (node.reply call, [])

def pruned (hash : BlockHash) : Bool := reportsPruned (node.reply (.getBlock hash))

/-- Of the first `length` blocks of the chain, those from the last one down to the height, or to the
first one that has been pruned. -/
def below (stopHeight length : Nat) : List BlockHash :=
  ((node.chain.take length).drop stopHeight).reverse.takeWhile fun hash => !node.pruned hash

/-- The blocks of the chain from the best one down to the height, or to the first one that has been
pruned. -/
def range (stopHeight : Nat) : List BlockHash :=
  (node.chain.drop stopHeight).reverse.takeWhile fun hash => !node.pruned hash

/-- The results that the stream has had when it has been polled `polls` times. -/
def had (stopHeight : Nat) (failures : List (Option (Transient E))) (polls : Nat) :
    List (Except (Error E) Block) :=
  ((reverseStreamBlocks polls stopHeight).collect.exec node.answer failures).1

/-- Where the stream goes on from. -/
def last (stopHeight : Nat) (failures : List (Option (Transient E))) (polls : Nat) :
    Option StreamState :=
  (AsyncStream.polled (reverseBlock stopHeight) node.answer polls ⟨none, none⟩ failures).2

/-- Whichever calls fail, the stream has the blocks from the best one down to the height, each of
them the parent of the one before, and ends. -/
def CoversAndEnds (stopHeight : Nat) : Prop :=
  (node.range stopHeight).IsChain (fun hash parent => (tree.block hash).prevBlockhash = parent) ∧
    ∀ failures,
      (∀ polls, okItems (node.had stopHeight failures polls) <+:
        (node.range stopHeight).map tree.block) ∧
      ∃ polls, okItems (node.had stopHeight failures polls) =
        (node.range stopHeight).map tree.block ∧ node.last stopHeight failures polls = none

end Node

/-! ### Calls -/

section Calls

variable {node : Node E tree} {A B : Type} {failures : List (Option (Transient E))}
variable {height : Nat} {hash : BlockHash}

theorem had_eq (stopHeight polls : Nat) : node.had stopHeight failures polls =
    (AsyncStream.polled (reverseBlock stopHeight) node.answer polls ⟨none, none⟩ failures).1 := by
  rw [Node.had, reverseStreamBlocks, AsyncStream.collect_unfold, ← bind_pure_comp, Prog.exec_bind]
  rfl

/-- The call fails, with fewer failures to come, or has its answer. -/
theorem answer_cases (node : Node E tree) (failures : List (Option (Transient E))) (call : Call) :
    (∃ (e : Transient E) (failures' : _), failures'.length < failures.length ∧
      node.answer failures call = (fail e.1 call, failures')) ∨
    ∃ failures', failures'.length ≤ failures.length ∧
      node.answer failures call = (node.reply call, failures') :=
  match failures with
  | [] => .inr ⟨[], le_rfl, rfl⟩
  | none :: rest => .inr ⟨rest, Nat.le_succ _, rfl⟩
  | some e :: rest => .inl ⟨e, rest, Nat.lt_succ_self _, rfl⟩

/-- The program has the result unless one of its calls fails, and then there are fewer failures to
come. -/
def Attempts {X : Type} (node : Node E tree) (p : Prog (api E) (Except X A)) (a : A) : Prop :=
  ∀ failures,
    (∃ e failures', failures'.length < failures.length ∧
      p.exec node.answer failures = (.error e, failures')) ∨
    ∃ failures', failures'.length ≤ failures.length ∧
      p.exec node.answer failures = (.ok a, failures')

theorem attempts_pure (a : A) : Attempts node (pure a : Rpc E A).run a :=
  fun failures => .inr ⟨failures, le_rfl, rfl⟩

theorem Attempts.bind {p : Rpc E A} {f : A → Rpc E B} {a : A} {b : B}
    (hp : Attempts node p.run a) (hf : Attempts node (f a).run b) :
    Attempts node (p >>= f).run b := by
  intro failures
  rcases hp failures with ⟨e, failures', hlt, hp⟩ | ⟨failures', hle, hp⟩
  · exact .inl ⟨e, failures', hlt, Prog.exec_run_bind_error hp⟩
  · rw [Prog.exec_run_bind_ok hp]
    rcases hf failures' with ⟨e, failures'', hlt, hf⟩ | ⟨failures'', hle', hf⟩
    · exact .inl ⟨e, failures'', hlt.trans_le hle, hf⟩
    · exact .inr ⟨failures'', hle'.trans hle, hf⟩

theorem Attempts.mapError {p : Prog (api E) (Except (RpcError E) A)} {a : A}
    (h : Attempts node p a) (f : RpcError E → Error E) :
    Attempts node (ExceptT.run (ExceptT.mk (Except.mapError f <$> p))) a := by
  intro failures
  rw [ExceptT.run_mk, ← bind_pure_comp, Prog.exec_bind]
  rcases h failures with ⟨e, failures', hlt, h⟩ | ⟨failures', hle, h⟩
  · rw [h]
    exact .inl ⟨f e, failures', hlt, rfl⟩
  · rw [h]
    exact .inr ⟨failures', hle, rfl⟩

theorem attempts_getBlockCount : Attempts node getBlockCount.run (node.chain.length - 1) := by
  refine Attempts.mapError (fun failures => ?_) _
  refine (answer_cases node failures .getBlockCount).imp ?_ fun ⟨failures', hle, h⟩ => ?_
  · exact fun ⟨e, failures', hlt, h⟩ => ⟨e.1, failures', hlt, h⟩
  · exact ⟨failures', hle, h.trans (congrArg (·, failures') node.getBlockCount)⟩

theorem attempts_getBlockHash (hhash : node.chain[height]? = some hash) :
    Attempts node (getBlockHash height).run hash := by
  refine Attempts.mapError (fun failures => ?_) _
  refine (answer_cases node failures (.getBlockHash height)).imp ?_ fun ⟨failures', hle, h⟩ => ?_
  · exact fun ⟨e, failures', hlt, h⟩ => ⟨e.1, failures', hlt, h⟩
  · exact ⟨failures', hle, h.trans (congrArg (·, failures') (node.getBlockHash hhash))⟩

theorem attempts_getBestBlockInfo (hhash : node.chain[node.chain.length - 1]? = some hash) :
    Attempts node getBestBlockInfo.run (node.chain.length - 1, hash) := by
  have hbest : (node.chain.length - 1) % 2 ^ 32 = node.chain.length - 1 := by
    have := node.bounded
    omega
  refine attempts_getBlockCount.bind ?_
  rw [hbest]
  exact (attempts_getBlockHash hhash).bind (attempts_pure _)

end Calls

/-! ### Polls -/

section Polls

variable {node : Node E tree} {stopHeight height : Nat} {hash : BlockHash} {state : StreamState}
variable {failures : List (Option (Transient E))}

/-- A poll from `state` is about to ask for the block, which is at the height. -/
def Aims (node : Node E tree) (state : StreamState) (height : Nat) (hash : BlockHash) : Prop :=
  (state = ⟨none, none⟩ ∧ height = node.chain.length - 1 ∧ node.chain[height]? = some hash) ∨
    ∃ last block, state = ⟨some last, some block⟩ ∧ height = last - 1 ∧ hash = block.prevBlockhash

/-- The stream comes to an end within the first `length` blocks. -/
def Ends (node : Node E tree) (stopHeight length : Nat) : Prop :=
  1 ≤ stopHeight ∨ ∃ hash ∈ node.chain.take length, node.pruned hash = true

/-- The stream has had those of the first `length` blocks that it has, and has ended where it does.
-/
def Reached (node : Node E tree) (stopHeight length : Nat) (items : List (Except (Error E) Block))
    (last : Option StreamState) : Prop :=
  okItems items = (node.below stopHeight length).map tree.block ∧
    (last = none ↔ Ends node stopHeight length)

/-- What a poll returns for the node's answer. -/
def fetched (state : StreamState) (height : Nat) :
    Except (RpcError E) Block → Option (Except (Error E) Block × StreamState)
  | .ok block => some (.ok block, ⟨some height, some block⟩)
  | .error e => if e.hasCode RpcMiscError then none else some (.error (.bitcoinError e), state)

/-- The block that a poll from `state` asks for, with its height. -/
def target (state : StreamState) : Prog (api E) (Except (Error E) (Nat × BlockHash)) :=
  match state.height, state.prevBlock with
  | some height, some block => return .ok (height - 1, block.prevBlockhash)
  | _, _ => getBestBlockInfo.run

/-- The rest of the poll. -/
def fetch (stopHeight : Nat) (state : StreamState) :
    Except (Error E) (Nat × BlockHash) →
      Prog (api E) (Option (Except (Error E) Block × StreamState))
  | .error e => return some (.error e, state)
  | .ok (height, hash) =>
    if height < stopHeight then return none
    else do
      match ← ask (.getBlock hash) with
      | .ok block => return some (.ok block, ⟨some height, some block⟩)
      | .error e =>
        if e.hasCode RpcMiscError then return none
        else return some (.error (.bitcoinError e), state)

theorem reverseBlock_eq : (state : StreamState) →
    reverseBlock (E := E) stopHeight state = target state >>= fetch stopHeight state
  | ⟨some _, some _⟩ => rfl
  | ⟨some _, none⟩ => rfl
  | ⟨none, _⟩ => rfl

theorem fetch_ok (h : stopHeight ≤ height) : fetch (E := E) stopHeight state (.ok (height, hash)) =
    fetched state height <$> ask (.getBlock hash) := by
  rw [fetch, if_neg (Nat.not_lt.mpr h), ← bind_pure_comp]
  refine bind_congr fun r => ?_
  match r with
  | .ok block => rfl
  | .error e =>
    dsimp only [fetched]
    split <;> rfl

theorem attempts_target (h : Aims node state height hash) :
    Attempts node (target state) (height, hash) := by
  rcases h with ⟨rfl, rfl, hhash⟩ | ⟨last, block, rfl, rfl, rfl⟩
  · exact attempts_getBestBlockInfo hhash
  · exact attempts_pure (E := E) (last - 1, block.prevBlockhash)

/-- A poll has an error, with fewer failures to come, or what it returns for the node's answer. -/
theorem exec_reverseBlock (h : Aims node state height hash)
    (failures : List (Option (Transient E))) :
    (∃ e failures', failures'.length < failures.length ∧
      (reverseBlock stopHeight state).exec node.answer failures =
        (some (.error e, state), failures')) ∨
    ∃ failures', (reverseBlock stopHeight state).exec node.answer failures =
      (if height < stopHeight then none else fetched state height (node.reply (.getBlock hash)),
        failures') := by
  rw [reverseBlock_eq, Prog.exec_bind]
  rcases attempts_target h failures with ⟨e, failures', hlt, h⟩ | ⟨failures', hle, h⟩
  · rw [h]
    exact .inl ⟨e, failures', hlt, rfl⟩
  rw [h]
  by_cases hstop : height < stopHeight
  · refine .inr ⟨failures', ?_⟩
    rw [fetch, if_pos hstop, if_pos hstop]
    rfl
  · rw [fetch_ok (Nat.le_of_not_lt hstop), if_neg hstop, ← bind_pure_comp, Prog.exec_bind]
    rcases answer_cases node failures' (.getBlock hash) with
      ⟨e, failures'', hlt, h⟩ | ⟨failures'', -, h⟩
    · refine .inl ⟨.bitcoinError e, failures'', hlt.trans_le hle, ?_⟩
      change (fetched state height (node.answer failures' (.getBlock hash)).1,
        (node.answer failures' (.getBlock hash)).2) = _
      rw [h]
      exact congrArg (·, failures'') (if_neg (by simp [e.2]))
    · refine .inr ⟨failures'', ?_⟩
      change (fetched state height (node.answer failures' (.getBlock hash)).1,
        (node.answer failures' (.getBlock hash)).2) = _
      rw [h]

/-- A poll that fails leaves the stream as it is. -/
theorem settles_of_answered {length : Nat} (h : Aims node state height hash)
    (hanswered : ∀ failures failures', (reverseBlock stopHeight state).exec node.answer failures =
        (if height < stopHeight then none else fetched state height (node.reply (.getBlock hash)),
          failures') →
      AsyncStream.Settles (reverseBlock stopHeight) node.answer state failures
        (Reached node stopHeight length))
    (failures : List (Option (Transient E))) :
    AsyncStream.Settles (reverseBlock stopHeight) node.answer state failures
      (Reached node stopHeight length) := by
  induction hn : failures.length using Nat.strong_induction_on generalizing failures with
  | _ n ih =>
    rcases exec_reverseBlock h failures with ⟨e, failures', hlt, hpoll⟩ | ⟨failures', hpoll⟩
    · exact AsyncStream.settles_some hpoll (ih _ (hn ▸ hlt) failures' rfl)
    · exact hanswered failures failures' hpoll

/-- Below the first block there is none: its parent is asked for without end. -/
theorem settles_bottom (hhash : node.chain[0]? = some hash)
    (failures : List (Option (Transient E))) :
    AsyncStream.Settles (reverseBlock 0) node.answer ⟨some 0, some (tree.block hash)⟩ failures
      fun items last => okItems items = [] ∧ last ≠ none := by
  obtain ⟨e, hunknown, he⟩ := node.getBlock_unknown hhash
  let state : StreamState := ⟨some 0, some (tree.block hash)⟩
  have hpoll (failures : List (Option (Transient E))) :
      (reverseBlock 0 state).exec node.answer failures =
        (fetched state 0 (node.answer failures (.getBlock (tree.block hash).prevBlockhash)).1,
          (node.answer failures (.getBlock (tree.block hash).prevBlockhash)).2) := by
    rw [reverseBlock_eq]
    change (fetch 0 state (.ok (0, (tree.block hash).prevBlockhash))).exec node.answer failures = _
    rw [fetch_ok le_rfl, ← bind_pure_comp, Prog.exec_bind]
    rfl
  have herror (e : RpcError E) (he : e.hasCode RpcMiscError = false) :
      fetched state 0 (.error e) = some (.error (.bitcoinError e), state) :=
    if_neg (by simp [he])
  induction failures with
  | nil =>
    have hagain := (hpoll []).trans (congrArg (·, []) ((congrArg _ hunknown).trans (herror e he)))
    refine ⟨0, fun polls _ => ?_⟩
    rw [AsyncStream.polled_of_forever hagain]
    refine ⟨List.filterMap_eq_nil_iff.mpr fun item hitem => ?_, nofun⟩
    rw [List.eq_of_mem_replicate hitem]
    rfl
  | cons failure failures ih =>
    obtain ⟨e', he'⟩ : ∃ e', (reverseBlock 0 state).exec node.answer (failure :: failures) =
        (some (.error e', state), failures) := by
      cases failure with
      | none => exact ⟨_, (hpoll _).trans (congrArg (·, failures) ((congrArg _ hunknown).trans
          (herror e he)))⟩
      | some failure => exact ⟨_, (hpoll _).trans (congrArg (·, failures)
          (herror failure.1 failure.2))⟩
    exact AsyncStream.settles_some he' ih

/-! ### Runs -/

theorem below_succ (hhash : node.chain[height]? = some hash) (hstop : stopHeight ≤ height) :
    node.below stopHeight (height + 1) =
      if node.pruned hash then [] else hash :: node.below stopHeight height := by
  have hlt := (List.getElem?_eq_some_iff.mp hhash).1
  have hle : stopHeight ≤ (node.chain.take height).length := by
    rw [List.length_take]
    omega
  rw [Node.below, List.take_add_one, hhash, List.drop_append_of_le_length hle]
  simp only [Option.toList_some, List.reverse_append, List.reverse_singleton, List.singleton_append,
    List.takeWhile_cons, Bool.not_eq_true']
  cases node.pruned hash <;> rfl

theorem below_of_le (h : height < stopHeight) : node.below stopHeight (height + 1) = [] := by
  have hnil : (node.chain.take (height + 1)).drop stopHeight = [] :=
    List.drop_eq_nil_of_le ((List.length_take_le _ _).trans h)
  rw [Node.below, hnil]
  rfl

theorem ends_succ (hhash : node.chain[height]? = some hash) :
    Ends node stopHeight (height + 1) ↔ node.pruned hash = true ∨ Ends node stopHeight height := by
  rw [Ends, List.take_add_one, hhash]
  simp only [Option.toList_some, List.mem_append, List.mem_singleton, or_and_right, exists_or,
    exists_eq_left, Ends]
  rw [← or_assoc, or_comm]

theorem fetched_pruned (h : node.pruned hash = true) :
    fetched state height (node.reply (.getBlock hash)) = none := by
  rw [Node.pruned] at h
  match hreply : node.reply (.getBlock hash) with
  | .ok block =>
    rw [hreply] at h
    cases h
  | .error e =>
    rw [hreply] at h
    exact if_pos h

theorem getBlock_of_not_pruned (hhash : node.chain[height]? = some hash)
    (h : node.pruned hash = false) : node.reply (.getBlock hash) = .ok (tree.block hash) :=
  (node.getBlock hash (List.mem_of_getElem? hhash)).resolve_right (Bool.eq_false_iff.mp h)

/-- The blocks from the one that a poll aims at, when the stream has those below it after it. -/
theorem settles_of_rest (hhash : node.chain[height]? = some hash) (h : Aims node state height hash)
    (hrest : stopHeight ≤ height → ∀ failures,
      AsyncStream.Settles (reverseBlock stopHeight) node.answer
        ⟨some height, some (tree.block hash)⟩ failures (Reached node stopHeight height))
    (failures : List (Option (Transient E))) :
    AsyncStream.Settles (reverseBlock stopHeight) node.answer state failures
      (Reached node stopHeight (height + 1)) := by
  refine settles_of_answered h (fun failures failures' hpoll => ?_) failures
  by_cases hstop : height < stopHeight
  · rw [if_pos hstop] at hpoll
    refine AsyncStream.settles_none hpoll ⟨?_, iff_of_true rfl (.inl (Nat.one_le_of_lt hstop))⟩
    rw [below_of_le hstop]
    rfl
  rw [if_neg hstop] at hpoll
  have hbelow := below_succ hhash (Nat.le_of_not_lt hstop)
  cases hpruned : node.pruned hash with
  | true =>
    rw [fetched_pruned hpruned] at hpoll
    rw [hpruned, if_pos rfl] at hbelow
    refine AsyncStream.settles_none hpoll
      ⟨?_, iff_of_true rfl ((ends_succ hhash).mpr (.inl hpruned))⟩
    rw [hbelow]
    rfl
  | false =>
    rw [getBlock_of_not_pruned hhash hpruned] at hpoll
    refine AsyncStream.settles_some hpoll ((hrest (Nat.le_of_not_lt hstop) failures').mono ?_)
    rintro items last ⟨hitems, hlast⟩
    refine ⟨?_, hlast.trans ?_⟩
    · rw [hbelow, okItems_cons_ok, hitems, if_neg (Bool.eq_false_iff.mp hpruned), List.map_cons]
    · rw [ends_succ hhash]
      exact (or_iff_right (Bool.eq_false_iff.mp hpruned)).symm

/-- When it has been polled often enough, the stream has had the blocks from the one that it aims at
on. -/
theorem settles_reverseBlock (stopHeight height : Nat) {hash : BlockHash} {state : StreamState}
    (hhash : node.chain[height]? = some hash) (h : Aims node state height hash)
    (failures : List (Option (Transient E))) :
    AsyncStream.Settles (reverseBlock stopHeight) node.answer state failures
      (Reached node stopHeight (height + 1)) := by
  induction height generalizing hash state failures with
  | zero =>
    refine settles_of_rest hhash h (fun hstop failures => ?_) failures
    obtain rfl := Nat.le_zero.mp hstop
    refine (settles_bottom hhash failures).mono fun items last ⟨hitems, hlast⟩ => ⟨hitems, ?_⟩
    refine iff_of_false hlast ?_
    rintro (hstop | ⟨hash, hmem, -⟩)
    · omega
    · cases hmem
  | succ height ih =>
    refine settles_of_rest hhash h (fun _ failures => ?_) failures
    exact ih (node.isChain.parent hhash) (.inr ⟨height + 1, _, rfl, rfl, rfl⟩) failures

/-! ### The whole stream -/

theorem range_eq (node : Node E tree) (stopHeight : Nat) :
    node.range stopHeight = node.below stopHeight node.chain.length := by
  rw [Node.below, List.take_length, Node.range]

theorem settles_reverseStream (node : Node E tree) (stopHeight : Nat)
    (failures : List (Option (Transient E))) :
    AsyncStream.Settles (reverseBlock stopHeight) node.answer ⟨none, none⟩ failures
      (Reached node stopHeight node.chain.length) := by
  have hbest : node.chain.length - 1 + 1 = node.chain.length := Nat.sub_add_cancel node.nonempty
  obtain ⟨hash, hhash⟩ : ∃ hash, node.chain[node.chain.length - 1]? = some hash :=
    ⟨_, List.getElem?_eq_getElem (Nat.sub_one_lt_of_lt node.nonempty)⟩
  have h := settles_reverseBlock stopHeight _ hhash (.inl ⟨rfl, rfl, hhash⟩) failures
  rwa [hbest] at h

theorem isChain_range (node : Node E tree) (stopHeight : Nat) : (node.range stopHeight).IsChain
    fun hash parent => (tree.block hash).prevBlockhash = parent := by
  have hchain : node.chain.IsChain fun parent hash => (tree.block hash).prevBlockhash = parent := by
    refine List.isChain_iff_getElem.mpr fun i hi => ?_
    have hparent := node.isChain.parent (List.getElem?_eq_getElem hi)
    rw [List.getElem?_eq_getElem (Nat.lt_of_succ_lt hi)] at hparent
    exact (Option.some.inj hparent).symm
  have hdown := List.isChain_reverse.mpr (hchain.drop stopHeight)
  exact hdown.prefix (List.takeWhile_prefix _)

theorem okItems_had_prefix (polls : Nat) :
    okItems (node.had stopHeight failures polls) <+: (node.range stopHeight).map tree.block := by
  obtain ⟨enough, henough⟩ := settles_reverseStream node stopHeight failures
  have hreached := (henough (max polls enough) (Nat.le_max_right _ _)).1
  rw [range_eq, had_eq, ← hreached]
  exact (AsyncStream.polled_prefix (Nat.le_max_left _ _) _ _).filterMap _

/-- The stream ends, with all of its blocks, if it comes to a height that it stops at or to a pruned
block, and goes on without end if it does not. -/
theorem exists_ended_iff (node : Node E tree) (stopHeight : Nat)
    (failures : List (Option (Transient E))) :
    (∃ polls, okItems (node.had stopHeight failures polls) =
        (node.range stopHeight).map tree.block ∧ node.last stopHeight failures polls = none) ↔
      Ends node stopHeight node.chain.length := by
  obtain ⟨enough, henough⟩ := settles_reverseStream node stopHeight failures
  constructor
  · rintro ⟨polls, -, hlast⟩
    have hmore := AsyncStream.polled_eq_of_ended (Nat.le_max_left polls enough) hlast
    refine (henough _ (Nat.le_max_right polls enough)).2.mp ?_
    rw [hmore]
    exact hlast
  · intro hends
    obtain ⟨hitems, hlast⟩ := henough enough le_rfl
    refine ⟨enough, ?_, hlast.mpr hends⟩
    rw [had_eq, hitems, range_eq]

end Polls

/-- Whichever calls fail, the stream covers the blocks down to the height and ends if and only if
the height is not that of the first block or one of the blocks has been pruned. -/
theorem coversAndEnds_iff (node : Node E tree) (stopHeight : Nat) :
    node.CoversAndEnds stopHeight ↔
      1 ≤ stopHeight ∨ ∃ hash ∈ node.chain, node.pruned hash = true := by
  have hends := exists_ended_iff node stopHeight
  rw [Ends, List.take_length] at hends
  constructor
  · exact fun h => (hends []).mp (h.2 []).2
  · exact fun h => ⟨isChain_range node stopHeight, fun failures =>
      ⟨fun polls => okItems_had_prefix polls, (hends failures).mpr h⟩⟩

/-- A chain of two blocks, 1 and 2. -/
def line : BlockTree where
  block hash := ⟨hash - 1, []⟩
  height hash := hash.toNat - 1

/-- A node that has both blocks. -/
def lineNode : Node String line where
  chain := [1, 2]
  isChain := by decide
  nonempty := by decide
  bounded := by decide
  reply
    | .getBlockCount => .ok 1
    | .getBlockHash height => match ([1, 2] : List BlockHash)[height]? with
      | some hash => .ok hash
      | none => .error (.rpc RpcInvalidParameter)
    | .getBlock hash =>
      if hash ∈ ([1, 2] : List BlockHash) then .ok (line.block hash)
      else .error (.rpc RpcInvalidAddressOrKey)
    | .getBlockInfo _ => .ok 1
    | .getRawMempool => .ok []
    | .getRawTransaction _ _ => .error (.rpc RpcInvalidAddressOrKey)
    | .getRawTransactionInfo _ _ => .error (.rpc RpcInvalidAddressOrKey)
    | .getTransaction _ => .error (.rpc RpcInvalidAddressOrKey)
    | .getTxOutProof _ _ => .error (.rpc RpcInvalidAddressOrKey)
    | .sleep => ()
  getBlockCount := rfl
  getBlockHash h := by
    dsimp only
    rw [h]
  getBlock hash hmem := .inl (if_pos hmem)
  getBlock_unknown h := by
    cases h
    exact ⟨_, rfl, rfl⟩

/-- From height 0 on the stream never ends: the parent of the first block is asked for again and
again. -/
theorem not_coversAndEnds : ¬ lineNode.CoversAndEnds 0 := by
  intro h
  obtain hstop | ⟨hash, hmem, hpruned⟩ := (exists_ended_iff lineNode 0 []).mp (h.2 []).2
  · cases hstop
  · have hreply : lineNode.reply (.getBlock hash) = .ok (line.block hash) := if_pos hmem
    rw [Node.pruned, hreply] at hpruned
    cases hpruned

end InterBtcClients.Bitcoin.ReverseStream
