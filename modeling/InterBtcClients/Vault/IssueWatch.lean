import InterBtcClients.Library.Log
import InterBtcClients.Vault.IssueExecution
import Mathlib.Data.List.Perm.Subperm

/-! The executions of issues at once, one task for each transaction, while the listeners change the
set of the watched issues.  A task keeps the set locked until it returns: it executes the issue that
it has found, and no issue is executed more often than it has been added to the set. -/

namespace InterBtcClients.Vault.IssueWatch

open Library Bitcoin InterBtcClients.Runtime IssueSet
open IssueExecution (IssueRequest findIssue processTransactionAndExecuteIssue executeRemoved)

variable {E ι R M : Type}

/-! ### The tasks -/

/-- The calls of a task, whose lock is released when it returns. -/
inductive Call (M : Type)
  | issue (call : IssueExecution.Call M)
  | unlock

@[reducible] def api (R M : Type) : Interface where
  Call := Call M
  Answer
    | .issue call => (IssueExecution.api R M).Answer call
    | .unlock => Unit

/-- A transaction of the stream, with its block. -/
structure Payment where
  blockHash : H256
  transaction : Transaction

/-- What the build and the parachain fix. -/
structure Setup (E R : Type) where
  lib : Lib E
  isIssueCompleted : R → Bool
  numConfirmations : Nat
  overflowChecks : Bool

variable (setup : Setup E R) (payment : Payment)

def task : Prog (api R M) (Except (Failure R) Unit) := do
  let result ← (processTransactionAndExecuteIssue setup.lib setup.isIssueCompleted
    setup.numConfirmations payment.blockHash payment.transaction setup.overflowChecks).run.embed
      Call.issue fun _ r => r
  Prog.request (api R M) .unlock
  return result

/-! ### The set -/

/-- The watched issues, the task that has them locked, all that has been added to them, and the
events of the tasks. -/
structure World (ι R M : Type) where
  issueSet : IssueRequests
  holder : Option ι
  watched : List (H256 × BtcAddress)
  log : List (ι × Prog.Event (api R M))

namespace World

def start : World ι R M := ⟨.new, none, [], []⟩

def watch (w : World ι R M) (issueId : H256) (address : BtcAddress) : World ι R M :=
  { w with
    issueSet := (w.issueSet.insert issueId address).2
    watched := w.watched ++ [(issueId, address)] }

def unwatch (w : World ι R M) (issueId : H256) : World ι R M :=
  { w with issueSet := (w.issueSet.removeKey issueId).2 }

def removeValue (w : World ι R M) (address : BtcAddress) : World ι R M :=
  { w with issueSet := (w.issueSet.removeValue address).2 }

def record (w : World ι R M) (i : ι) (e : Prog.Event (api R M)) : World ι R M :=
  { w with log := w.log ++ [(i, e)] }

end World

/-- The answers that the state of the set allows. -/
def Allowed (w : World ι R M) : (call : Call M) → (api R M).Answer call → Prop
  | .issue .lock, issueSet => w.holder = none ∧ issueSet = w.issueSet
  | .issue (.removeValue address), issueId => issueId = (w.issueSet.removeValue address).1
  | _, _ => True

def effect (i : ι) (w : World ι R M) : Call M → World ι R M
  | .issue .lock => { w with holder := some i }
  | .issue (.removeValue address) => w.removeValue address
  | .unlock => { w with holder := none }
  | _ => w

def taskEnv (i : ι) : Prog.Env (api R M) (World ι R M) :=
  fun w call r w' => Allowed w call r ∧ w' = (effect i w call).record i ⟨call, r⟩

/-- What the listeners do to the set when no task has it locked.  An issue can be added again, with
the same address or another one. -/
inductive Listens (w : World ι R M) : World ι R M → Prop
  | insert (issueId : H256) (address : BtcAddress) :
    w.holder = none → Listens w (w.watch issueId address)
  | remove (issueId : H256) : w.holder = none → Listens w (w.unwatch issueId)

/-! ### What a task may call -/

abbrev Log (R M : Type) := List (Prog.Event (api R M))

/-- The issue and the address that have left the set. -/
def removed : Prog.Event (api R M) → Option (H256 × BtcAddress)
  | ⟨.issue (.removeValue address), some issueId⟩ => some (issueId, address)
  | _ => none

def removes (issueId : H256) (e : Prog.Event (api R M)) : Bool :=
  (removed e).any fun pair => pair.1 = issueId

def executes (issueId : H256) : Prog.Event (api R M) → Bool
  | ⟨.issue (.executeIssue issueId' _), _⟩ => decide (issueId' = issueId)
  | _ => false

def isExecution : Prog.Event (api R M) → Bool
  | ⟨.issue (.executeIssue _ _), _⟩ => true
  | _ => false

section Policy

variable (own : Log R M) (issueId : H256) (address : BtcAddress)

/-- The issue is the first watched one that the transaction pays to, and the payment is enough for
the request as it is read. -/
structure Paid : Prop where
  found : ∃ issueSet, ⟨.issue .lock, issueSet⟩ ∈ own ∧
    findIssue setup.lib issueSet payment.transaction = some (issueId, address)
  enough : ∃ request, ⟨.issue (.getIssueRequest issueId), .ok request⟩ ∈ own ∧
    ∃ payload, address.toPayload setup.lib = .ok payload ∧
      ∃ transferred, getPaymentAmountTo setup.lib payment.transaction payload = some transferred ∧
        ∃ expected, expected ≤ transferred.toNat ∧
          plus (R := R) 128 setup.overflowChecks request.amount request.fee = .ok expected

/-- An issue that has been paid, and that this task has removed from the set, is executed once, with
the metadata of the payment, when the relay has the block. -/
structure MayExecute (metadata : M) : Prop where
  removed : ∃ address, Paid setup payment own issueId address ∧
    ⟨.issue (.removeValue address), some issueId⟩ ∈ own
  relayed : ⟨.issue (.waitForBlockInRelay payment.blockHash setup.numConfirmations), .ok ()⟩ ∈ own
  isOpen : ∃ before request after,
    own = before ++ ⟨.issue (.getIssueRequest issueId), .ok request⟩ :: after ∧
      ⟨.issue (.delay issueId), .ok ()⟩ ∈ before ∧ request.status ≠ .completed
  metadata : ⟨.issue (.waitForTransactionMetadata (setup.lib.txid payment.transaction)
    setup.numConfirmations payment.blockHash), .ok metadata⟩ ∈ own
  first : ∀ e ∈ own, isExecution e = false

def policy : Call M → Prop
  | .issue (.removeValue address) => ∃ issueId, Paid setup payment own issueId address
  | .issue (.executeIssue issueId metadata) => MayExecute setup payment own issueId metadata
  | _ => True

end Policy

/-! ### The invariant -/

variable [DecidableEq ι]

def World.removals (w : World ι R M) : List (H256 × BtcAddress) :=
  w.log.filterMap fun e => removed e.2

/-- What has left the set, and what is found in it, has been added. -/
def Balanced (w : World ι R M) : Prop :=
  ∀ issueId address, w.removals.count (issueId, address) +
    (if w.issueSet.preimage address = some issueId then 1 else 0) ≤
      w.watched.count (issueId, address)

structure Inv (payments : ι → Payment) (w : World ι R M) : Prop where
  balanced : Balanced w
  obeys : ∀ i, Prog.Obeys (policy setup (payments i)) (Prog.eventsOf i w.log)

section Invariant

variable {setup : Setup E R} {payments : ι → Payment} {w w' : World ι R M} {i : ι}

theorem inv_start : Inv (M := M) setup payments World.start := by
  refine ⟨fun issueId address => ?_, fun i => ?_⟩
  · simp [World.start, World.removals]
  · exact Prog.obeys_nil

omit [DecidableEq ι] in
theorem Balanced.watch (h : Balanced w) (issueId : H256) (address : BtcAddress) :
    Balanced (w.watch issueId address) := by
  intro issueId' address'
  have hbalanced := h issueId' address'
  simp only [World.watch, World.removals, ReversibleHashMap.preimage_insert, List.count_append,
    List.count_singleton, Function.update_apply, beq_iff_eq, Prod.mk.injEq] at hbalanced ⊢
  by_cases haddress : address' = address
  · subst haddress
    by_cases hissue : issueId = issueId'
    · simp [hissue]
      split at hbalanced <;> omega
    · simp [hissue]
      split at hbalanced <;> omega
  · simp [haddress, Ne.symm haddress]
    exact hbalanced

omit [DecidableEq ι] in
theorem Balanced.unwatch (h : Balanced w) (issueId : H256) : Balanced (w.unwatch issueId) := by
  intro issueId' address'
  refine Nat.le_trans (Nat.add_le_add_left ?_ _) (h issueId' address')
  cases himage : w.issueSet.image issueId with
  | none => rw [World.unwatch, ReversibleHashMap.removeKey_of_none himage]
  | some address =>
    obtain ⟨-, -, hpreimage⟩ := ReversibleHashMap.removeKey_of_some himage
    simp only [World.unwatch, hpreimage, Function.update_apply]
    by_cases haddress : address' = address <;> simp [haddress]

omit [DecidableEq ι] in
theorem Balanced.record (h : Balanced w) {e : Prog.Event (api R M)} (he : removed e = none) :
    Balanced (w.record i e) := by
  intro issueId address
  have hremovals : (w.record i e).removals = w.removals := by
    simp [World.record, World.removals, he]
  rw [hremovals]
  exact h issueId address

omit [DecidableEq ι] in
theorem Balanced.removeValue (h : Balanced w) (address : BtcAddress) :
    Balanced ((w.removeValue address).record i
      ⟨.issue (.removeValue address), (w.issueSet.removeValue address).1⟩) := by
  cases hpreimage : w.issueSet.preimage address with
  | none =>
    have hnothing := ReversibleHashMap.removeValue_of_none hpreimage
    rw [World.removeValue, hnothing]
    exact h.record rfl
  | some issueId =>
    obtain ⟨hremoved, -, hafter⟩ := ReversibleHashMap.removeValue_of_some hpreimage
    intro issueId' address'
    have hbalanced := h issueId' address'
    have hremovals : ((w.removeValue address).record i
        ⟨.issue (.removeValue address), some issueId⟩).removals =
          w.removals ++ [(issueId, address)] := by
      simp [World.record, World.removals, World.removeValue, removed]
    rw [hremoved, hremovals, List.count_append, List.count_singleton]
    simp only [World.record, World.removeValue, hafter, Function.update_apply]
    by_cases haddress : address' = address
    · subst haddress
      rw [hpreimage] at hbalanced
      simpa using hbalanced
    · simpa [haddress, Ne.symm haddress] using hbalanced

theorem Inv.record (h : Inv setup payments w) {e : Prog.Event (api R M)}
    (hbalanced : Balanced w') (hlog : w'.log = w.log ++ [(i, e)])
    (he : policy setup (payments i) (Prog.eventsOf i w.log) e.call) : Inv setup payments w' := by
  refine ⟨hbalanced, fun j => ?_⟩
  rw [hlog]
  by_cases hj : j = i
  · subst hj
    rw [Prog.eventsOf_concat_self]
    exact Prog.obeys_concat.mpr ⟨h.obeys j, he⟩
  · rw [Prog.eventsOf_concat_of_ne hj]
    exact h.obeys j

end Invariant

/-! ### The lock -/

/-- What has no effect on the task `j`: the set is the same while it has it locked. -/
structure Leaves (j : ι) (w w' : World ι R M) : Prop where
  own : Prog.eventsOf j w'.log = Prog.eventsOf j w.log
  holder : w'.holder = some j ↔ w.holder = some j
  issueSet : w.holder = some j → w'.issueSet = w.issueSet

structure Relies (payments : ι → Payment) (i : ι) (w w' : World ι R M) : Prop where
  inv : Inv setup payments w → Inv setup payments w'
  leaves : Leaves i w w'

structure Grants (payments : ι → Payment) (i : ι) (w w' : World ι R M) : Prop where
  inv : Inv setup payments w → Inv setup payments w'
  leaves : ∀ j, j ≠ i → Leaves j w w'

/-- The task has locked the set `issueSet`, after the events `own`. -/
structure Holds (payments : ι → Payment) (i : ι) (issueSet : IssueRequests) (own : Log R M)
    (w : World ι R M) : Prop where
  inv : Inv setup payments w
  holder : w.holder = some i
  issueSet : w.issueSet = issueSet
  own : Prog.eventsOf i w.log = own

section Lock

variable {setup : Setup E R} {payments : ι → Payment} {w w₁ w' w'' : World ι R M} {i j : ι}
variable {issueSet : IssueRequests} {own : Log R M}

theorem Leaves.refl (j : ι) (w : World ι R M) : Leaves j w w := ⟨rfl, Iff.rfl, fun _ => rfl⟩

theorem Leaves.trans (h : Leaves j w w') (h' : Leaves j w' w'') : Leaves j w w'' :=
  ⟨h'.own.trans h.own, h'.holder.trans h.holder,
    fun hj => (h'.issueSet (h.holder.mpr hj)).trans (h.issueSet hj)⟩

theorem Grants.refl (i : ι) (w : World ι R M) : Grants setup payments i w w :=
  ⟨id, fun j _ => .refl j w⟩

theorem Listens.leaves (h : Listens w w') (j : ι) : Leaves j w w' := by
  cases h with
  | insert issueId address hfree | remove issueId hfree =>
    refine ⟨rfl, Iff.rfl, fun hj => ?_⟩
    rw [hfree] at hj
    cases hj

theorem Listens.inv (h : Listens w w') (hw : Inv setup payments w) : Inv setup payments w' := by
  cases h with
  | insert issueId address _ => exact ⟨hw.balanced.watch issueId address, hw.obeys⟩
  | remove issueId _ => exact ⟨hw.balanced.unwatch issueId, hw.obeys⟩

theorem cooperates (setup : Setup E R) (payments : ι → Payment) :
    Prog.Cooperates (Relies (M := M) setup payments) (Grants setup payments) Listens where
  refl i w := ⟨id, .refl i w⟩
  trans h h' := ⟨h'.inv ∘ h.inv, h.leaves.trans h'.leaves⟩
  idle := Grants.refl
  relies hij h := ⟨h.inv, h.leaves _ hij.symm⟩
  other h := ⟨h.inv, h.leaves _⟩

theorem Holds.relies (h : Holds setup payments i issueSet own w)
    (hrelies : Relies setup payments i w w') : Holds setup payments i issueSet own w' :=
  ⟨hrelies.inv h.inv, hrelies.leaves.holder.mpr h.holder,
    (hrelies.leaves.issueSet h.holder).trans h.issueSet, hrelies.leaves.own.trans h.own⟩

/-- A call that the policy allows leaves the lock with the task, and the other ones alone. -/
theorem Holds.record (h : Holds setup payments i issueSet own w) (e : Prog.Event (api R M))
    (w' : World ι R M) (hpolicy : policy setup (payments i) own e.call)
    (hbalanced : Balanced w → Balanced w') (hholder : w'.holder = w.holder)
    (hlog : w'.log = w.log ++ [(i, e)]) :
    Grants setup payments i w w' ∧ Holds setup payments i w'.issueSet (own ++ [e]) w' := by
  rw [← h.own] at hpolicy
  have hinv (hw : Inv setup payments w) : Inv setup payments w' :=
    hw.record (hbalanced hw.balanced) hlog hpolicy
  refine ⟨⟨hinv, fun j hj => ⟨?_, by rw [hholder], fun hholds => ?_⟩⟩,
    ⟨hinv h.inv, hholder.trans h.holder, rfl, ?_⟩⟩
  · rw [hlog]
    exact Prog.eventsOf_concat_of_ne hj e
  · rw [h.holder] at hholds
    exact absurd (Option.some.inj hholds).symm hj
  · rw [hlog, Prog.eventsOf_concat_self, h.own]

/-! ### One task -/

variable (setup payments i) in
/-- The task relies on the others and guarantees what they rely on, and ends with `Q`. -/
abbrev Safe {A : Type} (p : Prog (api R M) A) (Q : A → World ι R M → Prop) (w₁ w : World ι R M) :
    Prop :=
  Prog.Guarantees (taskEnv i) (Relies setup payments i) (Grants setup payments i) p Q w₁ w

variable (setup payments i) in
/-- `Safe`, for the execution on its own. -/
abbrev PartSafe {A : Type} (p : Prog (IssueExecution.api R M) A) (Q : A → World ι R M → Prop)
    (w₁ w : World ι R M) : Prop :=
  Prog.Keeps (Prog.partEnv Call.issue (fun _ r => r)
    (Prog.tracked (Relies setup payments i) (taskEnv i)))
    (fun x => Grants setup payments i x.1 x.2) p (fun a x => Q a x.2) (w₁, w)

variable (setup payments i) in
/-- The task still has the set locked. -/
def Locked (w : World ι R M) : Prop := ∃ issueSet own, Holds setup payments i issueSet own w

variable {A : Type} {Q : A → World ι R M → Prop}

/-- A call that only asks. -/
theorem safe_call {call : IssueExecution.Call M}
    {next : (IssueExecution.api R M).Answer call → Prog (IssueExecution.api R M) A}
    (hG : Grants setup payments i w₁ w) (h : Holds setup payments i issueSet own w)
    (heffect : ∀ w : World ι R M, effect i w (.issue call) = w)
    (hremoved : ∀ r, removed (R := R) ⟨.issue call, r⟩ = none)
    (hpolicy : policy setup (payments i) own (.issue call))
    (hnext : ∀ r w' w'', Grants setup payments i w' w'' →
      Holds setup payments i issueSet (own ++ [⟨.issue call, r⟩]) w'' →
      PartSafe setup payments i (next r) Q w' w'') :
    PartSafe setup payments i (.call call next) Q w₁ w := by
  refine ⟨hG, fun r x hr => ?_⟩
  obtain ⟨r, rfl, hrelies, -, heq⟩ := hr
  rw [heffect] at heq
  have h := h.relies hrelies
  obtain ⟨hG, hholds⟩ := h.record ⟨.issue call, r⟩ x.2 hpolicy
    (fun hw => heq ▸ hw.record (hremoved r)) (by rw [heq]; rfl) (by rw [heq]; rfl)
  have hsame : x.2.issueSet = issueSet := by
    rw [heq]
    exact h.issueSet
  rw [hsame] at hholds
  exact hnext r x.1 x.2 hG hholds

theorem safe_removeValue {address : BtcAddress} {issueId : H256}
    {next : Option H256 → Prog (IssueExecution.api R M) A}
    (hG : Grants setup payments i w₁ w) (h : Holds setup payments i issueSet own w)
    (hfound : issueSet.preimage address = some issueId)
    (hpaid : Paid setup (payments i) own issueId address)
    (hnext : ∀ w' w'', Grants setup payments i w' w'' →
      Holds setup payments i w''.issueSet
        (own ++ [⟨.issue (.removeValue address), some issueId⟩]) w'' →
      PartSafe setup payments i (next (some issueId)) Q w' w'') :
    PartSafe setup payments i (.call (.removeValue address) next) Q w₁ w := by
  refine ⟨hG, fun r x hr => ?_⟩
  obtain ⟨r, rfl, hrelies, rfl, heq⟩ := hr
  have h := h.relies hrelies
  have hissue : (x.1.issueSet.removeValue address).1 = some issueId := by
    rw [h.issueSet]
    exact (ReversibleHashMap.removeValue_of_some hfound).1
  obtain ⟨hG, hholds⟩ := h.record
    ⟨.issue (.removeValue address), (x.1.issueSet.removeValue address).1⟩ x.2 ⟨issueId, hpaid⟩
    (fun hw => heq ▸ hw.removeValue address) (by rw [heq]; rfl) (by rw [heq]; rfl)
  rw [hissue] at hholds ⊢
  exact hnext x.1 x.2 hG hholds

omit [DecidableEq ι] in
theorem Paid.append {issueId : H256} {address : BtcAddress}
    (h : Paid setup (payments i) own issueId address) (events : Log R M) :
    Paid setup (payments i) (own ++ events) issueId address := by
  obtain ⟨issueSet, hlock, hfind⟩ := h.found
  obtain ⟨request, hrequest, hamount⟩ := h.enough
  exact ⟨⟨issueSet, List.mem_append_left _ hlock, hfind⟩, request, List.mem_append_left _ hrequest,
    hamount⟩

omit [DecidableEq ι] in
/-- What the task has asked for when it removes the issue. -/
theorem paid_of_read {issueId : H256} {address : BtcAddress} {request : IssueRequest}
    {payload : Payload} {transferred : UInt64} {expected : Nat}
    (hfind : findIssue setup.lib issueSet (payments i).transaction = some (issueId, address))
    (hpayload : address.toPayload setup.lib = .ok payload)
    (htransferred : getPaymentAmountTo setup.lib (payments i).transaction payload =
      some transferred)
    (hle : expected ≤ transferred.toNat)
    (hexpected : plus (R := R) 128 setup.overflowChecks request.amount request.fee = .ok expected) :
    Paid (M := M) setup (payments i) ([⟨.issue .lock, issueSet⟩] ++
      [⟨.issue (.getIssueRequest issueId), .ok request⟩]) issueId address where
  found := ⟨issueSet, by simp, hfind⟩
  enough := ⟨request, by simp, payload, hpayload, transferred, htransferred, expected, hle,
    hexpected⟩

omit [DecidableEq ι] in
/-- What the task has asked for when it executes the issue. -/
theorem mayExecute_of_read {issueId : H256} {address : BtcAddress} {request : IssueRequest}
    (hpaid : Paid setup (payments i) own issueId address)
    (hremoved : ⟨.issue (.removeValue address), some issueId⟩ ∈ own)
    (hfirst : ∀ e ∈ own, isExecution e = false) (hopen : request.status ≠ .completed)
    (metadata : M) : MayExecute setup (payments i) (own ++
      [⟨.issue (.waitForBlockInRelay (payments i).blockHash setup.numConfirmations), .ok ()⟩] ++
      [⟨.issue (.delay issueId), .ok ()⟩] ++
      [⟨.issue (.getIssueRequest issueId), .ok request⟩] ++
      [⟨.issue (.waitForTransactionMetadata (setup.lib.txid (payments i).transaction)
        setup.numConfirmations (payments i).blockHash), .ok metadata⟩]) issueId metadata where
  removed := ⟨address, (((hpaid.append _).append _).append _).append _, by simp [hremoved]⟩
  relayed := by simp
  isOpen := ⟨own ++
      [⟨.issue (.waitForBlockInRelay (payments i).blockHash setup.numConfirmations), .ok ()⟩] ++
      [⟨.issue (.delay issueId), .ok ()⟩], request,
    [⟨.issue (.waitForTransactionMetadata (setup.lib.txid (payments i).transaction)
      setup.numConfirmations (payments i).blockHash), .ok metadata⟩], by simp, by simp, hopen⟩
  metadata := by simp
  first := by simpa [or_imp, forall_and, isExecution] using hfirst

theorem safe_executeRemoved {issueId : H256} {address : BtcAddress}
    (hG : Grants setup payments i w₁ w) (h : Holds setup payments i issueSet own w)
    (hpaid : Paid setup (payments i) own issueId address)
    (hremoved : ⟨.issue (.removeValue address), some issueId⟩ ∈ own)
    (hfirst : ∀ e ∈ own, isExecution e = false) :
    PartSafe setup payments i (executeRemoved setup.lib setup.isIssueCompleted
      setup.numConfirmations (payments i).blockHash (payments i).transaction issueId).run
      (fun _ => Locked setup payments i) w₁ w := by
  refine safe_call hG h (fun _ => rfl) (fun _ => rfl) trivial fun relayed _ _ hG h => ?_
  rcases relayed with e | ⟨⟨⟩⟩
  · exact ⟨hG, _, _, h⟩
  · refine safe_call hG h (fun _ => rfl) (fun _ => rfl) trivial fun delayed _ _ hG h => ?_
    rcases delayed with e | ⟨⟨⟩⟩
    · exact ⟨hG, _, _, h⟩
    · refine safe_call hG h (fun _ => rfl) (fun _ => rfl) trivial fun request _ _ hG h => ?_
      cases request with
      | error e => exact ⟨hG, _, _, h⟩
      | ok request =>
        change PartSafe _ _ _ (ExceptT.run (if request.status = .completed then _ else _)) _ _ _
        split
        next => exact ⟨hG, _, _, h⟩
        next hopen =>
          refine safe_call hG h (fun _ => rfl) (fun _ => rfl) trivial fun metadata _ _ hG h => ?_
          cases metadata with
          | error e => exact ⟨hG, _, _, h⟩
          | ok metadata =>
            have hmay := mayExecute_of_read hpaid hremoved hfirst hopen metadata
            refine safe_call hG h (fun _ => rfl) (fun _ => rfl) hmay fun result _ _ hG h => ?_
            cases result with
            | ok _ => exact ⟨hG, _, _, h⟩
            | error err =>
              change PartSafe _ _ _ (ExceptT.run (if setup.isIssueCompleted err then _ else _))
                _ _ _
              split
              · exact ⟨hG, _, _, h⟩
              · exact ⟨hG, _, _, h⟩

/-- The task has not called anything yet. -/
structure Waits (setup : Setup E R) (payments : ι → Payment) (i : ι) (w : World ι R M) : Prop where
  inv : Inv setup payments w
  own : Prog.eventsOf i w.log = []

theorem safe_lock {next : IssueRequests → Prog (IssueExecution.api R M) A}
    (hG : Grants setup payments i w₁ w) (h : Waits setup payments i w)
    (hnext : ∀ issueSet w' w'', Grants setup payments i w' w'' →
      Holds setup payments i issueSet [⟨.issue .lock, issueSet⟩] w'' →
      PartSafe setup payments i (next issueSet) Q w' w'') :
    PartSafe setup payments i (.call .lock next) Q w₁ w := by
  refine ⟨hG, fun r x hr => ?_⟩
  obtain ⟨issueSet, rfl, hrelies, ⟨hfree, hset⟩, heq⟩ := hr
  have hinv (hw : Inv setup payments x.1) : Inv setup payments x.2 := by
    rw [heq]
    exact hw.record (i := i) (e := ⟨.issue .lock, issueSet⟩) (hw.balanced.record rfl) rfl trivial
  refine hnext issueSet x.1 x.2 ⟨hinv, fun j hj => ?_⟩ ⟨hinv (hrelies.inv h.inv), ?_, ?_, ?_⟩
  · rw [heq]
    refine ⟨Prog.eventsOf_concat_of_ne hj _, ?_, fun hholds => ?_⟩
    · exact iff_of_false (fun hholds => hj (Option.some.inj hholds).symm) (by rw [hfree]; nofun)
    · rw [hfree] at hholds
      cases hholds
  · rw [heq]
    rfl
  · rw [heq]
    exact hset.symm
  · rw [heq]
    change Prog.eventsOf i (x.1.log ++ _) = _
    rw [Prog.eventsOf_concat_self, hrelies.leaves.own.trans h.own]
    rfl

theorem safe_process (hG : Grants setup payments i w₁ w) (h : Waits setup payments i w) :
    PartSafe setup payments i (processTransactionAndExecuteIssue setup.lib setup.isIssueCompleted
      setup.numConfirmations (payments i).blockHash (payments i).transaction
      setup.overflowChecks).run (fun _ => Locked (M := M) setup payments i) w₁ w := by
  refine safe_lock hG h fun issueSet _ _ hG h => ?_
  dsimp only [Prog.bind, ExceptT.bindCont, Function.comp_apply]
  split
  next => exact ⟨hG, _, _, h⟩
  next issueId address hfind =>
    refine safe_call hG h (fun _ => rfl) (fun _ => rfl) trivial fun request _ _ hG h => ?_
    rcases request with e | request
    · exact ⟨hG, _, _, h⟩
    · dsimp only [Prog.bind, ExceptT.bindCont, Except.mapError, Function.comp_apply]
      split
      next => exact ⟨hG, _, _, h⟩
      next payload hpayload =>
        split
        next => exact ⟨hG, _, _, h⟩
        next transferred htransferred =>
          cases hexpected : plus (R := R) 128 setup.overflowChecks request.amount request.fee with
          | error e => exact ⟨hG, _, _, h⟩
          | ok expected =>
            change PartSafe _ _ _ (ExceptT.run (if transferred.toNat < expected then _ else _))
              _ _ _
            split
            next => exact ⟨hG, _, _, h⟩
            next hle =>
              have hpaid := paid_of_read (M := M) hfind hpayload htransferred
                (Nat.le_of_not_lt hle) hexpected
              refine safe_removeValue hG h (IssueExecution.preimage_of_findIssue hfind) hpaid
                fun _ _ hG h => ?_
              exact safe_executeRemoved hG h (hpaid.append _) List.mem_concat_self
                (by simp [isExecution])

/-- The lock is given back whatever the execution has come to. -/
theorem safe_task (hG : Grants setup payments i w₁ w) (h : Waits setup payments i w) :
    Safe (M := M) setup payments i (task setup (payments i)) (fun _ w => w.holder ≠ some i)
      w₁ w := by
  refine Prog.guarantees_bind (Prog.keeps_embed_of_part (safe_process hG h)) fun _ _ w hG hw => ?_
  refine Prog.guarantees_bind (P := fun _ w => w.holder ≠ some i)
    (Prog.guarantees_request hG fun w' r w'' hrelies hr => ?_) fun _ _ w hG hfree => ⟨hG, hfree⟩
  obtain ⟨issueSet, own, h⟩ := hw
  obtain ⟨-, heq⟩ := hr
  have h := h.relies hrelies
  have hfree : w''.holder = none := by
    rw [heq]
    rfl
  have hinv (hw : Inv setup payments w') : Inv setup payments w'' := by
    rw [heq]
    exact hw.record (i := i) (e := ⟨.unlock, r⟩) (hw.balanced.record rfl) rfl trivial
  refine ⟨⟨hinv, fun j hj => ?_⟩, by rw [hfree]; nofun⟩
  have hne : w'.holder ≠ some j := by
    rw [h.holder]
    exact fun hi => hj (Option.some.inj hi).symm
  refine ⟨?_, iff_of_false (by rw [hfree]; nofun) hne, fun hholds => absurd hholds hne⟩
  rw [heq]
  exact Prog.eventsOf_concat_of_ne hj _

end Lock

/-! ### All of them -/

section Pool

variable {setup : Setup E R} {payments : ι → Payment} {w : World ι R M}
variable {ps : ι → Prog (api R M) (Except (Failure R) Unit)}

theorem inv_of_poolRuns (hruns : Prog.PoolRuns taskEnv Listens
      (fun i => task setup (payments i)) World.start ps w) :
    Inv setup payments w ∧
      ∀ i, Safe setup payments i (ps i) (fun _ w => w.holder ≠ some i) w w := by
  refine Prog.Guarantees.poolRuns (cooperates setup payments) (fun i _ w w' hrelies hfree => ?_)
    (fun hgrants => hgrants.inv) (fun hlistens => hlistens.inv) (fun i => ?_) inv_start hruns
  · exact fun hholds => hfree (hrelies.leaves.holder.mp hholds)
  · exact safe_task (Grants.refl i _) ⟨inv_start, rfl⟩

omit [DecidableEq ι] in
theorem Balanced.subperm (h : Balanced w) : w.removals.Subperm w.watched := by
  refine List.subperm_ext_iff.mpr fun pair _ => ?_
  have := h pair.1 pair.2
  exact Nat.le_trans (Nat.le_add_right _ _) this

omit [DecidableEq ι] in
theorem countP_removes_le (h : Balanced w) (issueId : H256) :
    w.log.countP (fun e => removes issueId e.2) ≤
      w.watched.countP fun pair => decide (pair.1 = issueId) := by
  refine Nat.le_trans (Nat.le_of_eq ?_) (h.subperm.countP_le fun pair => decide (pair.1 = issueId))
  rw [World.removals, List.countP_filterMap]
  refine List.countP_congr fun e _ => ?_
  cases hremoved : removed e.2 <;> simp [removes, hremoved]

theorem eq_executeIssue {issueId : H256} {e : Prog.Event (api R M)}
    (h : executes issueId e = true) :
    ∃ metadata, e.call = .issue (.executeIssue issueId metadata) := by
  unfold executes at h
  split at h
  next issueId' metadata r =>
    obtain rfl := of_decide_eq_true h
    exact ⟨metadata, rfl⟩
  next => cases h

theorem not_isExecution {payment : Payment} {own : Log R M} {e e' : Prog.Event (api R M)}
    (h : policy setup payment own e.call) (he : isExecution e = true) (he' : e' ∈ own) :
    isExecution e' = false := by
  unfold isExecution at he
  split at he
  next issueId metadata r =>
    have hmay : MayExecute setup payment own issueId metadata := h
    exact hmay.first e' he'
  next => cases he

/-- A task executes at most one issue, and has removed it from the set. -/
theorem countP_executes_le {payment : Payment} {own : Log R M}
    (h : Prog.Obeys (policy setup payment) own) (issueId : H256) :
    own.countP (executes issueId) ≤ own.countP (removes issueId) := by
  have hone : own.countP (executes issueId) ≤ 1 := by
    refine Nat.le_trans (List.countP_mono_left fun e _ he => ?_)
      (h.count_le_one fun log e he hkind e' => not_isExecution he hkind)
    obtain ⟨call, r⟩ := e
    obtain ⟨metadata, rfl⟩ : ∃ metadata, call = _ := eq_executeIssue he
    rfl
  rcases Nat.eq_zero_or_pos (own.countP (executes issueId)) with hnone | hsome
  · omega
  · obtain ⟨e, hmem, he⟩ := List.countP_pos_iff.mp hsome
    obtain ⟨metadata, hcall⟩ := eq_executeIssue he
    obtain ⟨before, after, rfl⟩ := List.append_of_mem hmem
    have hmay := h before e after rfl
    rw [hcall] at hmay
    obtain ⟨address, -, hremoval⟩ := hmay.removed
    refine Nat.le_trans hone (List.countP_pos_iff.mpr ⟨_, List.mem_append_left _ hremoval, ?_⟩)
    simp [removes, removed]

/-- In every run of the tasks and the listeners, what each task does is what it may do, no issue is
executed more often than it has been added to the set, each one that is executed has been added with
an address that it has been paid to, and a task that has returned does not keep the set locked. -/
theorem executes_watched (hruns : Prog.PoolRuns taskEnv Listens
      (fun i => task setup (payments i)) World.start ps w) :
    (∀ i, Prog.Obeys (policy setup (payments i)) (Prog.eventsOf i w.log)) ∧
      (∀ issueId, w.log.countP (fun e => executes issueId e.2) ≤
        w.watched.countP fun pair => decide (pair.1 = issueId)) ∧
      (∀ i issueId metadata r, (i, ⟨.issue (.executeIssue issueId metadata), r⟩) ∈ w.log →
        ∃ address, (issueId, address) ∈ w.watched ∧
          Paid setup (payments i) (Prog.eventsOf i w.log) issueId address) ∧
      ∀ i result, ps i = .pure result → w.holder ≠ some i := by
  obtain ⟨hinv, hsafe⟩ := inv_of_poolRuns hruns
  refine ⟨hinv.obeys, fun issueId => ?_, fun i issueId metadata r hmem => ?_,
    fun i result hps => ?_⟩
  · exact Nat.le_trans
      (Prog.countP_le_of_eventsOf fun i => countP_executes_le (hinv.obeys i) issueId)
      (countP_removes_le hinv.balanced issueId)
  · obtain ⟨before, after, heq⟩ := List.append_of_mem (Prog.mem_eventsOf.mpr hmem)
    have hmay : MayExecute setup (payments i) before issueId metadata :=
      hinv.obeys i before _ after heq
    obtain ⟨address, hpaid, hremoved⟩ := hmay.removed
    refine ⟨address, hinv.balanced.subperm.subset (List.mem_filterMap.mpr
      ⟨(i, ⟨.issue (.removeValue address), some issueId⟩), Prog.mem_eventsOf.mp ?_, rfl⟩), ?_⟩
    · rw [heq]
      exact List.mem_append_left _ hremoved
    · rw [heq]
      exact hpaid.append _
  · have h := hsafe i
    rw [hps] at h
    exact h.2

end Pool

/-! ### Two payments -/

section TwoPayments

open IssueExecution (AddressOf addressOf_newP2pkh findIssue_eq_some_iff preimage_twoIssues twoIssues
  twoPayments twoRequests)

def plainSetup : Setup String Unit := ⟨threeKeys [] [], fun _ => false, 6, false⟩

/-- Two transactions that pay the same two issues. -/
def bothPay : Bool → Payment
  | false => ⟨0, twoPayments⟩
  | true => ⟨1, { twoPayments with lockTime := 1 }⟩

namespace World

variable (w : World Bool Unit Unit) (i : Bool)

def ask (call : Call Unit) (r : (api Unit Unit).Answer call) : World Bool Unit Unit :=
  (effect i w call).record i ⟨call, r⟩

/-- What the task `i` leaves behind when it executes the issue. -/
def executed (issueId : H256) (hash : H160) : World Bool Unit Unit :=
  let w := w.ask i (.issue .lock) w.issueSet
  let w := w.ask i (.issue (.getIssueRequest issueId)) (.ok (twoRequests.request issueId))
  let w := w.ask i (.issue (.removeValue (.P2PKH hash))) (some issueId)
  let w := w.ask i (.issue (.waitForBlockInRelay (bothPay i).blockHash 6)) (.ok ())
  let w := w.ask i (.issue (.delay issueId)) (.ok ())
  let w := w.ask i (.issue (.getIssueRequest issueId)) (.ok (twoRequests.request issueId))
  let w := w.ask i (.issue (.waitForTransactionMetadata
    (plainSetup.lib.txid (bothPay i).transaction) 6 (bothPay i).blockHash)) (.ok ())
  let w := w.ask i (.issue (.executeIssue issueId ())) (.ok ())
  w.ask i .unlock ()

end World

variable {w : World Bool Unit Unit} {i : Bool} {issueId : H256} {hash : H160}

theorem runs_ask {A : Type} {w' : World Bool Unit Unit} {p : Prog (api Unit Unit) A}
    (call : Call Unit) (r : (api Unit Unit).Answer call)
    {next : (api Unit Unit).Answer call → Prog (api Unit Unit) A} (h : Allowed w call r)
    (hnext : Prog.Runs (taskEnv i) (next r) (w.ask i call r) p w') :
    Prog.Runs (taskEnv i) (.call call next) w p w' :=
  .step ⟨h, rfl⟩ hnext

theorem runs_executed (hfree : w.holder = none)
    (hfind : findIssue plainSetup.lib w.issueSet (bothPay i).transaction =
      some (issueId, .P2PKH hash))
    (hpaid : getPaymentAmountTo plainSetup.lib (bothPay i).transaction (.pubkeyHash hash) =
      some 1000) :
    Prog.Runs (taskEnv i) (task plainSetup (bothPay i)) w (.pure (.ok ()))
      (w.executed i issueId hash) := by
  have hremoved : some issueId = (w.issueSet.removeValue (.P2PKH hash)).1 :=
    (ReversibleHashMap.removeValue_of_some (IssueExecution.preimage_of_findIssue hfind)).1.symm
  have hpayload : (BtcAddress.P2PKH hash).toPayload plainSetup.lib = .ok (.pubkeyHash hash) :=
    plainSetup.lib.payload_newP2pkh hash
  refine runs_ask (.issue .lock) w.issueSet ⟨hfree, rfl⟩ ?_
  dsimp only [Prog.bind, ExceptT.bindCont, Function.comp_apply]
  rw [hfind]
  refine runs_ask (.issue (.getIssueRequest issueId)) (.ok (twoRequests.request issueId)) trivial ?_
  dsimp only [Prog.bind, ExceptT.bindCont, Except.mapError, Function.comp_apply]
  rw [hpayload]
  dsimp only
  rw [hpaid]
  refine runs_ask (.issue (.removeValue (.P2PKH hash))) (some issueId) hremoved ?_
  refine runs_ask (.issue (.waitForBlockInRelay (bothPay i).blockHash 6)) (.ok ()) trivial ?_
  refine runs_ask (.issue (.delay issueId)) (.ok ()) trivial ?_
  refine runs_ask (.issue (.getIssueRequest issueId)) (.ok (twoRequests.request issueId)) trivial ?_
  refine runs_ask (.issue (.waitForTransactionMetadata
    (plainSetup.lib.txid (bothPay i).transaction) 6 (bothPay i).blockHash)) (.ok ()) trivial ?_
  refine runs_ask (.issue (.executeIssue issueId ())) (.ok ()) trivial ?_
  refine runs_ask .unlock () trivial ?_
  exact .refl _ _

/-- The two issues are watched from the start, and the first task executes the first one. -/
def afterFirst : World Bool Unit Unit :=
  ((World.start.watch 1 (.P2PKH 1)).watch 2 (.P2PKH 2)).executed false 1 1

/-- A third issue is added before the second task gets the lock. -/
def afterBoth : World Bool Unit Unit := (afterFirst.watch 3 (.P2PKH 3)).executed true 2 2

theorem findIssue_first : findIssue plainSetup.lib twoIssues twoPayments = some (1, .P2PKH 1) := by
  refine findIssue_eq_some_iff.mpr ⟨[], ⟨1000, plainSetup.lib.newP2pkh 1⟩,
    [⟨1000, plainSetup.lib.newP2pkh 2⟩], rfl,
    ⟨by decide, _, plainSetup.lib.payload_newP2pkh 1, rfl⟩, ?_, nofun⟩
  rw [preimage_twoIssues]
  decide

theorem preimage_afterFirst : (afterFirst.watch 3 (.P2PKH 3)).issueSet.preimage =
    Function.update (Function.update twoIssues.preimage (.P2PKH 1) none) (.P2PKH 3) (some 3) := by
  obtain ⟨-, -, hpreimage⟩ := ReversibleHashMap.removeValue_of_some
    (IssueExecution.preimage_of_findIssue findIssue_first)
  rw [← hpreimage]
  exact ReversibleHashMap.preimage_insert

/-- The first output is to an address that has left the set. -/
theorem findIssue_second :
    findIssue plainSetup.lib (afterFirst.watch 3 (.P2PKH 3)).issueSet (bothPay true).transaction =
      some (2, .P2PKH 2) := by
  refine findIssue_eq_some_iff.mpr ⟨[⟨1000, plainSetup.lib.newP2pkh 1⟩],
    ⟨1000, plainSetup.lib.newP2pkh 2⟩, [], rfl,
    ⟨by decide, _, plainSetup.lib.payload_newP2pkh 2, rfl⟩, ?_, ?_⟩
  · rw [preimage_afterFirst, preimage_twoIssues]
    decide
  · simp only [List.mem_singleton, forall_eq]
    intro other hother
    rw [addressOf_newP2pkh hother, preimage_afterFirst]
    decide

/-- Each of the two tasks executes an issue, as often as it has been added. -/
theorem executes_watched_afterBoth :
    (afterBoth.log.countP (fun e => executes 1 e.2) = 1 ∧
      afterBoth.log.countP (fun e => executes 1 e.2) ≤
        afterBoth.watched.countP fun pair => decide (pair.1 = 1)) ∧
    (afterBoth.log.countP (fun e => executes 2 e.2) = 1 ∧
      afterBoth.log.countP (fun e => executes 2 e.2) ≤
        afterBoth.watched.countP fun pair => decide (pair.1 = 2)) ∧
      ∀ i, afterBoth.holder ≠ some i := by
  have hfirst := runs_executed (w := (World.start.watch 1 (.P2PKH 1)).watch 2 (.P2PKH 2))
    (i := false) rfl findIssue_first (by decide)
  have hsecond := runs_executed (w := afterFirst.watch 3 (.P2PKH 3)) (i := true) rfl
    findIssue_second (by decide)
  have hruns : Prog.PoolRuns taskEnv Listens (fun i => task plainSetup (bothPay i)) World.start _
      afterBoth :=
    .other (.insert 1 (.P2PKH 1) rfl) (.other (.insert 2 (.P2PKH 2) rfl)
      (hfirst.poolRuns rfl (.other (.insert 3 (.P2PKH 3) rfl)
        (hsecond.poolRuns rfl (.refl _ _)))))
  obtain ⟨-, hcount, -, hfree⟩ := executes_watched hruns
  refine ⟨⟨rfl, hcount 1⟩, ⟨rfl, hcount 2⟩, fun i => hfree i (.ok ()) ?_⟩
  cases i <;> rfl

end TwoPayments

end InterBtcClients.Vault.IssueWatch
