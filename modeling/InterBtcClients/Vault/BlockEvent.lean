import InterBtcClients.Vault.CancellationStart

/-! What a new block makes the cancellation scheduler do when its list is valid: the expired
requests leave the list, and are cancelled in their order up to the first that fails. -/

namespace InterBtcClients.Vault.BlockEvent

open Library InterBtcClients.Runtime Cancellation
open CancellationStart (advance)

/-! ### The list -/

section Drain

variable (currentHeight bitcoinHeight : Nat)

/-- The loop of `drain_expired` from index `i`: an expired request is removed, which moves those
after it one place forward. -/
def drainLoop (i : Nat) (requests expired : List ActiveRequest) :
    List ActiveRequest × List ActiveRequest :=
  if hi : i < requests.length then
    if hasExpired currentHeight bitcoinHeight requests[i] then
      drainLoop i (requests.eraseIdx i) (expired ++ [requests[i]])
    else
      drainLoop (i + 1) requests expired
  else
    (expired, requests)
termination_by requests.length - i
decreasing_by
  · rw [List.length_eraseIdx_of_lt hi]
    omega
  · omega

/-- The requests below the index have not expired, and those from it on are still to be looked at.
-/
theorem drainLoop_eq (i : Nat) (requests expired : List ActiveRequest) :
    drainLoop currentHeight bitcoinHeight i requests expired =
      (expired ++ (requests.drop i).filter (hasExpired currentHeight bitcoinHeight),
        requests.take i ++
          (requests.drop i).filter fun request =>
            !hasExpired currentHeight bitcoinHeight request) := by
  fun_induction drainLoop currentHeight bitcoinHeight i requests expired with
  | case1 i requests expired hi hexpired ih =>
    have hlength : (requests.take i).length = i := List.length_take_of_le (Nat.le_of_lt hi)
    rw [ih, List.drop_eq_getElem_cons hi, List.eraseIdx_eq_take_drop_succ, List.drop_left' hlength,
      List.take_left' hlength]
    simp only [List.filter_cons, hexpired, Bool.not_true, Bool.false_eq_true, if_true, if_false,
      List.append_assoc, List.singleton_append]
  | case2 i requests expired hi hexpired ih =>
    rw [ih, List.drop_eq_getElem_cons hi, List.take_succ_eq_append_getElem hi]
    simp only [List.filter_cons, hexpired, Bool.not_false, Bool.false_eq_true, if_true, if_false,
      List.append_assoc, List.singleton_append]
  | case3 i requests expired hi =>
    rw [List.drop_eq_nil_of_le (Nat.le_of_not_lt hi), List.take_of_length_le (Nat.le_of_not_lt hi)]
    simp

/-- The loop does what `drainExpired` does. -/
theorem drainLoop_zero (requests : List ActiveRequest) :
    drainLoop currentHeight bitcoinHeight 0 requests [] =
      drainExpired currentHeight bitcoinHeight requests := by
  rw [drainLoop_eq, drainExpired_eq]
  rfl

end Drain

/-! ### The calls -/

section Calls

variable {Request R : Type}

/-- Where a sequence of `total` calls stops, after `made` of them: at the first that fails. -/
structure UpToFirstFailure (fails : Nat → Prop) (made total : Nat) : Prop where
  le : made ≤ total
  earlier : ∀ i, i + 1 < made → ¬fails i
  stops : made < total → ∃ i, i + 1 = made ∧ fails i

variable (answer : List Call → (call : Call) → (api Request R).Answer call)

def cancelCall (request : ActiveRequest) : Call := .cancelRequest request.id

/-- The call for the request at this position fails, when it comes after those before it. -/
def Fails (calls : List Call) (expired : List ActiveRequest) (i : Nat) : Prop :=
  ∃ request e, expired[i]? = some request ∧
    answer (calls ++ (expired.take i).map cancelCall) (cancelCall request) = .error e

variable {answer} {calls : List Call} {request : ActiveRequest} {expired : List ActiveRequest}

theorem fails_zero {e : R} (h : answer calls (cancelCall request) = .error e) :
    Fails answer calls (request :: expired) 0 :=
  ⟨request, e, rfl, by rwa [List.take_zero, List.map_nil, List.append_nil]⟩

theorem not_fails_zero {done : Unit} (h : answer calls (cancelCall request) = .ok done) :
    ¬Fails answer calls (request :: expired) 0 := by
  rintro ⟨_, e, hrequest, he⟩
  cases hrequest
  rw [List.take_zero, List.map_nil, List.append_nil, h] at he
  cases he

theorem fails_succ (i : Nat) : Fails answer calls (request :: expired) (i + 1) ↔
    Fails answer (calls ++ [cancelCall request]) expired i := by
  unfold Fails
  rw [List.getElem?_cons_succ, List.take_succ_cons, List.map_cons, List.append_cons]

variable (answer calls request expired) in
theorem exec_cancelAll_cons :
    (CancellationScheduler.cancelAll (request :: expired)).exec (Prog.record answer) calls =
      (match answer calls (cancelCall request) with
        | .ok _ => CancellationScheduler.cancelAll expired
        | .error _ => pure .invalid).exec (Prog.record answer) (calls ++ [cancelCall request]) :=
  rfl

variable (answer) in
/-- The requests that `cancelAll` calls to cancel. -/
theorem exec_cancelAll (calls : List Call) (expired : List ActiveRequest) :
    ∃ made state, (CancellationScheduler.cancelAll expired).exec (Prog.record answer) calls =
        (state, calls ++ (expired.take made).map cancelCall) ∧
      UpToFirstFailure (Fails answer calls expired) made expired.length ∧
      (state = .invalid ↔ ∃ i < made, Fails answer calls expired i) := by
  induction expired generalizing calls with
  | nil => exact ⟨0, .valid, by simp; rfl, ⟨Nat.le_refl _, by simp, by simp⟩, by simp⟩
  | cons request expired ih =>
    cases hanswer : answer calls (cancelCall request) with
    | error e =>
      have hfails : Fails answer calls (request :: expired) 0 := fails_zero hanswer
      refine ⟨1, .invalid, ?_, ⟨Nat.le_add_left 1 _, ?_, fun _ => ⟨0, rfl, hfails⟩⟩,
        iff_of_true rfl ⟨0, Nat.one_pos, hfails⟩⟩
      · rw [exec_cancelAll_cons, hanswer]
        rfl
      · intro i hi
        omega
    | ok done =>
      have hnot : ¬Fails answer calls (request :: expired) 0 := not_fails_zero hanswer
      obtain ⟨made, state, hexec, hup, hstate⟩ := ih (calls ++ [cancelCall request])
      refine ⟨made + 1, state, ?_, ⟨Nat.succ_le_succ hup.le, ?_, ?_⟩, ?_⟩
      · rw [exec_cancelAll_cons, hanswer]
        refine hexec.trans ?_
        rw [List.take_succ_cons, List.map_cons, List.append_assoc]
        rfl
      · intro i hi
        cases i with
        | zero => exact hnot
        | succ i => exact fun h => hup.earlier i (by omega) ((fails_succ i).mp h)
      · intro hlt
        obtain ⟨i, hi, hfails⟩ := hup.stops (Nat.lt_of_succ_lt_succ hlt)
        exact ⟨i + 1, by omega, (fails_succ i).mpr hfails⟩
      · rw [hstate]
        constructor
        · rintro ⟨i, hi, hfails⟩
          exact ⟨i + 1, by omega, (fails_succ i).mpr hfails⟩
        · rintro ⟨i, hi, hfails⟩
          cases i with
          | zero => exact absurd hfails hnot
          | succ i => exact ⟨i, by omega, (fails_succ i).mp hfails⟩

/-! ### The event -/

/-- A new block of one of the chains. -/
inductive Block
  | parachain (height : Nat)
  | bitcoin (height : Nat)

def Block.event : Block → Event
  | .parachain height => .parachainBlock height
  | .bitcoin height => .bitcoinBlock height

variable {canceller : Canceller Request} {scheduler : CancellationScheduler}
variable {requests : List ActiveRequest}

def expiredNow (scheduler : CancellationScheduler) : ActiveRequest → Bool :=
  hasExpired scheduler.parachainHeight scheduler.bitcoinHeight

variable (answer) in
/-- From the list `requests`, the scheduler at the heights of `current` has made `calls` and goes on
with `s`. -/
structure CancelsExpired (current : CancellationScheduler) (requests : List ActiveRequest)
    (s : Loop) (calls : List Call) : Prop where
  scheduler : s.scheduler = current
  drained : drainLoop current.parachainHeight current.bitcoinHeight 0 requests [] =
    (requests.filter (expiredNow current), s.activeRequests)
  rest : s.activeRequests = requests.filter fun request => !expiredNow current request
  cancels : ∃ made, calls = ((requests.filter (expiredNow current)).take made).map cancelCall ∧
    UpToFirstFailure (Fails answer [] (requests.filter (expiredNow current))) made
      (requests.filter (expiredNow current)).length ∧
    (s.listState = .invalid ↔ ∃ i < made, Fails answer [] (requests.filter (expiredNow current)) i)

variable (answer) in
/-- What is left of a run that starts with the calls to cancel. -/
theorem exec_cancelRequests {A : Type} (scheduler : CancellationScheduler)
    (requests : List ActiveRequest) (next : ListState × List ActiveRequest → Rpc Request R A) :
    (scheduler.cancelRequests requests >>= next).exec (Prog.record answer) [] =
      let cancelled := (CancellationScheduler.cancelAll
        (requests.filter (expiredNow scheduler))).exec (Prog.record answer) []
      (next (cancelled.1, requests.filter fun request => !expiredNow scheduler request)).exec
        (Prog.record answer) cancelled.2 := by
  rw [CancellationScheduler.cancelRequests, drainExpired_eq, bind_assoc]
  exact Prog.exec_bind _ _ _ _

/-- Only the height of the block changes, and the scheduler at the new heights cancels what has
expired. -/
theorem processEvent_block (block : Block) (scheduler : CancellationScheduler)
    (requests : List ActiveRequest)
    (answer : List Call → (call : Call) → (api Request R).Answer call) :
    CancelsExpired answer (advance block.event scheduler) requests
      ((processEvent canceller block.event ⟨scheduler, requests, .valid⟩).exec
        (Prog.record answer) []).1
      ((processEvent canceller block.event ⟨scheduler, requests, .valid⟩).exec
        (Prog.record answer) []).2 := by
  have hrun : (processEvent canceller block.event ⟨scheduler, requests, .valid⟩).exec
      (Prog.record answer) [] =
      let current := advance block.event scheduler
      let cancelled := (CancellationScheduler.cancelAll
        (requests.filter (expiredNow current))).exec (Prog.record answer) []
      (⟨current, requests.filter fun request => !expiredNow current request, cancelled.1⟩,
        cancelled.2) := by
    cases block with
    | parachain height | bitcoin height => exact exec_cancelRequests answer _ requests _
  obtain ⟨made, state, hexec, hup, hstate⟩ := exec_cancelAll answer []
    (requests.filter (expiredNow (advance block.event scheduler)))
  simp only [hexec] at hrun
  rw [hrun]
  exact ⟨rfl, (drainLoop_zero _ _ requests).trans (drainExpired_eq _ _ requests), rfl, made,
    rfl, hup, hstate⟩

end Calls

end InterBtcClients.Vault.BlockEvent
