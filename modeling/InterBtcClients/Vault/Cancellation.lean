import InterBtcClients.Library.Prog
import InterBtcClients.Vault.Deadline

/-! The cancellation scheduler of the issue and replace requests: it keeps a list of the open
requests, which it fetches from the parachain when it is not sure of it, and cancels those that have
expired. -/

namespace InterBtcClients.Vault.Cancellation

open Library InterBtcClients.Runtime

inductive Event
  | opened
  | executed (id : H256)
  | parachainBlock (height : Nat)
  | bitcoinBlock (height : Nat)
  deriving DecidableEq

structure CancellationScheduler where
  vaultId : AccountId
  parachainHeight : Nat
  bitcoinHeight : Nat

structure ActiveRequest where
  id : H256
  parachainDeadlineHeight : Nat
  bitcoinDeadlineHeight : Nat
  deriving DecidableEq, Repr

structure UnconvertedOpenTime where
  id : H256
  parachainOpenHeight : Nat
  bitcoinOpenHeight : Nat
  period : Nat

inductive ListState
  | valid
  | invalid
  deriving DecidableEq, Repr

/-- What the source's trait of this name abstracts over, on the requests themselves. -/
structure Canceller (Request : Type) where
  isPending : Request → Bool
  parachainOpenHeight : Request → Nat
  bitcoinOpenHeight : Request → Nat
  period : Request → Nat

def issueCanceller : Canceller InterBtcIssueRequest where
  isPending issue := issue.status = .pending
  parachainOpenHeight := InterBtcIssueRequest.opentime
  bitcoinOpenHeight := InterBtcIssueRequest.btcHeight
  period := InterBtcIssueRequest.period

def replaceCanceller : Canceller InterBtcReplaceRequest where
  isPending replace := replace.status = .pending
  parachainOpenHeight := InterBtcReplaceRequest.acceptTime
  bitcoinOpenHeight := InterBtcReplaceRequest.btcHeight
  period := InterBtcReplaceRequest.period

/-! ### The scheduler -/

section Program

variable (Request R : Type)

inductive Call
  /-- `event_listener.next()` -/
  | nextEvent
  | getVaultRequests (vaultId : AccountId)
  | getPeriod
  | cancelRequest (id : H256)

@[reducible] def api : Interface where
  Call := Call
  Answer
    | .nextEvent => Option Event
    | .getVaultRequests _ => Except R (List (H256 × Request))
    | .getPeriod => Except R Nat
    | .cancelRequest _ => Except R Unit

abbrev Rpc := Prog (api Request R)

variable {Request R}

abbrev ask (call : Call) : Rpc Request R ((api Request R).Answer call) :=
  Prog.request (api Request R) call

variable (canceller : Canceller Request)

/-- The pending requests, of whatever answer the parachain gives. -/
def Canceller.openRequests (requests : List (H256 × Request)) : List UnconvertedOpenTime :=
  (requests.filter fun (_, request) => canceller.isPending request).map fun (id, request) =>
    { id
      parachainOpenHeight := canceller.parachainOpenHeight request
      bitcoinOpenHeight := canceller.bitcoinOpenHeight request
      period := canceller.period request }

def Canceller.getOpenRequests (vaultId : AccountId) :
    ExceptT (Error R) (Rpc Request R) (List UnconvertedOpenTime) := do
  let requests ← ExceptT.mk (Except.mapError .rpc <$> ask (.getVaultRequests vaultId))
  return canceller.openRequests requests

def hasExpired (currentHeight bitcoinHeight : Nat) (request : ActiveRequest) : Bool :=
  currentHeight > request.parachainDeadlineHeight && bitcoinHeight > request.bitcoinDeadlineHeight

/-- The expired requests and those that stay, both in the order of the list. -/
def drainExpired (currentHeight bitcoinHeight : Nat) :
    List ActiveRequest → List ActiveRequest × List ActiveRequest
  | [] => ([], [])
  | request :: requests =>
    let (expired, rest) := drainExpired currentHeight bitcoinHeight requests
    if hasExpired currentHeight bitcoinHeight request then (request :: expired, rest)
    else (expired, request :: rest)

def convert (globalPeriod : Nat) (request : UnconvertedOpenTime) :
    Except (Error R) ActiveRequest := do
  let period := max globalPeriod request.period
  let parachainDeadlineHeight ←
    okOr .arithmeticOverflow (checkedAdd 32 request.parachainOpenHeight period)
  let bitcoinPeriod ← parachainBlocksToBitcoinBlocksRoundedUp period
  let bitcoinDeadlineHeight ←
    okOr .arithmeticOverflow (checkedAdd 32 request.bitcoinOpenHeight bitcoinPeriod)
  return ⟨request.id, parachainDeadlineHeight, bitcoinDeadlineHeight⟩

namespace CancellationScheduler

variable (scheduler : CancellationScheduler)

def getOpenRequests : ExceptT (Error R) (Rpc Request R) (List ActiveRequest) := do
  let openRequests ← canceller.getOpenRequests scheduler.vaultId
  if openRequests.isEmpty then
    return []
  let globalPeriod ← ExceptT.mk (Except.mapError .rpc <$> ask .getPeriod)
  ExceptT.mk (pure (openRequests.mapM (convert globalPeriod)))

/-- The loop over the drained requests: the first that cannot be cancelled ends it. -/
def cancelAll : List ActiveRequest → Rpc Request R ListState
  | [] => return .valid
  | request :: requests => do
    match ← ask (.cancelRequest request.id) with
    | .ok _ => cancelAll requests
    | .error _ => return .invalid

/-- The next state, and the requests that stay in the list. -/
def cancelRequests (activeRequests : List ActiveRequest) :
    Rpc Request R (ListState × List ActiveRequest) := do
  let (cancellableRequests, activeRequests) :=
    drainExpired scheduler.parachainHeight scheduler.bitcoinHeight activeRequests
  return (← cancelAll cancellableRequests, activeRequests)

end CancellationScheduler

/-- What `handle_cancellation` carries from one event to the next. -/
structure Loop where
  scheduler : CancellationScheduler
  activeRequests : List ActiveRequest
  listState : ListState

/-- The list, fetched again when it is not valid.  A failure to fetch it leaves it empty. -/
def upToDateRequests (s : Loop) : Rpc Request R (List ActiveRequest) :=
  match s.listState with
  | .valid => return s.activeRequests
  | .invalid => do
    match ← (s.scheduler.getOpenRequests canceller).run with
    | .ok requests => return requests
    | .error _ => return []

def processEvent (event : Event) (s : Loop) : Rpc Request R Loop := do
  let activeRequests ← upToDateRequests canceller s
  match event with
  | .parachainBlock height =>
    let scheduler := { s.scheduler with parachainHeight := height }
    let (listState, activeRequests) ← scheduler.cancelRequests activeRequests
    return ⟨scheduler, activeRequests, listState⟩
  | .bitcoinBlock height =>
    let scheduler := { s.scheduler with bitcoinHeight := height }
    let (listState, activeRequests) ← scheduler.cancelRequests activeRequests
    return ⟨scheduler, activeRequests, listState⟩
  | .executed id =>
    return ⟨s.scheduler, activeRequests.filter fun request => request.id ≠ id, .valid⟩
  | .opened => return ⟨s.scheduler, activeRequests, .invalid⟩

/-- The first rounds of the loop in `handle_cancellation`, and where they leave it; `none` when the
channel is closed. -/
def handleCancellation : Nat → Loop → Rpc Request R (Option Loop)
  | 0, s => return some s
  | rounds + 1, s => do
    match ← ask .nextEvent with
    | none => return none
    | some event =>
      let s ← processEvent canceller event s
      handleCancellation rounds s

/-- The loop at the start of `handle_cancellation`. -/
def start (scheduler : CancellationScheduler) : Loop := ⟨scheduler, [], .invalid⟩

end Program

/-! ### The chain -/

/-- The requests of the vault on the parachain, with a history: `owed` are those that were pending
when the scheduler started or received the latest `opened` and that have been neither executed nor
cancelled since, `event` is the latest event, `listed` the latest list that was fetched, and
`failed` says that a query for the list has failed since the latest event. -/
structure World (Request : Type) where
  requests : List (H256 × Request)
  owed : List H256
  event : Event
  listed : List (H256 × Request)
  failed : Bool

section World

variable {Request R : Type} (canceller : Canceller Request)

def Canceller.pendingIds (requests : List (H256 × Request)) : List H256 :=
  (canceller.openRequests requests).map UnconvertedOpenTime.id

namespace World

def start (requests : List (H256 × Request)) : World Request :=
  ⟨requests, canceller.pendingIds requests, .opened, [], false⟩

/-- The chain goes on: a request that is no longer pending has been executed or cancelled. -/
def move (w : World Request) (requests : List (H256 × Request)) : World Request :=
  { w with
    requests
    owed := w.owed.filter fun id => id ∈ canceller.pendingIds requests }

def receive (w : World Request) (event : Event) : World Request :=
  { w with
    event
    owed := match event with
      | .opened => canceller.pendingIds w.requests
      | .executed id => w.owed.filter fun owed => owed ≠ id
      | .parachainBlock _ | .bitcoinBlock _ => w.owed
    failed := false }

def list (w : World Request) : World Request := { w with listed := w.requests }

def note (w : World Request) (failed : Bool) : World Request :=
  { w with failed := w.failed || failed }

/-- The query for the list fails with this answer to `get_period`: with an error, or with a period
for which a deadline of the fetched requests overflows. -/
def periodFails (w : World Request) : Except R Nat → Bool
  | .ok period => !((canceller.openRequests w.listed).mapM (convert (R := R) period)).isOk
  | .error _ => true

def cancel (w : World Request) (id : H256) : World Request :=
  { w with owed := w.owed.filter fun owed => owed ≠ id }

end World

/-- The chain may go on before any call, and every call may fail. -/
def env : Prog.Env (api Request R) (World Request)
  | w, call, r, w' => ∃ requests, match call, r with
    | .nextEvent, some event => w' = (w.move canceller requests).receive canceller event
    | .nextEvent, none => w' = w.move canceller requests
    | .getVaultRequests _, .ok listed => listed = requests ∧ w' = (w.move canceller requests).list
    | .getVaultRequests _, .error _ => w' = (w.move canceller requests).note true
    | .getPeriod, r => w' = (w.move canceller requests).note (w.periodFails canceller r)
    | .cancelRequest id, .ok _ => w' = (w.move canceller requests).cancel id
    | .cancelRequest _, .error _ => w' = w.move canceller requests

/-- A query for the list that fails is made on an `opened` event. -/
def Refetches (w : World Request) : (call : Call) → (api Request R).Answer call → Prop
  | .getVaultRequests _, .error _ => w.event = .opened
  | .getPeriod, r => w.periodFails canceller r = true → w.event = .opened
  | _, _ => True

/-- The chain and the events of runs in which `Refetches` holds at every call. -/
def refetchingEnv : Prog.Env (api Request R) (World Request) := fun w call r w' =>
  env canceller w call r w' ∧ Refetches canceller w call r

/-- What holds of the history at every call: what is owed is pending, what the latest event reported
as executed is not owed, and a query has failed on `opened` only. -/
structure Inv (w : World Request) : Prop where
  pending : ∀ id ∈ w.owed, id ∈ canceller.pendingIds w.requests
  executed : ∀ id, w.event = .executed id → id ∉ w.owed
  failed : w.failed = true → w.event = .opened

/-- The list has every owed request. -/
def Listed (w : World Request) (activeRequests : List ActiveRequest) : Prop :=
  ∀ id ∈ w.owed, id ∈ activeRequests.map ActiveRequest.id

/-- A list that the scheduler takes for valid has every owed request, and after an event whose query
for the list has failed it takes the list for invalid. -/
structure Sound (w : World Request) (s : Loop) : Prop where
  listed : s.listState = .valid → Listed w s.activeRequests
  failed : w.failed = true → s.listState = .invalid

end World

/-! ### What an event keeps -/

section Invariant

variable {Request R : Type} {canceller : Canceller Request}
variable {w w' : World Request} {event : Event}

/-- `w'` is `w` after calls that received no event. -/
structure Later (w w' : World Request) : Prop where
  event : w'.event = w.event
  owed : w'.owed ⊆ w.owed

theorem Later.refl (w : World Request) : Later w w := ⟨rfl, fun _ h => h⟩

theorem Later.trans {w₁ w₂ w₃ : World Request} (h₁ : Later w₁ w₂) (h₂ : Later w₂ w₃) :
    Later w₁ w₃ :=
  ⟨h₂.event.trans h₁.event, fun _ h => h₁.owed (h₂.owed h)⟩

theorem Listed.later {activeRequests : List ActiveRequest} (h : Listed w activeRequests)
    (hlater : Later w w') : Listed w' activeRequests :=
  fun id hid => h id (hlater.owed hid)

variable (canceller) in
theorem later_move (w : World Request) (requests : List (H256 × Request)) :
    Later w (w.move canceller requests) :=
  ⟨rfl, fun _ h => (List.mem_filter.mp h).1⟩

theorem Inv.move (h : Inv canceller w) (requests : List (H256 × Request)) :
    Inv canceller (w.move canceller requests) where
  pending _ hid := of_decide_eq_true (List.mem_filter.mp hid).2
  executed id hevent hid := h.executed id hevent (List.mem_filter.mp hid).1
  failed := h.failed

theorem Inv.note (h : Inv canceller w) {failed : Bool}
    (hopened : failed = true → w.event = .opened) : Inv canceller (w.note failed) where
  pending := h.pending
  executed := h.executed
  failed hfailed := (Bool.or_eq_true _ _ ▸ hfailed).elim h.failed hopened

theorem Inv.receive (h : Inv canceller w) (event : Event) :
    Inv canceller (w.receive canceller event) where
  pending id hid := by
    cases event with
    | opened => exact hid
    | executed id' => exact h.pending id (List.mem_filter.mp hid).1
    | parachainBlock height | bitcoinBlock height => exact h.pending id hid
  executed id hevent hid := by
    cases hevent
    simpa using (List.mem_filter.mp hid).2
  failed := nofun

/-- Cancelling a request takes it off the chain's list of pending ones only when the chain moves
next, so the invariant is about what is owed. -/
theorem Inv.cancel (h : Inv canceller w) (id : H256) : Inv canceller (w.cancel id) where
  pending id' hid := h.pending id' (List.mem_filter.mp hid).1
  executed id' hevent hid := h.executed id' hevent (List.mem_filter.mp hid).1
  failed := h.failed

theorem later_cancel (w : World Request) (id : H256) : Later w (w.cancel id) :=
  ⟨rfl, fun _ h => (List.mem_filter.mp h).1⟩

theorem id_of_convert {period : Nat} {request : UnconvertedOpenTime} {active : ActiveRequest}
    (h : convert (R := R) period request = .ok active) : active.id = request.id := by
  obtain ⟨parachainDeadlineHeight, -, h⟩ := Prog.bind_eq_ok h
  obtain ⟨bitcoinPeriod, -, h⟩ := Prog.bind_eq_ok h
  obtain ⟨bitcoinDeadlineHeight, -, h⟩ := Prog.bind_eq_ok h
  cases h
  rfl

theorem map_id_of_mapM_convert {period : Nat} {requests : List UnconvertedOpenTime}
    {active : List ActiveRequest} (h : requests.mapM (convert (R := R) period) = .ok active) :
    active.map ActiveRequest.id = requests.map UnconvertedOpenTime.id := by
  induction requests generalizing active with
  | nil =>
    cases h
    rfl
  | cons request requests ih =>
    rw [List.mapM_cons] at h
    obtain ⟨first, hrequest, h⟩ := Prog.bind_eq_ok h
    obtain ⟨rest, hrequests, h⟩ := Prog.bind_eq_ok h
    cases h
    rw [List.map_cons, List.map_cons, id_of_convert hrequest, ih hrequests]

/-- What a query for the list ends with: a list that has every owed request, unless it fails, on an
`opened` event. -/
def Fetched (w : World Request) : Except (Error R) (List ActiveRequest) → Prop
  | .ok active => Listed w active
  | .error _ => w.event = .opened

theorem keeps_getOpenRequests (scheduler : CancellationScheduler) (hw : Inv canceller w) :
    Prog.Keeps (refetchingEnv (R := R) canceller) (Inv canceller)
      (scheduler.getOpenRequests canceller).run
      (fun r w' => Later w w' ∧ Fetched w' r) w := by
  refine Prog.keeps_run_bind.mpr (Prog.keeps_run_bind.mpr (Prog.keeps_map.mpr
    (Prog.keeps_request.mpr ⟨hw, fun r w₁ hr => ?_⟩)))
  obtain ⟨⟨requests, hr⟩, hfetch⟩ := hr
  match r, hr, hfetch with
  | .error e, hr, hopened =>
    cases hr
    have hmove := later_move canceller w requests
    exact ⟨(hw.move requests).note fun _ => hopened, ⟨rfl, hmove.owed⟩, hopened⟩
  | .ok listed, hr, _ =>
    obtain ⟨rfl, rfl⟩ := hr
    have hlater : Later w (w.move canceller listed).list :=
      ⟨rfl, (later_move canceller w listed).owed⟩
    have hinv : Inv canceller (w.move canceller listed).list :=
      ⟨(hw.move listed).pending, (hw.move listed).executed, (hw.move listed).failed⟩
    have hpending : ∀ id ∈ (w.move canceller listed).list.owed,
        id ∈ (canceller.openRequests listed).map UnconvertedOpenTime.id := hinv.pending
    have hlisted : (w.move canceller listed).list.listed = listed := rfl
    generalize (w.move canceller listed).list = w₁ at hlater hinv hpending hlisted ⊢
    refine ⟨hinv, hinv, ?_⟩
    dsimp only [Prog.mapError_ok, Prog.Outcome]
    split
    · rename_i hempty
      rw [List.isEmpty_iff.mp hempty] at hpending
      exact Prog.keeps_run_pure.mpr ⟨hinv, hlater, hpending⟩
    · refine Prog.keeps_run_bind.mpr (Prog.keeps_map.mpr
        (Prog.keeps_request.mpr ⟨hinv, fun r w₂ hr => ?_⟩))
      obtain ⟨⟨requests, hr⟩, hfetch⟩ := hr
      cases hr
      have hmove := later_move canceller w₁ requests
      have hlater' : Later w ((w₁.move canceller requests).note (w₁.periodFails canceller r)) :=
        hlater.trans ⟨rfl, hmove.owed⟩
      have hinv' : Inv canceller
          ((w₁.move canceller requests).note (w₁.periodFails canceller r)) :=
        (hinv.move requests).note hfetch
      refine ⟨hinv', ?_⟩
      match r, hfetch with
      | .error e, hopened => exact ⟨hlater', hopened rfl⟩
      | .ok period, hfetch =>
        refine ⟨hinv', hlater', ?_⟩
        rw [Refetches, World.periodFails, hlisted] at hfetch
        cases hactive : (canceller.openRequests listed).mapM (convert (R := R) period) with
        | error e => exact hfetch (by rw [hactive]; rfl)
        | ok active =>
          intro id hid
          rw [map_id_of_mapM_convert hactive]
          exact hpending id (hmove.owed hid)

theorem keeps_upToDateRequests {s : Loop} (hw : Inv canceller w)
    (hs : s.listState = .valid → w.event = .opened ∨ Listed w s.activeRequests) :
    Prog.Keeps (refetchingEnv (R := R) canceller) (Inv canceller) (upToDateRequests canceller s)
      (fun active w' => Later w w' ∧ (w'.event = .opened ∨ Listed w' active)) w := by
  rw [upToDateRequests]
  split
  · rename_i hvalid
    exact ⟨hw, Later.refl w, hs hvalid⟩
  · refine Prog.keeps_bind.mpr ((keeps_getOpenRequests _ hw).mono fun r w' hw' hr => ?_)
    cases r with
    | ok active => exact ⟨hw', hr.1, .inr hr.2⟩
    | error e => exact ⟨hw', hr.1, .inl hr.2⟩

theorem drainExpired_eq (currentHeight bitcoinHeight : Nat) (requests : List ActiveRequest) :
    drainExpired currentHeight bitcoinHeight requests =
      (requests.filter (hasExpired currentHeight bitcoinHeight),
        requests.filter fun request => !hasExpired currentHeight bitcoinHeight request) := by
  induction requests with
  | nil => rfl
  | cons request requests ih =>
    rw [drainExpired, ih]
    cases h : hasExpired currentHeight bitcoinHeight request <;> simp [h]

/-- When the loop cancels all of its requests, what is owed is among the others. -/
theorem keeps_cancelAll {expired rest : List ActiveRequest} (hw : Inv canceller w)
    (h : Listed w (expired ++ rest)) :
    Prog.Keeps (refetchingEnv (R := R) canceller) (Inv canceller)
      (CancellationScheduler.cancelAll expired)
      (fun listState w' => Later w w' ∧ (listState = .valid → Listed w' rest)) w := by
  induction expired generalizing w with
  | nil => exact ⟨hw, Later.refl w, fun _ => h⟩
  | cons request expired ih =>
    refine Prog.keeps_bind.mpr (Prog.keeps_request.mpr ⟨hw, fun r w₁ hr => ?_⟩)
    obtain ⟨⟨requests, hr⟩, -⟩ := hr
    have hmove := later_move canceller w requests
    match r, hr with
    | .error e, hr =>
      cases hr
      exact ⟨hw.move requests, hw.move requests, hmove, nofun⟩
    | .ok (), hr =>
      cases hr
      have hlater := hmove.trans (later_cancel _ request.id)
      have hinv := (hw.move requests).cancel request.id
      refine ⟨hinv, (ih hinv fun id hid => ?_).mono fun _ _ _ hnext =>
        ⟨hlater.trans hnext.1, hnext.2⟩⟩
      have hne : id ≠ request.id := by simpa using (List.mem_filter.mp hid).2
      simpa [hne] using h id (hlater.owed hid)

theorem keeps_cancelRequests {active : List ActiveRequest} (scheduler : CancellationScheduler)
    (hw : Inv canceller w) (h : Listed w active) :
    Prog.Keeps (refetchingEnv (R := R) canceller) (Inv canceller) (scheduler.cancelRequests active)
      (fun r w' => Later w w' ∧ (r.1 = .valid → Listed w' r.2)) w := by
  rw [CancellationScheduler.cancelRequests, drainExpired_eq]
  refine Prog.keeps_bind.mpr ((keeps_cancelAll hw fun id hid => ?_).mono fun _ _ hw' hr =>
    ⟨hw', hr⟩)
  obtain ⟨request, hmem, rfl⟩ := List.mem_map.mp (h id hid)
  refine List.mem_map_of_mem (List.mem_append.mpr ?_)
  simp only [List.mem_filter, hmem, true_and, Bool.not_eq_true']
  exact Bool.eq_false_or_eq_true _

theorem Inv.sound (hw : Inv canceller w) {s : Loop} (hevent : w.event ≠ .opened)
    (hlisted : s.listState = .valid → Listed w s.activeRequests) : Sound w s where
  listed := hlisted
  failed hfailed := absurd (hw.failed hfailed) hevent

theorem keeps_processEvent {s : Loop} (hw : Inv canceller w)
    (hs : s.listState = .valid → w.event = .opened ∨ Listed w s.activeRequests) :
    Prog.Keeps (refetchingEnv (R := R) canceller) (Inv canceller)
      (processEvent canceller w.event s) (fun s' w' => Sound w' s') w := by
  refine Prog.keeps_bind.mpr ((keeps_upToDateRequests hw hs).mono fun active w' hw' hactive => ?_)
  obtain ⟨hlater, hactive⟩ := hactive
  rw [hlater.event] at hactive
  cases hevent : w.event with
  | opened => exact ⟨hw', nofun, fun _ => rfl⟩
  | parachainBlock height | bitcoinBlock height =>
    have hne : w.event ≠ .opened := by rw [hevent]; nofun
    refine Prog.keeps_bind.mpr ((keeps_cancelRequests _ hw' (hactive.resolve_left hne)).mono
      fun _ _ hw'' hr => ⟨hw'', hw''.sound ?_ hr.2⟩)
    rwa [hr.1.event, hlater.event]
  | executed id =>
    have hne : w.event ≠ .opened := by rw [hevent]; nofun
    refine ⟨hw', hw'.sound (by rwa [hlater.event]) fun _ id' hid => ?_⟩
    have hne' : id' ≠ id := by
      rintro rfl
      exact hw'.executed id' (hlater.event.trans hevent) hid
    obtain ⟨request, hmem, rfl⟩ := List.mem_map.mp (hactive.resolve_left hne id' hid)
    exact List.mem_map_of_mem (List.mem_filter.mpr ⟨hmem, by simpa using hne'⟩)

theorem listed_receive {activeRequests : List ActiveRequest} (h : Listed w activeRequests)
    (event : Event) : (w.receive canceller event).event = .opened ∨
      Listed (w.receive canceller event) activeRequests := by
  cases event with
  | opened => exact .inl rfl
  | executed id => exact .inr fun id' hid => h id' (List.mem_filter.mp hid).1
  | parachainBlock height | bitcoinBlock height => exact .inr h

theorem keeps_handleCancellation (rounds : Nat) {s : Loop} (hw : Inv canceller w)
    (hs : Sound w s) :
    Prog.Keeps (refetchingEnv (R := R) canceller) (Inv canceller)
      (handleCancellation canceller rounds s) (fun r w' => ∀ s', r = some s' → Sound w' s') w := by
  induction rounds generalizing w s with
  | zero =>
    refine ⟨hw, fun s' hs' => ?_⟩
    cases hs'
    exact hs
  | succ rounds ih =>
    refine Prog.keeps_bind.mpr (Prog.keeps_request.mpr ⟨hw, fun r w₁ hr => ?_⟩)
    obtain ⟨⟨requests, hr⟩, -⟩ := hr
    match r, hr with
    | none, hr =>
      cases hr
      exact ⟨hw.move requests, hw.move requests, nofun⟩
    | some event, hr =>
      cases hr
      have hinv := (hw.move requests).receive event
      have hreceived (hvalid : s.listState = .valid) :
          ((w.move canceller requests).receive canceller event).event = .opened ∨
            Listed ((w.move canceller requests).receive canceller event) s.activeRequests :=
        listed_receive ((hs.listed hvalid).later (later_move canceller w requests)) event
      exact ⟨hinv, Prog.keeps_bind.mpr ((keeps_processEvent hinv hreceived).mono
        fun _ _ hw' hs' => ih hw' hs')⟩

theorem inv_start (requests : List (H256 × Request)) :
    Inv canceller (World.start canceller requests) where
  pending _ hid := hid
  executed _ hevent := by cases hevent
  failed _ := rfl

variable (canceller) in
theorem sound_start (scheduler : CancellationScheduler) (requests : List (H256 × Request)) :
    Sound (World.start canceller requests) (start scheduler) where
  listed := nofun
  failed := nofun

variable (canceller) in
/-- Whatever the chain and the calls do, after any number of events a list that is taken for valid
has every request that is owed, and the list is taken for invalid when the query for it has failed,
if no query on an event other than `opened` has. -/
theorem sound_of_runs (scheduler : CancellationScheduler) (requests : List (H256 × Request))
    (rounds : Nat) {s : Loop}
    (hruns : Prog.Runs (refetchingEnv (R := R) canceller)
      (handleCancellation canceller rounds (start scheduler)) (World.start canceller requests)
      (.pure (some s)) w) : Sound w s :=
  (keeps_handleCancellation rounds (inv_start requests) (sound_start canceller _ _)).returns hruns
    s rfl

end Invariant

/-! ### A query that fails -/

def vaultScheduler : CancellationScheduler := ⟨0, 0, 0⟩

/-- One pending issue: opened at parachain height 10 and bitcoin height 100, for 1000 blocks. -/
def pendingIssues : List (H256 × InterBtcIssueRequest) :=
  [(1, { (default : InterBtcIssueRequest) with
    opentime := 10, btcHeight := 100, period := 1000, status := .pending })]

/-- The chain stands still.  The next event is `next`, of whether a query has failed on the latest
one, and the query for the list fails on the events in `fails`. -/
def answer (next : Bool → Event) (fails : List Event) (w : World InterBtcIssueRequest) :
    (call : Call) → (api InterBtcIssueRequest Unit).Answer call × World InterBtcIssueRequest
  | .nextEvent => (some (next w.failed),
      (w.move issueCanceller w.requests).receive issueCanceller (next w.failed))
  | .getVaultRequests _ =>
    if w.event ∈ fails then (.error (), (w.move issueCanceller w.requests).note true)
    else (.ok w.requests, (w.move issueCanceller w.requests).list)
  | .getPeriod => (.ok 1000, (w.move issueCanceller w.requests).note
      (w.periodFails (R := Unit) issueCanceller (.ok 1000)))
  | .cancelRequest _ => (.error (), w.move issueCanceller w.requests)

theorem env_answer (next : Bool → Event) (fails : List Event) (w : World InterBtcIssueRequest)
    (call : Call) :
    env issueCanceller w call (answer next fails w call).1 (answer next fails w call).2 := by
  refine ⟨w.requests, ?_⟩
  cases call with
  | getVaultRequests vaultId =>
    by_cases hfails : w.event ∈ fails
    · simp only [answer, if_pos hfails]
    · simp only [answer, if_neg hfails, and_self]
  | nextEvent | getPeriod | cancelRequest id => rfl

/-- The scheduler and the world after the first events. -/
def after (next : Bool → Event) (fails : List Event) (rounds : Nat) :
    Option Loop × World InterBtcIssueRequest :=
  (handleCancellation issueCanceller rounds (start vaultScheduler)).exec (answer next fails)
    (World.start issueCanceller pendingIssues)

/-- A new issue first, then a parachain block at height 11. -/
def openedFirst : Bool → Event
  | false => .opened
  | true => .parachainBlock 11

/-- The chain of the run: what is pending stays so, and what was fetched is that. -/
def Standing (w : World InterBtcIssueRequest) : Prop :=
  w.requests = pendingIssues ∧ (w.listed = [] ∨ w.listed = pendingIssues)

theorem standing_answer (next : Bool → Event) (fails : List Event) {w : World InterBtcIssueRequest}
    (hw : Standing w) (call : Call) : Standing (answer next fails w call).2 := by
  cases call with
  | getVaultRequests vaultId =>
    rw [answer]
    split
    · exact hw
    · exact ⟨hw.1, .inr hw.1⟩
  | nextEvent | getPeriod | cancelRequest id => exact hw

theorem refetches_answer (next : Bool → Event) {w : World InterBtcIssueRequest} (hw : Standing w)
    (call : Call) : Refetches issueCanceller w call (answer next [.opened] w call).1 := by
  cases call with
  | getVaultRequests vaultId =>
    rw [answer]
    split
    · rename_i hopened
      exact List.mem_singleton.mp hopened
    · trivial
  | getPeriod =>
    intro hfails
    rcases hw.2 with hlisted | hlisted <;> rw [answer, World.periodFails, hlisted] at hfails <;>
      cases hfails
  | nextEvent | cancelRequest id => trivial

theorem runs_after (rounds : Nat) :
    Prog.Runs (refetchingEnv (R := Unit) issueCanceller)
      (handleCancellation issueCanceller rounds (start vaultScheduler))
      (World.start issueCanceller pendingIssues)
      (.pure (after openedFirst [.opened] rounds).1) (after openedFirst [.opened] rounds).2 :=
  Prog.runs_exec_of_inv (I := Standing)
    (fun w call hw => ⟨⟨env_answer _ _ w call, refetches_answer _ hw call⟩,
      standing_answer _ _ hw call⟩) _ ⟨rfl, .inl rfl⟩

/-- The query on a new issue fails, so the list is invalid.  On the block after it the list is
fetched: it has the pending issue with its deadlines. -/
theorem sound_of_runs_openedFirst :
    (after openedFirst [.opened] 1).2.failed = true ∧
      Sound (after openedFirst [.opened] 1).2 ⟨vaultScheduler, [], .invalid⟩ ∧
      Sound (after openedFirst [.opened] 2).2 ⟨⟨0, 11, 0⟩, [⟨1, 1010, 120⟩], .valid⟩ :=
  ⟨rfl, sound_of_runs issueCanceller vaultScheduler pendingIssues 1 (runs_after 1),
    sound_of_runs issueCanceller vaultScheduler pendingIssues 2 (runs_after 2)⟩

/-- The query on a first block fails: the block leaves an empty list, taken for valid, with the
issue still owed. -/
theorem not_sound_of_runs :
    Prog.Runs (env (R := Unit) issueCanceller)
        (handleCancellation issueCanceller 1 (start vaultScheduler))
        (World.start issueCanceller pendingIssues)
        (.pure (some ⟨⟨0, 11, 0⟩, [], .valid⟩))
        (after (fun _ => .parachainBlock 11) [.parachainBlock 11] 1).2 ∧
      (after (fun _ => .parachainBlock 11) [.parachainBlock 11] 1).2.failed = true ∧
      ¬Listed (after (fun _ => .parachainBlock 11) [.parachainBlock 11] 1).2 [] := by
  have hruns : Prog.Runs (env (R := Unit) issueCanceller)
      (handleCancellation issueCanceller 1 (start vaultScheduler))
      (World.start issueCanceller pendingIssues)
      (.pure (after (fun _ => .parachainBlock 11) [.parachainBlock 11] 1).1)
      (after (fun _ => .parachainBlock 11) [.parachainBlock 11] 1).2 :=
    Prog.runs_exec (env_answer _ _) _ _
  refine ⟨hruns, rfl, fun h => ?_⟩
  cases h 1 List.mem_cons_self

end InterBtcClients.Vault.Cancellation
