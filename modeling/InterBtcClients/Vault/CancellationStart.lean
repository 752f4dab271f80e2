import InterBtcClients.Vault.Cancellation
import InterBtcClients.Vault.Startup

/-! The cancellation schedulers from the start of the service: the first parachain height is a block
number, and those that follow are counts of active blocks.  No request is cancelled before its
deadline unless the two are compared, which is when a bitcoin block comes before the first active
parachain block and the start-up height is above the count. -/

namespace InterBtcClients.Vault.CancellationStart

open Library Cancellation InterBtcClients.Runtime

variable {Request R : Type}

/-! ### The program -/

/-- The calls of the service up to its scheduler, and those of the scheduler. -/
inductive Call
  | height (call : Startup.HeightCall)
  | getBestBlockHeight
  | scheduler (call : Cancellation.Call)

variable (Request R) in
@[reducible] def api : Interface where
  Call := Call
  Answer
    | .height call => (Startup.heightApi R).Answer call
    | .getBestBlockHeight => Except R Nat
    | .scheduler call => (Cancellation.api Request R).Answer call

def unwrapOrDefault : Except R Nat → Nat
  | .ok height => height
  | .error _ => 0

/-- The steps of `run_service` that a scheduler's heights come from, and the first rounds of the
scheduler; `none` is a wait for a block that has not ended after `fuel` polls. -/
def runService (canceller : Canceller Request) (vaultId : AccountId) (fuel rounds : Nat) :
    ExceptT R (Prog (api Request R)) (Option (Option Loop)) := do
  match ← ExceptT.mk ((Startup.awaitParachainBlock fuel).run.embed Call.height fun _ r => r) with
  | none => return none
  | some startupHeight =>
    let initialBtcHeight ← ExceptT.lift (Prog.request (api Request R) .getBestBlockHeight)
    let scheduler : CancellationScheduler :=
      ⟨vaultId, startupHeight, unwrapOrDefault initialBtcHeight⟩
    ExceptT.lift (some <$>
      (handleCancellation canceller rounds (start scheduler)).embed Call.scheduler fun _ r => r)

/-! ### The chain -/

/-- The heights on chain.  A block is not active while the parachain is paused. -/
structure Heights where
  blockNumber : Nat
  activeBlockCount : Nat
  relayHeight : Nat
  active_le : activeBlockCount ≤ blockNumber

structure Heights.Le (heights heights' : Heights) : Prop where
  blockNumber : heights.blockNumber ≤ heights'.blockNumber
  active : heights.activeBlockCount ≤ heights'.activeBlockCount
  relay : heights.relayHeight ≤ heights'.relayHeight

/-- A call to cancel a request, with the heights at that time and the latest list of requests and
global period that the scheduler has read. -/
structure Cancel (Request : Type) where
  id : H256
  heights : Heights
  listed : List (H256 × Request)
  period : Nat

/-- The heights, what the scheduler has read, the height that the service has started at, whether
the scheduler has received an active block, and the calls to cancel. -/
structure World (Request : Type) where
  heights : Heights
  listed : List (H256 × Request)
  period : Nat
  startupHeight : Option Nat
  received : Bool
  cancels : List (Cancel Request)

namespace World

def start (heights : Heights) : World Request := ⟨heights, [], 0, none, false, []⟩

def startAt (w : World Request) (height : Nat) : World Request :=
  { w with startupHeight := w.startupHeight.or (some height) }

def receive (w : World Request) : Event → World Request
  | .parachainBlock _ => { w with received := true }
  | _ => w

def cancel (w : World Request) (id : H256) : World Request :=
  { w with cancels := ⟨id, w.heights, w.listed, w.period⟩ :: w.cancels }

end World

/-- The chain goes on. -/
def Grows (w w' : World Request) : Prop :=
  ∃ heights, w.heights.Le heights ∧ w' = { w with heights }

/-- The listeners have read the height of an event on chain. -/
def Heights.HasRead (heights : Heights) : Event → Prop
  | .parachainBlock height => height ≤ heights.activeBlockCount
  | .bitcoinBlock height => height ≤ heights.relayHeight
  | .opened | .executed _ => True

def heightAnswers : Prog.Env (Startup.heightApi R) (World Request)
  | w, .getCurrentChainHeight, .ok height, w' =>
    height = w.heights.blockNumber ∧ w' = w.startAt height
  | w, .getCurrentChainHeight, .error _, w' => w' = w
  | w, .sleep, _, w' => w' = w

/-- The parachain may have any requests and any period, and every call may fail. -/
def schedulerAnswers : Prog.Env (Cancellation.api Request R) (World Request)
  | w, .nextEvent, some event, w' => w.heights.HasRead event ∧ w' = w.receive event
  | w, .nextEvent, none, w' => w' = w
  | w, .getVaultRequests _, .ok listed, w' => w' = { w with listed }
  | w, .getVaultRequests _, .error _, w' => w' = w
  | w, .getPeriod, .ok period, w' => w' = { w with period }
  | w, .getPeriod, .error _, w' => w' = w
  | w, .cancelRequest id, _, w' => w' = w.cancel id

def answers : Prog.Env (api Request R) (World Request)
  | w, .height call, r, w' => heightAnswers w call r w'
  | w, .getBestBlockHeight, r, w' =>
    (∀ height, r = .ok height → height = w.heights.relayHeight) ∧ w' = w
  | w, .scheduler call, r, w' => schedulerAnswers w call r w'

/-- The chain may go on before any call. -/
def env : Prog.Env (api Request R) (World Request) := Prog.interfere Grows answers

/-! ### Deadlines -/

def parachainDeadline (globalPeriod : Nat) (request : UnconvertedOpenTime) : Nat :=
  request.parachainOpenHeight + max globalPeriod request.period

/-- The parachain's period in bitcoin blocks, rounded up. -/
def bitcoinDeadline (globalPeriod : Nat) (request : UnconvertedOpenTime) : Nat :=
  request.bitcoinOpenHeight +
    (max globalPeriod request.period * MILLISECS_PER_BLOCK + BITCOIN_BLOCK_INTERVAL - 1) /
      BITCOIN_BLOCK_INTERVAL

variable (canceller : Canceller Request)

/-- The call is for a pending request whose deadlines have passed. -/
def Cancel.Due (cancel : Cancel Request) : Prop :=
  ∃ request ∈ canceller.openRequests cancel.listed, request.id = cancel.id ∧
    parachainDeadline cancel.period request < cancel.heights.activeBlockCount ∧
    bitcoinDeadline cancel.period request < cancel.heights.relayHeight

/-- No request has been cancelled before its deadline. -/
def NeverEarly (w : World Request) : Prop := ∀ cancel ∈ w.cancels, cancel.Due canceller

/-- When a bitcoin block comes before the first active parachain block, as many blocks have been
active as there were at the start. -/
def Meets (w : World Request) : (call : Call) → (api Request R).Answer call → Prop
  | .scheduler .nextEvent, some (.bitcoinBlock _) => w.received = false →
    ∀ startupHeight, w.startupHeight = some startupHeight →
      startupHeight ≤ w.heights.activeBlockCount
  | _, _ => True

def meetingEnv : Prog.Env (api Request R) (World Request) :=
  Prog.interfere Grows fun w call r w' => answers w call r w' ∧ Meets w call r

/-! ### One scheduler -/

section Scheduler

variable {canceller} {w w' : World Request}

theorem Heights.Le.refl (heights : Heights) : heights.Le heights :=
  ⟨Nat.le_refl _, Nat.le_refl _, Nat.le_refl _⟩

theorem Heights.Le.trans {h₁ h₂ h₃ : Heights} (h : h₁.Le h₂) (h' : h₂.Le h₃) : h₁.Le h₃ :=
  ⟨Nat.le_trans h.blockNumber h'.blockNumber, Nat.le_trans h.active h'.active,
    Nat.le_trans h.relay h'.relay⟩

/-- The deadlines that the scheduler works out, where no step overflows. -/
theorem deadlines_of_convert {period : Nat} {request : UnconvertedOpenTime} {active : ActiveRequest}
    (h : convert (R := R) period request = .ok active) :
    request.id = active.id ∧ parachainDeadline period request = active.parachainDeadlineHeight ∧
      bitcoinDeadline period request = active.bitcoinDeadlineHeight := by
  obtain ⟨deadline, hdeadline, h⟩ := Prog.bind_eq_ok h
  obtain ⟨bitcoinPeriod, hperiod, h⟩ := Prog.bind_eq_ok h
  obtain ⟨bitcoinHeight, hheight, h⟩ := Prog.bind_eq_ok h
  cases h
  have hbitcoin := checkedAdd_eq_some (okOr_eq_ok hheight)
  rw [bitcoinBlocks_eq hperiod] at hbitcoin
  exact ⟨rfl, (checkedAdd_eq_some (okOr_eq_ok hdeadline)).symm, hbitcoin.symm⟩

/-- Each entry of the list is a pending request that the parachain has listed, with its deadlines.
-/
def Listed (canceller : Canceller Request) (w : World Request)
    (activeRequests : List ActiveRequest) : Prop :=
  ∀ active ∈ activeRequests, ∃ request ∈ canceller.openRequests w.listed,
    request.id = active.id ∧ parachainDeadline w.period request = active.parachainDeadlineHeight ∧
      bitcoinDeadline w.period request = active.bitcoinDeadlineHeight

theorem listed_of_mapM_convert {activeRequests : List ActiveRequest}
    (h : (canceller.openRequests w.listed).mapM (convert (R := R) w.period) = .ok activeRequests) :
    Listed canceller w activeRequests := by
  intro active hactive
  obtain ⟨request, hrequest, hconvert⟩ := Prog.exists_of_mapM_eq_ok h active hactive
  exact ⟨request, hrequest, deadlines_of_convert hconvert⟩

/-- `w'` is `w` after calls that received no event. -/
structure Later (w w' : World Request) : Prop where
  heights : w.heights.Le w'.heights
  received : w'.received = w.received
  startup : w'.startupHeight = w.startupHeight

theorem Later.trans {w₁ w₂ w₃ : World Request} (h : Later w₁ w₂) (h' : Later w₂ w₃) : Later w₁ w₃ :=
  ⟨h.heights.trans h'.heights, h'.received.trans h.received, h'.startup.trans h.startup⟩

theorem Later.refl (w : World Request) : Later w w := ⟨.refl _, rfl, rfl⟩

/-- The scheduler's heights are heights on chain, but for the first one, of the parachain. -/
structure Agrees (w : World Request) (scheduler : CancellationScheduler) : Prop where
  bitcoin : scheduler.bitcoinHeight ≤ w.heights.relayHeight
  received : w.received = true → scheduler.parachainHeight ≤ w.heights.activeBlockCount
  startup : w.received = false → w.startupHeight = some scheduler.parachainHeight

theorem Agrees.later {scheduler : CancellationScheduler} (h : Agrees w scheduler)
    (hlater : Later w w') : Agrees w' scheduler where
  bitcoin := Nat.le_trans h.bitcoin hlater.heights.relay
  received hreceived :=
    Nat.le_trans (h.received (hlater.received.symm.trans hreceived)) hlater.heights.active
  startup hreceived := hlater.startup.trans (h.startup (hlater.received.symm.trans hreceived))

/-- The surroundings of the scheduler. -/
abbrev schedulerEnv : Prog.Env (Cancellation.api Request R) (World Request) :=
  Prog.partEnv Call.scheduler (fun _ r => r) meetingEnv

theorem keeps_getOpenRequests (scheduler : CancellationScheduler) (hw : NeverEarly canceller w) :
    Prog.Keeps (schedulerEnv (R := R)) (NeverEarly canceller)
      (scheduler.getOpenRequests canceller).run
      (fun r w' => Later w w' ∧ ∀ active, r = .ok active → Listed canceller w' active) w := by
  refine Prog.keeps_run_bind.mpr (Prog.keeps_run_bind.mpr (Prog.keeps_map.mpr
    (Prog.keeps_request.mpr ⟨hw, fun r w₁ hr => ?_⟩)))
  obtain ⟨r, rfl, _, ⟨heights, hle, rfl⟩, hanswer, -⟩ := hr
  have hlater : Later w { w with heights } := ⟨hle, rfl, rfl⟩
  match r, hanswer with
  | .error e, hanswer =>
    cases hanswer
    exact ⟨hw, hlater, nofun⟩
  | .ok listed, hanswer =>
    cases hanswer
    refine ⟨hw, hw, ?_⟩
    dsimp only [Prog.mapError_ok, Prog.Outcome]
    split
    · refine Prog.keeps_run_pure.mpr ⟨hw, ⟨hle, rfl, rfl⟩, fun active hactive => ?_⟩
      cases hactive
      exact nofun
    · refine Prog.keeps_run_bind.mpr (Prog.keeps_map.mpr
        (Prog.keeps_request.mpr ⟨hw, fun r w₂ hr => ?_⟩))
      obtain ⟨r, rfl, _, ⟨heights', hle', rfl⟩, hanswer, -⟩ := hr
      match r, hanswer with
      | .error e, hanswer =>
        cases hanswer
        exact ⟨hw, ⟨hle.trans hle', rfl, rfl⟩, nofun⟩
      | .ok period, hanswer =>
        cases hanswer
        exact ⟨hw, hw, ⟨hle.trans hle', rfl, rfl⟩, fun active hactive =>
          listed_of_mapM_convert hactive⟩

theorem keeps_upToDateRequests {s : Loop} (hw : NeverEarly canceller w)
    (hlisted : Listed canceller w s.activeRequests) :
    Prog.Keeps (schedulerEnv (R := R)) (NeverEarly canceller) (upToDateRequests canceller s)
      (fun active w' => Later w w' ∧ Listed canceller w' active) w := by
  rw [upToDateRequests]
  split
  · exact ⟨hw, Later.refl w, hlisted⟩
  · refine Prog.keeps_bind.mpr ((keeps_getOpenRequests _ hw).mono fun r w' hw' hr => ?_)
    cases r with
    | ok active => exact ⟨hw', hr.1, hr.2 active rfl⟩
    | error e => exact ⟨hw', hr.1, List.forall_mem_nil _⟩

/-- A call to cancel the request would be for one whose deadlines have passed. -/
def DueNow (canceller : Canceller Request) (w : World Request) (active : ActiveRequest) : Prop :=
  Cancel.Due canceller ⟨active.id, w.heights, w.listed, w.period⟩

theorem DueNow.heights {heights : Heights} {active : ActiveRequest} (h : DueNow canceller w active)
    (hle : w.heights.Le heights) : DueNow canceller { w with heights } active := by
  obtain ⟨request, hrequest, hid, hparachain, hbitcoin⟩ := h
  exact ⟨request, hrequest, hid, Nat.lt_of_lt_of_le hparachain hle.active,
    Nat.lt_of_lt_of_le hbitcoin hle.relay⟩

theorem keeps_cancelAll {expired : List ActiveRequest} (hw : NeverEarly canceller w)
    (hdue : ∀ active ∈ expired, DueNow canceller w active) :
    Prog.Keeps (schedulerEnv (R := R)) (NeverEarly canceller)
      (CancellationScheduler.cancelAll expired)
      (fun _ w' => Later w w' ∧ w'.listed = w.listed ∧ w'.period = w.period) w := by
  induction expired generalizing w with
  | nil => exact ⟨hw, Later.refl w, rfl, rfl⟩
  | cons active expired ih =>
    refine Prog.keeps_bind.mpr (Prog.keeps_request.mpr ⟨hw, fun r w₁ hr => ?_⟩)
    obtain ⟨r, rfl, _, ⟨heights, hle, rfl⟩, hanswer, -⟩ := hr
    have hnow (other : ActiveRequest) (hother : other ∈ active :: expired) :
        DueNow canceller { w with heights } other := (hdue other hother).heights hle
    have hcancel : NeverEarly canceller (World.cancel { w with heights } active.id) := by
      intro cancel hcancel
      rcases List.mem_cons.mp hcancel with rfl | hcancel
      · exact hnow active List.mem_cons_self
      · exact hw cancel hcancel
    cases hanswer
    cases r with
    | error e => exact ⟨hcancel, hcancel, ⟨hle, rfl, rfl⟩, rfl, rfl⟩
    | ok done =>
      have hrest := ih hcancel fun other hother => hnow other (List.mem_cons_of_mem _ hother)
      have hlater : Later w (World.cancel { w with heights } active.id) := ⟨hle, rfl, rfl⟩
      exact ⟨hcancel, hrest.mono fun _ _ _ h => ⟨hlater.trans h.1, h.2⟩⟩

/-- The scheduler's heights are compared when both are heights on chain. -/
theorem keeps_cancelRequests {scheduler : CancellationScheduler}
    {activeRequests : List ActiveRequest}
    (hw : NeverEarly canceller w) (hlisted : Listed canceller w activeRequests)
    (hparachain : scheduler.parachainHeight ≤ w.heights.activeBlockCount)
    (hbitcoin : scheduler.bitcoinHeight ≤ w.heights.relayHeight) :
    Prog.Keeps (schedulerEnv (R := R)) (NeverEarly canceller)
      (scheduler.cancelRequests activeRequests)
      (fun r w' => Later w w' ∧ Listed canceller w' r.2) w := by
  rw [CancellationScheduler.cancelRequests, drainExpired_eq]
  refine Prog.keeps_bind.mpr ((keeps_cancelAll hw fun active hactive => ?_).mono
    fun _ w' hw' hr => ⟨hw', hr.1, fun active hactive => ?_⟩)
  · obtain ⟨hactive, hexpired⟩ := List.mem_filter.mp hactive
    obtain ⟨request, hrequest, hid, hdeadline, hdeadline'⟩ := hlisted active hactive
    obtain ⟨hexpired, hexpired'⟩ := (Bool.and_eq_true _ _).mp hexpired
    have hexpired := of_decide_eq_true hexpired
    have hexpired' := of_decide_eq_true hexpired'
    refine ⟨request, hrequest, hid, ?_, ?_⟩
    · rw [hdeadline]
      exact Nat.lt_of_lt_of_le hexpired hparachain
    · rw [hdeadline']
      exact Nat.lt_of_lt_of_le hexpired' hbitcoin
  · have hrest := hlisted active (List.mem_filter.mp hactive).1
    rwa [← hr.2.1, ← hr.2.2] at hrest

/-- The scheduler with the height of the event. -/
def advance (event : Event) (scheduler : CancellationScheduler) : CancellationScheduler :=
  match event with
  | .parachainBlock height => { scheduler with parachainHeight := height }
  | .bitcoinBlock height => { scheduler with bitcoinHeight := height }
  | .opened | .executed _ => scheduler

/-- The heights are compared for blocks. -/
def Compares (w : World Request) (scheduler : CancellationScheduler) : Event → Prop
  | .parachainBlock _ | .bitcoinBlock _ => scheduler.parachainHeight ≤ w.heights.activeBlockCount
  | .opened | .executed _ => True

theorem keeps_processEvent {event : Event} {s : Loop} (hw : NeverEarly canceller w)
    (hlisted : Listed canceller w s.activeRequests) (hagrees : Agrees w (advance event s.scheduler))
    (hcompares : Compares w (advance event s.scheduler) event) :
    Prog.Keeps (schedulerEnv (R := R)) (NeverEarly canceller) (processEvent canceller event s)
      (fun s' w' => Agrees w' s'.scheduler ∧ Listed canceller w' s'.activeRequests) w := by
  refine Prog.keeps_bind.mpr ((keeps_upToDateRequests hw hlisted).mono
    fun active w' hw' hactive => ?_)
  obtain ⟨hlater, hlisted⟩ := hactive
  have hagrees := hagrees.later hlater
  cases event with
  | opened => exact ⟨hw', hagrees, hlisted⟩
  | executed id =>
    exact ⟨hw', hagrees, fun request hrequest => hlisted request (List.mem_filter.mp hrequest).1⟩
  | parachainBlock height | bitcoinBlock height =>
    have hparachain := Nat.le_trans hcompares hlater.heights.active
    refine Prog.keeps_bind.mpr ((keeps_cancelRequests hw' hlisted hparachain hagrees.bitcoin).mono
      fun _ _ hw'' hr => ⟨hw'', hagrees.later hr.1, hr.2⟩)

theorem agrees_receive {event : Event} {scheduler : CancellationScheduler}
    (h : Agrees w scheduler) (hread : w.heights.HasRead event) :
    Agrees (w.receive event) (advance event scheduler) := by
  cases event with
  | opened | executed id => exact h
  | parachainBlock height => exact ⟨h.bitcoin, fun _ => hread, nofun⟩
  | bitcoinBlock height => exact ⟨hread, h.received, h.startup⟩

theorem compares_receive {event : Event} {scheduler : CancellationScheduler}
    (h : Agrees w scheduler) (hread : w.heights.HasRead event)
    (hmeets : Meets (R := R) w (.scheduler .nextEvent) (some event)) :
    Compares (w.receive event) (advance event scheduler) event := by
  cases event with
  | opened | executed id => trivial
  | parachainBlock height => exact hread
  | bitcoinBlock height =>
    cases hreceived : w.received with
    | true => exact h.received hreceived
    | false => exact hmeets hreceived _ (h.startup hreceived)

theorem keeps_handleCancellation (rounds : Nat) {s : Loop} (hw : NeverEarly canceller w)
    (hagrees : Agrees w s.scheduler) (hlisted : Listed canceller w s.activeRequests) :
    Prog.Keeps (schedulerEnv (R := R)) (NeverEarly canceller)
      (handleCancellation canceller rounds s) (fun _ _ => True) w := by
  induction rounds generalizing w s with
  | zero => exact ⟨hw, trivial⟩
  | succ rounds ih =>
    refine Prog.keeps_bind.mpr (Prog.keeps_request.mpr ⟨hw, fun r w₁ hr => ?_⟩)
    obtain ⟨r, rfl, _, ⟨heights, hle, rfl⟩, hanswer, hmeets⟩ := hr
    have hlater : Later w { w with heights } := ⟨hle, rfl, rfl⟩
    have hagrees := hagrees.later hlater
    match r, hanswer, hmeets with
    | none, hanswer, _ =>
      cases hanswer
      exact ⟨hw, hw, trivial⟩
    | some event, hanswer, hmeets =>
      obtain ⟨hread, rfl⟩ := hanswer
      have hreceived : NeverEarly canceller (World.receive { w with heights } event) ∧
          Listed canceller (World.receive { w with heights } event) s.activeRequests := by
        cases event with
        | opened | executed id | parachainBlock height | bitcoinBlock height => exact ⟨hw, hlisted⟩
      exact ⟨hreceived.1, Prog.keeps_bind.mpr ((keeps_processEvent hreceived.1 hreceived.2
        (agrees_receive hagrees hread) (compares_receive hagrees hread hmeets)).mono
        fun s' w' hw' hs' => ih hw' hs'.1 hs'.2)⟩

/-! ### The start -/

/-- The service starts at the first height that it reads. -/
theorem keeps_awaitParachainBlock (fuel : Nat) (hw : NeverEarly canceller w)
    (hstartup : w.startupHeight = none) (hreceived : w.received = false) :
    Prog.Keeps (Prog.partEnv Call.height (fun _ r => r) (meetingEnv (R := R)))
      (NeverEarly canceller) (Startup.awaitParachainBlock fuel).run
      (Prog.Outcome (fun height w' => ∀ startupHeight, height = some startupHeight →
        w'.startupHeight = some startupHeight ∧ w'.received = false) fun _ _ => True) w := by
  refine Prog.keeps_run_bind.mpr ⟨hw, fun r w₁ hr => ?_⟩
  obtain ⟨r, rfl, _, ⟨heights, -, rfl⟩, hanswer, -⟩ := hr
  match r, hanswer with
  | .error e, hanswer =>
    cases hanswer
    exact ⟨hw, trivial⟩
  | .ok startupHeight, hanswer =>
    obtain ⟨-, rfl⟩ := hanswer
    refine ⟨hw, Prog.keeps_run_iterate (fun _ w => NeverEarly canceller w ∧
      w.startupHeight = some startupHeight ∧ w.received = false) (fun _ w hJ => ?_)
      (fun _ _ _ _ h => by cases h) fuel ⟨hw, by rw [World.startAt, hstartup]; rfl, hreceived⟩⟩
    obtain ⟨hw, hstartup, hreceived⟩ := hJ
    refine Prog.keeps_run_bind.mpr ⟨hw, fun r w₁ hr => ?_⟩
    obtain ⟨r, rfl, _, ⟨heights, -, rfl⟩, hanswer, -⟩ := hr
    match r, hanswer with
    | .error e, hanswer =>
      cases hanswer
      exact ⟨hw, trivial⟩
    | .ok height, hanswer =>
      obtain ⟨-, rfl⟩ := hanswer
      have hstartup : (World.startAt { w with heights } height).startupHeight =
          some startupHeight := by
        rw [World.startAt, hstartup]
        rfl
      refine ⟨hw, ?_⟩
      dsimp only [Prog.Outcome]
      split
      next =>
        refine ⟨hw, fun _ w₂ hr => ?_⟩
        obtain ⟨_, rfl, _, ⟨heights, -, rfl⟩, hanswer, -⟩ := hr
        cases hanswer
        exact ⟨hw, hw, hstartup, hreceived⟩
      next =>
        refine ⟨hw, fun height hheight => ?_⟩
        cases hheight
        exact ⟨hstartup, hreceived⟩

theorem neverEarly_start (heights : Heights) :
    NeverEarly canceller (World.start heights) :=
  List.forall_mem_nil _

theorem keeps_runService (vaultId : AccountId) (fuel rounds : Nat) (heights : Heights) :
    Prog.Keeps (meetingEnv (R := R)) (NeverEarly canceller)
      (runService canceller vaultId fuel rounds).run (fun _ _ => True) (World.start heights) := by
  refine Prog.keeps_run_bind.mpr (Prog.keeps_embed_of_part
    ((keeps_awaitParachainBlock fuel (neverEarly_start heights) rfl rfl).mono
      fun height w hw hheight => ?_))
  refine hheight.imp (fun height hheight => ?_) fun _ _ => trivial
  cases height with
  | none => exact ⟨hw, trivial⟩
  | some startupHeight =>
    obtain ⟨hstartup, hreceived⟩ := hheight startupHeight rfl
    refine Prog.keeps_run_bind.mpr (Prog.keeps_run_lift.mpr
      (Prog.keeps_request.mpr ⟨hw, fun r w₁ hr => ?_⟩))
    obtain ⟨_, ⟨heights, -, rfl⟩, ⟨hheight, rfl⟩, -⟩ := hr
    refine ⟨hw, Prog.keeps_run_lift.mpr (Prog.keeps_map.mpr (Prog.keeps_embed_of_part
      (keeps_handleCancellation rounds hw ⟨?_, ?_, fun _ => hstartup⟩ nofun)))⟩
    · cases r with
      | ok height => exact Nat.le_of_eq (hheight height rfl)
      | error e => exact Nat.zero_le _
    · intro h
      exact absurd (h.symm.trans hreceived) nofun

end Scheduler

/-! ### A bitcoin block before the first active block -/

section Schedules

instance (cancel : Cancel Request) : Decidable (cancel.Due canceller) :=
  inferInstanceAs (Decidable (∃ request ∈ canceller.openRequests cancel.listed, _))

instance (w : World Request) : Decidable (NeverEarly canceller w) :=
  inferInstanceAs (Decidable (∀ cancel ∈ w.cancels, _))

/-- The next block, which is not active. -/
def Heights.next (heights : Heights) : Heights :=
  { heights with
    blockNumber := heights.blockNumber + 1
    active_le := Nat.le_succ_of_le heights.active_le }

theorem Heights.le_next (heights : Heights) : heights.Le heights.next :=
  ⟨Nat.le_succ _, Nat.le_refl _, Nat.le_refl _⟩

/-- A new block comes before each look at the height.  The scheduler reads one pending issue, which
was requested at 10 active blocks and bitcoin height 100 for 1000 blocks. -/
def answer (event : Heights → Event) (w : World InterBtcIssueRequest) :
    (call : Call) → (api InterBtcIssueRequest Unit).Answer call × World InterBtcIssueRequest
  | .height .getCurrentChainHeight =>
    (.ok w.heights.next.blockNumber,
      World.startAt { w with heights := w.heights.next } w.heights.next.blockNumber)
  | .height .sleep => ((), w)
  | .getBestBlockHeight => (.ok w.heights.relayHeight, w)
  | .scheduler .nextEvent => (some (event w.heights), w.receive (event w.heights))
  | .scheduler (.getVaultRequests _) => (.ok pendingIssues, { w with listed := pendingIssues })
  | .scheduler .getPeriod => (.ok 1000, { w with period := 1000 })
  | .scheduler (.cancelRequest id) => (.ok (), w.cancel id)

theorem env_answer {event : Heights → Event}
    (hread : ∀ heights : Heights, heights.HasRead (event heights)) (w : World InterBtcIssueRequest)
    (call : Call) : env w call (answer event w call).1 (answer event w call).2 := by
  have hself : Grows w w := ⟨w.heights, .refl _, rfl⟩
  cases call with
  | height call =>
    cases call with
    | getCurrentChainHeight => exact ⟨_, ⟨_, w.heights.le_next, rfl⟩, rfl, rfl⟩
    | sleep => exact ⟨w, hself, rfl⟩
  | getBestBlockHeight => exact ⟨w, hself, fun _ h => (Except.ok.inj h).symm, rfl⟩
  | scheduler call =>
    cases call with
    | nextEvent => exact ⟨w, hself, hread _, rfl⟩
    | getVaultRequests vaultId | getPeriod | cancelRequest id => exact ⟨w, hself, rfl⟩

def activeBlock (heights : Heights) : Event := .parachainBlock heights.activeBlockCount

def relayBlock (heights : Heights) : Event := .bitcoinBlock heights.relayHeight

/-- An active block comes as the first event. -/
theorem meetingEnv_answer (w : World InterBtcIssueRequest) (call : Call) :
    meetingEnv w call (answer activeBlock w call).1 (answer activeBlock w call).2 := by
  have hread (heights : Heights) : heights.HasRead (activeBlock heights) := Nat.le_refl _
  obtain ⟨w', hgrows, hanswers⟩ := env_answer hread w call
  refine ⟨w', hgrows, hanswers, ?_⟩
  match call with
  | .height _ | .getBestBlockHeight | .scheduler (.getVaultRequests _) | .scheduler .getPeriod
  | .scheduler (.cancelRequest _) | .scheduler .nextEvent => trivial

/-- The service and the chain after one event, from bitcoin height 130 and 2000 blocks, of which
`active` have been active. -/
abbrev afterEvent (event : Heights → Event) (active : Nat) (hle : active ≤ 2000) :
    Except Unit (Option (Option Loop)) × World InterBtcIssueRequest :=
  (runService issueCanceller 0 1 1).run.exec (answer event) (.start ⟨2000, active, 130, hle⟩)

end Schedules

/-- Neither scheduler calls to cancel a request before its deadline, when no bitcoin block comes
before the first active block while the start-up height is above the count of active blocks. -/
theorem neverEarly_of_runs {canceller : Canceller Request} {vaultId : AccountId} {fuel rounds : Nat}
    {heights : Heights} {p : Prog (api Request R) (Except R (Option (Option Loop)))}
    {w : World Request}
    (hruns : Prog.Runs meetingEnv (runService canceller vaultId fuel rounds).run
      (World.start heights) p w) : NeverEarly canceller w :=
  ((keeps_runService vaultId fuel rounds heights).runs hruns).inv

/-- The issue is cancelled at 1500 active blocks, when its deadline of 1010 has passed. -/
theorem neverEarly_of_runs_activeBlock :
    (afterEvent activeBlock 1500 (by decide)).2.cancels.map Cancel.id = [1] ∧
      NeverEarly issueCanceller (afterEvent activeBlock 1500 (by decide)).2 :=
  ⟨by decide +kernel, neverEarly_of_runs (Prog.runs_exec meetingEnv_answer
    (runService issueCanceller 0 1 1).run (.start ⟨2000, 1500, 130, by decide⟩))⟩

/-- With 500 active blocks it is cancelled as well, since 2001 blocks are compared with 1010. -/
theorem not_neverEarly_relayBlock :
    Prog.Runs env (runService issueCanceller 0 1 1).run (.start ⟨2000, 500, 130, by decide⟩)
        (.pure (afterEvent relayBlock 500 (by decide)).1)
        (afterEvent relayBlock 500 (by decide)).2 ∧
      ¬NeverEarly issueCanceller (afterEvent relayBlock 500 (by decide)).2 :=
  ⟨Prog.runs_exec (env_answer fun _ => Nat.le_refl _) (runService issueCanceller 0 1 1).run
    (.start ⟨2000, 500, 130, by decide⟩), by decide +kernel⟩

end InterBtcClients.Vault.CancellationStart
