import InterBtcClients.Library.Inevitable
import InterBtcClients.Runtime.Shutdown
import Mathlib.Data.Fintype.Option

/-! The tasks of a running vault.  Each runs until it ends by itself or the shutdown signal is sent,
and one that returns sends the signal. -/

namespace InterBtcClients.Vault.Tasks

open Library

/-- How a task ends by itself. -/
inductive Ending (E : Type)
  | returned (res : Except E Unit)
  | panicked

/-- A task, by how it ends by itself; `none` is one that never does. -/
abbrev Task (E : Type) := Option (Ending E)

inductive ServiceTask (E : Type)
  | optional (shouldRun : Bool) (task : Task E)
  | essential (task : Task E)

inductive JoinError
  | panicked

inductive TerminationStatus (Res : Type)
  | cancelled
  | completed (res : Res)

/-- The calls on the shutdown channel, the wait for the first of the signal and the task, and the
drop of the receiver. -/
inductive Call (E : Type)
  | shutdown (call : Runtime.Shutdown.Call)
  | select (future2 : Task E)
  | dropReceiver

@[reducible] def api (E : Type) : Interface where
  Call := Call E
  Answer
    | .shutdown call => Runtime.Shutdown.api.Answer call
    | .select _ => Except Runtime.Shutdown.RecvError Unit ⊕ Ending E
    | .dropReceiver => Unit

variable {E : Type}

abbrev ask (call : Call E) : Prog (api E) ((api E).Answer call) := Prog.request (api E) call

def onShutdown {A : Type} (p : Prog Runtime.Shutdown.api A) : Prog (api E) A :=
  p.embed .shutdown fun _ r => r

def terminationStatus :
    Except Runtime.Shutdown.RecvError Unit ⊕ Ending E →
      Except JoinError (TerminationStatus (Except E Unit))
  | .inl _ => .ok .cancelled
  | .inr (.returned res) => .ok (.completed res)
  | .inr .panicked => .error .panicked

/-- The receiver is dropped at the end, also by a task that panics. -/
def runCancelable (shutdownRx : Runtime.Shutdown.ShutdownReceiver) (future2 : Task E) :
    ExceptT JoinError (Prog (api E)) (TerminationStatus (Except E Unit)) := do
  let first ← ExceptT.lift <|
    if shutdownRx.receivedShutdown then return .inl (.ok ()) else ask (.select future2)
  ExceptT.lift (ask .dropReceiver)
  Prog.ofExcept (terminationStatus first)

def onTermination : TerminationStatus (Except E Unit) → Prog (api E) (Except E Unit)
  | .cancelled => return .ok ()
  | .completed res => do
    let _ ← onShutdown Runtime.Shutdown.send
    return res

def waitOrShutdown (future2 : Task E) : ExceptT JoinError (Prog (api E)) (Except E Unit) := do
  let shutdownRx ← ExceptT.lift (onShutdown Runtime.Shutdown.subscribe)
  let status ← runCancelable shutdownRx future2
  ExceptT.lift (onTermination status)

/-! ### Spawning and joining -/

def enabled (items : List (String × ServiceTask E)) : List (Task E) :=
  items.filterMap fun item => match item.2 with
    | .optional true t => some t
    | .essential t => some t
    | .optional false _ => none

abbrev Joined (E : Type) := Except JoinError (Except E Unit)

/-- The task of the tokio metrics, `none`, and those of the items. -/
def spawned (items : List (String × ServiceTask E)) :
    Option (Fin (enabled items).length) → Prog (api E) (Joined E)
  | none => ExceptT.run (waitOrShutdown none)
  | some k => ExceptT.run (waitOrShutdown ((enabled items).get k))

def failed : Joined E → Bool
  | .ok (.error _) => true
  | _ => false

def collect (tokioMetrics : Joined E) (results : List (Joined E)) : Except E Unit :=
  match tokioMetrics with
  | .ok (.error err) => .error err
  | _ => (results.find? failed).bind (·.toOption) |>.getD (.ok ())

def join : Prog (api E) (Joined E) → Option (Joined E)
  | .pure res => some res
  | .call _ _ => none

/-- What `runAndMonitorTasks` returns, when all the tasks that it has spawned have ended. -/
def runAndMonitorTasks {n : Nat} (tasks : Option (Fin n) → Prog (api E) (Joined E)) :
    Option (Except E Unit) := do
  let tokioMetrics ← join (tasks none)
  let results ← (List.finRange n).mapM fun k => join (tasks (some k))
  return collect tokioMetrics results

theorem collect_error {tokioMetrics : Joined E} {results : List (Joined E)} :
    (∃ err, collect tokioMetrics results = .error err) ↔
      ∃ err, .ok (.error err) ∈ tokioMetrics :: results := by
  unfold collect
  split
  next err =>
    exact ⟨fun _ => ⟨err, List.mem_cons_self⟩, fun _ => ⟨err, rfl⟩⟩
  next hmetrics =>
    have hcons (err : E) :
        .ok (.error err) ∈ tokioMetrics :: results ↔ .ok (.error err) ∈ results := by
      rw [List.mem_cons]
      exact ⟨fun h => h.resolve_left fun heq => hmetrics err heq.symm, .inr⟩
    simp only [hcons]
    cases hfind : results.find? failed with
    | none =>
      rw [List.find?_eq_none] at hfind
      constructor
      · rintro ⟨err, h⟩
        cases h
      · rintro ⟨err, hmem⟩
        exact absurd rfl (hfind _ hmem)
    | some res =>
      have hmem := List.mem_of_find?_eq_some hfind
      have hres := List.find?_some hfind
      unfold failed at hres
      split at hres
      next err => exact ⟨fun _ => ⟨err, hmem⟩, fun _ => ⟨err, rfl⟩⟩
      next => cases hres

/-! ### The tasks on the shutdown channel -/

section

variable {ι : Type} [DecidableEq ι]

open Runtime.Shutdown (Channel Flagged Later)

/-- The signal is looked at before the task. -/
def env (i : ι) : Prog.Env (api E) (Channel ι)
  | s, .shutdown call, r, s' => Runtime.Shutdown.channelEnv i s call r s'
  | s, .select _, .inl r, s' => Runtime.Shutdown.channelEnv i s .recv r s'
  | s, .select future2, .inr ending, s' =>
    future2 = some ending ∧ s.position i = some s.tail ∧ s.closed = false ∧ s' = s
  | s, .dropReceiver, _, s' => s' = { s with position := Function.update s.position i none }

/-- What is left of a task when one of the signal and the task has come first. -/
def afterSelect (first : Except Runtime.Shutdown.RecvError Unit ⊕ Ending E) :
    Prog (api E) (Joined E) := ExceptT.run do
  ExceptT.lift (ask .dropReceiver)
  let status ← Prog.ofExcept (terminationStatus first)
  ExceptT.lift (onTermination status)

def afterSubscribe (future2 : Task E) (shutdownRx : Runtime.Shutdown.ShutdownReceiver) :
    Prog (api E) (Joined E) := ExceptT.run do
  let status ← runCancelable shutdownRx future2
  ExceptT.lift (onTermination status)

/-- Where a task is that never ends by itself. -/
inductive Following (i : ι) (s : Channel ι) : Prog (api E) (Joined E) → Prop
  | start : Following i s (ExceptT.run (waitOrShutdown none))
  | subscribed {position : Nat} (h : s.position i = some position) (hle : position ≤ s.tail) :
      Following i s (do
        let sent ← ask (.shutdown .readFlag)
        afterSubscribe none ⟨sent⟩)
  | waiting {position : Nat} (h : s.position i = some position) (hle : position ≤ s.tail)
      (hlt : s.completed = true → position < s.tail) :
      Following i s (ask (.select none) >>= afterSelect)
  | dropping (r : Except Runtime.Shutdown.RecvError Unit) : Following i s (afterSelect (.inl r))
  | cancelled : Following i s (.pure (.ok (.ok ())))

/-- Nothing has been sent. -/
structure Quiet (s : Channel ι) : Prop where
  flag : s.flag = false
  tail : s.tail = 0
  completed : s.completed = false

/-- Where the task is that ends by itself. -/
inductive Leading (ending : Ending E) (i : ι) (s : Channel ι) : Prog (api E) (Joined E) → Prop
  | start (h : Quiet s) : Leading ending i s (ExceptT.run (waitOrShutdown (some ending)))
  | subscribed (h : Quiet s) (hposition : s.position i = some 0) :
      Leading ending i s (do
        let sent ← ask (.shutdown .readFlag)
        afterSubscribe (some ending) ⟨sent⟩)
  | waiting (h : Quiet s) (hposition : s.position i = some 0) :
      Leading ending i s (ask (.select (some ending)) >>= afterSelect)
  | dropping (h : Quiet s) : Leading ending i s (afterSelect (.inr ending))
  | panicked (h : Quiet s) (hending : ending = .panicked) :
      Leading ending i s (.pure (.error .panicked))
  | signalling {res : Except E Unit} (h : Quiet s) (hending : ending = .returned res) :
      Leading ending i s (Except.ok <$> onTermination (.completed res))
  | publishing {res : Except E Unit} (h : s.flag = true) (hending : ending = .returned res) :
      Leading ending i s (do
        let _ ← ask (.shutdown .publish)
        return .ok res)
  | ended {res : Except E Unit} (h : s.completed = true) (hending : ending = .returned res) :
      Leading ending i s (.pure (.ok res))

/-- While there is a sender, the flag is set before a value is published. -/
structure Open (s : Channel ι) : Prop where
  flagged : Flagged s
  closed : s.closed = false

section Steps

variable {i j : ι} {s s' : Channel ι} {c : Call E} {r : (api E).Answer c}
variable {next : (api E).Answer c → Prog (api E) (Joined E)} {p : Prog (api E) (Joined E)}
variable {ending : Ending E}

omit [DecidableEq ι] in
theorem open_start : Open (Channel.start : Channel ι) :=
  ⟨⟨Bool.noConfusion, fun h => absurd h (Nat.lt_irrefl 0)⟩, rfl⟩

omit [DecidableEq ι] in
theorem Open.reposition (h : Open s) (position : ι → Option Nat) :
    Open { s with position := position } :=
  ⟨⟨h.flagged.completed, h.flagged.published⟩, h.closed⟩

omit [DecidableEq ι] in
theorem Quiet.reposition (h : Quiet s) (position : ι → Option Nat) :
    Quiet { s with position := position } :=
  ⟨h.flag, h.tail, h.completed⟩

theorem Following.step (h : Following i s (.call c next)) (hopen : Open s) (hr : env i s c r s') :
    Open s' ∧ Following i s' (next r) := by
  generalize hp : (Prog.call c next : Prog (api E) _) = p at h
  cases h with
  | start =>
    cases hp
    cases hr
    exact ⟨hopen.reposition _, .subscribed (Function.update_self _ _ _) (Nat.le_refl _)⟩
  | subscribed h hle =>
    cases hp
    obtain ⟨rfl, rfl⟩ := hr
    cases hflag : s'.flag with
    | true => exact ⟨hopen, .dropping (.ok ())⟩
    | false =>
      refine ⟨hopen, .waiting h hle fun hcompleted => ?_⟩
      have := hopen.flagged.completed hcompleted
      rw [hflag] at this
      cases this
  | waiting h hle hlt =>
    cases hp
    cases r with
    | inl r =>
      refine ⟨?_, .dropping r⟩
      obtain ⟨position, -, ⟨-, -, -, rfl⟩ | ⟨-, -, rfl⟩ | ⟨-, -, -, rfl⟩⟩ := hr
      · exact hopen.reposition _
      · exact hopen.reposition _
      · exact hopen
    | inr ending =>
      obtain ⟨hnone, -⟩ := hr
      cases hnone
  | dropping r =>
    cases hp
    cases hr
    exact ⟨hopen.reposition _, .cancelled⟩
  | cancelled => cases hp

theorem Leading.step (h : Leading ending i s (.call c next)) (hopen : Open s)
    (hr : env i s c r s') : Open s' ∧ Leading ending i s' (next r) := by
  generalize hp : (Prog.call c next : Prog (api E) _) = p at h
  cases h with
  | start h =>
    cases hp
    cases hr
    exact ⟨hopen.reposition _, .subscribed (h.reposition _)
      ((Function.update_self _ _ _).trans (congrArg some h.tail))⟩
  | subscribed h hposition =>
    cases hp
    obtain ⟨rfl, rfl⟩ := hr
    rw [h.flag]
    exact ⟨hopen, .waiting h hposition⟩
  | waiting h hposition =>
    cases hp
    cases r with
    | inl r =>
      -- the signal has not been sent
      obtain ⟨position, hposition', ⟨hlt, -⟩ | ⟨hlt, -⟩ | ⟨-, hclosed, -⟩⟩ := hr
      · rw [h.tail] at hlt
        omega
      · rw [h.tail] at hlt
        omega
      · rw [hopen.closed] at hclosed
        cases hclosed
    | inr ending =>
      obtain ⟨hending, -, -, rfl⟩ := hr
      cases hending
      exact ⟨hopen, .dropping h⟩
  | dropping h =>
    cases hp
    cases hr
    refine ⟨hopen.reposition _, ?_⟩
    cases ending with
    | returned res => exact .signalling (h.reposition _) rfl
    | panicked => exact .panicked (h.reposition _) rfl
  | panicked h hending => cases hp
  | signalling h hending =>
    cases hp
    cases hr
    exact ⟨⟨⟨fun _ => rfl, fun _ => rfl⟩, hopen.closed⟩, .publishing rfl hending⟩
  | publishing h hending =>
    cases hp
    obtain ⟨-, rfl⟩ | ⟨-, -, rfl⟩ := hr
    · exact ⟨⟨⟨fun _ => h, fun _ => h⟩, hopen.closed⟩, .ended rfl hending⟩
    · exact ⟨⟨⟨fun _ => h, hopen.flagged.published⟩, hopen.closed⟩, .ended rfl hending⟩
  | ended h hending => cases hp

theorem later_of_env (hne : i ≠ j) (hr : env j s c r s') : Later i s s' := by
  cases c with
  | shutdown call => exact Runtime.Shutdown.later_of_channelEnv hne hr
  | select future2 =>
    cases r with
    | inl r => exact Runtime.Shutdown.later_of_channelEnv hne (c := .recv) hr
    | inr ending =>
      obtain ⟨-, -, -, rfl⟩ := hr
      exact ⟨rfl, Nat.le_refl _, id, rfl, id, .inl⟩
  | dropReceiver =>
    cases hr
    exact ⟨Function.update_of_ne hne _ _, Nat.le_refl _, id, rfl, id, .inl⟩

omit [DecidableEq ι] in
theorem Following.later (h : Following i s p) (hlater : Later i s s') : Following i s' p := by
  cases h with
  | start => exact .start
  | subscribed h hle =>
    exact .subscribed (hlater.position.trans h) (Nat.le_trans hle hlater.tail)
  | waiting h hle hlt =>
    exact .waiting (hlater.position.trans h) (Nat.le_trans hle hlater.tail)
      (hlater.behind h hle hlt)
  | dropping r => exact .dropping r
  | cancelled => exact .cancelled

/-- A task that never ends by itself sends nothing. -/
theorem Following.quiet (h : Following j s (.call c next)) (hr : env j s c r s')
    (hquiet : Quiet s) : Quiet s' := by
  generalize hp : (Prog.call c next : Prog (api E) _) = p at h
  cases h with
  | start =>
    cases hp
    cases hr
    exact hquiet.reposition _
  | subscribed h hle =>
    cases hp
    obtain ⟨-, rfl⟩ := hr
    exact hquiet
  | waiting h hle hlt =>
    cases hp
    cases r with
    | inl r =>
      obtain ⟨position, -, ⟨-, -, -, rfl⟩ | ⟨-, -, rfl⟩ | ⟨-, -, -, rfl⟩⟩ := hr
      · exact hquiet.reposition _
      · exact hquiet.reposition _
      · exact hquiet
    | inr ending =>
      obtain ⟨hnone, -⟩ := hr
      cases hnone
  | dropping r =>
    cases hp
    cases hr
    exact hquiet.reposition _
  | cancelled => cases hp

omit [DecidableEq ι] in
theorem Leading.later (h : Leading ending i s p) (hlater : Later i s s')
    (hquiet : Quiet s → Quiet s') : Leading ending i s' p := by
  cases h with
  | start h => exact .start (hquiet h)
  | subscribed h hposition => exact .subscribed (hquiet h) (hlater.position.trans hposition)
  | waiting h hposition => exact .waiting (hquiet h) (hlater.position.trans hposition)
  | dropping h => exact .dropping (hquiet h)
  | panicked h hending => exact .panicked (hquiet h) hending
  | signalling h hending => exact .signalling (hquiet h) hending
  | publishing h hending => exact .publishing (hlater.flag h) hending
  | ended h hending => exact .ended (hlater.completed h) hending

/-- A task is answered once the signal has been sent. -/
theorem Following.answered (h : Following i s (.call c next)) (hcompleted : s.completed = true) :
    ∃ r s', env i s c r s' := by
  generalize hp : (Prog.call c next : Prog (api E) _) = p at h
  cases h with
  | start =>
    cases hp
    exact ⟨(), _, rfl⟩
  | subscribed h hle =>
    cases hp
    exact ⟨_, _, rfl, rfl⟩
  | waiting h hle hlt =>
    cases hp
    obtain ⟨r, s', hr⟩ := Runtime.Shutdown.exists_recv h (hlt hcompleted)
    exact ⟨.inl r, s', hr⟩
  | dropping r =>
    cases hp
    exact ⟨(), _, rfl⟩
  | cancelled => cases hp

/-- The task that ends by itself is never kept from it. -/
theorem Leading.answered (h : Leading ending i s (.call c next)) (hopen : Open s) :
    ∃ r s', env i s c r s' := by
  generalize hp : (Prog.call c next : Prog (api E) _) = p at h
  cases h with
  | start h =>
    cases hp
    exact ⟨(), _, rfl⟩
  | subscribed h hposition =>
    cases hp
    exact ⟨_, _, rfl, rfl⟩
  | waiting h hposition =>
    cases hp
    refine ⟨.inr ending, s, rfl, ?_, hopen.closed, rfl⟩
    rw [hposition, h.tail]
  | dropping h =>
    cases hp
    exact ⟨(), _, rfl⟩
  | panicked h hending => cases hp
  | signalling h hending =>
    cases hp
    exact ⟨(), _, rfl⟩
  | publishing h hending =>
    cases hp
    exact ⟨some 0, _, .inl ⟨rfl, rfl⟩⟩
  | ended h hending => cases hp

end Steps

end

/-! ### The end of a task -/

section

open Runtime.Shutdown (Channel)

variable {items : List (String × ServiceTask E)} {k : Fin (enabled items).length}
variable {ending : Ending E}

def At (k : Fin (enabled items).length) (ending : Ending E)
    (i : Option (Fin (enabled items).length))
    (p : Prog (api E) (Joined E)) (s : Channel (Option (Fin (enabled items).length))) : Prop :=
  if i = some k then Leading ending i s p else Following i s p

theorem at_some {i : Option (Fin (enabled items).length)} (hi : i = some k)
    {p : Prog (api E) (Joined E)} {s : Channel (Option (Fin (enabled items).length))} :
    At k ending i p s ↔ Leading ending i s p := by
  rw [At, if_pos hi]

theorem at_other {i : Option (Fin (enabled items).length)} (hi : i ≠ some k)
    {p : Prog (api E) (Joined E)} {s : Channel (Option (Fin (enabled items).length))} :
    At k ending i p s ↔ Following i s p := by
  rw [At, if_neg hi]

theorem assertions_at (k : Fin (enabled items).length) (ending : Ending E) :
    Prog.Assertions env (fun _ _ => False) Open (At k ending) where
  own {i c next s r s'} hI hK hr := by
    by_cases hi : i = some k
    · rw [at_some hi] at hK ⊢
      exact hK.step hI hr
    · rw [at_other hi] at hK ⊢
      exact hK.step hI hr
  others {i j c next p s r s'} hne _ hi hr hK := by
    have hlater := later_of_env hne hr
    by_cases hj : j = some k
    · rw [at_some hj] at hK ⊢
      rw [at_other fun heq => hne (hj.trans heq.symm)] at hi
      exact hK.later hlater fun hquiet => hi.quiet hr hquiet
    · rw [at_other hj] at hK ⊢
      exact hK.later hlater
  other h := h.elim

def Ending.Failed : Ending E → Prop
  | .returned (.ok _) => False
  | .returned (.error _) => True
  | .panicked => True

/-- The signal has been sent, the other tasks are cancelled, and `runAndMonitorTasks` returns, with
an error if and only if that is how the task `k` has ended. -/
structure Stopped (k : Fin (enabled items).length) (ending : Ending E)
    (tasks : Option (Fin (enabled items).length) → Prog (api E) (Joined E))
    (s : Channel (Option (Fin (enabled items).length))) : Prop where
  sent : s.completed = true
  cancelled : ∀ i, i ≠ some k → tasks i = .pure (.ok (.ok ()))
  returned : ∃ res, runAndMonitorTasks tasks = some res ∧
    ((∃ err, res = .error err) ↔ ending.Failed)

theorem runAndMonitorTasks_eq_some {n : Nat} {tasks : Option (Fin n) → Prog (api E) (Joined E)}
    {results : Option (Fin n) → Joined E} (h : ∀ i, tasks i = .pure (results i)) :
    runAndMonitorTasks tasks =
      some (collect (results none) ((List.finRange n).map fun k => results (some k))) := by
  have hjoin (i : Option (Fin n)) : join (tasks i) = some (results i) := by
    rw [h i]
    rfl
  have hmap : (List.finRange n).mapM (fun k => some (results (some k))) =
      some ((List.finRange n).map fun k => results (some k)) := List.mapM_pure
  simp only [runAndMonitorTasks, hjoin]
  exact congrArg (Option.bind · _) hmap

/-- An error is collected when one task has returned it and the others have been cancelled. -/
theorem collect_of_cancelled {n : Nat} {results : Option (Fin n) → Joined E} {k : Fin n}
    (hcancelled : ∀ i, i ≠ some k → results i = .ok (.ok ())) {res : Except E Unit}
    (hres : results (some k) = .ok res) :
    (∃ err, collect (results none) ((List.finRange n).map fun k => results (some k)) =
      .error err) ↔ ∃ err, res = .error err := by
  rw [collect_error]
  constructor
  · rintro ⟨err, hmem⟩
    refine ⟨err, ?_⟩
    rcases List.mem_cons.mp hmem with heq | hmem
    · rw [hcancelled none (Option.some_ne_none k).symm] at heq
      cases heq
    · obtain ⟨j, -, heq⟩ := List.mem_map.mp hmem
      by_cases hj : j = k
      · subst hj
        rw [hres] at heq
        cases heq
        rfl
      · rw [hcancelled (some j) fun h => hj (Option.some.inj h)] at heq
        cases heq
  · rintro ⟨err, rfl⟩
    exact ⟨err, List.mem_cons_of_mem _ (List.mem_map.mpr ⟨k, List.mem_finRange k, hres⟩)⟩

theorem failed_returned {res : Except E Unit} :
    (Ending.returned res).Failed ↔ ∃ err, res = .error err := by
  cases res with
  | ok a => exact ⟨False.elim, fun ⟨err, h⟩ => by cases h⟩
  | error err => exact ⟨fun _ => ⟨err, rfl⟩, fun _ => trivial⟩

/-- When the task has ended and no call of another one is left, the service has stopped. -/
theorem stopped_of_pure {res : Except E Unit}
    {results : Option (Fin (enabled items).length) → Joined E}
    {tasks : Option (Fin (enabled items).length) → Prog (api E) (Joined E)}
    {s : Channel (Option (Fin (enabled items).length))} (htasks : ∀ i, tasks i = .pure (results i))
    (hsent : s.completed = true) (hcancelled : ∀ i, i ≠ some k → results i = .ok (.ok ()))
    (hres : results (some k) = .ok res) : Stopped k (.returned res) tasks s where
  sent := hsent
  cancelled i hi := by rw [htasks i, hcancelled i hi]
  returned := by
    refine ⟨_, runAndMonitorTasks_eq_some htasks, ?_⟩
    rw [collect_of_cancelled hcancelled hres, failed_returned]

section

variable {i : Option (Fin (enabled items).length)} {result : Joined E}
variable {tasks : Option (Fin (enabled items).length) → Prog (api E) (Joined E)}
variable {s : Channel (Option (Fin (enabled items).length))}

theorem Following.joined (h : Following i s (.pure result)) : result = .ok (.ok ()) := by
  generalize hp : (Prog.pure result : Prog (api E) _) = p at h
  cases h with
  | cancelled =>
    cases hp
    rfl
  | _ => cases hp

theorem Leading.joined (h : Leading ending i s (.pure result)) (hending : ending ≠ .panicked) :
    ∃ res, result = .ok res ∧ ending = .returned res ∧ s.completed = true := by
  generalize hp : (Prog.pure result : Prog (api E) _) = p at h
  cases h with
  | panicked h hpanicked => exact absurd hpanicked hending
  | ended h hreturned =>
    cases hp
    exact ⟨_, rfl, hreturned, h⟩
  | _ => cases hp

/-- Without a panic, some task can go on until the service has stopped. -/
theorem exists_answer (hending : ending ≠ .panicked) (hopen : Open s)
    (hat : ∀ i, At k ending i (tasks i) s) (hnot : ¬Stopped k ending tasks s) :
    ∃ i c next r s', tasks i = .call c next ∧ env i s c r s' := by
  have hleading := (at_some rfl).mp (hat (some k))
  cases hcall : tasks (some k) with
  | call c next =>
    rw [hcall] at hleading
    obtain ⟨r, s', hr⟩ := hleading.answered hopen
    exact ⟨some k, c, next, r, s', hcall, hr⟩
  | pure result =>
    rw [hcall] at hleading
    obtain ⟨res, rfl, rfl, hsent⟩ := hleading.joined hending
    by_cases hleft : ∃ i c next, tasks i = .call c next
    · obtain ⟨i, c, next, hi⟩ := hleft
      have hne : i ≠ some k := by
        rintro rfl
        rw [hcall] at hi
        cases hi
      have hfollowing := (at_other hne).mp (hat i)
      rw [hi] at hfollowing
      obtain ⟨r, s', hr⟩ := hfollowing.answered hsent
      exact ⟨i, c, next, r, s', hi, hr⟩
    · have hpure (i : Option (Fin (enabled items).length)) : ∃ result, tasks i = .pure result := by
        cases hi : tasks i with
        | pure result => exact ⟨result, rfl⟩
        | call c next => exact absurd ⟨i, c, next, hi⟩ hleft
      choose results hresults using hpure
      refine absurd (stopped_of_pure hresults hsent (fun i hi => ?_) ?_) hnot
      · have hfollowing := (at_other hi).mp (hat i)
        rw [hresults i] at hfollowing
        exact hfollowing.joined
      · have heq := hresults (some k)
        rw [hcall] at heq
        exact (Prog.pure.inj heq).symm

/-- A task that panics has sent nothing. -/
theorem not_stopped_of_panicked (hat : ∀ i, At k .panicked i (tasks i) s) :
    ¬Stopped k .panicked tasks s := by
  intro hstopped
  have hquiet : Quiet s := by
    have hleading := (at_some rfl).mp (hat (some k))
    generalize tasks (some k) = p at hleading
    cases hleading with
    | start h => exact h
    | subscribed h hposition => exact h
    | waiting h hposition => exact h
    | dropping h => exact h
    | panicked h hending => exact h
    | signalling h hending => cases hending
    | publishing h hending => cases hending
    | ended h hending => cases hending
  have := hstopped.sent
  rw [hquiet.completed] at this
  cases this

theorem bounded_waitOrShutdown (future2 : Task E) :
    Prog.Bounded 6 (ExceptT.run (waitOrShutdown future2)) := by
  have hselected (first : Except Runtime.Shutdown.RecvError Unit ⊕ Ending E) :
      Prog.Bounded 3 (afterSelect first) := by
    intro
    rcases first with r | ⟨res⟩ | _
    · trivial
    · exact fun _ _ => trivial
    · trivial
  intro _ sent
  cases sent with
  | true => exact fun _ => trivial
  | false => exact hselected

theorem at_spawned (hk : (enabled items).get k = some ending)
    (hothers : ∀ j, j ≠ k → (enabled items).get j = none)
    (i : Option (Fin (enabled items).length)) :
    At k ending i (spawned items i) Channel.start := by
  by_cases hi : i = some k
  · rw [at_some hi, hi, spawned, hk]
    exact .start ⟨rfl, rfl, rfl⟩
  · rw [at_other hi]
    cases i with
    | none => exact .start
    | some j =>
      rw [spawned, hothers j fun hj => hi (congrArg some hj)]
      exact .start

end

/-- The end of a task stops the service, however the tasks are scheduled, if and only if that is not
a panic. -/
theorem inevitably_stopped_iff (items : List (String × ServiceTask E))
    (k : Fin (enabled items).length) (ending : Ending E) (hk : (enabled items).get k = some ending)
    (hothers : ∀ j, j ≠ k → (enabled items).get j = none) :
    Prog.Inevitably env (Stopped k ending) (spawned items) Channel.start ↔ ending ≠ .panicked := by
  have hassertions := assertions_at k ending
  have hat := at_spawned hk hothers
  constructor
  · rintro hinevitably rfl
    exact hassertions.not_inevitably (fun _ hat => not_stopped_of_panicked hat) open_start
      hat hinevitably
  · intro hending
    have hbounded (i : Option (Fin (enabled items).length)) : Prog.Bounded 6 (spawned items i) := by
      cases i with
      | none => exact bounded_waitOrShutdown none
      | some j => exact bounded_waitOrShutdown _
    exact hassertions.inevitably (exists_answer hending) Finset.univ hbounded
      (fun i hi => absurd (Finset.mem_univ i) hi) open_start hat

/-! ### Two tasks -/

/-- The Bitcoin relay is disabled. -/
def twoTasks (ending : Ending E) : List (String × ServiceTask E) :=
  [("Redeem Request Listener", .essential (some ending)), ("Bitcoin Relay", .optional false none),
    ("Bridge Metrics Poller", .optional true none)]

def redeemListener (ending : Ending E) : Fin (enabled (twoTasks ending)).length := (0 : Fin 2)

theorem get_twoTasks (ending : Ending E) (j : Fin (enabled (twoTasks ending)).length)
    (hj : j ≠ redeemListener ending) : (enabled (twoTasks ending)).get j = none := by
  obtain ⟨j, hlt⟩ := j
  cases j with
  | zero => exact absurd rfl hj
  | succ j =>
    cases j with
    | zero => rfl
    | succ j => exact absurd hlt (by simp [enabled, twoTasks])

theorem inevitably_stopped_iff_error :
    Prog.Inevitably env (Stopped (redeemListener (.returned (.error ()))) (.returned (.error ())))
      (spawned (twoTasks (.returned (.error ())))) Channel.start := by
  have hpanicked : (Ending.returned (.error ()) : Ending Unit) ≠ .panicked := by
    intro h
    cases h
  exact (inevitably_stopped_iff _ (redeemListener _) _ rfl (get_twoTasks _)).mpr hpanicked

/-- The redeem listener panics: nothing stops the other task. -/
theorem not_stopped_twoTasks :
    ¬Prog.Inevitably env (Stopped (redeemListener (.panicked : Ending Unit)) .panicked)
      (spawned (twoTasks .panicked)) Channel.start := by
  intro hinevitably
  have hat := at_spawned (k := redeemListener (.panicked : Ending Unit)) rfl (get_twoTasks _)
  exact (assertions_at _ _).not_inevitably (fun _ hat => not_stopped_of_panicked hat) open_start hat
    hinevitably

end

end InterBtcClients.Vault.Tasks
