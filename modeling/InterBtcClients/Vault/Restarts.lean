import InterBtcClients.Vault.Tasks
import Mathlib.Data.Finset.Card

/-! The restarts of a client: the manager starts its service, and when that ends it sends the
shutdown signal and waits for the receivers of the signal to be dropped before it starts the next
one.  The tasks of each start run beside the manager.  A poll of a task looks at the signal and then
runs its body, in any number of steps. -/

namespace InterBtcClients.Vault.Restarts

open Library
open Runtime.Shutdown (Channel Flagged Later ShutdownReceiver RecvError channelEnv)
open Tasks (Ending JoinError Joined TerminationStatus)

inductive RestartPolicy
  | never
  | always

inductive BackoffError (E : Type)
  | permanent (err : E)
  | transient (err : E)

inductive Error (E : Type)
  | clientShutdown
  | inner (err : E)

/-- What a step of a future gives: it is running, it waits to be polled again, or it is done. -/
inductive Progress (Res : Type)
  | running
  | pending
  | ready (res : Res)

inductive Call
  -- of the manager
  | newSender
  | newClient
  | connect
  | pollService
  | receiverCount
  | sleep
  | incrementRestartCounter
  -- of both
  | shutdown (call : Runtime.Shutdown.Call)
  -- of a task
  | pollRecv
  | pollBody
  | dropReceiver

@[reducible] def api (E : Type) : Interface where
  Call := Call
  Answer
    | .newClient => Except (Error E) Unit
    | .connect => Except (Error E) Unit
    | .pollService => Progress (Except (BackoffError (Error E)) Unit)
    | .receiverCount => Nat
    | .shutdown call => Runtime.Shutdown.api.Answer call
    | .pollRecv => Option (Except RecvError Unit)
    | .pollBody => Progress (Ending E)
    | _ => Unit

variable {E : Type}

abbrev ask (call : Call) : Prog (api E) ((api E).Answer call) := Prog.request (api E) call

def onShutdown {A : Type} (p : Prog Runtime.Shutdown.api A) : Prog (api E) A :=
  p.embed .shutdown fun _ r => r

/-! ### The manager -/

inductive Phase
  | starting
  | serving
  | draining

def restart : RestartPolicy → ExceptT (Error E) (Prog (api E)) (Phase ⊕ Empty)
  | .never => throw .clientShutdown
  | .always => do
    ExceptT.lift (ask .incrementRestartCounter)
    return .inl .starting

/-- `start` up to the next wait. -/
def round (restartPolicy : RestartPolicy) : Phase → ExceptT (Error E) (Prog (api E)) (Phase ⊕ Empty)
  | .starting => do
    ExceptT.lift (ask .newSender)
    ExceptT.mk (ask .newClient)
    ExceptT.mk (ask .connect)
    return .inl .serving
  | .serving => do
    match ← ExceptT.lift (ask .pollService) with
    | .ready (.error (.permanent err)) => throw err
    | .ready _ => do
      let _ ← ExceptT.lift (onShutdown Runtime.Shutdown.send)
      return .inl .draining
    | _ => return .inl .serving
  | .draining => do
    match ← ExceptT.lift (ask .receiverCount) with
    | 0 => restart restartPolicy
    | _ => do
      ExceptT.lift (ask .sleep)
      return .inl .draining

def start (restartPolicy : RestartPolicy) (fuel : Nat) :
    ExceptT (Error E) (Prog (api E)) (Option Empty) :=
  Prog.iterate (round restartPolicy) fuel .starting

/-! ### The tasks -/

inductive Poll
  | signal
  | body

def lookAtSignal (shutdownRx : ShutdownReceiver) : Prog (api E) (Option (Except RecvError Unit)) :=
  if shutdownRx.receivedShutdown then return some (.ok ()) else ask .pollRecv

/-- A step of the first of the signal and the task. -/
def select (shutdownRx : ShutdownReceiver) :
    Poll → Prog (api E) (Poll ⊕ (Except RecvError Unit ⊕ Ending E))
  | .signal => do
    match ← lookAtSignal shutdownRx with
    | some r => return .inr (.inl r)
    | none => return .inl .body
  | .body => do
    match ← ask .pollBody with
    | .running => return .inl .body
    | .pending => return .inl .signal
    | .ready ending => return .inr (.inr ending)

abbrev Status (E : Type) := Except JoinError (TerminationStatus (Except E Unit))

/-- The receiver is dropped at the end. -/
def finish : Option (Except RecvError Unit ⊕ Ending E) → Prog (api E) (Option (Status E))
  | none => return none
  | some first => do
    ask .dropReceiver
    return some (Tasks.terminationStatus first)

def runCancelable (shutdownRx : ShutdownReceiver) (fuel : Nat) :
    Prog (api E) (Option (Status E)) := do
  finish (← Prog.iterate (select shutdownRx) fuel .signal)

def onTermination : Option (Status E) → Prog (api E) (Option (Joined E))
  | none => return none
  | some (.error err) => return some (.error err)
  | some (.ok .cancelled) => return some (.ok (.ok ()))
  | some (.ok (.completed res)) => do
    let _ ← onShutdown Runtime.Shutdown.send
    return some (.ok res)

def waitOrShutdown (fuel : Nat) : Prog (api E) (Option (Joined E)) := do
  let shutdownRx ← onShutdown Runtime.Shutdown.subscribe
  onTermination (← runCancelable shutdownRx fuel)

/-- What is spawned: a task with a receiver of its own, one that subscribes when it is first polled,
and one that is not told of the signal. -/
inductive Kind
  | cancelable
  | waitOrShutdown
  | detached
  deriving DecidableEq

/-- A task whose receiver `spawnCancelable` has been given: the subscription has been opened. -/
def spawnCancelable (fuel : Nat) : Prog (api E) (Option (Status E)) := do
  let sent ← ask (.shutdown .readFlag)
  runCancelable ⟨sent⟩ fuel

def detachedStep : Unit → Prog (api E) (Unit ⊕ Ending E)
  | () => do
    match ← ask .pollBody with
    | .ready ending => return .inr ending
    | _ => return .inl ()

def detached (fuel : Nat) : Prog (api E) (Option (Ending E)) := Prog.iterate detachedStep fuel ()

inductive Ended (E : Type)
  | manager (res : Except (Error E) (Option Empty))
  | cancelable (status : Option (Status E))
  | waitOrShutdown (res : Option (Joined E))
  | detached (ending : Option (Ending E))

def task (fuel : Nat) : Kind → Prog (api E) (Ended E)
  | .cancelable => .cancelable <$> spawnCancelable fuel
  | .waitOrShutdown => .waitOrShutdown <$> waitOrShutdown fuel
  | .detached => .detached <$> detached fuel

/-- The manager and the tasks that its services may spawn. -/
def client {τ : Type} (restartPolicy : RestartPolicy) (kinds : τ → Kind) (fuel : Nat) :
    Option τ → Prog (api E) (Ended E)
  | none => .manager <$> ExceptT.run (start restartPolicy fuel)
  | some t => task fuel (kinds t)

/-! ### The world -/

/-- The number of senders made, the channel of each, the sender that each task has been given when
it was spawned, and whether the manager has found no receiver for the latest sender. -/
structure World (τ : Type) where
  generation : Nat
  channel : Nat → Channel (Option τ)
  spawned : τ → Option Nat
  drained : Bool

section World

variable {τ : Type}

def World.start : World τ := ⟨0, fun _ => Channel.start, fun _ => none, true⟩

def World.setChannel (s : World τ) (g : Nat) (channel : Channel (Option τ)) : World τ :=
  { s with channel := Function.update s.channel g channel }

/-- The sender of the manager or of a task. -/
def World.sender (s : World τ) : Option τ → Option Nat
  | none => some s.generation
  | some t => s.spawned t

variable [DecidableEq τ]

/-- A task for `spawnCancelable` has a receiver when it is spawned. -/
def subscribeFor (kinds : τ → Kind) (t : τ) (channel : Channel (Option τ)) : Channel (Option τ) :=
  { channel with
    position := if kinds t = .cancelable
      then Function.update channel.position (some t) (some channel.tail) else channel.position }

/-- A task is given a clone of the sender `g`. -/
def World.spawn (s : World τ) (kinds : τ → Kind) (g : Nat) (t : τ) : World τ :=
  { s.setChannel g (subscribeFor kinds t (s.channel g)) with
    spawned := Function.update s.spawned t (some g) }

/-- What a step of a future can do with the sender `g`.  A `send` sets the flag first. -/
inductive Acts (kinds : τ → Kind) (spawns : Bool) (g : Nat) (s : World τ) : World τ → Prop
  | idle : Acts kinds spawns g s s
  | setFlag : Acts kinds spawns g s (s.setChannel g { s.channel g with flag := true })
  | publish {r : Option Nat} {channel : Channel (Option τ)} (hflag : (s.channel g).flag = true)
      (hr : channelEnv none (s.channel g) .publish r channel) :
      Acts kinds spawns g s (s.setChannel g channel)
  | spawn {t : τ} (hspawns : spawns = true) (hnew : s.spawned t = none) :
      Acts kinds spawns g s (s.spawn kinds g t)

/-- A detached task spawns nothing: it executes one issue. -/
def env (kinds : τ → Kind) (i : Option τ) : Prog.Env (api E) (World τ)
  | s, .newSender, _, s' =>
    i = none ∧ s' = { s with generation := s.generation + 1, drained := false }
  | s, .pollService, _, s' => i = none ∧ Acts kinds true s.generation s s'
  | s, .receiverCount, count, s' => i = none ∧
    (∃ receivers : Finset (Option τ), count = receivers.card ∧
      ∀ j, j ∈ receivers ↔ (s.channel s.generation).position j ≠ none) ∧
    s' = { s with drained := count = 0 }
  | s, .shutdown call, r, s' => ∃ g channel, s.sender i = some g ∧
    channelEnv i (s.channel g) call r channel ∧ s' = s.setChannel g channel
  | s, .pollRecv, some r, s' => ∃ g channel, s.sender i = some g ∧
    channelEnv i (s.channel g) .recv r channel ∧ s' = s.setChannel g channel
  | s, .pollRecv, none, s' => ∃ g, s.sender i = some g ∧
    (s.channel g).position i = some (s.channel g).tail ∧ (s.channel g).closed = false ∧ s' = s
  | s, .pollBody, _, s' => ∃ t g, i = some t ∧ s.spawned t = some g ∧
    Acts kinds (kinds t != .detached) g s s'
  | s, .dropReceiver, _, s' => ∃ g, s.sender i = some g ∧
    s' = s.setChannel g
      { s.channel g with position := Function.update (s.channel g).position i none }
  | s, _, _, s' => s' = s

/-- The last sender of a channel is dropped. -/
def DropSender (s s' : World τ) : Prop :=
  ∃ g, s' = s.setChannel g { s.channel g with closed := true }

end World

/-! ### Steps -/

/-- The signal has been sent to all earlier tasks. -/
structure Sound {τ : Type} (s : World τ) : Prop where
  spawned : ∀ t g, s.spawned t = some g → g ≤ s.generation
  ended : ∀ t g, s.spawned t = some g → g < s.generation ∨ s.drained = true →
    (s.channel g).flag = true
  flagged : ∀ g, Flagged (s.channel g)

/-- The receiver of the task is open. -/
def Subscribed {τ : Type} (t : τ) (s : World τ) : Prop :=
  ∃ g position, s.spawned t = some g ∧ (s.channel g).position (some t) = some position ∧
    position ≤ (s.channel g).tail

/-- The task is one of the latest start, and the signal is ahead of its receiver once it has been
sent. -/
structure Active {τ : Type} (t : τ) (s : World τ) : Prop where
  spawned : s.spawned t = some s.generation
  drained : s.drained = false
  listening : ∃ position, (s.channel s.generation).position (some t) = some position ∧
    position ≤ (s.channel s.generation).tail ∧
    ((s.channel s.generation).completed = true → position < (s.channel s.generation).tail)

/-- As `Later`, also when the last sender is dropped. -/
def Onward {ι : Type} (i : ι) (channel channel' : Channel ι) : Prop :=
  Later i channel { channel' with closed := channel.closed }

/-- What a step of the manager or of another task leaves to a task. -/
structure Leaves {τ : Type} (kinds : τ → Kind) (t : τ) (s s' : World τ) : Prop where
  spawned : ∀ g, s.spawned t = some g →
    s'.spawned t = some g ∧ Onward (some t) (s.channel g) (s'.channel g)
  unspawned : kinds t = .cancelable → s.spawned t = none → s'.spawned t = none ∨ Subscribed t s'
  active : Active t s → s'.generation = s.generation ∧ s'.drained = s.drained

/-- What a step of a task leaves to the manager. -/
structure Beside {τ : Type} (s s' : World τ) : Prop where
  generation : s'.generation = s.generation
  drained : s'.drained = s.drained
  flag : (s.channel s.generation).flag = true → (s'.channel s.generation).flag = true

section Steps

variable {τ : Type} [DecidableEq τ] {kinds : τ → Kind} {t : τ} {g : Nat} {s s' : World τ}
variable {i : Option τ} {spawns : Bool}

theorem onward_refl {ι : Type} (i : ι) (channel : Channel ι) : Onward i channel channel :=
  ⟨rfl, Nat.le_refl _, id, rfl, id, .inl⟩

theorem onward_of_channelEnv {ι : Type} [DecidableEq ι] {i j : ι} {channel channel' : Channel ι}
    {call : Runtime.Shutdown.Call} {r : Runtime.Shutdown.api.Answer call} (hne : i ≠ j)
    (hr : channelEnv j channel call r channel') : Onward i channel channel' := by
  have hlater := Runtime.Shutdown.later_of_channelEnv hne hr
  exact ⟨hlater.position, hlater.tail, hlater.flag, rfl, hlater.completed, hlater.published⟩

theorem flag_of_channelEnv {ι : Type} [DecidableEq ι] {i : ι} {channel channel' : Channel ι}
    {call : Runtime.Shutdown.Call} {r : Runtime.Shutdown.api.Answer call}
    (hr : channelEnv i channel call r channel') (h : channel.flag = true) :
    channel'.flag = true := by
  cases call with
  | setFlag =>
    cases hr
    rfl
  | publish => obtain ⟨-, rfl⟩ | ⟨-, -, rfl⟩ := hr <;> exact h
  | openSubscription =>
    cases hr
    exact h
  | readFlag =>
    obtain ⟨-, rfl⟩ := hr
    exact h
  | recv =>
    obtain ⟨position, -, ⟨-, -, -, rfl⟩ | ⟨-, -, rfl⟩ | ⟨-, -, -, rfl⟩⟩ := hr <;> exact h

theorem flagged_of_channelEnv {ι : Type} [DecidableEq ι] {i : ι} {channel channel' : Channel ι}
    {call : Runtime.Shutdown.Call} {r : Runtime.Shutdown.api.Answer call}
    (hr : channelEnv i channel call r channel') (h : Flagged channel)
    (hpublish : call = .publish → channel.flag = true) : Flagged channel' := by
  cases call with
  | setFlag =>
    cases hr
    exact ⟨fun _ => rfl, fun _ => rfl⟩
  | publish =>
    have hflag := hpublish rfl
    obtain ⟨-, rfl⟩ | ⟨-, -, rfl⟩ := hr
    · exact ⟨fun _ => hflag, fun _ => hflag⟩
    · exact ⟨fun _ => hflag, fun _ => hflag⟩
  | openSubscription =>
    cases hr
    exact ⟨h.completed, h.published⟩
  | readFlag =>
    obtain ⟨-, rfl⟩ := hr
    exact h
  | recv =>
    obtain ⟨position, -, ⟨-, -, -, rfl⟩ | ⟨-, -, rfl⟩ | ⟨-, -, -, rfl⟩⟩ := hr <;>
      exact ⟨h.completed, h.published⟩

omit [DecidableEq τ] in
@[simp] theorem setChannel_self (channel : Channel (Option τ)) :
    (s.setChannel g channel).channel g = channel := Function.update_self _ _ _

omit [DecidableEq τ] in
theorem setChannel_of_ne {g' : Nat} (h : g' ≠ g) (channel : Channel (Option τ)) :
    (s.setChannel g channel).channel g' = s.channel g' := Function.update_of_ne h _ _

omit [DecidableEq τ] in
theorem Sound.setChannel (h : Sound s) {channel : Channel (Option τ)} (hflagged : Flagged channel)
    (hflag : (s.channel g).flag = true → channel.flag = true) : Sound (s.setChannel g channel) := by
  refine ⟨h.spawned, fun t g' hspawned hended => ?_, fun g' => ?_⟩
  · have hold := h.ended t g' hspawned hended
    by_cases hg : g' = g
    · subst hg
      rw [setChannel_self]
      exact hflag hold
    · rwa [setChannel_of_ne hg]
  · by_cases hg : g' = g
    · subst hg
      rwa [setChannel_self]
    · rw [setChannel_of_ne hg]
      exact h.flagged g'

omit [DecidableEq τ] in
theorem leaves_setChannel {channel : Channel (Option τ)}
    (h : Onward (some t) (s.channel g) channel) : Leaves kinds t s (s.setChannel g channel) := by
  refine ⟨fun g' hspawned => ⟨hspawned, ?_⟩, fun _ h => .inl h, fun _ => ⟨rfl, rfl⟩⟩
  by_cases hg : g' = g
  · subst hg
    rwa [setChannel_self]
  · rw [setChannel_of_ne hg]
    exact onward_refl _ _

omit [DecidableEq τ] in
theorem beside_setChannel {channel : Channel (Option τ)}
    (h : (s.channel g).flag = true → channel.flag = true) : Beside s (s.setChannel g channel) := by
  refine ⟨rfl, rfl, fun hflag => ?_⟩
  by_cases hg : s.generation = g
  · subst hg
    rw [setChannel_self]
    exact h hflag
  · rwa [setChannel_of_ne hg]

omit [DecidableEq τ] in
theorem leaves_refl : Leaves kinds t s s :=
  ⟨fun _ h => ⟨h, onward_refl _ _⟩, fun _ h => .inl h, fun _ => ⟨rfl, rfl⟩⟩

omit [DecidableEq τ] in
theorem beside_refl : Beside s s := ⟨rfl, rfl, id⟩

/-! #### A step of a future -/

@[simp] theorem spawn_spawned_self : (s.spawn kinds g t).spawned t = some g :=
  Function.update_self _ _ _

theorem spawn_spawned_of_ne {t' : τ} (h : t' ≠ t) :
    (s.spawn kinds g t).spawned t' = s.spawned t' := Function.update_of_ne h _ _

theorem Sound.spawn (h : Sound s) (hdrained : s.drained = false) :
    Sound (s.spawn kinds s.generation t) := by
  have hchannel :
      Sound (s.setChannel s.generation (subscribeFor kinds t (s.channel s.generation))) :=
    h.setChannel ⟨(h.flagged _).completed, (h.flagged _).published⟩ id
  refine ⟨fun t' g hspawned => ?_, fun t' g hspawned hended => ?_, hchannel.flagged⟩
  · by_cases ht : t' = t
    · subst ht
      rw [spawn_spawned_self] at hspawned
      cases hspawned
      exact Nat.le_refl _
    · rw [spawn_spawned_of_ne ht] at hspawned
      exact h.spawned t' g hspawned
  · by_cases ht : t' = t
    · subst ht
      rw [spawn_spawned_self] at hspawned
      cases hspawned
      rcases hended with hlt | hdrained'
      · exact absurd hlt (Nat.lt_irrefl _)
      · exact absurd (hdrained.symm.trans hdrained') Bool.false_ne_true
    · rw [spawn_spawned_of_ne ht] at hspawned
      exact hchannel.ended t' g hspawned hended

theorem onward_subscribeFor {t' : τ} (hne : t' ≠ t) (channel : Channel (Option τ)) :
    Onward (some t') channel (subscribeFor kinds t channel) := by
  refine ⟨?_, Nat.le_refl _, id, rfl, id, .inl⟩
  dsimp only [subscribeFor]
  split
  · exact Function.update_of_ne (fun h => hne (Option.some.inj h)) _ _
  · rfl

theorem subscribed_spawn (h : kinds t = .cancelable) : Subscribed t (s.spawn kinds g t) := by
  refine ⟨g, (s.channel g).tail, spawn_spawned_self, ?_, ?_⟩
  · simp [World.spawn, subscribeFor, h, World.setChannel]
  · simp [World.spawn, subscribeFor, World.setChannel]

theorem leaves_spawn {t' : τ} (hnew : s.spawned t = none) :
    Leaves kinds t' s (s.spawn kinds g t) := by
  by_cases ht : t' = t
  · subst ht
    refine ⟨fun g' hspawned => ?_, fun hkind _ => .inr (subscribed_spawn hkind),
      fun _ => ⟨rfl, rfl⟩⟩
    rw [hnew] at hspawned
    cases hspawned
  · have hspawned : (s.spawn kinds g t).spawned t' = s.spawned t' := spawn_spawned_of_ne ht
    have hchannel : Leaves kinds t' s (s.setChannel g (subscribeFor kinds t (s.channel g))) :=
      leaves_setChannel (onward_subscribeFor ht _)
    refine ⟨fun g' hg' => ⟨hspawned.trans hg', (hchannel.spawned g' hg').2⟩, fun _ h => ?_,
      fun _ => ⟨rfl, rfl⟩⟩
    exact .inl (hspawned.trans h)

theorem Acts.sound (h : Acts kinds spawns g s s') (hsound : Sound s)
    (hg : spawns = true → g = s.generation ∧ s.drained = false) : Sound s' := by
  cases h with
  | idle => exact hsound
  | setFlag => exact hsound.setChannel ⟨fun _ => rfl, fun _ => rfl⟩ fun _ => rfl
  | publish hflag hr =>
    exact hsound.setChannel (flagged_of_channelEnv hr (hsound.flagged g) fun _ => hflag)
      (flag_of_channelEnv hr)
  | spawn hspawns hnew =>
    obtain ⟨rfl, hdrained⟩ := hg hspawns
    exact hsound.spawn hdrained

theorem Acts.leaves (h : Acts kinds spawns g s s') : Leaves kinds t s s' := by
  cases h with
  | idle => exact leaves_refl
  | setFlag => exact leaves_setChannel ⟨rfl, Nat.le_refl _, fun _ => rfl, rfl, id, .inl⟩
  | publish hflag hr =>
    exact leaves_setChannel (onward_of_channelEnv (Option.some_ne_none t) hr)
  | spawn hspawns hnew => exact leaves_spawn hnew

theorem Acts.beside (h : Acts kinds spawns g s s') : Beside s s' := by
  cases h with
  | idle => exact beside_refl
  | setFlag => exact beside_setChannel fun _ => rfl
  | publish hflag hr => exact beside_setChannel (flag_of_channelEnv hr)
  | @spawn t hspawns hnew =>
    have hchannel : Beside s (s.setChannel g (subscribeFor kinds t (s.channel g))) :=
      beside_setChannel id
    exact ⟨rfl, rfl, hchannel.flag⟩

end Steps

/-! ### A task -/

def returning : Kind → Option (Status E) → Prog (api E) (Ended E)
  | .cancelable, status => return .cancelable status
  | _, status => .waitOrShutdown <$> onTermination status

/-- What is left of a task with a receiver. -/
def polling (kind : Kind) (fuel : Nat) (shutdownRx : ShutdownReceiver) (poll : Poll) :
    Prog (api E) (Ended E) := do
  let first ← Prog.iterate (select shutdownRx) fuel poll
  let status ← finish first
  returning kind status

def readingFlag (kind : Kind) (fuel : Nat) : Prog (api E) (Ended E) := do
  let sent ← ask (.shutdown .readFlag)
  polling kind fuel ⟨sent⟩ .signal

theorem task_cancelable (fuel : Nat) :
    task fuel .cancelable = (readingFlag .cancelable fuel : Prog (api E) (Ended E)) := by
  simp only [task, spawnCancelable, readingFlag, polling, runCancelable, returning,
    map_eq_pure_bind, bind_assoc]

theorem task_waitOrShutdown (fuel : Nat) :
    (task fuel .waitOrShutdown : Prog (api E) (Ended E)) = (do
      ask (.shutdown .openSubscription)
      readingFlag .waitOrShutdown fuel) := by
  have hsubscribe : (onShutdown Runtime.Shutdown.subscribe : Prog (api E) ShutdownReceiver) = (do
      ask (.shutdown .openSubscription)
      let sent ← ask (.shutdown .readFlag)
      return ⟨sent⟩) := rfl
  simp only [task, waitOrShutdown, hsubscribe, readingFlag, polling, runCancelable, returning,
    map_eq_pure_bind, bind_assoc, pure_bind]

section

variable {τ : Type} {kinds : τ → Kind} {t : τ} {s s' : World τ}

/-- Where a task is that is told of the signal. -/
inductive Following (kinds : τ → Kind) (t : τ) (s : World τ) : Prog (api E) (Ended E) → Prop
  | unspawned {fuel : Nat} (hkind : kinds t = .cancelable) (h : s.spawned t = none) :
      Following kinds t s (readingFlag (kinds t) fuel)
  | unsubscribed {fuel : Nat} : Following kinds t s (do
      ask (.shutdown .openSubscription)
      readingFlag (kinds t) fuel)
  | subscribed {fuel : Nat} (h : Subscribed t s) : Following kinds t s (readingFlag (kinds t) fuel)
  | looking {fuel : Nat} (h : Active t s) :
      Following kinds t s (polling (kinds t) (fuel + 1) ⟨false⟩ .signal)
  | inBody {fuel : Nat} (h : Active t s) :
      Following kinds t s (polling (kinds t) (fuel + 1) ⟨false⟩ .body)
  | dropping (first : Except RecvError Unit ⊕ Ending E) :
      Following kinds t s (finish (some first) >>= returning (kinds t))
  | signalling (res : Except E Unit) :
      Following kinds t s (.waitOrShutdown <$> onTermination (some (.ok (.completed res))))
  | publishing {res : Except E Unit} {g : Nat} (hspawned : s.spawned t = some g)
      (h : (s.channel g).flag = true) : Following kinds t s (do
      let _ ← ask (.shutdown .publish)
      return .waitOrShutdown (some (.ok res)))
  | ended (a : Ended E) : Following kinds t s (.pure a)

theorem following_returning (status : Option (Status E)) :
    Following kinds t s (returning (kinds t) status) := by
  cases hkind : kinds t with
  | cancelable => exact .ended _
  | _ =>
    rcases status with _ | _ | _ | res
    · exact .ended _
    · exact .ended _
    · exact .ended _
    · exact .signalling res

theorem following_polling (h : Active t s) (fuel : Nat) (poll : Poll) :
    Following kinds t s (polling (E := E) (kinds t) fuel ⟨false⟩ poll) := by
  cases fuel with
  | zero => exact following_returning none
  | succ fuel =>
    cases poll with
    | signal => exact .looking h
    | body => exact .inBody h

theorem following_told (fuel : Nat) :
    Following kinds t s (polling (E := E) (kinds t) fuel ⟨true⟩ .signal) := by
  cases fuel with
  | zero => exact following_returning none
  | succ fuel => exact .dropping (.inl (.ok ()))

theorem Active.leaves (h : Active t s) (hleaves : Leaves kinds t s s') : Active t s' := by
  obtain ⟨hgeneration, hdrained⟩ := hleaves.active h
  obtain ⟨hspawned, hlater⟩ := hleaves.spawned s.generation h.spawned
  obtain ⟨position, hposition, hle, hlt⟩ := h.listening
  refine ⟨hspawned.trans (congrArg some hgeneration.symm), hdrained.trans h.drained, ?_⟩
  rw [hgeneration]
  exact ⟨position, hlater.position.trans hposition, Nat.le_trans hle hlater.tail,
    hlater.behind hposition hle hlt⟩

theorem Subscribed.leaves (h : Subscribed t s) (hleaves : Leaves kinds t s s') :
    Subscribed t s' := by
  obtain ⟨g, position, hspawned, hposition, hle⟩ := h
  obtain ⟨hspawned', hlater⟩ := hleaves.spawned g hspawned
  exact ⟨g, position, hspawned', hlater.position.trans hposition, Nat.le_trans hle hlater.tail⟩

theorem Following.leaves {p : Prog (api E) (Ended E)} (h : Following kinds t s p)
    (hleaves : Leaves kinds t s s') : Following kinds t s' p := by
  cases h with
  | unspawned hkind h =>
    rcases hleaves.unspawned hkind h with h | h
    · exact .unspawned hkind h
    · exact .subscribed h
  | unsubscribed => exact .unsubscribed
  | subscribed h => exact .subscribed (h.leaves hleaves)
  | looking h => exact .looking (h.leaves hleaves)
  | inBody h => exact .inBody (h.leaves hleaves)
  | dropping first => exact .dropping first
  | signalling res => exact .signalling res
  | publishing hspawned h =>
    obtain ⟨hspawned', hlater⟩ := hleaves.spawned _ hspawned
    exact .publishing hspawned' (hlater.flag h)
  | ended a => exact .ended a

/-- A task whose receiver was opened before the flag was set is one of the latest start. -/
theorem Subscribed.active (h : Subscribed t s) (hsound : Sound s) {g : Nat}
    (hspawned : s.spawned t = some g) (hflag : (s.channel g).flag = false) : Active t s := by
  obtain ⟨g', position, hspawned', hposition, hle⟩ := h
  rw [hspawned] at hspawned'
  cases hspawned'
  have hlatest : ¬(g < s.generation ∨ s.drained = true) := fun hended => by
    rw [hsound.ended t g hspawned hended] at hflag
    cases hflag
  obtain ⟨hlt, hdrained⟩ := not_or.mp hlatest
  obtain rfl : g = s.generation :=
    Nat.le_antisymm (hsound.spawned t g hspawned) (Nat.le_of_not_lt hlt)
  refine ⟨hspawned, Bool.eq_false_of_not_eq_true hdrained, position, hposition, hle,
    fun hcompleted => ?_⟩
  rw [(hsound.flagged _).completed hcompleted] at hflag
  cases hflag

variable [DecidableEq τ]

theorem Following.step {c : Call} {next : (api E).Answer c → Prog (api E) (Ended E)}
    {r : (api E).Answer c} (h : Following kinds t s (.call c next)) (hsound : Sound s)
    (hr : env kinds (some t) s c r s') : Sound s' ∧ Following kinds t s' (next r) := by
  generalize hp : (Prog.call c next : Prog (api E) _) = p at h
  cases h with
  | unspawned hkind h =>
    cases hp
    obtain ⟨g, channel, hspawned, -⟩ := hr
    rw [World.sender, h] at hspawned
    cases hspawned
  | unsubscribed =>
    cases hp
    obtain ⟨g, channel, hspawned, hr, rfl⟩ := hr
    cases hr
    refine ⟨hsound.setChannel ⟨(hsound.flagged g).completed, (hsound.flagged g).published⟩ id,
      .subscribed ⟨g, (s.channel g).tail, hspawned, ?_⟩⟩
    rw [setChannel_self]
    exact ⟨Function.update_self _ _ _, Nat.le_refl _⟩
  | @subscribed fuel h =>
    cases hp
    obtain ⟨g, channel, hspawned, ⟨rfl, rfl⟩, rfl⟩ := hr
    rw [World.setChannel, Function.update_eq_self]
    refine ⟨hsound, ?_⟩
    cases hflag : (s.channel g).flag with
    | false => exact following_polling (h.active hsound hspawned hflag) fuel .signal
    | true => exact following_told fuel
  | @looking fuel h =>
    cases hp
    cases r with
    | some r =>
      obtain ⟨g, channel, hspawned, hr, rfl⟩ := hr
      exact ⟨hsound.setChannel (flagged_of_channelEnv hr (hsound.flagged g) nofun)
        (flag_of_channelEnv hr), .dropping (.inl r)⟩
    | none =>
      obtain ⟨g, -, -, -, rfl⟩ := hr
      exact ⟨hsound, following_polling h fuel .body⟩
  | @inBody fuel h =>
    cases hp
    obtain ⟨t', g, ht, hspawned, hacts⟩ := hr
    cases ht
    obtain rfl : g = s.generation := Option.some.inj (hspawned.symm.trans h.spawned)
    refine ⟨hacts.sound hsound fun _ => ⟨rfl, h.drained⟩, ?_⟩
    have hactive : Active t s' := h.leaves hacts.leaves
    cases r with
    | running => exact following_polling hactive fuel .body
    | pending => exact following_polling hactive fuel .signal
    | ready ending => exact .dropping (.inr ending)
  | dropping first =>
    cases hp
    obtain ⟨g, hspawned, rfl⟩ := hr
    exact ⟨hsound.setChannel ⟨(hsound.flagged g).completed, (hsound.flagged g).published⟩ id,
      following_returning _⟩
  | signalling res =>
    cases hp
    obtain ⟨g, channel, hspawned, hr, rfl⟩ := hr
    cases hr
    refine ⟨hsound.setChannel ⟨fun _ => rfl, fun _ => rfl⟩ fun _ => rfl, .publishing hspawned ?_⟩
    rw [setChannel_self]
  | publishing hspawned h =>
    cases hp
    obtain ⟨g, channel, hspawned', hr, rfl⟩ := hr
    obtain rfl := Option.some.inj (hspawned.symm.trans hspawned')
    exact ⟨hsound.setChannel (flagged_of_channelEnv hr (hsound.flagged _) fun _ => h)
      (flag_of_channelEnv hr), .ended _⟩
  | ended a => cases hp

omit [DecidableEq τ] in
theorem Following.active {c : Call} {next : (api E).Answer c → Prog (api E) (Ended E)}
    (h : Following kinds t s (.call c next)) (hc : c = .pollBody ∨ c = .pollRecv) : Active t s := by
  generalize hp : (Prog.call c next : Prog (api E) _) = p at h
  cases h with
  | looking h => exact h
  | inBody h => exact h
  | signalling res => cases hp; simp at hc
  | ended a => cases hp
  | _ => cases hp; simp at hc

/-! ### The other steps -/

variable {i : Option τ} {c : Call} {r : (api E).Answer c}

theorem leaves_of_env (hne : i ≠ some t) (hr : env kinds i s c r s')
    (hnew : c = .newSender → s.drained = true) : Leaves kinds t s s' := by
  cases c with
  | newSender =>
    obtain ⟨-, rfl⟩ := hr
    refine ⟨fun _ h => ⟨h, onward_refl _ _⟩, fun _ h => .inl h, fun h => ?_⟩
    exact absurd (h.drained.symm.trans (hnew rfl)) Bool.false_ne_true
  | pollService => exact hr.2.leaves
  | receiverCount =>
    obtain ⟨-, ⟨receivers, rfl, hreceivers⟩, rfl⟩ := hr
    refine ⟨fun _ h => ⟨h, onward_refl _ _⟩, fun _ h => .inl h, fun h => ⟨rfl, ?_⟩⟩
    obtain ⟨position, hposition, -⟩ := h.listening
    have hmem : some t ∈ receivers := by
      rw [hreceivers, hposition]
      exact Option.some_ne_none _
    rw [h.drained]
    exact decide_eq_false (Finset.card_ne_zero_of_mem hmem)
  | shutdown call =>
    obtain ⟨g, channel, -, hr, rfl⟩ := hr
    exact leaves_setChannel (onward_of_channelEnv (Ne.symm hne) hr)
  | pollRecv =>
    cases r with
    | some r =>
      obtain ⟨g, channel, -, hr, rfl⟩ := hr
      exact leaves_setChannel (onward_of_channelEnv (Ne.symm hne) hr)
    | none =>
      obtain ⟨g, -, -, -, rfl⟩ := hr
      exact leaves_refl
  | pollBody =>
    obtain ⟨t', g, -, -, hacts⟩ := hr
    exact hacts.leaves
  | dropReceiver =>
    obtain ⟨g, -, rfl⟩ := hr
    exact leaves_setChannel
      ⟨Function.update_of_ne (Ne.symm hne) _ _, Nat.le_refl _, id, rfl, id, .inl⟩
  | _ =>
    cases hr
    exact leaves_refl

theorem beside_of_env (hr : env kinds (some t) s c r s') : Beside s s' := by
  cases c with
  | newSender => cases hr.1
  | pollService => cases hr.1
  | receiverCount => cases hr.1
  | shutdown call =>
    obtain ⟨g, channel, -, hr, rfl⟩ := hr
    exact beside_setChannel (flag_of_channelEnv hr)
  | pollRecv =>
    cases r with
    | some r =>
      obtain ⟨g, channel, -, hr, rfl⟩ := hr
      exact beside_setChannel (flag_of_channelEnv hr)
    | none =>
      obtain ⟨g, -, -, -, rfl⟩ := hr
      exact beside_refl
  | pollBody =>
    obtain ⟨t', g, -, -, hacts⟩ := hr
    exact hacts.beside
  | dropReceiver =>
    obtain ⟨g, -, rfl⟩ := hr
    exact beside_setChannel id
  | _ =>
    cases hr
    exact beside_refl

/-! ### The manager -/

/-- What is left of the manager in a round of which `p` is left. -/
def managing (restartPolicy : RestartPolicy) (fuel : Nat)
    (p : ExceptT (Error E) (Prog (api E)) (Phase ⊕ Empty)) : Prog (api E) (Ended E) :=
  .manager <$> ExceptT.run
    (p >>= Sum.elim (Prog.iterate (round restartPolicy) fuel) fun res => return some res)

/-- What the manager knows at the start of each phase. -/
def Knows (s : World τ) : Phase → Prop
  | .starting => s.drained = true
  | .serving => s.drained = false
  | .draining => (s.channel s.generation).flag = true ∧ s.drained = false

/-- Where the manager is. -/
inductive Managing (restartPolicy : RestartPolicy) (s : World τ) : Prog (api E) (Ended E) → Prop
  | waiting {fuel : Nat} {phase : Phase} (h : Knows s phase) :
      Managing restartPolicy s (managing restartPolicy fuel (round restartPolicy phase))
  | opening {fuel : Nat} (h : s.drained = false) :
      Managing restartPolicy s (managing restartPolicy fuel do
        ExceptT.mk (ask .newClient)
        ExceptT.mk (ask .connect)
        return .inl .serving)
  | connecting {fuel : Nat} (h : s.drained = false) :
      Managing restartPolicy s (managing restartPolicy fuel do
        ExceptT.mk (ask .connect)
        return .inl .serving)
  | signalling {fuel : Nat} (h : s.drained = false) :
      Managing restartPolicy s (managing restartPolicy fuel do
        let _ ← ExceptT.lift (onShutdown Runtime.Shutdown.send)
        return .inl .draining)
  | publishing {fuel : Nat} (h : Knows s .draining) :
      Managing restartPolicy s (managing restartPolicy fuel do
        let _ ← ExceptT.lift (ask (.shutdown .publish))
        return .inl .draining)
  | sleeping {fuel : Nat} (h : Knows s .draining) :
      Managing restartPolicy s (managing restartPolicy fuel do
        ExceptT.lift (ask .sleep)
        return .inl .draining)
  | restarting {fuel : Nat} (h : s.drained = true) :
      Managing restartPolicy s (managing restartPolicy fuel do
        ExceptT.lift (ask .incrementRestartCounter)
        return .inl .starting)
  | ended (res : Except (Error E) (Option Empty)) : Managing restartPolicy s (.pure (.manager res))

variable {restartPolicy : RestartPolicy}

omit [DecidableEq τ] in
theorem managing_phase (phase : Phase) (h : Knows s phase) (fuel : Nat) :
    Managing restartPolicy s
      (.manager <$> ExceptT.run (Prog.iterate (round (E := E) restartPolicy) fuel phase)) := by
  cases fuel with
  | zero => exact .ended (.ok none)
  | succ fuel =>
    rw [Prog.iterate_succ]
    exact .waiting h

omit [DecidableEq τ] in
theorem Managing.beside {p : Prog (api E) (Ended E)} (h : Managing restartPolicy s p)
    (hbeside : Beside s s') : Managing restartPolicy s' p := by
  have hknows (phase : Phase) (hphase : Knows s phase) : Knows s' phase := by
    cases phase with
    | draining =>
      refine ⟨?_, hbeside.drained.trans hphase.2⟩
      rw [hbeside.generation]
      exact hbeside.flag hphase.1
    | _ => exact hbeside.drained.trans hphase
  cases h with
  | waiting h => exact .waiting (hknows _ h)
  | opening h => exact .opening (hbeside.drained.trans h)
  | connecting h => exact .connecting (hbeside.drained.trans h)
  | signalling h => exact .signalling (hbeside.drained.trans h)
  | publishing h => exact .publishing (hknows .draining h)
  | sleeping h => exact .sleeping (hknows .draining h)
  | restarting h => exact .restarting (hbeside.drained.trans h)
  | ended res => exact .ended res

theorem Managing.step {next : (api E).Answer c → Prog (api E) (Ended E)}
    (h : Managing restartPolicy s (.call c next)) (hsound : Sound s)
    (hr : env kinds none s c r s') :
    (c = .newSender → s.drained = true) ∧ Sound s' ∧ Managing restartPolicy s' (next r) := by
  generalize hp : (Prog.call c next : Prog (api E) _) = p at h
  cases h with
  | @waiting fuel phase h =>
    cases phase with
    | starting =>
      cases hp
      obtain ⟨-, rfl⟩ := hr
      refine ⟨fun _ => h, ⟨fun t g hg => Nat.le_succ_of_le (hsound.spawned t g hg),
        fun t g hg _ => hsound.ended t g hg (.inr h), hsound.flagged⟩, .opening rfl⟩
    | serving =>
      cases hp
      refine ⟨nofun, hr.2.sound hsound fun _ => ⟨rfl, h⟩, ?_⟩
      have hserving : s'.drained = false := hr.2.beside.drained.trans h
      rcases r with _ | _ | ⟨⟨err⟩ | ⟨err⟩⟩ | res
      · exact managing_phase .serving hserving fuel
      · exact managing_phase .serving hserving fuel
      · exact .ended _
      · exact .signalling hserving
      · exact .signalling hserving
    | draining =>
      cases hp
      obtain ⟨-, -, rfl⟩ := hr
      refine ⟨nofun, ⟨hsound.spawned, fun t g hg hended => ?_, hsound.flagged⟩, ?_⟩
      · rcases Nat.lt_or_eq_of_le (hsound.spawned t g hg) with hlt | rfl
        · exact hsound.ended t g hg (.inl hlt)
        · exact h.1
      · cases r with
        | zero =>
          cases restartPolicy with
          | never => exact .ended _
          | always => exact .restarting rfl
        | succ count => exact .sleeping ⟨h.1, rfl⟩
  | opening h =>
    cases hp
    cases hr
    refine ⟨nofun, hsound, ?_⟩
    cases r with
    | ok => exact .connecting h
    | error err => exact .ended _
  | @connecting fuel h =>
    cases hp
    cases hr
    refine ⟨nofun, hsound, ?_⟩
    cases r with
    | ok => exact managing_phase .serving h fuel
    | error err => exact .ended _
  | signalling h =>
    cases hp
    obtain ⟨g, channel, hg, hr, rfl⟩ := hr
    cases hg
    cases hr
    refine ⟨nofun, hsound.setChannel ⟨fun _ => rfl, fun _ => rfl⟩ fun _ => rfl, .publishing ⟨?_, h⟩⟩
    exact congrArg Channel.flag (setChannel_self _)
  | @publishing fuel h =>
    cases hp
    obtain ⟨g, channel, hg, hr, rfl⟩ := hr
    cases hg
    have hflag : Knows (s.setChannel s.generation channel) .draining :=
      ⟨(congrArg Channel.flag (setChannel_self _)).trans (flag_of_channelEnv hr h.1), h.2⟩
    exact ⟨nofun, hsound.setChannel (flagged_of_channelEnv hr (hsound.flagged _) fun _ => h.1)
      (flag_of_channelEnv hr), managing_phase .draining hflag fuel⟩
  | @sleeping fuel h =>
    cases hp
    cases hr
    exact ⟨nofun, hsound, managing_phase .draining h fuel⟩
  | @restarting fuel h =>
    cases hp
    cases hr
    exact ⟨nofun, hsound, managing_phase .starting h fuel⟩
  | ended res => cases hp

/-! ### All together -/

/-- Where the manager or a task is. -/
def At (restartPolicy : RestartPolicy) (kinds : τ → Kind) (p : Prog (api E) (Ended E))
    (s : World τ) : Option τ → Prop
  | none => Managing restartPolicy s p
  | some t => if kinds t = .detached then p.Only (· = Call.pollBody) else Following kinds t s p

omit [DecidableEq τ] in
theorem only_detached (fuel : Nat) :
    (task fuel .detached : Prog (api E) (Ended E)).Only (· = Call.pollBody) := by
  have hstep (x : Unit) : (detachedStep (E := E) x).Only (· = Call.pollBody) := by
    refine ⟨rfl, fun r => ?_⟩
    cases r <;> trivial
  have hdetached : (detached (E := E) fuel).Only (· = Call.pollBody) :=
    Prog.only_iterate hstep fuel ()
  exact Prog.only_bind hdetached fun _ => trivial

theorem assertions_client (restartPolicy : RestartPolicy) (kinds : τ → Kind) :
    Prog.Assertions (env (E := E) kinds) DropSender Sound
      (fun i p s => At restartPolicy kinds p s i) where
  own {i c next s r s'} hsound hK hr := by
    cases i with
    | none => exact (Managing.step hK hsound hr).2
    | some t =>
      dsimp only [At] at *
      split at hK
      next hkind =>
        rw [if_pos hkind]
        obtain ⟨rfl, hnext⟩ := hK
        obtain ⟨t', g, ht, -, hacts⟩ := hr
        cases ht
        refine ⟨hacts.sound hsound fun hspawns => ?_, hnext r⟩
        rw [hkind] at hspawns
        cases hspawns
      next hkind =>
        rw [if_neg hkind]
        exact hK.step hsound hr
  others {i j c next p s r s'} hne hsound hi hr hK := by
    cases j with
    | none =>
      cases i with
      | none => exact absurd rfl hne
      | some t => exact Managing.beside hK (beside_of_env hr)
    | some t =>
      have hleaves : Leaves kinds t s s' := leaves_of_env (Ne.symm hne) hr fun hc => by
        subst hc
        cases i with
        | none => exact (Managing.step hi hsound hr).1 rfl
        | some t' => cases hr.1
      dsimp only [At] at *
      split at hK
      next hkind => rwa [if_pos hkind]
      next hkind =>
        rw [if_neg hkind]
        exact hK.leaves hleaves
  other {s s'} hdrop hsound := by
    obtain ⟨g, rfl⟩ := hdrop
    refine ⟨hsound.setChannel ⟨(hsound.flagged g).completed, (hsound.flagged g).published⟩ id,
      fun i p hK => ?_⟩
    cases i with
    | none => exact Managing.beside hK (beside_setChannel id)
    | some t =>
      have hleaves : Leaves kinds t s (s.setChannel g { s.channel g with closed := true }) :=
        leaves_setChannel ⟨rfl, Nat.le_refl _, id, rfl, id, .inl⟩
      dsimp only [At] at *
      split at hK
      next hkind => rwa [if_pos hkind]
      next hkind =>
        rw [if_neg hkind]
        exact hK.leaves hleaves

omit [DecidableEq τ] in
theorem at_client (restartPolicy : RestartPolicy) (kinds : τ → Kind) (fuel : Nat) (i : Option τ) :
    At restartPolicy kinds (client (E := E) restartPolicy kinds fuel i) World.start i := by
  cases i with
  | none =>
    have hdrained : Knows (World.start : World τ) .starting := rfl
    exact managing_phase .starting hdrained fuel
  | some t =>
    dsimp only [At, client]
    cases hkind : kinds t with
    | detached =>
      rw [if_pos rfl]
      exact only_detached fuel
    | cancelable =>
      rw [if_neg Kind.noConfusion, task_cancelable, ← hkind]
      exact .unspawned hkind rfl
    | waitOrShutdown =>
      rw [if_neg Kind.noConfusion, task_waitOrShutdown, ← hkind]
      exact .unsubscribed

/-- In every interleaving of the manager and of the tasks that its services spawn: a task that is
told of the signal only gets to its body when it was spawned by the latest start, and while the
manager has not yet found that no receiver is left; so no task of an earlier start runs after a
restart.  Once the signal has been sent, a task that looks at it sees it. -/
theorem runs_in_latest_start (restartPolicy : RestartPolicy) (kinds : τ → Kind) (fuel : Nat)
    {ps : Option τ → Prog (api E) (Ended E)} {s : World τ}
    (hruns : Prog.PoolRuns (env kinds) DropSender (client restartPolicy kinds fuel) World.start
      ps s) {t : τ} (hkind : kinds t ≠ .detached) :
    (∀ next, ps (some t) = .call .pollBody next →
      s.spawned t = some s.generation ∧ s.drained = false) ∧
    ∀ next, ps (some t) = .call .pollRecv next → (s.channel s.generation).completed = true →
      (∃ r s', env (E := E) kinds (some t) s .pollRecv (some r) s') ∧
        ∀ s', ¬env (E := E) kinds (some t) s .pollRecv none s' := by
  have hassertions := assertions_client (E := E) restartPolicy kinds
  have hstart : Sound (World.start : World τ) :=
    ⟨nofun, nofun, fun _ => ⟨Bool.noConfusion, fun h => absurd h (Nat.lt_irrefl 0)⟩⟩
  obtain ⟨-, hat⟩ := hassertions.poolRuns hstart (at_client restartPolicy kinds fuel) hruns
  have hfollowing : Following kinds t s (ps (some t)) := by
    have hat := hat (some t)
    rwa [At, if_neg hkind] at hat
  constructor
  · intro next hbody
    rw [hbody] at hfollowing
    have hactive := hfollowing.active (.inl rfl)
    exact ⟨hactive.spawned, hactive.drained⟩
  · intro next hlooking hcompleted
    rw [hlooking] at hfollowing
    have hactive := hfollowing.active (.inr rfl)
    obtain ⟨position, hposition, -, hlt⟩ := hactive.listening
    have hlt := hlt hcompleted
    constructor
    · obtain ⟨r, channel, hr⟩ := Runtime.Shutdown.exists_recv hposition hlt
      exact ⟨r, _, s.generation, channel, hactive.spawned, hr, rfl⟩
    · rintro s' ⟨g, hspawned, hposition', -⟩
      obtain rfl := Option.some.inj (hactive.spawned.symm.trans hspawned)
      rw [hposition] at hposition'
      exact absurd (Option.some.inj hposition') (Nat.ne_of_lt hlt)

end

/-! ### A task that is first polled after a restart -/

def kindOf (t : Bool) : Kind := if t then .cancelable else .waitOrShutdown

/-- The first service spawns `false` and ends, and the second one spawns `true`. -/
def serve (i : Option Bool) (s : World Bool) :
    (call : Call) → Option ((api Unit).Answer call × World Bool)
  | .newSender =>
    if i = none then some ((), { s with generation := s.generation + 1, drained := false })
    else none
  | .newClient => some (.ok (), s)
  | .connect => some (.ok (), s)
  | .pollService =>
    if i ≠ none then none
    else if s.spawned false = none then some (.running, s.spawn kindOf s.generation false)
    else if s.generation = 1 then some (.ready (.ok ()), s)
    else if s.spawned true = none then some (.running, s.spawn kindOf s.generation true)
    else none
  | .receiverCount =>
    if i ≠ none then none
    else
      let receivers := Finset.univ.filter fun j => (s.channel s.generation).position j ≠ none
      some (receivers.card, { s with drained := receivers.card = 0 })
  | .shutdown .setFlag => do
    let g ← s.sender i
    return ((), s.setChannel g { s.channel g with flag := true })
  | .shutdown .publish => do
    let g ← s.sender i
    if ∀ j, (s.channel g).position j = none then
      return (none, s.setChannel g { s.channel g with completed := true })
    else none
  | .shutdown .openSubscription => do
    let g ← s.sender i
    return ((), s.setChannel g { s.channel g with
      position := Function.update (s.channel g).position i (some (s.channel g).tail) })
  | .shutdown .readFlag => do
    let g ← s.sender i
    return ((s.channel g).flag, s.setChannel g (s.channel g))
  | .pollRecv => do
    let g ← s.sender i
    if (s.channel g).position i = some (s.channel g).tail ∧ (s.channel g).closed = false then
      return (none, s)
    else none
  | .dropReceiver => do
    let g ← s.sender i
    return ((), s.setChannel g
      { s.channel g with position := Function.update (s.channel g).position i none })
  | .incrementRestartCounter => some ((), s)
  | _ => none

theorem env_serve {i : Option Bool} {s s' : World Bool} {call : Call} {r : (api Unit).Answer call}
    (h : serve i s call = some (r, s')) : env kindOf i s call r s' := by
  cases call with
  | newSender =>
    dsimp only [serve] at h
    split at h
    next hi =>
      cases h
      exact ⟨hi, rfl⟩
    next => cases h
  | pollService =>
    dsimp only [serve] at h
    split at h
    next => cases h
    next hi =>
      refine ⟨not_not.mp hi, ?_⟩
      split at h
      next hnew =>
        cases h
        exact .spawn rfl hnew
      next =>
        split at h
        next =>
          cases h
          exact .idle
        next =>
          split at h
          next hnew =>
            cases h
            exact .spawn rfl hnew
          next => cases h
  | receiverCount =>
    dsimp only [serve] at h
    split at h
    next => cases h
    next hi =>
      cases h
      exact ⟨not_not.mp hi, ⟨_, rfl, fun j => by simp⟩, rfl⟩
  | shutdown call =>
    cases call with
    | recv => cases h
    | publish =>
      obtain ⟨g, hg, h⟩ := Option.bind_eq_some_iff.mp h
      dsimp only at h
      split at h
      next hnone =>
        cases h
        exact ⟨g, _, hg, .inr ⟨rfl, hnone, rfl⟩, rfl⟩
      next => cases h
    | readFlag =>
      obtain ⟨g, hg, h⟩ := Option.bind_eq_some_iff.mp h
      cases h
      exact ⟨g, _, hg, ⟨rfl, rfl⟩, rfl⟩
    | _ =>
      obtain ⟨g, hg, h⟩ := Option.bind_eq_some_iff.mp h
      cases h
      exact ⟨g, _, hg, rfl, rfl⟩
  | pollRecv =>
    obtain ⟨g, hg, h⟩ := Option.bind_eq_some_iff.mp h
    dsimp only at h
    split at h
    next hwaiting =>
      cases h
      exact ⟨g, hg, hwaiting.1, hwaiting.2, rfl⟩
    next => cases h
  | dropReceiver =>
    obtain ⟨g, hg, h⟩ := Option.bind_eq_some_iff.mp h
    cases h
    exact ⟨g, hg, rfl⟩
  | sleep => cases h
  | pollBody => cases h
  | _ =>
    cases h
    rfl

/-- `true` gets to its body, and then `false` is polled. -/
def turns : List (Option Bool ⊕ (World Bool → World Bool)) :=
  (List.replicate 13 none ++ List.replicate 2 (some true) ++ List.replicate 3 (some false)).map .inl

def afterRestart : (Option Bool → Prog (api Unit) (Ended Unit)) × World Bool :=
  Prog.playPool serve turns (client .always kindOf 10, World.start)

/-- Whether a task is about to get to its body. -/
def entersBody : Prog (api Unit) (Ended Unit) → Bool
  | .call .pollBody _ => true
  | _ => false

theorem exists_of_entersBody {p : Prog (api Unit) (Ended Unit)} (h : entersBody p = true) :
    ∃ next, p = .call .pollBody next := by
  unfold entersBody at h
  split at h
  next next => exact ⟨next, rfl⟩
  next => cases h

theorem runs_in_latest_start_afterRestart :
    afterRestart.2.generation = 2 ∧ afterRestart.2.spawned false = some 1 ∧
      entersBody (afterRestart.1 (some false)) = false ∧
      entersBody (afterRestart.1 (some true)) = true ∧
      afterRestart.2.spawned true = some afterRestart.2.generation := by
  have hturns (move : World Bool → World Bool) (hmove : .inr move ∈ turns) (s : World Bool) :
      DropSender s (move s) := by
    simp [turns] at hmove
  have hruns : Prog.PoolRuns (env kindOf) DropSender (client .always kindOf 10) World.start
      afterRestart.1 afterRestart.2 :=
    Prog.poolRuns_play env_serve hturns _ _
  have henters : entersBody (afterRestart.1 (some true)) = true := by decide +kernel
  obtain ⟨next, hnext⟩ := exists_of_entersBody henters
  have hlatest := (runs_in_latest_start .always kindOf 10 hruns (t := true) nofun).1 next hnext
  exact ⟨by decide +kernel, by decide +kernel, by decide +kernel, henters, hlatest.1⟩

end InterBtcClients.Vault.Restarts
