import InterBtcClients.Library.Pool

/-! The shutdown signal: a flag for the receivers that subscribe after it has been sent and a
broadcast channel for those that have subscribed before. -/

namespace InterBtcClients.Runtime.Shutdown

open Library

def CHANNEL_CAPACITY : Nat := 16

inductive RecvError
  | closed
  | lagged (skipped : Nat)
  deriving DecidableEq, Repr

/-- The steps of `send` and of `subscribe`, and the wait of a receiver on its subscription. -/
inductive Call
  | setFlag
  | publish
  | openSubscription
  | readFlag
  | recv
  deriving DecidableEq, Repr

/-- A value that is published when there is no subscription is an error, `none`. -/
@[reducible] def api : Interface where
  Call := Call
  Answer
    | .setFlag => Unit
    | .publish => Option Nat
    | .openSubscription => Unit
    | .readFlag => Bool
    | .recv => Except RecvError Unit

abbrev ask (call : Call) : Prog api (api.Answer call) := Prog.request api call

def send : Prog api (Option Nat) := do
  ask .setFlag
  ask .publish

/-- A receiver; its subscription is that of the task it belongs to. -/
structure ShutdownReceiver where
  receivedShutdown : Bool

def subscribe : Prog api ShutdownReceiver := do
  ask .openSubscription
  let sent ← ask .readFlag
  return { receivedShutdown := sent }

def ShutdownReceiver.recv (receiver : ShutdownReceiver) : Prog api (Except RecvError Unit) :=
  if receiver.receivedShutdown then return .ok () else ask .recv

/-! ### The channel -/

variable {ι : Type}

/-- The flag, whether a `send` has completed, the number of values published, the position in the
channel of each subscription, and whether the last sender is gone. -/
structure Channel (ι : Type) where
  flag : Bool
  completed : Bool
  tail : Nat
  position : ι → Option Nat
  closed : Bool

def Channel.start : Channel ι := ⟨false, false, 0, fun _ => none, false⟩

variable [DecidableEq ι]

/-- A published value is kept when there is a subscription. A subscription has the values published
since it was opened; when it is too far behind, that is an error and it goes on with the oldest
value that is kept. -/
def channelEnv (i : ι) : Prog.Env api (Channel ι)
  | s, .setFlag, _, s' => s' = { s with flag := true }
  | s, .publish, r, s' =>
    r.isSome ∧ s' = { s with tail := s.tail + 1, completed := true } ∨
      r = none ∧ (∀ j, s.position j = none) ∧ s' = { s with completed := true }
  | s, .openSubscription, _, s' =>
    s' = { s with position := Function.update s.position i (some s.tail) }
  | s, .readFlag, r, s' => r = s.flag ∧ s' = s
  | s, .recv, r, s' => ∃ position, s.position i = some position ∧
    (position < s.tail ∧ s.tail ≤ position + CHANNEL_CAPACITY ∧ r = .ok () ∧
        s' = { s with position := Function.update s.position i (some (position + 1)) } ∨
      position + CHANNEL_CAPACITY < s.tail ∧
        r = .error (.lagged (s.tail - CHANNEL_CAPACITY - position)) ∧
        s' = { s with
          position := Function.update s.position i (some (s.tail - CHANNEL_CAPACITY)) } ∨
      position = s.tail ∧ s.closed = true ∧ r = .error .closed ∧ s' = s)

/-- The last sender is dropped. -/
def DropSender (s s' : Channel ι) : Prop := s' = { s with closed := true }

/-- What a task does with its clone of the sender: it sends the signal, or it subscribes and waits
for the signal once. -/
inductive Role
  | sender
  | receiver
  deriving DecidableEq, Repr

def task : Role → Prog api (Option Nat ⊕ Except RecvError Unit)
  | .sender => Sum.inl <$> send
  | .receiver => do
    let receiver ← subscribe
    Sum.inr <$> receiver.recv

/-! ### The signal is not missed -/

/-- The flag is set before a value is published. -/
structure Flagged (s : Channel ι) : Prop where
  completed : s.completed = true → s.flag = true
  published : 0 < s.tail → s.flag = true

/-- Where a sender is. -/
inductive Sending (s : Channel ι) : Prog api (Option Nat ⊕ Except RecvError Unit) → Prop
  | start : Sending s (task .sender)
  | flagged (h : s.flag = true) : Sending s (Sum.inl <$> ask .publish)
  | sent (r : Option Nat) (h : s.completed = true) : Sending s (.pure (.inl r))

/-- Where a receiver is. One that waits has read the flag before a `send` that has completed set it,
so that its subscription is older than the value. -/
inductive Receiving (i : ι) (s : Channel ι) :
    Prog api (Option Nat ⊕ Except RecvError Unit) → Prop
  | start : Receiving i s (task .receiver)
  | subscribed {position : Nat} (h : s.position i = some position) (hle : position ≤ s.tail) :
      Receiving i s (do
        let sent ← ask .readFlag
        Sum.inr <$> (ShutdownReceiver.mk sent).recv)
  | waiting {position : Nat} (h : s.position i = some position) (hle : position ≤ s.tail)
      (hlt : s.completed = true → position < s.tail) : Receiving i s (Sum.inr <$> ask .recv)
  | returned (r : Except RecvError Unit) (h : s.closed = false → s.flag = true) :
      Receiving i s (.pure (.inr r))

def At (roles : ι → Role) (i : ι) (p : Prog api (Option Nat ⊕ Except RecvError Unit))
    (s : Channel ι) : Prop :=
  match roles i with
  | .sender => Sending s p
  | .receiver => Receiving i s p

section Steps

variable {i j : ι} {s s' : Channel ι} {c : Call} {r : api.Answer c}
variable {next : api.Answer c → Prog api (Option Nat ⊕ Except RecvError Unit)}
variable {p : Prog api (Option Nat ⊕ Except RecvError Unit)}

theorem Sending.step (h : Sending s (.call c next)) (hflagged : Flagged s)
    (hr : channelEnv i s c r s') : Flagged s' ∧ Sending s' (next r) := by
  generalize hp : (Prog.call c next : Prog api _) = p at h
  cases h with
  | start =>
    cases hp
    cases hr
    exact ⟨⟨fun _ => rfl, fun _ => rfl⟩, .flagged rfl⟩
  | flagged h =>
    cases hp
    obtain ⟨-, rfl⟩ | ⟨-, -, rfl⟩ := hr
    · exact ⟨⟨fun _ => h, fun _ => h⟩, .sent r rfl⟩
    · exact ⟨⟨fun _ => h, hflagged.published⟩, .sent r rfl⟩
  | sent r h => cases hp

theorem Receiving.step (h : Receiving i s (.call c next)) (hflagged : Flagged s)
    (hr : channelEnv i s c r s') : Flagged s' ∧ Receiving i s' (next r) := by
  generalize hp : (Prog.call c next : Prog api _) = p at h
  cases h with
  | start =>
    cases hp
    cases hr
    exact ⟨⟨hflagged.completed, hflagged.published⟩,
      .subscribed (Function.update_self _ _ _) (Nat.le_refl _)⟩
  | subscribed h hle =>
    cases hp
    obtain ⟨rfl, rfl⟩ := hr
    cases hflag : s'.flag with
    | true => exact ⟨hflagged, .returned (.ok ()) fun _ => hflag⟩
    | false =>
      refine ⟨hflagged, .waiting h hle fun hcompleted => ?_⟩
      have := hflagged.completed hcompleted
      rw [hflag] at this
      cases this
  | waiting h hle hlt =>
    cases hp
    obtain ⟨position', h', hr⟩ := hr
    rw [h] at h'
    cases h'
    obtain ⟨hsent, -, rfl, rfl⟩ | ⟨hsent, rfl, rfl⟩ | ⟨-, hclosed, rfl, rfl⟩ := hr
    · exact ⟨⟨hflagged.completed, hflagged.published⟩,
        .returned _ fun _ => hflagged.published (by omega)⟩
    · exact ⟨⟨hflagged.completed, hflagged.published⟩,
        .returned _ fun _ => hflagged.published (by omega)⟩
    · refine ⟨hflagged, .returned _ fun hopen => ?_⟩
      rw [hclosed] at hopen
      cases hopen
  | returned r h => cases hp

/-- What a step of another task leaves to a receiver with an open subscription: when a `send`
completes, its value is published to the subscription. -/
structure Later (i : ι) (s s' : Channel ι) : Prop where
  position : s'.position i = s.position i
  tail : s.tail ≤ s'.tail
  flag : s.flag = true → s'.flag = true
  closed : s'.closed = s.closed
  completed : s.completed = true → s'.completed = true
  published : s'.completed = true → s.completed = true ∨ s.position i = none ∨ s.tail < s'.tail

theorem later_of_channelEnv (hne : i ≠ j) (hr : channelEnv j s c r s') : Later i s s' := by
  cases c with
  | setFlag =>
    cases hr
    exact ⟨rfl, Nat.le_refl _, fun _ => rfl, rfl, id, .inl⟩
  | publish =>
    obtain ⟨-, rfl⟩ | ⟨-, hnone, rfl⟩ := hr
    · exact ⟨rfl, Nat.le_succ _, id, rfl, fun _ => rfl, fun _ => .inr (.inr (Nat.lt_succ_self _))⟩
    · exact ⟨rfl, Nat.le_refl _, id, rfl, fun _ => rfl, fun _ => .inr (.inl (hnone i))⟩
  | openSubscription =>
    cases hr
    exact ⟨Function.update_of_ne hne _ _, Nat.le_refl _, id, rfl, id, .inl⟩
  | readFlag =>
    obtain ⟨-, rfl⟩ := hr
    exact ⟨rfl, Nat.le_refl _, id, rfl, id, .inl⟩
  | recv =>
    obtain ⟨position, -, ⟨-, -, -, rfl⟩ | ⟨-, -, rfl⟩ | ⟨-, -, -, rfl⟩⟩ := hr
    · exact ⟨Function.update_of_ne hne _ _, Nat.le_refl _, id, rfl, id, .inl⟩
    · exact ⟨Function.update_of_ne hne _ _, Nat.le_refl _, id, rfl, id, .inl⟩
    · exact ⟨rfl, Nat.le_refl _, id, rfl, id, .inl⟩

omit [DecidableEq ι] in
/-- A subscription stays behind the value of a `send` that has completed. -/
theorem Later.behind {position : Nat} (hlater : Later i s s') (h : s.position i = some position)
    (hle : position ≤ s.tail) (hlt : s.completed = true → position < s.tail) :
    s'.completed = true → position < s'.tail := by
  intro hcompleted
  rcases hlater.published hcompleted with hcompleted | hnone | htail
  · exact Nat.lt_of_lt_of_le (hlt hcompleted) hlater.tail
  · rw [h] at hnone
    cases hnone
  · omega

omit [DecidableEq ι] in
theorem Sending.later (h : Sending s p) (hlater : Later i s s') : Sending s' p := by
  cases h with
  | start => exact .start
  | flagged h => exact .flagged (hlater.flag h)
  | sent r h => exact .sent r (hlater.completed h)

omit [DecidableEq ι] in
theorem Receiving.later (h : Receiving i s p) (hlater : Later i s s') : Receiving i s' p := by
  cases h with
  | start => exact .start
  | subscribed h hle =>
    exact .subscribed (hlater.position.trans h) (Nat.le_trans hle hlater.tail)
  | waiting h hle hlt =>
    exact .waiting (hlater.position.trans h) (Nat.le_trans hle hlater.tail)
      (hlater.behind h hle hlt)
  | returned r h =>
    refine .returned r fun hopen => hlater.flag (h ?_)
    rw [← hlater.closed]
    exact hopen

/-- A `recv` is answered when a value is ahead of its subscription. -/
theorem exists_recv {position : Nat} (h : s.position i = some position)
    (hlt : position < s.tail) : ∃ r s', channelEnv i s .recv r s' := by
  by_cases hlag : position + CHANNEL_CAPACITY < s.tail
  · exact ⟨_, _, position, h, .inr (.inl ⟨hlag, rfl, rfl⟩)⟩
  · exact ⟨_, _, position, h, .inl ⟨hlt, Nat.le_of_not_lt hlag, rfl, rfl⟩⟩

/-- A receiver is answered once a `send` has completed. -/
theorem Receiving.answered (h : Receiving i s (.call c next)) (hcompleted : s.completed = true) :
    ∃ r s', channelEnv i s c r s' := by
  generalize hp : (Prog.call c next : Prog api _) = p at h
  cases h with
  | start =>
    cases hp
    exact ⟨(), _, rfl⟩
  | subscribed h hle =>
    cases hp
    exact ⟨_, _, rfl, rfl⟩
  | waiting h hle hlt =>
    cases hp
    exact exists_recv h (hlt hcompleted)
  | returned r h => cases hp

theorem completed_of_channelEnv (hcompleted : s.completed = true) (hr : channelEnv j s c r s') :
    s'.completed = true := by
  cases c with
  | publish => obtain ⟨-, rfl⟩ | ⟨-, -, rfl⟩ := hr <;> rfl
  | readFlag =>
    obtain ⟨-, rfl⟩ := hr
    exact hcompleted
  | recv =>
    obtain ⟨position, -, ⟨-, -, -, rfl⟩ | ⟨-, -, rfl⟩ | ⟨-, -, -, rfl⟩⟩ := hr <;> exact hcompleted
  | _ =>
    cases hr
    exact hcompleted

omit [DecidableEq ι] in
theorem Receiving.dropSender (h : Receiving i s p) : Receiving i { s with closed := true } p := by
  cases h with
  | start => exact .start
  | subscribed h hle => exact .subscribed h hle
  | waiting h hle hlt => exact .waiting h hle hlt
  | returned r h => exact .returned r fun hopen => by cases hopen

end Steps

theorem assertions_tasks (roles : ι → Role) :
    Prog.Assertions channelEnv DropSender Flagged (At roles) where
  own {i c next s r s'} hI hK hr := by
    unfold At at *
    split at hK
    · exact hK.step hI hr
    · exact hK.step hI hr
  others {i j c next p s r s'} hne _ _ hr hK := by
    have hlater := later_of_channelEnv hne hr
    unfold At at *
    split at hK
    · exact hK.later hlater
    · exact hK.later hlater
  other {s s'} hdrop hI := by
    subst hdrop
    refine ⟨⟨hI.completed, hI.published⟩, fun i p hK => ?_⟩
    unfold At at *
    split at hK
    · cases hK with
      | start => exact .start
      | flagged h => exact .flagged h
      | sent r h => exact .sent r h
    · exact hK.dropSender

/-- In every interleaving of any number of `send` and `subscribe` calls: once a `send` has
completed, every receiver returns, with no further step of another task, whether or not it has
subscribed yet; and while there is a sender no receiver returns before the flag is set. -/
theorem returns_of_poolRuns (roles : ι → Role)
    {tasks : ι → Prog api (Option Nat ⊕ Except RecvError Unit)} {s : Channel ι}
    (hruns : Prog.PoolRuns channelEnv DropSender (fun i => task (roles i)) Channel.start tasks s) :
    ((∃ j a, roles j = .sender ∧ tasks j = .pure a) → ∀ i, roles i = .receiver →
      Prog.Returns (channelEnv i) (tasks i) s) ∧
      ∀ i a, roles i = .receiver → tasks i = .pure a → s.closed = false → s.flag = true := by
  have hstart : Flagged (Channel.start : Channel ι) :=
    ⟨Bool.noConfusion, fun h => absurd h (Nat.lt_irrefl 0)⟩
  have htasks (i : ι) : At roles i (task (roles i)) Channel.start := by
    unfold At
    cases roles i with
    | sender => exact .start
    | receiver => exact .start
  have hassertions := assertions_tasks roles
  obtain ⟨hflagged, hat⟩ := hassertions.poolRuns hstart htasks hruns
  constructor
  · rintro ⟨j, a, hj, hsent⟩ i hi
    have hcompleted : s.completed = true := by
      have hat := hat j
      unfold At at hat
      rw [hj, hsent] at hat
      generalize hp : (Prog.pure a : Prog api _) = p at hat
      cases hat with
      | start => cases hp
      | flagged h => cases hp
      | sent r h => exact h
    refine hassertions.returns (J := fun s => s.completed = true) (fun _ hJ hK => ?_)
      (fun hJ hr => completed_of_channelEnv hJ hr) hflagged hcompleted (hat i)
    unfold At at hK
    rw [hi] at hK
    exact hK.answered hJ
  · intro i a hi hreturned hopen
    have hat := hat i
    unfold At at hat
    rw [hi, hreturned] at hat
    generalize hp : (Prog.pure a : Prog api _) = p at hat
    cases hat with
    | start => cases hp
    | subscribed h hle => cases hp
    | waiting h hle hlt => cases hp
    | returned r h => exact h hopen

/-! ### A receiver that subscribes before a `send` -/

/-- The answers of the channel to the calls of a sender, `false`, and a receiver, `true`. -/
def serveChannel (i : Bool) (s : Channel Bool) :
    (call : Call) → Option (api.Answer call × Channel Bool)
  | .setFlag => some ((), { s with flag := true })
  | .publish =>
    if s.position false = none ∧ s.position true = none then
      some (none, { s with completed := true })
    else some (some 1, { s with tail := s.tail + 1, completed := true })
  | .openSubscription =>
    some ((), { s with position := Function.update s.position i (some s.tail) })
  | .readFlag => some (s.flag, s)
  | .recv => none

theorem channelEnv_serveChannel {i : Bool} {s s' : Channel Bool} {call : Call}
    {r : api.Answer call} (h : serveChannel i s call = some (r, s')) :
    channelEnv i s call r s' := by
  cases call with
  | publish =>
    dsimp only [serveChannel] at h
    split at h
    next hnone =>
      cases h
      refine .inr ⟨rfl, fun j => ?_, rfl⟩
      cases j with
      | false => exact hnone.1
      | true => exact hnone.2
    next =>
      cases h
      exact .inl ⟨rfl, rfl⟩
  | recv => cases h
  | readFlag =>
    cases h
    exact ⟨rfl, rfl⟩
  | _ =>
    cases h
    rfl

def sendOne (i : Bool) : Role := if i then .receiver else .sender

/-- The receiver has read the flag before the sender sets it. -/
def afterSend : (Bool → Prog api (Option Nat ⊕ Except RecvError Unit)) × Channel Bool :=
  Prog.playPool serveChannel [.inl true, .inl true, .inl false, .inl false]
    (fun i => task (sendOne i), Channel.start)

theorem returns_of_poolRuns_afterSend :
    afterSend.2.position true = some 0 ∧
      Prog.Returns (channelEnv true) (afterSend.1 true) afterSend.2 := by
  have hturns (move : Channel Bool → Channel Bool)
      (hmove : .inr move ∈ ([.inl true, .inl true, .inl false, .inl false] :
        List (Bool ⊕ (Channel Bool → Channel Bool)))) (s : Channel Bool) :
      DropSender s (move s) := by
    simp at hmove
  have hruns : Prog.PoolRuns channelEnv DropSender (fun i => task (sendOne i)) Channel.start
      afterSend.1 afterSend.2 :=
    Prog.poolRuns_play channelEnv_serveChannel hturns _ _
  exact ⟨rfl, (returns_of_poolRuns sendOne hruns).1 ⟨false, _, rfl, rfl⟩ true rfl⟩

end InterBtcClients.Runtime.Shutdown
