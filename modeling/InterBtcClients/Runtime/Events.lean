import InterBtcClients.Library.Interleave

/-! The event subscriptions of the parachain's client. `on_event` runs two tasks: one takes the
events of a type out of the blocks and queues them, the other one calls back for each of them. -/

namespace InterBtcClients.Runtime.Events

open Library

/-- What the subscription delivers: the events of a block, some of which are not decoded, or the
error with which they could not be fetched. -/
abbrev Item (E D : Type) := Except E (List (Except E D))

inductive Error (E : Type)
  | channelClosed
  | subxtRuntimeError (e : E)
  deriving DecidableEq, Repr

variable {E D T : Type}

/-- Whether an event is of the type, and how it decodes then. -/
abbrev AsEvent (E D T : Type) := D → Except E (Option T)

/-- The events of the type and the errors that the first task sees in one item. -/
def eventStream (asEvent : AsEvent E D T) (result : Item E D) : List (Except E T) :=
  (result.toOption.toList.flatMap fun events => events.map fun x => x.bind asEvent).filterMap
    fun x => match x with
      | .ok (some event) => some (.ok event)
      | .ok none => none
      | .error e => some (.error e)

/-! ### The tasks -/

inductive ListenCall (E T : Type)
  | next
  | send (event : T)
  | onError (error : Error E)

/-- `none` is the end of the subscription; a `send` that fails answers `false`. -/
@[reducible] def listenApi (E D T : Type) : Interface where
  Call := ListenCall E T
  Answer
    | .next => Option (Item E D)
    | .send _ => Bool
    | .onError _ => Unit

inductive HandleCall (T : Type)
  | recv
  | onEvent (event : T)
  /-- The end of the call before. -/
  | awaitOnEvent

@[reducible] def handleApi (T : Type) : Interface where
  Call := HandleCall T
  Answer
    | .recv => Option T
    | .onEvent _ => Unit
    | .awaitOnEvent => Unit

/-- How a task ends; `none` is one that has not ended when its fuel is used up. -/
abbrev Ended (E : Type) := Option (Except (Error E) Unit)

/-- The loop over the events of a block, which ends when the receiver is gone. -/
def sendAll : List (Except E T) → Prog (listenApi E D T) Unit
  | [] => return
  | .ok event :: rest => do
    if ← Prog.request (listenApi E D T) (.send event) then sendAll rest
  | .error e :: rest => do
    Prog.request (listenApi E D T) (.onError (.subxtRuntimeError e))
    sendAll rest

/-- The first task, for at most `fuel` blocks. -/
def listen (asEvent : AsEvent E D T) :
    Nat → Prog (listenApi E D T) (Ended E)
  | 0 => return none
  | fuel + 1 => do
    match ← Prog.request (listenApi E D T) .next with
    | some result =>
      sendAll (eventStream asEvent result)
      listen asEvent fuel
    | none => return some (.error .channelClosed)

/-- The task of `on_event_error`. -/
def listenErrors : Nat → Prog (listenApi E D T) (Ended E)
  | 0 => return none
  | fuel + 1 => do
    match ← Prog.request (listenApi E D T) .next with
    | some (.error err) =>
      Prog.request (listenApi E D T) (.onError (.subxtRuntimeError err))
      listenErrors fuel
    | some (.ok _) => listenErrors fuel
    | none => return some (.ok ())

/-- The second task, for at most `fuel` events. -/
def handle : Nat → Prog (handleApi T) (Ended E)
  | 0 => return none
  | fuel + 1 => do
    match ← Prog.request (handleApi T) .recv with
    | some event =>
      Prog.request (handleApi T) (.onEvent event)
      Prog.request (handleApi T) .awaitOnEvent
      handle fuel
    | none => return some (.error .channelClosed)

/-! ### The surroundings -/

def CHANNEL_CAPACITY : Nat := 32

/-- The items that the subscription has delivered and whether it has ended, the channel, and the
events and errors that the callbacks have been called with. -/
structure Channel (E D T : Type) where
  items : List (Item E D)
  ended : Bool
  queue : List T
  receiverGone : Bool
  passed : List T
  reported : List (Error E)

def Channel.start : Channel E D T := ⟨[], false, [], false, [], []⟩

/-- The sender is dropped when the subscription has ended; besides its capacity the channel has a
place for the sender. -/
def listenEnv : Prog.Env (listenApi E D T) (Channel E D T)
  | s, .next, r, s' =>
    s' = match r with
      | some item => { s with items := s.items ++ [item] }
      | none => { s with ended := true }
  | s, .send event, r, s' =>
    r = true ∧ s.queue.length ≤ CHANNEL_CAPACITY ∧ s' = { s with queue := s.queue ++ [event] } ∨
      r = false ∧ s.receiverGone = true ∧ s' = s
  | s, .onError e, _, s' => s' = { s with reported := s.reported ++ [e] }

def handleEnv : Prog.Env (handleApi T) (Channel E D T)
  | s, .recv, r, s' =>
    (∃ event rest, r = some event ∧ s.queue = event :: rest ∧ s' = { s with queue := rest }) ∨
      r = none ∧ s.queue = [] ∧ s.ended = true ∧ s' = { s with receiverGone := true }
  | s, .onEvent event, _, s' => s' = { s with passed := s.passed ++ [event] }
  | s, .awaitOnEvent, _, s' => s' = s

/-! ### What becomes of each event and each error -/

def events (stream : List (Except E T)) : List T := stream.filterMap Except.toOption

def errors (stream : List (Except E T)) : List (Error E) :=
  stream.filterMap fun x => match x with
    | .ok _ => none
    | .error e => some (.subxtRuntimeError e)

/-- The first task has `rest` of a block left to send, or has ended with the subscription. -/
def Listening (asEvent : AsEvent E D T) (rest : List (Except E T))
    (p : Prog (listenApi E D T) (Ended E)) (s : Channel E D T) : Prop :=
  (s.ended = false ∧ ∃ fuel, p = sendAll rest >>= fun _ => listen asEvent fuel) ∨
    rest = [] ∧ p = .pure (some (.error .channelClosed))

/-- The second task has taken `hand` from the queue and has not called back for it yet. -/
inductive Handling : List T → Prog (handleApi T) (Ended E) → Prop
  | waiting (fuel : Nat) : Handling [] (handle fuel)
  | received (event : T) (fuel : Nat) : Handling [event] (do
      Prog.request (handleApi T) (.onEvent event)
      Prog.request (handleApi T) .awaitOnEvent
      handle fuel)
  | calling (fuel : Nat) : Handling [] (do
      Prog.request (handleApi T) .awaitOnEvent
      handle fuel)
  | ended : Handling [] (.pure (some (.error .channelClosed)))

/-- Of the items delivered so far, the events of the type are, in their order, those that have been
passed to the callback, in its task's hand, queued and left to send, and the errors are those that
have been reported and those left to report. -/
structure Accounted (asEvent : AsEvent E D T) (rest : List (Except E T)) (hand : List T)
    (s : Channel E D T) : Prop where
  passed : s.items.flatMap (fun item => events (eventStream asEvent item)) =
    s.passed ++ hand ++ s.queue ++ events rest
  reported : s.items.flatMap (fun item => errors (eventStream asEvent item)) =
    s.reported ++ errors rest
  receiver : s.receiverGone = true → s.ended = true

/-- The second task ends when the subscription has and nothing is queued. -/
def EndsLast (q : Prog (handleApi T) (Ended E)) (s : Channel E D T) : Prop :=
  q = .pure (some (.error .channelClosed)) → s.ended = true ∧ s.queue = []

/-- Where the two tasks are. -/
def Running (asEvent : AsEvent E D T) (p : Prog (listenApi E D T) (Ended E))
    (q : Prog (handleApi T) (Ended E)) (s : Channel E D T) : Prop :=
  ∃ rest hand, Listening asEvent rest p s ∧ Handling hand q ∧ Accounted asEvent rest hand s ∧
    EndsLast q s

/-- The second task goes on without the first one and passes every event of the delivered blocks
that the first one has not left to send, unless its fuel is used up before. -/
def Passes (asEvent : AsEvent E D T) (p : Prog (listenApi E D T) (Ended E))
    (q : Prog (handleApi T) (Ended E)) (s : Channel E D T) : Prop :=
  ∃ rest q' s', Listening asEvent rest p s ∧ Prog.Runs handleEnv q s q' s' ∧ (q' = handle 0 ∨
    s.items.flatMap (fun item => events (eventStream asEvent item)) = s'.passed ++ events rest)

section Steps

variable {asEvent : AsEvent E D T} {s s' : Channel E D T}
variable {p : Prog (listenApi E D T) (Ended E)}
variable {q : Prog (handleApi T) (Ended E)}

/-- An item is delivered when nothing is left of the one before. -/
theorem Accounted.deliver {hand : List T} (h : Accounted asEvent [] hand s) (item : Item E D) :
    Accounted asEvent (eventStream asEvent item) hand { s with items := s.items ++ [item] } where
  passed := by
    rw [List.flatMap_append, List.flatMap_singleton, h.passed]
    simp [events]
  reported := by
    rw [List.flatMap_append, List.flatMap_singleton, h.reported]
    simp [errors]
  receiver := h.receiver

theorem Accounted.send {rest : List (Except E T)} {hand : List T} {event : T}
    (h : Accounted asEvent (.ok event :: rest) hand s) :
    Accounted asEvent rest hand { s with queue := s.queue ++ [event] } where
  passed := by
    rw [h.passed]
    simp [events, Except.toOption]
  reported := h.reported
  receiver := h.receiver

theorem Accounted.report {rest : List (Except E T)} {hand : List T} {e : E}
    (h : Accounted asEvent (.error e :: rest) hand s) :
    Accounted asEvent rest hand { s with reported := s.reported ++ [.subxtRuntimeError e] } where
  passed := h.passed
  reported := by
    rw [h.reported]
    simp [errors]
  receiver := h.receiver

theorem Accounted.receive {rest : List (Except E T)} {event : T} {queue : List T}
    (h : Accounted asEvent rest [] s) (hqueue : s.queue = event :: queue) :
    Accounted asEvent rest [event] { s with queue } where
  passed := by
    rw [h.passed, hqueue]
    simp
  reported := h.reported
  receiver := h.receiver

theorem Accounted.pass {rest : List (Except E T)} {event : T}
    (h : Accounted asEvent rest [event] s) :
    Accounted asEvent rest [] { s with passed := s.passed ++ [event] } where
  passed := by
    rw [h.passed, List.append_nil]
  reported := h.reported
  receiver := h.receiver

theorem Running.listen {c : ListenCall E T}
    {next : (listenApi E D T).Answer c → Prog (listenApi E D T) (Ended E)}
    {r : (listenApi E D T).Answer c} (h : Running asEvent (.call c next) q s)
    (hr : listenEnv s c r s') : Running asEvent (next r) q s' := by
  obtain ⟨rest, hand, hlistening, hhandling, haccounted, hlast⟩ := h
  obtain ⟨hended, fuel, hp⟩ | ⟨-, hp⟩ := hlistening
  · have hgoes : q ≠ .pure (some (.error .channelClosed)) := fun hq =>
      Bool.false_ne_true (hended.symm.trans (hlast hq).1)
    cases rest with
    | nil =>
      -- the loop waits for the next item, with nothing left of the last one
      cases fuel with
      | zero => cases hp
      | succ fuel =>
        cases hp
        cases r with
        | none =>
          cases hr
          exact ⟨[], hand, .inr ⟨rfl, rfl⟩, hhandling,
            ⟨haccounted.passed, haccounted.reported, fun _ => rfl⟩, fun hq => absurd hq hgoes⟩
        | some item =>
          cases hr
          exact ⟨eventStream asEvent item, hand, .inl ⟨hended, fuel, rfl⟩, hhandling,
            haccounted.deliver item, fun hq => absurd hq hgoes⟩
    | cons x rest =>
      cases x with
      | ok event =>
        cases hp
        obtain ⟨rfl, -, rfl⟩ | ⟨-, hgone, -⟩ := hr
        · exact ⟨rest, hand, .inl ⟨hended, fuel, rfl⟩, hhandling, haccounted.send,
            fun hq => absurd hq hgoes⟩
        · exact absurd (haccounted.receiver hgone) (by rw [hended]; decide)
      | error e =>
        cases hp
        cases hr
        exact ⟨rest, hand, .inl ⟨hended, fuel, rfl⟩, hhandling, haccounted.report,
          fun hq => absurd hq hgoes⟩
  · cases hp

theorem Running.handle {c : HandleCall T}
    {next : (handleApi T).Answer c → Prog (handleApi T) (Ended E)}
    {r : (handleApi T).Answer c} (h : Running asEvent p (.call c next) s)
    (hr : handleEnv s c r s') : Running asEvent p (next r) s' := by
  obtain ⟨rest, hand, hlistening, hhandling, haccounted, -⟩ := h
  generalize hq : (Prog.call c next : Prog (handleApi T) _) = q at hhandling
  cases hhandling with
  | waiting fuel =>
    cases fuel with
    | zero => cases hq
    | succ fuel =>
      cases hq
      obtain ⟨event, queue, rfl, hqueue, rfl⟩ | ⟨rfl, hqueue, hended, rfl⟩ := hr
      · exact ⟨rest, [event], hlistening, .received event fuel, haccounted.receive hqueue, nofun⟩
      · exact ⟨rest, [], hlistening, .ended,
          ⟨haccounted.passed, haccounted.reported, fun _ => hended⟩, fun _ => ⟨hended, hqueue⟩⟩
  | received event fuel =>
    cases hq
    cases hr
    exact ⟨rest, [], hlistening, .calling fuel, haccounted.pass, nofun⟩
  | calling fuel =>
    cases hq
    cases hr
    refine ⟨rest, [], hlistening, .waiting fuel, haccounted, fun hq => ?_⟩
    cases fuel <;> cases hq
  | ended => cases hq

/-! ### The second task on its own -/

/-- A task that waits takes the events from the queue and passes them. -/
theorem handle_drains (fuel : Nat) (s : Channel E D T) :
    ∃ q' s', Prog.Runs handleEnv (handle (E := E) fuel) s q' s' ∧
      (q' = handle 0 ∨ s'.passed = s.passed ++ s.queue) := by
  induction fuel generalizing s with
  | zero => exact ⟨_, s, .refl _ _, .inl rfl⟩
  | succ fuel ih =>
    cases hqueue : s.queue with
    | nil => exact ⟨_, s, .refl _ _, .inr (List.append_nil _).symm⟩
    | cons event queue =>
      obtain ⟨q', s', hruns, hpassed⟩ := ih { s with queue, passed := s.passed ++ [event] }
      have hrecv : handleEnv s .recv (some event) { s with queue } :=
        .inl ⟨event, queue, rfl, hqueue, rfl⟩
      refine ⟨q', s', .step hrecv (.step (r := ()) rfl (.step (r := ()) rfl hruns)),
        hpassed.imp_right fun h => ?_⟩
      rw [h, List.append_assoc, List.singleton_append]

theorem Handling.drains {hand : List T} (h : Handling hand q) (hlast : EndsLast q s) :
    ∃ q' s', Prog.Runs handleEnv q s q' s' ∧
      (q' = handle 0 ∨ s'.passed = s.passed ++ hand ++ s.queue) := by
  cases h with
  | waiting fuel =>
    rw [List.append_nil]
    exact handle_drains fuel s
  | received event fuel =>
    obtain ⟨q', s', hruns, hpassed⟩ :=
      handle_drains fuel { s with passed := s.passed ++ [event] }
    exact ⟨q', s', .step (r := ()) rfl (.step (r := ()) rfl hruns), hpassed⟩
  | calling fuel =>
    obtain ⟨q', s', hruns, hpassed⟩ := handle_drains fuel s
    rw [List.append_nil]
    exact ⟨q', s', .step (r := ()) rfl hruns, hpassed⟩
  | ended =>
    refine ⟨_, s, .refl _ _, .inr ?_⟩
    rw [(hlast rfl).2, List.append_nil, List.append_nil]

theorem Running.passes (h : Running asEvent p q s) : Passes asEvent p q s := by
  obtain ⟨rest, hand, hlistening, hhandling, haccounted, hlast⟩ := h
  obtain ⟨q', s', hruns, hpassed⟩ := hhandling.drains hlast
  refine ⟨rest, q', s', hlistening, hruns, hpassed.imp_right fun h => ?_⟩
  rw [haccounted.passed, h]

/-! ### The task of the errors -/

/-- The task of `on_event_error` has `rest` left to report. -/
inductive Reporting : List (Error E) → Prog (listenApi E D T) (Ended E) → Prop
  | waiting (fuel : Nat) : Reporting [] (listenErrors fuel)
  | received (e : Error E) (fuel : Nat) : Reporting [e] (do
      Prog.request (listenApi E D T) (.onError e)
      listenErrors fuel)
  | ended : Reporting [] (.pure (some (.ok ())))

theorem Reporting.step {rest : List (Error E)} {c : ListenCall E T}
    {next : (listenApi E D T).Answer c → Prog (listenApi E D T) (Ended E)}
    {r : (listenApi E D T).Answer c} (h : Reporting rest (.call c next))
    (hs : errors s.items = s.reported ++ rest) (hr : listenEnv s c r s') :
    ∃ rest', Reporting rest' (next r) ∧ errors s'.items = s'.reported ++ rest' := by
  generalize hp : (Prog.call c next : Prog (listenApi E D T) _) = p at h
  cases h with
  | waiting fuel =>
    cases fuel with
    | zero => cases hp
    | succ fuel =>
      cases hp
      rcases r with _ | e | block
      · cases hr
        exact ⟨[], .ended, hs⟩
      · cases hr
        refine ⟨[.subxtRuntimeError e], .received _ fuel, ?_⟩
        simpa [errors] using hs
      · cases hr
        refine ⟨[], .waiting fuel, ?_⟩
        simpa [errors] using hs
  | received e fuel =>
    cases hp
    cases hr
    refine ⟨[], .waiting fuel, ?_⟩
    rw [hs, List.append_nil]
  | ended => cases hp

theorem Reporting.runs {p' : Prog (listenApi E D T) (Ended E)}
    (hruns : Prog.Runs listenEnv p s p' s') {rest : List (Error E)} (h : Reporting rest p)
    (hs : errors s.items = s.reported ++ rest) :
    ∃ rest', Reporting rest' p' ∧ errors s'.items = s'.reported ++ rest' := by
  induction hruns generalizing rest with
  | refl => exact ⟨rest, h, hs⟩
  | step hr _ ih =>
    obtain ⟨rest', h', hs'⟩ := h.step hs hr
    exact ih h' hs'

end Steps

/-- Whatever the subscriptions deliver and however the tasks are scheduled: every event of the type
in a delivered block is passed to the callback once and in order, which nothing but the first task
keeps the second one from, every event that is not decoded is reported once, and the blocks that
could not be fetched are reported by `on_event_error` alone. -/
theorem running_of_interleaves (asEvent : AsEvent E D T) {fuel fuel' fuel'' : Nat}
    {p p' : Prog (listenApi E D T) (Ended E)}
    {q : Prog (handleApi T) (Ended E)} {s s' : Channel E D T}
    (hruns : Prog.Interleaves listenEnv handleEnv (fun _ _ => False) (listen asEvent fuel)
      (handle fuel') Channel.start p q s)
    (hruns' : Prog.Runs listenEnv (listenErrors fuel'') Channel.start p' s') :
    Running asEvent p q s ∧ Passes asEvent p q s ∧
      ∃ rest, Reporting rest p' ∧ errors s'.items = s'.reported ++ rest := by
  have hstart : Running asEvent (listen asEvent fuel) (handle fuel') Channel.start :=
    ⟨[], [], .inl ⟨rfl, fuel, rfl⟩, .waiting fuel', ⟨rfl, rfl, nofun⟩,
      fun hq => by cases fuel' <;> cases hq⟩
  have hrunning : Running asEvent p q s :=
    hruns.inv (fun h hr => h.listen hr) (fun h hr => h.handle hr) (fun _ h => h.elim) hstart
  exact ⟨hrunning, hrunning.passes, Reporting.runs hruns' (.waiting fuel'') rfl⟩

/-! ### A block that is not fetched -/

/-- Events 1 are of the type, events 3 do not decode. -/
def asOne (d : Nat) : Except String (Option Nat) :=
  if d = 1 then .ok (some 1) else if d = 3 then .error "malformed event" else .ok none

/-- A block with events that are not decoded, a block that is not fetched and another block. -/
def threeItems : List (Item String Nat) :=
  [.ok [.ok 1, .ok 2, .error "malformed raw event", .ok 3, .ok 1], .error "block not found",
    .ok [.ok 1]]

def serveItems (s : Channel String Nat Nat) :
    (call : ListenCall String Nat) →
      Option ((listenApi String Nat Nat).Answer call × Channel String Nat Nat)
  | .next => (threeItems[s.items.length]?).map fun item =>
      (some item, { s with items := s.items ++ [item] })
  | .send event => if s.queue.length ≤ CHANNEL_CAPACITY then
      some (true, { s with queue := s.queue ++ [event] }) else none
  | .onError e => some ((), { s with reported := s.reported ++ [e] })

def serveQueue (s : Channel String Nat Nat) :
    (call : HandleCall Nat) → Option ((handleApi Nat).Answer call × Channel String Nat Nat)
  | .recv => s.queue.head?.map fun event => (some event, { s with queue := s.queue.tail })
  | .onEvent event => some ((), { s with passed := s.passed ++ [event] })
  | .awaitOnEvent => some ((), s)

theorem listenEnv_serveItems {s s' : Channel String Nat Nat} {call : ListenCall String Nat}
    {r : (listenApi String Nat Nat).Answer call} (h : serveItems s call = some (r, s')) :
    listenEnv s call r s' := by
  cases call with
  | next =>
    obtain ⟨item, -, h⟩ := Option.map_eq_some_iff.mp h
    cases h
    rfl
  | send event =>
    dsimp only [serveItems] at h
    split at h
    next hroom =>
      cases h
      exact .inl ⟨rfl, hroom, rfl⟩
    next => cases h
  | onError e =>
    cases h
    rfl

theorem handleEnv_serveQueue {s s' : Channel String Nat Nat} {call : HandleCall Nat}
    {r : (handleApi Nat).Answer call} (h : serveQueue s call = some (r, s')) :
    handleEnv s call r s' := by
  cases call with
  | recv =>
    obtain ⟨event, hhead, h⟩ := Option.map_eq_some_iff.mp h
    cases h
    obtain ⟨rest, hqueue⟩ := List.head?_eq_some_iff.mp hhead
    exact .inl ⟨event, rest, rfl, hqueue, by rw [hqueue, List.tail_cons]⟩
  | _ =>
    cases h
    rfl

/-- The tasks of `on_event` after some turns. -/
abbrev after (turns : List (Prog.Turn (Channel String Nat Nat))) :
    Prog (listenApi String Nat Nat) (Ended String) × Prog (handleApi Nat) (Ended String) ×
      Channel String Nat Nat :=
  Prog.play serveItems serveQueue turns (listen asOne 4, handle 4, Channel.start)

theorem interleaves_after {turns : List (Prog.Turn (Channel String Nat Nat))}
    (hturns : ∀ move, .other move ∉ turns) :
    Prog.Interleaves listenEnv handleEnv (fun _ _ => False) (listen asOne 4) (handle 4)
      Channel.start (after turns).1 (after turns).2.1 (after turns).2.2 :=
  Prog.interleaves_play listenEnv_serveItems handleEnv_serveQueue
    (fun move hmove => absurd hmove (hturns move)) _ _ _

/-- The first task takes two items. -/
def firstTask : List (Prog.Turn (Channel String Nat Nat)) := List.replicate 6 .left

theorem interleaves_firstTask :
    Prog.Interleaves listenEnv handleEnv (fun _ _ => False) (listen asOne 4) (handle 4)
      Channel.start (after firstTask).1 (after firstTask).2.1 (after firstTask).2.2 :=
  interleaves_after fun move hmove => by cases List.eq_of_mem_replicate hmove

/-- The first task waits for the next item, and the block that could not be fetched has not been
reported. -/
theorem unreported_of_error : ∃ (p : Prog (listenApi String Nat Nat) (Ended String))
    (q : Prog (handleApi Nat) (Ended String)) (s : Channel String Nat Nat),
    Prog.Interleaves listenEnv handleEnv (fun _ _ => False) (listen asOne 4) (handle 4)
        Channel.start p q s ∧ p = listen asOne 2 ∧
      .error "block not found" ∈ s.items ∧ .subxtRuntimeError "block not found" ∉ s.reported :=
  ⟨_, _, _, interleaves_firstTask, rfl, List.mem_cons_of_mem _ List.mem_cons_self, by decide⟩

/-- The subscription of `on_event_error`, which has delivered the same two items. -/
def errorsOfTwo : Channel String Nat Nat :=
  { (Channel.start : Channel String Nat Nat) with
    items := threeItems.take 2
    reported := [.subxtRuntimeError "block not found"] }

theorem runs_errorsOfTwo :
    Prog.Runs listenEnv (listenErrors 2) Channel.start (listenErrors 0) errorsOfTwo :=
  .step (r := threeItems[0]?) rfl
    (.step (r := threeItems[1]?) rfl (.step (r := ()) rfl (.refl _ _)))

/-- The second task passes the first event of the block. -/
def bothTasks : List (Prog.Turn (Channel String Nat Nat)) :=
  firstTask ++ List.replicate 3 .right

theorem running_of_interleaves_bothTasks :
    (after bothTasks).2.2.passed = [1] ∧ (after bothTasks).2.2.queue = [1] ∧
      Running asOne (after bothTasks).1 (after bothTasks).2.1 (after bothTasks).2.2 ∧
      Passes asOne (after bothTasks).1 (after bothTasks).2.1 (after bothTasks).2.2 ∧
      ∃ rest, Reporting rest (listenErrors 0 : Prog (listenApi String Nat Nat) (Ended String)) ∧
        errors errorsOfTwo.items = errorsOfTwo.reported ++ rest := by
  refine ⟨rfl, rfl, running_of_interleaves asOne (interleaves_after fun move hmove => ?_)
    runs_errorsOfTwo⟩
  rcases List.mem_append.mp hmove with hmove | hmove <;> cases List.eq_of_mem_replicate hmove

end InterBtcClients.Runtime.Events
