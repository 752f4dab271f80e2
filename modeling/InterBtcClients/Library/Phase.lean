import InterBtcClients.Library.Join
import InterBtcClients.Library.Log

/-! The phases of a program that is held to a policy.  During a phase several programs are run at
once; all that they call is of one kind, so that what has been answered since the last event of
another kind is what the phase has learned. -/

namespace InterBtcClients.Library.Prog

variable {F G : Interface} {A B E X : Type}

/-- Surroundings of which is known what they can answer after the events so far. -/
def recorded (possible : List (Event F) → Event F → Prop) : Env F (List (Event F)) :=
  fun log c r log' => possible log ⟨c, r⟩ ∧ log' = log ++ [⟨c, r⟩]

/-- What each event that is possible keeps holds after any number of restarts. -/
theorem Restarts.recorded {possible : List (Event F) → Event F → Prop} {I : List (Event F) → Prop}
    {p : Prog F A} {log log' : List (Event F)}
    (hevent : ∀ log e, I log → possible log e → I (log ++ [e])) (hlog : I log)
    (h : Restarts (recorded possible) p log log') : I log' := by
  have hruns {p p' : Prog F A} {log log' : List (Event F)}
      (hrun : Runs (Prog.recorded possible) p log p' log') (hlog : I log) : I log' := by
    induction hrun with
    | refl => exact hlog
    | step hr _ ih =>
      obtain ⟨hpossible, rfl⟩ := hr
      exact ih (hevent _ _ hlog hpossible)
  induction h with
  | refl => exact hlog
  | next _ hrun ih => exact hruns hrun ih

structure Phase (F G : Interface) where
  on : F.Call → G.Call
  answer : (c : F.Call) → G.Answer (on c) → F.Answer c
  kind : Event G → Bool
  kind_on : ∀ c r, kind ⟨on c, r⟩ = true

namespace Phase

variable (phase : Phase F G) (policy : List (Event G) → G.Call → Prop)
variable (possible : List (Event G) → Event G → Prop)

def env : Env F (List (Event G)) := partEnv phase.on phase.answer (recorded possible)

/-- What the other programs of a phase do. -/
def Grows (log log' : List (Event G)) : Prop :=
  ∃ events, log' = log ++ events ∧ (∀ e ∈ events, phase.kind e = true) ∧
    (Obeys policy log → Obeys policy log')

/-- Run among the others, the program keeps to the policy and leads to `Q`. -/
abbrev Meets (p : Prog F A) (Q : A → List (Event G) → Prop) (log : List (Event G)) : Prop :=
  Keeps (interfere (phase.Grows policy) (phase.env possible)) (Obeys policy) p Q log

/-- A program that ends with a result leads to `P`. -/
abbrev Ensures (p : ExceptT E (Prog F) A) (P : A → List (Event G) → Prop)
    (log : List (Event G)) : Prop :=
  phase.Meets policy possible p.run (fun r log => ∀ a, r = .ok a → P a log) log

variable {phase policy possible} {log log' log'' : List (Event G)}

theorem Grows.refl (log : List (Event G)) : phase.Grows policy log log :=
  ⟨[], (List.append_nil log).symm, fun _ h => absurd h List.not_mem_nil, id⟩

theorem Grows.trans (h : phase.Grows policy log log') (h' : phase.Grows policy log' log'') :
    phase.Grows policy log log'' := by
  obtain ⟨events, rfl, hkind, hobeys⟩ := h
  obtain ⟨events', rfl, hkind', hobeys'⟩ := h'
  refine ⟨events ++ events', List.append_assoc .., fun e he => ?_, hobeys' ∘ hobeys⟩
  rcases List.mem_append.mp he with he | he
  · exact hkind e he
  · exact hkind' e he

theorem Grows.obeys (h : phase.Grows policy log log') (hlog : Obeys policy log) :
    Obeys policy log' := by
  obtain ⟨-, -, -, hobeys⟩ := h
  exact hobeys hlog

theorem Grows.answered (h : phase.Grows policy log log') {c : G.Call} {r : G.Answer c}
    (hanswered : AnsweredSince phase.kind log c r) : AnsweredSince phase.kind log' c r := by
  obtain ⟨events, rfl, hkind, -⟩ := h
  exact hanswered.append hkind

theorem Grows.subset (h : phase.Grows policy log log') : log ⊆ log' := by
  obtain ⟨events, rfl, -⟩ := h
  exact List.subset_append_left log events

theorem grows_concat (c : F.Call) (r : G.Answer (phase.on c))
    (hobeys : Obeys policy (log ++ [⟨phase.on c, r⟩])) :
    phase.Grows policy log (log ++ [⟨phase.on c, r⟩]) := by
  refine ⟨_, rfl, fun e he => ?_, fun _ => hobeys⟩
  cases List.mem_singleton.mp he
  exact phase.kind_on c r

theorem shares : Shares (phase.Grows policy) (phase.env possible) (Obeys policy) where
  refl := Grows.refl
  trans := Grows.trans
  inv _ _ := Grows.obeys
  step {log c r log'} _ hanswer hobeys := by
    obtain ⟨r', rfl, -, rfl⟩ := hanswer
    exact grows_concat c r' hobeys

theorem stable_grows (log : List (Event G)) :
    Stable (phase.Grows policy) (phase.Grows policy log) :=
  fun _ _ h h' => h'.trans h

theorem stable_ok {P : A → List (Event G) → Prop}
    (hP : ∀ a, Stable (phase.Grows policy) (P a)) (r : Except E A) :
    Stable (phase.Grows policy) fun log => ∀ a, r = .ok a → P a log :=
  fun log log' hgrows h a ha => hP a log log' hgrows (h a ha)

theorem meets_request {c : F.Call} {Q : F.Answer c → List (Event G) → Prop}
    (hlog : Obeys policy log)
    (hcall : ∀ log', phase.Grows policy log log' → policy log' (phase.on c))
    (hQ : ∀ log' log'' r, phase.Grows policy log log' → possible log' ⟨phase.on c, r⟩ →
      log'' = log' ++ [⟨phase.on c, r⟩] → phase.Grows policy log log'' →
      AnsweredSince phase.kind log'' (phase.on c) r → Q (phase.answer c r) log'') :
    phase.Meets policy possible (request F c) Q log := by
  refine keeps_request.mpr ⟨hlog, fun a log'' hr => ?_⟩
  obtain ⟨log', hgrows, r, rfl, hpossible, rfl⟩ := hr
  have hobeys : Obeys policy (log' ++ [⟨phase.on c, r⟩]) :=
    obeys_concat.mpr ⟨hgrows.obeys hlog, hcall log' hgrows⟩
  exact ⟨hobeys, hQ log' _ r hgrows hpossible rfl (hgrows.trans (grows_concat c r hobeys))
    (answeredSince_concat (phase.kind_on c r))⟩

theorem meets_turn {c : F.Call} (hcall : ∀ log, policy log (phase.on c)) (log : List (Event G))
    (hlog : Obeys policy log) :
    phase.Meets policy possible (request F c) (fun _ => phase.Grows policy log) log :=
  meets_request hlog (fun log' _ => hcall log') fun _ _ _ _ _ _ hgrows _ => hgrows

/-! ### Programs that can fail -/

section Rules

variable {p : ExceptT E (Prog F) A} {P : A → List (Event G) → Prop}
variable {Q : B → List (Event G) → Prop}

theorem ensures_pure {a : A} (hlog : Obeys policy log) (h : P a log) :
    phase.Ensures policy possible (Pure.pure a : ExceptT E (Prog F) A) P log := by
  refine keeps_run_pure.mpr ⟨hlog, fun a' ha => ?_⟩
  cases ha
  exact h

theorem ensures_throw {e : E} (hlog : Obeys policy log) :
    phase.Ensures policy possible (throw e : ExceptT E (Prog F) A) P log :=
  ⟨hlog, fun _ h => by cases h⟩

theorem ensures_bind {f : A → ExceptT E (Prog F) B} (hp : phase.Ensures policy possible p P log)
    (hf : ∀ a log', Obeys policy log' → phase.Grows policy log log' → P a log' →
      phase.Ensures policy possible (f a) Q log') :
    phase.Ensures policy possible (p >>= f) Q log := by
  refine keeps_run_bind.mpr ((shares.frame (stable_grows log) hp (Grows.refl log)).mono
    fun r log' hlog' hr => ?_)
  cases r with
  | ok a => exact hf a log' hlog' hr.2 (hr.1 a rfl)
  | error e => exact fun _ h => by cases h

theorem ensures_mono {P' : A → List (Event G) → Prop}
    (hp : phase.Ensures policy possible p P log) (h : ∀ a log', P a log' → P' a log') :
    phase.Ensures policy possible p P' log :=
  hp.mono fun _ log' _ hr a ha => h a log' (hr a ha)

/-- What has been answered before the program stays so. -/
theorem Ensures.grows (hp : phase.Ensures policy possible p P log) :
    phase.Ensures policy possible p (fun a log' => P a log' ∧ phase.Grows policy log log') log :=
  (shares.frame (stable_grows log) hp (Grows.refl log)).mono
    fun _ _ _ hr a ha => ⟨hr.1 a ha, hr.2⟩

theorem ensures_ofExcept {x : Except E A} (hlog : Obeys policy log)
    (h : ∀ a, x = .ok a → P a log) : phase.Ensures policy possible (ofExcept x) P log :=
  keeps_run_ofExcept.mpr ⟨hlog, h⟩

theorem ensures_lift {p : Prog F A} (h : phase.Meets policy possible p P log) :
    phase.Ensures policy possible (ExceptT.lift p : ExceptT E (Prog F) A) P log := by
  refine keeps_run_lift.mpr (h.mono fun a log' _ ha a' heq => ?_)
  cases heq
  exact ha

/-- A call whose errors are some of the program's. -/
theorem ensures_mapError {E' : Type} {f : E' → E} {p : Prog F (Except E' A)}
    (h : phase.Meets policy possible p (fun r log => ∀ a, r = .ok a → P a log) log) :
    phase.Ensures policy possible (ExceptT.mk (Except.mapError f <$> p)) P log :=
  keeps_map.mpr (h.mono fun _ _ _ hr a ha => hr a (mapError_eq_ok ha))

theorem ensures_adapt {E' : Type} {f : E → E'} (hp : phase.Ensures policy possible p P log) :
    phase.Ensures policy possible (ExceptT.adapt f p) P log :=
  ensures_mapError hp

theorem ensures_mapM {f : X → ExceptT E (Prog F) A} {P : X → A → List (Event G) → Prop}
    (hP : ∀ x a, Stable (phase.Grows policy) (P x a)) (hlog : Obeys policy log) {xs : List X}
    (hf : ∀ x log', Obeys policy log' → phase.Grows policy log log' →
      phase.Ensures policy possible (f x) (P x) log') :
    phase.Ensures policy possible (xs.mapM f)
      (fun as log => List.Forall₂ (fun x a => P x a log) xs as) log := by
  induction xs generalizing log with
  | nil => exact ensures_pure hlog .nil
  | cons x xs ih =>
    rw [List.mapM_cons]
    refine ensures_bind (hf x log hlog (Grows.refl log)) fun a log₁ hlog₁ hgrows ha => ?_
    refine ensures_bind (ih hlog₁ fun y log₂ hlog₂ hgrows' =>
      hf y log₂ hlog₂ (hgrows.trans hgrows')) fun as log₂ hlog₂ hgrows' has => ?_
    exact ensures_pure hlog₂ (.cons (hP x a _ _ hgrows' ha) has)

/-- The programs are run at once. -/
theorem ensures_tryJoinAll {turn : Prog F Bool} {f : X → ExceptT E (Prog F) A}
    {P : X → A → List (Event G) → Prop}
    (hturn : ∀ log, Obeys policy log →
      phase.Meets policy possible turn (fun _ => phase.Grows policy log) log)
    (hP : ∀ x a, Stable (phase.Grows policy) (P x a)) (hlog : Obeys policy log) {xs : List X}
    (hf : ∀ x ∈ xs, phase.Ensures policy possible (f x) (P x) log) :
    phase.Ensures policy possible (tryJoinAll turn (xs.map f))
      (fun as log => List.Forall₂ (fun x a => P x a log) xs as) log :=
  shares.keeps_tryJoinAll hturn hP hlog hf

theorem ensures_map {f : A → B} (hp : phase.Ensures policy possible p (fun a => Q (f a)) log) :
    phase.Ensures policy possible (f <$> p) Q log := by
  refine keeps_run_map.mpr (hp.mono fun r log' _ hr b hb => ?_)
  obtain ⟨a, ha, rfl⟩ := map_eq_ok hb
  exact hr a ha

/-- Calls that are always allowed. -/
theorem ensures_of_free (hfree : ∀ log c, policy log (phase.on c)) (hlog : Obeys policy log) :
    phase.Ensures policy possible p (fun _ _ => True) log := by
  have hkeeps {X : Type} (p : Prog F X) : ∀ {log : List (Event G)}, Obeys policy log →
      phase.Meets policy possible p (fun _ _ => True) log := by
    induction p with
    | pure a => exact fun hlog => ⟨hlog, trivial⟩
    | call c next ih =>
      refine fun hlog => ⟨hlog, fun r log' hr => ih r ?_⟩
      obtain ⟨log₁, hgrows, a, rfl, -, rfl⟩ := hr
      exact obeys_concat.mpr ⟨hgrows.obeys hlog, hfree log₁ c⟩
  exact (hkeeps p.run hlog).mono fun _ _ _ _ _ _ => trivial

theorem ensures_iterate {body : X → ExceptT E (Prog F) (X ⊕ A)}
    (hbody : ∀ x log', Obeys policy log' → phase.Grows policy log log' →
      phase.Ensures policy possible (body x) (fun r log => ∀ a, r = .inr a → P a log) log')
    (hlog : Obeys policy log) (fuel : Nat) (x : X) :
    phase.Ensures policy possible (iterate body fuel x) (fun r log => ∀ a, r = some a → P a log)
      log := by
  induction fuel generalizing x log with
  | zero => exact ensures_pure hlog fun _ h => by cases h
  | succ fuel ih =>
    rw [iterate_succ]
    refine ensures_bind (hbody x log hlog (Grows.refl log)) fun r log' hlog' hgrows hr => ?_
    cases r with
    | inl x =>
      exact ih (fun y log'' hlog'' hgrows' => hbody y log'' hlog'' (hgrows.trans hgrows')) hlog' x
    | inr a =>
      refine ensures_pure hlog' fun a' ha => ?_
      cases ha
      exact hr a rfl

theorem ensures_tryJoin {turn : Prog F Bool} {p : ExceptT E (Prog F) A} {q : ExceptT E (Prog F) B}
    (hturn : ∀ log, Obeys policy log →
      phase.Meets policy possible turn (fun _ => phase.Grows policy log) log)
    (hP : ∀ a, Stable (phase.Grows policy) (P a)) (hQ : ∀ b, Stable (phase.Grows policy) (Q b))
    (hp : phase.Ensures policy possible p P log) (hq : phase.Ensures policy possible q Q log) :
    phase.Ensures policy possible (ExceptT.mk (tryJoin turn p.run q.run))
      (fun x log => P x.1 log ∧ Q x.2 log) log :=
  shares.keeps_tryJoin hturn hP hQ hp hq

end Rules

end Phase

end InterBtcClients.Library.Prog
