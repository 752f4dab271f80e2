/-! Programs that call their surroundings and wait for the answers, with the runs that they have
when they may be cut off at any call, and a Hoare logic for these runs: `Keeps` is the condition
under which a program keeps an invariant of the surroundings at every call and returns with a
postcondition.  A program that fails is one in `ExceptT`. -/

namespace InterBtcClients.Library

/-- The calls that a program can make and the type of the answer to each. -/
structure Interface where
  Call : Type
  Answer : Call → Type

inductive Prog (F : Interface) (A : Type)
  | pure (a : A)
  | call (c : F.Call) (next : F.Answer c → Prog F A)

namespace Prog

variable {F : Interface} {A B X E S : Type}

def bind : Prog F A → (A → Prog F B) → Prog F B
  | .pure a, f => f a
  | .call c next, f => .call c fun r => (next r).bind f

instance : Monad (Prog F) where
  pure := Prog.pure
  bind := Prog.bind

theorem bind_assoc (p : Prog F A) (f : A → Prog F B) (g : B → Prog F X) :
    (p.bind f).bind g = p.bind fun a => (f a).bind g := by
  induction p with
  | pure a => rfl
  | call c next ih => exact congrArg (Prog.call c) (funext ih)

instance : LawfulMonad (Prog F) := LawfulMonad.mk' (Prog F)
  (fun p => by
    induction p with
    | pure a => rfl
    | call c next ih => exact congrArg (Prog.call c) (funext ih))
  (fun _ _ => rfl) bind_assoc

/-- One call, returning its answer. -/
def request (F : Interface) (c : F.Call) : Prog F (F.Answer c) := .call c .pure

/-- A loop of at most `fuel` rounds: a round ends with the state of the next one or with a result.
`none` is a loop that has not ended. -/
def iterate {M : Type → Type} [Monad M] (body : X → M (X ⊕ A)) : Nat → X → M (Option A)
  | 0, _ => Pure.pure none
  | fuel + 1, x => do
    match ← body x with
    | .inl x => iterate body fuel x
    | .inr a => return some a

theorem iterate_succ {M : Type → Type} [Monad M] {body : X → M (X ⊕ A)} (fuel : Nat) (x : X) :
    iterate body (fuel + 1) x =
      body x >>= Sum.elim (iterate body fuel) fun a => Pure.pure (some a) := by
  rw [iterate]
  congr 1
  funext y
  cases y with
  | inl x => rfl
  | inr a => rfl

/-- A program that is tried again after a failure, up to `retries` times. -/
def retry {E : Type} (p : ExceptT E (Prog F) A) : Nat → ExceptT E (Prog F) A
  | 0 => p
  | retries + 1 => tryCatch p fun _ => retry p retries

/-- A result that needs no call. -/
def ofExcept {E : Type} (x : Except E A) : ExceptT E (Prog F) A := ExceptT.mk (Pure.pure x)

/-- Surroundings with states in `S`: `env s c r s'` when the call `c` in `s` can be answered with
`r`, leading to `s'`. -/
abbrev Env (F : Interface) (S : Type) := S → (c : F.Call) → F.Answer c → S → Prop

/-- `p` from `s` can get to where `p'` is left to run, in `s'`. -/
inductive Runs (env : Env F S) : Prog F A → S → Prog F A → S → Prop
  | refl (p : Prog F A) (s : S) : Runs env p s p s
  | step {c : F.Call} {next : F.Answer c → Prog F A} {r : F.Answer c} {s s' s'' : S}
      {p : Prog F A} : env s c r s' → Runs env (next r) s' p s'' →
      Runs env (.call c next) s p s''

/-- `p` has been started any number of times, each time to be cut off at some call or to return. -/
inductive Restarts (env : Env F S) (p : Prog F A) : S → S → Prop
  | refl (s : S) : Restarts env p s s
  | next {s s' s'' : S} {p' : Prog F A} : Restarts env p s s' → Runs env p s' p' s'' →
      Restarts env p s s''

/-- The run in which `handle` answers the calls. -/
def exec (handle : S → (c : F.Call) → F.Answer c × S) : Prog F A → S → A × S
  | .pure a, s => (a, s)
  | .call c next, s => exec handle (next (handle s c).1) (handle s c).2

/-- The result in surroundings that do not change, in which `answer` answers the calls. -/
def eval (answer : (c : F.Call) → F.Answer c) : Prog F A → A
  | .pure a => a
  | .call c next => eval answer (next (answer c))

/-- From `s`, `p` keeps `I` at every call and returns with `Q`. -/
def Keeps (env : Env F S) (I : S → Prop) : Prog F A → (A → S → Prop) → S → Prop
  | .pure a, Q, s => I s ∧ Q a s
  | .call c next, Q, s => I s ∧ ∀ r s', env s c r s' → Keeps env I (next r) Q s'

/-- Every call that `p` makes meets `P`. -/
def Only (P : F.Call → Prop) : Prog F A → Prop
  | .pure _ => True
  | .call c next => P c ∧ ∀ r, Only P (next r)

theorem only_bind {P : F.Call → Prop} {p : Prog F A} {f : A → Prog F B} (hp : Only P p)
    (hf : ∀ a, Only P (f a)) : Only P (p >>= f) := by
  induction p with
  | pure a => exact hf a
  | call c next ih => exact ⟨hp.1, fun r => ih r (hp.2 r)⟩

theorem only_run_bind {P : F.Call → Prop} {p : ExceptT E (Prog F) A}
    {f : A → ExceptT E (Prog F) B} (hp : Only P (ExceptT.run p))
    (hf : ∀ a, Only P (ExceptT.run (f a))) : Only P (ExceptT.run (p >>= f)) := by
  refine only_bind hp fun r => ?_
  cases r with
  | ok a => exact hf a
  | error e => trivial

theorem only_run_lift {P : F.Call → Prop} {p : Prog F A} (hp : Only P p) :
    Only P (ExceptT.run (ExceptT.lift p : ExceptT E (Prog F) A)) :=
  only_bind hp fun _ => trivial

theorem only_run_tryCatch {P : F.Call → Prop} {p : ExceptT E (Prog F) A}
    {handle : E → ExceptT E (Prog F) A} (hp : Only P (ExceptT.run p))
    (hhandle : ∀ e, Only P (ExceptT.run (handle e))) :
    Only P (ExceptT.run (tryCatch p handle)) := by
  refine only_bind (p := ExceptT.run p) hp fun r => ?_
  cases r with
  | ok a => trivial
  | error e => exact hhandle e

theorem only_run_retry {P : F.Call → Prop} {p : ExceptT E (Prog F) A} (hp : Only P (ExceptT.run p))
    (retries : Nat) : Only P (ExceptT.run (retry p retries)) := by
  induction retries with
  | zero => exact hp
  | succ retries ih => exact only_run_tryCatch hp fun _ => ih

theorem only_run_forM {P : F.Call → Prop} {f : X → ExceptT E (Prog F) PUnit}
    (hf : ∀ x, Only P (ExceptT.run (f x))) (xs : List X) : Only P (ExceptT.run (xs.forM f)) := by
  induction xs with
  | nil => trivial
  | cons x xs ih => exact only_run_bind (hf x) fun _ => ih

theorem only_run_mapM {P : F.Call → Prop} {f : X → ExceptT E (Prog F) A}
    (hf : ∀ x, Only P (ExceptT.run (f x))) (xs : List X) : Only P (ExceptT.run (xs.mapM f)) := by
  induction xs with
  | nil => trivial
  | cons x xs ih =>
    rw [List.mapM_cons]
    exact only_run_bind (hf x) fun _ => only_run_bind ih fun _ => trivial

theorem only_iterate {P : F.Call → Prop} {body : X → Prog F (X ⊕ A)} (hbody : ∀ x, Only P (body x))
    (fuel : Nat) (x : X) : Only P (iterate body fuel x) := by
  induction fuel generalizing x with
  | zero => trivial
  | succ fuel ih =>
    rw [iterate_succ]
    refine only_bind (hbody x) fun y => ?_
    cases y with
    | inl x => exact ih x
    | inr a => trivial

/-- Every call that `p` makes meets `P`, and so does every result `Q`. -/
def Yields (P : F.Call → Prop) (Q : A → Prop) : Prog F A → Prop
  | .pure a => Q a
  | .call c next => P c ∧ ∀ r, Yields P Q (next r)

/-- `T` holds of the error that a program ends with. -/
def FailsWith (T : E → Prop) (r : Except E A) : Prop := ∀ e, r = .error e → T e

theorem failsWith_ok {T : E → Prop} (a : A) : FailsWith T (.ok a : Except E A) :=
  fun _ h => by cases h

theorem failsWith_error {T : E → Prop} {e : E} (h : T e) : FailsWith T (.error e : Except E A) := by
  intro e' heq
  cases heq
  exact h

theorem yields_bind {P : F.Call → Prop} {Q : A → Prop} {R : B → Prop} {p : Prog F A}
    {f : A → Prog F B} (hp : Yields P Q p) (hf : ∀ a, Q a → Yields P R (f a)) :
    Yields P R (p >>= f) := by
  induction p with
  | pure a => exact hf a hp
  | call c next ih => exact ⟨hp.1, fun r => ih r (hp.2 r)⟩

theorem yields_run_bind {P : F.Call → Prop} {T : E → Prop} {p : ExceptT E (Prog F) A}
    {f : A → ExceptT E (Prog F) B} (hp : Yields P (FailsWith T) (ExceptT.run p))
    (hf : ∀ a, Yields P (FailsWith T) (ExceptT.run (f a))) :
    Yields P (FailsWith T) (ExceptT.run (p >>= f)) := by
  refine yields_bind hp fun r hr => ?_
  cases r with
  | ok a => exact hf a
  | error e => exact failsWith_error (hr e rfl)

theorem yields_run_lift {P : F.Call → Prop} {T : E → Prop} {p : Prog F A} (hp : Only P p) :
    Yields P (FailsWith T) (ExceptT.run (ExceptT.lift p : ExceptT E (Prog F) A)) := by
  induction p with
  | pure a => exact failsWith_ok a
  | call c next ih => exact ⟨hp.1, fun r => ih r (hp.2 r)⟩

theorem yields_run_lift_bind {P : F.Call → Prop} {Q : A → Prop} {R : Except E B → Prop}
    {p : Prog F A} {f : A → ExceptT E (Prog F) B} (hp : Yields P Q p)
    (hf : ∀ a, Q a → Yields P R (ExceptT.run (f a))) :
    Yields P R (ExceptT.run (ExceptT.lift p >>= f)) := by
  induction p with
  | pure a => exact hf a hp
  | call c next ih => exact ⟨hp.1, fun r => ih r (hp.2 r)⟩

theorem yields_run_forM {P : F.Call → Prop} {T : E → Prop} {f : X → ExceptT E (Prog F) PUnit}
    (hf : ∀ x, Yields P (FailsWith T) (ExceptT.run (f x))) (xs : List X) :
    Yields P (FailsWith T) (ExceptT.run (xs.forM f)) := by
  induction xs with
  | nil => exact failsWith_ok _
  | cons x xs ih => exact yields_run_bind (hf x) fun _ => ih

theorem yields_run_mapM {P : F.Call → Prop} {T : E → Prop} {f : X → ExceptT E (Prog F) A}
    (hf : ∀ x, Yields P (FailsWith T) (ExceptT.run (f x))) (xs : List X) :
    Yields P (FailsWith T) (ExceptT.run (xs.mapM f)) := by
  induction xs with
  | nil => exact failsWith_ok _
  | cons x xs ih =>
    rw [List.mapM_cons]
    exact yields_run_bind (hf x) fun _ => yields_run_bind ih fun _ => failsWith_ok _

theorem Yields.only {P : F.Call → Prop} {Q : A → Prop} {p : Prog F A} (h : Yields P Q p) :
    Only P p := by
  induction p with
  | pure a => trivial
  | call c next ih => exact ⟨h.1, fun r => ih r (h.2 r)⟩

/-- A program for an interface that is a part of another one: `on` are its calls there. -/
def embed {G : Interface} (on : F.Call → G.Call)
    (answer : (c : F.Call) → G.Answer (on c) → F.Answer c) : Prog F A → Prog G A
  | .pure a => .pure a
  | .call c next => .call (on c) fun r => embed on answer (next (answer c r))

/-- A program each of whose calls is made by a program in other surroundings. -/
def interpret {G : Interface} (f : (c : F.Call) → Prog G (F.Answer c)) : Prog F A → Prog G A
  | .pure a => .pure a
  | .call c next => (f c).bind fun r => interpret f (next r)

theorem only_embed {G : Interface} {on : F.Call → G.Call}
    {answer : (c : F.Call) → G.Answer (on c) → F.Answer c} {P : G.Call → Prop} (hP : ∀ c, P (on c))
    (p : Prog F A) : Only P (p.embed on answer) := by
  induction p with
  | pure a => trivial
  | call c next ih => exact ⟨hP c, fun r => ih (answer c r)⟩

variable {env : Env F S} {I : S → Prop} {s s' : S}

/-! ### Rules -/

theorem Keeps.inv {p : Prog F A} {Q : A → S → Prop} (h : Keeps env I p Q s) : I s := by
  cases p with
  | pure a => exact h.1
  | call c next => exact h.1

theorem Keeps.mono {p : Prog F A} {Q R : A → S → Prop} (h : Keeps env I p Q s)
    (hQR : ∀ a s, I s → Q a s → R a s) : Keeps env I p R s := by
  induction p generalizing s with
  | pure a => exact ⟨h.1, hQR a s h.1 h.2⟩
  | call c next ih => exact ⟨h.1, fun r s' hr => ih r (h.2 r s' hr)⟩

theorem keeps_congr {p : Prog F A} {Q R : A → S → Prop} (h : ∀ a s, I s → (Q a s ↔ R a s)) :
    Keeps env I p Q s ↔ Keeps env I p R s :=
  ⟨fun hp => hp.mono fun a s hs => (h a s hs).mp, fun hp => hp.mono fun a s hs => (h a s hs).mpr⟩

/-- A program that keeps a stronger invariant also ends with it. -/
theorem Keeps.weaken {J : S → Prop} {p : Prog F A} {Q : A → S → Prop} (h : Keeps env J p Q s)
    (hJI : ∀ s, J s → I s) : Keeps env I p (fun a s => J s ∧ Q a s) s := by
  induction p generalizing s with
  | pure a => exact ⟨hJI s h.1, h⟩
  | call c next ih => exact ⟨hJI s h.1, fun r s' hr => ih r (h.2 r s' hr)⟩

/-- The frame rule: what no call disturbs still holds at the end. -/
theorem Keeps.frame {J : S → Prop} {p : Prog F A} {Q : A → S → Prop} (h : Keeps env I p Q s)
    (hcall : ∀ s c r s', J s → env s c r s' → J s') (hs : J s) :
    Keeps env I p (fun a s => Q a s ∧ J s) s := by
  induction p generalizing s with
  | pure a => exact ⟨h.1, h.2, hs⟩
  | call c next ih => exact ⟨h.1, fun r s' hr => ih r (h.2 r s' hr) (hcall _ _ _ _ hs hr)⟩

@[simp] theorem keeps_pure {a : A} {Q : A → S → Prop} :
    Keeps env I (Pure.pure a) Q s ↔ I s ∧ Q a s := Iff.rfl

theorem keeps_bind {p : Prog F A} {f : A → Prog F B} {Q : B → S → Prop} :
    Keeps env I (p >>= f) Q s ↔ Keeps env I p (fun a s => Keeps env I (f a) Q s) s := by
  induction p generalizing s with
  | pure a => exact ⟨fun h => ⟨h.inv, h⟩, fun h => h.2⟩
  | call c next ih =>
    constructor
    · rintro ⟨hs, h⟩
      exact ⟨hs, fun r s' hr => (ih r).mp (h r s' hr)⟩
    · rintro ⟨hs, h⟩
      exact ⟨hs, fun r s' hr => (ih r).mpr (h r s' hr)⟩

theorem keeps_map {p : Prog F A} {f : A → B} {Q : B → S → Prop} :
    Keeps env I (f <$> p) Q s ↔ Keeps env I p (fun a => Q (f a)) s := by
  refine Iff.trans (keeps_bind (f := fun a => Prog.pure (f a))) (keeps_congr fun a s hs => ?_)
  exact and_iff_right hs

theorem keeps_request {c : F.Call} {Q : F.Answer c → S → Prop} :
    Keeps env I (request F c) Q s ↔ I s ∧ ∀ r s', env s c r s' → I s' ∧ Q r s' := Iff.rfl

/-- Any program keeps what always holds. -/
theorem keeps_of_forall {Q : A → S → Prop} (hI : ∀ s, I s) (hQ : ∀ a s, Q a s) (p : Prog F A) :
    Keeps env I p Q s := by
  induction p generalizing s with
  | pure a => exact ⟨hI s, hQ a s⟩
  | call c next ih => exact ⟨hI s, fun r s' _ => ih r⟩

/-- A program keeps what each of its calls keeps. -/
theorem keeps_of_only {P : F.Call → Prop} {p : Prog F A}
    (hcall : ∀ s c r s', I s → P c → env s c r s' → I s') (hp : Only P p) (hs : I s) :
    Keeps env I p (fun _ => I) s := by
  induction p generalizing s with
  | pure a => exact ⟨hs, hs⟩
  | call c next ih => exact ⟨hs, fun r s' hr => ih r (hp.2 r) (hcall _ _ _ _ hs hp.1 hr)⟩

/-- The rule for a program that is a part of larger surroundings, in which `handle` answers its
calls. -/
theorem keeps_embed {G : Interface} {W : Type} {env : Env G W} {I : W → Prop}
    {on : F.Call → G.Call} {answer : (c : F.Call) → G.Answer (on c) → F.Answer c}
    {handle : S → (c : F.Call) → F.Answer c × S} {part : W → S} {J : W → Prop}
    (hcall : ∀ w c r w', J w → env w (on c) r w' →
      handle (part w) c = (answer c r, part w') ∧ J w')
    (hinv : ∀ w, J w → I w) (p : Prog F A) {w : W} (hw : J w) :
    Keeps env I (p.embed on answer)
      (fun a w' => p.exec handle (part w) = (a, part w') ∧ J w') w := by
  induction p generalizing w with
  | pure a => exact ⟨hinv w hw, rfl, hw⟩
  | call c next ih =>
    refine ⟨hinv w hw, fun r w' hr => ?_⟩
    obtain ⟨hanswer, hw'⟩ := hcall w c r w' hw hr
    have hnext : Keeps env I ((next (answer c r)).embed on answer) _ w' := ih (answer c r) hw'
    refine hnext.mono fun a w'' _ ha => ?_
    rw [exec, hanswer]
    exact ha

/-- The rule for a part that only reads: its calls are answered by `handle` and change nothing. -/
theorem keeps_embed_eval {G : Interface} {env : Env G S} {on : F.Call → G.Call}
    {answer : (c : F.Call) → G.Answer (on c) → F.Answer c} {handle : (c : F.Call) → F.Answer c}
    (hcall : ∀ c r s', env s (on c) r s' → answer c r = handle c ∧ s' = s) (hs : I s)
    (p : Prog F A) :
    Keeps env I (p.embed on answer) (fun a s' => a = p.eval handle ∧ s' = s) s := by
  induction p with
  | pure a => exact ⟨hs, rfl, rfl⟩
  | call c next ih =>
    refine ⟨hs, fun r s' hr => ?_⟩
    obtain ⟨hanswer, rfl⟩ := hcall c r s' hr
    have hnext : Keeps env I ((next (answer c r)).embed on answer) _ s' := ih (answer c r)
    refine hnext.mono fun a s'' _ ha => ?_
    rw [eval, ← hanswer]
    exact ha

/-- The surroundings of a part, whose calls are answered as those of the whole. -/
def partEnv {G : Interface} (on : F.Call → G.Call)
    (answer : (c : F.Call) → G.Answer (on c) → F.Answer c) (env : Env G S) : Env F S :=
  fun s c a s' => ∃ r, answer c r = a ∧ env s (on c) r s'

theorem keeps_embed_of_part {G : Interface} {env : Env G S} {on : F.Call → G.Call}
    {answer : (c : F.Call) → G.Answer (on c) → F.Answer c} {p : Prog F A} {Q : A → S → Prop}
    (h : Keeps (partEnv on answer env) I p Q s) : Keeps env I (p.embed on answer) Q s := by
  induction p generalizing s with
  | pure a => exact h
  | call c next ih => exact ⟨h.1, fun r s' hr => ih (answer c r) (h.2 _ s' ⟨r, rfl, hr⟩)⟩

/-- The rule for refinement: what is verified in the surroundings `env` holds when each call is made
by a program that, seen through `view`, keeps the invariant until it has done what `env` allows. -/
theorem keeps_interpret {G : Interface} {W : Type} {env' : Env G W} (view : W → S) {J : W → Prop}
    {f : (c : F.Call) → Prog G (F.Answer c)}
    (hf : ∀ c w, J w → I (view w) → Keeps env'
      (fun w' => J w' ∧ (I (view w') ∨ ∃ r, env (view w) c r (view w'))) (f c)
      (fun r w' => env (view w) c r (view w')) w)
    {p : Prog F A} {Q : A → S → Prop} {w : W} (hp : Keeps env I p Q (view w)) (hJ : J w) :
    Keeps env' (fun w => J w ∧ I (view w)) (p.interpret f) (fun a w => Q a (view w)) w := by
  induction p generalizing w with
  | pure a => exact ⟨⟨hJ, hp.1⟩, hp.2⟩
  | call c next ih =>
    have hanswered (w' : W) (h : J w' ∧ (I (view w') ∨ ∃ r, env (view w) c r (view w'))) :
        J w' ∧ I (view w') := by
      refine ⟨h.1, ?_⟩
      rcases h.2 with hI | ⟨r, hr⟩
      · exact hI
      · exact (hp.2 r _ hr).inv
    refine keeps_bind.mpr (((hf c w hJ hp.1).weaken hanswered).mono fun r w' hw' hr => ?_)
    exact ih r (hp.2 r _ hr.2) hw'.1

/-- Surroundings of which only the answers that are allowed are known. -/
def answered (allowed : (c : F.Call) → F.Answer c → Prop) : Env F Unit := fun _ c r _ => allowed c r

/-- The rule for a loop over a list: `J` is what holds when its argument is left. -/
theorem keeps_forM {f : X → Prog F PUnit} (J : List X → S → Prop)
    (hf : ∀ x xs s, J (x :: xs) s → Keeps env I (f x) (fun _ s => J xs s) s)
    (hI : ∀ s, J [] s → I s) {xs : List X} (h : J xs s) :
    Keeps env I (xs.forM f) (fun _ s => J [] s) s := by
  induction xs generalizing s with
  | nil => exact ⟨hI s h, h⟩
  | cons x xs ih =>
    exact keeps_bind.mpr ((hf x xs s h).mono fun _ s _ hs => ih hs)

/-! ### Failing programs -/

@[simp] theorem bind_ok (a : A) (f : A → Except E B) : (Except.ok a).bind f = f a := rfl

@[simp] theorem bind_error (e : E) (f : A → Except E B) : (Except.error e).bind f = .error e := rfl

theorem ok_bind (a : A) (f : A → Except E B) : (Except.ok a >>= f) = f a := rfl

/-- A step of a calculation that has not failed. -/
theorem bind_eq_ok {x : Except E A} {f : A → Except E B} {b : B} (h : x >>= f = .ok b) :
    ∃ a, x = .ok a ∧ f a = .ok b := by
  cases x with
  | error e => cases h
  | ok a => exact ⟨a, rfl, h⟩

/-- The step at which a calculation fails. -/
theorem bind_eq_error {x : Except E A} {f : A → Except E B} {e : E} (h : x >>= f = .error e) :
    x = .error e ∨ ∃ a, x = .ok a ∧ f a = .error e := by
  cases x with
  | error e' =>
    cases h
    exact Or.inl rfl
  | ok a => exact Or.inr ⟨a, rfl, h⟩

/-- A calculation over a list fails with the error of an element. -/
theorem exists_of_mapM_eq_error {f : X → Except E B} {xs : List X} {e : E}
    (h : xs.mapM f = .error e) : ∃ x ∈ xs, f x = .error e := by
  induction xs with
  | nil => cases h
  | cons x xs ih =>
    rw [List.mapM_cons] at h
    rcases bind_eq_error h with hx | ⟨b, -, h⟩
    · exact ⟨x, List.mem_cons_self, hx⟩
    · rcases bind_eq_error h with hxs | ⟨bs, -, h⟩
      · obtain ⟨failed, hfailed, hresult⟩ := ih hxs
        exact ⟨failed, List.mem_cons_of_mem _ hfailed, hresult⟩
      · cases h

/-- The results of a calculation over a list are those of its elements. -/
theorem exists_of_mapM_eq_ok {f : X → Except E B} {xs : List X} {bs : List B}
    (h : xs.mapM f = .ok bs) : ∀ b ∈ bs, ∃ x ∈ xs, f x = .ok b := by
  induction xs generalizing bs with
  | nil =>
    cases h
    exact nofun
  | cons x xs ih =>
    rw [List.mapM_cons] at h
    obtain ⟨first, hfirst, h⟩ := bind_eq_ok h
    obtain ⟨rest, hrest, h⟩ := bind_eq_ok h
    cases h
    intro b hb
    rcases List.mem_cons.mp hb with rfl | hb
    · exact ⟨x, List.mem_cons_self, hfirst⟩
    · obtain ⟨found, hfound, hresult⟩ := ih hrest b hb
      exact ⟨found, List.mem_cons_of_mem _ hfound, hresult⟩

theorem map_eq_ok {x : Except E A} {f : A → B} {b : B} (h : x.map f = .ok b) :
    ∃ a, x = .ok a ∧ f a = b := by
  cases x with
  | error e => cases h
  | ok a => exact ⟨a, rfl, Except.ok.inj h⟩

theorem map_eq_error {x : Except E A} {f : A → B} {e : E} (h : x.map f = .error e) :
    x = .error e := by
  cases x with
  | error e' =>
    cases h
    rfl
  | ok a => cases h

@[simp] theorem mapError_ok {E' : Type} (f : E → E') (a : A) :
    (Except.ok a : Except E A).mapError f = .ok a := rfl

@[simp] theorem mapError_error {E' : Type} (f : E → E') (e : E) :
    (Except.error e : Except E A).mapError f = .error (f e) := rfl

theorem mapError_eq_ok {E' : Type} {x : Except E A} {f : E → E'} {a : A}
    (h : x.mapError f = .ok a) : x = .ok a := by
  cases x with
  | error e => cases h
  | ok a' => exact congrArg Except.ok (Except.ok.inj h)

theorem mapError_eq_error {E' : Type} {x : Except E A} {f : E → E'} {e' : E'}
    (h : x.mapError f = .error e') : ∃ e, x = .error e ∧ f e = e' := by
  cases x with
  | error e => exact ⟨e, rfl, Except.error.inj h⟩
  | ok a => cases h

theorem ok_of_toOption {x : Except E A} {a : A} (h : x.toOption = some a) : x = .ok a := by
  cases x with
  | error e => cases h
  | ok a' => exact congrArg Except.ok (Option.some.inj h)

/-- A postcondition from one for results and one for errors. -/
def Outcome (Q : A → S → Prop) (R : E → S → Prop) : Except E A → S → Prop
  | .ok a => Q a
  | .error e => R e

theorem Outcome.intro {Q : A → S → Prop} {R : E → S → Prop} {x : Except E A}
    (hok : ∀ a, x = .ok a → Q a s) (herror : ∀ e, x = .error e → R e s) : Outcome Q R x s := by
  cases x with
  | ok a => exact hok a rfl
  | error e => exact herror e rfl

theorem Outcome.imp {Q Q' : A → S → Prop} {R R' : E → S → Prop} {x : Except E A}
    (h : Outcome Q R x s) (hok : ∀ a, Q a s → Q' a s) (herror : ∀ e, R e s → R' e s) :
    Outcome Q' R' x s := by
  cases x with
  | ok a => exact hok a h
  | error e => exact herror e h

@[simp] theorem keeps_run_pure {a : A} {Q : Except E A → S → Prop} :
    Keeps env I (ExceptT.run (Pure.pure a : ExceptT E (Prog F) A)) Q s ↔ I s ∧ Q (.ok a) s :=
  Iff.rfl

@[simp] theorem keeps_run_ofExcept {x : Except E A} {Q : Except E A → S → Prop} :
    Keeps env I (ExceptT.run (ofExcept x : ExceptT E (Prog F) A)) Q s ↔ I s ∧ Q x s :=
  Iff.rfl

theorem keeps_run_bind {p : ExceptT E (Prog F) A} {f : A → ExceptT E (Prog F) B}
    {Q : Except E B → S → Prop} :
    Keeps env I (ExceptT.run (p >>= f)) Q s ↔
      Keeps env I (ExceptT.run p) (Outcome (fun a => Keeps env I (ExceptT.run (f a)) Q)
        fun e => Q (.error e)) s := by
  refine Iff.trans (keeps_bind (f := ExceptT.bindCont f)) (keeps_congr fun r s hs => ?_)
  cases r with
  | ok a => exact Iff.rfl
  | error e => exact and_iff_right hs

/-- Programs in sequence, with one postcondition `R` for the errors of both. -/
theorem keeps_run_seq {p : ExceptT E (Prog F) A} {f : A → ExceptT E (Prog F) B}
    {P : A → S → Prop} {Q : B → S → Prop} {R : E → S → Prop}
    (hp : Keeps env I (ExceptT.run p) (Outcome P R) s)
    (hf : ∀ a s, I s → P a s → Keeps env I (ExceptT.run (f a)) (Outcome Q R) s) :
    Keeps env I (ExceptT.run (p >>= f)) (Outcome Q R) s := by
  refine keeps_run_bind.mpr (hp.mono fun r s hs hr => ?_)
  cases r with
  | ok a => exact hf a s hs hr
  | error e => exact hr

/-- The rule for a loop over a list that ends with the first error. -/
theorem keeps_run_forM {f : X → ExceptT E (Prog F) PUnit} (J : List X → S → Prop)
    {R : E → S → Prop}
    (hf : ∀ x xs s, J (x :: xs) s → Keeps env I (ExceptT.run (f x)) (Outcome (fun _ => J xs) R) s)
    (hI : ∀ s, J [] s → I s) {xs : List X} (h : J xs s) :
    Keeps env I (ExceptT.run (xs.forM f)) (Outcome (fun _ => J []) R) s := by
  induction xs generalizing s with
  | nil => exact ⟨hI s h, h⟩
  | cons x xs ih => exact keeps_run_seq (hf x xs s h) fun _ _ _ hs => ih hs

/-- The rule for a loop whose round for `x` leads to `P x`, which no other round disturbs. -/
theorem keeps_run_forM_each {f : X → ExceptT E (Prog F) PUnit} {J : S → Prop} {P : X → S → Prop}
    {R : E → S → Prop}
    (hf : ∀ x s, J s → Keeps env I (ExceptT.run (f x))
      (Outcome (fun _ s' => (J s' ∧ P x s') ∧ ∀ y, P y s → P y s') R) s)
    (hI : ∀ s, J s → I s) (xs : List X) (hs : J s) :
    Keeps env I (ExceptT.run (xs.forM f)) (Outcome (fun _ s => J s ∧ ∀ x ∈ xs, P x s) R) s := by
  have hround (x : X) (rest : List X) (s : S) (h : J s ∧ ∀ y ∈ xs, y ∈ x :: rest ∨ P y s) :
      Keeps env I (ExceptT.run (f x))
        (Outcome (fun _ s => J s ∧ ∀ y ∈ xs, y ∈ rest ∨ P y s) R) s := by
    refine (hf x s h.1).mono fun r s' _ hr =>
      hr.imp (fun _ hok => ⟨hok.1.1, fun y hy => ?_⟩) fun _ he => he
    rcases h.2 y hy with hmem | hP
    · rcases List.mem_cons.mp hmem with rfl | hmem
      · exact Or.inr hok.1.2
      · exact Or.inl hmem
    · exact Or.inr (hok.2 y hP)
  refine (keeps_run_forM (fun rest s => J s ∧ ∀ y ∈ xs, y ∈ rest ∨ P y s) hround
    (fun s h => hI s h.1) ⟨hs, fun _ => Or.inl⟩).mono fun r s _ hr => ?_
  exact hr.imp (fun _ hok => ⟨hok.1, fun x hx => (hok.2 x hx).resolve_left List.not_mem_nil⟩)
    fun _ he => he

theorem keeps_run_map {p : ExceptT E (Prog F) A} {f : A → B} {Q : Except E B → S → Prop} :
    Keeps env I (ExceptT.run (f <$> p)) Q s ↔
      Keeps env I (ExceptT.run p) (fun r => Q (r.map f)) s := by
  rw [← bind_pure_comp, keeps_run_bind]
  refine keeps_congr fun r s hs => ?_
  cases r with
  | ok a => exact and_iff_right hs
  | error e => exact Iff.rfl

theorem keeps_run_lift {p : Prog F A} {Q : Except E A → S → Prop} :
    Keeps env I (ExceptT.run (ExceptT.lift p : ExceptT E (Prog F) A)) Q s ↔
      Keeps env I p (fun a => Q (.ok a)) s :=
  keeps_map

theorem keeps_run_adapt {E' : Type} {p : ExceptT E (Prog F) A} {f : E → E'}
    {Q : Except E' A → S → Prop} :
    Keeps env I (ExceptT.run (ExceptT.adapt f p)) Q s ↔
      Keeps env I (ExceptT.run p) (fun r => Q (r.mapError f)) s :=
  keeps_map

theorem keeps_run_tryCatch {p : ExceptT E (Prog F) A} {handle : E → ExceptT E (Prog F) A}
    {Q : Except E A → S → Prop} :
    Keeps env I (ExceptT.run (tryCatch p handle)) Q s ↔
      Keeps env I (ExceptT.run p) (Outcome (fun a => Q (.ok a))
        fun e => Keeps env I (ExceptT.run (handle e)) Q) s := by
  refine Iff.trans (keeps_bind (p := p.run)) (keeps_congr fun r s hs => ?_)
  cases r with
  | ok a => exact and_iff_right hs
  | error e => exact Iff.rfl

/-- The rule for retries, with what is known of the last failure. -/
theorem keeps_run_retry_failed {p : ExceptT E (Prog F) A} {P : S → Prop} {Q : A → S → Prop}
    {R : E → S → Prop} (hp : ∀ s, I s → P s → Keeps env I (ExceptT.run p) (Outcome Q R) s)
    (hfailed : ∀ e s, R e s → P s) (retries : Nat) (hs : I s) (h : P s) :
    Keeps env I (ExceptT.run (retry p retries)) (Outcome Q R) s := by
  induction retries generalizing s with
  | zero => exact hp s hs h
  | succ retries ih =>
    refine keeps_run_tryCatch.mpr ((hp s hs h).mono fun r s hs hr => ?_)
    cases r with
    | ok a => exact hr
    | error e => exact ih hs (hfailed e s hr)

/-- The rule for retries: a failure leaves what an attempt starts from. -/
theorem keeps_run_retry {p : ExceptT E (Prog F) A} {P : S → Prop} {Q : A → S → Prop}
    (hp : ∀ s, I s → P s → Keeps env I (ExceptT.run p) (Outcome Q fun _ => P) s)
    (retries : Nat) (hs : I s) (h : P s) :
    Keeps env I (ExceptT.run (retry p retries)) (Outcome Q fun _ => P) s :=
  keeps_run_retry_failed hp (fun _ _ h => h) retries hs h

/-- What a round of a loop ends with: the invariant `J`, or the postcondition of the loop. -/
def Round (J : X → S → Prop) (Q : Except E (Option A) → S → Prop) : Except E (X ⊕ A) → S → Prop
  | .ok (.inl x) => J x
  | .ok (.inr a) => Q (.ok (some a))
  | .error e => Q (.error e)

/-- The invariant rule for loops: `J` is what holds at the start of a round. -/
theorem keeps_run_iterate {body : X → ExceptT E (Prog F) (X ⊕ A)} (J : X → S → Prop)
    {Q : Except E (Option A) → S → Prop}
    (hbody : ∀ x s, J x s → Keeps env I (ExceptT.run (body x)) (Round J Q) s)
    (hfuel : ∀ x s, J x s → Q (.ok none) s) (fuel : Nat) {x : X} (h : J x s) :
    Keeps env I (ExceptT.run (iterate body fuel x)) Q s := by
  induction fuel generalizing x s with
  | zero => exact ⟨(hbody x s h).inv, hfuel x s h⟩
  | succ fuel ih =>
    refine keeps_run_bind.mpr ((hbody x s h).mono fun r s hs hr => ?_)
    match r, hr with
    | .ok (.inl x), hr => exact ih hr
    | .ok (.inr a), hr => exact ⟨hs, hr⟩
    | .error e, hr => exact hr

/-! ### Soundness -/

/-- A run goes on with the answer to the call that it has got to. -/
theorem Runs.answered {p : Prog F A} {c : F.Call} {next : F.Answer c → Prog F A} {r : F.Answer c}
    {s s' s'' : S} (h : Runs env p s (.call c next) s') (hr : env s' c r s'') :
    Runs env p s (next r) s'' := by
  generalize hp' : Prog.call c next = p' at h
  induction h with
  | refl p s =>
    subst hp'
    exact .step hr (.refl _ _)
  | step hstep _ ih => exact .step hstep (ih hr hp')

/-- The rule for a program that is a part of larger surroundings, in which its calls are steps of
`env'`. -/
theorem keeps_embed_runs {G : Interface} {W : Type} {env : Env G W} {I : W → Prop}
    {on : F.Call → G.Call} {answer : (c : F.Call) → G.Answer (on c) → F.Answer c}
    {env' : Env F S} {J : W → Prop} (part : W → S)
    (hcall : ∀ w c r w', J w → env w (on c) r w' → env' (part w) c (answer c r) (part w') ∧ J w')
    (hinv : ∀ w, J w → I w) (p : Prog F A) {w : W} (hw : J w) :
    Keeps env I (p.embed on answer)
      (fun a w' => Runs env' p (part w) (.pure a) (part w') ∧ J w') w := by
  induction p generalizing w with
  | pure a => exact ⟨hinv w hw, .refl _ _, hw⟩
  | call c next ih =>
    refine ⟨hinv w hw, fun r w' hr => ?_⟩
    obtain ⟨hanswer, hw'⟩ := hcall w c r w' hw hr
    have hnext : Keeps env I ((next (answer c r)).embed on answer) _ w' := ih (answer c r) hw'
    exact hnext.mono fun a w'' _ ha => ⟨.step hanswer ha.1, ha.2⟩

theorem Runs.bind {p p' : Prog F A} {s s' : S} (h : Runs env p s p' s') (f : A → Prog F B) :
    Runs env (p >>= f) s (p' >>= f) s' := by
  induction h with
  | refl p s => exact .refl _ _
  | step hstep _ ih => exact .step hstep ih

theorem Runs.trans {p p' p'' : Prog F A} {s s' s'' : S} (h : Runs env p s p' s')
    (h' : Runs env p' s' p'' s'') : Runs env p s p'' s'' := by
  induction h with
  | refl p s => exact h'
  | step hstep _ ih => exact .step hstep (ih h')

/-- A run that succeeds goes on with its result. -/
theorem Runs.run_bind_ok {p : ExceptT E (Prog F) A} {f : A → ExceptT E (Prog F) B} {a : A}
    {q : Prog F (Except E B)} {s s' s'' : S} (h : Runs env (ExceptT.run p) s (.pure (.ok a)) s')
    (hq : Runs env (ExceptT.run (f a)) s' q s'') : Runs env (ExceptT.run (p >>= f)) s q s'' :=
  (h.bind (ExceptT.bindCont f)).trans hq

theorem Runs.run_bind_error {p : ExceptT E (Prog F) A} {e : E} {s s' : S}
    (h : Runs env (ExceptT.run p) s (.pure (.error e)) s') (f : A → ExceptT E (Prog F) B) :
    Runs env (ExceptT.run (p >>= f)) s (.pure (.error e)) s' :=
  h.bind (ExceptT.bindCont f)

theorem Runs.run_adapt_error {E' : Type} {p : ExceptT E (Prog F) A} {e : E} {s s' : S}
    (h : Runs env (ExceptT.run p) s (.pure (.error e)) s') (f : E → E') :
    Runs env (ExceptT.run (ExceptT.adapt f p)) s (.pure (.error (f e))) s' :=
  h.bind (Prog.pure ∘ Except.mapError f)

theorem Keeps.runs {p p' : Prog F A} {Q : A → S → Prop} (h : Keeps env I p Q s)
    (hruns : Runs env p s p' s') : Keeps env I p' Q s' := by
  induction hruns with
  | refl => exact h
  | step hr _ ih => exact ih (h.2 _ _ hr)

theorem Keeps.returns {p : Prog F A} {Q : A → S → Prop} {a : A} (h : Keeps env I p Q s)
    (hruns : Runs env p s (.pure a) s') : Q a s' :=
  (h.runs hruns).2

/-- Without an invariant, a program keeps just what all its results meet. -/
theorem keeps_iff_returns {p : Prog F A} {Q : A → S → Prop} :
    Keeps env (fun _ => True) p Q s ↔ ∀ a s', Runs env p s (.pure a) s' → Q a s' := by
  constructor
  · exact fun h a s' hruns => h.returns hruns
  · intro h
    induction p generalizing s with
    | pure a => exact ⟨trivial, h a s (.refl _ _)⟩
    | call c next ih =>
      exact ⟨trivial, fun r s' hr => ih r fun a s'' hruns => h a s'' (.step hr hruns)⟩

/-- Where every call has an answer, a program returns. -/
theorem Keeps.exists_returns {p : Prog F A} {Q : A → S → Prop} (h : Keeps env I p Q s)
    (henabled : ∀ s c, I s → ∃ r s', env s c r s') :
    ∃ a s', Runs env p s (.pure a) s' ∧ Q a s' := by
  induction p generalizing s with
  | pure a => exact ⟨a, s, .refl _ _, h.2⟩
  | call c next ih =>
    obtain ⟨r, s₁, hr⟩ := henabled s c h.1
    obtain ⟨a, s', hruns, hQ⟩ := ih r (h.2 r s₁ hr)
    exact ⟨a, s', .step hr hruns, hQ⟩

/-- What a program keeps wherever it is cut off holds after any number of restarts. -/
theorem Restarts.inv {p : Prog F A} {Q : A → S → Prop}
    (hp : ∀ s, I s → Keeps env I p Q s) (hs : I s) (h : Restarts env p s s') : I s' := by
  induction h with
  | refl => exact hs
  | next _ hruns ih => exact ((hp _ ih).runs hruns).inv

/-- The run of a handler that answers as the surroundings may, in the states of an invariant that it
keeps. -/
theorem runs_exec_of_inv {handle : S → (c : F.Call) → F.Answer c × S}
    (hhandle : ∀ s c, I s → env s c (handle s c).1 (handle s c).2 ∧ I (handle s c).2)
    (p : Prog F A) (hs : I s) :
    Runs env p s (.pure (p.exec handle s).1) (p.exec handle s).2 := by
  induction p generalizing s with
  | pure a => exact .refl _ _
  | call c next ih =>
    obtain ⟨hanswer, hnext⟩ := hhandle s c hs
    exact .step hanswer (ih _ hnext)

theorem exec_inv {handle : S → (c : F.Call) → F.Answer c × S}
    (hhandle : ∀ s c, I s → I (handle s c).2) (p : Prog F A) (hs : I s) :
    I (p.exec handle s).2 := by
  induction p generalizing s with
  | pure a => exact hs
  | call c next ih => exact ih _ (hhandle s c hs)

theorem runs_exec {handle : S → (c : F.Call) → F.Answer c × S}
    (hhandle : ∀ s c, env s c (handle s c).1 (handle s c).2) (p : Prog F A) (s : S) :
    Runs env p s (.pure (p.exec handle s).1) (p.exec handle s).2 :=
  runs_exec_of_inv (I := fun _ => True) (fun s c _ => ⟨hhandle s c, trivial⟩) p trivial

/-- The run in surroundings that do not change. -/
theorem runs_eval {allowed : (c : F.Call) → F.Answer c → Prop} {answer : (c : F.Call) → F.Answer c}
    (hanswer : ∀ c, allowed c (answer c)) (p : Prog F A) :
    Runs (Prog.answered allowed) p () (.pure (p.eval answer)) () := by
  induction p with
  | pure a => exact .refl _ _
  | call c next ih => exact .step (hanswer c) (ih _)

/-- The run in a state that the surroundings stay in, when they may answer the calls so. -/
theorem runs_eval_of_only {answer : (c : F.Call) → F.Answer c} {p : Prog F A} {s : S}
    (hp : Only (fun c => env s c (answer c) s) p) : Runs env p s (.pure (p.eval answer)) s := by
  induction p with
  | pure a => exact .refl _ _
  | call c next ih => exact .step hp.1 (ih _ (hp.2 _))

theorem exec_bind (handle : S → (c : F.Call) → F.Answer c × S) (p : Prog F A) (f : A → Prog F B)
    (s : S) : (p >>= f).exec handle s =
      (f (p.exec handle s).1).exec handle (p.exec handle s).2 := by
  induction p generalizing s with
  | pure a => rfl
  | call c next ih => exact ih _ _

/-- A run that succeeds up to `p` goes on with its result. -/
theorem exec_run_bind_ok {handle : S → (c : F.Call) → F.Answer c × S}
    {p : ExceptT E (Prog F) A} {f : A → ExceptT E (Prog F) B} {a : A} {s s' : S}
    (h : (ExceptT.run p).exec handle s = (.ok a, s')) :
    (ExceptT.run (p >>= f)).exec handle s = (ExceptT.run (f a)).exec handle s' := by
  refine (exec_bind handle (ExceptT.run p) (ExceptT.bindCont f) s).trans ?_
  rw [h]
  rfl

theorem exec_run_bind_error {handle : S → (c : F.Call) → F.Answer c × S}
    {p : ExceptT E (Prog F) A} {f : A → ExceptT E (Prog F) B} {e : E} {s s' : S}
    (h : (ExceptT.run p).exec handle s = (.error e, s')) :
    (ExceptT.run (p >>= f)).exec handle s = (.error e, s') := by
  refine (exec_bind handle (ExceptT.run p) (ExceptT.bindCont f) s).trans ?_
  rw [h]
  rfl

/-- Answers that may depend on the calls that were made before, which are kept. -/
def record (answer : List F.Call → (c : F.Call) → F.Answer c) (calls : List F.Call) (c : F.Call) :
    F.Answer c × List F.Call :=
  (answer calls c, calls ++ [c])

theorem prefix_exec_record (answer : List F.Call → (c : F.Call) → F.Answer c) (p : Prog F A)
    (calls : List F.Call) : calls <+: (p.exec (record answer) calls).2 := by
  induction p generalizing calls with
  | pure a => exact List.prefix_refl calls
  | call c next ih => exact (List.prefix_append calls [c]).trans (ih _ _)

theorem mem_exec_record (answer : List F.Call → (c : F.Call) → F.Answer c) (c : F.Call)
    (f : F.Answer c → Prog F A) (calls : List F.Call) :
    c ∈ ((request F c >>= f).exec (record answer) calls).2 :=
  (prefix_exec_record answer (f (answer calls c)) (calls ++ [c])).subset
    (List.mem_append_right calls List.mem_cons_self)

/-! ### Surroundings that do not change -/

section Eval

variable {answer : (c : F.Call) → F.Answer c}

@[simp] theorem eval_pure (a : A) : (Pure.pure a : Prog F A).eval answer = a := rfl

@[simp] theorem eval_bind (p : Prog F A) (f : A → Prog F B) :
    (p >>= f).eval answer = (f (p.eval answer)).eval answer := by
  induction p with
  | pure a => rfl
  | call c next ih => exact ih _

@[simp] theorem eval_map (p : Prog F A) (f : A → B) : (f <$> p).eval answer = f (p.eval answer) :=
  eval_bind p fun a => .pure (f a)

@[simp] theorem eval_run_bind (p : ExceptT E (Prog F) A) (f : A → ExceptT E (Prog F) B) :
    (ExceptT.run (p >>= f)).eval answer =
      ((ExceptT.run p).eval answer).bind fun a => (ExceptT.run (f a)).eval answer := by
  refine (eval_bind (ExceptT.run p) (ExceptT.bindCont f)).trans ?_
  cases (ExceptT.run p).eval answer with
  | ok a => rfl
  | error e => rfl

@[simp] theorem eval_run_mk (p : Prog F (Except E A)) :
    (ExceptT.run (ExceptT.mk p)).eval answer = p.eval answer := rfl

@[simp] theorem eval_run_pure (a : A) :
    (ExceptT.run (Pure.pure a : ExceptT E (Prog F) A)).eval answer = .ok a := rfl

@[simp] theorem eval_run_lift (p : Prog F A) :
    (ExceptT.run (ExceptT.lift p : ExceptT E (Prog F) A)).eval answer = .ok (p.eval answer) :=
  eval_map p Except.ok

@[simp] theorem eval_run_adapt {E' : Type} (p : ExceptT E (Prog F) A) (f : E → E') :
    (ExceptT.run (ExceptT.adapt f p)).eval answer = ((ExceptT.run p).eval answer).mapError f :=
  eval_map (ExceptT.run p) (Except.mapError f)

@[simp] theorem eval_run_ofExcept (x : Except E A) :
    (ExceptT.run (ofExcept x : ExceptT E (Prog F) A)).eval answer = x := rfl

/-- A loop whose rounds all leave its state as it is. -/
theorem eval_iterate_none {body : X → ExceptT E (Prog F) (X ⊕ A)} {x : X}
    (h : (ExceptT.run (body x)).eval answer = .ok (.inl x)) (fuel : Nat) :
    (ExceptT.run (iterate body fuel x)).eval answer = .ok none := by
  induction fuel with
  | zero => rfl
  | succ fuel ih =>
    refine (eval_run_bind (body x) _).trans ?_
    rw [h]
    exact ih

/-- A loop after a round that does not end it. -/
theorem eval_iterate_succ {body : X → ExceptT E (Prog F) (X ⊕ A)} {x y : X}
    (h : (ExceptT.run (body x)).eval answer = .ok (.inl y)) (fuel : Nat) :
    (ExceptT.run (iterate body (fuel + 1) x)).eval answer =
      (ExceptT.run (iterate body fuel y)).eval answer := by
  refine (eval_run_bind (body x) _).trans ?_
  rw [h]
  rfl

theorem eval_iterate_some {body : X → ExceptT E (Prog F) (X ⊕ A)} {x : X} {a : A}
    (h : (ExceptT.run (body x)).eval answer = .ok (.inr a)) (fuel : Nat) :
    (ExceptT.run (iterate body (fuel + 1) x)).eval answer = .ok (some a) := by
  refine (eval_run_bind (body x) _).trans ?_
  rw [h]
  rfl

/-- A loop over a list in which every round succeeds. -/
theorem eval_run_mapM {f : X → ExceptT E (Prog F) A} {g : X → A} {xs : List X}
    (h : ∀ x ∈ xs, (ExceptT.run (f x)).eval answer = .ok (g x)) :
    (ExceptT.run (xs.mapM f)).eval answer = .ok (xs.map g) := by
  induction xs with
  | nil => rfl
  | cons x xs ih =>
    rw [List.forall_mem_cons] at h
    rw [List.mapM_cons, eval_run_bind, h.1, bind_ok, eval_run_bind, ih h.2]
    rfl

/-- A program that is tried again has the same result again. -/
theorem eval_retry (p : ExceptT E (Prog F) A) (retries : Nat) :
    (ExceptT.run (retry p retries)).eval answer = (ExceptT.run p).eval answer := by
  induction retries with
  | zero => rfl
  | succ retries ih =>
    refine (eval_bind (ExceptT.run p) _).trans ?_
    cases h : (ExceptT.run p).eval answer with
    | ok a => rfl
    | error e => exact ih.trans h

end Eval

end Prog

end InterBtcClients.Library
