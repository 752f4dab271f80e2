import InterBtcClients.Library.Interleave
import Mathlib.Logic.Function.Basic

/-! Any number of programs that run at once on a shared state.  Each is verified on its own: it
relies on what happens between its calls, and guarantees something of each of them.  When what each
guarantees is what the others rely on, all of this holds along every run. -/

namespace InterBtcClients.Library.Prog

variable {ι : Type} [DecidableEq ι] {F : Interface} {A S : Type}

/-- The programs `ps` from `s` can get to where `ps'` are left to run, in `s'`. -/
inductive PoolRuns (env : ι → Env F S) (other : S → S → Prop) :
    (ι → Prog F A) → S → (ι → Prog F A) → S → Prop
  | refl (ps : ι → Prog F A) (s : S) : PoolRuns env other ps s ps s
  | step {ps ps' : ι → Prog F A} {i : ι} {c : F.Call} {next : F.Answer c → Prog F A}
      {r : F.Answer c} {s s' s'' : S} : ps i = .call c next → env i s c r s' →
      PoolRuns env other (Function.update ps i (next r)) s' ps' s'' →
      PoolRuns env other ps s ps' s''
  | other {ps ps' : ι → Prog F A} {s s' s'' : S} : other s s' →
      PoolRuns env other ps s' ps' s'' → PoolRuns env other ps s ps' s''

/-- Surroundings that others change, as `R` allows, before an answer, with the state just before the
answer. -/
def tracked (R : S → S → Prop) (env : Env F S) : Env F (S × S) :=
  fun s c r s' => R s.2 s'.1 ∧ env s'.1 c r s'.2

/-- From `s`, to which the last answer has led from `s₁`, the program relies on `R` and guarantees
`G`, and returns with `Q`. -/
abbrev Guarantees (env : Env F S) (R G : S → S → Prop) (p : Prog F A) (Q : A → S → Prop)
    (s₁ s : S) : Prop :=
  Keeps (tracked R env) (fun s => G s.1 s.2) p (fun a s => Q a s.2) (s₁, s)

/-- What each program relies on is what the others guarantee. -/
structure Cooperates (R G : ι → S → S → Prop) (other : S → S → Prop) : Prop where
  refl : ∀ i s, R i s s
  trans : ∀ {i s s' s''}, R i s s' → R i s' s'' → R i s s''
  idle : ∀ i s, G i s s
  relies : ∀ {i j s s'}, i ≠ j → G i s s' → R j s s'
  other : ∀ {i s s'}, other s s' → R i s s'

section Rules

variable {env : Env F S} {R G : S → S → Prop} {B E : Type} {s₁ s s' : S}

theorem Guarantees.rely {p : Prog F A} {Q : A → S → Prop}
    (htrans : ∀ {s s' s''}, R s s' → R s' s'' → R s s'') (hidle : G s' s')
    (hQ : ∀ a, Stable R (Q a)) (h : Guarantees env R G p Q s₁ s) (hR : R s s') :
    Guarantees env R G p Q s' s' := by
  cases p with
  | pure a => exact ⟨hidle, hQ a s s' hR h.2⟩
  | call c next =>
    refine ⟨hidle, fun r x hr => h.2 r x ?_⟩
    exact ⟨htrans hR hr.1, hr.2⟩

theorem guarantees_request {c : F.Call} {Q : F.Answer c → S → Prop} (hG : G s₁ s)
    (h : ∀ s' r s'', R s s' → env s' c r s'' → G s' s'' ∧ Q r s'') :
    Guarantees env R G (request F c) Q s₁ s :=
  keeps_request.mpr ⟨hG, fun r x hr => h x.1 r x.2 hr.1 hr.2⟩

theorem guarantees_bind {p : Prog F A} {f : A → Prog F B} {P : A → S → Prop} {Q : B → S → Prop}
    (hp : Guarantees env R G p P s₁ s)
    (hf : ∀ a s₁ s, G s₁ s → P a s → Guarantees env R G (f a) Q s₁ s) :
    Guarantees env R G (p >>= f) Q s₁ s :=
  keeps_bind.mpr (hp.mono fun a x hG ha => hf a x.1 x.2 hG ha)

/-- The frame rule: what the others and the program itself leave still holds at the end. -/
theorem Guarantees.frame {p : Prog F A} {Q : A → S → Prop} {J : S → Prop}
    (h : Guarantees env R G p Q s₁ s) (hR : Stable R J) (hG : Stable G J) (hs : J s) :
    Guarantees env R G p (fun a s => Q a s ∧ J s) s₁ s := by
  induction p generalizing s₁ s with
  | pure a => exact ⟨h.1, h.2, hs⟩
  | call c next ih =>
    refine ⟨h.1, fun r x hr => ?_⟩
    have hnext : Guarantees env R G (next r) Q x.1 x.2 := h.2 r x hr
    exact ih r hnext (hG _ _ hnext.inv (hR _ _ hr.1 hs))

/-- The rule for a program whose calls are made by programs: these keep `J`, and their results are
answers that are allowed. -/
theorem guarantees_interpret {F' : Interface} {f : (c : F'.Call) → Prog F (F'.Answer c)}
    {allowed : (c : F'.Call) → F'.Answer c → Prop} {J : S → Prop} {p : Prog F' A} {Q : A → Prop}
    (hp : Keeps (answered allowed) (fun _ => True) p (fun a _ => Q a) ())
    (hf : ∀ c s₁ s, G s₁ s → J s →
      Guarantees env R G (f c) (fun r s => allowed c r ∧ J s) s₁ s)
    (hG : G s₁ s) (hJ : J s) :
    Guarantees env R G (p.interpret f) (fun a s => Q a ∧ J s) s₁ s := by
  induction p generalizing s₁ s with
  | pure a => exact ⟨hG, hp.2, hJ⟩
  | call c next ih =>
    refine guarantees_bind (hf c s₁ s hG hJ) fun r s₁ s hG hr => ?_
    exact ih r (hp.2 r () hr.1) hG hr.2

theorem guarantees_run_lift {p : Prog F A} {P : A → S → Prop} {Q : E → S → Prop}
    (hp : Guarantees env R G p P s₁ s) :
    Guarantees env R G (ExceptT.run (ExceptT.lift p : ExceptT E (Prog F) A)) (Outcome P Q) s₁ s :=
  keeps_run_lift.mpr hp

/-- Programs in sequence, with one postcondition `T` for the errors of both. -/
theorem guarantees_run_seq {p : ExceptT E (Prog F) A} {f : A → ExceptT E (Prog F) B}
    {P : A → S → Prop} {Q : B → S → Prop} {T : E → S → Prop}
    (hp : Guarantees env R G (ExceptT.run p) (Outcome P T) s₁ s)
    (hf : ∀ a s₁ s, G s₁ s → P a s → Guarantees env R G (ExceptT.run (f a)) (Outcome Q T) s₁ s) :
    Guarantees env R G (ExceptT.run (p >>= f)) (Outcome Q T) s₁ s := by
  refine keeps_run_bind.mpr (hp.mono fun r x hG hr => ?_)
  cases r with
  | ok a => exact hf a x.1 x.2 hG hr
  | error e => exact hr

/-- One call, with its answer read as a result or an error. -/
theorem guarantees_run_ask {c : F.Call} {f : F.Answer c → Except E A} {Q : Except E A → S → Prop}
    (hG : G s₁ s) (h : ∀ s' r s'', R s s' → env s' c r s'' → G s' s'' ∧ Q (f r) s'') :
    Guarantees env R G (ExceptT.run (ExceptT.mk (f <$> request F c))) Q s₁ s :=
  keeps_map.mpr (guarantees_request hG h)

/-- The invariant rule for loops: `J` is what holds at the start of a round. -/
theorem guarantees_run_iterate {X : Type} {body : X → ExceptT E (Prog F) (X ⊕ A)} (J : X → S → Prop)
    {Q : Except E (Option A) → S → Prop}
    (hbody : ∀ x s₁ s, G s₁ s → J x s →
      Guarantees env R G (ExceptT.run (body x)) (Round J Q) s₁ s)
    (hfuel : ∀ x s, J x s → Q (.ok none) s) (fuel : Nat) {x : X} (hG : G s₁ s) (h : J x s) :
    Guarantees env R G (ExceptT.run (iterate body fuel x)) Q s₁ s := by
  have hround (x : X) (y : S × S) (hy : G y.1 y.2 ∧ J x y.2) :
      Keeps (tracked R env) (fun y => G y.1 y.2) (ExceptT.run (body x))
        (Round (fun x y => G y.1 y.2 ∧ J x y.2) fun a y => Q a y.2) y := by
    refine (hbody x y.1 y.2 hy.1 hy.2).mono fun r y' hG hr => ?_
    rcases r with e | x' | a
    · exact hr
    · exact ⟨hG, hr⟩
    · exact hr
  exact keeps_run_iterate (fun x y => G y.1 y.2 ∧ J x y.2) hround
    (fun x y hy => hfuel x y.2 hy.2) fuel ⟨hG, h⟩

end Rules

variable {env : ι → Env F S} {other : S → S → Prop} {R G : ι → S → S → Prop}
variable {ps ps' : ι → Prog F A} {Q : ι → A → S → Prop} {I : S → Prop} {s s' s'' : S}

/-- The rule for pools: what each program does when the others do as it relies on holds along every
run, and so does an invariant that every call keeps. -/
theorem Guarantees.poolRuns (hcooperates : Cooperates R G other)
    (hQ : ∀ i a, Stable (R i) (Q i a)) (hI : ∀ {i s s'}, G i s s' → I s → I s')
    (hother : ∀ {s s'}, other s s' → I s → I s')
    (h : ∀ i, Guarantees (env i) (R i) (G i) (ps i) (Q i) s s) (hs : I s)
    (hruns : PoolRuns env other ps s ps' s') :
    I s' ∧ ∀ i, Guarantees (env i) (R i) (G i) (ps' i) (Q i) s' s' := by
  induction hruns with
  | refl => exact ⟨hs, h⟩
  | @step ps _ i c next r s s' _ hcall hr _ ih =>
    have hi := h i
    rw [hcall] at hi
    have hnext : Guarantees (env i) (R i) (G i) (next r) (Q i) s s' :=
      hi.2 r (s, s') ⟨hcooperates.refl i s, hr⟩
    have hG : G i s s' := hnext.inv
    refine ih (fun j => ?_) (hI hG hs)
    by_cases hj : j = i
    · subst hj
      rw [Function.update_self]
      exact hnext.rely hcooperates.trans (hcooperates.idle j s') (hQ j)
        (hcooperates.refl j s')
    · rw [Function.update_of_ne hj]
      exact (h j).rely hcooperates.trans (hcooperates.idle j s') (hQ j)
        (hcooperates.relies (Ne.symm hj) hG)
  | other hmove _ ih =>
    refine ih (fun i => ?_) (hother hmove hs)
    exact (h i).rely hcooperates.trans (hcooperates.idle i _) (hQ i) (hcooperates.other hmove)

/-- Assertions `K`, one for what is left of each program, under an invariant `I`: a call keeps the
assertion of its program and disturbs no other one. -/
structure Assertions (env : ι → Env F S) (other : S → S → Prop) (I : S → Prop)
    (K : ι → Prog F A → S → Prop) : Prop where
  own : ∀ {i c next s r s'}, I s → K i (.call c next) s → env i s c r s' → I s' ∧ K i (next r) s'
  others : ∀ {i j c next p s r s'}, j ≠ i → I s → K i (.call c next) s → env i s c r s' →
    K j p s → K j p s'
  other : ∀ {s s'}, other s s' → I s → I s' ∧ ∀ i p, K i p s → K i p s'

theorem Assertions.step {K : ι → Prog F A → S → Prop} (h : Assertions env other I K) (hI : I s)
    (hK : ∀ i, K i (ps i) s) {i : ι} {c : F.Call} {next : F.Answer c → Prog F A} {r : F.Answer c}
    (hcall : ps i = .call c next) (hr : env i s c r s') :
    I s' ∧ ∀ j, K j (Function.update ps i (next r) j) s' := by
  have hi := hK i
  rw [hcall] at hi
  obtain ⟨hI', hnext⟩ := h.own hI hi hr
  refine ⟨hI', fun j => ?_⟩
  by_cases hj : j = i
  · subst hj
    rw [Function.update_self]
    exact hnext
  · rw [Function.update_of_ne hj]
    exact h.others hj hI hi hr (hK j)

/-- The rule for assertions. -/
theorem Assertions.poolRuns {K : ι → Prog F A → S → Prop} (h : Assertions env other I K)
    (hI : I s) (hK : ∀ i, K i (ps i) s) (hruns : PoolRuns env other ps s ps' s') :
    I s' ∧ ∀ i, K i (ps' i) s' := by
  induction hruns with
  | refl => exact ⟨hI, hK⟩
  | step hcall hr _ ih =>
    obtain ⟨hI', hK'⟩ := h.step hI hK hcall hr
    exact ih hI' hK'
  | other hmove _ ih =>
    obtain ⟨hI', hstable⟩ := h.other hmove hI
    exact ih hI' fun i => hstable i _ (hK i)

/-- Left alone, a program has an answer to each of its calls, and returns. -/
inductive Returns (env : Env F S) : Prog F A → S → Prop
  | pure (a : A) (s : S) : Returns env (.pure a) s
  | call {c : F.Call} {next : F.Answer c → Prog F A} {s : S} : (∃ r s', env s c r s') →
      (∀ r s', env s c r s' → Returns env (next r) s') → Returns env (.call c next) s

omit [DecidableEq ι] in
/-- A program returns without the others when `J`, which its own calls keep, is enough for the next
one to be answered. -/
theorem Assertions.returns {K : ι → Prog F A → S → Prop} (h : Assertions env other I K) {i : ι}
    {J : S → Prop} (hanswer : ∀ {c next s}, I s → J s → K i (.call c next) s →
      ∃ r s', env i s c r s')
    (hkeep : ∀ {s c r s'}, J s → env i s c r s' → J s') {p : Prog F A} (hI : I s) (hJ : J s)
    (hK : K i p s) : Returns (env i) p s := by
  induction p generalizing s with
  | pure a => exact .pure a s
  | call c next ih =>
    refine .call (hanswer hI hJ hK) fun r s' hr => ?_
    obtain ⟨hI', hnext⟩ := h.own hI hK hr
    exact ih r hI' (hkeep hJ hr) hnext

/-- Programs that only make calls in `P` run in stricter surroundings as well, when these answer
such calls alike in the states of an invariant. -/
theorem PoolRuns.restrict {env' : ι → Env F S} {P : F.Call → Prop} {J : S → Prop}
    (hcall : ∀ i s c r s', J s → P c → env i s c r s' → env' i s c r s' ∧ J s')
    (hother : ∀ s s', J s → other s s' → J s') (hps : ∀ i, (ps i).Only P) (hs : J s)
    (hruns : PoolRuns env other ps s ps' s') : PoolRuns env' other ps s ps' s' := by
  induction hruns with
  | refl => exact .refl _ _
  | @step ps _ i c next r s s' _ hi hr _ ih =>
    have honly := hps i
    rw [hi] at honly
    obtain ⟨hanswer, hs'⟩ := hcall i s c r s' hs honly.1 hr
    refine .step hi hanswer (ih (fun j => ?_) hs')
    by_cases hj : j = i
    · subst hj
      rw [Function.update_self]
      exact honly.2 r
    · rw [Function.update_of_ne hj]
      exact hps j
  | other hmove _ ih => exact .other hmove (ih hps (hother _ _ hs hmove))

/-- A run of one of the programs while the other ones wait, and what follows it. -/
theorem Runs.poolRuns {i : ι} {p p' : Prog F A} (h : Runs (env i) p s p' s') (hi : ps i = p)
    (hrest : PoolRuns env other (Function.update ps i p') s' ps' s'') :
    PoolRuns env other ps s ps' s'' := by
  induction h generalizing ps with
  | refl p s => rwa [← hi, Function.update_eq_self] at hrest
  | step hr _ ih =>
    refine .step hi hr (ih (Function.update_self i _ ps) ?_)
    rwa [Function.update_idem]

/-! ### Schedules -/

/-- The run of a schedule of the programs and of what else happens: a call that cannot be answered
yet is made at a later turn. -/
def playPool (handle : ι → S → (c : F.Call) → Option (F.Answer c × S)) :
    List (ι ⊕ (S → S)) → (ι → Prog F A) × S → (ι → Prog F A) × S
  | [], x => x
  | .inl i :: turns, (ps, s) =>
    playPool handle turns
      (Function.update ps i (turn (handle i) (ps i) s).1, (turn (handle i) (ps i) s).2)
  | .inr move :: turns, (ps, s) => playPool handle turns (ps, move s)

theorem poolRuns_play {handle : ι → S → (c : F.Call) → Option (F.Answer c × S)}
    (hhandle : ∀ {i s c r s'}, handle i s c = some (r, s') → env i s c r s')
    {turns : List (ι ⊕ (S → S))} (hother : ∀ move, .inr move ∈ turns → ∀ s, other s (move s))
    (ps : ι → Prog F A) (s : S) :
    PoolRuns env other ps s (playPool handle turns (ps, s)).1
      (playPool handle turns (ps, s)).2 := by
  induction turns generalizing ps s with
  | nil => exact .refl ps s
  | cons first turns ih =>
    have hrest := ih fun move hmove => hother move (List.mem_cons_of_mem _ hmove)
    cases first with
    | inr move => exact .other (hother move List.mem_cons_self s) (hrest ps (move s))
    | inl i =>
      have hidle := hrest ps s
      dsimp only [playPool]
      cases hcall : ps i with
      | pure a =>
        rw [turn, ← hcall, Function.update_eq_self]
        exact hidle
      | call c next =>
        rw [turn]
        split
        next r s' hanswer => exact .step hcall (hhandle hanswer) (hrest _ s')
        next =>
          rw [← hcall, Function.update_eq_self]
          exact hidle

end InterBtcClients.Library.Prog
