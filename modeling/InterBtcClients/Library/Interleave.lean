import InterBtcClients.Library.Prog

/-! Two programs that run at once on a shared state, which others change as well.  Each is verified
on its own, in surroundings that may change as it relies on before every answer: when what each
relies on is what the others do, both verifications hold along every interleaved run. -/

namespace InterBtcClients.Library.Prog

variable {F G : Interface} {A B S : Type}

/-- `p` and `q` from `s` can get to where `p'` and `q'` are left to run, in `s'`. -/
inductive Interleaves (env : Env F S) (env' : Env G S) (other : S → S → Prop) :
    Prog F A → Prog G B → S → Prog F A → Prog G B → S → Prop
  | refl (p : Prog F A) (q : Prog G B) (s : S) : Interleaves env env' other p q s p q s
  | left {c : F.Call} {next : F.Answer c → Prog F A} {r : F.Answer c} {q : Prog G B} {s s' s'' : S}
      {p' : Prog F A} {q' : Prog G B} : env s c r s' →
      Interleaves env env' other (next r) q s' p' q' s'' →
      Interleaves env env' other (.call c next) q s p' q' s''
  | right {c : G.Call} {next : G.Answer c → Prog G B} {r : G.Answer c} {p : Prog F A} {s s' s'' : S}
      {p' : Prog F A} {q' : Prog G B} : env' s c r s' →
      Interleaves env env' other p (next r) s' p' q' s'' →
      Interleaves env env' other p (.call c next) s p' q' s''
  | other {p : Prog F A} {q : Prog G B} {s s' s'' : S} {p' : Prog F A} {q' : Prog G B} :
      other s s' → Interleaves env env' other p q s' p' q' s'' →
      Interleaves env env' other p q s p' q' s''

/-- Surroundings that others change, as `R` allows, before an answer. -/
def interfere (R : S → S → Prop) (env : Env F S) : Env F S :=
  fun s c r s'' => ∃ s', R s s' ∧ env s' c r s''

def Stable (R : S → S → Prop) (Q : S → Prop) : Prop := ∀ s s', R s s' → Q s → Q s'

/-- What the first program relies on is `R`, and what the second relies on is `R'`. -/
structure Compatible (env : Env F S) (env' : Env G S) (other R R' : S → S → Prop) : Prop where
  refl_left : ∀ s, R s s
  refl_right : ∀ s, R' s s
  trans_left : ∀ {s s' s''}, R s s' → R s' s'' → R s s''
  trans_right : ∀ {s s' s''}, R' s s' → R' s' s'' → R' s s''
  left : ∀ {s c r s'}, env s c r s' → R' s s'
  right : ∀ {s c r s'}, env' s c r s' → R s s'
  other_left : ∀ {s s'}, other s s' → R s s'
  other_right : ∀ {s s'}, other s s' → R' s s'

variable {env : Env F S} {env' : Env G S} {other R R' : S → S → Prop} {I J : S → Prop}
variable {P : A → S → Prop} {Q : B → S → Prop} {p p' : Prog F A} {q q' : Prog G B} {s s' : S}

theorem Keeps.stable (htrans : ∀ {s s' s''}, R s s' → R s' s'' → R s s'') (hI : Stable R I)
    (hP : ∀ a, Stable R (P a)) (h : Keeps (interfere R env) I p P s) (hR : R s s') :
    Keeps (interfere R env) I p P s' := by
  cases p with
  | pure a => exact ⟨hI s s' hR h.1, hP a s s' hR h.2⟩
  | call c next =>
    refine ⟨hI s s' hR h.1, fun r s₂ hr => h.2 r s₂ ?_⟩
    obtain ⟨s₁, hs₁, hanswer⟩ := hr
    exact ⟨s₁, htrans hR hs₁, hanswer⟩

/-- The rule for interleaved runs. -/
theorem Keeps.interleaves (hcompatible : Compatible env env' other R R') (hI : Stable R I)
    (hJ : Stable R' J) (hP : ∀ a, Stable R (P a)) (hQ : ∀ b, Stable R' (Q b))
    (hp : Keeps (interfere R env) I p P s) (hq : Keeps (interfere R' env') J q Q s)
    (h : Interleaves env env' other p q s p' q' s') :
    Keeps (interfere R env) I p' P s' ∧ Keeps (interfere R' env') J q' Q s' := by
  induction h with
  | refl => exact ⟨hp, hq⟩
  | left hanswer _ ih =>
    have hp := hp.2 _ _ ⟨_, hcompatible.refl_left _, hanswer⟩
    exact ih hp (hq.stable hcompatible.trans_right hJ hQ (hcompatible.left hanswer))
  | right hanswer _ ih =>
    have hq := hq.2 _ _ ⟨_, hcompatible.refl_right _, hanswer⟩
    exact ih (hp.stable hcompatible.trans_left hI hP (hcompatible.right hanswer)) hq
  | other hother _ ih =>
    have hR := hcompatible.other_left hother
    have hR' := hcompatible.other_right hother
    exact ih (hp.stable hcompatible.trans_left hI hP hR)
      (hq.stable hcompatible.trans_right hJ hQ hR')

/-- The rule for an assertion about what is left of both programs. -/
theorem Interleaves.inv {K : Prog F A → Prog G B → S → Prop}
    (hleft : ∀ {c next q s r s'}, K (.call c next) q s → env s c r s' → K (next r) q s')
    (hright : ∀ {p c next s r s'}, K p (.call c next) s → env' s c r s' → K p (next r) s')
    (hother : ∀ {p q s s'}, K p q s → other s s' → K p q s')
    (h : Interleaves env env' other p q s p' q' s') (hK : K p q s) : K p' q' s' := by
  induction h with
  | refl => exact hK
  | left hanswer _ ih => exact ih (hleft hK hanswer)
  | right hanswer _ ih => exact ih (hright hK hanswer)
  | other hmove _ ih => exact ih (hother hK hmove)

/-! ### Schedules -/

/-- Whose turn it is. -/
inductive Turn (S : Type)
  | left
  | right
  | other (move : S → S)

def turn (handle : S → (c : F.Call) → Option (F.Answer c × S)) : Prog F A → S → Prog F A × S
  | .pure a, s => (.pure a, s)
  | .call c next, s =>
    match handle s c with
    | some (r, s') => (next r, s')
    | none => (.call c next, s)

/-- The run of a schedule: a call that cannot be answered yet is made at a later turn. -/
def play (handle : S → (c : F.Call) → Option (F.Answer c × S))
    (handle' : S → (c : G.Call) → Option (G.Answer c × S)) :
    List (Turn S) → Prog F A × Prog G B × S → Prog F A × Prog G B × S
  | [], x => x
  | .left :: turns, (p, q, s) =>
    play handle handle' turns ((turn handle p s).1, q, (turn handle p s).2)
  | .right :: turns, (p, q, s) =>
    play handle handle' turns (p, (turn handle' q s).1, (turn handle' q s).2)
  | .other move :: turns, (p, q, s) => play handle handle' turns (p, q, move s)

theorem interleaves_play {handle : S → (c : F.Call) → Option (F.Answer c × S)}
    {handle' : S → (c : G.Call) → Option (G.Answer c × S)}
    (hhandle : ∀ {s c r s'}, handle s c = some (r, s') → env s c r s')
    (hhandle' : ∀ {s c r s'}, handle' s c = some (r, s') → env' s c r s')
    {turns : List (Turn S)} (hother : ∀ move, .other move ∈ turns → ∀ s, other s (move s))
    (p : Prog F A) (q : Prog G B) (s : S) :
    Interleaves env env' other p q s (play handle handle' turns (p, q, s)).1
      (play handle handle' turns (p, q, s)).2.1 (play handle handle' turns (p, q, s)).2.2 := by
  induction turns generalizing p q s with
  | nil => exact .refl p q s
  | cons first turns ih =>
    have hrest := ih fun move hmove => hother move (List.mem_cons_of_mem _ hmove)
    cases first with
    | other move => exact .other (hother move List.mem_cons_self s) (hrest p q (move s))
    | left =>
      cases p with
      | pure a => exact hrest (.pure a) q s
      | call c next =>
        dsimp only [play, turn]
        split
        next r s' hanswer => exact .left (hhandle hanswer) (hrest (next r) q s')
        next => exact hrest (.call c next) q s
    | right =>
      cases q with
      | pure b => exact hrest p (.pure b) s
      | call c next =>
        dsimp only [play, turn]
        split
        next r s' hanswer => exact .right (hhandle' hanswer) (hrest p (next r) s')
        next => exact hrest p (.call c next) s

/-- The result of a program that has ended. -/
def result? : Prog F A → Option A
  | .pure a => some a
  | .call _ _ => none

theorem eq_pure_of_result? {a : A} (h : p.result? = some a) : p = .pure a := by
  cases p with
  | pure b => rw [Option.some.inj h]
  | call c next => cases h

end InterBtcClients.Library.Prog
