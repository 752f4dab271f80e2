import InterBtcClients.Library.Prog

/-! Loops that may go on forever: a round ends with the state of the next one or with the result of
the loop.  `LoopRuns` are the runs of such a loop, and `LoopEnds` says that all of them come to a
result, with the rules that lead from the rounds to the loop. -/

namespace InterBtcClients.Library.Prog

variable {F : Interface} {A X S : Type}

/-- What is left of a round, `p`, and the rounds after it can get from `s` to where `p'` is left of
a round, in `s'`. -/
inductive LoopRuns (env : Env F S) (body : X → Prog F (X ⊕ A)) :
    Prog F (X ⊕ A) → S → Prog F (X ⊕ A) → S → Prop
  | refl (p : Prog F (X ⊕ A)) (s : S) : LoopRuns env body p s p s
  | step {c : F.Call} {next : F.Answer c → Prog F (X ⊕ A)} {r : F.Answer c} {s s' s'' : S}
      {p : Prog F (X ⊕ A)} : env s c r s' → LoopRuns env body (next r) s' p s'' →
      LoopRuns env body (.call c next) s p s''
  | again {x : X} {s s' : S} {p : Prog F (X ⊕ A)} : LoopRuns env body (body x) s p s' →
      LoopRuns env body (.pure (.inl x)) s p s'

/-- However the calls are answered, there is an answer to each and the loop ends with `Q`. -/
inductive LoopEnds (env : Env F S) (body : X → Prog F (X ⊕ A)) (Q : A → S → Prop) :
    Prog F (X ⊕ A) → S → Prop
  | done {a : A} {s : S} : Q a s → LoopEnds env body Q (.pure (.inr a)) s
  | again {x : X} {s : S} : LoopEnds env body Q (body x) s → LoopEnds env body Q (.pure (.inl x)) s
  | call {c : F.Call} {next : F.Answer c → Prog F (X ⊕ A)} {s : S} : (∃ r s', env s c r s') →
      (∀ r s', env s c r s' → LoopEnds env body Q (next r) s') →
      LoopEnds env body Q (.call c next) s

variable {env : Env F S} {body : X → Prog F (X ⊕ A)} {I : S → Prop} {J : X → S → Prop}
variable {Q : A → S → Prop} {p p' : Prog F (X ⊕ A)} {s s' : S}

/-- The invariant rule: what each round keeps, with `J` at its start, holds wherever a run gets. -/
theorem Keeps.loopRuns (hbody : ∀ x s, I s → J x s → Keeps env I (body x) (Sum.elim J Q) s)
    (h : Keeps env I p (Sum.elim J Q) s) (hruns : LoopRuns env body p s p' s') :
    Keeps env I p' (Sum.elim J Q) s' := by
  induction hruns with
  | refl => exact h
  | step hr _ ih => exact ih (h.2 _ _ hr)
  | again _ ih => exact ih (hbody _ _ h.1 h.2)

/-- The invariant rule for loops of at most `fuel` rounds. -/
theorem keeps_iterate {R : Option A → S → Prop}
    (hbody : ∀ x s, J x s → Keeps env I (body x) (Sum.elim J fun a => R (some a)) s)
    (hfuel : ∀ x s, J x s → R none s) (fuel : Nat) {x : X} (h : J x s) :
    Keeps env I (iterate body fuel x) R s := by
  induction fuel generalizing x s with
  | zero => exact ⟨(hbody x s h).inv, hfuel x s h⟩
  | succ fuel ih =>
    refine keeps_bind.mpr ((hbody x s h).mono fun r s hs hr => ?_)
    cases r with
    | inl x => exact ih hr
    | inr a => exact ⟨hs, hr⟩

theorem Runs.loopRuns {p p' : Prog F (X ⊕ A)} (h : Runs env p s p' s') :
    LoopRuns env body p s p' s' := by
  induction h with
  | refl => exact .refl _ _
  | step hr _ ih => exact .step hr ih

theorem LoopRuns.inv (hcall : ∀ s c r s', I s → env s c r s' → I s')
    (hruns : LoopRuns env body p s p' s') (hs : I s) : I s' := by
  induction hruns with
  | refl => exact hs
  | step hr _ ih => exact ih (hcall _ _ _ _ hs hr)
  | again _ ih => exact ih hs

theorem LoopEnds.returns (h : LoopEnds env body Q p s) :
    ∃ a s', LoopRuns env body p s (.pure (.inr a)) s' ∧ Q a s' := by
  induction h with
  | done hQ => exact ⟨_, _, .refl _ _, hQ⟩
  | again _ ih =>
    obtain ⟨a, s', hruns, hQ⟩ := ih
    exact ⟨a, s', .again hruns, hQ⟩
  | call hanswer _ ih =>
    obtain ⟨r, s₁, hr⟩ := hanswer
    obtain ⟨a, s', hruns, hQ⟩ := ih r s₁ hr
    exact ⟨a, s', .step hr hruns, hQ⟩

theorem LoopEnds.of_round (henabled : ∀ s c, I s → ∃ r s', env s c r s')
    (h : Keeps env I p (Sum.elim (fun x => LoopEnds env body Q (body x)) Q) s) :
    LoopEnds env body Q p s := by
  induction p generalizing s with
  | pure a =>
    cases a with
    | inl x => exact .again h.2
    | inr a => exact .done h.2
  | call c next ih => exact .call (henabled s c h.1) fun r s' hr => ih r (h.2 r s' hr)

/-- The termination rule: a round that does not end the loop makes the measure smaller. -/
theorem LoopEnds.of_keeps (henabled : ∀ s c, I s → ∃ r s', env s c r s') (measure : S → Nat)
    (hbody : ∀ x s, I s → J x s →
      Keeps env I (body x) (Sum.elim (fun x s' => J x s' ∧ measure s' < measure s) Q) s)
    (h : Keeps env I p (Sum.elim J Q) s) : LoopEnds env body Q p s := by
  have hloop (n : Nat) : ∀ x s, I s → J x s → measure s < n → LoopEnds env body Q (body x) s := by
    induction n with
    | zero => exact fun _ _ _ _ hlt => absurd hlt (Nat.not_lt_zero _)
    | succ n ih =>
      intro x s hs hJ hlt
      refine .of_round henabled ((hbody x s hs hJ).mono fun r s' hs' hr => ?_)
      cases r with
      | inl x => exact ih x s' hs' hr.1 (by have := hr.2; omega)
      | inr a => exact hr
  refine .of_round henabled (h.mono fun r s hs hr => ?_)
  cases r with
  | inl x => exact hloop _ x s hs hr (Nat.lt_succ_self _)
  | inr a => exact hr

end InterBtcClients.Library.Prog
