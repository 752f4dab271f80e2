import InterBtcClients.Library.Pool
import Mathlib.Algebra.Order.BigOperators.Group.Finset

/-! What a pool of programs comes to whatever the schedule: every run can go on until it gets there,
and none goes on for ever before. -/

namespace InterBtcClients.Library.Prog

variable {ι : Type} [DecidableEq ι] {F : Interface} {A S : Type}

/-- However the programs are scheduled and their calls answered, they come to where `Q` holds. -/
inductive Inevitably (env : ι → Env F S) (Q : (ι → Prog F A) → S → Prop) :
    (ι → Prog F A) → S → Prop
  | here {ps : ι → Prog F A} {s : S} : Q ps s → Inevitably env Q ps s
  | step {ps : ι → Prog F A} {s : S} :
      (∃ i c next r s', ps i = .call c next ∧ env i s c r s') →
      (∀ i c next r s', ps i = .call c next → env i s c r s' →
        Inevitably env Q (Function.update ps i (next r)) s') →
      Inevitably env Q ps s

/-- The program makes at most `n` calls. -/
def Bounded : Nat → Prog F A → Prop
  | _, .pure _ => True
  | 0, .call _ _ => False
  | n + 1, .call _ next => ∀ r, Bounded n (next r)

variable {env : ι → Env F S} {other : S → S → Prop} {I : S → Prop} {K : ι → Prog F A → S → Prop}
variable {Q : (ι → Prog F A) → S → Prop} {ps : ι → Prog F A} {s : S}

/-- The rule for finitely many programs with finitely many calls: it is enough that while `Q` does
not hold some call can be answered. -/
theorem Assertions.inevitably (h : Assertions env other I K)
    (hprogress : ∀ {ps s}, I s → (∀ i, K i (ps i) s) → ¬Q ps s →
      ∃ i c next r s', ps i = .call c next ∧ env i s c r s')
    (running : Finset ι) {bound : ι → Nat} (hbound : ∀ i, Bounded (bound i) (ps i))
    (hidle : ∀ i, i ∉ running → bound i = 0) (hI : I s) (hK : ∀ i, K i (ps i) s) :
    Inevitably env Q ps s := by
  induction hn : ∑ i ∈ running, bound i using Nat.strong_induction_on generalizing bound ps s with
  | _ n ih =>
    by_cases hQ : Q ps s
    · exact .here hQ
    refine .step (hprogress hI hK hQ) fun i c next r s' hcall hr => ?_
    obtain ⟨hI', hK'⟩ := h.step hI hK hcall hr
    have hi := hbound i
    rw [hcall] at hi
    cases hb : bound i with
    | zero =>
      rw [hb] at hi
      exact hi.elim
    | succ m =>
      rw [hb] at hi
      have hrunning : i ∈ running := by
        by_contra hnot
        rw [hidle i hnot] at hb
        cases hb
      -- the call is one of those that the programs have left
      have hlt : ∑ j ∈ running, Function.update bound i m j < n := by
        rw [← hn]
        refine Finset.sum_lt_sum (fun j _ => ?_) ⟨i, hrunning, ?_⟩
        · by_cases hj : j = i
          · subst hj
            rw [Function.update_self]
            omega
          · rw [Function.update_of_ne hj]
        · rw [Function.update_self]
          omega
      have hleft (j : ι) :
          Bounded (Function.update bound i m j) (Function.update ps i (next r) j) := by
        by_cases hj : j = i
        · subst hj
          rw [Function.update_self, Function.update_self]
          exact hi r
        · rw [Function.update_of_ne hj, Function.update_of_ne hj]
          exact hbound j
      have hidle' (j : ι) (hj : j ∉ running) : Function.update bound i m j = 0 := by
        have hne : j ≠ i := fun heq => hj (heq ▸ hrunning)
        rw [Function.update_of_ne hne]
        exact hidle j hj
      exact ih _ hlt hleft hidle' hI' hK' rfl

/-- What the assertions rule out is not inevitable. -/
theorem Assertions.not_inevitably (h : Assertions env other I K)
    (hQ : ∀ {ps s}, I s → (∀ i, K i (ps i) s) → ¬Q ps s) (hI : I s) (hK : ∀ i, K i (ps i) s) :
    ¬Inevitably env Q ps s := by
  intro hinevitably
  induction hinevitably with
  | here hq => exact hQ hI hK hq
  | step hstep _ ih =>
    obtain ⟨i, c, next, r, s', hcall, hr⟩ := hstep
    obtain ⟨hI', hK'⟩ := h.step hI hK hcall hr
    exact ih i c next r s' hcall hr hI' hK'

end InterBtcClients.Library.Prog
