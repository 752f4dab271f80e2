import Mathlib.Data.PEquiv
import Mathlib.Logic.Function.Basic

/-! Pairs of partial functions that are inverse to each other, or one of which is inverse to the
other, and what updates of the two keep of that. -/

namespace InterBtcClients.Library

variable {K V : Type}

/-- Erasing the pair `k`, `v` removes that pair and no other. -/
theorem update_none_iff [DecidableEq K] {f : K → Option V} {k : K} {v : V} (hk : f k = some v)
    (k' : K) (v' : V) :
    Function.update f k none k' = some v' ↔ f k' = some v' ∧ (k', v') ≠ (k, v) := by
  by_cases hkk : k' = k
  · subst hkk
    simp only [Function.update_self, hk, Option.some.injEq, ne_eq, Prod.mk.injEq, true_and]
    constructor
    · intro h
      cases h
    · rintro ⟨rfl, hne⟩
      exact absurd rfl hne
  · simp [hkk]

/-- `f` and `g` hold the same pairs, seen from either end. -/
def Inverse (f : K → Option V) (g : V → Option K) : Prop :=
  ∀ k v, f k = some v ↔ g v = some k

namespace Inverse

variable {f : K → Option V} {g : V → Option K}

theorem symm (h : Inverse f g) : Inverse g f := fun v k => (h k v).symm

/-- Mathlib's partial bijection with these two directions. -/
def toPEquiv (h : Inverse f g) : K ≃. V where
  toFun := f
  invFun := g
  inv k v := by simpa [Option.mem_def] using (h k v).symm

theorem empty : Inverse (fun _ : K => (none : Option V)) (fun _ => none) := by
  intro k v
  simp

theorem injective (h : Inverse f g) {k k' : K} {v : V} (hk : f k = some v) (hk' : f k' = some v) :
    k = k' :=
  h.toPEquiv.inj hk hk'

variable [DecidableEq K] [DecidableEq V]

/-- When the two stay inverse with `k`, `v` added, `k` has no other value. -/
theorem eq_of_update (h : Inverse f g) {k : K} {v w : V}
    (hnew : Inverse (Function.update f k (some v)) (Function.update g v (some k)))
    (hw : f k = some w) : w = v := by
  by_contra hne
  have hg : Function.update g v (some k) w = some k := by
    rw [Function.update_of_ne hne]
    exact (h k w).mp hw
  have hgv : Function.update g v (some k) v = some k := Function.update_self ..
  exact hne (hnew.symm.injective hg hgv)

/-- Adding the pair `k`, `v` at both ends keeps the two inverse exactly when neither `k` nor `v` is
part of another pair. -/
theorem update_iff (h : Inverse f g) (k : K) (v : V) :
    Inverse (Function.update f k (some v)) (Function.update g v (some k)) ↔
      (∀ w, f k = some w → w = v) ∧ (∀ j, g v = some j → j = k) := by
  constructor
  · intro hnew
    constructor
    · intro w hw
      exact h.eq_of_update hnew hw
    · intro j hj
      exact h.symm.eq_of_update hnew.symm hj
  · rintro ⟨hv, hk⟩ k' v'
    by_cases hkk : k' = k
    · subst hkk
      by_cases hvv : v' = v
      · simp [hvv]
      · have hnot : g v' ≠ some k' := fun hg => hvv (hv v' ((h k' v').mpr hg))
        simpa [Function.update_of_ne hvv, Ne.symm hvv] using hnot
    · by_cases hvv : v' = v
      · subst hvv
        have hnot : f k' ≠ some v' := fun hf => hkk (hk k' ((h k' v').mp hf))
        simpa [Function.update_of_ne hkk, Ne.symm hkk] using hnot
      · rw [Function.update_of_ne hkk, Function.update_of_ne hvv]
        exact h k' v'

theorem erase (h : Inverse f g) {k : K} {v : V} (hk : f k = some v) :
    Inverse (Function.update f k none) (Function.update g v none) := by
  intro k' v'
  rw [update_none_iff hk, update_none_iff ((h k v).mp hk), h k' v']
  simp [and_comm]

end Inverse

/-- What `f` finds under a label has that label by `g`. -/
def Labelled (f : K → Option V) (g : V → Option K) : Prop :=
  ∀ k v, f k = some v → g v = some k

namespace Labelled

variable {f : K → Option V} {g : V → Option K}

theorem empty (g : V → Option K) : Labelled (fun _ => none) g := by
  intro k v h
  cases h

/-- Giving `v` the label `k` keeps this exactly when `v` is found under no other label. -/
theorem update_iff [DecidableEq K] [DecidableEq V] (h : Labelled f g) (k : K) (v : V) :
    Labelled (Function.update f k (some v)) (Function.update g v (some k)) ↔
      ∀ j, f j = some v → j = k := by
  constructor
  · intro hnew j hj
    by_contra hne
    have hlabel := hnew j v (by rwa [Function.update_of_ne hne])
    rw [Function.update_self] at hlabel
    exact hne (Option.some.inj hlabel).symm
  · intro hv k' v' hfound
    by_cases hkk : k' = k
    · subst hkk
      rw [Function.update_self] at hfound
      cases hfound
      exact Function.update_self ..
    · rw [Function.update_of_ne hkk] at hfound
      have hne : v' ≠ v := fun hvv => hkk (hv k' (hvv ▸ hfound))
      rw [Function.update_of_ne hne]
      exact h k' v' hfound

end Labelled

end InterBtcClients.Library
