import Mathlib.Algebra.Order.Field.Basic
import Mathlib.Tactic.FieldSimp
import Mathlib.Tactic.Ring

/-! Numbers that are within a factor of others: products and inverses of such numbers. -/

namespace InterBtcClients.Library

variable {K : Type} [Field K] [LinearOrder K]

/-- `q` is within the factor `t` of `p`. -/
def Near (t p q : K) : Prop := p / t ≤ q ∧ q ≤ p * t

namespace Near

variable [IsStrictOrderedRing K] {s t p q p' q' : K}

theorem pos (h : Near t p q) (ht : 0 < t) (hp : 0 < p) : 0 < q :=
  lt_of_lt_of_le (div_pos hp ht) h.1

theorem mul (h : Near s p q) (h' : Near t p' q') (hs : 0 < s) (ht : 0 < t) (hp : 0 < p)
    (hp' : 0 < p') : Near (s * t) (p * p') (q * q') := by
  have hq := h.pos hs hp
  have hq' := h'.pos ht hp'
  constructor
  · calc p * p' / (s * t) = (p / s) * (p' / t) := by field_simp
      _ ≤ q * q' := mul_le_mul h.1 h'.1 (div_pos hp' ht).le hq.le
  · calc q * q' ≤ (p * s) * (p' * t) := mul_le_mul h.2 h'.2 hq'.le (mul_pos hp hs).le
      _ = p * p' * (s * t) := by ring

theorem one_div (h : Near t p q) (ht : 0 < t) (hp : 0 < p) : Near t (1 / p) (1 / q) := by
  have hq := h.pos ht hp
  constructor
  · calc 1 / p / t = 1 / (p * t) := by field_simp
      _ ≤ 1 / q := one_div_le_one_div_of_le hq h.2
  · calc 1 / q ≤ 1 / (p / t) := one_div_le_one_div_of_le (div_pos hp ht) h.1
      _ = 1 / p * t := by field_simp

theorem mono (h : Near s p q) (hs : 0 < s) (hst : s ≤ t) (hp : 0 < p) : Near t p q :=
  ⟨(div_le_div_of_nonneg_left hp.le hs hst).trans h.1,
    h.2.trans (mul_le_mul_of_nonneg_left hst hp.le)⟩

end Near

end InterBtcClients.Library
