import Mathlib.Algebra.BigOperators.Group.List.Basic
import Mathlib.Algebra.Order.BigOperators.Group.List
import Mathlib.Data.List.Count
import Mathlib.Algebra.Order.Field.Rat
import Mathlib.Tactic.FieldSimp
import Mathlib.Tactic.Positivity

/-! Products of the values of symbols, under all valuations by positive rationals: a list of symbols
is determined by its products, up to order. -/

namespace InterBtcClients.Library

variable {S : Type}

/-- A positive value for every symbol. -/
abbrev Valuation (S : Type) := S → { q : ℚ // 0 < q }

namespace Valuation

/-- The product of the values of `symbols`. -/
def product (v : Valuation S) (symbols : List S) : ℚ := (symbols.map fun s => (v s).1).prod

@[simp] theorem product_nil (v : Valuation S) : v.product [] = 1 := rfl

@[simp] theorem product_cons (v : Valuation S) (s : S) (symbols : List S) :
    v.product (s :: symbols) = v s * v.product symbols := List.prod_cons

theorem product_pos (v : Valuation S) (symbols : List S) : 0 < v.product symbols := by
  induction symbols with
  | nil => exact one_pos
  | cons s symbols ih =>
    rw [product_cons]
    exact mul_pos (v s).2 ih

theorem product_perm (v : Valuation S) {left right : List S} (h : left.Perm right) :
    v.product left = v.product right :=
  (h.map _).prod_eq

variable [DecidableEq S]

/-- Two for `s` and one for every other symbol. -/
def two (s : S) : Valuation S := fun t => if t = s then ⟨2, by decide⟩ else ⟨1, by decide⟩

theorem product_two (s : S) (symbols : List S) : (two s).product symbols = 2 ^ symbols.count s := by
  induction symbols with
  | nil => simp
  | cons t symbols ih =>
    rw [product_cons, ih, List.count_cons]
    by_cases h : t = s
    · simp [two, h, pow_succ, mul_comm]
    · simp [two, h]

theorem product_eq_iff_perm {left right : List S} :
    (∀ v : Valuation S, v.product left = v.product right) ↔ left.Perm right := by
  constructor
  · intro h
    refine List.perm_iff_count.mpr fun s => ?_
    have hs := h (two s)
    rw [product_two, product_two] at hs
    exact Nat.pow_right_injective (Nat.le_refl 2) (by exact_mod_cast hs)
  · exact fun h v => v.product_perm h

end Valuation

end InterBtcClients.Library
