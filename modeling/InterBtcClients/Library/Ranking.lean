import Mathlib.Algebra.BigOperators.Group.Finset.Basic
import Mathlib.Data.Finset.Max

/-! The rank of an element of a finite set: how many elements are below it.  The ranks of a set of
`n` elements are the numbers below `n`.  In a list some elements occur more than once. -/

namespace InterBtcClients.Library

open Finset

variable {β : Type} [LinearOrder β]

/-- The number of elements of `s` below `x`. -/
def rank (s : Finset β) (x : β) : Nat := #{y ∈ s | y < x}

/-- The element above all others has the greatest rank and changes no other. -/
theorem rank_insert_max {s : Finset β} {a : β} (ha : ∀ x ∈ s, x < a) :
    rank (insert a s) a = #s ∧ ∀ x ∈ s, rank (insert a s) x = rank s x := by
  constructor
  · rw [rank, filter_insert, if_neg (lt_irrefl a), filter_true_of_mem ha]
  · intro x hx
    rw [rank, filter_insert, if_neg (lt_asymm (ha x hx)), rank]

/-- As many elements have a rank below `m` as there are numbers below `m`, or all of them. -/
theorem card_rank_lt (s : Finset β) (m : Nat) : #{x ∈ s | rank s x < m} = min #s m := by
  induction s using Finset.induction_on_max with
  | empty => simp
  | insert a s ha ih =>
    obtain ⟨htop, hothers⟩ := rank_insert_max ha
    have hmem : a ∉ s := fun h => lt_irrefl a (ha a h)
    have hfilter : {x ∈ s | rank (insert a s) x < m} = {x ∈ s | rank s x < m} :=
      filter_congr fun x hx => by rw [hothers x hx]
    rw [filter_insert, hfilter, htop, card_insert_of_notMem hmem]
    split
    · rename_i hlt
      rw [card_insert_of_notMem fun h => hmem (mem_filter.mp h).1, ih]
      omega
    · rw [ih]
      omega

/-- Each element counts as often as it occurs. -/
theorem length_filter_eq_card_add {α : Type} [DecidableEq α] (xs : List α) (p : α → Prop)
    [DecidablePred p] :
    (xs.filter p).length =
      #{x ∈ xs.toFinset | p x} + ∑ x ∈ xs.toFinset with p x, (xs.count x - 1) := by
  have hcount : ∀ x ∈ xs.toFinset.filter p, (xs.filter p).count x = 1 + (xs.count x - 1) := by
    intro x hx
    obtain ⟨hmem, hp⟩ := mem_filter.mp hx
    have hpos := List.count_pos_iff.mpr (List.mem_toFinset.mp hmem)
    rw [List.count_filter (p := fun x => decide (p x)) (decide_eq_true hp)]
    omega
  calc (xs.filter p).length
      = ∑ x ∈ (xs.filter p).toFinset, (xs.filter p).count x :=
        (List.sum_toFinset_count_eq_length _).symm
    _ = ∑ x ∈ xs.toFinset with p x, (1 + (xs.count x - 1)) := by
        rw [List.toFinset_filter]
        simp only [decide_eq_true_eq]
        exact sum_congr rfl hcount
    _ = #{x ∈ xs.toFinset | p x} + ∑ x ∈ xs.toFinset with p x, (xs.count x - 1) := by
        rw [sum_add_distrib, card_eq_sum_ones]

end InterBtcClients.Library
