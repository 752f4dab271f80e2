import Mathlib.Algebra.Order.Field.Basic
import Mathlib.Data.List.GetD
import Mathlib.Data.List.Sort
import Mathlib.Tactic.Linarith

/-! The median of a list.  It lies in every interval in which more than half of the elements lie. -/

namespace InterBtcClients.Library

section Sorted

variable {K : Type} [LinearOrder K] {xs : List K} {p : K → Bool}

/-- In a sorted list, the elements that meet a condition which passes to smaller ones come first. -/
theorem getElem_iff_lt_countP (hsorted : xs.Pairwise (· ≤ ·))
    (hp : ∀ x y, x ≤ y → p y = true → p x = true) {i : Nat} (hi : i < xs.length) :
    p xs[i] = true ↔ i < xs.countP p := by
  have hle {j k : Nat} (hjk : j ≤ k) (hk : k < xs.length) : xs[j] ≤ xs[k] := by
    rcases Nat.lt_or_eq_of_le hjk with hlt | rfl
    · exact List.pairwise_iff_getElem.mp hsorted j k _ _ hlt
    · exact le_refl _
  constructor
  · intro hpi
    have htake : ∀ x ∈ xs.take (i + 1), p x = true := by
      intro x hx
      obtain ⟨j, hj, rfl⟩ := List.mem_take_iff_getElem.mp hx
      exact hp _ _ (hle (by omega) hi) hpi
    calc i < (xs.take (i + 1)).length := by simp; omega
      _ = (xs.take (i + 1)).countP p := (List.countP_eq_length.mpr htake).symm
      _ ≤ xs.countP p := (List.take_sublist _ _).countP_le
  · intro hcount
    by_contra hpi
    have hdrop : (xs.drop i).countP p = 0 := by
      refine List.countP_eq_zero.mpr fun x hx hpx => hpi ?_
      obtain ⟨j, hj, rfl⟩ := List.mem_drop_iff_getElem.mp hx
      exact hp _ _ (hle (by omega) (by omega)) hpx
    have htake : (xs.take i).countP p ≤ i := by
      refine List.countP_le_length.trans ?_
      simp
    have hsplit := congrArg (List.countP p) (List.take_append_drop i xs)
    rw [List.countP_append] at hsplit
    omega

def within (lo hi x : K) : Bool := decide (lo ≤ x) && decide (x ≤ hi)

@[simp] theorem within_iff {lo hi x : K} : within lo hi x = true ↔ lo ≤ x ∧ x ≤ hi := by
  simp [within]

/-- The elements in the middle of a sorted list. -/
theorem middle_within {lo hi : K} (hsorted : xs.Pairwise (· ≤ ·))
    (h : xs.length < 2 * xs.countP (within lo hi)) {i : Nat} (hlt : i < xs.length)
    (hlower : xs.length ≤ 2 * i + 2) (hupper : 2 * i ≤ xs.length) :
    within lo hi xs[i] = true := by
  refine within_iff.mpr ⟨?_, ?_⟩
  · by_contra hlo
    have hbelow := (getElem_iff_lt_countP (p := fun x => !decide (lo ≤ x)) hsorted
      (fun x y hxy hy => by simp at hy ⊢; exact lt_of_le_of_lt hxy hy) hlt).mp (by simp [hlo])
    have hle : xs.countP (within lo hi) ≤ xs.countP fun x => decide (lo ≤ x) :=
      List.countP_mono_left fun x _ hx => by simpa using (within_iff.mp hx).1
    have hsplit := List.length_eq_countP_add_countP (fun x => decide (lo ≤ x)) (l := xs)
    simp only [Bool.not_eq_true, Bool.decide_eq_false] at hsplit
    omega
  · have hle : xs.countP (within lo hi) ≤ xs.countP fun x => decide (x ≤ hi) :=
      List.countP_mono_left fun x _ hx => by simpa using (within_iff.mp hx).2
    have habove := (getElem_iff_lt_countP (p := fun x => decide (x ≤ hi)) hsorted
      (fun x y hxy hy => by simp at hy ⊢; exact hxy.trans hy) hlt).mpr (by omega)
    simpa using habove

end Sorted

variable {K : Type} [Field K] [LinearOrder K]

/-- The middle one of the elements in order, or the mean of the two in the middle; zero for the
empty list. -/
def median (xs : List K) : K :=
  let sorted := xs.mergeSort
  let middle := xs.length / 2
  if xs.length % 2 = 1 then sorted.getD middle 0
  else (sorted.getD (middle - 1) 0 + sorted.getD middle 0) / 2

theorem median_within [IsStrictOrderedRing K] {lo hi : K} {xs : List K}
    (h : xs.length < 2 * xs.countP (within lo hi)) : within lo hi (median xs) = true := by
  have hsorted : xs.mergeSort.Pairwise (· ≤ ·) := by
    simpa using xs.pairwise_mergeSort' (· ≤ ·)
  have hlength : xs.mergeSort.length = xs.length := xs.length_mergeSort
  have hcount : xs.mergeSort.countP (within lo hi) = xs.countP (within lo hi) :=
    (xs.mergeSort_perm _).countP_eq _
  have hmiddle {i : Nat} (hlt : i < xs.length) (hlower : xs.length ≤ 2 * i + 2)
      (hupper : 2 * i ≤ xs.length) : within lo hi (xs.mergeSort.getD i 0) = true := by
    rw [List.getD_eq_getElem _ _ (by omega)]
    exact middle_within hsorted (by omega) _ (by omega) (by omega)
  have hpos : 0 < xs.length := by
    have := xs.countP_le_length (p := within lo hi)
    omega
  unfold median
  split
  · exact hmiddle (by omega) (by omega) (by omega)
  · have hfirst := within_iff.mp (hmiddle (i := xs.length / 2 - 1) (by omega) (by omega) (by omega))
    have hsecond := within_iff.mp (hmiddle (i := xs.length / 2) (by omega) (by omega) (by omega))
    exact within_iff.mpr ⟨by linarith, by linarith⟩

end InterBtcClients.Library
