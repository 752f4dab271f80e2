import Mathlib.Algebra.GroupWithZero.Nat
import Mathlib.Data.List.Basic

/-! The shortest prefix of a list that has a total weight, as a loop finds it that takes the
elements in order and stops once it has enough. -/

namespace InterBtcClients.Library

variable {α : Type} {w : α → Nat} {target : Nat} {x : α} {xs chosen : List α}

/-- `chosen` is the shortest prefix of `xs`, other than the empty one, that weighs `target`. -/
structure ShortestCover (w : α → Nat) (target : Nat) (xs chosen : List α) : Prop where
  initial : chosen <+: xs
  nonempty : chosen ≠ []
  covers : target ≤ (chosen.map w).sum
  shortest : ∀ ys, ys <+: chosen → ys ≠ [] → ys ≠ chosen → (ys.map w).sum < target

namespace ShortestCover

/-- One element is enough. -/
theorem singleton (h : target ≤ w x) : ShortestCover w target (x :: xs) [x] where
  initial := ⟨xs, rfl⟩
  nonempty := List.cons_ne_nil x []
  covers := by simpa using h
  shortest ys hinitial hnonempty hne := by
    cases ys with
    | nil => exact absurd rfl hnonempty
    | cons y ys =>
      obtain ⟨rfl, htail⟩ := List.cons_prefix_cons.mp hinitial
      rw [List.prefix_nil.mp htail] at hne
      exact absurd rfl hne

/-- One element is not enough, and the others cover what it leaves. -/
theorem cons (hlt : w x < target) (h : ShortestCover w (target - w x) xs chosen) :
    ShortestCover w target (x :: xs) (x :: chosen) where
  initial := List.cons_prefix_cons.mpr ⟨rfl, h.initial⟩
  nonempty := List.cons_ne_nil x chosen
  covers := by
    have := h.covers
    simp only [List.map_cons, List.sum_cons]
    omega
  shortest ys hinitial hnonempty hne := by
    cases ys with
    | nil => exact absurd rfl hnonempty
    | cons y ys =>
      obtain ⟨rfl, htail⟩ := List.cons_prefix_cons.mp hinitial
      simp only [List.map_cons, List.sum_cons]
      by_cases hys : ys = []
      · simpa [hys] using hlt
      · have := h.shortest ys htail hys fun heq => hne (by rw [heq])
        omega

/-- A prefix that covers is not shorter than the shortest one. -/
theorem prefix_of_covers {ys : List α} (h : ShortestCover w target xs chosen) (hys : ys <+: xs)
    (hnonempty : ys ≠ []) (hcovers : target ≤ (ys.map w).sum) : chosen <+: ys := by
  rcases List.prefix_or_prefix_of_prefix h.initial hys with hle | hle
  · exact hle
  · by_cases heq : ys = chosen
    · exact heq ▸ List.prefix_rfl
    · have := h.shortest ys hle hnonempty heq
      omega

theorem unique {chosen' : List α} (h : ShortestCover w target xs chosen)
    (h' : ShortestCover w target xs chosen') : chosen = chosen' := by
  have hle := h.prefix_of_covers h'.initial h'.nonempty h'.covers
  have hge := h'.prefix_of_covers h.initial h.nonempty h.covers
  exact hle.eq_of_length_le hge.length_le

/-- The last element alone goes beyond the target. -/
theorem sum_lt {bound : Nat} (h : ShortestCover w target xs chosen)
    (hbound : ∀ x ∈ chosen, w x < bound) : (chosen.map w).sum < target + bound := by
  obtain ⟨ys, x, rfl⟩ := List.eq_nil_or_concat chosen |>.resolve_left h.nonempty
  have hx := hbound x (by simp)
  by_cases hys : ys = []
  · simp only [hys, List.concat_eq_append, List.nil_append, List.map_cons, List.map_nil,
      List.sum_cons, List.sum_nil]
    omega
  · have hlt := h.shortest ys (List.concat_eq_append ▸ List.prefix_append ys [x]) hys (by simp)
    simp only [List.concat_eq_append, List.map_append, List.sum_append, List.map_cons, List.map_nil,
      List.sum_cons, List.sum_nil]
    omega

end ShortestCover

end InterBtcClients.Library
