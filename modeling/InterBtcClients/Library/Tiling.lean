import Mathlib.Data.List.Chain
import Mathlib.Data.Set.Lattice
import Mathlib.Order.CompletePartialOrder
import Mathlib.Order.Interval.Set.Disjoint

/-! Lists of intervals of naturals, both ends included, that tile an interval from left to right. -/

namespace InterBtcClients.Library

/-- The intervals follow one another without a gap, from `first` to `last`. -/
inductive Tiles : Nat → Nat → List (Nat × Nat) → Prop
  | single {first last : Nat} : first ≤ last → Tiles first last [(first, last)]
  | cons {first mid last : Nat} {rest : List (Nat × Nat)} : first ≤ mid →
      Tiles (mid + 1) last rest → Tiles first last ((first, mid) :: rest)

namespace Tiles

variable {first last : Nat} {tiles : List (Nat × Nat)}

theorem le (h : Tiles first last tiles) : first ≤ last := by
  induction h with
  | single hle => exact hle
  | cons hle _ ih => omega

theorem nonempty (h : Tiles first last tiles) : ∀ tile ∈ tiles, tile.1 ≤ tile.2 := by
  induction h with
  | single hle => simpa using hle
  | cons hle _ ih =>
    intro tile hmem
    rcases List.mem_cons.mp hmem with rfl | hmem
    · exact hle
    · exact ih tile hmem

theorem first_le (h : Tiles first last tiles) : ∀ tile ∈ tiles, first ≤ tile.1 := by
  induction h with
  | single => simp
  | cons hle _ ih =>
    intro tile hmem
    rcases List.mem_cons.mp hmem with rfl | hmem
    · exact Nat.le_refl _
    · have := ih tile hmem
      omega

theorem disjoint (h : Tiles first last tiles) :
    tiles.Pairwise fun a b => Disjoint (Set.Icc a.1 a.2) (Set.Icc b.1 b.2) := by
  induction h with
  | single => exact List.pairwise_singleton _ _
  | cons hle htiles ih =>
    refine List.pairwise_cons.mpr ⟨fun tile hmem => ?_, ih⟩
    have hfirst := htiles.first_le tile hmem
    rw [Set.disjoint_left]
    rintro n ⟨-, hn⟩ ⟨hn', -⟩
    simp only at hn
    omega

theorem covers (h : Tiles first last tiles) :
    {n | ∃ tile ∈ tiles, n ∈ Set.Icc tile.1 tile.2} = Set.Icc first last := by
  induction h with
  | single => simp [Set.Icc]
  | @cons first mid last rest hle htiles ih =>
    ext n
    have hn : (∃ tile ∈ rest, n ∈ Set.Icc tile.1 tile.2) ↔ mid + 1 ≤ n ∧ n ≤ last :=
      Set.ext_iff.mp ih n
    have hlast := htiles.le
    rw [Set.mem_ofPred_eq, List.exists_mem_cons_iff, hn, Set.mem_Icc, Set.mem_Icc]
    omega

/-- Each interval after the first starts right after the one before. -/
theorem consecutive (h : Tiles first last tiles) : tiles.IsChain fun a b => b.1 = a.2 + 1 := by
  induction h with
  | single => exact .singleton _
  | cons _ htiles ih =>
    cases htiles with
    | single => exact List.isChain_cons_cons.mpr ⟨rfl, ih⟩
    | cons => exact List.isChain_cons_cons.mpr ⟨rfl, ih⟩

theorem length_le (h : Tiles first last tiles) : tiles.length ≤ last - first + 1 := by
  induction h with
  | single => simp
  | cons hle htiles ih =>
    have hlast := htiles.le
    rw [List.length_cons]
    omega

end Tiles

end InterBtcClients.Library
