import InterBtcClients.Library.Tiling
import InterBtcClients.Vault.Rescan

/-! The chunks that successive calls of `RescanStatus::process_blocks` cut from the queued range,
the size of each chosen by the caller. -/

namespace InterBtcClients.Vault.RescanStatus

open Library

/-- The status after `n` calls, the `i`-th of them with the chunk size `sizes i`. -/
def afterCalls (s : RescanStatus) (sizes : Nat → Nat) : Nat → RescanStatus
  | 0 => s
  | n + 1 => ((s.afterCalls sizes n).processBlocks (sizes n)).2

/-- What the `n`-th call returns. -/
def chunk (s : RescanStatus) (sizes : Nat → Nat) (n : Nat) : Option (Nat × Nat) :=
  ((s.afterCalls sizes n).processBlocks (sizes n)).1

variable {s : RescanStatus} {sizes : Nat → Nat} {first last maxBlocks : Nat}

theorem afterCalls_succ (s : RescanStatus) (sizes : Nat → Nat) (n : Nat) :
    s.afterCalls sizes (n + 1) =
      (s.processBlocks (sizes 0)).2.afterCalls (fun i => sizes (i + 1)) n := by
  induction n with
  | zero => rfl
  | succ n ih => rw [afterCalls, ih, afterCalls]

theorem chunk_succ (s : RescanStatus) (sizes : Nat → Nat) (n : Nat) :
    s.chunk sizes (n + 1) = (s.processBlocks (sizes 0)).2.chunk (fun i => sizes (i + 1)) n := by
  rw [chunk, afterCalls_succ, chunk]

/-! ### One chunk -/

/-- Below the last `usize` the saturating sum does not move the end of a chunk. -/
theorem chunkEnd_eq (hlast : last < usizeMax) :
    min last (saturatingAdd first maxBlocks - 1) = min last (first + maxBlocks - 1) := by
  simp only [saturatingAdd]
  omega

theorem processBlocks_of_le (hrange : s.queuedRescanRange = some (first, last))
    (hlast : last < usizeMax) (hle : last ≤ first + maxBlocks - 1) :
    s.processBlocks maxBlocks = (some (first, last), { s with queuedRescanRange := none }) := by
  simp only [processBlocks, hrange, chunkEnd_eq hlast, Nat.min_eq_left hle, if_true]

theorem processBlocks_of_lt (hrange : s.queuedRescanRange = some (first, last))
    (hlast : last < usizeMax) (hlt : first + maxBlocks - 1 < last) :
    s.processBlocks maxBlocks = (some (first, first + maxBlocks - 1),
      { s with queuedRescanRange := some (first + maxBlocks - 1 + 1, last) }) := by
  simp only [processBlocks, hrange, chunkEnd_eq hlast, Nat.min_eq_right (Nat.le_of_lt hlt),
    Nat.ne_of_lt hlt, if_false]

/-! ### All chunks -/

/-- `chunks` is what the calls return before the first one that returns nothing. -/
structure Drained (s : RescanStatus) (sizes : Nat → Nat) (chunks : List (Nat × Nat)) : Prop where
  returned : ∀ n (h : n < chunks.length), s.chunk sizes n = some chunks[n]
  size_le : ∀ n (h : n < chunks.length), chunks[n].2 - chunks[n].1 + 1 ≤ sizes n
  exhausted : s.chunk sizes chunks.length = none
  empty : (s.afterCalls sizes (chunks.length + 1)).queuedRescanRange = none

theorem drained_nil (hrange : s.queuedRescanRange = none) : Drained s sizes [] where
  returned n h := absurd h (Nat.not_lt_zero n)
  size_le n h := absurd h (Nat.not_lt_zero n)
  exhausted := by simp [chunk, afterCalls, processBlocks, hrange]
  empty := by simp [afterCalls, processBlocks, hrange]

theorem Drained.cons {s' : RescanStatus} {range : Nat × Nat} {chunks : List (Nat × Nat)}
    (hstep : s.processBlocks (sizes 0) = (some range, s'))
    (hsize : range.2 - range.1 + 1 ≤ sizes 0)
    (h : Drained s' (fun i => sizes (i + 1)) chunks) : Drained s sizes (range :: chunks) where
  returned n hn := by
    cases n with
    | zero => simp [chunk, afterCalls, hstep]
    | succ n =>
      rw [chunk_succ, hstep]
      exact h.returned n (Nat.lt_of_succ_lt_succ hn)
  size_le n hn := by
    cases n with
    | zero => exact hsize
    | succ n => exact h.size_le n (Nat.lt_of_succ_lt_succ hn)
  exhausted := by
    rw [List.length_cons, chunk_succ, hstep]
    exact h.exhausted
  empty := by
    rw [List.length_cons, afterCalls_succ, hstep]
    exact h.empty

/-- By induction on the number of blocks that are still queued after the first one. -/
theorem exists_drained {n : Nat} (hrange : s.queuedRescanRange = some (first, last))
    (hn : last = first + n) (hlast : last < usizeMax) (hsizes : ∀ i, 1 ≤ sizes i) :
    ∃ chunks, Tiles first last chunks ∧ Drained s sizes chunks := by
  induction n using Nat.strong_induction_on generalizing s sizes first with
  | _ n ih =>
    have hsize := hsizes 0
    by_cases hle : last ≤ first + sizes 0 - 1
    · have hstep := processBlocks_of_le hrange hlast hle
      refine ⟨[(first, last)], .single (by omega), .cons hstep ?_ (drained_nil rfl)⟩
      simp only
      omega
    · have hstep := processBlocks_of_lt hrange hlast (Nat.lt_of_not_le hle)
      obtain ⟨chunks, htiles, hdrained⟩ := ih (n - sizes 0) (by omega)
        (s := { s with queuedRescanRange := some (first + sizes 0 - 1 + 1, last) }) rfl (by omega)
        fun i => hsizes (i + 1)
      refine ⟨_ :: chunks, .cons (by omega) htiles, .cons hstep ?_ hdrained⟩
      simp only
      omega

/-- The chunks taken from a queued range until none is left are consecutive and disjoint, none is
empty or longer than asked for, and together they are the range. -/
theorem processBlocks_tiles (s : RescanStatus) (sizes : Nat → Nat) (first last : Nat)
    (hrange : s.queuedRescanRange = some (first, last)) (hle : first ≤ last)
    (hlast : last < usizeMax) (hsizes : ∀ i, 1 ≤ sizes i) :
    ∃ chunks : List (Nat × Nat),
      (∀ n (h : n < chunks.length), s.chunk sizes n = some chunks[n] ∧
        chunks[n].1 ≤ chunks[n].2 ∧ chunks[n].2 - chunks[n].1 + 1 ≤ sizes n) ∧
      chunks.IsChain (fun a b => b.1 = a.2 + 1) ∧
      chunks.Pairwise (fun a b => Disjoint (Set.Icc a.1 a.2) (Set.Icc b.1 b.2)) ∧
      {block | ∃ range ∈ chunks, block ∈ Set.Icc range.1 range.2} = Set.Icc first last ∧
      chunks.length ≤ last - first + 1 ∧
      s.chunk sizes chunks.length = none ∧
      (s.afterCalls sizes (chunks.length + 1)).queuedRescanRange = none := by
  obtain ⟨chunks, htiles, hdrained⟩ :=
    exists_drained hrange (Nat.add_sub_of_le hle).symm hlast hsizes
  exact ⟨chunks, fun n h => ⟨hdrained.returned n h, htiles.nonempty _ (List.getElem_mem h),
    hdrained.size_le n h⟩, htiles.consecutive, htiles.disjoint, htiles.covers, htiles.length_le,
    hdrained.exhausted, hdrained.empty⟩

/-- Blocks 0 to 9 in chunks of 1, 2, 3 and so on. -/
theorem processBlocks_tiles_ten :
    ∃ chunks : List (Nat × Nat), chunks.length ≤ 9 - 0 + 1 ∧
      (⟨0, some (0, 9)⟩ : RescanStatus).chunk (· + 1) chunks.length = none :=
  let ⟨chunks, _, _, _, _, hlength, hnone, _⟩ :=
    processBlocks_tiles ⟨0, some (0, 9)⟩ (· + 1) 0 9 rfl (by decide) (by decide) (by simp)
  ⟨chunks, hlength, hnone⟩

end InterBtcClients.Vault.RescanStatus
