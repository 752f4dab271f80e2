import Mathlib.Data.List.Basic

/-! Reading a list in pages, each asked for by the key of the last entry read.  A list that grows at
its head while it is read does not disturb the reading. -/

namespace InterBtcClients.Library.Paging

variable {A K : Type} (key : A → K)

/-- The entries after the one with the given key; all of them when none is given. -/
def after [DecidableEq K] : Option K → List A → List A
  | none, entries => entries
  | some k, entries => (entries.dropWhile fun a => key a ≠ k).tail

/-- `rest` is what is left to read after the entry with key `last`. -/
def Position (entries : List A) (last : Option K) (rest : List A) : Prop :=
  match last with
  | none => rest = entries
  | some k => ∃ read a, key a = k ∧ entries = read ++ a :: rest

variable {key} {entries rest : List A} {last : Option K}

theorem after_of_position [DecidableEq K] (hdistinct : (entries.map key).Nodup)
    (h : Position key entries last rest) : after key last entries = rest := by
  cases last with
  | none => exact h.symm
  | some k =>
    obtain ⟨read, a, rfl, rfl⟩ := h
    have hread (b : A) (hb : b ∈ read) : key b ≠ key a := by
      rw [List.map_append, List.nodup_append] at hdistinct
      exact hdistinct.2.2 _ (List.mem_map_of_mem hb) _ (by simp)
    rw [after, List.dropWhile_append_of_pos (by simpa using hread)]
    simp

theorem Position.grow {k : K} (h : Position key entries (some k) rest) (new : List A) :
    Position key (new ++ entries) (some k) rest := by
  obtain ⟨read, a, hkey, rfl⟩ := h
  exact ⟨new ++ read, a, hkey, (List.append_assoc new read (a :: rest)).symm⟩

/-- Reading on by a non-empty page. -/
theorem Position.next (h : Position key entries last rest) {page left : List A}
    (hrest : rest = page ++ left) {b : A} (hlast : page.getLast? = some b) :
    Position key entries (some (key b)) left := by
  obtain ⟨front, rfl⟩ := List.getLast?_eq_some_iff.mp hlast
  subst hrest
  cases last with
  | none => exact ⟨front, b, rfl, by rw [← h, List.append_assoc]; rfl⟩
  | some k =>
    obtain ⟨read, a, -, rfl⟩ := h
    exact ⟨read ++ a :: front, b, rfl, by simp⟩

end InterBtcClients.Library.Paging
