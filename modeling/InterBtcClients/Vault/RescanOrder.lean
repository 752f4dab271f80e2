import InterBtcClients.Vault.Rescan
import Mathlib.Data.List.Perm.Basic
import Mathlib.Data.Set.Insert
import Mathlib.Order.Bounds.Basic

/-! What `RescanStatus::update` computes, whatever the order of the issues: the newest open time is
a maximum, the start of the queued range a minimum, and a second update has nothing left to do. -/

namespace InterBtcClients.Vault

open InterBtcClients.Runtime

/-! ### Bounds found in two parts -/

section Bounds

variable {α : Type} [Preorder α] {S T : Set α} {a b : α}

/-- The least element of one part stands for that part. -/
theorem isLeast_union_of_insert (h : IsLeast S a) (h' : IsLeast (insert a T) b) :
    IsLeast (S ∪ T) b := by
  refine ⟨?_, ?_⟩
  · rcases h'.1 with rfl | hmem
    · exact Or.inl h.1
    · exact Or.inr hmem
  · rintro x (hx | hx)
    · exact le_trans (h'.2 (Set.mem_insert a T)) (h.2 hx)
    · exact h'.2 (Set.mem_insert_of_mem a hx)

theorem isGreatest_union_of_insert (h : IsGreatest S a) (h' : IsGreatest (insert a T) b) :
    IsGreatest (S ∪ T) b :=
  isLeast_union_of_insert (α := αᵒᵈ) h h'

end Bounds

namespace RescanStatus

variable (s : RescanStatus) (issues : List InterBtcIssueRequest) (height : Nat)

def opentimes : Set Nat :=
  (·.opentime) '' {issue | issue ∈ issues}

def btcHeights : Set Nat :=
  (·.btcHeight) '' {issue | issue ∈ issues}

/-- The start of the queued range, if any. -/
def queuedStart : Set Nat :=
  {first | ∃ last, s.queuedRescanRange = some (first, last)}

theorem opentimes_cons (issue : InterBtcIssueRequest) :
    opentimes (issue :: issues) = insert issue.opentime (opentimes issues) := by
  rw [opentimes, List.setOfPred_mem_cons, Set.image_insert_eq]
  rfl

theorem btcHeights_cons (issue : InterBtcIssueRequest) :
    btcHeights (issue :: issues) = insert issue.btcHeight (btcHeights issues) := by
  rw [btcHeights, List.setOfPred_mem_cons, Set.image_insert_eq]
  rfl

/-! ### The order of the issues -/

instance : RightCommutative (queueIssue height) where
  right_comm s a b := by
    cases hrange : s.queuedRescanRange with
    | none => simp [queueIssue, hrange, max_assoc, max_comm b.opentime, min_comm b.btcHeight]
    | some range =>
      simp [queueIssue, hrange, max_assoc, max_comm b.opentime, min_assoc, min_comm b.btcHeight]

variable {s issues} in
theorem update_perm {issues' : List InterBtcIssueRequest} (h : issues'.Perm issues) :
    s.update issues' height = s.update issues height :=
  (h.filter _).foldl_eq _

/-! ### The newest issue height -/

theorem isGreatest_foldl_queueIssue :
    IsGreatest (insert s.newestIssueHeight (opentimes issues))
      (issues.foldl (queueIssue height) s).newestIssueHeight := by
  induction issues generalizing s with
  | nil => simp [opentimes]
  | cons issue issues ih =>
    have hstep : IsGreatest {s.newestIssueHeight, issue.opentime}
        (queueIssue height s issue).newestIssueHeight := isGreatest_pair
    have := isGreatest_union_of_insert hstep (ih _)
    rwa [Set.insert_union, Set.singleton_union, ← opentimes_cons] at this

/-- The issues that the update skips do not go beyond the old height. -/
theorem isGreatest_update :
    IsGreatest (insert s.newestIssueHeight (opentimes issues))
      (s.update issues height).newestIssueHeight := by
  obtain ⟨hmem, hle⟩ := isGreatest_foldl_queueIssue s (s.newIssues issues) height
  refine ⟨?_, ?_⟩
  · refine Set.insert_subset_insert (Set.image_mono fun issue hissue => ?_) hmem
    exact (List.mem_filter.mp hissue).1
  · rintro t (rfl | ⟨issue, hissue, rfl⟩)
    · exact hle (Set.mem_insert _ _)
    · by_cases hnew : s.newestIssueHeight < issue.opentime
      · refine hle (Set.mem_insert_of_mem _ ⟨issue, ?_, rfl⟩)
        exact List.mem_filter.mpr ⟨hissue, decide_eq_true hnew⟩
      · exact le_trans (not_lt.mp hnew) (hle (Set.mem_insert _ _))

/-! ### The queued range -/

theorem newIssues_eq_nil_iff :
    s.newIssues issues = [] ↔ ∀ issue ∈ issues, issue.opentime ≤ s.newestIssueHeight := by
  simp [newIssues]

theorem exists_isLeast_queueIssue (issue : InterBtcIssueRequest) :
    ∃ first, (queueIssue height s issue).queuedRescanRange = some (first, max first height) ∧
      IsLeast (insert issue.btcHeight s.queuedStart) first := by
  refine ⟨_, rfl, ?_⟩
  cases hrange : s.queuedRescanRange with
  | none => simp [queuedStart, hrange]
  | some range =>
    have : s.queuedStart = {range.1} := by
      ext first
      simp [queuedStart, hrange, Prod.ext_iff, eq_comm]
    rw [this, Set.pair_comm]
    exact isLeast_pair

theorem exists_isLeast_foldl_queueIssue (hne : issues ≠ []) :
    ∃ first, (issues.foldl (queueIssue height) s).queuedRescanRange =
        some (first, max first height) ∧
      IsLeast (s.queuedStart ∪ btcHeights issues) first := by
  induction issues generalizing s with
  | nil => exact absurd rfl hne
  | cons issue issues ih =>
    obtain ⟨first, hrange, hleast⟩ := exists_isLeast_queueIssue s height issue
    rw [List.foldl_cons, btcHeights_cons, Set.union_insert, ← Set.insert_union]
    by_cases hnil : issues = []
    · subst hnil
      exact ⟨first, hrange, by simpa [btcHeights] using hleast⟩
    · obtain ⟨first', hrange', hleast'⟩ := ih (queueIssue height s issue) hnil
      refine ⟨first', hrange', isLeast_union_of_insert hleast ?_⟩
      have : (queueIssue height s issue).queuedStart = {first} := by
        ext b
        simp [queuedStart, hrange, eq_comm]
      rwa [this, Set.singleton_union] at hleast'

/-! ### The second update -/

theorem newIssues_update : (s.update issues height).newIssues issues = [] :=
  (newIssues_eq_nil_iff _ _).mpr fun issue hissue =>
    (isGreatest_update s issues height).2 (Set.mem_insert_of_mem _ ⟨issue, hissue, rfl⟩)

theorem update_update : (s.update issues height).update issues height = s.update issues height :=
  update_of_newIssues_eq_nil (newIssues_update s issues height) height

/-- An update depends on the set of issues alone: the newest open time is the greatest one, the
range starts at the least bitcoin height of the newer issues and of the old range, and once is
enough. -/
theorem update_order_independent :
    (∀ issues', issues'.Perm issues → s.update issues' height = s.update issues height) ∧
      IsGreatest (insert s.newestIssueHeight {t | ∃ issue ∈ issues, issue.opentime = t})
        (s.update issues height).newestIssueHeight ∧
      ((∀ issue ∈ issues, issue.opentime ≤ s.newestIssueHeight) →
        (s.update issues height).queuedRescanRange = s.queuedRescanRange) ∧
      ((∃ issue ∈ issues, s.newestIssueHeight < issue.opentime) →
        ∃ first, (s.update issues height).queuedRescanRange = some (first, max first height) ∧
          IsLeast ({b | ∃ last, s.queuedRescanRange = some (b, last)} ∪
            {b | ∃ issue ∈ issues, s.newestIssueHeight < issue.opentime ∧ issue.btcHeight = b})
            first) ∧
      (s.update issues height).update issues height = s.update issues height := by
  refine ⟨fun _ h => update_perm height h, isGreatest_update s issues height, fun hold => ?_,
    fun hnew => ?_, update_update s issues height⟩
  · rw [update_of_newIssues_eq_nil ((newIssues_eq_nil_iff s issues).mpr hold)]
  · have hne : s.newIssues issues ≠ [] := by
      rw [Ne, newIssues_eq_nil_iff]
      simpa using hnew
    obtain ⟨first, hrange, hleast⟩ := exists_isLeast_foldl_queueIssue s _ height hne
    refine ⟨first, hrange, ?_⟩
    have : btcHeights (s.newIssues issues) =
        {b | ∃ issue ∈ issues, s.newestIssueHeight < issue.opentime ∧ issue.btcHeight = b} := by
      ext b
      simp [btcHeights, newIssues, and_assoc]
    rwa [this] at hleast

end RescanStatus

end InterBtcClients.Vault
