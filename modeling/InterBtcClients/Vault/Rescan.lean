import InterBtcClients.Library.Run
import InterBtcClients.Runtime.Types
import Mathlib.Algebra.Group.Nat.Defs

/-! The vault's `RescanStatus`: the range of bitcoin blocks that are still to be scanned for
payments to past issues, and the operations that queue a range, cut it at the node's pruning point
and take chunks from it. -/

namespace InterBtcClients.Vault

open Library InterBtcClients.Runtime

/-- The largest `usize` of the 64-bit targets the vault is built for. -/
def usizeMax : Nat := 2 ^ 64 - 1

/-- `usize::saturating_add`. -/
def saturatingAdd (a b : Nat) : Nat := min (a + b) usizeMax

structure RescanStatus where
  newestIssueHeight : Nat
  /-- The first and the last block, both included. -/
  queuedRescanRange : Option (Nat × Nat)
  deriving DecidableEq, Repr

namespace RescanStatus

instance : Inhabited RescanStatus := ⟨⟨0, none⟩⟩

/-- One round of the loop in `update`. -/
def queueIssue (currentBitcoinHeight : Nat) (s : RescanStatus) (issue : InterBtcIssueRequest) :
    RescanStatus :=
  let rangeBegin := match s.queuedRescanRange with
    | some (rangeBegin, _) => min rangeBegin issue.btcHeight
    | none => issue.btcHeight
  let rangeEnd := max rangeBegin currentBitcoinHeight
  ⟨max s.newestIssueHeight issue.opentime, some (rangeBegin, rangeEnd)⟩

/-- The issues that `update` looks at: those not processed yet, going by their open time. -/
def newIssues (s : RescanStatus) (issues : List InterBtcIssueRequest) :
    List InterBtcIssueRequest :=
  issues.filter fun issue => s.newestIssueHeight < issue.opentime

def update (s : RescanStatus) (issues : List InterBtcIssueRequest) (currentBitcoinHeight : Nat) :
    RescanStatus :=
  (s.newIssues issues).foldl (queueIssue currentBitcoinHeight) s

/-- The range before the pruning point, if any, and the status without it. -/
def prune (s : RescanStatus) (btcPrunedStartHeight : Nat) : Option (Nat × Nat) × RescanStatus :=
  match s.queuedRescanRange with
  | some (rangeStart, rangeEnd) =>
    if rangeStart < btcPrunedStartHeight then
      (some (rangeStart, btcPrunedStartHeight - 1),
        { s with queuedRescanRange := some (btcPrunedStartHeight, rangeEnd) })
    else (none, s)
  | none => (none, s)

/-- The chunk to rescan now, and the status as if its blocks were processed. -/
def processBlocks (s : RescanStatus) (maxBlocks : Nat) : Option (Nat × Nat) × RescanStatus :=
  match s.queuedRescanRange with
  | none => (none, s)
  | some (rangeStart, rangeEnd) =>
    let chunkEnd := min rangeEnd (saturatingAdd rangeStart maxBlocks - 1)
    if chunkEnd = rangeEnd then
      (some (rangeStart, chunkEnd), { s with queuedRescanRange := none })
    else
      (some (rangeStart, chunkEnd), { s with queuedRescanRange := some (chunkEnd + 1, rangeEnd) })

/-! ### The range that an update queues -/

theorem foldl_queueIssue {h : Nat} {issues : List InterBtcIssueRequest} (s : RescanStatus)
    (hne : issues ≠ []) :
    ∃ b, (issues.foldl (queueIssue h) s).queuedRescanRange = some (b, max b h) ∧
      (∀ issue ∈ issues, b ≤ issue.btcHeight) ∧
      ∀ first last, s.queuedRescanRange = some (first, last) → b ≤ first := by
  induction issues generalizing s with
  | nil => exact absurd rfl hne
  | cons issue issues ih =>
    obtain ⟨b, hb, hissue, hold⟩ : ∃ b,
        (queueIssue h s issue).queuedRescanRange = some (b, max b h) ∧ b ≤ issue.btcHeight ∧
          ∀ first last, s.queuedRescanRange = some (first, last) → b ≤ first := by
      refine ⟨_, rfl, ?_, ?_⟩
      · cases s.queuedRescanRange with
        | none => exact Nat.le_refl _
        | some range => exact Nat.min_le_right _ _
      · intro first last hrange
        simp only [hrange]
        exact Nat.min_le_left _ _
    rw [List.foldl_cons]
    by_cases hnil : issues = []
    · subst hnil
      exact ⟨b, hb, by simpa using hissue, hold⟩
    · obtain ⟨b', hb', hissues, hnext⟩ := ih (queueIssue h s issue) hnil
      have hle : b' ≤ b := hnext b _ hb
      refine ⟨b', hb', ?_, fun first last hrange =>
        Nat.le_trans hle (hold first last hrange)⟩
      intro issue' hmem
      rcases List.mem_cons.mp hmem with rfl | hmem
      · exact Nat.le_trans hle hissue
      · exact hissues issue' hmem

theorem update_of_newIssues_eq_nil {s : RescanStatus} {issues : List InterBtcIssueRequest}
    (h : s.newIssues issues = []) (height : Nat) : s.update issues height = s := by
  rw [update, h, List.foldl_nil]

/-- An update with new issues queues a range that starts at or below each of them and the old range,
and ends at the current height, or at its start when that is higher. -/
theorem update_of_newIssues_ne_nil {s : RescanStatus} {issues : List InterBtcIssueRequest}
    (h : s.newIssues issues ≠ []) (height : Nat) :
    ∃ b, (s.update issues height).queuedRescanRange = some (b, max b height) ∧
      (∀ issue ∈ s.newIssues issues, b ≤ issue.btcHeight) ∧
      ∀ first last, s.queuedRescanRange = some (first, last) → b ≤ first :=
  foldl_queueIssue s h

theorem prune_zero (s : RescanStatus) : s.prune 0 = (none, s) := by
  simp only [prune, Nat.not_lt_zero, if_false]
  split <;> rfl

theorem queuedRescanRange_of_processBlocks_none {s s' : RescanStatus} {maxBlocks : Nat}
    (h : s.processBlocks maxBlocks = (none, s')) : s.queuedRescanRange = none := by
  cases hrange : s.queuedRescanRange with
  | none => rfl
  | some range =>
    simp only [processBlocks, hrange] at h
    split at h <;> cases h

/-! ### Well-formed ranges -/

def WellFormed (s : RescanStatus) : Prop :=
  ∀ first last, s.queuedRescanRange = some (first, last) → first ≤ last

/-- `range` is a range inside the one that `s` has queued. -/
def Covers (s : RescanStatus) (range : Nat × Nat) : Prop :=
  range.1 ≤ range.2 ∧
    ∃ first last, s.queuedRescanRange = some (first, last) ∧ first ≤ range.1 ∧ range.2 ≤ last

theorem wellFormed_update {s : RescanStatus} (h : s.WellFormed)
    (issues : List InterBtcIssueRequest) (height : Nat) : (s.update issues height).WellFormed := by
  by_cases hnil : s.newIssues issues = []
  · rwa [update_of_newIssues_eq_nil hnil]
  · obtain ⟨b, hb, -⟩ := update_of_newIssues_ne_nil hnil height
    intro first last hrange
    rw [hb] at hrange
    cases hrange
    exact Nat.le_max_left _ _

/-- Pruning a well-formed range that starts before the pruning point gives two well-formed ranges,
the first inside the old one, exactly when the old one reaches the pruning point. -/
theorem prune_iff {s : RescanStatus} {first last p : Nat} (hle : first ≤ last)
    (hrange : s.queuedRescanRange = some (first, last)) :
    ((s.prune p).2.WellFormed ∧ ∀ range, (s.prune p).1 = some range → s.Covers range) ↔
      (first < p → p ≤ last) := by
  simp only [prune, hrange]
  split
  · rename_i hlt
    constructor
    · rintro ⟨hwf, -⟩ -
      exact hwf p last rfl
    · intro hp
      refine ⟨fun a b hab => ?_, fun range hr => ?_⟩
      · cases hab
        exact hp hlt
      · cases hr
        exact ⟨by simp only; omega, first, last, hrange, Nat.le_refl _, by simp only; omega⟩
  · rename_i hge
    refine ⟨fun _ hlt => absurd hlt hge, fun _ => ⟨fun a b hab => ?_, fun range hr => by cases hr⟩⟩
    rw [hrange] at hab
    cases hab
    exact hle

/-- A chunk of a well-formed range is a range inside it, and leaves a well-formed one, unless the
range starts at the last `usize`, where the sum that ends the chunk saturates below the start. -/
theorem processBlocks_iff {s : RescanStatus} {first last maxBlocks : Nat} (hmax : 1 ≤ maxBlocks)
    (hle : first ≤ last) (hrange : s.queuedRescanRange = some (first, last)) :
    ((s.processBlocks maxBlocks).2.WellFormed ∧
        ∀ range, (s.processBlocks maxBlocks).1 = some range → s.Covers range) ↔
      first < usizeMax := by
  have hchunk : first ≤ min last (saturatingAdd first maxBlocks - 1) ↔ first < usizeMax := by
    simp only [saturatingAdd]
    have : 0 < usizeMax := by decide
    omega
  have hend : min last (saturatingAdd first maxBlocks - 1) ≤ last := Nat.min_le_left _ _
  simp only [processBlocks, hrange]
  generalize min last (saturatingAdd first maxBlocks - 1) = chunkEnd at hchunk hend ⊢
  rw [← hchunk]
  split
  · constructor
    · rintro ⟨-, hcovers⟩
      exact (hcovers _ rfl).1
    · intro hstart
      refine ⟨fun _ _ hab => (nomatch hab), fun range hr => ?_⟩
      cases hr
      exact ⟨hstart, first, last, hrange, Nat.le_refl _, hend⟩
  · rename_i hne
    constructor
    · rintro ⟨-, hcovers⟩
      exact (hcovers _ rfl).1
    · intro hstart
      refine ⟨fun a b hab => ?_, fun range hr => ?_⟩
      · cases hab
        omega
      · cases hr
        exact ⟨hstart, first, last, hrange, Nat.le_refl _, hend⟩

/-! ### Runs -/

inductive Op
  | update (issues : List InterBtcIssueRequest) (currentBitcoinHeight : Nat)
  | prune (btcPrunedStartHeight : Nat)
  | processBlocks (maxBlocks : { n : Nat // 1 ≤ n })

def step (s : RescanStatus) : Op → RescanStatus
  | .update issues height => s.update issues height
  | .prune height => (s.prune height).2
  | .processBlocks maxBlocks => (s.processBlocks maxBlocks).2

/-- The range that an operation returns. -/
def output (s : RescanStatus) : Op → Option (Nat × Nat)
  | .update _ _ => none
  | .prune height => (s.prune height).1
  | .processBlocks maxBlocks => (s.processBlocks maxBlocks).1

/-- The operation leaves a well-formed range queued and returns a range inside the one queued
before. -/
def Sound (s : RescanStatus) (op : Op) : Prop :=
  (s.step op).WellFormed ∧ ∀ range, s.output op = some range → s.Covers range

/-- A pruning point above the start of the queued range is not above its end, and a range from which
a chunk is taken starts below the last `usize`. -/
def Prunable (s : RescanStatus) : Op → Prop
  | .update _ _ => True
  | .prune height =>
    ∀ first last, s.queuedRescanRange = some (first, last) → first < height → height ≤ last
  | .processBlocks _ =>
    ∀ first last, s.queuedRescanRange = some (first, last) → first < usizeMax

theorem sound_iff {s : RescanStatus} (h : s.WellFormed) (op : Op) : s.Sound op ↔ s.Prunable op := by
  cases op with
  | update issues height =>
    exact ⟨fun _ => trivial, fun _ => ⟨wellFormed_update h issues height, fun _ hr => by cases hr⟩⟩
  | prune height =>
    simp only [Sound, step, output, Prunable]
    cases hrange : s.queuedRescanRange with
    | none => simpa [prune, hrange] using h
    | some range =>
      obtain ⟨first, last⟩ := range
      rw [prune_iff (h _ _ hrange) hrange]
      simp
  | processBlocks maxBlocks =>
    simp only [Sound, step, output, Prunable]
    cases hrange : s.queuedRescanRange with
    | none => simpa [processBlocks, hrange] using h
    | some range =>
      obtain ⟨first, last⟩ := range
      rw [processBlocks_iff maxBlocks.2 (h _ _ hrange) hrange]
      simp

theorem wellFormed_default : (default : RescanStatus).WellFormed := by
  intro first last h
  cases h

/-- Along a run from the default status all queued and all returned ranges are well formed, and the
returned ones inside what was queued, exactly when no operation prunes past the end of the queued
range or takes a chunk at the last `usize`. -/
theorem along_sound_iff (ops : List Op) :
    Run.Along step Sound default ops ↔ Run.Along step Prunable default ops :=
  Run.along_iff_along (fun _ op h => sound_iff h op) (fun _ _ _ h => h.1) wellFormed_default

/-- The bitcoin heights of a run do not decrease, and each pruning point is at most the height. -/
def HeightsFrom : Nat → List Op → Prop
  | _, [] => True
  | height, .update _ current :: ops => height ≤ current ∧ HeightsFrom current ops
  | height, .prune pruned :: ops => pruned ≤ height ∧ HeightsFrom height ops
  | height, .processBlocks _ :: ops => HeightsFrom height ops

/-- An issue of which only the open time and the bitcoin height matter. -/
def dummyIssue (opentime btcHeight : Nat) : InterBtcIssueRequest :=
  { (default : InterBtcIssueRequest) with opentime, btcHeight }

/-- A range queued at height 20 is still there after a crash; at the restart the node, now at height
100, has pruned the blocks below 50. -/
theorem not_along_sound :
    HeightsFrom 0 [.update [dummyIssue 1 10] 20, .update [dummyIssue 1 10] 100, .prune 50] ∧
      ¬Run.Along step Sound default
        [.update [dummyIssue 1 10] 20, .update [dummyIssue 1 10] 100, .prune 50] := by
  refine ⟨by simp [HeightsFrom], ?_⟩
  rintro ⟨-, -, ⟨hwf, -⟩, -⟩
  have hle := hwf 50 20 rfl
  omega

end RescanStatus

end InterBtcClients.Vault
