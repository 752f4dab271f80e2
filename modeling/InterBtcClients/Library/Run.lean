/-! Runs of a deterministic machine: a list of actions, applied one after the other.  `Always` is a
property of every state that a run reaches and `Along` a property of every step that it takes, with
the rules that derive one from the other by what a single step does. -/

namespace InterBtcClients.Library.Run

variable {S A : Type} (step : S → A → S)

/-- `P` holds in `s` and in every state that the actions reach from it. -/
def Always (P : S → Prop) : S → List A → Prop
  | s, [] => P s
  | s, a :: as => P s ∧ Always P (step s a) as

/-- `G` holds of the state before each step and the action that the step takes. -/
def Along (G : S → A → Prop) : S → List A → Prop
  | _, [] => True
  | s, a :: as => G s a ∧ Along G (step s a) as

instance Along.decide {G : S → A → Prop} [inst : ∀ s a, Decidable (G s a)] :
    (s : S) → (as : List A) → Decidable (Along step G s as)
  | _, [] => isTrue trivial
  | s, a :: as => @instDecidableAnd _ _ (inst s a) (Along.decide (step s a) as)

variable {step} {P : S → Prop} {G H : S → A → Prop} {s : S} {as : List A}

theorem Always.start (h : Always step P s as) : P s := by
  cases as with
  | nil => exact h
  | cons a as => exact h.1

/-- The state after the whole run is one of the states reached. -/
theorem Always.last (h : Always step P s as) : P (as.foldl step s) := by
  induction as generalizing s with
  | nil => exact h
  | cons a as ih => exact ih h.2

/-- The exact form of the invariant rule: when `G` is what a step needs to preserve `P`, the runs
that preserve `P` throughout are those that meet `G` throughout. -/
theorem always_iff_along (hstep : ∀ s a, P s → (P (step s a) ↔ G s a)) (hs : P s) :
    Always step P s as ↔ Along step G s as := by
  induction as generalizing s with
  | nil => exact ⟨fun _ => trivial, fun _ => hs⟩
  | cons a as ih =>
    constructor
    · rintro ⟨-, h⟩
      exact ⟨(hstep s a hs).mp h.start, (ih h.start).mp h⟩
    · rintro ⟨hG, h⟩
      have hnext := (hstep s a hs).mpr hG
      exact ⟨hs, (ih hnext).mpr h⟩

/-- Two step properties that agree in the states of an invariant agree along every run whose steps
keep it. -/
theorem along_iff_along (hstep : ∀ s a, P s → (H s a ↔ G s a))
    (hkeep : ∀ s a, P s → H s a → P (step s a)) (hs : P s) :
    Along step H s as ↔ Along step G s as := by
  induction as generalizing s with
  | nil => exact Iff.rfl
  | cons a as ih =>
    constructor
    · rintro ⟨hH, h⟩
      exact ⟨(hstep s a hs).mp hH, (ih (hkeep s a hs hH)).mp h⟩
    · rintro ⟨hG, h⟩
      have hH := (hstep s a hs).mpr hG
      exact ⟨hH, (ih (hkeep s a hs hH)).mpr h⟩

/-- A property of the actions alone, in the states of an invariant, holds along a run when it holds
of every action. -/
theorem along_iff_forall {J : S → Prop} {K : A → Prop} (hstep : ∀ s a, J s → J (step s a))
    (hG : ∀ s a, J s → (G s a ↔ K a)) (hs : J s) : Along step G s as ↔ ∀ a ∈ as, K a := by
  induction as generalizing s with
  | nil => simp [Along]
  | cons a as ih => rw [Along, hG s a hs, ih (hstep s a hs), List.forall_mem_cons]

end InterBtcClients.Library.Run
