import InterBtcClients.Library.PartialInverse
import InterBtcClients.Library.Run
import Mathlib.Tactic.Linarith

/-! The vault's `ReversibleHashMap`: two hash maps that are meant to hold the same pairs, one by key
and one by value.  The watched issues are such a map, from issue ids to deposit addresses. -/

namespace InterBtcClients.Vault

open Library

/-- `forward` and `reverse` are the two components of the source's tuple. -/
structure ReversibleHashMap (K V : Type) [BEq K] [Hashable K] [BEq V] [Hashable V] where
  forward : Std.HashMap K V
  reverse : Std.HashMap V K

namespace ReversibleHashMap

variable {K V : Type} [DecidableEq K] [Hashable K] [DecidableEq V] [Hashable V]

def new : ReversibleHashMap K V := ⟨∅, ∅⟩

/-- The new map, and the key and the value that the two insertions replaced. -/
def insert (m : ReversibleHashMap K V) (k : K) (v : V) :
    (Option K × Option V) × ReversibleHashMap K V :=
  let k1 := m.forward[k]?
  let forward := m.forward.insert k v
  let k2 := m.reverse[v]?
  let reverse := m.reverse.insert v k
  ((k2, k1), ⟨forward, reverse⟩)

def removeKey (m : ReversibleHashMap K V) (k : K) : Option V × ReversibleHashMap K V :=
  match m.forward[k]? with
  | some v => (some v, ⟨m.forward.erase k, m.reverse.erase v⟩)
  | none => (none, m)

def removeValue (m : ReversibleHashMap K V) (v : V) : Option K × ReversibleHashMap K V :=
  match m.reverse[v]? with
  | some k => (some k, ⟨m.forward.erase k, m.reverse.erase v⟩)
  | none => (none, m)

def getKeyForValue (m : ReversibleHashMap K V) (v : V) : Option K := m.reverse[v]?

/-- The value that `k` maps to. -/
def image (m : ReversibleHashMap K V) (k : K) : Option V := m.forward[k]?

/-- The key that `v` maps back to. -/
def preimage (m : ReversibleHashMap K V) (v : V) : Option K := m.reverse[v]?

variable {m : ReversibleHashMap K V} {k : K} {v : V}

@[simp] theorem image_new : (new : ReversibleHashMap K V).image = fun _ => none := by
  funext k
  simp [image, new]

@[simp] theorem preimage_new : (new : ReversibleHashMap K V).preimage = fun _ => none := by
  funext v
  simp [preimage, new]

@[simp] theorem image_insert : (m.insert k v).2.image = Function.update m.image k (some v) := by
  funext k'
  simp only [image, insert, Std.HashMap.getElem?_insert, Function.update_apply, beq_iff_eq,
    eq_comm (a := k)]

@[simp] theorem preimage_insert :
    (m.insert k v).2.preimage = Function.update m.preimage v (some k) := by
  funext v'
  simp only [preimage, insert, Std.HashMap.getElem?_insert, Function.update_apply, beq_iff_eq,
    eq_comm (a := v)]

theorem removeKey_of_some (h : m.image k = some v) :
    (m.removeKey k).1 = some v ∧ (m.removeKey k).2.image = Function.update m.image k none ∧
      (m.removeKey k).2.preimage = Function.update m.preimage v none := by
  have hk : m.forward[k]? = some v := h
  simp only [removeKey, hk, true_and]
  constructor
  · funext k'
    simp only [image, Std.HashMap.getElem?_erase, Function.update_apply, beq_iff_eq,
      eq_comm (a := k)]
  · funext v'
    simp only [preimage, Std.HashMap.getElem?_erase, Function.update_apply, beq_iff_eq,
      eq_comm (a := v)]

theorem removeKey_of_none (h : m.image k = none) : m.removeKey k = (none, m) := by
  have hk : m.forward[k]? = none := h
  simp only [removeKey, hk]

theorem removeValue_of_some (h : m.preimage v = some k) :
    (m.removeValue v).1 = some k ∧ (m.removeValue v).2.image = Function.update m.image k none ∧
      (m.removeValue v).2.preimage = Function.update m.preimage v none := by
  have hv : m.reverse[v]? = some k := h
  simp only [removeValue, hv, true_and]
  constructor
  · funext k'
    simp only [image, Std.HashMap.getElem?_erase, Function.update_apply, beq_iff_eq,
      eq_comm (a := k)]
  · funext v'
    simp only [preimage, Std.HashMap.getElem?_erase, Function.update_apply, beq_iff_eq,
      eq_comm (a := v)]

theorem removeValue_of_none (h : m.preimage v = none) : m.removeValue v = (none, m) := by
  have hv : m.reverse[v]? = none := h
  simp only [removeValue, hv]

/-- `m'` is `m` without the pair `k`, `v`, in both directions. -/
def LosesOnly (m m' : ReversibleHashMap K V) (k : K) (v : V) : Prop :=
  ∀ k' v', (m'.image k' = some v' ↔ m.image k' = some v' ∧ (k', v') ≠ (k, v)) ∧
    (m'.preimage v' = some k' ↔ m.preimage v' = some k' ∧ (k', v') ≠ (k, v))

/-- The two maps are inverse to each other, a lookup by value finds the key that maps to the value,
and a removal removes one pair from both, or nothing when there is none. -/
structure Reversible (m : ReversibleHashMap K V) : Prop where
  inverse : ∀ k v, m.image k = some v ↔ m.preimage v = some k
  lookup : ∀ k v, m.getKeyForValue v = some k ↔ m.image k = some v
  removeKey : ∀ k v, m.image k = some v →
    (m.removeKey k).1 = some v ∧ m.LosesOnly (m.removeKey k).2 k v
  removeKey_absent : ∀ k, m.image k = none → m.removeKey k = (none, m)
  removeValue : ∀ k v, m.image k = some v →
    (m.removeValue v).1 = some k ∧ m.LosesOnly (m.removeValue v).2 k v
  removeValue_absent : ∀ v, (∀ k, m.image k ≠ some v) → m.removeValue v = (none, m)

theorem losesOnly_of_update {m' : ReversibleHashMap K V} (h : Inverse m.image m.preimage)
    (hk : m.image k = some v) (himage : m'.image = Function.update m.image k none)
    (hpreimage : m'.preimage = Function.update m.preimage v none) : m.LosesOnly m' k v := by
  intro k' v'
  rw [himage, hpreimage, update_none_iff hk, update_none_iff ((h k v).mp hk)]
  simp [and_comm]

/-- All of `Reversible` follows from the two maps being inverse. -/
theorem reversible_iff : m.Reversible ↔ Inverse m.image m.preimage := by
  constructor
  · intro h
    exact h.inverse
  · intro h
    refine ⟨h, fun k v => (h k v).symm, ?_, fun k => removeKey_of_none, ?_, ?_⟩
    · intro k v hk
      obtain ⟨hfound, himage, hpreimage⟩ := removeKey_of_some hk
      exact ⟨hfound, losesOnly_of_update h hk himage hpreimage⟩
    · intro k v hk
      obtain ⟨hfound, himage, hpreimage⟩ := removeValue_of_some ((h k v).mp hk)
      exact ⟨hfound, losesOnly_of_update h hk himage hpreimage⟩
    · intro v hv
      apply removeValue_of_none
      cases hpre : m.preimage v with
      | none => rfl
      | some k => exact absurd ((h k v).mpr hpre) (hv k)

inductive Op (K V : Type)
  | insert (k : K) (v : V)
  | removeKey (k : K)
  | removeValue (v : V)

def step (m : ReversibleHashMap K V) : Op K V → ReversibleHashMap K V
  | .insert k v => (m.insert k v).2
  | .removeKey k => (m.removeKey k).2
  | .removeValue v => (m.removeValue v).2

/-- Neither end of an inserted pair is part of another pair. -/
def Fresh (m : ReversibleHashMap K V) : Op K V → Prop
  | .insert k v => (∀ w, m.image k = some w → w = v) ∧ (∀ j, m.preimage v = some j → j = k)
  | .removeKey _ | .removeValue _ => True

theorem inverse_removeKey (h : Inverse m.image m.preimage) (k : K) :
    Inverse (m.removeKey k).2.image (m.removeKey k).2.preimage := by
  cases hk : m.image k with
  | none => rwa [removeKey_of_none hk]
  | some v =>
    obtain ⟨-, himage, hpreimage⟩ := removeKey_of_some hk
    rw [himage, hpreimage]
    exact h.erase hk

theorem inverse_removeValue (h : Inverse m.image m.preimage) (v : V) :
    Inverse (m.removeValue v).2.image (m.removeValue v).2.preimage := by
  cases hv : m.preimage v with
  | none => rwa [removeValue_of_none hv]
  | some k =>
    obtain ⟨-, himage, hpreimage⟩ := removeValue_of_some hv
    rw [himage, hpreimage]
    exact h.erase ((h k v).mpr hv)

/-- A step from a reversible map leads to a reversible one exactly when it is fresh. -/
theorem reversible_step_iff (h : m.Reversible) (op : Op K V) :
    (m.step op).Reversible ↔ m.Fresh op := by
  rw [reversible_iff] at h ⊢
  cases op with
  | insert k v =>
    simp only [step, image_insert, preimage_insert]
    exact h.update_iff k v
  | removeKey k => exact ⟨fun _ => trivial, fun _ => inverse_removeKey h k⟩
  | removeValue v => exact ⟨fun _ => trivial, fun _ => inverse_removeValue h v⟩

theorem reversible_new : (new : ReversibleHashMap K V).Reversible := by
  rw [reversible_iff, image_new, preimage_new]
  exact Inverse.empty

/-- A run from the empty map keeps it reversible throughout exactly when every insertion of the run
is fresh: an insertion that reuses a key or a value leaves the old pair behind in one direction. -/
theorem always_reversible_iff (ops : List (Op K V)) :
    Run.Always step Reversible new ops ↔ Run.Along step Fresh new ops :=
  Run.always_iff_along (fun _ op h => reversible_step_iff h op) reversible_new

/-- Two keys inserted with one value: the first still maps to it, and it maps back to the second. -/
theorem not_always_reversible :
    ¬Run.Always step Reversible (new : ReversibleHashMap Nat Nat) [.insert 1 10, .insert 2 10] := by
  intro h
  have hinv := h.last.inverse 1 10
  simp [step] at hinv

end ReversibleHashMap

end InterBtcClients.Vault
