import Mathlib.Algebra.Group.Even
import Mathlib.Algebra.Group.Nat.Even
import Mathlib.Tactic.Tauto

/-! The text of bytes in base 16, two digits for each, and the bytes of such a text, whose digits
may be of either case. -/

namespace InterBtcClients.Library.Hex

def IsDigit (c : Char) : Prop :=
  ('0' ≤ c ∧ c ≤ '9') ∨ ('a' ≤ c ∧ c ≤ 'f') ∨ ('A' ≤ c ∧ c ≤ 'F')

/-- An even number of digits. -/
def IsText (text : List Char) : Prop := Even text.length ∧ ∀ c ∈ text, IsDigit c

def digitValue (c : Char) : Option Nat :=
  if '0' ≤ c ∧ c ≤ '9' then some (c.toNat - '0'.toNat)
  else if 'a' ≤ c ∧ c ≤ 'f' then some (c.toNat - 'a'.toNat + 10)
  else if 'A' ≤ c ∧ c ≤ 'F' then some (c.toNat - 'A'.toNat + 10)
  else none

def encode (bytes : List UInt8) : List Char :=
  bytes.flatMap fun byte => [(byte.toNat / 16).digitChar, (byte.toNat % 16).digitChar]

def decode : List Char → Option (List UInt8)
  | [] => some []
  | [_] => none
  | high :: low :: rest => do
    let high ← digitValue high
    let low ← digitValue low
    let bytes ← decode rest
    return UInt8.ofNat (16 * high + low) :: bytes

theorem digitValue_digitChar {n : Nat} (h : n < 16) : digitValue n.digitChar = some n := by
  decide +revert

theorem isSome_digitValue_iff (c : Char) : (digitValue c).isSome = true ↔ IsDigit c := by
  unfold digitValue IsDigit
  split
  next hdigit => simp [hdigit]
  next hdigit =>
    split
    next hlower => simp [hlower]
    next hlower =>
      split
      next hupper => simp [hupper]
      next hupper => simp [hdigit, hlower, hupper]

theorem decode_encode (bytes : List UInt8) : decode (encode bytes) = some bytes := by
  induction bytes with
  | nil => rfl
  | cons byte bytes ih =>
    have hbyte := byte.toNat_lt
    have hhigh := digitValue_digitChar (n := byte.toNat / 16) (by omega)
    have hlow := digitValue_digitChar (n := byte.toNat % 16) (by omega)
    have htext : encode (byte :: bytes) =
        (byte.toNat / 16).digitChar :: (byte.toNat % 16).digitChar :: encode bytes := rfl
    rw [htext, decode, hhigh, hlow, ih]
    show some (UInt8.ofNat (16 * (byte.toNat / 16) + byte.toNat % 16) :: bytes) =
      some (byte :: bytes)
    rw [Nat.div_add_mod, UInt8.ofNat_toNat]

theorem isSome_decode_cons (high low : Char) (rest : List Char) :
    (decode (high :: low :: rest)).isSome =
      ((digitValue high).isSome && (digitValue low).isSome && (decode rest).isSome) := by
  rw [decode]
  cases digitValue high <;> cases digitValue low <;> cases decode rest <;> rfl

theorem isSome_decode_iff (text : List Char) : (decode text).isSome = true ↔ IsText text := by
  induction text using decode.induct with
  | case1 => simp [decode, IsText]
  | case2 c => simp [decode, IsText]
  | case3 high low rest ih =>
    have heven : Even (high :: low :: rest).length ↔ Even rest.length := by
      simp [Nat.even_add_one]
    rw [isSome_decode_cons, IsText, heven, Bool.and_eq_true, Bool.and_eq_true, ih, IsText]
    simp only [isSome_digitValue_iff, List.forall_mem_cons]
    tauto

end InterBtcClients.Library.Hex
