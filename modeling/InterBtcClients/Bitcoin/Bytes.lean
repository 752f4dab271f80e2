import InterBtcClients.Bitcoin.Types
import Mathlib.Data.Nat.ModEq
import Mathlib.Data.UInt

/-! Big-endian bytes: a value of so many bytes and its bytes determine each other. -/

namespace InterBtcClients.Bitcoin

theorem length_toBytes (length value : Nat) : (toBytes length value).length = length := by
  induction length generalizing value with
  | zero => rfl
  | succ length ih => rw [toBytes, List.length_append, ih, List.length_singleton]

theorem ofBytes_append (bytes : List UInt8) (byte : UInt8) :
    ofBytes (bytes ++ [byte]) = ofBytes bytes * 256 + byte.toNat := by
  simp [ofBytes]

theorem ofBytes_toBytes (length value : Nat) :
    ofBytes (toBytes length value) = value % 256 ^ length := by
  induction length generalizing value with
  | zero => simp [toBytes, ofBytes, Nat.mod_one]
  | succ length ih =>
    have hlast : (value.toUInt8).toNat = value % 256 := rfl
    rw [toBytes, ofBytes_append, ih, hlast, Nat.pow_succ', Nat.mod_mul, Nat.add_comm, Nat.mul_comm]

theorem ofNat_ofBytes_toBytes (length : Nat) (hash : BitVec (8 * length)) :
    BitVec.ofNat (8 * length) (ofBytes (toBytes length hash.toNat)) = hash := by
  have hlt : hash.toNat < 256 ^ length := by
    have := hash.isLt
    rwa [Nat.pow_mul] at this
  rw [ofBytes_toBytes, Nat.mod_eq_of_lt hlt, BitVec.ofNat_toNat, BitVec.setWidth_eq]

theorem toBytes_ofBytes (bytes : List UInt8) : toBytes bytes.length (ofBytes bytes) = bytes := by
  induction bytes using List.reverseRecOn with
  | nil => rfl
  | append_singleton bytes byte ih =>
    have hlt : byte.toNat < 256 := byte.toNat_lt
    have hbefore : (ofBytes bytes * 256 + byte.toNat) / 256 = ofBytes bytes := by omega
    have hlast : (ofBytes bytes * 256 + byte.toNat).toUInt8 = byte := by
      apply UInt8.toNat_inj.mp
      change (ofBytes bytes * 256 + byte.toNat) % 256 = byte.toNat
      omega
    rw [List.length_append, List.length_singleton, toBytes, ofBytes_append, hbefore, ih, hlast]

theorem ofBytes_lt (bytes : List UInt8) : ofBytes bytes < 256 ^ bytes.length := by
  have h := ofBytes_toBytes bytes.length (ofBytes bytes)
  rw [toBytes_ofBytes] at h
  rw [h]
  exact Nat.mod_lt _ (Nat.pow_pos (by decide))

theorem toBytes_ofNat_ofBytes {length : Nat} {bytes : List UInt8}
    (hlength : bytes.length = length) :
    toBytes length (BitVec.ofNat (8 * length) (ofBytes bytes)).toNat = bytes := by
  have hlt := ofBytes_lt bytes
  rw [hlength, show 256 = 2 ^ 8 from rfl, ← Nat.pow_mul] at hlt
  rw [BitVec.toNat_ofNat, Nat.mod_eq_of_lt hlt, ← hlength, toBytes_ofBytes]

end InterBtcClients.Bitcoin
