import InterBtcClients.Bitcoin.ThreeKeys
import InterBtcClients.Runtime.Addr

/-! The conversions between the parachain's bitcoin addresses and payloads, one after the other:
which addresses come back, and which payloads. -/

namespace InterBtcClients.Runtime

open Bitcoin

variable {E : Type} (lib : Lib E)

/-- The payload of the address is read as the same address. -/
def BtcAddress.Survives (address : BtcAddress) : Prop :=
  ∃ payload, address.toPayload lib = .ok payload ∧ BtcAddress.fromPayload payload = .ok address

/-- An address that is read from the payload has it as its payload. -/
def PayloadSurvives (payload : Payload) : Prop :=
  ∀ address, BtcAddress.fromPayload payload = .ok address → address.toPayload lib = .ok payload

namespace BtcAddress

/-! ### From an address -/

@[simp] theorem toPayload_P2PKH (hash : H160) :
    (P2PKH hash).toPayload lib = .ok (.pubkeyHash hash) :=
  lib.payload_newP2pkh hash

@[simp] theorem toPayload_P2SH (hash : H160) :
    (P2SH hash).toPayload lib = .ok (.scriptHash hash) :=
  lib.payload_newP2sh hash

@[simp] theorem toPayload_P2WPKHv0 (hash : H160) :
    (P2WPKHv0 hash).toPayload lib = .ok (.witnessProgram 0 (toBytes 20 hash.toNat)) :=
  lib.payload_newV0P2wpkh hash

@[simp] theorem toPayload_P2WSHv0 (hash : H256) :
    (P2WSHv0 hash).toPayload lib = .ok (.witnessProgram 0 (toBytes 32 hash.toNat)) :=
  lib.payload_newV0P2wsh hash

theorem fromPayload_witnessProgram {program : List UInt8} (h : program.length = 20)
    (version : Fin 17) :
    fromPayload (.witnessProgram version program) =
      .ok (P2WPKHv0 (BitVec.ofNat 160 (ofBytes program))) := by
  rw [fromPayload, if_pos h]

theorem fromPayload_witnessProgram_of_ne {program : List UInt8} (h : program.length ≠ 20)
    (version : Fin 17) :
    fromPayload (.witnessProgram version program) = .error .invalidPayload := by
  rw [fromPayload, if_neg h]

/-- The hash of a script takes 32 bytes, and only programs of 20 bytes are read. -/
theorem survives_iff (address : BtcAddress) :
    address.Survives lib ↔ ∀ hash, address ≠ P2WSHv0 hash := by
  cases address with
  | P2PKH hash => exact ⟨fun _ => nofun, fun _ => ⟨_, toPayload_P2PKH lib hash, rfl⟩⟩
  | P2SH hash => exact ⟨fun _ => nofun, fun _ => ⟨_, toPayload_P2SH lib hash, rfl⟩⟩
  | P2WPKHv0 hash =>
    refine ⟨fun _ => nofun, fun _ => ⟨_, toPayload_P2WPKHv0 lib hash, ?_⟩⟩
    rw [fromPayload_witnessProgram (length_toBytes 20 _)]
    exact congrArg (Except.ok ∘ P2WPKHv0) (ofNat_ofBytes_toBytes 20 hash)
  | P2WSHv0 hash =>
    refine ⟨?_, fun h => absurd rfl (h hash)⟩
    rintro ⟨payload, hto, hfrom⟩
    rw [toPayload_P2WSHv0] at hto
    cases hto
    rw [fromPayload_witnessProgram_of_ne (by simp [length_toBytes])] at hfrom
    cases hfrom

end BtcAddress

/-! ### From a payload -/

/-- The version of a program of 20 bytes is lost. -/
theorem payloadSurvives_iff (payload : Payload) :
    PayloadSurvives lib payload ↔ ∀ version program,
      payload = .witnessProgram version program → program.length = 20 → version = 0 := by
  cases payload with
  | pubkeyHash hash =>
    refine ⟨fun _ => nofun, fun _ address h => ?_⟩
    cases h
    exact BtcAddress.toPayload_P2PKH lib hash
  | scriptHash hash =>
    refine ⟨fun _ => nofun, fun _ address h => ?_⟩
    cases h
    exact BtcAddress.toPayload_P2SH lib hash
  | witnessProgram version program =>
    by_cases hlength : program.length = 20
    · have hprogram : toBytes 20 (BitVec.ofNat 160 (ofBytes program)).toNat = program :=
        toBytes_ofNat_ofBytes hlength
      constructor
      · rintro h version' program' heq -
        have hto := h _ (BtcAddress.fromPayload_witnessProgram hlength version)
        rw [BtcAddress.toPayload_P2WPKHv0] at hto
        cases heq
        exact (Payload.witnessProgram.inj (Except.ok.inj hto)).1.symm
      · intro h address hfrom
        rw [BtcAddress.fromPayload_witnessProgram hlength] at hfrom
        cases hfrom
        rw [BtcAddress.toPayload_P2WPKHv0, hprogram, h version program rfl hlength]
    · refine ⟨fun _ version' program' heq hlength' => ?_, fun _ address hfrom => ?_⟩
      · cases heq
        exact absurd hlength' hlength
      · rw [BtcAddress.fromPayload_witnessProgram_of_ne hlength] at hfrom
        cases hfrom

theorem PayloadSurvives.inj {p q : Payload} {address : BtcAddress} (hp : PayloadSurvives lib p)
    (hq : PayloadSurvives lib q) (hfromp : BtcAddress.fromPayload p = .ok address)
    (hfromq : BtcAddress.fromPayload q = .ok address) : p = q :=
  Except.ok.inj ((hp address hfromp).symm.trans (hq address hfromq))

/-- An address comes back exactly when it is not a script hash of version 0, and a payload exactly
when it is not a program of 20 bytes of a later version.  Without the latter no two payloads share
an address. -/
theorem conversions_round_trip_iff :
    (∀ address : BtcAddress,
      (∃ payload, address.toPayload lib = .ok payload ∧
        BtcAddress.fromPayload payload = .ok address) ↔ ∀ hash, address ≠ .P2WSHv0 hash) ∧
    (∀ payload : Payload,
      (∀ address, BtcAddress.fromPayload payload = .ok address →
        address.toPayload lib = .ok payload) ↔
      ∀ version program, payload = .witnessProgram version program → program.length = 20 →
        version = 0) ∧
    ∀ p q : Payload,
      (∀ version program, p = .witnessProgram version program → program.length = 20 →
        version = 0) →
      (∀ version program, q = .witnessProgram version program → program.length = 20 →
        version = 0) →
      ∀ address, BtcAddress.fromPayload p = .ok address →
        BtcAddress.fromPayload q = .ok address → p = q :=
  ⟨BtcAddress.survives_iff lib, payloadSurvives_iff lib, fun _ _ hp hq _ hfromp hfromq =>
    ((payloadSurvives_iff lib _).mpr hp).inj lib ((payloadSurvives_iff lib _).mpr hq) hfromp hfromq⟩

/-- The zero script hash does not come back, and neither does the zero program of version 1, which
is taken for the one of version 0. -/
theorem not_conversions_round_trip :
    (¬∃ payload, (BtcAddress.P2WSHv0 0).toPayload (threeKeys [] []) = .ok payload ∧
      BtcAddress.fromPayload payload = .ok (.P2WSHv0 0)) ∧
    (¬∀ address, BtcAddress.fromPayload (.witnessProgram 1 (List.replicate 20 0)) = .ok address →
      address.toPayload (threeKeys [] []) = .ok (.witnessProgram 1 (List.replicate 20 0))) ∧
    BtcAddress.fromPayload (.witnessProgram 1 (List.replicate 20 0)) = .ok (.P2WPKHv0 0) ∧
    BtcAddress.fromPayload (.witnessProgram 0 (List.replicate 20 0)) = .ok (.P2WPKHv0 0) := by
  refine ⟨fun h => ?_, fun h => ?_, by decide, by decide⟩
  · exact (BtcAddress.survives_iff (threeKeys [] []) _).mp h 0 rfl
  · have := (payloadSurvives_iff (threeKeys [] []) _).mp h 1 _ rfl rfl
    cases this

end InterBtcClients.Runtime
