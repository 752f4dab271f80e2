import InterBtcClients.Bitcoin.Types

/-! The parachain's bitcoin addresses as payloads and addresses of the bitcoin library. -/

namespace InterBtcClients.Runtime

open Bitcoin

variable {E : Type} (lib : Lib E)

inductive ConversionError
  | invalidPayload
  deriving DecidableEq, Repr

/-- A witness program of 20 bytes is taken for one of version 0. -/
def BtcAddress.fromPayload : Payload → Except ConversionError BtcAddress
  | .pubkeyHash hash => .ok (.P2PKH hash)
  | .scriptHash hash => .ok (.P2SH hash)
  | .witnessProgram _ program =>
    if program.length = 20 then .ok (.P2WPKHv0 (BitVec.ofNat 160 (ofBytes program)))
    else .error .invalidPayload

def BtcAddress.toPayload (address : BtcAddress) : Except E Payload :=
  let script := match address with
    | .P2PKH hash => lib.newP2pkh hash
    | .P2SH hash => lib.newP2sh hash
    | .P2WPKHv0 hash => lib.newV0P2wpkh hash
    | .P2WSHv0 hash => lib.newV0P2wsh hash
  lib.payloadFromScript script

def BtcAddress.toAddress (address : BtcAddress) (network : Network) : Except E Address := do
  let payload ← address.toPayload lib
  return ⟨payload, network⟩

/-- Every address has a payload. -/
theorem BtcAddress.toAddress_ok (address : BtcAddress) (network : Network) :
    ∃ a, address.toAddress lib network = .ok a := by
  cases address with
  | P2PKH hash => exact ⟨_, by rw [toAddress, toPayload, lib.payload_newP2pkh]; rfl⟩
  | P2SH hash => exact ⟨_, by rw [toAddress, toPayload, lib.payload_newP2sh]; rfl⟩
  | P2WPKHv0 hash => exact ⟨_, by rw [toAddress, toPayload, lib.payload_newV0P2wpkh]; rfl⟩
  | P2WSHv0 hash => exact ⟨_, by rw [toAddress, toPayload, lib.payload_newV0P2wsh]; rfl⟩

end InterBtcClients.Runtime
