import InterBtcClients.Runtime.Types
import Mathlib.Data.List.Lex
import Mathlib.Data.Prod.Lex
import Mathlib.Order.Lattice

/-! The bitcoin data of the clients: transactions, addresses in the order in which a `BTreeMap`
keeps them, keys and partially signed transactions, with the functions of the bitcoin library that
the clients call. -/

namespace InterBtcClients.Bitcoin

open InterBtcClients.Runtime

abbrev Txid := H256

abbrev Script := List UInt8

abbrev Witness := List (List UInt8)

/-- The last `length` bytes of a number, the most significant first. -/
def toBytes : Nat → Nat → List UInt8
  | 0, _ => []
  | length + 1, value => toBytes length (value / 256) ++ [value.toUInt8]

def ofBytes (bytes : List UInt8) : Nat := bytes.foldl (fun value byte => value * 256 + byte.toNat) 0

inductive Network
  | bitcoin | testnet | signet | regtest
  deriving DecidableEq, Repr, Inhabited

structure OutPoint where
  txid : Txid
  vout : UInt32
  deriving DecidableEq, Repr, Inhabited

structure TxIn where
  previousOutput : OutPoint
  scriptSig : Script
  sequence : UInt32
  witness : Witness
  deriving DecidableEq, Repr

def TxIn.ofOutPoint (outpoint : OutPoint) : TxIn := ⟨outpoint, [], 0xFFFFFFFF, []⟩

structure TxOut where
  value : UInt64
  scriptPubkey : Script
  deriving DecidableEq, Repr

structure Transaction where
  version : Int
  lockTime : UInt32
  input : List TxIn
  output : List TxOut
  deriving DecidableEq, Repr

/-- The outputs that a transaction spends, in the order of its inputs. -/
def Transaction.spends (tx : Transaction) : List OutPoint := tx.input.map TxIn.previousOutput

/-! ### Addresses -/

inductive Payload
  | pubkeyHash (hash : H160)
  | scriptHash (hash : H160)
  | witnessProgram (version : Fin 17) (program : List UInt8)
  deriving DecidableEq, Repr

structure Address where
  payload : Payload
  network : Network
  deriving DecidableEq, Repr

/-- Payloads are ordered by their variant first, then like their bytes. -/
def Payload.key : Payload → List Nat
  | .pubkeyHash hash => [0, hash.toNat]
  | .scriptHash hash => [1, hash.toNat]
  | .witnessProgram version program => 2 :: version.val :: program.map UInt8.toNat

def Address.key (address : Address) : List Nat ×ₗ Nat :=
  toLex (address.payload.key, address.network.ctorIdx)

theorem Payload.key_injective : Function.Injective Payload.key := by
  intro a b h
  cases a with
  | pubkeyHash hash =>
    cases b <;> simp [key] at h
    rw [BitVec.eq_of_toNat_eq h]
  | scriptHash hash =>
    cases b <;> simp [key] at h
    rw [BitVec.eq_of_toNat_eq h]
  | witnessProgram version program =>
    cases b <;> simp [key] at h
    obtain ⟨hversion, hprogram⟩ := h
    have hinj : Function.Injective UInt8.toNat := fun _ _ => UInt8.toNat_inj.mp
    rw [Fin.ext hversion, List.map_injective_iff.mpr hinj hprogram]

theorem Address.key_injective : Function.Injective Address.key := by
  rintro ⟨p, n⟩ ⟨q, m⟩ h
  simp only [key, toLex_inj, Prod.mk.injEq] at h
  obtain ⟨hpayload, hnetwork⟩ := h
  rw [Payload.key_injective hpayload]
  congr
  revert hnetwork
  cases n <;> cases m <;> decide

instance : LinearOrder Address := LinearOrder.lift' Address.key Address.key_injective

/-! ### Keys -/

abbrev SecretKey := H256

structure PrivateKey where
  network : Network
  inner : SecretKey
  deriving DecidableEq, Repr

/-- A public key in its serialised form. -/
abbrev PublicKey := List UInt8

/-! ### Partially signed transactions -/

structure PsbtInput where
  witnessUtxo : Option TxOut
  sighashType : Option UInt32
  finalScriptWitness : Option Witness
  deriving Repr

structure PartiallySignedTransaction where
  unsignedTx : Transaction
  inputs : List PsbtInput
  deriving Repr

/-! ### The bitcoin library -/

/-- The functions of the bitcoin library and of secp256k1 that the clients call, with `E` for their
errors, and what the clients rely on: the standard scripts are recognised, and a partially signed
transaction stands for the transaction that it is made from, with extracting it filling in the
witnesses alone. -/
structure Lib (E : Type) where
  secretKeyFromSlice : List UInt8 → Except E SecretKey
  mulTweak : SecretKey → SecretKey → Except E SecretKey
  publicKey : PrivateKey → PublicKey
  p2wpkh : PublicKey → Network → Except E Address
  addressFromScript : Script → Network → Except E Address
  payloadFromScript : Script → Except E Payload
  newP2pkh : H160 → Script
  newP2sh : H160 → Script
  newV0P2wpkh : H160 → Script
  newV0P2wsh : H256 → Script
  scriptPubkey : Address → Script
  addressString : Address → String
  isWitnessProgram : Script → Bool
  p2wpkhScriptCode : Script → Option Script
  varIntLen : UInt64 → UInt64
  weight : Transaction → UInt64
  txid : Transaction → Txid
  deserialize : List UInt8 → Except E Transaction
  opReturnScript : H256 → Script
  sha256 : List UInt8 → List UInt8
  ecdsaHashTy : UInt32 → Except E UInt32
  segwitSignatureHash : Transaction → Nat → Script → UInt64 → UInt32 → Except E H256
  signEcdsa : H256 → UInt32 → SecretKey → List UInt8
  fromUnsignedTx : Transaction → Except E PartiallySignedTransaction
  extractTx : PartiallySignedTransaction → Transaction
  payload_newP2pkh : ∀ hash, payloadFromScript (newP2pkh hash) = .ok (.pubkeyHash hash)
  payload_newP2sh : ∀ hash, payloadFromScript (newP2sh hash) = .ok (.scriptHash hash)
  payload_newV0P2wpkh : ∀ hash,
    payloadFromScript (newV0P2wpkh hash) = .ok (.witnessProgram 0 (toBytes 20 hash.toNat))
  payload_newV0P2wsh : ∀ hash,
    payloadFromScript (newV0P2wsh hash) = .ok (.witnessProgram 0 (toBytes 32 hash.toNat))
  unsignedTx_of_fromUnsignedTx : ∀ {tx psbt}, fromUnsignedTx tx = .ok psbt → psbt.unsignedTx = tx
  spends_extractTx : ∀ psbt, (extractTx psbt).spends = psbt.unsignedTx.spends
  output_extractTx : ∀ psbt, (extractTx psbt).output = psbt.unsignedTx.output

end InterBtcClients.Bitcoin
