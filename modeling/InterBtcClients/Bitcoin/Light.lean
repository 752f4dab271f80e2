import InterBtcClients.Bitcoin.TransactionExt
import InterBtcClients.Bitcoin.Wallet

/-! The light client: it keeps its own keys, funds and signs the vault's payments and replaces them
by ones that pay a higher fee. -/

namespace InterBtcClients.Bitcoin.Light

open Library Electrs InterBtcClients.Runtime

/-- The errors of a bitcoin client that the light client returns. -/
inductive BitcoinError (E : Type)
  | bitcoinEncodeError (e : E)
  | secp256k1Error (e : E)
  | lightClientError (e : Error E)
  | electrsError (e : Electrs.Error E)
  | tooManyReturnToSelfAddresses
  deriving DecidableEq, Repr

def Failure.map {X Y : Type} (f : X → Y) : Failure X → Failure Y
  | .error e => .error (f e)
  | .panic message => .panic message

abbrev SatPerVbyte := UInt64

/-- A signed transaction, not yet sent. -/
structure LockedTransaction where
  transaction : Transaction
  recipient : String

variable {E : Type} (lib : Lib E)

/-- The output that is not to the destination, if there is one. -/
def extractReturnToSelfAddress (tx : Transaction) (destination : Payload) :
    Except (BitcoinError E) (Option (Nat × Payload)) :=
  let returnToSelfAddresses :=
    (extractIndexedOutputAddresses lib tx).filter fun (_, payload) => payload ≠ destination
  match returnToSelfAddresses with
  | [] => .ok none
  | [address] => .ok (some address)
  | _ => .error .tooManyReturnToSelfAddresses

/-! ### The client -/

structure BitcoinLight where
  privateKey : PrivateKey
  wallet : Wallet

abbrev Rpc (E : Type) := ExceptT (Failure (BitcoinError E)) (Prog (api E))

namespace BitcoinLight

/-- The client of a derivation key, which it stores to receive change. -/
def new (privateKey : PrivateKey) : Except (Error E) BitcoinLight := do
  let wallet ← (Wallet.new privateKey.network).putP2wpkhKey lib privateKey.inner
  return { privateKey, wallet }

variable (light : BitcoinLight)

/-- The first address of the key store. -/
def getChangeAddress : Except (Error E) Address :=
  match light.wallet.keyStore.keys.head? with
  | some address => .ok address
  | none => .error .noChangeAddress

def getNewAddress : Except (BitcoinError E) Address :=
  light.getChangeAddress.mapError .lightClientError

def mulSecretKey (vaultKey issueKey : SecretKey) : Except (BitcoinError E) SecretKey :=
  (lib.mulTweak vaultKey issueKey).mapError .secp256k1Error

/-- The key that a deposit is received with. -/
def depositKey (secretKey : List UInt8) : Except (BitcoinError E) SecretKey := do
  let issueKey ← (lib.secretKeyFromSlice secretKey).mapError .secp256k1Error
  mulSecretKey lib light.privateKey.inner issueKey

def addNewDepositKey (secretKey : List UInt8) : Except (BitcoinError E) BitcoinLight := do
  let depositKey ← light.depositKey lib secretKey
  let wallet ← (light.wallet.putP2wpkhKey lib depositKey).mapError .lightClientError
  return { light with wallet }

def fundAndSignTransaction (recipient : Address) (unsignedTx : Transaction)
    (changeAddress : Address) (feeRate : SatPerVbyte) (prevTxid : Option Txid) :
    Rpc E LockedTransaction := do
  let psbt ← (Wallet.fundTransaction lib light.wallet unsignedTx changeAddress
    (saturatingMul feeRate 1000) prevTxid).adapt (Failure.map .lightClientError)
  let psbt ← Prog.ofExcept
    ((Wallet.signTransaction lib light.wallet psbt).mapError (Failure.map .lightClientError))
  return ⟨lib.extractTx psbt, lib.addressString recipient⟩

def createTransaction (recipient : Address) (sat : UInt64) (feeRate : SatPerVbyte)
    (requestId : Option H256) : Rpc E LockedTransaction := do
  let unsignedTx := Wallet.createTransaction lib recipient sat requestId
  let changeAddress ←
    Prog.ofExcept (light.getChangeAddress.mapError fun e => .error (.lightClientError e))
  light.fundAndSignTransaction lib recipient unsignedTx changeAddress feeRate none

def sendTransaction (transaction : LockedTransaction) : Rpc E Txid :=
  (Electrs.sendTransaction transaction.transaction).adapt fun e => .error (.electrsError e)

def getTransaction (txid : Txid) : Rpc E Transaction := do
  let rawTx ← (getRawTx txid).adapt fun e => .error (.electrsError e)
  Prog.ofExcept ((lib.deserialize rawTx).mapError fun e => .error (.bitcoinEncodeError e))

def createAndSendTransaction (address : Address) (sat : UInt64) (feeRate : SatPerVbyte)
    (requestId : Option H256) : Rpc E Txid := do
  let tx ← light.createTransaction lib address sat feeRate requestId
  sendTransaction tx

/-- The transaction without the output to the vault itself and without witnesses. -/
def unfunded (tx : Transaction) (idx : Nat) : Transaction :=
  { tx with
    input := tx.input.map fun txin => { txin with witness := [] }
    output := tx.output.eraseIdx idx }

/-- A transaction that has no output to the vault itself ends in a panic. -/
def bumpFee (txid : Txid) (address : Address) (feeRate : SatPerVbyte) : Rpc E Txid := do
  let existingTransaction ← getTransaction lib txid
  let returnToSelf ← Prog.ofExcept
    ((extractReturnToSelfAddress lib existingTransaction address.payload).mapError .error)
  match returnToSelf with
  | none => throw (.panic "called `Option::unwrap()` on a `None` value")
  | some (idx, payload) =>
    let tx ← light.fundAndSignTransaction lib address (unfunded existingTransaction idx)
      ⟨payload, light.privateKey.network⟩ feeRate (some txid)
    sendTransaction tx

end BitcoinLight

end InterBtcClients.Bitcoin.Light
