import InterBtcClients.Bitcoin.Electrs
import Mathlib.Data.UInt

/-! The wallet of the light client: a store of keys, ordered by their addresses, and the funding and
signing of transactions with the unspent outputs of these addresses. -/

namespace InterBtcClients.Bitcoin.Light

open Library Electrs InterBtcClients.Runtime

/-- The errors of the light client; the last five wrap those of what it calls. -/
inductive Error (E : Type)
  | noPrevOut
  | invalidPrevOut
  | invalidAddress
  | noPrivateKey
  | notEnoughInputs
  | noChangeAddress
  | cannotOpenKeyStore
  | secp256k1Error (e : E)
  | addressError (e : E)
  | psbtError (e : E)
  | electrsError (e : Electrs.Error E)
  | sighashError (e : E)
  deriving DecidableEq, Repr

/-- How a call ends that does not return a value. -/
inductive Failure (X : Type)
  | error (e : X)
  | panic (message : String)
  deriving DecidableEq, Repr

def expect {X Y A : Type} (message : String) : Except X A → Except (Failure Y) A
  | .ok a => .ok a
  | .error _ => .error (.panic message)

def expectSome {Y A : Type} (message : String) : Option A → Except (Failure Y) A
  | some a => .ok a
  | none => .error (.panic message)

/-! ### Sizes and fees -/

section Sizes

def saturatingMul (a b : UInt64) : UInt64 := if a.toNat * b.toNat < 2 ^ 64 then a * b else -1

def saturatingSub (a b : UInt64) : UInt64 := if b ≤ a then a - b else 0

def divCeil (a b : UInt64) : UInt64 := if a % b > 0 then a / b + 1 else a / b

def WITNESS_SCALE_FACTOR : UInt64 := 4

variable {E : Type} (lib : Lib E)

def lengthSize {A : Type} (elements : List A) : UInt64 := lib.varIntLen elements.length.toUInt64

def txOutSerializeSize (txOut : TxOut) : UInt64 :=
  8 + lengthSize lib txOut.scriptPubkey + txOut.scriptPubkey.length.toUInt64

def txInSerializeSize (txin : TxIn) : UInt64 :=
  32 + 4 + 4 + lengthSize lib txin.scriptSig + txin.scriptSig.length.toUInt64

def witnessSerializeSize (witness : Witness) : UInt64 :=
  witness.foldl (fun inputWeight elem => inputWeight + (lengthSize lib elem + elem.length.toUInt64))
    (lengthSize lib witness)

/-- The bytes that every signature has at these places, in the longest encoding. -/
def dummySignature : List UInt8 :=
  let mRLen := 33
  let mSLen := 32
  (List.replicate (mRLen + mSLen + 7) 0)
    |>.set 0 0x30
    |>.set 1 (mRLen + mSLen + 4).toUInt8
    |>.set 2 0x02
    |>.set 3 mRLen.toUInt8
    |>.set 4 0x01
    |>.set (4 + mRLen) 0x02
    |>.set (5 + mRLen) mSLen.toUInt8
    |>.set (6 + mRLen) 0x01
    |>.set (6 + mRLen + mSLen) 0x01

def dummySignInput (txin : TxIn) (publicKey : PublicKey) : TxIn :=
  { txin with witness := [dummySignature, publicKey] }

def getTransactionInputWeight (txin : TxIn) : UInt64 :=
  txInSerializeSize lib txin * (WITNESS_SCALE_FACTOR - 1) + txInSerializeSize lib txin +
    witnessSerializeSize lib txin.witness

def getVirtualTransactionSize (nWeight : UInt64) : UInt64 :=
  (nWeight + WITNESS_SCALE_FACTOR - 1) / WITNESS_SCALE_FACTOR

def calculateMaximumSignedInputSize (outpoint : OutPoint) (publicKey : PublicKey) : UInt64 :=
  let txin := dummySignInput (TxIn.ofOutPoint outpoint) publicKey
  getVirtualTransactionSize (getTransactionInputWeight lib txin)

structure FeeRate where
  nSatoshisPerK : UInt64

def FeeRate.getFee (rate : FeeRate) (numBytes : UInt64) : UInt64 :=
  divCeil (saturatingMul rate.nSatoshisPerK numBytes) 1000

def DUST_RELAY_TX_FEE : FeeRate := ⟨3000⟩

def getDustThreshold (txOut : TxOut) (dustRelayFeeIn : FeeRate) : UInt64 :=
  let nSize := txOutSerializeSize lib txOut
  let nSize :=
    if lib.isWitnessProgram txOut.scriptPubkey then
      nSize + (32 + 4 + 1 + 107 / WITNESS_SCALE_FACTOR + 4)
    else nSize + (32 + 4 + 1 + 107 + 4)
  dustRelayFeeIn.getFee nSize

end Sizes

/-! ### Coin selection -/

structure CoinOutput where
  value : UInt64
  fee : UInt64

def CoinOutput.getEffectiveValue (coin : CoinOutput) : UInt64 := saturatingSub coin.value coin.fee

structure SelectCoins where
  presetInputs : List CoinOutput
  targetValue : UInt64

namespace SelectCoins

variable (selectCoins : SelectCoins)

def add (coinOutput : CoinOutput) : SelectCoins :=
  { selectCoins with presetInputs := selectCoins.presetInputs ++ [coinOutput] }

def getSelectedValue : UInt64 := (selectCoins.presetInputs.map CoinOutput.value).sum

def getSelectedEffectiveValue : UInt64 :=
  (selectCoins.presetInputs.map CoinOutput.getEffectiveValue).sum

def getChange (minViableChange changeFee : UInt64) : UInt64 :=
  let change := saturatingSub
    (saturatingSub selectCoins.getSelectedEffectiveValue selectCoins.targetValue) changeFee
  if change < minViableChange then 0 else change

end SelectCoins

/-! ### Available coins -/

section Coins

variable {E : Type}

/-- The unspent outputs of the addresses.  An address that has none ends the stream. -/
def addressCoins : List Address → AsyncStream (api E) (Except (Error E) Utxo)
  | [] => .done
  | address :: addresses =>
    .after (getUtxosForAddress address).run fun
      | .ok [] => .done
      | .ok utxos => .ofList (utxos.map .ok) (addressCoins addresses)
      | .error e => .yield (.error (.electrsError e)) (addressCoins addresses)

/-- The outputs that the inputs spend, then those of the addresses. -/
def availableCoins (addresses : List Address) :
    List TxIn → AsyncStream (api E) (Except (Error E) Utxo)
  | [] => addressCoins addresses
  | txin :: txInputs =>
    .after (getPrevValue txin.previousOutput).run fun
      | .ok value => .yield (.ok ⟨txin.previousOutput, value⟩) (availableCoins addresses txInputs)
      | .error e => .yield (.error (.electrsError e)) (availableCoins addresses txInputs)

end Coins

/-! ### The wallet -/

abbrev KeyStore := Std.TreeMap Address PrivateKey

structure Wallet where
  network : Network
  keyStore : KeyStore

namespace Wallet

variable {E : Type} (lib : Lib E)

def new (network : Network) : Wallet := ⟨network, ∅⟩

section Keys

variable (wallet : Wallet)

def getPrivKey (scriptPubkey : Script) : Except (Error E) PrivateKey := do
  let address ← (lib.addressFromScript scriptPubkey wallet.network).mapError .addressError
  match wallet.keyStore[address]? with
  | some privateKey => return privateKey
  | none => throw .noPrivateKey

def getPubKey (scriptPubkey : Script) : Except (Error E) PublicKey := do
  return lib.publicKey (← wallet.getPrivKey lib scriptPubkey)

def p2wpkhAddress (secretKey : SecretKey) : Except (Error E) Address :=
  (lib.p2wpkh (lib.publicKey ⟨wallet.network, secretKey⟩) wallet.network).mapError .addressError

def putP2wpkhKey (secretKey : SecretKey) : Except (Error E) Wallet := do
  let address ← wallet.p2wpkhAddress lib secretKey
  return { wallet with keyStore := wallet.keyStore.insert address ⟨wallet.network, secretKey⟩ }

end Keys

/-! ### Funding -/

/-- The virtual size of the transaction once every input has a signature of the longest encoding. -/
def calculateMaximumSignedTxSize (psbt : PartiallySignedTransaction) (wallet : Wallet) :
    Except (Failure (Error E)) UInt64 := do
  let tx := lib.extractTx psbt
  let input ← tx.input.zipIdx.mapM fun (txin, i) => do
    let psbtInput ← expectSome "index out of bounds" psbt.inputs[i]?
    let txOut ← expectSome "psbt has witness utxo" psbtInput.witnessUtxo
    let publicKey ← expect "wallet has key" (wallet.getPubKey lib txOut.scriptPubkey)
    return dummySignInput txin publicKey
  return (lib.weight { tx with input } + 3) / 4

/-- What `fund_transaction` works out before it selects coins. -/
structure FundParams where
  changeAddress : Address
  prevTxid : Option Txid
  mEffectiveFeerate : FeeRate
  recipientsSum : UInt64
  changeFee : UInt64
  minViableChange : UInt64

structure Funding where
  psbt : PartiallySignedTransaction
  selectCoins : SelectCoins
  valueToSelect : UInt64

def addInput (psbt : PartiallySignedTransaction) (utxo : Utxo) (scriptPubkey : Script) :
    PartiallySignedTransaction where
  unsignedTx := { psbt.unsignedTx with
    input := psbt.unsignedTx.input ++
      [{ TxIn.ofOutPoint utxo.outpoint with sequence := 0xFFFFFFFD }] }
  inputs := psbt.inputs ++ [⟨some ⟨utxo.value, scriptPubkey⟩, none, none⟩]

def withOutput (psbt : PartiallySignedTransaction) (output : List TxOut) :
    PartiallySignedTransaction :=
  { psbt with unsignedTx := { psbt.unsignedTx with output } }

/-- The transaction with its change, when the selected coins are enough. -/
def addChange (params : FundParams) (wallet : Wallet) (s : Funding) :
    Except (Failure (Error E)) PartiallySignedTransaction := do
  let changeAmount := s.selectCoins.getChange params.minViableChange params.changeFee
  let output := s.psbt.unsignedTx.output
  let change : TxOut := ⟨changeAmount, lib.scriptPubkey params.changeAddress⟩
  let psbt := if changeAmount > 0 then withOutput s.psbt (output ++ [change]) else s.psbt
  let nBytes ← calculateMaximumSignedTxSize lib psbt wallet
  let feeNeeded := params.mEffectiveFeerate.getFee nBytes
  let nFeeRet := s.selectCoins.getSelectedValue - params.recipientsSum - changeAmount
  if changeAmount > 0 ∧ feeNeeded < nFeeRet then
    return withOutput psbt
      (output ++ [{ change with value := change.value + (nFeeRet - feeNeeded) }])
  return psbt

/-- One round of the loop over the coins.  A coin that cannot be read ends the loop. -/
def fundRound (params : FundParams) (wallet : Wallet) :
    Except (Error E) Utxo → Funding →
      ExceptT (Failure (Error E)) (Prog (api E)) (Funding ⊕ Option PartiallySignedTransaction)
  | .error _, _ => return .inr none
  | .ok utxo, s => do
    if params.prevTxid = some utxo.outpoint.txid then
      return .inl s
    let scriptPubkey ← (getScriptPubkey utxo.outpoint).adapt fun e => .error (.electrsError e)
    let publicKey ← Prog.ofExcept (expect "wallet has key" (wallet.getPubKey lib scriptPubkey))
    let inputBytes := calculateMaximumSignedInputSize lib utxo.outpoint publicKey
    let coinOutput : CoinOutput := ⟨utxo.value, params.mEffectiveFeerate.getFee inputBytes⟩
    let s : Funding :=
      { psbt := addInput s.psbt utxo scriptPubkey
        selectCoins := s.selectCoins.add coinOutput
        valueToSelect := saturatingSub s.valueToSelect coinOutput.getEffectiveValue }
    if s.valueToSelect = 0 then
      return .inr (some (← Prog.ofExcept (addChange lib params wallet s)))
    return .inl s

def fundTransaction (wallet : Wallet) (tx : Transaction) (changeAddress : Address)
    (nSatoshisPerK : UInt64) (prevTxid : Option Txid) :
    ExceptT (Failure (Error E)) (Prog (api E)) PartiallySignedTransaction := do
  let recipientsSum := (tx.output.map TxOut.value).sum
  let mEffectiveFeerate : FeeRate := ⟨nSatoshisPerK⟩
  let changePrototypeTxout : TxOut := ⟨0, lib.scriptPubkey changeAddress⟩
  let changeFee := mEffectiveFeerate.getFee (txOutSerializeSize lib changePrototypeTxout)
  let mDiscardFeerate := DUST_RELAY_TX_FEE
  let dust := getDustThreshold lib changePrototypeTxout mDiscardFeerate
  let changePublicKey ← Prog.ofExcept
    (expect "wallet has key" (wallet.getPubKey lib (lib.scriptPubkey changeAddress)))
  let changeSpendSize := calculateMaximumSignedInputSize lib ⟨0, 0⟩ changePublicKey
  let changeSpendFee := mDiscardFeerate.getFee changeSpendSize
  let minViableChange := max (changeSpendFee + 1) dust
  let txNoinputsSize :=
    10 + lengthSize lib tx.output + (tx.output.map (txOutSerializeSize lib)).sum
  let notInputFees := mEffectiveFeerate.getFee txNoinputsSize
  let selectionTarget := recipientsSum + notInputFees
  let psbt ← Prog.ofExcept
    ((lib.fromUnsignedTx { tx with input := [] }).mapError fun e => .error (.psbtError e))
  let params : FundParams :=
    { changeAddress, prevTxid, mEffectiveFeerate, recipientsSum, changeFee, minViableChange }
  match ← (availableCoins wallet.keyStore.keys tx.input).forUntil (fundRound lib params wallet)
    ⟨psbt, ⟨[], selectionTarget⟩, selectionTarget⟩ with
  | .inr (some psbt) => return psbt
  | .inr none | .inl _ => throw (.error .notEnoughInputs)

/-! ### Signing -/

/-- `SIGHASH_ALL` -/
def sighashAll : UInt32 := 1

def signInput (wallet : Wallet) (unsignedTx : Transaction) (index : Nat) (psbtInput : PsbtInput) :
    Except (Failure (Error E)) PsbtInput := do
  let prevOut ←
    expectSome "utxo is always set in fund_transaction; qed" psbtInput.witnessUtxo
  let sighashTy ← (lib.ecdsaHashTy (psbtInput.sighashType.getD sighashAll)).mapError
    fun e => .error (.psbtError e)
  let scriptCode ← match lib.p2wpkhScriptCode prevOut.scriptPubkey with
    | some scriptCode => .ok scriptCode
    | none => .error (.error .invalidPrevOut)
  let sigHash ← (lib.segwitSignatureHash unsignedTx index scriptCode prevOut.value
    sighashTy).mapError fun e => .error (.sighashError e)
  let privateKey ← (wallet.getPrivKey lib prevOut.scriptPubkey).mapError .error
  let finalSignature := lib.signEcdsa sigHash sighashTy privateKey.inner
  return { psbtInput with
    finalScriptWitness := some [finalSignature, lib.publicKey privateKey] }

def signTransaction (wallet : Wallet) (psbt : PartiallySignedTransaction) :
    Except (Failure (Error E)) PartiallySignedTransaction := do
  let inputs ← psbt.inputs.zipIdx.mapM fun (psbtInput, index) =>
    signInput lib wallet psbt.unsignedTx index psbtInput
  return { psbt with inputs }

/-- The transaction without inputs that pays the recipient and names the request. -/
def createTransaction (recipient : Address) (value : UInt64) (maybeOpReturn : Option H256) :
    Transaction where
  version := 2
  lockTime := 0
  input := []
  output := ⟨value, lib.scriptPubkey recipient⟩ ::
    (maybeOpReturn.map fun opReturn => (⟨0, lib.opReturnScript opReturn⟩ : TxOut)).toList

end Wallet

end InterBtcClients.Bitcoin.Light
