import InterBtcClients.Bitcoin.Electrs

/-! The rescans of bitcoin core: of a range of blocks, which goes on after the request for it has
timed out, and of the blocks that the node has pruned, whose payments come from the electrs
server. -/

namespace InterBtcClients.Bitcoin.CoreRescan

open Library InterBtcClients.Runtime

inductive ScanningDetails
  | scanning
  | notScanning
  deriving DecidableEq

structure TransactionStatus where
  confirmed : Bool
  deriving DecidableEq

structure TransactionValue extends Electrs.TransactionValue where
  status : Option TransactionStatus
  deriving DecidableEq

/-- `waiting` is a loop that has not ended after all rounds. -/
inductive Failure (E : Type)
  | rpc (e : E)
  | waiting

/-- The requests to the node and to the electrs server. -/
inductive Call
  | getWalletInfo
  | rescanBlockchain (startHeight endHeight : Nat)
  /-- A page of the history, after the transaction last seen. -/
  | addressTxsChain (address : String) (lastSeenTxid : Option Txid)
  | getTxHex (txid : Txid)
  | getTxMerkleBlockProof (txid : Txid)
  | importPrunedFunds (rawTx rawMerkleProof : List UInt8)

@[reducible] def api (E : Type) : Interface where
  Call := Call
  Answer
    | .getWalletInfo => Except E (Option ScanningDetails)
    | .rescanBlockchain _ _ => Except E Unit
    | .addressTxsChain _ _ => Except E (List TransactionValue)
    | .getTxHex _ => Except E (List UInt8)
    | .getTxMerkleBlockProof _ => Except E (List UInt8)
    | .importPrunedFunds _ _ => Except E Unit

variable {E : Type}

abbrev Rpc (E : Type) := ExceptT E (Prog (api E))

abbrev ask (call : Call) : Prog (api E) ((api E).Answer call) := Prog.request (api E) call

/-- One round of the loop, which sleeps while there is a scan. -/
def waitForRescanRound (_ : Unit) : Rpc E (Unit ⊕ Unit) := do
  match ← ExceptT.mk (ask .getWalletInfo) with
  | some .scanning => return .inl ()
  | _ => return .inr ()

/-- `none` is a scan that goes on after `fuel` rounds. -/
def waitForRescan (fuel : Nat) : Rpc E (Option Unit) := Prog.iterate waitForRescanRound fuel ()

/-- A scan that goes on is waited for, since its range might be different.  A transport error is
taken for a timeout of the request. -/
def rescanBlockchain (isTransportError : E → Bool) (fuel startHeight endHeight : Nat) :
    Rpc E (Option Unit) := do
  match ← waitForRescan fuel with
  | none => return none
  | some () =>
    match ← ExceptT.lift (ask (.rescanBlockchain startHeight endHeight)) with
    | .ok () => return some ()
    | .error e => if isTransportError e then waitForRescan fuel else throw e

/-- Payments in blocks, not in the mempool, and to the address: the node knows those from it. -/
def isConfirmedPaymentTo (address : String) (tx : TransactionValue) : Bool :=
  (tx.status.all fun status => status.confirmed) &&
    tx.vout.any fun output => output.scriptpubkeyAddress = some address

def importPayment (transaction : TransactionValue) : Rpc E Unit := do
  let rawTx ← ExceptT.mk (ask (.getTxHex transaction.txid))
  let rawMerkleProof ← ExceptT.mk (ask (.getTxMerkleBlockProof transaction.txid))
  ExceptT.mk (ask (.importPrunedFunds rawTx rawMerkleProof))

/-- What a loop of the code ends with. -/
def ended {A : Type} : Except E (Option A) → Except (Failure E) A
  | .ok (some a) => .ok a
  | .ok none => .error .waiting
  | .error e => .error (.rpc e)

def getAddressTxHistoryFull (fuel : Nat) (address : String) :
    Rpc E (Option (List TransactionValue)) :=
  Electrs.readPages (fun tx => tx.txid)
    (fun lastSeenTxid => ask (.addressTxsChain address lastSeenTxid)) fuel

def rescanElectrsForAddress (fuel : Nat) (address : String) :
    ExceptT (Failure E) (Prog (api E)) Unit := do
  let allTransactions ← ExceptT.mk (ended <$> (getAddressTxHistoryFull fuel address).run)
  (allTransactions.filter (isConfirmedPaymentTo address)).forM fun transaction =>
    (importPayment transaction).adapt .rpc

def rescanElectrsForAddresses {X : Type} (lib : Lib X) (fuel : Nat) (addresses : List Address) :
    ExceptT (Failure E) (Prog (api E)) Unit :=
  addresses.forM fun address => rescanElectrsForAddress fuel (lib.addressString address)

end InterBtcClients.Bitcoin.CoreRescan
