import InterBtcClients.Bitcoin.Core
import InterBtcClients.Bitcoin.Light

/-! The light client's calls to the electrs server for blocks and transactions, with its waits for a
block and for a transaction to have enough confirmations. -/

namespace InterBtcClients.Bitcoin.LightChain

open Library InterBtcClients.Runtime

/-! ### The server -/

structure TransactionStatus where
  blockHeight : Option Nat
  blockHash : Option BlockHash
  deriving DecidableEq, Repr

/-- What is read here of the server's description of a transaction. -/
structure TransactionValue where
  fee : UInt64
  status : Option TransactionStatus
  deriving DecidableEq, Repr

/-- The requests to the server, by their paths. -/
inductive Call
  /-- `/tx/{txid}` -/
  | tx (txid : Txid)
  /-- `/tx/{txid}/hex` -/
  | txHex (txid : Txid)
  /-- `/tx/{txid}/merkleblock-proof` -/
  | txMerkleblockProof (txid : Txid)
  /-- `/blocks/tip/height` -/
  | blocksTipHeight
  /-- `/block-height/{height}` -/
  | blockHeight (height : Nat)
  /-- `/block/{hash}/header`, of which the hash of the block before is read. -/
  | blockHeader (hash : BlockHash)
  /-- `/block/{hash}/txids` -/
  | blockTxids (hash : BlockHash)
  | sleep

@[reducible] def api (E : Type) : Interface where
  Call := Call
  Answer
    | .tx _ => Except E TransactionValue
    | .txHex _ => Except E (List UInt8)
    | .txMerkleblockProof _ => Except E (List UInt8)
    | .blocksTipHeight => Except E Nat
    | .blockHeight _ => Except E BlockHash
    | .blockHeader _ => Except E BlockHash
    | .blockTxids _ => Except E (List Txid)
    | .sleep => Unit

/-- The errors of the client of the server; `external` are those of the connection and of the
decoding. -/
inductive ElectrsError (E : Type)
  | external (e : E)
  | invalidAddress
  | emptyBlock
  deriving DecidableEq, Repr

abbrev ElectrsRpc (E : Type) := ExceptT (ElectrsError E) (Prog (api E))

variable {E : Type}

abbrev ask (call : Call) : Prog (api E) ((api E).Answer call) := Prog.request (api E) call

/-- A request whose answer is returned as it is. -/
def get {A : Type} (request : Prog (api E) (Except E A)) : ElectrsRpc E A :=
  ExceptT.mk (Except.mapError .external <$> request)

def getBlockHash (height : Nat) : ElectrsRpc E BlockHash := get (ask (.blockHeight height))

def getBlocksTipHeight : ElectrsRpc E Nat := get (ask .blocksTipHeight)

def getRawTx (txid : Txid) : ElectrsRpc E (List UInt8) := get (ask (.txHex txid))

def getRawTxMerkleProof (txid : Txid) : ElectrsRpc E (List UInt8) :=
  get (ask (.txMerkleblockProof txid))

def getCoinbaseTxid (hash : BlockHash) : ElectrsRpc E Txid := do
  match ← get (ask (.blockTxids hash)) with
  | [] => throw .emptyBlock
  | txid :: _ => return txid

structure TxInfo where
  confirmations : Nat
  height : Nat
  hash : BlockHash
  fee : Int
  deriving DecidableEq, Repr

def getTxInfo (txid : Txid) : ElectrsRpc E TxInfo := do
  let tx ← get (ask (.tx txid))
  let tip ← getBlocksTipHeight
  match tx.status.bind TransactionStatus.blockHeight,
    tx.status.bind TransactionStatus.blockHash with
  | some blockHeight, some hash =>
    let height := blockHeight % 2 ^ 32
    return { confirmations := tip - height, height, hash, fee := tx.fee.toInt64.toInt }
  | _, _ => throw .invalidAddress

section Blocks

variable (lib : Lib E)

def getTransactionsInBlock (hash : BlockHash) : ElectrsRpc E (List Transaction) := do
  let txids ← get (ask (.blockTxids hash))
  txids.mapM fun txid => do
    let rawTx ← getRawTx txid
    Prog.ofExcept ((lib.deserialize rawTx).mapError .external)

def getBlock (hash : BlockHash) : ElectrsRpc E Block := do
  let prevBlockhash ← get (ask (.blockHeader hash))
  let txdata ← getTransactionsInBlock lib hash
  return { prevBlockhash, txdata }

end Blocks

/-! ### The client -/

/-- The errors of the light client that it returns here. -/
inductive BitcoinError (E : Type)
  | electrsError (e : ElectrsError E)
  | confirmationError
  | connectionRefused
  deriving DecidableEq, Repr

abbrev Rpc (E : Type) := ExceptT (BitcoinError E) (Prog (api E))

variable (lib : Lib E)

/-- One round of the wait: after any error, and for a block with too few on top of it, the server is
asked again later. -/
def waitForBlockRound (height : Nat) (numConfirmations : UInt32) : Rpc E (Unit ⊕ Block) := do
  let joined : ElectrsRpc E (BlockHash × Nat) := do
    return (← getBlockHash height, ← getBlocksTipHeight)
  match ← ExceptT.lift joined.run with
  | .ok (hash, best) =>
    if best - height ≥ numConfirmations.toNat then
      let block ← (getBlock lib hash).adapt .electrsError
      return .inr block
    else
      ExceptT.lift (ask .sleep)
      return .inl ()
  | .error _ =>
    ExceptT.lift (ask .sleep)
    return .inl ()

/-- `none` is a wait that has not ended after `fuel` rounds. -/
def waitForBlock (fuel : Nat) (height : Nat) (numConfirmations : UInt32) : Rpc E (Option Block) :=
  Prog.iterate (fun _ => waitForBlockRound lib height numConfirmations) fuel ()

def getConfirmed (txid : Txid) (numConfirmations : UInt32) : Rpc E (BlockHash × Int) := do
  match ← ExceptT.lift (getTxInfo txid).run with
  | .ok info =>
    if info.confirmations ≥ numConfirmations.toNat then return (info.hash, info.fee)
    else throw .confirmationError
  | .error _ => throw .connectionRefused

def getTransactionProof (txid : Txid) (blockHash : BlockHash) : Rpc E RawTransactionProof := do
  let coinbaseTxid ← (getCoinbaseTxid blockHash).adapt .electrsError
  let coinbaseTxProof ← (getRawTxMerkleProof coinbaseTxid).adapt .electrsError
  let rawCoinbaseTx ← (getRawTx coinbaseTxid).adapt .electrsError
  let userTxProof ← (getRawTxMerkleProof txid).adapt .electrsError
  let rawUserTx ← (getRawTx txid).adapt .electrsError
  return { coinbaseTxProof, rawCoinbaseTx, userTxProof, rawUserTx }

/-- Both steps are tried again until the time for it is over, which is after `retries` and
`proofRetries` failures.  The block of the transaction and whether it is the wallet's own are not
used. -/
def waitForTransactionMetadata (retries proofRetries : Nat) (txid : Txid)
    (numConfirmations : UInt32) (_blockHash : Option BlockHash) (_isWallet : Bool) :
    Rpc E TransactionMetadata := do
  let (blockHash, fee) ← Prog.retry (getConfirmed txid numConfirmations) retries
  let proof ← Prog.retry (getTransactionProof txid blockHash) proofRetries
  return { txid, proof, blockHash, fee := some fee }

end InterBtcClients.Bitcoin.LightChain
