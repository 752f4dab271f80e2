import InterBtcClients.Bitcoin.Types
import InterBtcClients.Library.AsyncStream

/-! The client of a full node: its calls to bitcoind for blocks and transactions, with the waits for
a block and for a transaction to have enough confirmations. -/

namespace InterBtcClients.Bitcoin

open InterBtcClients.Runtime

abbrev BlockHash := H256

/-- A block, with the hash of the one before it in its header. -/
structure Block where
  prevBlockhash : BlockHash
  txdata : List Transaction
  deriving DecidableEq, Repr

/-- The first transaction of a block. -/
def Block.coinbase (block : Block) : Option Transaction := block.txdata.head?

structure RawTransactionProof where
  coinbaseTxProof : List UInt8
  rawCoinbaseTx : List UInt8
  userTxProof : List UInt8
  rawUserTx : List UInt8
  deriving DecidableEq, Repr

/-- The fee is in satoshi, negative where the node reports what the wallet has paid. -/
structure TransactionMetadata where
  txid : Txid
  proof : RawTransactionProof
  blockHash : BlockHash
  fee : Option Int
  deriving DecidableEq, Repr

namespace Core

open Library

/-! ### The node -/

/-- The errors of a call: `rpc` are those that the node returns, with their codes. -/
inductive RpcError (E : Type)
  | rpc (code : Int)
  | other (e : E)
  deriving DecidableEq, Repr

def RpcMiscError : Int := -1

def RpcInvalidAddressOrKey : Int := -5

def RpcInvalidParameter : Int := -8

def NOT_IN_MEMPOOL_ERROR_CODE : Int := RpcInvalidAddressOrKey

/-- What the wallet knows of a transaction. -/
structure GetTransactionResult where
  confirmations : Int32
  blockhash : Option BlockHash
  fee : Option Int
  deriving DecidableEq, Repr

structure GetRawTransactionResult where
  confirmations : Option UInt32
  blockhash : Option BlockHash
  deriving DecidableEq, Repr

inductive Call
  | getBlockCount
  | getBlockHash (height : Nat)
  /-- Of the block's data only the number of its confirmations is read. -/
  | getBlockInfo (hash : BlockHash)
  | getBlock (hash : BlockHash)
  | getRawMempool
  | getRawTransaction (txid : Txid) (blockHash : Option BlockHash)
  | getRawTransactionInfo (txid : Txid) (blockHash : Option BlockHash)
  /-- Of the node's wallet. -/
  | getTransaction (txid : Txid)
  | getTxOutProof (txid : Txid) (blockHash : BlockHash)
  | sleep

@[reducible] def api (E : Type) : Interface where
  Call := Call
  Answer
    | .getBlockCount => Except (RpcError E) Nat
    | .getBlockHash _ => Except (RpcError E) BlockHash
    | .getBlockInfo _ => Except (RpcError E) Int32
    | .getBlock _ => Except (RpcError E) Block
    | .getRawMempool => Except (RpcError E) (List Txid)
    | .getRawTransaction _ _ => Except (RpcError E) Transaction
    | .getRawTransactionInfo _ _ => Except (RpcError E) GetRawTransactionResult
    | .getTransaction _ => Except (RpcError E) GetTransactionResult
    | .getTxOutProof _ _ => Except (RpcError E) (List UInt8)
    | .sleep => Unit

/-! ### The client -/

/-- The errors of the client that it returns here. -/
inductive Error (E : Type)
  | bitcoinError (e : RpcError E)
  | confirmationError
  | invalidBitcoinHeight
  | coinbaseFetchingFailure
  deriving DecidableEq, Repr

abbrev Rpc (E : Type) := ExceptT (Error E) (Prog (api E))

variable {E : Type}

abbrev ask (call : Call) : Prog (api E) ((api E).Answer call) := Prog.request (api E) call

def RpcError.hasCode (code : Int) : RpcError E → Bool
  | .rpc found => found = code
  | .other _ => false

def errNotInMempool (e : RpcError E) : Bool := e.hasCode NOT_IN_MEMPOOL_ERROR_CODE

/-- One round of the wait: a block that does not exist yet, or has too few confirmations, is asked
for again later. -/
def waitForBlockRound (height : Nat) (numConfirmations : UInt32) : Rpc E (Unit ⊕ Block) := do
  match ← ExceptT.lift (ask (.getBlockHash height)) with
  | .ok hash =>
    let confirmations ← ExceptT.mk (Except.mapError .bitcoinError <$> ask (.getBlockInfo hash))
    if confirmations ≥ numConfirmations.toInt32 then
      let block ← ExceptT.mk (Except.mapError .bitcoinError <$> ask (.getBlock hash))
      return .inr block
    else
      ExceptT.lift (ask .sleep)
      return .inl ()
  | .error e =>
    if e.hasCode RpcInvalidParameter then
      ExceptT.lift (ask .sleep)
      return .inl ()
    else throw (.bitcoinError e)

/-- `none` is a wait that has not ended after `fuel` rounds. -/
def waitForBlock (fuel : Nat) (height : Nat) (numConfirmations : UInt32) : Rpc E (Option Block) :=
  Prog.iterate (fun _ => waitForBlockRound height numConfirmations) fuel ()

def getBlockCount : Rpc E Nat := ExceptT.mk (Except.mapError .bitcoinError <$> ask .getBlockCount)

def getBlock (hash : BlockHash) : Rpc E Block :=
  ExceptT.mk (Except.mapError .bitcoinError <$> ask (.getBlock hash))

def getBlockHash (height : Nat) : Rpc E BlockHash :=
  ExceptT.mk (Except.mapError (fun e =>
    if e.hasCode RpcInvalidParameter then .invalidBitcoinHeight else .bitcoinError e) <$>
      ask (.getBlockHash height))

/-- The transactions of the mempool: first their ids, then each of them when it is asked for.  One
that is not in the mempool any more is left out. -/
def getMempoolTransactions : Rpc E (AsyncStream (api E) (Except (Error E) Transaction)) := do
  let txids ← ExceptT.mk (Except.mapError .bitcoinError <$> ask .getRawMempool)
  return txids.foldr (fun txid rest => .call (.getRawTransaction txid none) fun
    | .ok tx => .yield (.ok tx) rest
    | .error e => if errNotInMempool e then rest else .yield (.error (.bitcoinError e)) rest) .done

/-! ### Confirmed transactions -/

section Metadata

variable (lib : Lib E) (serialize : Transaction → List UInt8)

def getRawTx (txid : Txid) (blockHash : BlockHash) : Rpc E (List UInt8) := do
  let tx ← ExceptT.mk
    (Except.mapError .bitcoinError <$> ask (.getRawTransaction txid (some blockHash)))
  return serialize tx

def getProof (txid : Txid) (blockHash : BlockHash) : Rpc E (List UInt8) :=
  ExceptT.mk (Except.mapError .bitcoinError <$> ask (.getTxOutProof txid blockHash))

/-- The block of a transaction with enough confirmations and the fee, which only the wallet knows.
-/
def getConfirmed (txid : Txid) (numConfirmations : UInt32) (blockHash : Option BlockHash)
    (isWallet : Bool) : Rpc E (BlockHash × Option Int) := do
  if isWallet then
    let tx ← ExceptT.mk (Except.mapError .bitcoinError <$> ask (.getTransaction txid))
    match tx.blockhash with
    | some hash =>
      if tx.confirmations ≥ 0 ∧ tx.confirmations.toUInt32 ≥ numConfirmations then
        return (hash, tx.fee)
      else throw .confirmationError
    | none => throw .confirmationError
  else
    let tx ← ExceptT.mk
      (Except.mapError .bitcoinError <$> ask (.getRawTransactionInfo txid blockHash))
    match tx.confirmations, tx.blockhash with
    | some num, some hash =>
      if num ≥ numConfirmations then return (hash, none) else throw .confirmationError
    | _, _ => throw .confirmationError

def getTransactionProof (txid : Txid) (blockHash : BlockHash) : Rpc E RawTransactionProof := do
  let block ← getBlock blockHash
  match block.coinbase with
  | none => throw .coinbaseFetchingFailure
  | some coinbaseTx =>
    let coinbaseTxid := lib.txid coinbaseTx
    let coinbaseTxProof ← getProof coinbaseTxid blockHash
    let rawCoinbaseTx ← getRawTx serialize coinbaseTxid blockHash
    let rawUserTx ← getRawTx serialize txid blockHash
    let userTxProof ← getProof txid blockHash
    return { coinbaseTxProof, rawCoinbaseTx, userTxProof, rawUserTx }

/-- Both steps are tried again until the time for it is over, which is after `retries` and
`proofRetries` failures. -/
def waitForTransactionMetadata (retries proofRetries : Nat) (txid : Txid)
    (numConfirmations : UInt32) (blockHash : Option BlockHash) (isWallet : Bool) :
    Rpc E TransactionMetadata := do
  let (blockHash, fee) ←
    Prog.retry (getConfirmed txid numConfirmations blockHash isWallet) retries
  let proof ← Prog.retry (getTransactionProof lib serialize txid blockHash) proofRetries
  return { txid, proof, blockHash, fee }

end Metadata

end Core

end InterBtcClients.Bitcoin
