import InterBtcClients.Bitcoin.Types
import InterBtcClients.Library.AsyncStream

/-! The client of the electrs server, which is asked for transactions, unspent outputs and the
history of a script or of an address. -/

namespace InterBtcClients.Bitcoin.Electrs

open Library InterBtcClients.Runtime

def ELECTRS_TRANSACTIONS_PER_PAGE : Nat := 25

structure Utxo where
  outpoint : OutPoint
  value : UInt64
  deriving DecidableEq, Repr

structure TxOutValue where
  scriptpubkey : Script
  scriptpubkeyAddress : Option String
  value : UInt64
  deriving DecidableEq, Repr

structure TransactionValue where
  txid : Txid
  vout : List TxOutValue
  deriving DecidableEq, Repr

structure UtxoValue where
  txid : Txid
  vout : UInt32
  value : UInt64
  deriving DecidableEq, Repr

/-- The errors of the client; `external` are those of the connection and of the decoding. -/
inductive Error (E : Type)
  | noPrevOut
  | external (e : E)
  deriving DecidableEq, Repr

/-- The requests to the server, by their paths. -/
inductive Call
  /-- `/tx/{txid}` -/
  | tx (txid : Txid)
  /-- `/tx/{txid}/hex` -/
  | txHex (txid : Txid)
  /-- `/address/{address}/utxo` -/
  | addressUtxo (address : Address)
  /-- `/scripthash/{scripthash}/txs/chain/{last_seen_txid}` -/
  | scripthashTxsChain (scripthash : List UInt8) (lastSeenTxid : Option Txid)
  /-- `/address/{address}/txs/chain/{last_seen_txid}` -/
  | addressTxsChain (address : String) (lastSeenTxid : Option Txid)
  /-- A `POST` to `/tx`. -/
  | postTx (tx : Transaction)

/-- What a request gets: the decoded body, or an error on the way. -/
@[reducible] def api (E : Type) : Interface where
  Call := Call
  Answer
    | .tx _ => Except E TransactionValue
    | .txHex _ => Except E (List UInt8)
    | .addressUtxo _ => Except E (List UtxoValue)
    | .scripthashTxsChain _ _ => Except E (List TransactionValue)
    | .addressTxsChain _ _ => Except E (List TransactionValue)
    | .postTx _ => Except E Txid

abbrev Rpc (E : Type) := ExceptT (Error E) (Prog (api E))

variable {E : Type}

abbrev ask (call : Call) : Prog (api E) ((api E).Answer call) := Prog.request (api E) call

/-- A request that leaves the server as it is. -/
def Call.IsQuery : Call → Prop
  | .postTx _ => False
  | _ => True

def getRawTx (txid : Txid) : Rpc E (List UInt8) :=
  ExceptT.mk (Except.mapError .external <$> ask (.txHex txid))

def getUtxosForAddress (address : Address) : Rpc E (List Utxo) := do
  let utxos ← ExceptT.mk (Except.mapError .external <$> ask (.addressUtxo address))
  return utxos.map fun utxo => ⟨⟨utxo.txid, utxo.vout⟩, utxo.value⟩

/-- The output that an outpoint refers to. -/
def getPrevOut (outpoint : OutPoint) : Rpc E TxOutValue := do
  let tx ← ExceptT.mk (Except.mapError .external <$> ask (.tx outpoint.txid))
  match tx.vout[outpoint.vout.toNat]? with
  | some txOut => return txOut
  | none => throw .noPrevOut

def getScriptPubkey (outpoint : OutPoint) : Rpc E Script := do
  return (← getPrevOut outpoint).scriptpubkey

def getPrevValue (outpoint : OutPoint) : Rpc E UInt64 := do
  return (← getPrevOut outpoint).value

def sendTransaction (tx : Transaction) : Rpc E Txid :=
  ExceptT.mk (Except.mapError .external <$> ask (.postTx tx))

section Only

variable {P : Call → Prop} (htx : ∀ txid, P (.tx txid))

include htx

theorem only_getPrevOut (outpoint : OutPoint) :
    Prog.Only P (getPrevOut (E := E) outpoint).run := by
  refine Prog.only_run_bind ⟨htx outpoint.txid, fun _ => trivial⟩ fun tx => ?_
  split
  · trivial
  · trivial

theorem only_getScriptPubkey (outpoint : OutPoint) :
    Prog.Only P (getScriptPubkey (E := E) outpoint).run :=
  Prog.only_run_bind (only_getPrevOut htx outpoint) fun _ => trivial

theorem only_getPrevValue (outpoint : OutPoint) :
    Prog.Only P (getPrevValue (E := E) outpoint).run :=
  Prog.only_run_bind (only_getPrevOut htx outpoint) fun _ => trivial

end Only

theorem only_getUtxosForAddress {P : Call → Prop} (hutxo : ∀ address, P (.addressUtxo address))
    (address : Address) : Prog.Only P (getUtxosForAddress (E := E) address).run :=
  Prog.only_run_bind ⟨hutxo address, fun _ => trivial⟩ fun _ => trivial

/-! ### Histories -/

section Pages

variable {F : Interface} {T X : Type} (txid : T → Txid)
  (request : Option Txid → Prog F (Except X (List T)))

/-- One round of the loop over the pages of `request`, of transactions with the ids `txid`: the
state is the last transaction seen and those that the pages had so far. -/
def readPage : Option Txid × List T → ExceptT X (Prog F) ((Option Txid × List T) ⊕ List T)
  | (lastSeenTxid, ret) => do
    let transactions ← ExceptT.mk (request lastSeenTxid)
    let pageSize := transactions.length
    let lastSeenTxid := transactions.getLast?.map txid
    let ret := ret ++ transactions
    if pageSize < ELECTRS_TRANSACTIONS_PER_PAGE then
      return .inr ret
    return .inl (lastSeenTxid, ret)

/-- `none` is a loop that has not ended after `fuel` pages. -/
def readPages (fuel : Nat) : ExceptT X (Prog F) (Option (List T)) :=
  Prog.iterate (readPage txid request) fuel (none, [])

end Pages

/-- What the loops of the client ask for. -/
abbrev pages (request : Option Txid → Prog (api E) (Except E (List TransactionValue)))
    (lastSeenTxid : Option Txid) : Prog (api E) (Except (Error E) (List TransactionValue)) :=
  Except.mapError .external <$> request lastSeenTxid

def getTxsByScripthash (fuel : Nat) (scriptHash : List UInt8) :
    Rpc E (Option (List TransactionValue)) :=
  readPages TransactionValue.txid (pages fun last => ask (.scripthashTxsChain scriptHash last)) fuel

def getAddressTxHistoryFull (fuel : Nat) (address : String) :
    Rpc E (Option (List TransactionValue)) :=
  readPages TransactionValue.txid (pages fun last => ask (.addressTxsChain address last)) fuel

def TransactionValue.largestPaymentTo (tx : TransactionValue) (address : String) : UInt64 :=
  ((tx.vout.filter fun vout => vout.scriptpubkeyAddress = some address).map
    TxOutValue.value).max?.getD 0

/-- The first transaction whose largest payment to the address is large enough. -/
def findPayment (address : String) (amount : Nat) (txs : List TransactionValue) : Option Txid :=
  (txs.find? fun tx => (tx.largestPaymentTo address).toNat ≥ amount).map TransactionValue.txid

def getTxForOpReturn (lib : Lib E) (fuel : Nat) (address : Address) (amount : Nat) (data : H256) :
    Rpc E (Option (Option Txid)) := do
  let script := lib.opReturnScript data
  let scriptHash := lib.sha256 script
  let txs ← getTxsByScripthash fuel scriptHash
  return txs.map (findPayment (lib.addressString address) amount)

end InterBtcClients.Bitcoin.Electrs
