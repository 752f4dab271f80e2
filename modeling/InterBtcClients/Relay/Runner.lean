import InterBtcClients.Bitcoin.Core
import InterBtcClients.Bitcoin.Wallet

/-! The relay of bitcoin block headers to the parachain: the search for the first header that the
parachain does not have, and the runner that submits the headers from there on, one at a time or in
batches. -/

namespace InterBtcClients.Relay

open Library InterBtcClients.Runtime
open Bitcoin (BlockHash)
open Bitcoin.Light (Failure expectSome)

/-! ### The node and the parachain -/

/-- A block header as it is serialised. -/
abbrev RawBlockHeader := List UInt8

/-- The hash functions of the libraries: `hash` is that of block headers. -/
structure Lib where
  sha256 : List UInt8 → H256
  hash : RawBlockHeader → BlockHash

/-- What is read of a header that the parachain has, or of the default in its place. -/
structure RichBlockHeader where
  blockHeight : Nat
  deriving DecidableEq, Repr

/-- The calls that only read, and the waits. -/
inductive Query
  | getBlockCount
  | getBlockHash (height : Nat)
  | getBlockHeader (hash : BlockHash)
  /-- Of the parachain, as are the next three. -/
  | getBestBlock
  | getBestBlockHeight
  | getRelayBlockHash (height : Nat)
  | getRelayBlockHeader (hash : BlockHash)
  /-- Of a number of parachain blocks that depends on the seed. -/
  | delay (seed : H256)
  | sleep

inductive Call
  | query (query : Query)
  | initializeBtcRelay (header : RawBlockHeader) (height : Nat)
  | storeBlockHeader (header : RawBlockHeader)
  | storeBlockHeaders (headers : List RawBlockHeader)

@[reducible] def queries (E : Type) : Interface where
  Call := Query
  Answer
    | .getBlockCount => Except (Bitcoin.Core.Error E) Nat
    | .getBlockHash _ => Except (Bitcoin.Core.Error E) BlockHash
    | .getBlockHeader _ => Except (Bitcoin.Core.Error E) RawBlockHeader
    | .getBestBlock => Except E BlockHash
    | .getBestBlockHeight => Except E Nat
    | .getRelayBlockHash _ => Except E BlockHash
    | .getRelayBlockHeader _ => Except E RichBlockHeader
    | .delay _ => Except E Unit
    | .sleep => Unit

@[reducible] def api (E : Type) : Interface where
  Call := Call
  Answer
    | .query query => (queries E).Answer query
    | .initializeBtcRelay _ _ => Except E Unit
    | .storeBlockHeader _ => Except E Unit
    | .storeBlockHeaders _ => Except E Unit

/-- The errors that are returned here. -/
inductive Error (E : Type)
  | notInitialized
  | blockHeaderNotFound
  | bitcoinError (e : Bitcoin.Core.Error E)
  | runtimeError (e : E)
  deriving DecidableEq, Repr

abbrev Rpc (E : Type) := ExceptT (Error E) (Prog (queries E))

/-- Programs that also write to the parachain. -/
abbrev Service (E : Type) := ExceptT (Failure (Error E)) (Prog (api E))

variable {E A : Type}

abbrev ask (query : Query) : Prog (queries E) ((queries E).Answer query) :=
  Prog.request (queries E) query

def bitcoin (request : Prog (queries E) (Except (Bitcoin.Core.Error E) A)) : Rpc E A :=
  ExceptT.mk (Except.mapError .bitcoinError <$> request)

def runtime (request : Prog (queries E) (Except E A)) : Rpc E A :=
  ExceptT.mk (Except.mapError .runtimeError <$> request)

def query (p : Rpc E A) : Service E A :=
  ExceptT.mk (Except.mapError Failure.error <$> p.run.embed Call.query fun _ r => r)

def tell (request : Prog (api E) (Except E Unit)) : Service E Unit :=
  ExceptT.mk (Except.mapError (fun e => .error (.runtimeError e)) <$> request)

/-! ### The chain that is relayed -/

namespace Backing

def getBlockCount : Rpc E Nat := do
  let count ← bitcoin (ask .getBlockCount)
  return count % 2 ^ 32

def getBlockHeader (height : Nat) : Rpc E (Option RawBlockHeader) := do
  match ← ExceptT.lift (ask (.getBlockHash height)) with
  | .ok hash => some <$> bitcoin (ask (.getBlockHeader hash))
  | .error .invalidBitcoinHeight => return none
  | .error e => throw (.bitcoinError e)

def getBlockHash (height : Nat) : Rpc E BlockHash := bitcoin (ask (.getBlockHash height))

end Backing

/-! ### The relay on the parachain -/

namespace Issuing

def isInitialized : Rpc E Bool := do
  let hash ← runtime (ask .getBestBlock)
  return hash != 0

def getBestHeight : Rpc E Nat := runtime (ask .getBestBlockHeight)

/-- Of the main chain, with the hash 0 where there is none. -/
def getBlockHash (height : Nat) : Rpc E BlockHash := runtime (ask (.getRelayBlockHash height))

def isBlockStored (hash : BlockHash) : Rpc E Bool := do
  let head ← runtime (ask (.getRelayBlockHeader hash))
  return head.blockHeight > 0

def submitBlockHeader (lib : Lib) (header : RawBlockHeader) : Service E Unit := do
  query (runtime (ask (.delay (lib.sha256 header))))
  if ← query (isBlockStored (lib.hash header)) then return ()
  else tell (Prog.request (api E) (.storeBlockHeader header))

def submitBlockHeaderBatch (headers : List RawBlockHeader) : Service E Unit :=
  tell (Prog.request (api E) (.storeBlockHeaders headers))

end Issuing

/-! ### The search -/

def saturatingAdd (a b : Nat) : Nat := min (a + b) (2 ^ 32 - 1)

/-- From `height`, with the hashes there in the relay and in the backing chain, down to where they
agree. -/
def backwardPass (height : Nat) (relayHash btcHash : BlockHash) : Rpc E Nat :=
  if relayHash = btcHash then return height
  else match height with
    | 0 => throw .notInitialized
    | height + 1 => do
      let relayHash ← Issuing.getBlockHash height
      let btcHash ← Backing.getBlockHash height
      backwardPass height relayHash btcHash

/-- A block that the relay has already stored, perhaps on a fork, is passed over. -/
def forwardRound (startHeight : Nat) : Rpc E (Nat ⊕ Nat) := do
  match ← ExceptT.lift (Backing.getBlockHash startHeight).run with
  | .ok h =>
    if ← Issuing.isBlockStored h then return .inl (saturatingAdd startHeight 1)
    else return .inr startHeight
  | .error _ => return .inr startHeight

/-- `none` is a search that has not ended after `fuel` rounds of its second pass. -/
def computeStartHeight (fuel : Nat) : Rpc E (Option Nat) := do
  let startHeight ← Issuing.getBestHeight
  let relayHash ← Issuing.getBlockHash startHeight
  let btcHash ← Backing.getBlockHash startHeight
  let startHeight ← backwardPass startHeight relayHash btcHash
  Prog.iterate forwardRound fuel startHeight

def collectHeader (h : Nat) : Rpc E RawBlockHeader := do
  match ← Backing.getBlockHeader h with
  | some header => return header
  | none => throw .blockHeaderNotFound

/-- The end of the range of heights wraps around. -/
def collectHeaders (height batch : Nat) : Rpc E (List RawBlockHeader) :=
  (List.range' height ((height + batch) % 2 ^ 32 - height)).mapM collectHeader

/-! ### The runner -/

structure Runner where
  startHeight : Option Nat
  maxBatchSize : Nat
  btcConfirmations : Nat
  deriving DecidableEq, Repr

namespace Runner

variable (runner : Runner)

def getBlockHeaderRound (height : Nat) : Rpc E (Unit ⊕ RawBlockHeader) := do
  match ← Backing.getBlockHeader height with
  | some header => return .inr header
  | none =>
    ExceptT.lift (ask .sleep)
    return .inl ()

/-- `none` is a wait for the block that has not ended after `fuel` rounds. -/
def getBlockHeader (fuel height : Nat) : Rpc E (Option RawBlockHeader) :=
  Prog.iterate (fun _ => getBlockHeaderRound height) fuel ()

def getNumConfirmedBlocks : Rpc E Nat := do
  let count ← Backing.getBlockCount
  return count - runner.btcConfirmations

/-- The first part of `submit_next`.  The number of confirmed blocks is asked for also when the
start height is set. -/
def ensureInitialized : Service E Unit := do
  if ← query Issuing.isInitialized then return ()
  else
    let confirmed ← query runner.getNumConfirmedBlocks
    let startHeight := runner.startHeight.getD confirmed
    let header ← query (Backing.getBlockHeader startHeight)
    let header ← Prog.ofExcept
      (expectSome "called `Option::unwrap()` on a `None` value" header)
    tell (Prog.request (api E) (.initializeBtcRelay header startHeight))

def batchSize (currentHeight maxHeight : Nat) : Nat :=
  if saturatingAdd currentHeight runner.maxBatchSize > maxHeight then
    saturatingAdd maxHeight 1 - currentHeight
  else runner.maxBatchSize

/-- `none` is a call with a loop that has not ended after `fuel` rounds. -/
def submitNext (lib : Lib) (fuel : Nat) : Service E (Option Unit) := do
  runner.ensureInitialized
  let maxHeight ← query runner.getNumConfirmedBlocks
  match ← query (computeStartHeight fuel) with
  | none => return none
  | some currentHeight =>
    match runner.batchSize currentHeight maxHeight with
    | 0 => query (some <$> ExceptT.lift (ask .sleep))
    | 1 =>
      match ← query (getBlockHeader fuel currentHeight) with
      | none => return none
      | some header => some <$> Issuing.submitBlockHeader lib header
    | batchSize =>
      let headers ← query (collectHeaders currentHeight batchSize)
      some <$> Issuing.submitBlockHeaderBatch headers

end Runner

end InterBtcClients.Relay
