import InterBtcClients.Bitcoin.Chain
import Mathlib.Algebra.Group.Nat.Defs

/-! The streams over a full node's blocks and transactions: forward from a height, waiting for each
block to have enough confirmations, and backward from the mempool to a height. -/

namespace InterBtcClients.Bitcoin.Core

open Library InterBtcClients.Runtime

variable {E : Type}

/-! ### Forward -/

/-- One element of the stream of blocks and the next height, if the wait for it ends after `fuel`
rounds.  An error leaves the height as it is. -/
def nextBlock (fuel : Nat) (numConfirmations : UInt32) (height : Nat) :
    Prog (api E) (Option (Except (Error E) Block × Nat)) := do
  match ← (waitForBlock fuel height numConfirmations).run with
  | .ok (some block) => return some (.ok block, height + 1)
  | .ok none => return none
  | .error e => return some (.error e, height)

/-- The elements of the stream of blocks from a height on that have been found when it has been
polled `polls` times or is still waiting, and the next height. -/
def streamBlocks (fuel : Nat) (numConfirmations : UInt32) :
    Nat → Nat → Prog (api E) (List (Except (Error E) Block) × Nat)
  | 0, height => return ([], height)
  | polls + 1, height => do
    match ← nextBlock fuel numConfirmations height with
    | none => return ([], height)
    | some (item, height) => do
      let (items, height) ← streamBlocks fuel numConfirmations polls height
      return (item :: items, height)

/-! ### Backward -/

/-- The height and the hash of the best block. -/
def getBestBlockInfo : Rpc E (Nat × BlockHash) := do
  let height := (← getBlockCount) % 2 ^ 32
  let hash ← getBlockHash height
  return (height, hash)

/-- The block that the stream has had last, with its height. -/
structure StreamState where
  height : Option Nat
  prevBlock : Option Block

/-- One element of the reverse stream of blocks: the best block when the stream is first polled, and
its ancestors from then on.  A block that has been pruned ends the stream. -/
def reverseBlock (stopHeight : Nat) (state : StreamState) :
    Prog (api E) (Option (Except (Error E) Block × StreamState)) := do
  let next ← match state.height, state.prevBlock with
    | some height, some block => pure (.ok (height - 1, block.prevBlockhash))
    | _, _ => getBestBlockInfo.run
  match next with
  | .error e => return some (.error e, state)
  | .ok (nextHeight, nextHash) =>
    if nextHeight < stopHeight then
      return none
    else
      match ← ask (.getBlock nextHash) with
      | .ok block => return some (.ok block, ⟨some nextHeight, some block⟩)
      | .error e =>
        if e.hasCode RpcMiscError then return none
        else return some (.error (.bitcoinError e), state)

/-- The first `fuel` elements. -/
def reverseStreamBlocks (fuel : Nat) (stopHeight : Nat) :
    AsyncStream (api E) (Except (Error E) Block) :=
  .unfold (reverseBlock stopHeight) fuel ⟨none, none⟩

def reverseStreamInChainTransactions (fuel : Nat) (stopHeight : Nat) :
    AsyncStream (api E) (Except (Error E) Transaction) :=
  (reverseStreamBlocks fuel stopHeight).flatMap fun
    | .ok block => block.txdata.map .ok
    | .error e => [.error e]

def reverseStreamTransactions (fuel : Nat) (stopHeight : Nat) :
    Rpc E (AsyncStream (api E) (Except (Error E) Transaction)) := do
  let mempoolTransactions ← getMempoolTransactions
  return mempoolTransactions.append (reverseStreamInChainTransactions fuel stopHeight)

end InterBtcClients.Bitcoin.Core
