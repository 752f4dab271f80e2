import InterBtcClients.Bitcoin.Types

/-! What the clients read off the outputs of a transaction. -/

namespace InterBtcClients.Bitcoin

open InterBtcClients.Runtime

variable {E : Type} (lib : Lib E)

/-- The script of the first OP_RETURN output with 32 bytes of data, among the three that the
parachain looks at. -/
def getOpReturnBytes (tx : Transaction) : Option (List UInt8) :=
  (tx.output.take 3).findSome? fun txOut =>
    match txOut.scriptPubkey with
    | 0x6A :: 32 :: data => if data.length = 32 then some (0x6A :: 32 :: data) else none
    | _ => none

def getOpReturn (tx : Transaction) : Option H256 :=
  (getOpReturnBytes tx).map fun bytes => .ofNat 256 (ofBytes (bytes.drop 2))

/-- The value of the first output to the destination. -/
def getPaymentAmountTo (tx : Transaction) (dest : Payload) : Option UInt64 :=
  tx.output.findSome? fun txOut =>
    match lib.payloadFromScript txOut.scriptPubkey with
    | .ok payload => if payload = dest then some txOut.value else none
    | .error _ => none

/-- The addresses of the outputs with a value, with their positions. -/
def extractIndexedOutputAddresses (tx : Transaction) : List (Nat × Payload) :=
  (tx.output.zipIdx.filter fun (txOut, _) => txOut.value > 0).filterMap fun (txOut, idx) =>
    match lib.payloadFromScript txOut.scriptPubkey with
    | .ok payload => some (idx, payload)
    | .error _ => none

def extractOutputAddresses (tx : Transaction) : List Payload :=
  (extractIndexedOutputAddresses lib tx).map Prod.snd

/-! ### The first output to a destination -/

/-- What is read off one output for a destination. -/
def readPayment (dest : Payload) (txOut : TxOut) : Option UInt64 :=
  match lib.payloadFromScript txOut.scriptPubkey with
  | .ok payload => if payload = dest then some txOut.value else none
  | .error _ => none

variable {lib}

theorem readPayment_eq_some_iff {dest : Payload} {txOut : TxOut} {paid : UInt64} :
    readPayment lib dest txOut = some paid ↔
      lib.payloadFromScript txOut.scriptPubkey = .ok dest ∧ txOut.value = paid := by
  unfold readPayment
  cases lib.payloadFromScript txOut.scriptPubkey <;> simp

theorem readPayment_eq_none_iff {dest : Payload} {txOut : TxOut} :
    readPayment lib dest txOut = none ↔ lib.payloadFromScript txOut.scriptPubkey ≠ .ok dest := by
  unfold readPayment
  cases lib.payloadFromScript txOut.scriptPubkey <;> simp

theorem getPaymentAmountTo_eq_some_iff {tx : Transaction} {dest : Payload} {paid : UInt64} :
    getPaymentAmountTo lib tx dest = some paid ↔
      ∃ before txOut after, tx.output = before ++ txOut :: after ∧
        (lib.payloadFromScript txOut.scriptPubkey = .ok dest ∧ txOut.value = paid) ∧
        ∀ earlier ∈ before, lib.payloadFromScript earlier.scriptPubkey ≠ .ok dest := by
  have hread : getPaymentAmountTo lib tx dest = tx.output.findSome? (readPayment lib dest) := rfl
  simp only [hread, List.findSome?_eq_some_iff, readPayment_eq_some_iff, readPayment_eq_none_iff]

end InterBtcClients.Bitcoin
