import InterBtcClients.Bitcoin.ThreeKeys
import InterBtcClients.Bitcoin.TransactionExt
import InterBtcClients.Runtime.Addr
import InterBtcClients.Vault.IssueSet

/-! The execution of the issues that a bitcoin transaction pays.  One issue is executed at most:
that of the first output with a watched address, if the first output to this address has its amount
and fee. -/

namespace InterBtcClients.Vault.IssueExecution

open Library Bitcoin InterBtcClients.Runtime IssueSet

/-! ### The program -/

/-- An issue request with the fields that its execution reads. -/
structure IssueRequest extends InterBtcIssueRequest where
  amount : Nat
  fee : Nat

section Program

variable (R M : Type)

/-- The set of the watched issues is locked until the end, with `removeValue` its one change. -/
inductive Call
  | lock
  | getIssueRequest (issueId : H256)
  | removeValue (address : BtcAddress)
  | waitForBlockInRelay (blockHash : H256) (confirmations : Nat)
  | delay (seedData : H256)
  | waitForTransactionMetadata (txid : Txid) (confirmations : Nat) (blockHash : H256)
  | executeIssue (issueId : H256) (metadata : M)

@[reducible] def api : Interface where
  Call := Call M
  Answer
    | .lock => IssueRequests
    | .getIssueRequest _ => Except R IssueRequest
    | .removeValue _ => Option H256
    | .waitForBlockInRelay _ _ => Except R Unit
    | .delay _ => Except R Unit
    | .waitForTransactionMetadata _ _ _ => Except R M
    | .executeIssue _ _ => Except R Unit

abbrev Rpc := ExceptT (Failure R) (Prog (api R M))

variable {R M}

abbrev ask (call : Call M) : Prog (api R M) ((api R M).Answer call) := Prog.request (api R M) call

variable {E : Type} (lib : Lib E)

def outputAddresses (transaction : Transaction) : List BtcAddress :=
  (extractOutputAddresses lib transaction).filterMap fun payload =>
    (BtcAddress.fromPayload payload).toOption

/-- The first address of an output that is watched, with the issue that it is looked up as. -/
def findIssue (issueRequests : IssueRequests) (transaction : Transaction) :
    Option (H256 × BtcAddress) :=
  (outputAddresses lib transaction).findSome? fun address => do
    let issueId ← issueRequests.getKeyForValue address
    return (issueId, address)

variable (isIssueCompleted : R → Bool) (numConfirmations : Nat) (blockHash : H256)
  (transaction : Transaction)

/-- What follows once the issue has left the set. -/
def executeRemoved (issueId : H256) : Rpc R M Unit := do
  ExceptT.mk (Except.mapError .rpc <$> ask (.waitForBlockInRelay blockHash numConfirmations))
  ExceptT.mk (Except.mapError .rpc <$> ask (.delay issueId))
  let issue ← ExceptT.mk (Except.mapError .rpc <$> ask (.getIssueRequest issueId))
  if issue.status = .completed then
    return
  let txMetadata ← ExceptT.mk (Except.mapError .rpc <$>
    ask (.waitForTransactionMetadata (lib.txid transaction) numConfirmations blockHash))
  match ← ExceptT.lift (ask (.executeIssue issueId txMetadata)) with
  | .ok _ => return
  | .error err => if isIssueCompleted err then return else throw (.rpc err)

def processTransactionAndExecuteIssue (overflowChecks : Bool) : Rpc R M Unit := do
  let issueRequests ← ExceptT.lift (ask .lock)
  match findIssue lib issueRequests transaction with
  | none => return
  | some (issueId, address) =>
    let issue ← ExceptT.mk (Except.mapError .rpc <$> ask (.getIssueRequest issueId))
    match address.toPayload lib with
    | .error _ => return
    | .ok payload =>
      match getPaymentAmountTo lib transaction payload with
      | none => return
      | some transferred =>
        let expected ← ExceptT.mk (pure (plus 128 overflowChecks issue.amount issue.fee))
        if transferred.toNat < expected then
          return
        let _ ← ExceptT.lift (ask (.removeValue address))
        executeRemoved lib isIssueCompleted numConfirmations blockHash transaction issueId

end Program

/-! ### The chain -/

/-- The issue requests on chain, with the status that each read of them finds, and the metadata of
the transaction once it is confirmed. -/
structure Chain (M : Type) where
  request : H256 → IssueRequest
  status : Nat → H256 → IssueRequestStatus
  metadata : M

/-- The watched issues, the number of requests that have been read, and the calls. -/
structure World (M : Type) where
  issueSet : IssueRequests
  reads : Nat
  calls : List (Call M)

variable {E R M : Type}

def World.record (w : World M) (call : Call M) : World M := { w with calls := w.calls ++ [call] }

/-- Every call succeeds. -/
def Chain.handle (chain : Chain M) (w : World M) :
    (call : Call M) → (api R M).Answer call × World M
  | .lock => (w.issueSet, w.record .lock)
  | .getIssueRequest issueId =>
    (.ok { chain.request issueId with status := chain.status w.reads issueId },
      { w.record (.getIssueRequest issueId) with reads := w.reads + 1 })
  | .removeValue address =>
    ((w.issueSet.removeValue address).1,
      { w.record (.removeValue address) with issueSet := (w.issueSet.removeValue address).2 })
  | .waitForBlockInRelay blockHash confirmations =>
    (.ok (), w.record (.waitForBlockInRelay blockHash confirmations))
  | .delay seedData => (.ok (), w.record (.delay seedData))
  | .waitForTransactionMetadata txid confirmations blockHash =>
    (.ok chain.metadata, w.record (.waitForTransactionMetadata txid confirmations blockHash))
  | .executeIssue issueId metadata => (.ok (), w.record (.executeIssue issueId metadata))

def World.Executed (w : World M) (issueId : H256) : Prop :=
  ∃ metadata, .executeIssue issueId metadata ∈ w.calls

section Run

variable (lib : Lib E) (isIssueCompleted : R → Bool) (numConfirmations : Nat) (blockHash : H256)
  (transaction : Transaction) (overflowChecks : Bool) (chain : Chain M) (issueSet : IssueRequests)

/-- What the transaction leaves behind. -/
def after : World M :=
  ((processTransactionAndExecuteIssue lib isIssueCompleted numConfirmations blockHash transaction
    overflowChecks).run.exec (chain.handle (R := R)) ⟨issueSet, 0, []⟩).2

def IssueRequest.total (issue : IssueRequest) : Nat := issue.amount + issue.fee

/-- An output to the address has at least the amount and the fee of the issue. -/
def PaidInFull (issueId : H256) (address : BtcAddress) : Prop :=
  ∃ txOut ∈ transaction.output, ∃ payload, lib.payloadFromScript txOut.scriptPubkey = .ok payload ∧
    address.toPayload lib = .ok payload ∧ (chain.request issueId).total ≤ txOut.value.toNat

/-- The issues that have been paid have left the set and are executed, unless they are completed by
then, and the other ones are still watched. -/
def ExecutesPaid (w : World M) : Prop :=
  ∀ issueId address, issueSet.image issueId = some address →
    (PaidInFull lib transaction chain issueId address →
      w.issueSet.image issueId = none ∧
        (chain.status 1 issueId ≠ .completed → w.Executed issueId)) ∧
    (¬PaidInFull lib transaction chain issueId address →
      w.issueSet.image issueId = some address ∧ ¬w.Executed issueId)

/-- The output has a value and the address is what the vault makes of its script. -/
def AddressOf (txOut : TxOut) (address : BtcAddress) : Prop :=
  txOut.value > 0 ∧ ∃ payload, lib.payloadFromScript txOut.scriptPubkey = .ok payload ∧
    BtcAddress.fromPayload payload = .ok address

/-- The script of the output is one of the address. -/
def OutputTo (txOut : TxOut) (address : BtcAddress) : Prop :=
  ∃ payload, lib.payloadFromScript txOut.scriptPubkey = .ok payload ∧
    address.toPayload lib = .ok payload

/-- The value reaches what the source computes in 128 bits from the amount and the fee. -/
def IssueRequest.Covered (issue : IssueRequest) (value : UInt64) : Prop :=
  (issue.total < 2 ^ 128 ∨ overflowChecks = false) ∧ issue.total % 2 ^ 128 ≤ value.toNat

/-- The first output with a watched address has that of the issue, and the first output to this
address covers the issue. -/
def Chosen (issueId : H256) : Prop :=
  ∃ address,
    (∃ before txOut rest, transaction.output = before ++ txOut :: rest ∧
      AddressOf lib txOut address ∧ issueSet.preimage address = some issueId ∧
      ∀ earlier ∈ before, ∀ other, AddressOf lib earlier other → issueSet.preimage other = none) ∧
    ∃ before txOut rest, transaction.output = before ++ txOut :: rest ∧
      OutputTo lib txOut address ∧ (∀ earlier ∈ before, ¬OutputTo lib earlier address) ∧
      (chain.request issueId).Covered overflowChecks txOut.value

end Run

/-! ### What is looked up -/

section Lookups

variable {lib : Lib E} {transaction : Transaction} {overflowChecks : Bool} {chain : Chain M}
  {issueSet : IssueRequests}

/-- `AddressOf`, as the lookups compute it. -/
def addressOf (lib : Lib E) (txOut : TxOut) : Option BtcAddress :=
  if txOut.value > 0 then
    match lib.payloadFromScript txOut.scriptPubkey with
    | .ok payload => (BtcAddress.fromPayload payload).toOption
    | .error _ => none
  else none

theorem addressOf_eq_some_iff {txOut : TxOut} {address : BtcAddress} :
    addressOf lib txOut = some address ↔ AddressOf lib txOut address := by
  unfold addressOf AddressOf
  by_cases hvalue : txOut.value > 0
  · rw [if_pos hvalue, and_iff_right hvalue]
    cases lib.payloadFromScript txOut.scriptPubkey with
    | error e => simp
    | ok payload => cases hread : BtcAddress.fromPayload payload <;> simp [Except.toOption, hread]
  · simp [hvalue]

theorem outputAddresses_eq :
    outputAddresses lib transaction = transaction.output.filterMap (addressOf lib) := by
  unfold outputAddresses extractOutputAddresses extractIndexedOutputAddresses
  rw [List.map_filterMap, List.filterMap_filterMap, List.filterMap_filter]
  conv_rhs => rw [← List.zipIdx_map_fst 0 transaction.output, List.filterMap_map]
  refine List.filterMap_congr fun (txOut, idx) _ => ?_
  dsimp only [Function.comp, addressOf]
  by_cases hvalue : txOut.value > 0
  · rw [if_pos (decide_eq_true hvalue), if_pos hvalue]
    cases lib.payloadFromScript txOut.scriptPubkey <;> rfl
  · rw [if_neg (by simpa using hvalue), if_neg hvalue]

/-- The first output with a watched address is the one that is looked up. -/
theorem findIssue_eq_some_iff {issueId : H256} {address : BtcAddress} :
    findIssue lib issueSet transaction = some (issueId, address) ↔
      ∃ before txOut rest, transaction.output = before ++ txOut :: rest ∧
        AddressOf lib txOut address ∧ issueSet.preimage address = some issueId ∧
        ∀ earlier ∈ before, ∀ other, AddressOf lib earlier other →
          issueSet.preimage other = none := by
  unfold findIssue
  rw [outputAddresses_eq, ← List.head?_filterMap, List.filterMap_filterMap, List.head?_filterMap,
    List.findSome?_eq_some_iff]
  refine exists_congr fun before => exists_congr fun txOut => exists_congr fun rest =>
    and_congr_right fun _ => ?_
  rw [← and_assoc]
  refine and_congr ?_ (forall₂_congr fun earlier _ => ?_)
  · rw [Option.bind_eq_some_iff]
    constructor
    · rintro ⟨read, hread, hfound⟩
      obtain ⟨key, hkey, heq⟩ := Option.bind_eq_some_iff.mp hfound
      cases heq
      exact ⟨addressOf_eq_some_iff.mp hread, hkey⟩
    · rintro ⟨hread, hkey⟩
      exact ⟨address, addressOf_eq_some_iff.mpr hread, Option.bind_eq_some_iff.mpr ⟨_, hkey, rfl⟩⟩
  · rw [Option.bind_eq_none_iff]
    refine forall_congr' fun other => ?_
    rw [addressOf_eq_some_iff]
    refine imp_congr_right fun _ => ?_
    cases hkey : issueSet.getKeyForValue other with
    | none => exact iff_of_true rfl hkey
    | some key => exact iff_of_false nofun fun hnone => nomatch hkey.symm.trans hnone

theorem outputTo_iff {txOut : TxOut} {address : BtcAddress} {payload : Payload}
    (hpayload : address.toPayload lib = .ok payload) :
    OutputTo lib txOut address ↔ lib.payloadFromScript txOut.scriptPubkey = .ok payload := by
  constructor
  · rintro ⟨found, hscript, hfound⟩
    rw [hscript, ← hfound, hpayload]
  · intro hscript
    exact ⟨payload, hscript, hpayload⟩

/-- The first output to the address is the one whose value is compared. -/
theorem paymentTo_iff {address : BtcAddress} {payload : Payload} {value : UInt64}
    (hpayload : address.toPayload lib = .ok payload) :
    getPaymentAmountTo lib transaction payload = some value ↔
      ∃ before txOut rest, transaction.output = before ++ txOut :: rest ∧
        (OutputTo lib txOut address ∧ txOut.value = value) ∧
        ∀ earlier ∈ before, ¬OutputTo lib earlier address := by
  simp only [getPaymentAmountTo_eq_some_iff, outputTo_iff hpayload]

theorem addressOf_newP2pkh {value : UInt64} {hash : H160} {address : BtcAddress}
    (h : AddressOf lib ⟨value, lib.newP2pkh hash⟩ address) : address = .P2PKH hash := by
  obtain ⟨-, payload, hscript, hread⟩ := h
  cases (lib.payload_newP2pkh hash).symm.trans hscript
  cases hread
  rfl

theorem outputTo_newP2pkh_iff {value : UInt64} {hash : H160} {address : BtcAddress} :
    OutputTo lib ⟨value, lib.newP2pkh hash⟩ address ↔ address = .P2PKH hash := by
  cases address <;> simp [OutputTo, BtcAddress.toPayload, lib.payload_newP2pkh, lib.payload_newP2sh,
    lib.payload_newV0P2wpkh, lib.payload_newV0P2wsh, eq_comm]

theorem covered_iff {issue : IssueRequest} {value : UInt64} :
    issue.Covered overflowChecks value ↔
      ∃ expected, plus (R := R) 128 overflowChecks issue.amount issue.fee = .ok expected ∧
        expected ≤ value.toNat := by
  unfold IssueRequest.Covered plus IssueRequest.total
  by_cases hlt : issue.amount + issue.fee < 2 ^ 128
  · rw [if_pos hlt, Nat.mod_eq_of_lt hlt, and_iff_right (Or.inl hlt)]
    simp
  · rw [if_neg hlt, or_iff_right hlt]
    cases overflowChecks <;> simp

/-- What the lookups have to find for an issue to be executed. -/
theorem chosen_iff {issueId : H256} :
    Chosen lib transaction overflowChecks chain issueSet issueId ↔
      ∃ address, findIssue lib issueSet transaction = some (issueId, address) ∧
        ∃ payload, address.toPayload lib = .ok payload ∧
          ∃ transferred, getPaymentAmountTo lib transaction payload = some transferred ∧
            ∃ expected, plus (R := R) 128 overflowChecks (chain.request issueId).amount
              (chain.request issueId).fee = .ok expected ∧ expected ≤ transferred.toNat := by
  unfold Chosen
  refine exists_congr fun address => ?_
  rw [findIssue_eq_some_iff]
  refine and_congr_right fun _ => ?_
  constructor
  · rintro ⟨before, txOut, rest, houtput, ⟨payload, hscript, hpayload⟩, hbefore, hcovered⟩
    exact ⟨payload, hpayload, txOut.value,
      (paymentTo_iff hpayload).mpr ⟨before, txOut, rest, houtput,
        ⟨⟨payload, hscript, hpayload⟩, rfl⟩, hbefore⟩, covered_iff.mp hcovered⟩
  · rintro ⟨payload, hpayload, transferred, htransferred, hcovered⟩
    obtain ⟨before, txOut, rest, houtput, ⟨hto, rfl⟩, hbefore⟩ :=
      (paymentTo_iff hpayload).mp htransferred
    exact ⟨before, txOut, rest, houtput, hto, hbefore, covered_iff.mpr hcovered⟩

end Lookups

/-! ### The run -/

section Outcome

variable {lib : Lib E} {isIssueCompleted : R → Bool} {numConfirmations : Nat} {blockHash : H256}
  {transaction : Transaction} {overflowChecks : Bool} {chain : Chain M} {issueSet : IssueRequests}

variable (lib isIssueCompleted numConfirmations blockHash transaction chain) in
/-- The calls that follow once the issue `issueId` has left the set. -/
theorem exec_executeRemoved (issueId : H256) (w : World M) :
    ((executeRemoved lib isIssueCompleted numConfirmations blockHash transaction issueId).run.exec
        (chain.handle (R := R)) w).2 =
      { w with
        reads := w.reads + 1
        calls := w.calls ++ [.waitForBlockInRelay blockHash numConfirmations, .delay issueId,
          .getIssueRequest issueId] ++
          if chain.status w.reads issueId = .completed then []
          else [.waitForTransactionMetadata (lib.txid transaction) numConfirmations blockHash,
            .executeIssue issueId chain.metadata] } := by
  unfold executeRemoved
  rw [Prog.exec_run_bind_ok rfl, Prog.exec_run_bind_ok rfl, Prog.exec_run_bind_ok rfl]
  split
  next hcompleted =>
    have hcompleted : chain.status w.reads issueId = .completed := hcompleted
    rw [if_pos hcompleted]
    show World.mk w.issueSet (w.reads + 1) (w.calls ++ [_] ++ [_] ++ [_]) = _
    simp
  next hcompleted =>
    have hcompleted : chain.status w.reads issueId ≠ .completed := hcompleted
    rw [if_neg hcompleted]
    show World.mk w.issueSet (w.reads + 1) (w.calls ++ [_] ++ [_] ++ [_] ++ [_] ++ [_]) = _
    simp

/-- The run up to where the issue leaves the set. -/
theorem after_of_chosen {issueId : H256} {address : BtcAddress} {payload : Payload}
    {transferred : UInt64} {expected : Nat}
    (hfind : findIssue lib issueSet transaction = some (issueId, address))
    (hpayload : address.toPayload lib = .ok payload)
    (htransferred : getPaymentAmountTo lib transaction payload = some transferred)
    (hexpected : plus (R := R) 128 overflowChecks (chain.request issueId).amount
      (chain.request issueId).fee = .ok expected) (hle : expected ≤ transferred.toNat) :
    after lib isIssueCompleted numConfirmations blockHash transaction overflowChecks chain
      issueSet =
      ((executeRemoved lib isIssueCompleted numConfirmations blockHash transaction issueId).run.exec
        (chain.handle (R := R)) ⟨(issueSet.removeValue address).2, 1,
          [.lock, .getIssueRequest issueId, .removeValue address]⟩).2 := by
  unfold after processTransactionAndExecuteIssue
  rw [Prog.exec_run_bind_ok rfl]
  dsimp only [Chain.handle, World.record]
  rw [hfind]
  dsimp only
  rw [Prog.exec_run_bind_ok rfl, hpayload]
  dsimp only
  rw [htransferred]
  dsimp only [Chain.handle, World.record]
  rw [hexpected, Prog.exec_run_bind_ok rfl, if_neg (Nat.not_lt.mpr hle),
    Prog.exec_run_bind_ok rfl]
  rfl

theorem not_executed_lock (reads : Nat) (other : H256) :
    ¬(World.mk issueSet reads [.lock] : World M).Executed other := by
  rintro ⟨metadata, h⟩
  simp at h

theorem not_executed_getIssueRequest (reads : Nat) (issueId other : H256) :
    ¬(World.mk issueSet reads [.lock, .getIssueRequest issueId] : World M).Executed other := by
  rintro ⟨metadata, h⟩
  simp at h

/-- Each of the early returns leaves the set as it is and executes nothing. -/
theorem after_of_not_chosen
    (h : ∀ issueId, ¬Chosen lib transaction overflowChecks chain issueSet issueId) :
    (after lib isIssueCompleted numConfirmations blockHash transaction overflowChecks chain
        issueSet).issueSet = issueSet ∧
      ∀ other, ¬(after lib isIssueCompleted numConfirmations blockHash transaction overflowChecks
        chain issueSet).Executed other := by
  unfold after processTransactionAndExecuteIssue
  rw [Prog.exec_run_bind_ok rfl]
  dsimp only [Chain.handle, World.record]
  cases hfind : findIssue lib issueSet transaction with
  | none => exact ⟨rfl, not_executed_lock 0⟩
  | some found =>
    obtain ⟨issueId, address⟩ := found
    dsimp only
    rw [Prog.exec_run_bind_ok rfl]
    cases hpayload : address.toPayload lib with
    | error e => exact ⟨rfl, not_executed_getIssueRequest 1 issueId⟩
    | ok payload =>
      dsimp only
      cases htransferred : getPaymentAmountTo lib transaction payload with
      | none => exact ⟨rfl, not_executed_getIssueRequest 1 issueId⟩
      | some transferred =>
        dsimp only [Chain.handle, World.record]
        cases hexpected : plus (R := R) 128 overflowChecks (chain.request issueId).amount
          (chain.request issueId).fee with
        | error e => exact ⟨rfl, not_executed_getIssueRequest 1 issueId⟩
        | ok expected =>
          rw [Prog.exec_run_bind_ok rfl]
          by_cases hlt : transferred.toNat < expected
          · rw [if_pos hlt]
            exact ⟨rfl, not_executed_getIssueRequest 1 issueId⟩
          · exact absurd (chosen_iff.mpr ⟨address, hfind, payload, hpayload, transferred,
              htransferred, expected, hexpected, Nat.le_of_not_lt hlt⟩) (h issueId)

theorem preimage_of_findIssue {issueId : H256} {address : BtcAddress}
    (h : findIssue lib issueSet transaction = some (issueId, address)) :
    issueSet.preimage address = some issueId := by
  obtain ⟨found, -, hfound⟩ := List.exists_of_findSome?_eq_some h
  obtain ⟨key, hkey, heq⟩ := Option.bind_eq_some_iff.mp hfound
  cases heq
  exact hkey

/-- The issue that is chosen is the one that leaves the set and may be executed. -/
theorem settled_of_chosen {issueId : H256}
    (h : Chosen lib transaction overflowChecks chain issueSet issueId) :
    (after lib isIssueCompleted numConfirmations blockHash transaction overflowChecks chain
        issueSet).issueSet.image = Function.update issueSet.image issueId none ∧
      ∀ other, (after lib isIssueCompleted numConfirmations blockHash transaction overflowChecks
        chain issueSet).Executed other ↔ other = issueId ∧ chain.status 1 issueId ≠ .completed := by
  obtain ⟨address, hfind, payload, hpayload, transferred, htransferred, expected, hexpected, hle⟩ :=
    chosen_iff.mp h
  obtain ⟨-, himage, -⟩ := ReversibleHashMap.removeValue_of_some (preimage_of_findIssue hfind)
  rw [after_of_chosen hfind hpayload htransferred hexpected hle, exec_executeRemoved]
  refine ⟨himage, fun other => ?_⟩
  unfold World.Executed
  by_cases hcompleted : chain.status 1 issueId = .completed
  · simp [hcompleted]
  · simp [hcompleted]

theorem kept_of_not_chosen {issueId : H256}
    (h : ¬Chosen lib transaction overflowChecks chain issueSet issueId) :
    (after lib isIssueCompleted numConfirmations blockHash transaction overflowChecks chain
        issueSet).issueSet.image issueId = issueSet.image issueId ∧
      ¬(after lib isIssueCompleted numConfirmations blockHash transaction overflowChecks chain
        issueSet).Executed issueId := by
  by_cases hchosen : ∃ other, Chosen lib transaction overflowChecks chain issueSet other
  · obtain ⟨other, hother⟩ := hchosen
    have hne : issueId ≠ other := fun heq => h (heq ▸ hother)
    obtain ⟨himage, hexecuted⟩ := settled_of_chosen hother
    rw [himage, Function.update_of_ne hne]
    exact ⟨rfl, fun h => hne ((hexecuted issueId).mp h).1⟩
  · obtain ⟨hset, hexecuted⟩ := after_of_not_chosen (not_exists.mp hchosen)
    rw [hset]
    exact ⟨rfl, hexecuted issueId⟩

/-! ### What is executed -/

theorem paid_iff_chosen (h : ExecutesPaid lib transaction chain issueSet
      (after lib isIssueCompleted numConfirmations blockHash transaction overflowChecks chain
        issueSet)) {issueId : H256} {address : BtcAddress}
    (hwatched : issueSet.image issueId = some address) :
    PaidInFull lib transaction chain issueId address ↔
      Chosen lib transaction overflowChecks chain issueSet issueId := by
  obtain ⟨hpaid, hnotPaid⟩ := h issueId address hwatched
  constructor
  · intro hp
    by_contra hchosen
    have hgone := (hpaid hp).1
    rw [(kept_of_not_chosen hchosen).1, hwatched] at hgone
    cases hgone
  · intro hchosen
    by_contra hp
    have hkept := (hnotPaid hp).1
    rw [(settled_of_chosen hchosen).1, Function.update_self] at hkept
    cases hkept

variable (isIssueCompleted numConfirmations blockHash) in
/-- The transaction executes what it pays exactly when the watched issues that it pays in full are
the one that is chosen. -/
theorem executesPaid_iff : ExecutesPaid lib transaction chain issueSet
      (after lib isIssueCompleted numConfirmations blockHash transaction overflowChecks chain
        issueSet) ↔
    ∀ issueId address, issueSet.image issueId = some address →
      (PaidInFull lib transaction chain issueId address ↔
        Chosen lib transaction overflowChecks chain issueSet issueId) := by
  constructor
  · intro h issueId address hwatched
    exact paid_iff_chosen h hwatched
  · intro h issueId address hwatched
    have hiff := h issueId address hwatched
    constructor
    · intro hp
      obtain ⟨himage, hexecuted⟩ := settled_of_chosen (hiff.mp hp)
      rw [himage, Function.update_self]
      exact ⟨rfl, fun hstatus => (hexecuted issueId).mpr ⟨rfl, hstatus⟩⟩
    · intro hp
      obtain ⟨himage, hexecuted⟩ := kept_of_not_chosen fun hchosen => hp (hiff.mpr hchosen)
      exact ⟨himage.trans hwatched, hexecuted⟩

end Outcome

/-! ### Two watched issues -/

section TwoIssues

/-- Each of two issues asks for 1000. -/
def twoRequests : Chain Unit where
  request _ := { (default : InterBtcIssueRequest) with amount := 900, fee := 100 }
  status _ _ := .pending
  metadata := ()

def twoIssues : IssueRequests :=
  ((ReversibleHashMap.new.insert 1 (.P2PKH 1)).2.insert 2 (.P2PKH 2)).2

theorem image_twoIssues : twoIssues.image =
    Function.update (Function.update (fun _ => none) 1 (some (.P2PKH 1))) 2 (some (.P2PKH 2)) := by
  simp [twoIssues]

theorem preimage_twoIssues : twoIssues.preimage =
    Function.update (Function.update (fun _ => none) (.P2PKH 1) (some 1)) (.P2PKH 2) (some 2) := by
  simp [twoIssues]

/-- The outputs to an address that nobody watches and to that of the first issue. -/
def laterOutput : Transaction where
  version := 2
  lockTime := 0
  input := []
  output := [⟨1000, (threeKeys [] []).newP2pkh 3⟩, ⟨1000, (threeKeys [] []).newP2pkh 1⟩]

theorem chosen_laterOutput :
    Chosen (threeKeys [] []) laterOutput false twoRequests twoIssues 1 := by
  refine ⟨.P2PKH 1, ⟨[⟨1000, (threeKeys [] []).newP2pkh 3⟩],
    ⟨1000, (threeKeys [] []).newP2pkh 1⟩, [],
    rfl, ⟨by decide, _, (threeKeys [] []).payload_newP2pkh 1, rfl⟩, ?_, ?_⟩,
    [⟨1000, (threeKeys [] []).newP2pkh 3⟩], ⟨1000, (threeKeys [] []).newP2pkh 1⟩, [], rfl,
    outputTo_newP2pkh_iff.mpr rfl, ?_, Or.inr rfl, by decide⟩
  · rw [preimage_twoIssues]
    decide
  · simp only [List.mem_singleton, forall_eq]
    intro other hother
    rw [addressOf_newP2pkh hother, preimage_twoIssues]
    decide
  · simp only [List.mem_singleton, forall_eq]
    rw [outputTo_newP2pkh_iff]
    decide

theorem paidInFull_laterOutput :
    PaidInFull (threeKeys [] []) laterOutput twoRequests 1 (.P2PKH 1) :=
  ⟨⟨1000, (threeKeys [] []).newP2pkh 1⟩, by simp [laterOutput], .pubkeyHash 1,
    (threeKeys [] []).payload_newP2pkh 1, (threeKeys [] []).payload_newP2pkh 1, by decide⟩

theorem not_outputTo_laterOutput {txOut : TxOut} (h : txOut ∈ laterOutput.output) :
    ¬OutputTo (threeKeys [] []) txOut (.P2PKH 2) := by
  simp only [laterOutput, List.mem_cons, List.not_mem_nil, or_false] at h
  rcases h with rfl | rfl
  · rw [outputTo_newP2pkh_iff]
    decide
  · rw [outputTo_newP2pkh_iff]
    decide

theorem not_chosen_laterOutput :
    ¬Chosen (threeKeys [] []) laterOutput false twoRequests twoIssues 2 := by
  rintro ⟨address, ⟨_, _, _, -, -, hwatched, -⟩, before, txOut, rest, houtput, hto, -⟩
  have haddress : address = .P2PKH 2 := by
    by_contra hne
    rw [preimage_twoIssues, Function.update_of_ne hne, Function.update_apply] at hwatched
    split at hwatched <;> cases hwatched
  subst haddress
  exact not_outputTo_laterOutput (by simp [houtput]) hto

/-- The issue that is paid is executed and the other one stays in the set. -/
theorem executesPaid_laterOutput :
    ExecutesPaid (threeKeys [] []) laterOutput twoRequests twoIssues
      (after (threeKeys [] []) (fun _ : Unit => false) 6 0 laterOutput false twoRequests
        twoIssues) ∧
    (after (threeKeys [] []) (fun _ : Unit => false) 6 0 laterOutput false twoRequests
      twoIssues).Executed 1 := by
  have hexecutes : ExecutesPaid (threeKeys [] []) laterOutput twoRequests twoIssues
      (after (threeKeys [] []) (fun _ : Unit => false) 6 0 laterOutput false twoRequests
        twoIssues) := by
    refine (executesPaid_iff _ _ _).mpr fun issueId address hwatched => ?_
    rw [image_twoIssues, Function.update_apply, Function.update_apply] at hwatched
    split at hwatched
    next hsecond =>
      cases hwatched
      subst hsecond
      refine iff_of_false ?_ not_chosen_laterOutput
      rintro ⟨txOut, hmem, payload, hscript, hpayload, -⟩
      exact not_outputTo_laterOutput hmem ⟨payload, hscript, hpayload⟩
    next =>
      split at hwatched
      next hfirst =>
        cases hwatched
        subst hfirst
        exact iff_of_true paidInFull_laterOutput chosen_laterOutput
      next => cases hwatched
  refine ⟨hexecutes, ((hexecutes 1 (.P2PKH 1) ?_).1 paidInFull_laterOutput).2 nofun⟩
  rw [image_twoIssues]
  decide

/-- One transaction pays both of them. -/
def twoPayments : Transaction where
  version := 2
  lockTime := 0
  input := []
  output := [⟨1000, (threeKeys [] []).newP2pkh 1⟩, ⟨1000, (threeKeys [] []).newP2pkh 2⟩]

/-- The second issue is paid and stays in the set. -/
theorem not_executesPaid_twoPayments :
    ¬ExecutesPaid (threeKeys [] []) twoPayments twoRequests twoIssues
      (after (threeKeys [] []) (fun _ : Unit => false) 6 0 twoPayments false twoRequests
        twoIssues) := by
  intro h
  have hwatched : twoIssues.image 2 = some (.P2PKH 2) := by
    rw [image_twoIssues, Function.update_self]
  have hpaid : PaidInFull (threeKeys [] []) twoPayments twoRequests 2 (.P2PKH 2) :=
    ⟨⟨1000, (threeKeys [] []).newP2pkh 2⟩, by simp [twoPayments], .pubkeyHash 2,
      (threeKeys [] []).payload_newP2pkh 2, (threeKeys [] []).payload_newP2pkh 2, by decide⟩
  obtain ⟨address, ⟨before, txOut, rest, houtput, hread, hsecond, hearlier⟩, -⟩ :=
    (paid_iff_chosen h hwatched).mp hpaid
  rw [preimage_twoIssues] at hsecond hearlier
  cases before with
  | nil =>
    cases houtput
    rw [addressOf_newP2pkh hread] at hsecond
    revert hsecond
    decide
  | cons first before =>
    obtain ⟨rfl, -⟩ := List.cons.inj houtput
    have hnone := hearlier _ List.mem_cons_self (.P2PKH 1)
      ⟨by decide, _, (threeKeys [] []).payload_newP2pkh 1, rfl⟩
    revert hnone
    decide

end TwoIssues

end InterBtcClients.Vault.IssueExecution
