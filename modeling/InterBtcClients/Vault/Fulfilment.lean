import InterBtcClients.Bitcoin.LightChain
import InterBtcClients.Library.Log
import InterBtcClients.Vault.Inclusion

/-! The tasks that fulfil a request: the payment is made once and in time, its latest version is
waited for, and the request is executed with the proof of that version when the relay has its
block. -/

namespace InterBtcClients.Vault.Fulfilment

open Library Bitcoin InterBtcClients.Runtime
open Execution (Request RequestType Task)
open Inclusion (FixedU128 Round toFeeRate)
open Light (SatPerVbyte)

/-! ### The program -/

inductive Call
  | getCurrentActiveBlockNumber
  | getBlockCount
  | getBitcoinFees
  | createAndSendTransaction (address : Address) (sat : UInt64) (feeRate : SatPerVbyte)
      (requestId : Option H256)
  | inclusion (call : Inclusion.Call)
  | updateBitcoinMetrics (newFeeEntry : Option Int) (feeBudget : Option Nat)
  | execute (requestType : RequestType) (hash : H256) (proof : RawTransactionProof)
  /-- Whether the vault has a bitcoin client. -/
  | getVault (vaultId : VaultId)
  /-- The time to sleep before the next attempt, after which the answer comes; `false` when there is
  no next attempt. -/
  | nextBackoff

@[reducible] def api (E : Type) : Interface where
  Call := Call
  Answer
    | .getCurrentActiveBlockNumber => Except E Nat
    | .getBlockCount => Except E Nat
    | .getBitcoinFees => Except E FixedU128
    | .createAndSendTransaction _ _ _ _ => Except E Txid
    | .inclusion call => (Inclusion.api E).Answer call
    | .updateBitcoinMetrics _ _ => Unit
    | .execute _ _ _ => Except E Unit
    | .getVault _ => Bool
    | .nextBackoff => Bool

structure RuntimeErrors (E : Type) extends Inclusion.RuntimeErrors E where
  timeout : E
  isRpcDisconnectError : E → Bool

variable {E : Type}

abbrev Rpc (E : Type) := ExceptT (Error E) (Prog (api E))

abbrev ask (call : Call) : Prog (api E) ((api E).Answer call) := Prog.request (api E) call

/-- A call that can fail. -/
def tryAsk {A : Type} (call : Call) (result : (api E).Answer call → Except E A) : Rpc E A :=
  ExceptT.mk ((fun r => (result r).mapError .rpc) <$> ask call)

def deadlineReached (deadline : Deadline) : Rpc E Bool := do
  if (← tryAsk .getCurrentActiveBlockNumber id) ≥ deadline.parachain then
    return decide ((← tryAsk .getBlockCount id) ≥ deadline.bitcoin)
  return false

def getFeeRate : Rpc E SatPerVbyte := do
  Prog.ofExcept (toFeeRate (← tryAsk .getBitcoinFees id))

section Program

variable (lib : Lib E) (errors : RuntimeErrors E) (network : Network)
variable (numConfirmations : UInt32) (autoRbf : Bool) (fuel : Nat) (request : Request)

/-- `none` is a wait that goes on after `fuel` rounds. -/
def waitForInclusion (txid : Txid) : Rpc E (Option TransactionMetadata) := do
  let round (txid : Txid) : Prog (api E) (Round E) :=
    (Inclusion.waitRound lib errors.toRuntimeErrors network request numConfirmations autoRbf
      txid).embed .inclusion fun _ r => r
  match ← ExceptT.lift (Prog.iterate round fuel txid) with
  | none => return none
  | some result => some <$> Prog.ofExcept result

/-- The amount is cut to 64 bits. -/
def transferBtc : Rpc E (Option TransactionMetadata) := do
  let feeRate ← getFeeRate
  let address ← Prog.ofExcept ((request.btcAddress.toAddress lib network).mapError .rpc)
  let txid ← tryAsk
    (.createAndSendTransaction address (UInt64.ofNat request.amount) feeRate (some request.hash)) id
  waitForInclusion lib errors network numConfirmations autoRbf fuel request txid

/-- One round of `notify_retry`. -/
def executeRound (txMetadata : TransactionMetadata) (_ : Unit) : Rpc E (Unit ⊕ Unit) := do
  match ← ExceptT.lift (ask (.execute request.requestType request.hash txMetadata.proof)) with
  | .ok () => return .inr ()
  | .error err =>
    if errors.isRpcDisconnectError err then throw (.rpc err)
    else if errors.isInvalidChainId err then throw (.rpc err)
    else if ← ExceptT.lift (ask .nextBackoff) then return .inl ()
    else throw (.rpc errors.timeout)

def execute (txMetadata : TransactionMetadata) : Rpc E (Option Unit) :=
  Prog.iterate (executeRound errors request txMetadata) fuel ()

/-- What `payAndExecute` does after the check of the deadline. -/
def transferAndExecute : Rpc E (Option Unit) := do
  match ← transferBtc lib errors network numConfirmations autoRbf fuel request with
  | none => return none
  | some txMetadata =>
    ExceptT.lift (ask (.updateBitcoinMetrics txMetadata.fee request.feeBudget))
    execute errors fuel request txMetadata

def payAndExecute : Rpc E (Option Unit) := do
  if let some deadline := request.deadline then
    if ← deadlineReached deadline then
      throw .deadlineExpired
  transferAndExecute lib errors network numConfirmations autoRbf fuel request

/-- A task: a vault without a bitcoin client is only logged. -/
def run (task : Task) : Rpc E (Option Unit) := do
  if ← ExceptT.lift (ask (.getVault task.request.vaultId)) then
    match task with
    | .payAndExecute request =>
      payAndExecute lib errors network numConfirmations autoRbf fuel request
    | .paymentWorker request txid =>
      match ← waitForInclusion lib errors network numConfirmations autoRbf fuel request txid with
      | none => return none
      | some txMetadata => execute errors fuel request txMetadata
  else return some ()

end Program

/-! ### What a task may call -/

abbrev Log (E : Type) := List (Prog.Event (api E))

section Waited

variable (lib : Lib E) (serialize : Transaction → List UInt8)

/-- The wait of one of the two clients for a transaction can return the metadata. -/
inductive Waited (txid : Txid) (numConfirmations : UInt32) (txMetadata : TransactionMetadata) : Prop
  | core (retries proofRetries : Nat)
      (returns : Prog.Runs (Prog.answered fun _ _ => True)
        (Core.waitForTransactionMetadata lib serialize retries proofRetries txid numConfirmations
          none true).run () (.pure (.ok txMetadata)) ())
  | light (retries proofRetries : Nat)
      (returns : Prog.Runs (Prog.answered fun _ _ => True)
        (LightChain.waitForTransactionMetadata (E := E) retries proofRetries txid numConfirmations
          none true).run () (.pure (.ok txMetadata)) ())

/-- Metadata that comes first in a `select` is what the wait for it returns. -/
def Possible : Prog.Event (api E) → Prop
  | ⟨.inclusion (.select txid numConfirmations _), .inl (.ok txMetadata)⟩ =>
    Waited lib serialize txid numConfirmations txMetadata
  | _ => True

end Waited

def isPayment : Prog.Event (api E) → Bool
  | ⟨.createAndSendTransaction _ _ _ _, _⟩ => true
  | _ => false

/-- The latest version of the payment after an event. -/
def latestAfter (version : Option Txid) : Prog.Event (api E) → Option Txid
  | ⟨.createAndSendTransaction _ _ _ _, .ok txid⟩ => some txid
  | ⟨.inclusion (.bumpFee _ _ _), .ok txid⟩ => some txid
  | _ => version

/-- The version that has been broadcast last; `first` is the one from before the task, if any. -/
def latest (first : Option Txid) (log : Log E) : Option Txid := log.foldl latestAfter first

/-- One of the heights has been read below the deadline. -/
def InTime (deadline : Deadline) (log : Log E) : Prop :=
  (∃ height < deadline.parachain, ⟨.getCurrentActiveBlockNumber, .ok height⟩ ∈ log) ∨
    ∃ height < deadline.bitcoin, ⟨.getBlockCount, .ok height⟩ ∈ log

/-- The relay has the block of the metadata. -/
structure Proved (numConfirmations : UInt32) (txMetadata : TransactionMetadata) (log : Log E) :
    Prop where
  found : ∃ query, ⟨.inclusion (.select txMetadata.txid numConfirmations query),
    .inl (.ok txMetadata)⟩ ∈ log
  relayed : ⟨.inclusion (.waitForBlockInRelay txMetadata.blockHash numConfirmations), .ok ()⟩ ∈ log

/-- The log ends with an update and the fee rate of the transaction, which is lower. -/
def Raises (numConfirmations : UInt32) (txid : Txid) (feeRate : SatPerVbyte) (log : Log E) : Prop :=
  ∃ before x currentFee, toFeeRate (E := E) x = .ok feeRate ∧ currentFee < feeRate ∧
    log = before ++ [⟨.inclusion (.select txid numConfirmations .feeRateUpdate),
        .inr (some (.ok x))⟩] ++
      [⟨.inclusion (.select txid numConfirmations (.feeRate txid)), .inr (.ok currentFee)⟩]

section Policy

variable (lib : Lib E) (network : Network) (numConfirmations : UInt32) (autoRbf : Bool)
variable (request : Request) (first : Option Txid)

/-- A payment is the first one, in time, and pays the request at a fee rate of the oracle. -/
structure MayPay (log : Log E) (address : Address) (sat : UInt64) (feeRate : SatPerVbyte)
    (requestId : Option H256) : Prop where
  unpaid : first = none ∧ ∀ e ∈ log, isPayment e = false
  inTime : ∀ deadline, request.deadline = some deadline → InTime deadline log
  address : request.btcAddress.toAddress lib network = .ok address
  sat : sat = UInt64.ofNat request.amount
  feeRate : ∃ x, ⟨.getBitcoinFees, .ok x⟩ ∈ log ∧ toFeeRate (E := E) x = .ok feeRate
  requestId : requestId = some request.hash

/-- A bump replaces the latest version at a higher fee rate, directly after the answer that the
version is in the mempool. -/
structure MayBump (log : Log E) (txid : Txid) (address : Address) (feeRate : SatPerVbyte) :
    Prop where
  autoRbf : autoRbf = true
  latest : latest first log = some txid
  address : request.btcAddress.toAddress lib network = .ok address
  reads : ∃ before, Raises numConfirmations txid feeRate before ∧
    log = before ++ [⟨.inclusion (.select txid numConfirmations (.isInMempool txid)),
      .inr (.ok true)⟩]

/-- An execution proves the latest version, with a block that the relay has. -/
structure MayExecute (log : Log E) (requestType : RequestType) (hash : H256)
    (proof : RawTransactionProof) : Prop where
  requestType : requestType = request.requestType
  hash : hash = request.hash
  proved : ∃ txMetadata : TransactionMetadata, txMetadata.proof = proof ∧
    latest first log = some txMetadata.txid ∧ Proved numConfirmations txMetadata log

def policy (log : Log E) : Call → Prop
  | .createAndSendTransaction address sat feeRate requestId =>
    MayPay lib network request first log address sat feeRate requestId
  | .inclusion (.select txid confirmations _) =>
    latest first log = some txid ∧ confirmations = numConfirmations
  | .inclusion (.bumpFee txid address feeRate) =>
    MayBump lib network numConfirmations autoRbf request first log txid address feeRate
  | .execute requestType hash proof =>
    MayExecute numConfirmations request first log requestType hash proof
  | _ => True

end Policy

/-! ### The wait -/

section Keeps

variable {lib : Lib E} {serialize : Transaction → List UInt8} {errors : RuntimeErrors E}
variable {network : Network} {numConfirmations : UInt32} {autoRbf : Bool} {request : Request}
variable {first : Option Txid} {log : Log E} {txid : Txid}

@[simp] theorem latest_concat (e : Prog.Event (api E)) :
    latest first (log ++ [e]) = latestAfter (latest first log) e := by
  simp [latest]

/-- A step of which nothing has to be known. -/
theorem keeps_free {F : Interface} {E A : Type} (p : ExceptT E (Prog F) A) :
    Prog.Keeps (Prog.answered fun _ _ => True) (fun _ => True) p.run
      (Prog.Outcome (fun _ _ => True) fun _ _ => True) () :=
  Prog.keeps_of_forall (fun _ => trivial) (fun r _ => by cases r <;> trivial) _

/-- The metadata is that of the transaction that is waited for. -/
theorem Waited.txid_eq {txMetadata : TransactionMetadata}
    (h : Waited lib serialize txid numConfirmations txMetadata) : txMetadata.txid = txid := by
  cases h with
  | core retries proofRetries hreturns =>
    have hkeeps : Prog.Keeps (Prog.answered fun _ _ => True) (fun _ => True)
        (Core.waitForTransactionMetadata lib serialize retries proofRetries txid numConfirmations
          none true).run (Prog.Outcome (fun txMetadata _ => txMetadata.txid = txid)
            fun _ _ => True) () :=
      Prog.keeps_run_seq (keeps_free _) fun _ _ _ _ =>
        Prog.keeps_run_seq (keeps_free _) fun _ _ _ _ => ⟨trivial, rfl⟩
    exact hkeeps.returns hreturns
  | light retries proofRetries hreturns =>
    have hkeeps : Prog.Keeps (Prog.answered fun _ _ => True) (fun _ => True)
        (LightChain.waitForTransactionMetadata (E := E) retries proofRetries txid numConfirmations
          none true).run (Prog.Outcome (fun txMetadata _ => txMetadata.txid = txid)
            fun _ _ => True) () :=
      Prog.keeps_run_seq (keeps_free _) fun _ _ _ _ =>
        Prog.keeps_run_seq (keeps_free _) fun _ _ _ _ => ⟨trivial, rfl⟩
    exact hkeeps.returns hreturns

variable (lib serialize network numConfirmations autoRbf request first) in
abbrev Meets {A : Type} (p : Prog (api E) A) (Q : A → Log E → Prop) (log : Log E) : Prop :=
  Prog.Keeps (Prog.logged (Possible lib serialize))
    (Prog.Obeys (policy lib network numConfirmations autoRbf request first)) p Q log

variable (lib serialize network numConfirmations autoRbf request first) in
/-- `Meets`, for the wait on its own. -/
abbrev WaitMeets {A : Type} (p : Prog (Inclusion.api E) A) (Q : A → Log E → Prop) (log : Log E) :
    Prop :=
  Prog.Keeps (Prog.partEnv Call.inclusion (fun _ r => r)
      (Prog.logged (Possible lib serialize)))
    (Prog.Obeys (policy lib network numConfirmations autoRbf request first)) p Q log

variable (numConfirmations first) in
/-- Metadata that the relay knows, of the latest version. -/
structure Included (txMetadata : TransactionMetadata) (log : Log E) : Prop where
  latest : latest first log = some txMetadata.txid
  proved : Proved numConfirmations txMetadata log

variable (numConfirmations first) in
/-- What a round ends with: the latest version, which is waited for next, or the result. -/
def AfterRound : Round E → Log E → Prop :=
  Sum.elim (fun txid log => latest first log = some txid)
    fun result log => ∀ txMetadata, result = .ok txMetadata →
      Included numConfirmations first txMetadata log

abbrev Log.Obeys (log : Log E) (lib : Lib E) (network : Network) (numConfirmations : UInt32)
    (autoRbf : Bool) (request : Request) (first : Option Txid) : Prop :=
  Prog.Obeys (policy lib network numConfirmations autoRbf request first) log

theorem waitMeets_awaitRelay {result : Except E TransactionMetadata}
    (hlog : log.Obeys lib network numConfirmations autoRbf request first)
    (hlatest : latest first log = some txid)
    (hfound : ∀ txMetadata, result = .ok txMetadata → txMetadata.txid = txid ∧
      ∃ query, ⟨.inclusion (.select txid numConfirmations query), .inl (.ok txMetadata)⟩ ∈ log) :
    WaitMeets lib serialize network numConfirmations autoRbf request first
      (Inclusion.awaitRelay errors.toRuntimeErrors numConfirmations txid result)
      (AfterRound numConfirmations first) log := by
  cases result with
  | error e => exact ⟨hlog, nofun⟩
  | ok txMetadata =>
    obtain ⟨rfl, query, hmem⟩ := hfound txMetadata rfl
    refine Prog.keeps_logged_part hlog trivial fun r _ hlog => ?_
    cases r with
    | ok _ =>
      refine ⟨hlog, fun txMetadata' hresult => ?_⟩
      cases hresult
      exact ⟨by rw [latest_concat]; exact hlatest,
        ⟨query, List.mem_append_left _ hmem⟩, List.mem_concat_self⟩
    | error e =>
      change Prog.Keeps _ _ (if _ then _ else _) _ _
      split
      · refine Prog.keeps_logged_part hlog trivial fun _ _ hlog => ⟨hlog, ?_⟩
        change latest first _ = some _
        rw [latest_concat, latest_concat]
        exact hlatest
      · exact ⟨hlog, nofun⟩

theorem waitMeets_select {query : Inclusion.Query}
    {next : query.Answer E → Prog (Inclusion.api E) (Round E)}
    (hlog : log.Obeys lib network numConfirmations autoRbf request first)
    (hlatest : latest first log = some txid)
    (hnext : ∀ r log',
      log' = log ++ [⟨.inclusion (.select txid numConfirmations query), .inr r⟩] →
      log'.Obeys lib network numConfirmations autoRbf request first →
      latest first log' = some txid →
      WaitMeets lib serialize network numConfirmations autoRbf request first (next r)
        (AfterRound numConfirmations first) log') :
    WaitMeets lib serialize network numConfirmations autoRbf request first
      (Inclusion.select errors.toRuntimeErrors numConfirmations txid query next)
      (AfterRound numConfirmations first) log := by
  refine Prog.keeps_logged_part hlog ⟨hlatest, rfl⟩ fun r hpossible hlog' => ?_
  cases r with
  | inl result =>
    refine waitMeets_awaitRelay hlog' (by rw [latest_concat]; exact hlatest) fun txMetadata h => ?_
    subst h
    exact ⟨Waited.txid_eq hpossible, query, List.mem_concat_self⟩
  | inr r => exact hnext r _ rfl hlog' (by rw [latest_concat]; exact hlatest)

theorem waitMeets_bump {item : Except (Error E) (SatPerVbyte × SatPerVbyte)}
    (hlog : log.Obeys lib network numConfirmations autoRbf request first)
    (hlatest : latest first log = some txid)
    (hmay : ∀ fees address, item = .ok fees →
      request.btcAddress.toAddress lib network = .ok address →
      MayBump lib network numConfirmations autoRbf request first log txid address fees.2) :
    WaitMeets lib serialize network numConfirmations autoRbf request first
      (Inclusion.bump lib network request txid item) (AfterRound numConfirmations first) log := by
  cases item with
  | error e => exact ⟨hlog, hlatest⟩
  | ok fees =>
    unfold Inclusion.bump
    cases haddress : request.btcAddress.toAddress lib network with
    | error e => exact ⟨hlog, nofun⟩
    | ok address =>
      refine Prog.keeps_logged_part hlog (hmay fees address rfl haddress) fun r _ hlog => ?_
      cases r with
      | ok newTxid => exact ⟨hlog, latest_concat _⟩
      | error e =>
        refine ⟨hlog, ?_⟩
        change latest first _ = some _
        rw [latest_concat]
        exact hlatest

theorem waitMeets_propagate {item : Except (Error E) (SatPerVbyte × SatPerVbyte)}
    (hlog : log.Obeys lib network numConfirmations autoRbf request first)
    (hlatest : latest first log = some txid) (hrbf : autoRbf = true)
    (hraises : ∀ fees, item = .ok fees → Raises numConfirmations txid fees.2 log) :
    WaitMeets lib serialize network numConfirmations autoRbf request first
      (Inclusion.propagate lib errors.toRuntimeErrors network request numConfirmations txid item)
      (AfterRound numConfirmations first) log := by
  refine waitMeets_select hlog hlatest fun r log' hlog' hobeys hlatest => ?_
  match r with
  | .ok false => exact ⟨hobeys, hlatest⟩
  | .ok true =>
    refine waitMeets_bump hobeys hlatest fun fees address hitem haddress => ?_
    exact ⟨hrbf, hlatest, haddress, log, hraises fees hitem, hlog'⟩
  | .error e => exact waitMeets_bump hobeys hlatest nofun

variable (lib errors network numConfirmations autoRbf request) in
theorem waitMeets_waitRound (hlog : log.Obeys lib network numConfirmations autoRbf request first)
    (hlatest : latest first log = some txid) :
    WaitMeets lib serialize network numConfirmations autoRbf request first
      (Inclusion.waitRound lib errors.toRuntimeErrors network request numConfirmations autoRbf txid)
      (AfterRound numConfirmations first) log := by
  refine waitMeets_select hlog hlatest fun r log₁ hlog₁ hobeys hlatest => ?_
  cases r with
  | none => exact ⟨hobeys, nofun⟩
  | some update =>
    dsimp only
    split
    next hrbf =>
      split
      next => exact waitMeets_propagate hobeys hlatest hrbf nofun
      next newFee hnewFee =>
        refine waitMeets_select hobeys hlatest fun r log₂ hlog₂ hobeys hlatest => ?_
        cases r with
        | error e => exact ⟨hobeys, hlatest⟩
        | ok currentFee =>
          dsimp only
          split
          next hmore =>
            refine waitMeets_propagate hobeys hlatest hrbf fun fees hfees => ?_
            cases hfees
            obtain ⟨x, hupdate, hrate⟩ := Prog.bind_eq_ok hnewFee
            rw [Prog.mapError_eq_ok hupdate] at hlog₁
            subst hlog₁
            exact ⟨log, x, currentFee, hrate, hmore, hlog₂⟩
          next => exact ⟨hobeys, hlatest⟩
    next => exact ⟨hobeys, hlatest⟩

variable (lib errors network numConfirmations autoRbf request) in
/-- The wait is for the latest version, until the relay has its block. -/
theorem meets_waitForInclusion (fuel : Nat)
    (hlog : log.Obeys lib network numConfirmations autoRbf request first)
    (hlatest : latest first log = some txid) :
    Meets lib serialize network numConfirmations autoRbf request first
      (waitForInclusion lib errors network numConfirmations autoRbf fuel request txid).run
      (fun result log => ∀ txMetadata, result = .ok (some txMetadata) →
        Included numConfirmations first txMetadata log) log := by
  unfold waitForInclusion
  refine Prog.keeps_run_bind.mpr (Prog.keeps_run_lift.mpr ?_)
  refine (Prog.keeps_iterate (J := fun txid log =>
    log.Obeys lib network numConfirmations autoRbf request first ∧ latest first log = some txid)
    (R := fun result log => ∀ txMetadata, result = some (.ok txMetadata) →
      Included numConfirmations first txMetadata log)
    (fun txid log h => ?_) (fun _ _ _ => nofun) fuel
    ⟨hlog, hlatest⟩).mono fun result log hlog h => ?_
  · refine Prog.keeps_embed_of_part ?_
    refine (waitMeets_waitRound lib errors network numConfirmations autoRbf request h.1
      h.2).mono fun r log hlog hr => ?_
    cases r with
    | inl txid => exact ⟨hlog, hr⟩
    | inr result =>
      intro txMetadata hresult
      exact hr txMetadata (Option.some.inj hresult)
  · cases result with
    | none => exact ⟨hlog, nofun⟩
    | some result =>
      cases result with
      | error e => exact ⟨hlog, nofun⟩
      | ok txMetadata =>
        refine ⟨hlog, fun txMetadata' hresult => ?_⟩
        cases hresult
        exact h txMetadata rfl

/-! ### The tasks -/

theorem meets_tryAsk {A : Type} {call : Call} {result : (api E).Answer call → Except E A}
    {Q : Except (Error E) A → Log E → Prop}
    (hlog : log.Obeys lib network numConfirmations autoRbf request first)
    (hcall : policy lib network numConfirmations autoRbf request first log call)
    (hQ : ∀ r, Q ((result r).mapError .rpc) (log ++ [⟨call, r⟩])) :
    Meets lib serialize network numConfirmations autoRbf request first
      (tryAsk call result).run Q log :=
  Prog.keeps_map.mpr (Prog.keeps_logged_request hlog hcall fun r _ => hQ r)

variable (request) in
/-- Nothing has been paid, and it is not too late to. -/
structure Ready (log : Log E) : Prop where
  unpaid : ∀ e ∈ log, isPayment e = false
  inTime : ∀ deadline, request.deadline = some deadline → InTime deadline log

theorem InTime.mono {deadline : Deadline} {log' : Log E} (h : InTime deadline log)
    (hsubset : log ⊆ log') : InTime deadline log' := by
  rcases h with ⟨height, hlt, hmem⟩ | ⟨height, hlt, hmem⟩
  · exact .inl ⟨height, hlt, hsubset hmem⟩
  · exact .inr ⟨height, hlt, hsubset hmem⟩

theorem unpaid_concat {e : Prog.Event (api E)} (h : ∀ e ∈ log, isPayment e = false)
    (he : isPayment e = false) : ∀ e' ∈ log ++ [e], isPayment e' = false := by
  intro e' hmem
  rcases List.mem_append.mp hmem with hmem | hmem
  · exact h e' hmem
  · rw [List.mem_singleton.mp hmem]
    exact he

/-- A call that pays nothing, with its answer in the log. -/
theorem meets_read {A : Type} {call : Call} {result : (api E).Answer call → Except E A}
    (hlog : log.Obeys lib network numConfirmations autoRbf request first)
    (hcall : policy lib network numConfirmations autoRbf request first log call)
    (hpays : ∀ r, isPayment (⟨call, r⟩ : Prog.Event (api E)) = false)
    (hunpaid : ∀ e ∈ log, isPayment e = false) :
    Meets lib serialize network numConfirmations autoRbf request first (tryAsk call result).run
      (Prog.Outcome (fun a log' => (∀ e ∈ log', isPayment e = false) ∧ log <+: log' ∧
        ∃ r, result r = .ok a ∧ ⟨call, r⟩ ∈ log') fun _ _ => True) log := by
  refine meets_tryAsk hlog hcall fun r => .intro (fun a ha => ?_) fun _ _ => trivial
  exact ⟨unpaid_concat hunpaid (hpays r), List.prefix_append _ _, r, Prog.mapError_eq_ok ha,
    List.mem_concat_self⟩

/-- A payment that goes on has read one of the heights below the deadline. -/
theorem meets_deadlineReached {deadline : Deadline}
    (hlog : log.Obeys lib network numConfirmations autoRbf request first)
    (hunpaid : ∀ e ∈ log, isPayment e = false) :
    Meets lib serialize network numConfirmations autoRbf request first
      (deadlineReached deadline).run
      (Prog.Outcome (fun reached log => (∀ e ∈ log, isPayment e = false) ∧
        (reached = false → InTime deadline log)) fun _ _ => True) log := by
  refine Prog.keeps_run_seq (meets_read hlog trivial (fun _ => rfl) hunpaid)
    fun parachain log hlog hparachain => ?_
  obtain ⟨hunpaid, -, r, rfl, hread⟩ := hparachain
  split
  next =>
    refine Prog.keeps_run_seq (meets_read hlog trivial (fun _ => rfl) hunpaid)
      fun bitcoin log hlog hbitcoin => ⟨hlog, hbitcoin.1, fun hfalse => .inr ⟨bitcoin, ?_, ?_⟩⟩
    · exact Nat.lt_of_not_le (of_decide_eq_false hfalse)
    · obtain ⟨-, -, r, rfl, hread⟩ := hbitcoin
      exact hread
  next hlt => exact ⟨hlog, hunpaid, fun _ => .inl ⟨parachain, Nat.lt_of_not_le hlt, hread⟩⟩

variable (errors) in
/-- The payment of a request is made once, and its latest version is waited for. -/
theorem meets_transferBtc (fuel : Nat) {request : Request}
    (hlog : log.Obeys lib network numConfirmations autoRbf request none) (h : Ready request log) :
    Meets lib serialize network numConfirmations autoRbf request none
      (transferBtc lib errors network numConfirmations autoRbf fuel request).run
      (Prog.Outcome (fun result log => ∀ txMetadata, result = some txMetadata →
        Included numConfirmations none txMetadata log) fun _ _ => True) log := by
  have hrate : Meets lib serialize network numConfirmations autoRbf request none
    (getFeeRate (E := E)).run
      (Prog.Outcome (fun feeRate log => Ready request log ∧
        ∃ x, ⟨.getBitcoinFees, .ok x⟩ ∈ log ∧ toFeeRate (E := E) x = .ok feeRate)
        fun _ _ => True) log := by
    refine Prog.keeps_run_seq (meets_read hlog trivial (fun _ => rfl) h.unpaid)
      fun x log' hlog' hx => ⟨hlog', .intro (fun feeRate hrate => ?_) fun _ _ => trivial⟩
    obtain ⟨hunpaid, hprefix, r, rfl, hread⟩ := hx
    exact ⟨⟨hunpaid, fun deadline hdeadline => (h.inTime deadline hdeadline).mono hprefix.subset⟩,
      x, hread, hrate⟩
  refine Prog.keeps_run_seq hrate fun feeRate log hlog hrate => ?_
  refine Prog.keeps_run_seq (P := fun address log => MayPay lib network request none log address
      (UInt64.ofNat request.amount) feeRate (some request.hash)) ?_ fun address log hlog hpay => ?_
  · refine ⟨hlog, .intro (fun address haddress => ?_) fun _ _ => trivial⟩
    exact ⟨⟨rfl, hrate.1.unpaid⟩, hrate.1.inTime, Prog.mapError_eq_ok haddress, rfl, hrate.2, rfl⟩
  · refine Prog.keeps_run_seq (P := fun txid log => latest none log = some txid)
      (meets_tryAsk hlog hpay fun r => ?_) fun txid log hlog hlatest => ?_
    · cases r with
      | error e => trivial
      | ok txid => exact latest_concat _
    · refine (meets_waitForInclusion lib errors network numConfirmations autoRbf request fuel hlog
        hlatest).mono fun result log _ hresult => ?_
      refine .intro (fun result hok txMetadata hsome => hresult txMetadata ?_) fun _ _ => trivial
      rw [hok, hsome]

variable (request) in
/-- The request has been executed. -/
def Executed (log : Log E) : Prop :=
  ∃ proof, ⟨.execute request.requestType request.hash proof, .ok ()⟩ ∈ log

theorem Included.concat {txMetadata : TransactionMetadata} {e : Prog.Event (api E)}
    (h : Included numConfirmations first txMetadata log)
    (he : ∀ version, latestAfter version e = version) :
    Included numConfirmations first txMetadata (log ++ [e]) := by
  obtain ⟨query, hfound⟩ := h.proved.found
  exact ⟨by rw [latest_concat, he, h.latest], ⟨query, List.mem_append_left _ hfound⟩,
    List.mem_append_left _ h.proved.relayed⟩

/-- Every attempt proves the version that is included. -/
theorem meets_execute (fuel : Nat) {txMetadata : TransactionMetadata}
    (hlog : log.Obeys lib network numConfirmations autoRbf request first)
    (h : Included numConfirmations first txMetadata log) :
    Meets lib serialize network numConfirmations autoRbf request first
      (execute errors fuel request txMetadata).run
      (fun result log => result = .ok (some ()) → Executed request log) log := by
  refine Prog.keeps_run_iterate (fun _ log =>
    log.Obeys lib network numConfirmations autoRbf request first ∧
      Included numConfirmations first txMetadata log) (fun _ log h => ?_) (fun _ _ _ => nofun) fuel
    ⟨hlog, h⟩
  obtain ⟨hlog, h⟩ := h
  refine Prog.keeps_run_bind.mpr (Prog.keeps_run_lift.mpr (Prog.keeps_logged_call hlog
    ⟨rfl, rfl, txMetadata, rfl, h.latest, h.proved⟩ fun r _ hlog => ⟨hlog, ?_⟩))
  have h := h.concat (e := ⟨.execute request.requestType request.hash txMetadata.proof, r⟩)
    fun _ => rfl
  cases r with
  | ok _ => exact ⟨hlog, fun _ => ⟨_, List.mem_concat_self⟩⟩
  | error err =>
    change Meets _ _ _ _ _ _ _ (ExceptT.run (if _ then _ else if _ then _ else _)) _ _
    split
    · exact ⟨hlog, nofun⟩
    · split
      · exact ⟨hlog, nofun⟩
      · refine Prog.keeps_run_bind.mpr (Prog.keeps_run_lift.mpr (Prog.keeps_logged_call hlog trivial
          fun again _ hlog => ⟨hlog, ?_⟩))
        cases again with
        | false => exact ⟨hlog, nofun⟩
        | true => exact ⟨hlog, hlog, h.concat fun _ => rfl⟩

theorem meets_transferAndExecute (errors : RuntimeErrors E) (fuel : Nat) {request : Request}
    (hlog : log.Obeys lib network numConfirmations autoRbf request none) (h : Ready request log) :
    Meets lib serialize network numConfirmations autoRbf request none
      (transferAndExecute lib errors network numConfirmations autoRbf fuel request).run
      (fun result log => result = .ok (some ()) → Executed request log) log := by
  refine Prog.keeps_run_bind.mpr
    ((meets_transferBtc errors fuel hlog h).mono fun result log hlog hresult => ?_)
  cases result with
  | error e => exact nofun
  | ok result =>
    cases result with
    | none => exact ⟨hlog, nofun⟩
    | some txMetadata =>
      refine Prog.keeps_run_bind.mpr (Prog.keeps_run_lift.mpr (Prog.keeps_logged_call hlog trivial
        fun r _ hlog => ⟨hlog, ?_⟩))
      exact meets_execute fuel hlog ((hresult txMetadata rfl).concat fun _ => rfl)

/-- A payment is made in time, and executed when it is included. -/
theorem meets_payAndExecute (errors : RuntimeErrors E) (fuel : Nat) {request : Request}
    (hlog : log.Obeys lib network numConfirmations autoRbf request none)
    (hunpaid : ∀ e ∈ log, isPayment e = false) :
    Meets lib serialize network numConfirmations autoRbf request none
      (payAndExecute lib errors network numConfirmations autoRbf fuel request).run
      (fun result log => result = .ok (some ()) → Executed request log) log := by
  unfold payAndExecute
  cases hdeadline : request.deadline with
  | none =>
    refine meets_transferAndExecute errors fuel hlog ⟨hunpaid, fun deadline h => ?_⟩
    rw [hdeadline] at h
    cases h
  | some deadline =>
    refine Prog.keeps_run_bind.mpr
      ((meets_deadlineReached hlog hunpaid).mono fun result log hlog hresult => ?_)
    cases result with
    | error e => exact nofun
    | ok reached =>
      cases reached with
      | true => exact ⟨hlog, nofun⟩
      | false =>
        refine meets_transferAndExecute errors fuel hlog ⟨hresult.1, fun deadline' h => ?_⟩
        cases hdeadline.symm.trans h
        exact hresult.2 rfl

end Keeps

/-- The payment that a task starts with. -/
def firstVersion : Task → Option Txid
  | .payAndExecute _ => none
  | .paymentWorker _ txid => some txid

/-- What a task that ends well has done: only a vault without a bitcoin client is left alone. -/
def Fulfilled (task : Task) (log : Log E) : Prop :=
  Executed task.request log ∨ ⟨.getVault task.request.vaultId, false⟩ ∈ log

section Run

variable (lib : Lib E) (serialize : Transaction → List UInt8) (errors : RuntimeErrors E)
variable (network : Network) (numConfirmations : UInt32) (autoRbf : Bool) (fuel : Nat)

theorem meets_run (task : Task) :
    Meets lib serialize network numConfirmations autoRbf task.request (firstVersion task)
      (run lib errors network numConfirmations autoRbf fuel task).run
      (fun result log => result = .ok (some ()) → Fulfilled task log) [] := by
  refine Prog.keeps_run_bind.mpr (Prog.keeps_run_lift.mpr (Prog.keeps_logged_call Prog.obeys_nil
    trivial fun r _ hlog => ⟨hlog, ?_⟩))
  cases r with
  | false => exact ⟨hlog, fun _ => .inr List.mem_concat_self⟩
  | true =>
    cases task with
    | payAndExecute request =>
      refine (meets_payAndExecute errors fuel hlog (unpaid_concat nofun rfl)).mono ?_
      exact fun _ _ _ hresult hok => .inl (hresult hok)
    | paymentWorker request txid =>
      refine Prog.keeps_run_bind.mpr ((meets_waitForInclusion lib errors network numConfirmations
        autoRbf request fuel hlog rfl).mono fun result log hlog hresult => ?_)
      cases result with
      | error e => exact nofun
      | ok result =>
        cases result with
        | none => exact ⟨hlog, nofun⟩
        | some txMetadata =>
          refine (meets_execute fuel hlog (hresult txMetadata rfl)).mono ?_
          exact fun _ _ _ hresult hok => .inl (hresult hok)

variable {ι : Type} [DecidableEq ι]
variable {lib serialize errors network numConfirmations autoRbf fuel} {tasks : ι → Task}
variable {ps : ι → Prog (api E) (Except (Error E) (Option Unit))}
variable {log : List (ι × Prog.Event (api E))}

theorem runs_of_tasks (hruns : Prog.PoolRuns (Prog.loggedBy (Possible lib serialize)) Eq
      (fun i => (run lib errors network numConfirmations autoRbf fuel (tasks i)).run) [] ps log)
    (i : ι) :
    Meets lib serialize network numConfirmations autoRbf (tasks i).request
      (firstVersion (tasks i)) (ps i)
      (fun result log => result = .ok (some ()) → Fulfilled (tasks i) log)
      (Prog.eventsOf i log) :=
  (meets_run lib serialize errors network numConfirmations autoRbf fuel (tasks i)).runs
    (hruns.runs i)

/-- A payment that carries the id of a request. -/
def pays (id : H256) : Prog.Event (api E) → Bool
  | ⟨.createAndSendTransaction _ _ _ requestId, _⟩ => requestId = some id
  | _ => false

theorem exists_of_pays {id : H256} {e : Prog.Event (api E)} (h : pays id e = true) :
    ∃ address sat feeRate, e.call = .createAndSendTransaction address sat feeRate (some id) := by
  obtain ⟨call, r⟩ := e
  cases call with
  | createAndSendTransaction address sat feeRate requestId =>
    rw [pays, decide_eq_true_iff] at h
    subst h
    exact ⟨address, sat, feeRate, rfl⟩
  | _ => cases h

/-- What the policy says of a payment. -/
theorem mayPay_of_pays {i : ι} {id : H256} {e : Prog.Event (api E)} {before after : Log E}
    (hruns : Prog.PoolRuns (Prog.loggedBy (Possible lib serialize)) Eq
      (fun i => (run lib errors network numConfirmations autoRbf fuel (tasks i)).run) [] ps log)
    (hsplit : Prog.eventsOf i log = before ++ e :: after) (hpays : pays id e = true) :
    ∃ address sat feeRate, e.call = .createAndSendTransaction address sat feeRate (some id) ∧
      MayPay lib network (tasks i).request (firstVersion (tasks i)) before address sat feeRate
        (some id) := by
  obtain ⟨address, sat, feeRate, hcall⟩ := exists_of_pays hpays
  have hpolicy := (runs_of_tasks hruns i).inv before e after hsplit
  rw [hcall] at hpolicy
  exact ⟨address, sat, feeRate, hcall, hpolicy⟩

theorem hash_of_pays {i : ι} {id : H256} {e : Prog.Event (api E)}
    (hruns : Prog.PoolRuns (Prog.loggedBy (Possible lib serialize)) Eq
      (fun i => (run lib errors network numConfirmations autoRbf fuel (tasks i)).run) [] ps log)
    (hmem : (i, e) ∈ log) (hpays : pays id e = true) : (tasks i).request.hash = id := by
  obtain ⟨_, _, hsplit⟩ := List.append_of_mem (Prog.mem_eventsOf.mpr hmem)
  obtain ⟨_, _, _, _, hpay⟩ := mayPay_of_pays hruns hsplit hpays
  exact (Option.some.inj hpay.requestId).symm

theorem count_payments_le_one (i : ι)
    (hruns : Prog.PoolRuns (Prog.loggedBy (Possible lib serialize)) Eq
      (fun i => (run lib errors network numConfirmations autoRbf fuel (tasks i)).run) [] ps log) :
    (Prog.eventsOf i log).countP isPayment ≤ 1 := by
  refine (runs_of_tasks hruns i).inv.count_le_one fun log e hpolicy hpayment => ?_
  obtain ⟨call, r⟩ := e
  cases call with
  | createAndSendTransaction => exact hpolicy.unpaid.2
  | _ => cases hpayment

/-- However the tasks of different requests are interleaved and their calls answered, at most one
payment carries the id of a request; the task that makes it pays in time and as the request says. -/
theorem pays_each_once (hdistinct : ∀ i j, (tasks i).request.hash = (tasks j).request.hash → i = j)
    (hruns : Prog.PoolRuns (Prog.loggedBy (Possible lib serialize)) Eq
      (fun i => (run lib errors network numConfirmations autoRbf fuel (tasks i)).run) [] ps log)
    (id : H256) :
    log.countP (fun e => pays id e.2) ≤ 1 ∧
      ∀ i before e after, Prog.eventsOf i log = before ++ e :: after → pays id e = true →
        ∃ request address feeRate, tasks i = .payAndExecute request ∧ request.hash = id ∧
          request.btcAddress.toAddress lib network = .ok address ∧
          e.call = .createAndSendTransaction address (UInt64.ofNat request.amount) feeRate
            (some id) ∧
          ∀ deadline, request.deadline = some deadline → InTime deadline before := by
  constructor
  · by_cases hexists : ∃ i, (tasks i).request.hash = id
    · obtain ⟨i, hi⟩ := hexists
      refine (Prog.countP_le_eventsOf (pays id) isPayment i fun j e hmem hpays => ?_).trans
        (count_payments_le_one i hruns)
      refine ⟨hdistinct j i ((hash_of_pays hruns hmem hpays).trans hi.symm), ?_⟩
      obtain ⟨_, _, _, hcall⟩ := exists_of_pays hpays
      obtain ⟨call, r⟩ := e
      cases hcall
      rfl
    · have hnone : log.countP (fun e => pays id e.2) = 0 := List.countP_eq_zero.mpr
        fun e hmem hpays => hexists ⟨e.1, hash_of_pays hruns hmem hpays⟩
      omega
  · intro i before e after hsplit hpays
    obtain ⟨address, sat, feeRate, hcall, hpay⟩ := mayPay_of_pays hruns hsplit hpays
    obtain ⟨hfirst, -⟩ := hpay.unpaid
    cases htask : tasks i with
    | paymentWorker request txid =>
      rw [htask] at hfirst
      cases hfirst
    | payAndExecute request =>
      rw [htask] at hpay
      exact ⟨request, address, feeRate, rfl, (Option.some.inj hpay.requestId).symm, hpay.address,
        hpay.sat ▸ hcall, hpay.inTime⟩

variable (i : ι)

/-- However the tasks are interleaved and their calls answered, only the latest version of a payment
is replaced, at a higher fee rate, and only its proof is submitted, once the relay has its block. A
task ends well when its request has been executed. -/
theorem executes_latest (hruns : Prog.PoolRuns (Prog.loggedBy (Possible lib serialize)) Eq
      (fun i => (run lib errors network numConfirmations autoRbf fuel (tasks i)).run) [] ps log) :
    (∀ before txid address feeRate r after, Prog.eventsOf i log =
        before ++ ⟨.inclusion (.bumpFee txid address feeRate), r⟩ :: after →
      MayBump lib network numConfirmations autoRbf (tasks i).request (firstVersion (tasks i)) before
        txid address feeRate) ∧
    (∀ before requestType hash proof r after, Prog.eventsOf i log =
        before ++ ⟨.execute requestType hash proof, r⟩ :: after →
      MayExecute numConfirmations (tasks i).request (firstVersion (tasks i)) before requestType hash
        proof) ∧
    (ps i = .pure (.ok (some ())) → Fulfilled (tasks i) (Prog.eventsOf i log)) := by
  have htask := runs_of_tasks hruns i
  refine ⟨fun before txid address feeRate r after hsplit => htask.inv before _ after hsplit,
    fun before requestType hash proof r after hsplit => htask.inv before _ after hsplit,
    fun hreturned => ?_⟩
  rw [hreturned] at htask
  exact htask.2 rfl

end Run

/-! ### Two tasks -/

/-- One payment is made, the other has been made before. -/
def twoTasks : Bool → Task
  | false => .payAndExecute Recognition.openRedeem
  | true => .paymentWorker { Recognition.openRedeem with hash := 8, requestType := .replace } 3

def parachainErrors : RuntimeErrors String where
  channelClosed := "channel closed"
  isInvalidChainId e := e = "invalid chain"
  timeout := "timeout"
  isRpcDisconnectError e := e = "disconnected"

/-- A server that knows every transaction in the block at height 370. -/
def electrs : (call : LightChain.Call) → (LightChain.api String).Answer call
  | .tx _ => .ok ⟨3, some ⟨some 370, some 5⟩⟩
  | .txHex txid => .ok [UInt8.ofNat txid.toNat]
  | .txMerkleblockProof _ => .ok [6]
  | .blocksTipHeight => .ok 376
  | .blockHeight _ => .ok 5
  | .blockHeader _ => .ok 4
  | .blockTxids _ => .ok [1]
  | .sleep => ()

def waited (txid : Txid) (numConfirmations : UInt32) : Except String TransactionMetadata :=
  ((LightChain.waitForTransactionMetadata 0 0 txid numConfirmations none true).run.eval
    electrs).mapError fun _ => "no confirmation"

/-- The fee rate rises from 5 to 9 satoshi per virtual byte, at which transaction 7 is replaced. -/
def selected (txid : Txid) (numConfirmations : UInt32) (query : Inclusion.Query) :
    Except String TransactionMetadata ⊕ query.Answer String :=
  if txid = 7 then .inr (match query with
    | .feeRateUpdate => some (.ok ⟨9 * 10 ^ 18⟩)
    | .feeRate _ => .ok 5
    | .isInMempool _ => .ok true)
  else .inl (waited txid numConfirmations)

def answers : (call : Call) → (api String).Answer call
  | .getCurrentActiveBlockNumber => .ok 13819
  | .getBlockCount => .ok 376
  | .getBitcoinFees => .ok ⟨5 * 10 ^ 18⟩
  | .createAndSendTransaction _ _ _ _ => .ok 7
  | .inclusion (.select txid numConfirmations query) => selected txid numConfirmations query
  | .inclusion (.bumpFee _ _ _) => .ok 9
  | .inclusion (.waitForBlockInRelay _ _) => .ok ()
  | .inclusion .sleep => ()
  | .updateBitcoinMetrics _ _ => ()
  | .execute _ _ _ => .ok ()
  | .getVault _ => true
  | .nextBackoff => true

def serve (i : Bool) (log : List (Bool × Prog.Event (api String))) (call : Call) :
    Option ((api String).Answer call × List (Bool × Prog.Event (api String))) :=
  some (answers call, log ++ [(i, ⟨call, answers call⟩)])

theorem possible_waited {lib : Lib String} {serialize : Transaction → List UInt8} {txid : Txid}
    {numConfirmations : UInt32} {query : Inclusion.Query} :
    Possible lib serialize
      ⟨.inclusion (.select txid numConfirmations query), .inl (waited txid numConfirmations)⟩ := by
  cases hwaited : waited txid numConfirmations with
  | error e => trivial
  | ok txMetadata =>
    refine Waited.light 0 0 ?_
    rw [← Prog.mapError_eq_ok hwaited]
    exact Prog.runs_eval (fun _ => trivial) _

theorem possible_answers {lib : Lib String} {serialize : Transaction → List UInt8} (call : Call) :
    Possible lib serialize ⟨call, answers call⟩ := by
  cases call with
  | inclusion call =>
    cases call with
    | select txid numConfirmations query =>
      change Possible lib serialize
        ⟨.inclusion (.select txid numConfirmations query), selected txid numConfirmations query⟩
      by_cases htxid : txid = 7
      · rw [selected.eq_def, if_pos htxid]
        trivial
      · rw [selected.eq_def, if_neg htxid]
        exact possible_waited
    | _ => trivial
  | _ => trivial

/-- The tasks take turns until both are done. -/
abbrev played := Prog.playPool serve (List.replicate 12 [.inl false, .inl true]).flatten
  (fun i => (run (threeKeys [] []) parachainErrors .regtest 6 true 4 (twoTasks i)).run, [])

theorem runs_played : Prog.PoolRuns (Prog.loggedBy (Possible (threeKeys [] []) fun _ => [])) Eq
    (fun i => (run (threeKeys [] []) parachainErrors .regtest 6 true 4 (twoTasks i)).run) []
    played.1 played.2 := by
  refine Prog.poolRuns_play (fun h => ?_) (fun move hmove => by simp at hmove) _ _
  cases h
  exact ⟨possible_answers _, rfl⟩

theorem pays_each_once_twoTasks :
    played.2.countP (fun e => pays 7 e.2) ≤ 1 ∧ played.2.countP (fun e => pays 8 e.2) ≤ 1 :=
  have hdistinct : ∀ i j, (twoTasks i).request.hash = (twoTasks j).request.hash → i = j := by decide
  ⟨(pays_each_once hdistinct runs_played 7).1, (pays_each_once hdistinct runs_played 8).1⟩

theorem executes_latest_twoTasks : Fulfilled (twoTasks false) (Prog.eventsOf false played.2) ∧
    Fulfilled (twoTasks true) (Prog.eventsOf true played.2) :=
  ⟨(executes_latest false runs_played).2.2 rfl, (executes_latest true runs_played).2.2 rfl⟩

end InterBtcClients.Vault.Fulfilment
