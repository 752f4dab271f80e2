import InterBtcClients.Library.Loop
import InterBtcClients.Library.Phase
import InterBtcClients.Runtime.Addr
import InterBtcClients.Vault.Cancellation

/-! The replacement of other vaults.  A listener hears which vaults ask to be replaced, and tries to
accept each request with the vaults of this account, one after the other; another one hears which
replacements have been executed.  Both tell the cancellation scheduler of the requests that this
account has accepted. -/

namespace InterBtcClients.Vault.Replace

open Library InterBtcClients.Runtime

/-! ### The program -/

structure RequestReplaceEvent where
  oldVaultId : VaultId
  amount : Nat

structure ExecuteReplaceEvent where
  replaceId : H256
  newVaultId : VaultId

inductive BitcoinError (R : Type)
  | conversionError (err : ConversionError)
  | other (err : R)

inductive Error (R : Type)
  | runtimeError (err : R)
  | bitcoinError (err : BitcoinError R)
  | insufficientFunds

/-- The balances that are read before a request is accepted. -/
inductive Read
  /-- Which of the requests is answered first. -/
  | turn
  | getRequiredCollateralForWrapped (amountBtc : Nat) (collateralCurrency : CurrencyId)
  | getVaultTotalCollateral (vaultId : VaultId)
  | getRequiredCollateralForVault (vaultId : VaultId)

@[reducible] def readApi (R : Type) : Interface where
  Call := Read
  Answer
    | .turn => Bool
    | .getRequiredCollateralForWrapped _ _ => Except R Nat
    | .getVaultTotalCollateral _ => Except R Nat
    | .getRequiredCollateralForVault _ => Except R Nat

inductive Call
  | nextRequestReplace
  | nextExecuteReplace
  /-- The vaults of this account that have a wallet. -/
  | getVaultBtcRpcs
  | read (read : Read)
  | getNewAddress (vaultId : VaultId)
  | acceptReplace (newVault oldVault : VaultId) (amountBtc collateral : Nat)
    (btcAddress : BtcAddress)
  /-- `event_channel.send`, whose result is ignored. -/
  | send (event : Cancellation.Event)

@[reducible] def api (R : Type) : Interface where
  Call := Call
  Answer
    | .nextRequestReplace => Option RequestReplaceEvent
    | .nextExecuteReplace => Option ExecuteReplaceEvent
    | .getVaultBtcRpcs => List VaultId
    | .read read => (readApi R).Answer read
    | .getNewAddress _ => Except R Bitcoin.Address
    | .acceptReplace _ _ _ _ _ => Except R Unit
    | .send _ => Unit

section Program

variable {R : Type}

abbrev ask (call : Call) : Prog (api R) ((api R).Answer call) := Prog.request (api R) call

abbrev askRead (read : Read) : Prog (readApi R) ((readApi R).Answer read) :=
  Prog.request (readApi R) read

/-- What the replacement requires, what the vault has, and what it is already required to have. -/
def readCollateral (event : RequestReplaceEvent) (vaultId : VaultId) :
    ExceptT R (Prog (readApi R)) (Nat × Nat × Nat) :=
  ExceptT.mk (Prog.tryJoin (askRead .turn)
    (askRead (.getRequiredCollateralForWrapped event.amount vaultId.currencies.collateral))
    (Prog.tryJoin (askRead .turn) (askRead (.getVaultTotalCollateral vaultId))
      (askRead (.getRequiredCollateralForVault vaultId))))

/-- The sum saturates. -/
def totalRequiredCollateral (requiredReplaceCollateral usedCollateral : Nat) : Nat :=
  min (requiredReplaceCollateral + usedCollateral) (2 ^ 128 - 1)

def handleReplaceRequest (event : RequestReplaceEvent) (vaultId : VaultId) :
    ExceptT (Error R) (Prog (api R)) Unit := do
  let (requiredReplaceCollateral, currentCollateral, usedCollateral) ←
    ExceptT.mk (Except.mapError .runtimeError <$>
      (readCollateral event vaultId).run.embed Call.read fun _ r => r)
  if currentCollateral < totalRequiredCollateral requiredReplaceCollateral usedCollateral then
    throw .insufficientFunds
  else do
    let address ← ExceptT.mk (Except.mapError (fun err => .bitcoinError (.other err)) <$>
      ask (.getNewAddress vaultId))
    let btcAddress ← Prog.ofExcept ((BtcAddress.fromPayload address.payload).mapError
      fun err => .bitcoinError (.conversionError err))
    -- no additional collateral is locked
    ExceptT.mk (Except.mapError .runtimeError <$>
      ask (.acceptReplace vaultId event.oldVaultId event.amount 0 btcAddress))

/-- The vaults are tried until one of them has accepted the request. -/
def tryVaults (event : RequestReplaceEvent) : List VaultId → Prog (api R) Unit
  | [] => return ()
  | vaultId :: rest => do
    match ← (handleReplaceRequest event vaultId).run with
    | .ok () => ask (.send .opened)
    | .error _ => tryVaults event rest

def onRequestReplace (accountId : AccountId) (acceptReplaceRequests : Bool)
    (event : RequestReplaceEvent) : Prog (api R) Unit := do
  if event.oldVaultId.accountId = accountId then return ()
  else if acceptReplaceRequests then tryVaults event (← ask .getVaultBtcRpcs)
  else return ()

def listenForReplaceRequests (accountId : AccountId) (acceptReplaceRequests : Bool) (_ : Unit) :
    Prog (api R) (Unit ⊕ Unit) := do
  match ← ask .nextRequestReplace with
  | none => return .inr ()
  | some event => do
    onRequestReplace accountId acceptReplaceRequests event
    return .inl ()

def listenForExecuteReplace (accountId : AccountId) (_ : Unit) : Prog (api R) (Unit ⊕ Unit) := do
  match ← ask .nextExecuteReplace with
  | none => return .inr ()
  | some event => do
    if event.newVaultId.accountId = accountId then
      ask (.send (.executed event.replaceId))
    return .inl ()

inductive Listener
  | replaceRequests
  | executeReplace

/-- What a listener does with an event. -/
def round (accountId : AccountId) (acceptReplaceRequests : Bool) :
    Listener → Unit → Prog (api R) (Unit ⊕ Unit)
  | .replaceRequests => listenForReplaceRequests accountId acceptReplaceRequests
  | .executeReplace => listenForExecuteReplace accountId

end Program

/-! ### What the listeners are held to -/

section Policy

variable {R : Type}

def isRead (e : Prog.Event (api R)) : Bool :=
  match e.call with
  | .read _ => true
  | _ => false

def isReceived : Prog.Event (api R) → Bool
  | ⟨.nextRequestReplace, some _⟩ => true
  | _ => false

def isAccepted : Prog.Event (api R) → Bool
  | ⟨.acceptReplace _ _ _ _ _, .ok ()⟩ => true
  | _ => false

def isOpened (e : Prog.Event (api R)) : Bool :=
  match e.call with
  | .send .opened => true
  | _ => false

/-- A replacement by one of the vaults of the account has been executed. -/
def isExecution (accountId : AccountId) : Prog.Event (api R) → Bool
  | ⟨.nextExecuteReplace, some event⟩ => event.newVaultId.accountId = accountId
  | _ => false

def isExecuted (e : Prog.Event (api R)) : Bool :=
  match e.call with
  | .send (.executed _) => true
  | _ => false

/-- The scheduler has been told of each replacement that has been accepted. -/
def ToldOpened (log : List (Prog.Event (api R))) : Prop :=
  log.countP isOpened = log.countP isAccepted

def ToldExecuted (accountId : AccountId) (log : List (Prog.Event (api R))) : Prop :=
  log.countP isExecuted = log.countP (isExecution accountId)

/-- The request is the last that has been received, and has not been accepted. -/
structure Handles (log : List (Prog.Event (api R))) (event : RequestReplaceEvent) : Prop where
  received : ∃ before since, log = before ++ ⟨.nextRequestReplace, some event⟩ :: since ∧
    ∀ e ∈ since, isReceived e = false ∧ isAccepted e = false
  told : ToldOpened log

/-- Since the last request was received, the vault has been found to be served. -/
def Served (log : List (Prog.Event (api R))) (vaultId : VaultId) : Prop :=
  ∃ vaultIds, Prog.AnsweredSince (fun e => !isReceived e) log .getVaultBtcRpcs vaultIds ∧
    vaultId ∈ vaultIds

/-- The balance has been read so, after anything else than balances. -/
def Answered (log : List (Prog.Event (api R))) (read : Read) (r : (readApi R).Answer read) : Prop :=
  Prog.AnsweredSince isRead log (.read read) r

/-- The vault has the collateral for what it holds and the replacement together. -/
def Sufficient (log : List (Prog.Event (api R))) (event : RequestReplaceEvent) (vaultId : VaultId) :
    Prop :=
  ∃ required current used,
    Answered log (.getRequiredCollateralForWrapped event.amount vaultId.currencies.collateral)
      (.ok required) ∧
    Answered log (.getVaultTotalCollateral vaultId) (.ok current) ∧
    Answered log (.getRequiredCollateralForVault vaultId) (.ok used) ∧
    totalRequiredCollateral required used ≤ current

/-- A request of another account that has not been accepted, by a vault that is served and has the
collateral, with an address that its wallet has just handed out. -/
def MayAccept (accountId : AccountId) (log : List (Prog.Event (api R)))
    (newVault oldVault : VaultId) (amountBtc collateral : Nat) (btcAddress : BtcAddress) : Prop :=
  oldVault.accountId ≠ accountId ∧ collateral = 0 ∧ Served log newVault ∧
  Handles log ⟨oldVault, amountBtc⟩ ∧
  ∃ log' address, log = log' ++ [⟨.getNewAddress newVault, .ok address⟩] ∧
    Sufficient log' ⟨oldVault, amountBtc⟩ newVault ∧
    BtcAddress.fromPayload address.payload = .ok btcAddress

/-- What may be called after the events so far. -/
def policy (accountId : AccountId) (acceptReplaceRequests : Bool)
    (log : List (Prog.Event (api R))) : Call → Prop
  | .nextRequestReplace => ToldOpened log
  | .nextExecuteReplace => ToldExecuted accountId log
  | .acceptReplace newVault oldVault amountBtc collateral btcAddress =>
    acceptReplaceRequests = true ∧
      MayAccept accountId log newVault oldVault amountBtc collateral btcAddress
  | .send .opened => ∃ log' e, log = log' ++ [e] ∧ isAccepted e = true
  | .send (.executed id) => ∃ log' event, log = log' ++ [⟨.nextExecuteReplace, some event⟩] ∧
    event.replaceId = id ∧ event.newVaultId.accountId = accountId
  | .send _ => False
  | _ => True

/-- The balances, which are all read at once. -/
def phase (R : Type) : Prog.Phase (readApi R) (api R) where
  on := Call.read
  answer _ r := r
  kind := isRead
  kind_on _ _ := rfl

/-- Neither received nor accepted, and nothing of which the scheduler is told. -/
def isQuiet (e : Prog.Event (api R)) : Bool :=
  !isReceived e && !isAccepted e && !isOpened e

def Quiet (log log' : List (Prog.Event (api R))) : Prop :=
  ∃ events, log' = log ++ events ∧ ∀ e ∈ events, isQuiet e = true

end Policy

section Listeners

variable {R : Type} {accountId : AccountId} {acceptReplaceRequests : Bool}
variable {log log' log'' : List (Prog.Event (api R))} {event : RequestReplaceEvent}
variable {vaultId : VaultId}

theorem isQuiet_iff {e : Prog.Event (api R)} :
    isQuiet e = true ↔ isReceived e = false ∧ isAccepted e = false ∧ isOpened e = false := by
  unfold isQuiet
  cases isReceived e <;> cases isAccepted e <;> cases isOpened e <;> decide

theorem isQuiet_of_isRead {e : Prog.Event (api R)} (h : isRead e = true) : isQuiet e = true := by
  obtain ⟨call, r⟩ := e
  cases call with
  | read => rfl
  | _ => cases h

theorem not_isOpened {e : Prog.Event (api R)} (h : isAccepted e = true) : isOpened e = false := by
  obtain ⟨call, r⟩ := e
  cases call with
  | acceptReplace => rfl
  | _ => cases h

theorem told_of_isAccepted {e : Prog.Event (api R)}
    (h : policy accountId acceptReplaceRequests log e.call) (haccepted : isAccepted e = true) :
    ToldOpened log := by
  obtain ⟨call, r⟩ := e
  cases call with
  | acceptReplace =>
    obtain ⟨-, -, -, -, hhandles, -⟩ := h
    exact hhandles.told
  | _ => cases haccepted

/-- What is of neither kind, or of both. -/
theorem countP_eq_concat {kind kind' : Prog.Event (api R) → Bool} {e : Prog.Event (api R)}
    (h : log.countP kind = log.countP kind') (he : kind e = kind' e) :
    (log ++ [e]).countP kind = (log ++ [e]).countP kind' := by
  rw [List.countP_append, List.countP_append, h, List.countP_singleton, List.countP_singleton, he]

/-- What the scheduler is to be told of, and the telling. -/
theorem countP_eq_concat_concat {kind kind' : Prog.Event (api R) → Bool}
    {e e' : Prog.Event (api R)} (h : log.countP kind = log.countP kind')
    (he : kind e = false) (he' : kind' e = true) (htold : kind e' = true)
    (htold' : kind' e' = false) :
    (log ++ [e] ++ [e']).countP kind = (log ++ [e] ++ [e']).countP kind' := by
  simp [List.countP_append, h, he, he', htold, htold']

theorem Quiet.trans (h : Quiet log log') (h' : Quiet log' log'') : Quiet log log'' := by
  obtain ⟨events, rfl, hevents⟩ := h
  obtain ⟨events', rfl, hevents'⟩ := h'
  refine ⟨events ++ events', List.append_assoc .., fun e he => ?_⟩
  rcases List.mem_append.mp he with he | he
  · exact hevents e he
  · exact hevents' e he

theorem quiet_concat {e : Prog.Event (api R)} (h : isQuiet e = true) : Quiet log (log ++ [e]) :=
  ⟨[e], rfl, fun e' he => by rwa [List.mem_singleton.mp he]⟩

theorem quiet_of_grows {policy : List (Prog.Event (api R)) → Call → Prop}
    (h : (phase R).Grows policy log log') : Quiet log log' := by
  obtain ⟨events, rfl, hkind, -⟩ := h
  exact ⟨events, rfl, fun e he => isQuiet_of_isRead (hkind e he)⟩

theorem Quiet.countP_eq (h : Quiet log log') {kind : Prog.Event (api R) → Bool}
    (hkind : ∀ e, isQuiet e = true → kind e = false) : log'.countP kind = log.countP kind := by
  obtain ⟨events, rfl, hevents⟩ := h
  have hnone : events.countP kind = 0 :=
    List.countP_eq_zero.mpr fun e he => by simp [hkind e (hevents e he)]
  rw [List.countP_append, hnone, Nat.add_zero]

theorem Handles.quiet (h : Handles log event) (hquiet : Quiet log log') : Handles log' event := by
  constructor
  · obtain ⟨before, since, rfl, hsince⟩ := h.received
    obtain ⟨events, rfl, hevents⟩ := hquiet
    refine ⟨before, since ++ events, by rw [List.append_assoc, List.cons_append], fun e he => ?_⟩
    rcases List.mem_append.mp he with he | he
    · exact hsince e he
    · obtain ⟨hreceived, haccepted, -⟩ := isQuiet_iff.mp (hevents e he)
      exact ⟨hreceived, haccepted⟩
  · rw [ToldOpened, hquiet.countP_eq fun e he => (isQuiet_iff.mp he).2.2,
      hquiet.countP_eq fun e he => (isQuiet_iff.mp he).2.1, h.told]

theorem Served.quiet (h : Served log vaultId) (hquiet : Quiet log log') : Served log' vaultId := by
  obtain ⟨vaultIds, hserved, hmem⟩ := h
  obtain ⟨events, rfl, hevents⟩ := hquiet
  refine ⟨vaultIds, hserved.append fun e he => ?_, hmem⟩
  rw [(isQuiet_iff.mp (hevents e he)).1]
  rfl

/-- What a listener keeps to, whatever it is answered. -/
abbrev Meets (accountId : AccountId) (acceptReplaceRequests : Bool) {A : Type} (p : Prog (api R) A)
    (Q : A → List (Prog.Event (api R)) → Prop) (log : List (Prog.Event (api R))) : Prop :=
  Prog.Keeps (Prog.logged fun _ => True) (Prog.Obeys (policy accountId acceptReplaceRequests)) p Q
    log

/-! ### The balances -/

theorem Answered.grows {policy : List (Prog.Event (api R)) → Call → Prop} {read : Read}
    {r : (readApi R).Answer read} (h : Answered log read r)
    (hgrows : (phase R).Grows policy log log') : Answered log' read r :=
  Prog.Phase.Grows.answered hgrows h

/-- What the balances are once all three have been read. -/
def ReadSo (event : RequestReplaceEvent) (vaultId : VaultId) (x : Nat × Nat × Nat)
    (log : List (Prog.Event (api R))) : Prop :=
  Answered log (.getRequiredCollateralForWrapped event.amount vaultId.currencies.collateral)
    (.ok x.1) ∧
  Answered log (.getVaultTotalCollateral vaultId) (.ok x.2.1) ∧
  Answered log (.getRequiredCollateralForVault vaultId) (.ok x.2.2)

/-- A program that reads balances leads to `P`, if it does not fail. -/
abbrev Ensures (accountId : AccountId) (acceptReplaceRequests : Bool) {A : Type}
    (p : Prog (readApi R) (Except R A)) (P : A → List (Prog.Event (api R)) → Prop)
    (log : List (Prog.Event (api R))) : Prop :=
  (phase R).Ensures (policy accountId acceptReplaceRequests) (fun _ _ => True) (ExceptT.mk p) P log

theorem meets_askRead {read : Read} {Q : (readApi R).Answer read → List (Prog.Event (api R)) → Prop}
    (hlog : Prog.Obeys (policy accountId acceptReplaceRequests) log)
    (hQ : ∀ r log', Answered log' read r → Q r log') :
    (phase R).Meets (policy accountId acceptReplaceRequests) (fun _ _ => True) (askRead read) Q
      log :=
  Prog.Phase.meets_request hlog (fun _ _ => trivial) fun _ log' r _ _ _ _ h => hQ r log' h

theorem ensures_readCollateral (event : RequestReplaceEvent) (vaultId : VaultId)
    (hlog : Prog.Obeys (policy accountId acceptReplaceRequests) log) :
    Ensures accountId acceptReplaceRequests (readCollateral (R := R) event vaultId).run
      (ReadSo event vaultId) log := by
  have hturn : ∀ log, Prog.Obeys (policy accountId acceptReplaceRequests) log →
      (phase R).Meets (policy accountId acceptReplaceRequests) (fun _ _ => True) (askRead .turn)
        (fun _ => (phase R).Grows (policy accountId acceptReplaceRequests) log) log :=
    Prog.Phase.meets_turn fun _ => trivial
  have hrequired : Ensures accountId acceptReplaceRequests
      (askRead (.getRequiredCollateralForWrapped event.amount vaultId.currencies.collateral))
      (fun required log => Answered log (.getRequiredCollateralForWrapped event.amount
        vaultId.currencies.collateral) (.ok required)) log :=
    meets_askRead hlog fun r log' h a hr => by
      cases hr
      exact h
  have hcurrent : Ensures accountId acceptReplaceRequests
      (askRead (.getVaultTotalCollateral vaultId))
      (fun current log => Answered log (.getVaultTotalCollateral vaultId) (.ok current)) log :=
    meets_askRead hlog fun r log' h a hr => by
      cases hr
      exact h
  have hused : Ensures accountId acceptReplaceRequests
      (askRead (.getRequiredCollateralForVault vaultId))
      (fun used log => Answered log (.getRequiredCollateralForVault vaultId) (.ok used)) log :=
    meets_askRead hlog fun r log' h a hr => by
      cases hr
      exact h
  exact Prog.Phase.ensures_tryJoin hturn (fun _ _ _ hgrows h => h.grows hgrows)
    (fun _ _ _ hgrows h => ⟨h.1.grows hgrows, h.2.grows hgrows⟩) hrequired
    (Prog.Phase.ensures_tryJoin hturn (fun _ _ _ hgrows h => h.grows hgrows)
      (fun _ _ _ hgrows h => h.grows hgrows) hcurrent hused)

/-- The balances are read quietly, whether all of them can be read or not. -/
theorem meets_readCollateral (hlog : Prog.Obeys (policy accountId acceptReplaceRequests) log) :
    Meets accountId acceptReplaceRequests
      ((readCollateral (R := R) event vaultId).run.embed Call.read fun _ r => r)
      (fun r log' => Quiet log log' ∧ ∀ x, r = .ok x → ReadSo event vaultId x log') log := by
  have hgrows := Prog.Phase.shares.frame (Prog.Phase.stable_grows log)
    (ensures_readCollateral event vaultId hlog) (Prog.Phase.Grows.refl log)
  refine (Prog.keeps_embed_of_part (hgrows.alone Prog.Phase.Grows.refl)).mono fun r log' _ hr => ?_
  exact ⟨quiet_of_grows hr.2, hr.1⟩

/-! ### The requests -/

/-- The request has been accepted, of which the scheduler is to be told. -/
def Accepted (log : List (Prog.Event (api R))) : Prop :=
  ∃ log' e, log = log' ++ [e] ∧ isAccepted e = true ∧ ToldOpened log'

theorem meets_handleReplaceRequest (haccept : acceptReplaceRequests = true)
    (hlog : Prog.Obeys (policy accountId acceptReplaceRequests) log)
    (hforeign : event.oldVaultId.accountId ≠ accountId) (hhandles : Handles log event)
    (hserved : Served log vaultId) :
    Meets accountId acceptReplaceRequests (handleReplaceRequest event vaultId).run
      (Prog.Outcome (fun _ log' => Accepted log') fun _ log' => Quiet log log') log := by
  refine Prog.keeps_run_bind.mpr (Prog.keeps_map.mpr ((meets_readCollateral hlog).mono
    fun r log₁ hlog₁ hr => ?_))
  obtain ⟨hquiet₁, hread⟩ := hr
  cases r with
  | error e => exact hquiet₁
  | ok x =>
    obtain ⟨required, current, used⟩ := x
    obtain ⟨hrequired, hcurrent, hused⟩ := hread _ rfl
    dsimp only [Prog.Outcome, Except.mapError]
    split
    next => exact ⟨hlog₁, hquiet₁⟩
    next hsufficient =>
      have hsufficient : Sufficient log₁ event vaultId :=
        ⟨required, current, used, hrequired, hcurrent, hused, Nat.not_lt.mp hsufficient⟩
      refine Prog.keeps_run_bind.mpr (Prog.keeps_map.mpr (Prog.keeps_logged_request hlog₁ trivial
        fun r _ => ?_))
      have hquiet₂ := hquiet₁.trans (quiet_concat (e := ⟨.getNewAddress vaultId, r⟩) rfl)
      have hlog₂ : Prog.Obeys (policy accountId acceptReplaceRequests)
          (log₁ ++ [⟨.getNewAddress vaultId, r⟩]) := Prog.obeys_concat.mpr ⟨hlog₁, trivial⟩
      cases r with
      | error e => exact hquiet₂
      | ok address =>
        refine Prog.keeps_run_bind.mpr (Prog.keeps_run_ofExcept.mpr ⟨hlog₂, ?_⟩)
        cases haddress : BtcAddress.fromPayload address.payload with
        | error e => exact hquiet₂
        | ok btcAddress =>
          have hmay : MayAccept accountId (log₁ ++ [⟨.getNewAddress vaultId, .ok address⟩]) vaultId
              event.oldVaultId event.amount 0 btcAddress :=
            ⟨hforeign, rfl, hserved.quiet hquiet₂, hhandles.quiet hquiet₂, log₁, address, rfl,
              hsufficient, haddress⟩
          refine Prog.keeps_map.mpr (Prog.keeps_logged_request hlog₂ ⟨haccept, hmay⟩ fun r _ => ?_)
          cases r with
          | error e => exact hquiet₂.trans (quiet_concat rfl)
          | ok _ => exact ⟨_, _, rfl, rfl, (hhandles.quiet hquiet₂).told⟩

theorem told_of_accepted (h : Accepted log) (r : (api R).Answer (.send .opened)) :
    ToldOpened (log ++ [⟨.send .opened, r⟩]) := by
  obtain ⟨log', e, rfl, haccepted, htold⟩ := h
  exact countP_eq_concat_concat htold (not_isOpened haccepted) haccepted rfl rfl

/-- The scheduler has been told of all that has been accepted. -/
theorem meets_tryVaults (haccept : acceptReplaceRequests = true)
    (hforeign : event.oldVaultId.accountId ≠ accountId) {vaultIds : List VaultId}
    (hlog : Prog.Obeys (policy accountId acceptReplaceRequests) log) (hhandles : Handles log event)
    (hserved : ∀ vaultId ∈ vaultIds, Served log vaultId) :
    Meets accountId acceptReplaceRequests (tryVaults event vaultIds) (fun _ => ToldOpened) log := by
  induction vaultIds generalizing log with
  | nil => exact ⟨hlog, hhandles.told⟩
  | cons vaultId rest ih =>
    refine Prog.keeps_bind.mpr ((meets_handleReplaceRequest haccept hlog hforeign hhandles
      (hserved vaultId List.mem_cons_self)).mono fun r log' hlog' hr => ?_)
    cases r with
    | ok _ =>
      obtain ⟨before, e, hlast, haccepted, -⟩ := id hr
      exact Prog.keeps_logged_request hlog' ⟨before, e, hlast, haccepted⟩ fun r _ =>
        told_of_accepted hr r
    | error _ =>
      exact ih hlog' (hhandles.quiet hr) fun vaultId' hmem =>
        (hserved vaultId' (List.mem_cons_of_mem vaultId hmem)).quiet hr

theorem meets_onRequestReplace (hlog : Prog.Obeys (policy accountId acceptReplaceRequests) log)
    (hhandles : Handles log event) :
    Meets accountId acceptReplaceRequests (onRequestReplace accountId acceptReplaceRequests event)
      (fun _ => ToldOpened) log := by
  unfold onRequestReplace
  split
  next => exact ⟨hlog, hhandles.told⟩
  next hforeign =>
    split
    next haccept =>
      refine Prog.keeps_bind.mpr (Prog.keeps_logged_request hlog trivial fun vaultIds _ => ?_)
      have hquiet : Quiet log (log ++ [⟨.getVaultBtcRpcs, vaultIds⟩]) := quiet_concat rfl
      exact meets_tryVaults haccept hforeign (Prog.obeys_concat.mpr ⟨hlog, trivial⟩)
        (hhandles.quiet hquiet) fun vaultId hmem =>
          ⟨vaultIds, Prog.answeredSince_concat rfl, hmem⟩
    next => exact ⟨hlog, hhandles.told⟩

theorem meets_listenForReplaceRequests
    (hlog : Prog.Obeys (policy accountId acceptReplaceRequests) log) (htold : ToldOpened log) :
    Meets accountId acceptReplaceRequests
      (listenForReplaceRequests accountId acceptReplaceRequests ()) (fun _ => ToldOpened) log := by
  refine Prog.keeps_bind.mpr (Prog.keeps_logged_request hlog htold fun r _ => ?_)
  have hlog₁ : Prog.Obeys (policy accountId acceptReplaceRequests)
      (log ++ [⟨.nextRequestReplace, r⟩]) := Prog.obeys_concat.mpr ⟨hlog, htold⟩
  have htold₁ : ToldOpened (log ++ [⟨.nextRequestReplace, r⟩]) := countP_eq_concat htold rfl
  cases r with
  | none => exact ⟨hlog₁, htold₁⟩
  | some event =>
    have hhandles : Handles (log ++ [⟨.nextRequestReplace, some event⟩]) event :=
      ⟨⟨log, [], rfl, fun _ h => by cases h⟩, htold₁⟩
    exact Prog.keeps_bind.mpr ((meets_onRequestReplace hlog₁ hhandles).mono
      fun _ _ hlog' h => ⟨hlog', h⟩)

/-! ### The executions -/

theorem meets_listenForExecuteReplace
    (hlog : Prog.Obeys (policy accountId acceptReplaceRequests) log)
    (htold : ToldExecuted accountId log) :
    Meets accountId acceptReplaceRequests (listenForExecuteReplace accountId ())
      (fun _ => ToldExecuted accountId) log := by
  refine Prog.keeps_bind.mpr (Prog.keeps_logged_request hlog htold fun r _ => ?_)
  have hlog₁ : Prog.Obeys (policy accountId acceptReplaceRequests)
      (log ++ [⟨.nextExecuteReplace, r⟩]) := Prog.obeys_concat.mpr ⟨hlog, htold⟩
  cases r with
  | none => exact ⟨hlog₁, countP_eq_concat htold rfl⟩
  | some event =>
    dsimp only
    split
    next hown =>
      refine Prog.keeps_bind.mpr (Prog.keeps_logged_request hlog₁ ⟨log, event, rfl, rfl, hown⟩
        fun r _ => ?_)
      exact ⟨Prog.obeys_concat.mpr ⟨hlog₁, log, event, rfl, rfl, hown⟩,
        countP_eq_concat_concat htold rfl (decide_eq_true hown) rfl rfl⟩
    next hother => exact ⟨hlog₁, countP_eq_concat htold (decide_eq_false hother).symm⟩

/-! ### Whole runs -/

/-- What holds between two events. -/
def Between (accountId : AccountId) : Listener → List (Prog.Event (api R)) → Prop
  | .replaceRequests => ToldOpened
  | .executeReplace => ToldExecuted accountId

theorem meets_round (listener : Listener)
    (hlog : Prog.Obeys (policy accountId acceptReplaceRequests) log)
    (htold : Between accountId listener log) :
    Meets accountId acceptReplaceRequests (round accountId acceptReplaceRequests listener ())
      (Sum.elim (fun _ => Between accountId listener) fun _ => Between accountId listener) log := by
  cases listener with
  | replaceRequests =>
    exact (meets_listenForReplaceRequests hlog htold).mono fun r _ _ h => by cases r <;> exact h
  | executeReplace =>
    exact (meets_listenForExecuteReplace hlog htold).mono fun r _ _ h => by cases r <;> exact h

theorem obeys_policy {listener : Listener} {p : Prog (api R) (Unit ⊕ Unit)}
    (h : Prog.LoopRuns (Prog.logged fun _ => True) (round accountId acceptReplaceRequests listener)
      (round accountId acceptReplaceRequests listener ()) [] p log) :
    Prog.Obeys (policy accountId acceptReplaceRequests) log := by
  have hstart : Between accountId listener ([] : List (Prog.Event (api R))) := by
    cases listener <;> rfl
  exact (Prog.Keeps.loopRuns (fun _ _ hlog htold => meets_round listener hlog htold)
    (meets_round listener Prog.obeys_nil hstart) h).inv

theorem accepted_le_received (h : Prog.Obeys (policy accountId acceptReplaceRequests) log) :
    log.countP isAccepted ≤ log.countP isReceived := by
  refine h.countP_le_since fun log e he haccepted => ?_
  obtain ⟨call, r⟩ := e
  cases call with
  | acceptReplace newVault oldVault amountBtc collateral btcAddress =>
    obtain ⟨-, -, -, -, hhandles, -⟩ := he
    obtain ⟨before, since, hlog, hsince⟩ := hhandles.received
    refine ⟨before, _, since, hlog, rfl, fun e' he' => ?_⟩
    rcases List.mem_cons.mp he' with rfl | he'
    · rfl
    · exact (hsince e' he').2
  | _ => cases haccepted

theorem opened_le_accepted (h : Prog.Obeys (policy accountId acceptReplaceRequests) log) :
    log.countP isOpened ≤ log.countP isAccepted := by
  refine h.countP_le_since fun log e he hopened => ?_
  obtain ⟨call, r⟩ := e
  cases call with
  | send event =>
    cases event with
    | opened =>
      obtain ⟨log', e', hlog, haccepted⟩ := he
      refine ⟨log', e', [], hlog, haccepted, fun e hmem => ?_⟩
      rw [List.mem_singleton.mp hmem]
      exact not_isOpened haccepted
    | _ => cases hopened
  | _ => cases hopened

theorem accepted_le_opened (h : Prog.Obeys (policy accountId acceptReplaceRequests) log) :
    log.countP isAccepted ≤ log.countP isOpened + 1 := by
  induction log using List.reverseRecOn with
  | nil => exact Nat.zero_le _
  | append_singleton log e ih =>
    obtain ⟨hlog, he⟩ := Prog.obeys_concat.mp h
    rw [List.countP_append, List.countP_append, List.countP_singleton]
    split
    next haccepted =>
      have htold := told_of_isAccepted he haccepted
      rw [ToldOpened] at htold
      omega
    next =>
      have hrest := ih hlog
      omega

/-- However the calls are answered, each listener keeps to the policy: a request is accepted only if
another account has made it, by a vault that is served and whose collateral, as it has just been
read, is enough for what it holds and the replacement together, with a new address of its wallet.
No request is accepted twice, and the scheduler has been told of each acceptance, except for the
last one. -/
theorem obeys_of_loopRuns {listener : Listener} {p : Prog (api R) (Unit ⊕ Unit)}
    (h : Prog.LoopRuns (Prog.logged fun _ => True) (round accountId acceptReplaceRequests listener)
      (round accountId acceptReplaceRequests listener ()) [] p log) :
    Prog.Obeys (policy accountId acceptReplaceRequests) log ∧
    log.countP isAccepted ≤ log.countP isReceived ∧
    log.countP isOpened ≤ log.countP isAccepted ∧
    log.countP isAccepted ≤ log.countP isOpened + 1 := by
  have hobeys := obeys_policy h
  exact ⟨hobeys, accepted_le_received hobeys, opened_le_accepted hobeys, accepted_le_opened hobeys⟩

end Listeners

/-! ### The parachain -/

/-- What the vaults have and are required to have for what they hold, and what an amount requires.
No balance is the largest number. -/
structure Parachain where
  collateral : VaultId → Nat
  required : VaultId → Nat
  requiredFor : Nat → CurrencyId → Nat
  bounded : ∀ vaultId, collateral vaultId < 2 ^ 128 - 1

namespace Parachain

def Collateralized (accountId : AccountId) (w : Parachain) : Prop :=
  ∀ vaultId : VaultId, vaultId.accountId = accountId → w.required vaultId ≤ w.collateral vaultId

/-- What others may do meanwhile: no vault of the account is left with less, or with more that is
required. -/
structure Eases (accountId : AccountId) (w w' : Parachain) : Prop where
  collateral : ∀ vaultId : VaultId, vaultId.accountId = accountId →
    w.collateral vaultId ≤ w'.collateral vaultId
  required : ∀ vaultId : VaultId, vaultId.accountId = accountId →
    w'.required vaultId ≤ w.required vaultId
  requiredFor : ∀ amount currency, w'.requiredFor amount currency ≤ w.requiredFor amount currency

/-- The new vault is required to have the collateral for the replacement, too. -/
structure Accepts (newVault : VaultId) (amountBtc collateral : Nat) (w w' : Parachain) : Prop where
  collateral : w'.collateral = Function.update w.collateral newVault
    (w.collateral newVault + collateral)
  required : w'.required = Function.update w.required newVault
    (w.required newVault + w.requiredFor amountBtc newVault.currencies.collateral)
  requiredFor : w'.requiredFor = w.requiredFor

/-- An answer, and what the call changes.  A call that fails may have been carried out. -/
def Answers {R : Type} (accountId : AccountId) (w : Parachain) :
    (call : Call) → (api R).Answer call → Parachain → Prop
  | .read (.getRequiredCollateralForWrapped amountBtc currency), r, w' =>
    (∀ n, r = .ok n → n = w.requiredFor amountBtc currency) ∧ w' = w
  | .read (.getVaultTotalCollateral vaultId), r, w' =>
    (∀ n, r = .ok n → n = w.collateral vaultId) ∧ w' = w
  | .read (.getRequiredCollateralForVault vaultId), r, w' =>
    (∀ n, r = .ok n → n = w.required vaultId) ∧ w' = w
  | .getVaultBtcRpcs, vaultIds, w' =>
    (∀ vaultId : VaultId, vaultId ∈ vaultIds → vaultId.accountId = accountId) ∧ w' = w
  | .acceptReplace newVault _ amountBtc collateral _, r, w' =>
    Accepts newVault amountBtc collateral w w' ∨ (∃ err, r = .error err) ∧ w' = w
  | _, _, w' => w' = w

def env (R : Type) (accountId : AccountId) : Prog.Env (api R) Parachain :=
  fun w call r w' => ∃ w₁, Eases accountId w w₁ ∧ Answers accountId w₁ call r w'

section Runs

variable {R : Type} {accountId : AccountId} {acceptReplaceRequests : Bool}
variable {w w' : Parachain} {log : List (Prog.Event (api R))} {vaultId : VaultId}

/-- The balance that has been read bounds the one that there is. -/
def Bounds (accountId : AccountId) (w : Parachain) : Prog.Event (api R) → Prop
  | ⟨.read (.getRequiredCollateralForWrapped amountBtc currency), .ok n⟩ =>
    w.requiredFor amountBtc currency ≤ n
  | ⟨.read (.getVaultTotalCollateral vaultId), .ok n⟩ =>
    vaultId.accountId = accountId → n ≤ w.collateral vaultId
  | ⟨.read (.getRequiredCollateralForVault vaultId), .ok n⟩ =>
    vaultId.accountId = accountId → w.required vaultId ≤ n
  | _ => True

def isAttempt (e : Prog.Event (api R)) : Bool :=
  match e.call with
  | .acceptReplace _ _ _ _ _ => true
  | _ => false

/-- The balances stay bounded by what has been read, until acceptance is tried, and only vaults of
the account are served. -/
structure Safe (accountId : AccountId) (s : Parachain × List (Prog.Event (api R))) : Prop where
  collateralized : s.1.Collateralized accountId
  bounds : ∀ e ∈ s.2.rtakeWhile (fun e => !isAttempt e), Bounds accountId s.1 e
  own : ∀ vaultIds, ⟨.getVaultBtcRpcs, vaultIds⟩ ∈ s.2 → ∀ vaultId ∈ vaultIds,
    vaultId.accountId = accountId

theorem Eases.refl (w : Parachain) : Eases accountId w w :=
  ⟨fun _ _ => Nat.le_refl _, fun _ _ => Nat.le_refl _, fun _ _ => Nat.le_refl _⟩

theorem Bounds.eases {e : Prog.Event (api R)} (h : Bounds accountId w e)
    (heases : Eases accountId w w') : Bounds accountId w' e := by
  unfold Bounds at h ⊢
  split
  next amountBtc currency n => exact (heases.requiredFor amountBtc currency).trans h
  next vaultId n => exact fun hown => (h hown).trans (heases.collateral vaultId hown)
  next vaultId n => exact fun hown => (heases.required vaultId hown).trans (h hown)
  next => trivial

theorem Safe.eases (h : Safe accountId (w, log)) (heases : Eases accountId w w') :
    Safe accountId (w', log) where
  collateralized vaultId hown := (heases.required vaultId hown).trans
    ((h.collateralized vaultId hown).trans (heases.collateral vaultId hown))
  bounds e he := (h.bounds e he).eases heases
  own := h.own

/-- What has been read suffices for the replacement. -/
theorem Safe.room (h : Safe accountId (w, log)) {event : RequestReplaceEvent}
    (hown : vaultId.accountId = accountId) {log' : List (Prog.Event (api R))}
    {address : Except R Bitcoin.Address} (hlog : log = log' ++ [⟨.getNewAddress vaultId, address⟩])
    (hsufficient : Sufficient log' event vaultId) :
    w.requiredFor event.amount vaultId.currencies.collateral + w.required vaultId ≤
      w.collateral vaultId := by
  obtain ⟨required, current, used, hrequired, hcurrent, hused, htotal⟩ := hsufficient
  have hbounds {read : Read} {r : (readApi R).Answer read} (hr : Answered log' read r) :
      Bounds accountId w ⟨.read read, r⟩ := by
    have hkind (e : Prog.Event (api R)) (he : isRead e = true) : (!isAttempt e) = true := by
      obtain ⟨call, r⟩ := e
      cases call with
      | read => rfl
      | _ => cases he
    refine h.bounds _ ?_
    rw [hlog]
    exact (Prog.AnsweredSince.imp hr hkind).append fun e he => by
      rw [List.mem_singleton.mp he]
      rfl
  have hrequired : w.requiredFor event.amount vaultId.currencies.collateral ≤ required :=
    hbounds hrequired
  have hcurrent : current ≤ w.collateral vaultId := hbounds hcurrent hown
  have hused : w.required vaultId ≤ used := hbounds hused hown
  have hbounded := w.bounded vaultId
  unfold totalRequiredCollateral at htotal
  omega

theorem Collateralized.accepts (h : w.Collateralized accountId) {amountBtc collateral : Nat}
    (haccepts : Accepts vaultId amountBtc collateral w w')
    (hroom : w.requiredFor amountBtc vaultId.currencies.collateral + w.required vaultId ≤
      w.collateral vaultId) : w'.Collateralized accountId := by
  intro vaultId' hown
  rw [haccepts.collateral, haccepts.required]
  by_cases hsame : vaultId' = vaultId
  · subst hsame
    rw [Function.update_self, Function.update_self]
    omega
  · rw [Function.update_of_ne hsame, Function.update_of_ne hsame]
    exact h vaultId' hown

theorem Safe.own_of_served (h : Safe accountId (w, log)) (hserved : Served log vaultId) :
    vaultId.accountId = accountId := by
  obtain ⟨vaultIds, hanswered, hmem⟩ := hserved
  exact h.own vaultIds hanswered.mem vaultId hmem

theorem Safe.quiet (h : Safe accountId (w, log)) {e : Prog.Event (api R)}
    (hattempt : isAttempt e = false) (hbounds : Bounds accountId w e)
    (hown : ∀ vaultIds, e = ⟨.getVaultBtcRpcs, vaultIds⟩ → ∀ vaultId ∈ vaultIds,
      vaultId.accountId = accountId) : Safe accountId (w, log ++ [e]) where
  collateralized := h.collateralized
  bounds e' he' := by
    rw [List.rtakeWhile_concat_pos _ _ _ (by simp [hattempt])] at he'
    rcases List.mem_append.mp he' with he' | he'
    · exact h.bounds e' he'
    · rwa [List.mem_singleton.mp he']
  own vaultIds hmem := by
    rcases List.mem_append.mp hmem with hmem | hmem
    · exact h.own vaultIds hmem
    · exact hown vaultIds (List.mem_singleton.mp hmem).symm

theorem Safe.read (h : Safe accountId (w, log)) {read : Read} {r : (readApi R).Answer read}
    (hanswer : Answers (R := R) accountId w (.read read) r w') :
    Safe accountId (w', log ++ [⟨.read read, r⟩]) := by
  cases read with
  | turn =>
    cases hanswer
    exact h.quiet rfl trivial fun _ h => by cases h
  | getRequiredCollateralForWrapped amountBtc currency =>
    obtain ⟨hr, rfl⟩ := hanswer
    refine h.quiet rfl ?_ fun _ h => by cases h
    cases r with
    | error err => trivial
    | ok n => exact (hr n rfl).ge
  | getVaultTotalCollateral vaultId =>
    obtain ⟨hr, rfl⟩ := hanswer
    refine h.quiet rfl ?_ fun _ h => by cases h
    cases r with
    | error err => trivial
    | ok n => exact fun _ => (hr n rfl).le
  | getRequiredCollateralForVault vaultId =>
    obtain ⟨hr, rfl⟩ := hanswer
    refine h.quiet rfl ?_ fun _ h => by cases h
    cases r with
    | error err => trivial
    | ok n => exact fun _ => (hr n rfl).ge

theorem Safe.attempt (h : Safe accountId (w, log)) {e : Prog.Event (api R)}
    (hattempt : isAttempt e = true) (hw' : w'.Collateralized accountId) :
    Safe accountId (w', log ++ [e]) where
  collateralized := hw'
  bounds e' he' := by
    rw [List.rtakeWhile_concat_neg _ _ _ (by simp [hattempt])] at he'
    cases he'
  own vaultIds hmem := by
    rcases List.mem_append.mp hmem with hmem | hmem
    · exact h.own vaultIds hmem
    · rw [← List.mem_singleton.mp hmem] at hattempt
      cases hattempt

theorem safe_step {s s' : Parachain × List (Prog.Event (api R))} {call : Call}
    {r : (api R).Answer call} (hcall : policy accountId acceptReplaceRequests s.2 call)
    (hr : Prog.world (env R accountId) s call r s') (h : Safe accountId s) : Safe accountId s' := by
  obtain ⟨w, log⟩ := s
  obtain ⟨w', log'⟩ := s'
  obtain ⟨⟨w₁, heases, hanswer⟩, hlog⟩ := hr
  cases hlog
  have h := h.eases heases
  cases call with
  | read read => exact h.read hanswer
  | getVaultBtcRpcs =>
    obtain ⟨hown, rfl⟩ := hanswer
    exact h.quiet rfl trivial fun vaultIds heq => by
      cases heq
      exact hown
  | acceptReplace newVault oldVault amountBtc collateral btcAddress =>
    refine h.attempt rfl ?_
    rcases hanswer with haccepts | ⟨-, rfl⟩
    · obtain ⟨-, -, -, hserved, -, log', address, hlog, hsufficient, -⟩ := hcall
      exact h.collateralized.accepts haccepts
        (h.room (h.own_of_served hserved) hlog hsufficient)
    · exact h.collateralized
  | nextRequestReplace | nextExecuteReplace | getNewAddress | send =>
    cases hanswer
    exact h.quiet rfl trivial fun _ h => by cases h

/-- While others leave the vaults of the account with no less collateral, and with no more that is
required, none of these vaults is ever required to have more than it has, whatever it accepts. -/
theorem collateralized_of_loopRuns {listener : Listener} {p : Prog (api R) (Unit ⊕ Unit)}
    (hstart : w.Collateralized accountId)
    (h : Prog.LoopRuns (Prog.world (env R accountId))
      (round accountId acceptReplaceRequests listener)
      (round accountId acceptReplaceRequests listener ()) (w, []) p (w', log)) :
    w'.Collateralized accountId := by
  have hsafe : Safe accountId (w, ([] : List (Prog.Event (api R)))) :=
    ⟨hstart, fun _ h => (by cases h), fun _ h => (by cases h)⟩
  exact (h.keeps (fun _ _ _ _ hcall hr hs => safe_step hcall hr hs) (obeys_policy h.logged)
    hsafe).collateralized

end Runs

end Parachain

/-! ### A request that the second vault accepts -/

def ksmVault : VaultId := ⟨7, ⟨.token .KSM, .token .KBTC⟩⟩

def kintVault : VaultId := ⟨7, ⟨.token .KINT, .token .KBTC⟩⟩

/-- Each vault is required to have 1000, and has 2000 or 4000. -/
def parachain : Parachain where
  collateral vaultId := if vaultId = kintVault then 4000 else 2000
  required _ := 1000
  requiredFor _ _ := 1500
  bounded vaultId := by split <;> decide

/-- Another account asks to be replaced. -/
def reply (w : Parachain) : (call : Call) → (api Unit).Answer call
  | .nextRequestReplace => some ⟨⟨9, ⟨.token .KSM, .token .KBTC⟩⟩, 25⟩
  | .nextExecuteReplace => none
  | .getVaultBtcRpcs => [ksmVault, kintVault]
  | .read .turn => false
  | .read (.getRequiredCollateralForWrapped amountBtc currency) =>
    .ok (w.requiredFor amountBtc currency)
  | .read (.getVaultTotalCollateral vaultId) => .ok (w.collateral vaultId)
  | .read (.getRequiredCollateralForVault vaultId) => .ok (w.required vaultId)
  | .getNewAddress _ => .ok ⟨.pubkeyHash 5, .regtest⟩
  | .acceptReplace _ _ _ 0 _ => .ok ()
  | .acceptReplace _ _ _ _ _ => .error ()
  | .send _ => ()

def after (w : Parachain) : Call → Parachain
  | .acceptReplace newVault _ amountBtc 0 _ =>
    { w with
      required := Function.update w.required newVault
        (w.required newVault + w.requiredFor amountBtc newVault.currencies.collateral) }
  | _ => w

def handle (s : Parachain × List (Prog.Event (api Unit))) (call : Call) :
    (api Unit).Answer call × (Parachain × List (Prog.Event (api Unit))) :=
  (reply s.1 call, after s.1 call, s.2 ++ [⟨call, reply s.1 call⟩])

theorem world_handle (s : Parachain × List (Prog.Event (api Unit))) (call : Call) :
    Prog.world (Parachain.env Unit 7) s call (handle s call).1 (handle s call).2 := by
  refine ⟨⟨s.1, Parachain.Eases.refl s.1, ?_⟩, rfl⟩
  cases call with
  | read read =>
    cases read with
    | turn => rfl
    | _ => exact ⟨fun n hn => (Except.ok.inj hn).symm, rfl⟩
  | getVaultBtcRpcs =>
    refine ⟨fun vaultId hmem => ?_, rfl⟩
    rcases List.mem_cons.mp hmem with rfl | hmem
    · rfl
    · rw [List.mem_singleton.mp hmem]
      rfl
  | acceptReplace newVault oldVault amountBtc collateral btcAddress =>
    cases collateral with
    | zero => exact .inl ⟨by simp [handle, after], rfl, rfl⟩
    | succ n => exact .inr ⟨⟨(), rfl⟩, rfl⟩
  | _ => rfl

/-- The parachain and the events when the request has been handled. -/
def handled : Parachain × List (Prog.Event (api Unit)) :=
  ((round 7 true .replaceRequests ()).exec handle (parachain, [])).2

theorem loopRuns_handled : Prog.LoopRuns (Prog.world (Parachain.env Unit 7))
    (round 7 true .replaceRequests) (round 7 true .replaceRequests ()) (parachain, [])
    (.pure ((round 7 true .replaceRequests ()).exec handle (parachain, [])).1) handled :=
  (Prog.runs_exec world_handle (round 7 true .replaceRequests ()) (parachain, [])).loopRuns

theorem obeys_of_loopRuns_handled : Prog.Obeys (policy 7 true) handled.2 ∧
    handled.2.countP isAccepted = 1 ∧
    handled.2.countP isAccepted ≤ handled.2.countP isReceived := by
  have h := obeys_of_loopRuns loopRuns_handled.logged
  exact ⟨h.1, by decide +kernel, h.2.1⟩

theorem collateralized_of_loopRuns_handled : handled.1.Collateralized 7 ∧
    handled.1.required kintVault = 2500 ∧ handled.1.required ksmVault = 1000 := by
  have hstart : parachain.Collateralized 7 := fun vaultId _ => by
    dsimp only [parachain]
    split <;> decide
  exact ⟨Parachain.collateralized_of_loopRuns hstart loopRuns_handled, by decide +kernel,
    by decide +kernel⟩

end InterBtcClients.Vault.Replace
