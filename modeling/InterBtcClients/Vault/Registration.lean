import InterBtcClients.Library.Budget
import InterBtcClients.Vault.Restarts
import InterBtcClients.Vault.Faucet

/-! The registration of vaults at the start of the service.  All vaults that are configured for it
are looked up at once, and each one that the parachain does not know is registered, with the
configured collateral or with the funding of the faucet, of which a part is deposited when the vault
is registered.  A start may be cut off anywhere. -/

namespace InterBtcClients.Vault.Registration

open Library InterBtcClients.Runtime

open InterBtcClients.Faucet (Allowance)
open InterBtcClients.Faucet.JsonRpc (Value Params Lib)
open Restarts (BackoffError)

/-! ### The program -/

inductive RuntimeError (R : Type)
  | vaultNotFound
  | vaultLiquidated
  | thresholdNotSet
  | insufficientFunds
  | bitcoinNetworkMismatch (parachain bitcoin : String)
  | other (err : R)

inductive Error (R D : Type)
  | runtimeError (err : RuntimeError R)
  | bitcoinError (err : R)
  | rpcError (err : R)
  | faucetError (err : Faucet.Error R D)
  | arithmeticUnderflow
  | faucetUrlNotSet
  /-- A panic of a decoder, which ends the client. -/
  | panicked

def TX_FEES : Nat := 2000000000

/-- What the service is run with, and the codecs of what the faucet is asked. -/
structure Setup (H D : Type) where
  accountId : AccountId
  wrappedCurrencyId : CurrencyId
  nativeCurrencyId : CurrencyId
  network : Bitcoin.Network
  autoRegister : List (String × Option Nat)
  faucetUrl : Option String
  btcConfirmations : Option Nat
  lib : Lib H
  allowance : Codec D Allowance
  fundAccountRequest : Codec D Faucet.FundAccountJsonRpcRequest

/-- The calls of a start. -/
inductive Call
  /-- Which of the registrations goes on. -/
  | turn
  | tryFromSymbol (symbol : String)
  | symbol (currencyId : CurrencyId)
  | getBitcoinConfirmations
  | connect (faucetUrl : String)
  | callMethod (method : String) (args : Params)
  | getPublicKey
  | getNewPublicKey
  | registerPublicKey (publicKey : BtcPublicKey)
  | getVault (vaultId : VaultId)
  | getFreeBalance (currencyId : CurrencyId)
  | registerVault (vaultId : VaultId) (collateral : Nat)
  | depositCollateral (vaultId : VaultId) (amount : Nat)

@[reducible] def serviceApi (R : Type) : Interface where
  Call := Call
  Answer
    | .turn => Bool
    | .tryFromSymbol _ => Except (RuntimeError R) CurrencyId
    | .symbol _ => Except R String
    | .getBitcoinConfirmations => Except (RuntimeError R) Nat
    | .connect _ => Except R Unit
    | .callMethod _ _ => Except R Value
    | .getPublicKey => Except (RuntimeError R) (Option BtcPublicKey)
    | .getNewPublicKey => Except R BtcPublicKey
    | .registerPublicKey _ => Except (RuntimeError R) Unit
    | .getVault _ => Except (RuntimeError R) Unit
    | .getFreeBalance _ => Except (RuntimeError R) Nat
    | .registerVault _ _ => Except (RuntimeError R) Unit
    | .depositCollateral _ _ => Except (RuntimeError R) Unit

section Program

variable {H R D A : Type}

abbrev Rpc (R D : Type) := ExceptT (Error R D) (Prog (serviceApi R))

abbrev ask (call : Call) : Prog (serviceApi R) ((serviceApi R).Answer call) :=
  Prog.request (serviceApi R) call

def runtime (p : Prog (serviceApi R) (Except (RuntimeError R) A)) : Rpc R D A :=
  ExceptT.mk (Except.mapError .runtimeError <$> p)

/-- The result of a decoder, which may panic. -/
def decoded : Option (Except (Faucet.Error R D) A) → Rpc R D A
  | none => throw .panicked
  | some r => Prog.ofExcept (r.mapError .faucetError)

variable (setup : Setup H D)

def getVaultId (collateralCurrency : CurrencyId) : VaultId :=
  ⟨setup.accountId, collateralCurrency, setup.wrappedCurrencyId⟩

/-! ### The faucet -/

def getFaucetAllowance (allowanceType : String) (vaultId : VaultId) : Rpc R D Nat := do
  let rawAllowance ← ExceptT.lift (ask (.callMethod allowanceType .none))
  let symbol ← ExceptT.lift (ask (.symbol vaultId.currencies.collateral))
  decoded (Faucet.getFaucetAllowance setup.lib (fun _ _ => rawAllowance) setup.allowance
    (fun _ => symbol) allowanceType vaultId).run

def fundAccountCall (vaultId : VaultId) : Call :=
  .callMethod "fund_account"
    (.array [.string (Faucet.fundingString setup.lib setup.fundAccountRequest vaultId)])

def getFunding (vaultId : VaultId) : Rpc R D Unit := do
  let answer ← ExceptT.lift (ask (fundAccountCall setup vaultId))
  decoded (Faucet.getFunding setup.lib (fun _ _ => answer) setup.fundAccountRequest vaultId).run

def fundAccount (faucetUrl : String) (vaultId : VaultId) : Rpc R D Unit := do
  ExceptT.mk (Except.mapError .rpcError <$> ask (.connect faucetUrl))
  let _ ← ExceptT.lift (getFunding setup vaultId).run
  return ()

/-! ### The vaults -/

def registerVault (vaultId : VaultId) (collateral : Nat) : Rpc R D Unit :=
  if collateral = 0 then throw (.runtimeError .insufficientFunds)
  else runtime (ask (.registerVault vaultId collateral))

def registrationCollateral (userAllowance : Nat) : Except (Error R D) Nat :=
  if TX_FEES ≤ userAllowance then .ok (userAllowance - TX_FEES) else .error .arithmeticUnderflow

/-- Two thirds, and nothing where that does not fit. -/
def operationalCollateral (vaultAllowance : Nat) : Nat :=
  if vaultAllowance / 3 * 2 < 2 ^ 128 then vaultAllowance / 3 * 2 else 0

def fundAndRegister (faucetUrl : String) (vaultId : VaultId) : Rpc R D Unit := do
  fundAccount setup faucetUrl vaultId
  let userAllowance ← getFaucetAllowance setup "user_allowance" vaultId
  let registrationCollateral ← Prog.ofExcept (registrationCollateral userAllowance)
  registerVault vaultId registrationCollateral
  getFunding setup vaultId
  let vaultAllowance ← getFaucetAllowance setup "vault_allowance" vaultId
  runtime (ask (.depositCollateral vaultId (operationalCollateral vaultAllowance)))

def isVaultRegistered (vaultId : VaultId) : Rpc R D Bool := do
  match ← ExceptT.lift (ask (.getVault vaultId)) with
  | .ok () => return true
  | .error .vaultNotFound => return false
  | .error err => throw (.runtimeError err)

/-- The registration of a vault that the parachain does not know. -/
def autoRegister (vaultId : VaultId) : Option Nat → Rpc R D Unit
  | some collateral => do
    let freeBalance ← runtime (ask (.getFreeBalance vaultId.currencies.collateral))
    registerVault vaultId (if freeBalance < collateral then freeBalance else collateral)
  | none =>
    match setup.faucetUrl with
    | some faucetUrl => fundAndRegister setup faucetUrl vaultId
    | none => return ()

def maybeRegisterVault (entry : CurrencyId × Option Nat) : Rpc R D Unit := do
  let vaultId := getVaultId setup entry.1
  match ← ExceptT.lift (isVaultRegistered (D := D) vaultId).run with
  | .error (.runtimeError .vaultLiquidated) => return ()
  | .ok true => return ()
  | .ok false => autoRegister setup vaultId entry.2
  | .error err => throw err

/-! ### The start -/

def registerPublicKey : Option BtcPublicKey → Rpc R D Unit
  | some _ => return ()
  | none => do
    let publicKey ← ExceptT.mk (Except.mapError .bitcoinError <$> ask .getNewPublicKey)
    runtime (ask (.registerPublicKey publicKey))

def maybeRegisterPublicKey : Rpc R D Unit := do
  if let some faucetUrl := setup.faucetUrl then
    fundAccount setup faucetUrl (getVaultId setup setup.nativeCurrencyId)
  registerPublicKey (← runtime (ask .getPublicKey))

def parseAutoRegister (entry : String × Option Nat) : Rpc R D (CurrencyId × Option Nat) := do
  let currencyId ← runtime (ask (.tryFromSymbol entry.1))
  return (currencyId, entry.2)

def getNumConfirmations : Rpc R D Nat :=
  match setup.btcConfirmations with
  | some x => return x
  | none => runtime (ask .getBitcoinConfirmations)

/-- All registrations are tried, whatever happens to the others. -/
def maybeRegisterVaults (entries : List (CurrencyId × Option Nat)) :
    ExceptT (BackoffError (Error R D)) (Prog (serviceApi R)) Unit := do
  let results ← ExceptT.lift
    (Prog.tryJoinAll (ask .turn) (entries.map (maybeRegisterVault setup))).run
  match results with
  | .ok _ => return ()
  | .error (.runtimeError .thresholdNotSet) =>
    throw (.permanent (.runtimeError .thresholdNotSet))
  | .error err => throw (.transient err)

def checkFaucetUrl (entries : List (CurrencyId × Option Nat)) :
    Except (BackoffError (Error R D)) Unit :=
  if entries.any (·.2.isNone) && setup.faucetUrl.isNone then .error (.permanent .faucetUrlNotSet)
  else .ok ()

/-- The start after the network has been validated, up to where the vaults are fetched. -/
def register : ExceptT (BackoffError (Error R D)) (Prog (serviceApi R)) Unit := do
  let entries ← ExceptT.adapt .transient (setup.autoRegister.mapM parseAutoRegister)
  Prog.ofExcept (checkFaucetUrl setup entries)
  let _ ← ExceptT.adapt .transient (getNumConfirmations setup)
  ExceptT.adapt .transient (maybeRegisterPublicKey setup)
  maybeRegisterVaults setup entries

/-- All calls of a start. -/
inductive MainCall
  /-- The property of the parachain that names its bitcoin network. -/
  | getBitcoinNetwork
  | service (call : Call)
  | fetchVaultIds

@[reducible] def api (R : Type) : Interface where
  Call := MainCall
  Answer
    | .getBitcoinNetwork => Except (RuntimeError R) (Option Value)
    | .service call => (serviceApi R).Answer call
    | .fetchVaultIds => Unit

def networkName : Bitcoin.Network → String
  | .bitcoin => "mainnet"
  | .testnet => "testnet"
  | .regtest => "regtest"
  | .signet => "signet"

def asStr : Value → String
  | .string text => text
  | _ => ""

/-- A parachain that does not say, or cannot be asked, is taken to be right. -/
def validateBitcoinNetwork : ExceptT (Error R D) (Prog (api R)) Unit := do
  let bitcoinNetwork := networkName setup.network
  match ← ExceptT.lift (Prog.request (api R) .getBitcoinNetwork) with
  | .ok (some value) =>
    if ¬ bitcoinNetwork.toList <:+: (asStr value).toList then
      throw (.runtimeError (.bitcoinNetworkMismatch (asStr value) bitcoinNetwork))
  | _ => return ()

/-- The start of `run_service`. -/
def runService : Prog (api R) (Except (BackoffError (Error R D)) Unit) := ExceptT.run do
  ExceptT.adapt .permanent (validateBitcoinNetwork setup)
  ExceptT.mk ((register setup).run.embed MainCall.service fun _ r => r)
  ExceptT.lift (Prog.request (api R) .fetchVaultIds)

end Program

/-! ### What a start is held to -/

section Policy

variable {H R D : Type}

def isService (e : Prog.Event (api R)) : Bool :=
  match e.call with
  | .service _ => true
  | _ => false

/-- The call has been answered so in this start. -/
def Answered (log : List (Prog.Event (api R))) (call : Call) (r : (serviceApi R).Answer call) :
    Prop :=
  Prog.AnsweredSince isService log (.service call) r

def isRegistration (vaultId : VaultId) : Prog.Event (api R) → Bool
  | ⟨.service (.registerVault vaultId' _), .ok ()⟩ => vaultId' = vaultId
  | _ => false

def isDeposit (vaultId : VaultId) (e : Prog.Event (api R)) : Bool :=
  match e.call with
  | .service (.depositCollateral vaultId' _) => vaultId' = vaultId
  | _ => false

/-- What shows that the vault is registered: it is found, if only liquidated, or is registered. -/
def showsRegistered (vaultId : VaultId) : Prog.Event (api R) → Bool
  | ⟨.service (.getVault vaultId'), .ok ()⟩ => vaultId' = vaultId
  | ⟨.service (.getVault vaultId'), .error .vaultLiquidated⟩ => vaultId' = vaultId
  | e => isRegistration vaultId e

def Registered (log : List (Prog.Event (api R))) (vaultId : VaultId) : Prop :=
  ∃ e ∈ log, showsRegistered vaultId e = true

/-- A vault that is registered is not registered again. -/
def parachain (log : List (Prog.Event (api R))) (e : Prog.Event (api R)) : Prop :=
  ∀ vaultId, isRegistration vaultId e = true → ¬ Registered log vaultId

variable (setup : Setup H D)

/-- The faucet has told the allowance for the collateral of the vault. -/
def Allows (log : List (Prog.Event (api R))) (allowanceType : String) (vaultId : VaultId)
    (allowance : Nat) : Prop :=
  ∃ rawAllowance symbol, Answered log (.callMethod allowanceType .none) rawAllowance ∧
    Answered log (.symbol vaultId.currencies.collateral) symbol ∧
    (Faucet.getFaucetAllowance setup.lib (fun _ _ => rawAllowance) setup.allowance
      (fun _ => symbol) allowanceType vaultId).run = some (.ok allowance)

/-- The entry of the configuration, and the currency that it stands for. -/
def Configured (log : List (Prog.Event (api R))) (vaultId : VaultId) (amount : Option Nat) : Prop :=
  ∃ entry ∈ setup.autoRegister, entry.2 = amount ∧ ∃ currencyId,
    Answered log (.tryFromSymbol entry.1) (.ok currencyId) ∧
    vaultId = getVaultId setup currencyId

/-- The vault is configured, has not been found, and the collateral is what is configured, as far as
it is there, or what the faucet allows a user less the fees. -/
def MayRegister (log : List (Prog.Event (api R))) (vaultId : VaultId) (collateral : Nat) : Prop :=
  collateral ≠ 0 ∧ Answered log (.getVault vaultId) (.error .vaultNotFound) ∧
  ∃ amount, Configured setup log vaultId amount ∧
    (∀ configured, amount = some configured → ∃ free,
      Answered log (.getFreeBalance vaultId.currencies.collateral) (.ok free) ∧
      collateral = min configured free) ∧
    (amount = none → setup.faucetUrl.isSome ∧ ∃ allowance,
      Allows setup log "user_allowance" vaultId allowance ∧ collateral + TX_FEES = allowance)

/-- The faucet has funded the vault after it was registered. -/
def FundedAfter (log : List (Prog.Event (api R))) (vaultId : VaultId) : Prop :=
  ∃ before after answer, log = before ++ after ∧ Registered before vaultId ∧
    ⟨.service (fundAccountCall setup vaultId), .ok answer⟩ ∈ after

/-- The vault, configured without an amount, has been registered in this start and then funded, and
the amount is two thirds of what the faucet allows a vault. -/
def MayDeposit (log : List (Prog.Event (api R))) (vaultId : VaultId) (amount : Nat) : Prop :=
  Configured setup log vaultId none ∧ (∃ collateral,
    Answered log (.registerVault vaultId collateral) (.ok ())) ∧
  FundedAfter setup log vaultId ∧ ∃ allowance,
    Allows setup log "vault_allowance" vaultId allowance ∧ amount = operationalCollateral allowance

/-- What may be called after the events so far. -/
def policy (log : List (Prog.Event (api R))) : MainCall → Prop
  | .service (.registerVault vaultId collateral) => MayRegister setup log vaultId collateral
  | .service (.depositCollateral vaultId amount) => MayDeposit setup log vaultId amount
  | .service (.registerPublicKey publicKey) => Answered log .getPublicKey (.ok none) ∧
    Answered log .getNewPublicKey (.ok publicKey)
  | .fetchVaultIds => ∀ entry ∈ setup.autoRegister, ∃ currencyId,
    Answered log (.tryFromSymbol entry.1) (.ok currencyId) ∧
    Registered log (getVaultId setup currencyId)
  | _ => True

/-- The calls of a start, which are not answered across starts. -/
def phase (R : Type) : Prog.Phase (serviceApi R) (api R) where
  on := MainCall.service
  answer _ r := r
  kind := isService
  kind_on _ _ := rfl

abbrev Grows (log log' : List (Prog.Event (api R))) : Prop :=
  (phase R).Grows (policy setup) log log'

end Policy

section Starts

open Prog.Phase (ensures_pure ensures_throw ensures_bind ensures_ofExcept ensures_lift
  ensures_mapError ensures_mono ensures_adapt)

variable {H R D A X : Type} {setup : Setup H D} {log log' : List (Prog.Event (api R))}
variable {vaultId : VaultId} {allowance : Nat}

theorem Answered.grows {call : Call} {r : (serviceApi R).Answer call} (h : Answered log call r)
    (hgrows : Grows setup log log') : Answered log' call r :=
  Prog.Phase.Grows.answered hgrows h

theorem Registered.mono (h : Registered log vaultId) (hsub : log ⊆ log') :
    Registered log' vaultId := by
  obtain ⟨e, he, hshows⟩ := h
  exact ⟨e, hsub he, hshows⟩

theorem Registered.grows (h : Registered log vaultId) (hgrows : Grows setup log log') :
    Registered log' vaultId :=
  h.mono hgrows.subset

theorem Allows.grows {allowanceType : String} (h : Allows setup log allowanceType vaultId allowance)
    (hgrows : Grows setup log log') : Allows setup log' allowanceType vaultId allowance := by
  obtain ⟨rawAllowance, symbol, hraw, hsymbol, hdecoded⟩ := h
  exact ⟨rawAllowance, symbol, hraw.grows hgrows, hsymbol.grows hgrows, hdecoded⟩

theorem Configured.grows {amount : Option Nat} (h : Configured setup log vaultId amount)
    (hgrows : Grows setup log log') : Configured setup log' vaultId amount := by
  obtain ⟨entry, hentry, hamount, currencyId, hsymbol, hvault⟩ := h
  exact ⟨entry, hentry, hamount, currencyId, hsymbol.grows hgrows, hvault⟩

theorem FundedAfter.grows (h : FundedAfter setup log vaultId) (hgrows : Grows setup log log') :
    FundedAfter setup log' vaultId := by
  obtain ⟨before, after, answer, rfl, hregistered, hfunded⟩ := h
  obtain ⟨events, rfl, -⟩ := hgrows
  exact ⟨before, after ++ events, answer, List.append_assoc .., hregistered,
    List.mem_append_left events hfunded⟩

theorem registered_of_answered {collateral : Nat}
    (h : Answered log (.registerVault vaultId collateral) (.ok ())) : Registered log vaultId :=
  ⟨_, h.mem, decide_eq_true rfl⟩

variable (setup) in
abbrev Meets (p : Prog (serviceApi R) A) (Q : A → List (Prog.Event (api R)) → Prop)
    (log : List (Prog.Event (api R))) : Prop :=
  (phase R).Meets (policy setup) parachain p Q log

variable (setup) in
/-- A program that ends with a result leads to `P`. -/
abbrev Ensures (p : Rpc R D A) (P : A → List (Prog.Event (api R)) → Prop)
    (log : List (Prog.Event (api R))) : Prop :=
  (phase R).Ensures (policy setup) parachain p P log

theorem meets_ask {call : Call}
    {Q : (serviceApi R).Answer call → List (Prog.Event (api R)) → Prop}
    (hlog : Prog.Obeys (policy setup) log)
    (hcall : ∀ log', Grows setup log log' → policy setup log' (.service call))
    (hQ : ∀ log' r, Grows setup log log' → Answered log' call r → Q r log') :
    Meets setup (ask call) Q log :=
  Prog.Phase.meets_request hlog hcall fun _ log' r _ _ _ hgrows h => hQ log' r hgrows h

theorem ensures_decoded {x : Option (Except (Faucet.Error R D) A)}
    {P : A → List (Prog.Event (api R)) → Prop} (hlog : Prog.Obeys (policy setup) log)
    (h : ∀ a, x = some (.ok a) → P a log) : Ensures setup (decoded x) P log := by
  cases x with
  | none => exact ensures_throw hlog
  | some r => exact ensures_ofExcept hlog fun a ha => h a (congrArg some (Prog.mapError_eq_ok ha))

/-! ### The faucet -/

theorem ensures_getFaucetAllowance (allowanceType : String) (vaultId : VaultId)
    (hlog : Prog.Obeys (policy setup) log) :
    Ensures setup (getFaucetAllowance setup allowanceType vaultId)
      (fun allowance log => Allows setup log allowanceType vaultId allowance) log := by
  refine ensures_bind (ensures_lift (meets_ask hlog (fun _ _ => trivial) fun _ _ _ h => h))
    fun rawAllowance log₁ hlog₁ _ hraw => ?_
  refine ensures_bind (P := fun symbol log => Answered log (.symbol _) symbol)
    (ensures_lift (meets_ask hlog₁ (fun _ _ => trivial) fun _ _ _ h => h))
    fun symbol log₂ hlog₂ hgrows hsymbol => ?_
  exact ensures_decoded hlog₂ fun allowance hdecoded =>
    ⟨rawAllowance, symbol, Answered.grows hraw hgrows, hsymbol, hdecoded⟩

theorem ok_of_getFunding {lib : Lib H} {answer : Except R Value}
    {codec : Codec D Faucet.FundAccountJsonRpcRequest} {a : Unit}
    (h : (Faucet.getFunding lib (fun _ _ => answer) codec vaultId).run = some (.ok a)) :
    ∃ value, answer = .ok value := by
  cases answer with
  | ok value => exact ⟨value, rfl⟩
  | error e => cases h

theorem ensures_getFunding (vaultId : VaultId) (hlog : Prog.Obeys (policy setup) log) :
    Ensures setup (getFunding setup vaultId)
      (fun _ log' => Registered log vaultId → FundedAfter setup log' vaultId) log := by
  let P (answer : Except R Value) (log' : List (Prog.Event (api R))) : Prop :=
    ∃ before, log ⊆ before ∧ log' = before ++ [⟨.service (fundAccountCall setup vaultId), answer⟩]
  have hrequest : Meets setup (ask (fundAccountCall setup vaultId)) P log :=
    Prog.Phase.meets_request hlog (fun _ _ => trivial)
      fun before _ answer hgrows _ hlast _ _ => ⟨before, hgrows.subset, hlast⟩
  refine ensures_bind (ensures_lift hrequest) fun answer log₁ hlog₁ _ hanswer => ?_
  refine ensures_decoded hlog₁ fun _ hdecoded hregistered => ?_
  obtain ⟨before, hsub, rfl⟩ := hanswer
  obtain ⟨value, rfl⟩ := ok_of_getFunding hdecoded
  exact ⟨before, _, value, rfl, hregistered.mono hsub, List.mem_singleton_self _⟩

theorem ensures_fundAccount (faucetUrl : String) (vaultId : VaultId)
    (hlog : Prog.Obeys (policy setup) log) :
    Ensures setup (fundAccount (D := D) setup faucetUrl vaultId) (fun _ _ => True) log := by
  refine ensures_bind (ensures_mapError (P := fun _ _ => True)
    (meets_ask hlog (fun _ _ => trivial) fun _ _ _ _ _ _ => trivial)) fun _ log₁ hlog₁ _ _ => ?_
  refine ensures_bind (ensures_lift (ensures_getFunding vaultId hlog₁)) fun _ log₂ hlog₂ _ _ => ?_
  exact ensures_pure hlog₂ trivial

/-! ### The vaults -/

theorem ensures_registerVault {collateral : Nat} (hlog : Prog.Obeys (policy setup) log)
    (hmay : ∀ log', Grows setup log log' → collateral ≠ 0 →
      MayRegister setup log' vaultId collateral) :
    Ensures setup (registerVault (D := D) vaultId collateral)
      (fun _ log => Answered log (.registerVault vaultId collateral) (.ok ())) log := by
  unfold registerVault
  split
  next => exact ensures_throw hlog
  next hpos =>
    refine ensures_mapError (meets_ask hlog (fun log' hgrows => hmay log' hgrows hpos) ?_)
    exact fun _ r _ h _ hr => hr ▸ h

theorem add_of_registrationCollateral {userAllowance collateral : Nat}
    (h : registrationCollateral (R := R) (D := D) userAllowance = .ok collateral) :
    collateral + TX_FEES = userAllowance := by
  unfold registrationCollateral at h
  split at h
  next hfees => rw [← Except.ok.inj h, Nat.sub_add_cancel hfees]
  next => cases h

theorem ensures_fundAndRegister {faucetUrl : String} (hlog : Prog.Obeys (policy setup) log)
    (hurl : setup.faucetUrl = some faucetUrl) (hconfigured : Configured setup log vaultId none)
    (hunknown : Answered log (.getVault vaultId) (.error .vaultNotFound)) :
    Ensures setup (fundAndRegister setup faucetUrl vaultId) (fun _ log => Registered log vaultId)
      log := by
  refine ensures_bind (ensures_fundAccount faucetUrl vaultId hlog) fun _ log₁ hlog₁ hgrows₁ _ => ?_
  refine ensures_bind (ensures_getFaucetAllowance "user_allowance" vaultId hlog₁)
    fun userAllowance log₂ hlog₂ hgrows₂ huser => ?_
  refine ensures_bind (P := fun collateral _ => collateral + TX_FEES = userAllowance)
    (ensures_ofExcept hlog₂ fun _ h => add_of_registrationCollateral h)
    fun collateral log₃ hlog₃ hgrows₃ hcollateral => ?_
  have hgrows := hgrows₁.trans (hgrows₂.trans hgrows₃)
  have hmay (log' : List (Prog.Event (api R))) (hgrows' : Grows setup log₃ log')
      (hpos : collateral ≠ 0) : MayRegister setup log' vaultId collateral := by
    refine ⟨hpos, hunknown.grows (hgrows.trans hgrows'), none,
      hconfigured.grows (hgrows.trans hgrows'), fun _ h => ?_, fun _ => ⟨?_, ?_⟩⟩
    · cases h
    · rw [hurl]
      rfl
    · exact ⟨userAllowance, huser.grows (hgrows₃.trans hgrows'), hcollateral⟩
  refine ensures_bind (ensures_registerVault hlog₃ hmay) fun _ log₄ hlog₄ hgrows₄ hanswered => ?_
  have hregistered := registered_of_answered hanswered
  refine ensures_bind (ensures_getFunding vaultId hlog₄) fun _ log₅ hlog₅ hgrows₅ hfunded => ?_
  have hfunded := hfunded hregistered
  refine ensures_bind (ensures_getFaucetAllowance "vault_allowance" vaultId hlog₅)
    fun vaultAllowance log₆ hlog₆ hgrows₆ hvault => ?_
  refine ensures_mapError (meets_ask hlog₆ (fun log' hgrows' => ⟨?_, ⟨collateral, ?_⟩, ?_, ?_⟩)
    fun log' _ hgrows' _ _ _ => ?_)
  · exact hconfigured.grows
      (hgrows.trans (hgrows₄.trans (hgrows₅.trans (hgrows₆.trans hgrows'))))
  · exact hanswered.grows (hgrows₅.trans (hgrows₆.trans hgrows'))
  · exact hfunded.grows (hgrows₆.trans hgrows')
  · exact ⟨vaultAllowance, hvault.grows hgrows', rfl⟩
  · exact hregistered.grows (hgrows₅.trans (hgrows₆.trans hgrows'))

theorem ensures_autoRegister {amount : Option Nat} (hlog : Prog.Obeys (policy setup) log)
    (hurl : amount = none → setup.faucetUrl.isSome)
    (hconfigured : Configured setup log vaultId amount)
    (hunknown : Answered log (.getVault vaultId) (.error .vaultNotFound)) :
    Ensures setup (autoRegister (D := D) setup vaultId amount)
      (fun _ log => Registered log vaultId) log := by
  cases amount with
  | none =>
    obtain ⟨faucetUrl, hfaucetUrl⟩ := Option.isSome_iff_exists.mp (hurl rfl)
    rw [autoRegister, hfaucetUrl]
    exact ensures_fundAndRegister hlog hfaucetUrl hconfigured hunknown
  | some configured =>
    refine ensures_bind (P := fun free log =>
      Answered log (.getFreeBalance vaultId.currencies.collateral) (.ok free)) (ensures_mapError
        (meets_ask hlog (fun _ _ => trivial) fun _ r _ h _ hr => hr ▸ h))
      fun free log₁ hlog₁ hgrows₁ hfree => ?_
    refine ensures_mono (ensures_registerVault hlog₁ fun log' hgrows' hpos => ?_)
      fun _ _ h => registered_of_answered h
    refine ⟨hpos, hunknown.grows (hgrows₁.trans hgrows'), some configured,
      hconfigured.grows (hgrows₁.trans hgrows'), fun configured' h => ?_, fun h => ?_⟩
    · cases h
      refine ⟨free, hfree.grows hgrows', ?_⟩
      split <;> omega
    · cases h

/-- What is known once the parachain has been asked about a vault. -/
def LookedUp (log : List (Prog.Event (api R))) (vaultId : VaultId) :
    Except (Error R D) Bool → Prop
  | .ok false => Answered log (.getVault vaultId) (.error .vaultNotFound)
  | .ok true => Registered log vaultId
  | .error (.runtimeError .vaultLiquidated) => Registered log vaultId
  | .error _ => True

theorem meets_isVaultRegistered (vaultId : VaultId) (hlog : Prog.Obeys (policy setup) log) :
    Meets setup (isVaultRegistered (D := D) vaultId).run (fun r log => LookedUp log vaultId r)
      log := by
  refine Prog.keeps_run_bind.mpr (Prog.keeps_run_lift.mpr (meets_ask hlog (fun _ _ => trivial) ?_))
  intro log' r hgrows hanswered
  have hlog' := hgrows.obeys hlog
  cases r with
  | ok _ => exact ⟨hlog', _, hanswered.mem, decide_eq_true rfl⟩
  | error err =>
    cases err with
    | vaultNotFound => exact ⟨hlog', hanswered⟩
    | vaultLiquidated => exact ⟨hlog', _, hanswered.mem, decide_eq_true rfl⟩
    | thresholdNotSet | insufficientFunds | bitcoinNetworkMismatch | other => exact ⟨hlog', trivial⟩

theorem ensures_maybeRegisterVault {entry : CurrencyId × Option Nat}
    (hlog : Prog.Obeys (policy setup) log) (hurl : entry.2 = none → setup.faucetUrl.isSome)
    (hconfigured : Configured setup log (getVaultId setup entry.1) entry.2) :
    Ensures setup (maybeRegisterVault (D := D) setup entry)
      (fun _ log => Registered log (getVaultId setup entry.1)) log := by
  refine ensures_bind (ensures_lift (meets_isVaultRegistered _ hlog))
    fun r log₁ hlog₁ hgrows₁ hr => ?_
  cases r with
  | ok found =>
    cases found with
    | true => exact ensures_pure hlog₁ hr
    | false => exact ensures_autoRegister hlog₁ hurl (hconfigured.grows hgrows₁) hr
  | error err =>
    cases err with
    | runtimeError err =>
      cases err with
      | vaultLiquidated => exact ensures_pure hlog₁ hr
      | vaultNotFound | thresholdNotSet | insufficientFunds | bitcoinNetworkMismatch | other =>
        exact ensures_throw hlog₁
    | bitcoinError | rpcError | faucetError | arithmeticUnderflow | faucetUrlNotSet | panicked =>
      exact ensures_throw hlog₁

/-! ### The start -/

theorem ensures_registerPublicKey {found : Option BtcPublicKey}
    (hlog : Prog.Obeys (policy setup) log) (hfound : Answered log .getPublicKey (.ok found)) :
    Ensures setup (registerPublicKey (D := D) found) (fun _ _ => True) log := by
  cases found with
  | some _ => exact ensures_pure hlog trivial
  | none =>
    refine ensures_bind (P := fun publicKey log => Answered log .getNewPublicKey (.ok publicKey))
      (ensures_mapError (meets_ask hlog (fun _ _ => trivial) fun _ r _ h _ hr => hr ▸ h))
      fun publicKey log₁ hlog₁ hgrows₁ hnew => ?_
    refine ensures_mapError (meets_ask hlog₁ (fun log' hgrows' => ⟨?_, hnew.grows hgrows'⟩)
      fun _ _ _ _ _ _ => trivial)
    exact hfound.grows (hgrows₁.trans hgrows')

theorem ensures_maybeRegisterPublicKey (hlog : Prog.Obeys (policy setup) log) :
    Ensures setup (maybeRegisterPublicKey (R := R) (D := D) setup) (fun _ _ => True) log := by
  have hregister (log' : List (Prog.Event (api R))) (hlog' : Prog.Obeys (policy setup) log') :
      Ensures (D := D) setup (do registerPublicKey (← runtime (ask .getPublicKey)))
        (fun _ _ => True) log' :=
    ensures_bind (ensures_mapError (meets_ask hlog' (fun _ _ => trivial)
      fun _ r _ h _ hr => hr ▸ h)) fun _ _ hlog _ hfound => ensures_registerPublicKey hlog hfound
  unfold maybeRegisterPublicKey
  split
  next faucetUrl _ =>
    exact ensures_bind (ensures_fundAccount faucetUrl _ hlog) fun _ log' hlog' _ _ =>
      hregister log' hlog'
  next => exact hregister log hlog

theorem isSome_of_checkFaucetUrl {entries : List (CurrencyId × Option Nat)} {a : Unit}
    (h : checkFaucetUrl (R := R) (D := D) setup entries = .ok a) :
    ∀ entry ∈ entries, entry.2 = none → setup.faucetUrl.isSome := by
  unfold checkFaucetUrl at h
  split at h
  next => cases h
  next hcheck =>
    intro entry hentry hnone
    have hany : entries.any (·.2.isNone) = true :=
      List.any_eq_true.mpr ⟨entry, hentry, by rw [hnone]; rfl⟩
    simpa [hany, Option.isSome_iff_ne_none] using hcheck

theorem ensures_maybeRegisterVaults {entries : List (CurrencyId × Option Nat)}
    (hlog : Prog.Obeys (policy setup) log)
    (hurl : ∀ entry ∈ entries, entry.2 = none → setup.faucetUrl.isSome)
    (hconfigured : ∀ entry ∈ entries, Configured setup log (getVaultId setup entry.1) entry.2) :
    (phase R).Ensures (policy setup) parachain (maybeRegisterVaults (D := D) setup entries)
      (fun _ log => ∀ entry ∈ entries, Registered log (getVaultId setup entry.1)) log := by
  have hjoin : Ensures setup (Prog.tryJoinAll (ask .turn) (entries.map (maybeRegisterVault setup)))
      (fun as log => List.Forall₂
        (fun entry _ => Registered log (getVaultId setup entry.1)) entries as) log :=
    Prog.Phase.ensures_tryJoinAll (P := fun entry _ log =>
      Registered log (getVaultId setup entry.1)) (Prog.Phase.meets_turn fun _ => trivial)
      (fun _ _ _ _ hgrows h => Registered.grows h hgrows) hlog
      fun entry hentry => ensures_maybeRegisterVault hlog (hurl entry hentry)
        (hconfigured entry hentry)
  refine ensures_bind (ensures_lift hjoin) fun results log₁ hlog₁ _ hresults => ?_
  split
  next as =>
    refine ensures_pure hlog₁ fun entry hentry => ?_
    obtain ⟨_, -, hregistered⟩ := Prog.exists_mem_right (hresults as rfl) entry hentry
    exact hregistered
  next => exact ensures_throw hlog₁
  next => exact ensures_throw hlog₁

/-- A start that comes to its end has all configured vaults registered. -/
theorem ensures_register (hlog : Prog.Obeys (policy setup) log) :
    (phase R).Ensures (policy setup) parachain (register (D := D) setup)
      (fun _ log => ∀ entry ∈ setup.autoRegister, ∃ currencyId,
        Answered log (.tryFromSymbol entry.1) (.ok currencyId) ∧
        Registered log (getVaultId setup currencyId)) log := by
  let Parsed (entry : String × Option Nat) (parsed : CurrencyId × Option Nat)
      (log : List (Prog.Event (api R))) : Prop :=
    entry.2 = parsed.2 ∧ Answered log (.tryFromSymbol entry.1) (.ok parsed.1)
  refine ensures_bind (ensures_adapt (Prog.Phase.ensures_mapM (P := Parsed)
    (fun _ _ _ _ hgrows h => ⟨h.1, h.2.grows hgrows⟩) hlog fun entry log' hlog' _ => ?_))
    fun entries log₁ hlog₁ _ hparsed => ?_
  · refine ensures_bind (P := fun currencyId log => Answered log (.tryFromSymbol entry.1)
      (.ok currencyId)) (ensures_mapError (meets_ask hlog' (fun _ _ => trivial)
        fun _ r _ h _ hr => hr ▸ h)) fun currencyId log₁ hlog₁ _ h => ?_
    exact ensures_pure hlog₁ ⟨rfl, h⟩
  have hconfigured : ∀ entry ∈ entries,
      Configured setup log₁ (getVaultId setup entry.1) entry.2 := by
    intro parsed hmem
    obtain ⟨entry, hentry, hamount, hsymbol⟩ := Prog.exists_mem_right hparsed.flip parsed hmem
    exact ⟨entry, hentry, hamount, parsed.1, hsymbol, rfl⟩
  refine ensures_bind (P := fun _ _ => ∀ entry ∈ entries, entry.2 = none →
    setup.faucetUrl.isSome) (ensures_ofExcept hlog₁ fun _ h => isSome_of_checkFaucetUrl h)
    fun _ log₂ hlog₂ hgrows₂ hurl => ?_
  refine ensures_bind (P := fun _ _ => True) (ensures_adapt ?_) fun _ log₃ hlog₃ hgrows₃ _ => ?_
  · unfold getNumConfirmations
    split
    next => exact ensures_pure hlog₂ trivial
    next => exact ensures_mapError (meets_ask hlog₂ (fun _ _ => trivial)
      fun _ _ _ _ _ _ => trivial)
  refine ensures_bind (ensures_adapt (ensures_maybeRegisterPublicKey hlog₃))
    fun _ log₄ hlog₄ hgrows₄ _ => ?_
  have hgrows := hgrows₂.trans (hgrows₃.trans hgrows₄)
  refine ensures_mono (Prog.Phase.Ensures.grows (ensures_maybeRegisterVaults hlog₄ hurl
    fun entry hentry => (hconfigured entry hentry).grows hgrows)) fun _ log₅ h entry hentry => ?_
  obtain ⟨parsed, hmem, -, hsymbol⟩ := Prog.exists_mem_right hparsed entry hentry
  exact ⟨parsed.1, Answered.grows hsymbol (hgrows.trans h.2), h.1 parsed hmem⟩

theorem keeps_validateBitcoinNetwork (hlog : Prog.Obeys (policy setup) log) :
    Prog.Keeps (Prog.recorded parachain) (Prog.Obeys (policy setup))
      (validateBitcoinNetwork (R := R) (D := D) setup).run (fun _ _ => True) log := by
  refine Prog.keeps_run_bind.mpr (Prog.keeps_run_lift.mpr (Prog.keeps_request.mpr
    ⟨hlog, fun r log' h => ?_⟩))
  obtain ⟨-, rfl⟩ := h
  have hlog' : Prog.Obeys (policy setup) (log ++ [⟨.getBitcoinNetwork, r⟩]) :=
    Prog.obeys_concat.mpr ⟨hlog, trivial⟩
  refine ⟨hlog', ?_⟩
  dsimp only [Prog.Outcome]
  split
  next => split <;> exact ⟨hlog', trivial⟩
  next => exact ⟨hlog', trivial⟩

/-- A start keeps to the policy. -/
theorem keeps_runService (hlog : Prog.Obeys (policy setup) log) :
    Prog.Keeps (Prog.recorded parachain) (Prog.Obeys (policy setup))
      (runService (R := R) (D := D) setup) (fun _ _ => True) log := by
  refine Prog.keeps_run_bind.mpr (Prog.keeps_run_adapt.mpr (Prog.Keeps.mono
    (keeps_validateBitcoinNetwork hlog) fun r log₁ hlog₁ _ => ?_))
  cases r with
  | error e => trivial
  | ok _ =>
    refine Prog.keeps_run_bind.mpr ((Prog.keeps_embed_of_part
      ((ensures_register hlog₁).alone Prog.Phase.Grows.refl)).mono fun r log₂ hlog₂ hr => ?_)
    cases r with
    | error e => trivial
    | ok _ =>
      refine Prog.keeps_run_lift.mpr (Prog.keeps_request.mpr ⟨hlog₂, fun _ log₃ h => ?_⟩)
      obtain ⟨-, rfl⟩ := h
      exact ⟨Prog.obeys_concat.mpr ⟨hlog₂, hr () rfl⟩, trivial⟩

end Starts

/-! ### Registrations and deposits -/

section Deposits

variable {H R D A B : Type} {setup : Setup H D} {b : ℤ} {vaultId vaultId' : VaultId}

/-- What is left of the registrations of a vault when each deposit uses one up. -/
def depositEnv (R : Type) (vaultId : VaultId) : Prog.Env (serviceApi R) ℤ :=
  Prog.partEnv MainCall.service (fun _ r => r)
    (Prog.budget (Prog.balance (isRegistration vaultId) (isDeposit vaultId)))

abbrev Solvent (vaultId : VaultId) (p : Prog (serviceApi R) A) (b : ℤ) : Prop :=
  Prog.Solvent (depositEnv R vaultId) p b

/-- Neither a registration nor a deposit. -/
def Free : Call → Prop
  | .registerVault _ _ => False
  | .depositCollateral _ _ => False
  | _ => True

/-- What the registration of `vaultId'` leaves for a deposit for `vaultId`. -/
def credit (vaultId vaultId' : VaultId) : ℤ := (decide (vaultId' = vaultId)).toInt

theorem credit_nonneg (vaultId vaultId' : VaultId) : 0 ≤ credit vaultId vaultId' := by
  unfold credit
  cases decide (vaultId' = vaultId) <;> decide

theorem shifts_depositEnv (vaultId : VaultId) : Prog.Shifts (depositEnv R vaultId) :=
  Prog.shifts_partEnv_budget _ _ _

theorem eq_of_free (b : ℤ) (call : Call) (r : (serviceApi R).Answer call) (b' : ℤ)
    (hfree : Free call) (h : depositEnv R vaultId b call r b') : b' = b := by
  obtain ⟨r, rfl, h⟩ := h
  have hzero : Prog.balance (isRegistration vaultId) (isDeposit vaultId)
      (⟨.service call, r⟩ : Prog.Event (api R)) = 0 := by
    cases call with
    | registerVault | depositCollateral => exact hfree.elim
    | _ => rfl
  rw [h, hzero, add_zero]

theorem keeps_turn (b : ℤ) (hb : 0 ≤ b) :
    Prog.Keeps (depositEnv R vaultId) (0 ≤ ·) (ask (R := R) .turn) (fun _ b' => b' = b) b :=
  Prog.keeps_of_free (P := Free) eq_of_free ⟨trivial, fun _ => trivial⟩ hb

theorem only_ask {call : Call} (h : Free call) : Prog.Only Free (ask (R := R) call) :=
  ⟨h, fun _ => trivial⟩

theorem only_mapError {E E' : Type} {f : E → E'} {p : Prog (serviceApi R) (Except E A)}
    (h : Prog.Only Free p) :
    Prog.Only Free (ExceptT.run (ExceptT.mk (Except.mapError f <$> p))) :=
  Prog.only_bind h fun _ => trivial

theorem only_decoded (x : Option (Except (Faucet.Error R D) A)) :
    Prog.Only Free (decoded x).run := by
  cases x <;> trivial

theorem only_getFaucetAllowance (allowanceType : String) :
    Prog.Only Free (getFaucetAllowance (R := R) setup allowanceType vaultId').run :=
  Prog.only_run_bind (Prog.only_run_lift (only_ask trivial)) fun _ =>
    Prog.only_run_bind (Prog.only_run_lift (only_ask trivial)) fun _ => only_decoded _

theorem only_getFunding : Prog.Only Free (getFunding (R := R) setup vaultId').run :=
  Prog.only_run_bind (Prog.only_run_lift (only_ask trivial)) fun _ => only_decoded _

theorem only_fundAccount (faucetUrl : String) :
    Prog.Only Free (fundAccount (R := R) setup faucetUrl vaultId').run :=
  Prog.only_run_bind (only_mapError (only_ask trivial)) fun _ =>
    Prog.only_run_bind (Prog.only_run_lift only_getFunding) fun _ => trivial

theorem only_isVaultRegistered :
    Prog.Only Free (isVaultRegistered (R := R) (D := D) vaultId').run := by
  refine Prog.only_run_bind (Prog.only_run_lift (only_ask trivial)) fun r => ?_
  split <;> trivial

theorem only_maybeRegisterPublicKey :
    Prog.Only Free (maybeRegisterPublicKey (R := R) setup).run := by
  have hregister (found : Option BtcPublicKey) :
      Prog.Only Free (registerPublicKey (R := R) (D := D) found).run := by
    cases found with
    | some _ => trivial
    | none => exact Prog.only_run_bind (only_mapError (only_ask trivial)) fun _ =>
        only_mapError (only_ask trivial)
  have hfound : Prog.Only Free (ExceptT.run (do
      registerPublicKey (R := R) (D := D) (← runtime (ask .getPublicKey)))) :=
    Prog.only_run_bind (only_mapError (only_ask trivial)) hregister
  unfold maybeRegisterPublicKey
  split
  next => exact Prog.only_run_bind (only_fundAccount _) fun _ => hfound
  next => exact hfound

theorem keeps_registerVault (collateral : Nat) (hb : 0 ≤ b) :
    Prog.Keeps (depositEnv R vaultId) (0 ≤ ·) (registerVault (D := D) vaultId' collateral).run
      (Prog.Outcome (fun _ b' => b' = b + credit vaultId vaultId') fun _ _ => True) b := by
  unfold registerVault
  split
  next => exact ⟨hb, trivial⟩
  next =>
    refine Prog.keeps_map.mpr (Prog.keeps_request.mpr ⟨hb, fun r b' h => ?_⟩)
    obtain ⟨r, rfl, rfl⟩ := h
    have hcredit := credit_nonneg vaultId vaultId'
    cases r with
    | ok u =>
      have hbalance : b + Prog.balance (isRegistration vaultId) (isDeposit vaultId)
          (⟨.service (.registerVault vaultId' collateral), .ok u⟩ : Prog.Event (api R)) =
          b + credit vaultId vaultId' := congrArg (b + ·) (sub_zero _)
      exact ⟨by omega, hbalance⟩
    | error e =>
      have hbalance : b + Prog.balance (isRegistration vaultId) (isDeposit vaultId)
          (⟨.service (.registerVault vaultId' collateral), .error e⟩ : Prog.Event (api R)) = b :=
        add_zero b
      exact ⟨by omega, trivial⟩

theorem solvent_depositCollateral (amount : Nat) (hb : credit vaultId vaultId' ≤ b) :
    Solvent vaultId
      (runtime (D := D) (ask (R := R) (.depositCollateral vaultId' amount))).run b := by
  have hcredit := credit_nonneg vaultId vaultId'
  refine Prog.keeps_map.mpr (Prog.keeps_request.mpr ⟨by omega, fun r b' h => ⟨?_, trivial⟩⟩)
  obtain ⟨r, rfl, rfl⟩ := h
  have hbalance : Prog.balance (isRegistration vaultId) (isDeposit vaultId)
      (⟨.service (.depositCollateral vaultId' amount), r⟩ : Prog.Event (api R)) =
      -credit vaultId vaultId' := zero_sub _
  omega

theorem solvent_fundAndRegister (faucetUrl : String) :
    Solvent vaultId (fundAndRegister (R := R) setup faucetUrl vaultId').run 0 := by
  refine Prog.solvent_run_bind eq_of_free (only_fundAccount faucetUrl) le_rfl fun _ => ?_
  refine Prog.solvent_run_bind eq_of_free (only_getFaucetAllowance _) le_rfl fun _ => ?_
  refine Prog.solvent_run_bind (P := Free) eq_of_free trivial le_rfl fun collateral => ?_
  refine Prog.keeps_run_bind.mpr ((keeps_registerVault collateral le_rfl).mono fun r b hb hr => ?_)
  cases r with
  | error e => trivial
  | ok _ =>
    have hb' : credit vaultId vaultId' ≤ b := by
      rw [hr, zero_add]
    refine Prog.solvent_run_bind eq_of_free only_getFunding hb fun _ => ?_
    refine Prog.solvent_run_bind eq_of_free (only_getFaucetAllowance _) hb fun _ => ?_
    exact solvent_depositCollateral _ hb'

theorem solvent_autoRegister (amount : Option Nat) :
    Solvent vaultId (autoRegister (R := R) setup vaultId' amount).run 0 := by
  cases amount with
  | some configured =>
    refine Prog.solvent_run_bind eq_of_free (only_mapError (only_ask trivial)) le_rfl fun _ => ?_
    exact (keeps_registerVault _ le_rfl).mono fun _ _ _ _ => trivial
  | none =>
    rw [autoRegister]
    split
    next faucetUrl _ => exact solvent_fundAndRegister faucetUrl
    next => exact ⟨le_rfl, trivial⟩

theorem solvent_maybeRegisterVault (entry : CurrencyId × Option Nat) :
    Solvent vaultId (maybeRegisterVault (R := R) setup entry).run 0 := by
  refine Prog.solvent_run_bind eq_of_free (Prog.only_run_lift only_isVaultRegistered) le_rfl
    fun r => ?_
  split
  next => exact ⟨le_rfl, trivial⟩
  next => exact ⟨le_rfl, trivial⟩
  next => exact solvent_autoRegister entry.2
  next => exact ⟨le_rfl, trivial⟩

theorem solvent_register : Solvent vaultId (register (R := R) (D := D) setup).run 0 := by
  have hentry (entry : String × Option Nat) :
      Prog.Only Free (parseAutoRegister (R := R) (D := D) entry).run :=
    Prog.only_run_bind (only_mapError (only_ask trivial)) fun _ => trivial
  have hconfirmations : Prog.Only Free (getNumConfirmations (R := R) (D := D) setup).run := by
    unfold getNumConfirmations
    split
    next => trivial
    next => exact only_mapError (only_ask trivial)
  refine Prog.solvent_run_bind eq_of_free (only_mapError (Prog.only_run_mapM hentry _)) le_rfl
    fun entries => ?_
  refine Prog.solvent_run_bind (P := Free) eq_of_free trivial le_rfl fun _ => ?_
  refine Prog.solvent_run_bind eq_of_free (only_mapError hconfirmations) le_rfl fun _ => ?_
  refine Prog.solvent_run_bind eq_of_free (only_mapError only_maybeRegisterPublicKey) le_rfl
    fun _ => ?_
  refine Prog.keeps_run_bind.mpr (Prog.keeps_run_lift.mpr ((Prog.Solvent.tryJoinAll
    (shifts_depositEnv vaultId) keeps_turn le_rfl fun entry _ =>
      solvent_maybeRegisterVault entry).mono fun results b hb _ => ?_))
  dsimp only [Prog.Outcome]
  split
  next => exact ⟨hb, trivial⟩
  next => exact ⟨hb, trivial⟩
  next => exact ⟨hb, trivial⟩

theorem solvent_runService :
    Prog.Solvent (Prog.budget (Prog.balance (isRegistration vaultId) (isDeposit vaultId)))
      (runService (R := R) (D := D) setup) 0 := by
  let NotService : MainCall → Prop
    | .service _ => False
    | _ => True
  have hfree (b : ℤ) (call : MainCall) (r : (api R).Answer call) (b' : ℤ) (hcall : NotService call)
      (h : Prog.budget (Prog.balance (isRegistration vaultId) (isDeposit vaultId)) b call r b') :
      b' = b := by
    cases call with
    | service => exact hcall.elim
    | getBitcoinNetwork | fetchVaultIds => exact h.trans (add_zero b)
  have hvalidate : Prog.Only NotService (validateBitcoinNetwork (R := R) (D := D) setup).run := by
    refine Prog.only_run_bind (Prog.only_run_lift ⟨trivial, fun _ => trivial⟩) fun r => ?_
    split
    next => split <;> trivial
    next => trivial
  refine Prog.solvent_run_bind hfree (Prog.only_bind hvalidate fun _ => trivial) le_rfl fun _ => ?_
  refine Prog.keeps_run_bind.mpr ((Prog.keeps_embed_of_part solvent_register).mono
    fun r b hb _ => ?_)
  cases r with
  | error e => trivial
  | ok _ =>
    have hfetch : Prog.Only NotService (Prog.request (api R) .fetchVaultIds) :=
      ⟨trivial, fun _ => trivial⟩
    exact Prog.keeps_run_lift.mpr ((Prog.keeps_of_free hfree hfetch hb).mono
      fun _ _ _ _ => trivial)

end Deposits

section Restarts

variable {H R D : Type} {setup : Setup H D} {log : List (Prog.Event (api R))}

theorem showsRegistered_of_isRegistration {vaultId : VaultId} {e : Prog.Event (api R)}
    (h : isRegistration vaultId e = true) : showsRegistered vaultId e = true := by
  unfold showsRegistered
  split
  next => cases h
  next => cases h
  next => exact h

theorem countP_isRegistration_le {A : Type} {p : Prog (api R) A} (vaultId : VaultId)
    (h : Prog.Restarts (Prog.recorded parachain) p [] log) :
    log.countP (isRegistration vaultId) ≤ 1 := by
  have hnil : ([] : List (Prog.Event (api R))).countP (isRegistration vaultId) ≤ 1 := Nat.zero_le 1
  refine Prog.Restarts.recorded (I := fun log => log.countP (isRegistration vaultId) ≤ 1)
    (fun log e hlog hpossible => ?_) hnil h
  rw [List.countP_append, List.countP_singleton]
  split
  next he =>
    have hnone : log.countP (isRegistration vaultId) = 0 :=
      List.countP_eq_zero.mpr fun e' he' hregistration =>
        hpossible vaultId he ⟨e', he', showsRegistered_of_isRegistration hregistration⟩
    omega
  next => exact hlog

/-- Over any number of starts, each of which may be cut off anywhere or fail: a vault is registered
only after it has not been found in the same start, with the configured collateral as far as it is
there or with the funding of the faucet; a deposit is made only by the start that has registered the
vault, when it has been funded again, and at most once; and the vaults are fetched only once all
that are configured are registered. -/
theorem obeys_of_restarts
    (h : Prog.Restarts (Prog.recorded parachain) (runService (D := D) setup) [] log) :
    Prog.Obeys (policy setup) log ∧ ∀ vaultId,
      log.countP (isDeposit vaultId) ≤ log.countP (isRegistration vaultId) ∧
      log.countP (isRegistration vaultId) ≤ 1 := by
  refine ⟨h.inv (fun log hlog => keeps_runService hlog) Prog.obeys_nil, fun vaultId => ?_⟩
  exact ⟨solvent_runService.countP_le h, countP_isRegistration_le vaultId h⟩

end Restarts

/-! ### A start that registers a vault, and one that finds it -/

/-- Eight bytes for an allowance of KSM alone. -/
def ksmAllowance : Codec String Allowance where
  encode
    | [⟨_, amount⟩] => Bitcoin.toBytes 8 amount
    | _ => []
  decode bytes := .ok ([⟨"KSM", Bitcoin.ofBytes bytes⟩], [])

def ksmSetup : Setup String String where
  accountId := 7
  wrappedCurrencyId := .token .KBTC
  nativeCurrencyId := .token .KINT
  network := .regtest
  autoRegister := [("KSM", none)]
  faucetUrl := some "http://localhost:3033"
  btcConfirmations := some 1
  lib := Faucet.hexLib
  allowance := ksmAllowance
  fundAccountRequest :=
    Faucet.FundAccountJsonRpcRequest.codec Faucet.accountCodec Faucet.currencyCodec

/-- A user is allowed 3000000000, and a vault 2500. -/
def allowed (method : String) : Value :=
  if method = "user_allowance" then .string "0x00000000b2d05e00" else .string "0x00000000000009c4"

/-- The parachain that only this client registers vaults on. -/
def reply (log : List (Prog.Event (api Unit))) :
    (call : MainCall) → (api Unit).Answer call
  | .getBitcoinNetwork => .ok (some (.string "bitcoin-regtest"))
  | .fetchVaultIds => ()
  | .service .turn => true
  | .service (.tryFromSymbol _) => .ok (.token .KSM)
  | .service (.symbol _) => .ok "KSM"
  | .service .getBitcoinConfirmations => .ok 1
  | .service (.connect _) => .ok ()
  | .service (.callMethod method _) => .ok (allowed method)
  | .service .getPublicKey => .ok none
  | .service .getNewPublicKey => .ok 2
  | .service (.registerPublicKey _) => .ok ()
  | .service (.getVault vaultId) =>
    if log.any (showsRegistered vaultId) then .ok () else .error .vaultNotFound
  | .service (.getFreeBalance _) => .ok 0
  | .service (.registerVault vaultId _) =>
    if log.any (showsRegistered vaultId) then .error (.other ()) else .ok ()
  | .service (.depositCollateral _ _) => .ok ()

def handle (log : List (Prog.Event (api Unit))) (call : MainCall) :
    (api Unit).Answer call × List (Prog.Event (api Unit)) :=
  (reply log call, log ++ [⟨call, reply log call⟩])

/-- The events of two starts. -/
def twoStarts : List (Prog.Event (api Unit)) :=
  ((runService ksmSetup).exec handle ((runService ksmSetup).exec handle []).2).2

def isDepositOf (vaultId : VaultId) (amount : Nat) (e : Prog.Event (api Unit)) : Bool :=
  match e.call with
  | .service (.depositCollateral vaultId' amount') => vaultId' = vaultId ∧ amount' = amount
  | _ => false

theorem recorded_handle (log : List (Prog.Event (api Unit))) (call : MainCall) :
    Prog.recorded parachain log call (handle log call).1 (handle log call).2 := by
  refine ⟨fun vaultId hregistration => ?_, rfl⟩
  cases call with
  | getBitcoinNetwork | fetchVaultIds => cases hregistration
  | service call =>
    cases call with
    | registerVault vaultId' collateral =>
      simp only [handle, reply] at hregistration
      split at hregistration
      next => cases hregistration
      next hany =>
        obtain rfl : vaultId' = vaultId := of_decide_eq_true hregistration
        rintro ⟨e, he, hshows⟩
        exact hany (List.any_eq_true.mpr ⟨e, he, hshows⟩)
    | _ => cases hregistration

/-- The second start finds the vault that the first one has registered with 1000000000, and does not
deposit again. -/
theorem obeys_of_restarts_twoStarts :
    Prog.Obeys (policy ksmSetup) twoStarts ∧
    twoStarts.countP (isDepositOf (getVaultId ksmSetup (.token .KSM)) 1666) = 1 ∧
    twoStarts.countP (isDeposit (getVaultId ksmSetup (.token .KSM))) ≤ 1 := by
  have hrun (log : List (Prog.Event (api Unit))) : Prog.Runs (Prog.recorded parachain)
      (runService ksmSetup) log (.pure ((runService ksmSetup).exec handle log).1)
      ((runService ksmSetup).exec handle log).2 :=
    Prog.runs_exec recorded_handle _ log
  have h := obeys_of_restarts (.next (.next (.refl []) (hrun [])) (hrun _))
  exact ⟨h.1, by decide +kernel, (h.2 _).1.trans (h.2 _).2⟩

end InterBtcClients.Vault.Registration
