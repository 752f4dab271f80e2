import InterBtcClients.Library.Prog
import InterBtcClients.Runtime.Types
import Mathlib.Algebra.Group.Nat.Defs
import Mathlib.Algebra.Group.Int.Defs

/-! The faucet's request to fund an account: the account's last request is looked up and replaced
under a lock, and the transfer is made afterwards. -/

namespace InterBtcClients.Faucet

open Library InterBtcClients.Runtime

/-! ### Requests and times -/

inductive FundingRequestAccountType
  | user
  | vault
  deriving DecidableEq, Repr

/-- What is stored for an account; the time is in whole seconds, as its text has it. -/
structure FaucetRequest where
  datetime : Int
  accountType : FundingRequestAccountType
  deriving DecidableEq, Repr

structure AllowanceAmount where
  symbol : String
  amount : Nat
  deriving DecidableEq, Repr

abbrev Allowance := List AllowanceAmount

structure AllowanceConfig where
  maxFundableClientBalance : Nat
  faucetCooldownHours : Int
  userAllowances : Allowance
  vaultAllowances : Allowance
  authUrl : Option String

def AllowanceConfig.allowances (config : AllowanceConfig) : FundingRequestAccountType → Allowance
  | .user => config.userAllowances
  | .vault => config.vaultAllowances

/-- Nanoseconds since 1970. -/
abbrev DateTime := Int

def DateTime.toRfc2822 (time : DateTime) : Int := time / 10 ^ 9

def DateTime.parseFromRfc2822 (seconds : Int) : DateTime := seconds * 10 ^ 9

/-- The nanoseconds of a number of hours. -/
def hours (n : Int) : Int := n * 3600 * 10 ^ 9

/-- The subtraction of the time library, which fails outside of the range of its times. -/
structure Chrono where
  checkedSubSigned : DateTime → Int → Option DateTime
  eq_sub : ∀ {time duration time'}, checkedSubSigned time duration = some time' →
    time' = time - duration

/-! ### The program -/

/-- The calls of a request for one account, whose key in the store is the account's. -/
inductive Call
  | tryAcquire
  | releasePermit
  | openKvStore
  | getVaultsByAccountId
  | signatureExists (authUrl : String)
  | tryFromSymbol (symbol : String)
  | one (currencyId : CurrencyId)
  | getFreeBalanceForId (currencyId : CurrencyId)
  | getReservedBalanceForId (currencyId : CurrencyId)
  | now
  | lock
  | unlock
  | kvGet
  | kvSet (request : FaucetRequest)
  | kvRemove
  | transferTo (transfers : List (Nat × CurrencyId))

@[reducible] def api (E : Type) : Interface where
  Call := Call
  Answer
    | .tryAcquire => Bool
    | .releasePermit => Unit
    | .openKvStore => Except E Unit
    | .getVaultsByAccountId => Except E (List VaultId)
    | .signatureExists _ => Except E Bool
    | .tryFromSymbol _ => Except E CurrencyId
    | .one _ => Except E Nat
    | .getFreeBalanceForId _ => Except E Nat
    | .getReservedBalanceForId _ => Except E Nat
    | .now => DateTime
    | .lock => Unit
    | .unlock => Unit
    | .kvGet => Except E (Option FaucetRequest)
    | .kvSet _ => Except E Unit
    | .kvRemove => Except E Unit
    | .transferTo _ => Except E Unit

inductive Error (E : Type)
  | runtimeError (e : E)
  | kvError (e : E)
  /-- Of the request for the signature. -/
  | reqwestError (e : E)
  | accountBalanceExceedsMaximum
  | accountAlreadyFunded
  | mathError
  | signatureMissing
  /-- Of a request that gets no permit, which ignores it. -/
  | busy
  deriving DecidableEq, Repr

abbrev Rpc (E : Type) := ExceptT (Error E) (Prog (api E))

variable {E : Type}

abbrev ask (call : Call) : Prog (api E) ((api E).Answer call) := Prog.request (api E) call

def runtime {A : Type} (p : Prog (api E) (Except E A)) : Rpc E A :=
  ExceptT.mk (Except.mapError .runtimeError <$> p)

def getAccountType : Prog (api E) FundingRequestAccountType := do
  match ← ask .getVaultsByAccountId with
  | .ok vaults => return if vaults.isEmpty then .user else .vault
  | .error _ => return .user

def isTypeAndWasUser (accountType currentAccountType previousAccountType :
    FundingRequestAccountType) : Bool :=
  currentAccountType = accountType ∧ previousAccountType = .user

/-- A user that has just become a vault can request again at once. -/
def hasRequestExpired (requestDatetime cooldownThreshold : DateTime)
    (currentAccountType previousAccountType : FundingRequestAccountType) : Bool :=
  requestDatetime < cooldownThreshold ∨
    isTypeAndWasUser .vault currentAccountType previousAccountType

def ensureSignatureExists (authUrl : String) : Rpc E Unit := do
  let signed ← ExceptT.mk (Except.mapError .reqwestError <$> ask (.signatureExists authUrl))
  if signed then return () else throw .signatureMissing

def currencyIds (allowances : Allowance) : Rpc E (List CurrencyId) :=
  allowances.mapM fun allowance => runtime (ask (.tryFromSymbol allowance.symbol))

/-- The sum and the product wrap at 128 bits. -/
def ensureBalance (maxFundableClientBalance : Nat) (currencyId : CurrencyId) : Rpc E Unit := do
  let freeBalance ← runtime (ask (.getFreeBalanceForId currencyId))
  let reservedBalance ← runtime (ask (.getReservedBalanceForId currencyId))
  let one ← runtime (ask (.one currencyId))
  if (freeBalance + reservedBalance) % 2 ^ 128 > maxFundableClientBalance * one % 2 ^ 128 then
    throw .accountBalanceExceedsMaximum
  else return ()

/-- The checks that are made without the lock. -/
def ensureFundable (config : AllowanceConfig) (accountType : FundingRequestAccountType) :
    Rpc E Unit := do
  config.authUrl.forM ensureSignatureExists
  let ids ← currencyIds (config.allowances accountType)
  ids.forM (ensureBalance config.maxFundableClientBalance)

/-- The check of the last request with the lock, which a request that is not allowed gives back. -/
def ensureExpired (cooldownThreshold : DateTime) (accountType : FundingRequestAccountType) :
    Rpc E Unit := do
  match ← ExceptT.lift (ask .kvGet) with
  | .error e =>
    ExceptT.lift (ask .unlock)
    throw (.kvError e)
  | .ok none => return ()
  | .ok (some last) =>
    if hasRequestExpired (.parseFromRfc2822 last.datetime) cooldownThreshold accountType
        last.accountType then return ()
    else
      ExceptT.lift (ask .unlock)
      throw .accountAlreadyFunded

/-- The lock is held when the request is allowed. -/
def ensureFundingAllowed (chrono : Chrono) (config : AllowanceConfig)
    (accountType : FundingRequestAccountType) : Rpc E Unit := do
  ensureFundable config accountType
  let now ← ExceptT.lift (ask .now)
  match chrono.checkedSubSigned now (hours config.faucetCooldownHours) with
  | none => throw .mathError
  | some cooldownThreshold =>
    ExceptT.lift (ask .lock)
    ensureExpired cooldownThreshold accountType

/-- The transfer, when the request has been stored. -/
def transfer (amounts : Allowance) : Rpc E Unit := do
  let transfers ← amounts.mapM fun allowance => do
    let currencyId ← runtime (ask (.tryFromSymbol allowance.symbol))
    return (allowance.amount, currencyId)
  runtime (ask (.transferTo transfers))

def atomicFaucetFunding (chrono : Chrono) (config : AllowanceConfig) : Rpc E Unit := do
  let accountType ← ExceptT.lift getAccountType
  ensureFundingAllowed chrono config accountType
  let now ← ExceptT.lift (ask .now)
  match ← ExceptT.lift (ask (.kvSet ⟨now.toRfc2822, accountType⟩)) with
  | .error e =>
    ExceptT.lift (ask .unlock)
    throw (.kvError e)
  | .ok _ =>
    ExceptT.lift (ask .unlock)
    transfer (config.allowances accountType)

/-- A failed transfer removes what is stored for the account, without the lock.  `resets` are the
errors of a module, of an invalid transaction and of an unknown asset. -/
def fundWithStore (chrono : Chrono) (config : AllowanceConfig) (resets : E → Bool) :
    Rpc E Unit := do
  ExceptT.mk (Except.mapError .kvError <$> ask .openKvStore)
  match ← ExceptT.lift (atomicFaucetFunding chrono config).run with
  | .ok _ => return ()
  | .error (.runtimeError e) =>
    if resets e then
      ExceptT.mk (Except.mapError .kvError <$> ask .kvRemove)
      throw (.runtimeError e)
    else throw (.runtimeError e)
  | .error e => throw e

/-- The request goes on without a permit as well. -/
def fundAccount (chrono : Chrono) (config : AllowanceConfig) (resets : E → Bool) :
    Prog (api E) (Except (Error E) Unit) := do
  let permit ← ask .tryAcquire
  let result ← (fundWithStore chrono config resets).run
  if permit then ask .releasePermit
  return result

end InterBtcClients.Faucet
