import InterBtcClients.Library.Prog

/-! How the client of the parachain submits an extrinsic: it takes a fresh nonce, signs, submits and
waits until the extrinsic is finalized, and tries again after some errors. -/

namespace InterBtcClients.Runtime.Submission

open Library

def BASE_ERROR : Int := 1000

def POOL_INVALID_TX : Int := BASE_ERROR + 10

def POOL_TOO_LOW_PRIORITY : Int := POOL_INVALID_TX + 4

/-- The errors of the node's client, as far as the retries tell them apart. -/
inductive SubxtError (E : Type)
  /-- The answer to a call by an error object, with its code and data. -/
  | custom (code : Int) (data : Option String)
  /-- The block of a finalized extrinsic is not found. -/
  | blockNotFound
  /-- The node has dropped the extrinsic from its pool, or found it invalid or usurped there. -/
  | givenUp (e : E)
  | other (e : E)
  deriving DecidableEq, Repr

inductive Error (E : Type)
  | timeout
  | invalidTransaction (data : String)
  | poolTooLowPriority
  | blockHashNotFound
  | subxtRuntimeError (e : SubxtError E)
  deriving DecidableEq, Repr

variable {E V : Type}

def Error.mapCustomError {A : Type} (error : Error E) (call : Int → Option String → Option A) :
    Option A :=
  match error with
  | .subxtRuntimeError (.custom code data) => call code data
  | _ => none

def Error.isInvalidTransaction (error : Error E) : Option String :=
  error.mapCustomError fun code data => if code = POOL_INVALID_TX then some (data.getD "") else none

def Error.isPoolTooLowPriority (error : Error E) : Option Unit :=
  error.mapCustomError fun code _ => if code = POOL_TOO_LOW_PRIORITY then some () else none

def Error.isBlockHashNotFoundError : Error E → Bool
  | .subxtRuntimeError .blockNotFound => true
  | _ => false

inductive RetryPolicy (E : Type)
  | skip (e : Error E)
  | throw (e : Error E)
  deriving DecidableEq, Repr

/-! ### Calls -/

/-- What an attempt waits for, and its calls under no time limit. -/
inductive SubmissionCall
  | atLatest
  /-- The account's nonce in the storage of that block. -/
  | fetchAccount
  /-- What is done with the cached nonce while its write lock is held: the lock is dropped without a
  further wait. -/
  | writeNonce (update : UInt32 → UInt32 × UInt32)
  | createSignedWithNonce (nonce : UInt32)
  | submitAndWatch (nonce : UInt32)
  | waitForFinalizedSuccess (nonce : UInt32)
  | sendShutdown
  /-- The time to sleep before the next attempt, after which the answer comes; `false` when there is
  no next attempt. -/
  | nextBackoff

/-- The answers, with `V` for the events of an extrinsic. Where the time limit can be reached before
the answer, that is `none`. -/
@[reducible] def submissionApi (E V : Type) : Interface where
  Call := SubmissionCall
  Answer
    | .atLatest => Option (Except (SubxtError E) Unit)
    | .fetchAccount => Option (Except (SubxtError E) (Option UInt32))
    | .writeNonce _ => Option UInt32
    | .createSignedWithNonce _ => Except (SubxtError E) Unit
    | .submitAndWatch _ => Option (Except (SubxtError E) Unit)
    | .waitForFinalizedSuccess _ => Option (Except (SubxtError E) V)
    | .sendShutdown => Unit
    | .nextBackoff => Bool

/-- Why an attempt has no result: the time limit, or an error. -/
inductive Stopped (E : Type)
  | elapsed
  | failed (e : SubxtError E)
  deriving DecidableEq, Repr

/-- What runs under the time limit. -/
abbrev Timed (E V : Type) := ExceptT (Stopped E) (Prog (submissionApi E V))

abbrev ask (call : SubmissionCall) :
    Prog (submissionApi E V) ((submissionApi E V).Answer call) :=
  Prog.request (submissionApi E V) call

/-- An answer that the time limit may come before. -/
def beforeTimeout {A : Type} : Option A → Except (Stopped E) A
  | some a => .ok a
  | none => .error .elapsed

def orFail {A : Type} (x : Except (SubxtError E) A) : Except (Stopped E) A :=
  x.mapError .failed

/-! ### The program -/

def saturatingAdd (a b : UInt32) : UInt32 :=
  if a.toNat + b.toNat < 0x100000000 then a + b else 0xFFFFFFFF

/-- What `getFreshNonce` does under the write lock: the nonce that it returns and the next one. -/
def takeNonce (onChainNonce nextNonce : UInt32) : UInt32 × UInt32 :=
  let ret := if onChainNonce > nextNonce then onChainNonce else nextNonce
  (ret, saturatingAdd ret 1)

/-- The nonce read from the chain: a failed read and a missing account count as 0. -/
def onChainNonce (account : Except (SubxtError E) (Option UInt32)) : UInt32 :=
  (account.toOption.bind id).getD 0

def getFreshNonce : Timed E V UInt32 := do
  ExceptT.mk ((beforeTimeout · >>= orFail) <$> ask .atLatest)
  let account ← ExceptT.mk (beforeTimeout <$> ask .fetchAccount)
  ExceptT.mk (beforeTimeout <$> ask (.writeNonce (takeNonce (onChainNonce account))))

def submit : Timed E V V := do
  let nonce ← getFreshNonce
  ExceptT.mk (orFail <$> ask (.createSignedWithNonce nonce))
  ExceptT.mk ((beforeTimeout · >>= orFail) <$> ask (.submitAndWatch nonce))
  ExceptT.mk ((beforeTimeout · >>= orFail) <$> ask (.waitForFinalizedSuccess nonce))

abbrev Rpc (E V : Type) := ExceptT (Error E) (Prog (submissionApi E V))

def attempt : Rpc E V V := do
  match ← ExceptT.lift submit.run with
  | .error .elapsed =>
    ExceptT.lift (ask .sendShutdown)
    throw .timeout
  | .error (.failed e) => throw (.subxtRuntimeError e)
  | .ok events => return events

def verify : Except (Error E) V → Except (RetryPolicy E) V
  | .ok te => .ok te
  | .error err =>
    match err.isInvalidTransaction with
    | some data => .error (.skip (.invalidTransaction data))
    | none =>
      if err.isPoolTooLowPriority.isSome then .error (.skip .poolTooLowPriority)
      else if err.isBlockHashNotFoundError then .error (.skip .blockHashNotFound)
      else .error (.throw err)

/-- One round of `notifyRetry`. -/
def retryRound {A : Type} (call : Rpc E V A)
    (verify : Except (Error E) A → Except (RetryPolicy E) A) (_ : Unit) : Rpc E V (Unit ⊕ A) := do
  match verify (← ExceptT.lift call.run) with
  | .ok a => return .inr a
  | .error (.throw e) => throw e
  | .error (.skip _) =>
    if ← ExceptT.lift (ask .nextBackoff) then return .inl ()
    else throw .timeout

/-- `none` is a call that is still retried after `fuel` attempts. -/
def notifyRetry {A : Type} (call : Rpc E V A)
    (verify : Except (Error E) A → Except (RetryPolicy E) A) (fuel : Nat) : Rpc E V (Option A) :=
  Prog.iterate (retryRound call verify) fuel ()

def withUniqueSigner (fuel : Nat) : Rpc E V (Option V) := notifyRetry attempt verify fuel

/-! ### The nonce taken under the lock -/

theorem eq_max_of_full {nonce : UInt32} (h : ¬nonce.toNat + (1 : UInt32).toNat < 0x100000000) :
    nonce = 0xFFFFFFFF := by
  have hlt := nonce.toNat_lt
  apply UInt32.toNat_inj.mp
  change ¬nonce.toNat + 1 < 4294967296 at h
  change nonce.toNat = 4294967295
  omega

theorem saturatingAdd_one (nonce : UInt32) :
    nonce ≤ saturatingAdd nonce 1 ∧ (nonce ≠ 0xFFFFFFFF → nonce < saturatingAdd nonce 1) := by
  unfold saturatingAdd
  split
  next hfits =>
    have hsucc : (nonce + 1).toNat = nonce.toNat + 1 := by
      rw [UInt32.toNat_add]
      exact Nat.mod_eq_of_lt hfits
    rw [UInt32.le_iff_toNat_le, UInt32.lt_iff_toNat_lt, hsucc]
    exact ⟨Nat.le_succ _, fun _ => Nat.lt_succ_self _⟩
  next hfull =>
    obtain rfl := eq_max_of_full hfull
    exact ⟨UInt32.le_refl _, fun hne => absurd rfl hne⟩

theorem lt_or_eq_of_lt_add_one {k nonce : UInt32} (h : k < nonce + 1) : k < nonce ∨ k = nonce := by
  rw [UInt32.lt_iff_toNat_lt, UInt32.toNat_add] at h
  have hmod := Nat.mod_le (nonce.toNat + (1 : UInt32).toNat) 4294967296
  have hone : (1 : UInt32).toNat = 1 := rfl
  rw [UInt32.lt_iff_toNat_lt, ← UInt32.toNat_inj]
  omega

theorem lt_or_eq_of_lt_saturatingAdd {k nonce : UInt32} (h : k < saturatingAdd nonce 1) :
    k < nonce ∨ k = nonce := by
  unfold saturatingAdd at h
  split at h
  next => exact lt_or_eq_of_lt_add_one h
  next hfull =>
    rw [eq_max_of_full hfull]
    exact .inl h

/-- The nonce is at least the one on the chain and the cached one. -/
theorem le_takeNonce (onChain next : UInt32) :
    onChain ≤ (takeNonce onChain next).1 ∧ next ≤ (takeNonce onChain next).1 := by
  dsimp only [takeNonce]
  split
  next hlt => exact ⟨UInt32.le_refl _, UInt32.le_of_lt hlt⟩
  next hle => exact ⟨UInt32.not_lt.mp hle, UInt32.le_refl _⟩

end InterBtcClients.Runtime.Submission
