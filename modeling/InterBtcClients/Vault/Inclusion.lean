import InterBtcClients.Bitcoin.Core
import InterBtcClients.Library.Interleave
import InterBtcClients.Library.Loop
import InterBtcClients.Vault.Recognition

/-! The wait for a payment to be included in the bitcoin chain, while its fee is raised as the fee
rates rise: the wait is always for the latest version of the payment, and the miners may take
another one. -/

namespace InterBtcClients.Vault.Inclusion

open Library Bitcoin InterBtcClients.Runtime
open Execution (Request)
open Light (SatPerVbyte)
open Recognition (openRedeem)

/-! ### The program -/

/-- A fixed point number, by its numerator. -/
structure FixedU128 where
  inner : Nat
  deriving DecidableEq, Repr

def FixedU128.accuracy : Nat := 10 ^ 18

/-- What the next update of the fee rate is waited for with, in turn. -/
inductive Query
  /-- Of the subscription, which ends when its channel is closed. -/
  | feeRateUpdate
  | feeRate (txid : Txid)
  | isInMempool (txid : Txid)

@[reducible] def Query.Answer (E : Type) : Query → Type
  | .feeRateUpdate => Option (Except E FixedU128)
  | .feeRate _ => Except E SatPerVbyte
  | .isInMempool _ => Except E Bool

inductive Call
  /-- `select` of the transaction's metadata, once it has the number of confirmations, and of the
  answer to a query. -/
  | select (txid : Txid) (numConfirmations : UInt32) (query : Query)
  | bumpFee (txid : Txid) (address : Address) (feeRate : SatPerVbyte)
  | waitForBlockInRelay (blockHash : BlockHash) (numConfirmations : UInt32)
  | sleep

@[reducible] def api (E : Type) : Interface where
  Call := Call
  Answer
    | .select _ _ query => Except E TransactionMetadata ⊕ query.Answer E
    | .bumpFee _ _ _ => Except E Txid
    | .waitForBlockInRelay _ _ => Except E Unit
    | .sleep => Unit

/-- The errors of the parachain's client that matter here. -/
structure RuntimeErrors (E : Type) where
  channelClosed : E
  isInvalidChainId : E → Bool

variable {E : Type}

abbrev ask (call : Call) : Prog (api E) ((api E).Answer call) := Prog.request (api E) call

/-- What a round of the wait ends with: the transaction to wait for next, or the result. -/
abbrev Round (E : Type) := Txid ⊕ Except (Error E) TransactionMetadata

def toFeeRate (x : FixedU128) : Except (Error E) SatPerVbyte := do
  let x ← okOr .arithmeticUnderflow (checkedDiv x.inner FixedU128.accuracy)
  if x < 2 ^ 64 then return x.toUInt64 else throw .tryIntoIntError

section Program

variable (lib : Lib E) (errors : RuntimeErrors E) (network : Network)
variable (request : Request) (numConfirmations : UInt32) (autoRbf : Bool) (txid : Txid)

/-- The round ends with the metadata when the relay has its block.  A block that is not in the main
chain has been left by the transaction, which may be in another one. -/
def awaitRelay : Except E TransactionMetadata → Prog (api E) (Round E)
  | .error e => return .inr (.error (.rpc e))
  | .ok txMetadata => do
    match ← ask (.waitForBlockInRelay txMetadata.blockHash numConfirmations) with
    | .ok _ => return .inr (.ok txMetadata)
    | .error e =>
      if errors.isInvalidChainId e then
        ask .sleep
        return .inl txid
      else return .inr (.error (.rpc e))

/-- The metadata, if it is there first, else what `next` makes of the answer. -/
def select (query : Query) (next : query.Answer E → Prog (api E) (Round E)) :
    Prog (api E) (Round E) := do
  match ← ask (.select txid numConfirmations query) with
  | .inl result => awaitRelay errors numConfirmations txid result
  | .inr r => next r

/-- The next round waits for the replacement, if there is one. -/
def bump : Except (Error E) (SatPerVbyte × SatPerVbyte) → Prog (api E) (Round E)
  | .error _ => return .inl txid
  | .ok (_, newFee) =>
    match request.btcAddress.toAddress lib network with
    | .error e => return .inr (.error (.rpc e))
    | .ok address => do
      match ← ask (.bumpFee txid address newFee) with
      | .ok newTxid => return .inl newTxid
      | .error _ => return .inl txid

/-- An update is passed on unless the transaction has left the mempool. -/
def propagate (item : Except (Error E) (SatPerVbyte × SatPerVbyte)) : Prog (api E) (Round E) :=
  select errors numConfirmations txid (.isInMempool txid) fun
    | .ok false => return .inl txid
    | .ok true => bump lib network request txid item
    | .error e => bump lib network request txid (.error (.rpc e))

/-- One round of the wait for a transaction: an update that is filtered out and a bump that fails
leave the transaction as it is. -/
def waitRound : Prog (api E) (Round E) :=
  select errors numConfirmations txid .feeRateUpdate fun
    | none => return .inr (.error (.rpc errors.channelClosed))
    | some update =>
      let item := (update.mapError .rpc).bind toFeeRate
      if autoRbf then
        match item with
        | .error e => propagate lib errors network request numConfirmations txid (.error e)
        | .ok newFee =>
          select errors numConfirmations txid (.feeRate txid) fun
            | .error _ => return .inl txid
            | .ok currentFee =>
              if newFee > currentFee then
                propagate lib errors network request numConfirmations txid
                  (.ok (currentFee, newFee))
              else return .inl txid
      else return .inl txid

end Program

/-! ### The chains -/

/-- The version that is in the final chain with enough confirmations.  The wait for its metadata
finds it at its next attempt, before which so many queries can still be answered. -/
structure Confirmed where
  txid : Txid
  blockHash : BlockHash
  queries : Nat

/-- The versions of the payment that have been broadcast, the first one first. -/
structure World where
  versions : List Txid
  confirmed : Option Confirmed

/-- When a version is confirmed, none is in the mempool. -/
def Query.Settled : (query : Query) → query.Answer E → Prop
  | .feeRateUpdate, r => r ≠ none
  | .feeRate _, _ => True
  | .isInMempool _, r => r = .ok false

/-- Whatever is answered while no version is confirmed for good, only that version's metadata is
found from then on, and no version is replaced. -/
def chainEnv (errors : RuntimeErrors E) : Prog.Env (api E) World
  | w, .select txid _ _, .inl (.ok txMetadata), w' =>
    txMetadata.txid = txid ∧ w' = w ∧ ∀ confirmed, w.confirmed = some confirmed →
      confirmed.txid = txid ∧ txMetadata.blockHash = confirmed.blockHash
  | w, .select txid _ _, .inl (.error _), w' =>
    w' = w ∧ ∀ confirmed, w.confirmed = some confirmed → confirmed.txid ≠ txid
  | w, .select txid _ query, .inr r, w' =>
    w'.versions = w.versions ∧ match w.confirmed with
      | none => w'.confirmed = none
      | some confirmed => query.Settled r ∧ ∃ queries ≤ confirmed.queries,
        w'.confirmed = some { confirmed with queries } ∧
          (confirmed.txid = txid → queries < confirmed.queries)
  | w, .bumpFee _ _ _, .ok newTxid, w' =>
    w.confirmed = none ∧ w' = { w with versions := w.versions ++ [newTxid] }
  | w, .bumpFee _ _ _, .error _, w' => w' = w
  | w, .waitForBlockInRelay _ _, .ok _, w' => w' = w
  | w, .waitForBlockInRelay blockHash _, .error e, w' =>
    w' = w ∧ ∀ confirmed, w.confirmed = some confirmed →
      blockHash ≠ confirmed.blockHash ∧ errors.isInvalidChainId e
  | w, .sleep, _, w' => w' = w

/-- The miners may have one of the versions confirmed. -/
inductive Confirms (w : World) : World → Prop
  | none : Confirms w w
  | version {confirmed : Confirmed} : w.confirmed = Option.none → confirmed.txid ∈ w.versions →
      Confirms w { w with confirmed }

abbrev mining (errors : RuntimeErrors E) : Prog.Env (api E) World :=
  Prog.interfere Confirms (chainEnv errors)

/-! ### The version that is waited for -/

/-- The call returns the version's metadata. -/
def Returned (txid : Txid) (result : Except (Error E) TransactionMetadata) : Prop :=
  ∃ txMetadata, result = .ok txMetadata ∧ txMetadata.txid = txid

/-- The wait is for the version that has been broadcast last. -/
def Latest (txid : Txid) (w : World) : Prop := w.versions.getLast? = some txid

/-- A result after the confirmation is the metadata of the confirmed version just when that is the
latest one. -/
def Result (result : Except (Error E) TransactionMetadata) (w : World) : Prop :=
  ∀ confirmed, w.confirmed = some confirmed →
    (Returned confirmed.txid result ↔ Latest confirmed.txid w)

section Rounds

variable {lib : Lib E} {errors : RuntimeErrors E} {network : Network} {request : Request}
variable {numConfirmations : UInt32} {autoRbf : Bool} {txid : Txid} {w w' : World}

theorem Latest.eq {txid' : Txid} (h : Latest txid w) (h' : Latest txid' w) : txid' = txid :=
  Option.some.inj (h'.symm.trans h)

theorem Confirms.versions (h : Confirms w w') : w'.versions = w.versions := by
  cases h <;> rfl

theorem Confirms.trans {w'' : World} (h : Confirms w w') (h' : Confirms w' w'') :
    Confirms w w'' := by
  cases h' with
  | none => exact h
  | version hnone hmem =>
    cases h with
    | none => exact .version hnone hmem
    | version => cases hnone

/-- A failure leaves the wait without a confirmed version, or with another one. -/
theorem result_error {e : Error E} (h : Latest txid w)
    (hother : ∀ confirmed, w.confirmed = some confirmed → confirmed.txid ≠ txid) :
    Result (.error e : Except (Error E) TransactionMetadata) w := by
  refine fun confirmed hconfirmed => ⟨?_, fun hlatest => ?_⟩
  · rintro ⟨_, herror, _⟩
    cases herror
  · exact absurd (h.eq hlatest) (hother confirmed hconfirmed)

theorem result_ok {txMetadata : TransactionMetadata} (h : Latest txMetadata.txid w) :
    Result (.ok txMetadata : Except (Error E) TransactionMetadata) w := by
  refine fun confirmed _ => ⟨?_, fun hlatest => ⟨txMetadata, rfl, (h.eq hlatest).symm⟩⟩
  rintro ⟨_, hok, htxid⟩
  cases hok
  rwa [← htxid]

variable (numConfirmations) in
theorem keeps_awaitRelay (result : Except E TransactionMetadata) (h : Latest txid w)
    (hok : ∀ txMetadata, result = .ok txMetadata → txMetadata.txid = txid)
    (herror : ∀ e, result = .error e →
      ∀ confirmed, w.confirmed = some confirmed → confirmed.txid ≠ txid) :
    Prog.Keeps (mining errors) (fun _ => True) (awaitRelay errors numConfirmations txid result)
      (Sum.elim Latest Result) w := by
  cases result with
  | error e => exact ⟨trivial, result_error h (herror e rfl)⟩
  | ok txMetadata =>
    refine ⟨trivial, fun r w' hr => ?_⟩
    obtain ⟨w₁, hconfirms, hanswer⟩ := hr
    have hlatest : Latest txid w₁ := by rwa [Latest, hconfirms.versions]
    cases r with
    | ok _ =>
      cases hanswer
      rw [← hok txMetadata rfl] at hlatest
      exact ⟨trivial, result_ok hlatest⟩
    | error e =>
      obtain ⟨rfl, hother⟩ := hanswer
      change Prog.Keeps _ _ (if _ then _ else _) _ _
      split
      next =>
        refine ⟨trivial, fun r w'' hr => ?_⟩
        obtain ⟨w₂, hconfirms', rfl⟩ := hr
        refine ⟨trivial, ?_⟩
        rwa [Sum.elim_inl, Latest, hconfirms'.versions]
      next hchain =>
        exact ⟨trivial, result_error hlatest fun confirmed hconfirmed =>
          absurd (hother confirmed hconfirmed).2 hchain⟩

theorem keeps_select {query : Query} {next : query.Answer E → Prog (api E) (Round E)}
    (h : Latest txid w)
    (hnext : ∀ r w', Latest txid w' → (w'.confirmed = none ∨ query.Settled r) →
      Prog.Keeps (mining errors) (fun _ => True) (next r) (Sum.elim Latest Result) w') :
    Prog.Keeps (mining errors) (fun _ => True) (select errors numConfirmations txid query next)
      (Sum.elim Latest Result) w := by
  refine ⟨trivial, fun r w' hr => ?_⟩
  obtain ⟨w₁, hconfirms, hanswer⟩ := hr
  have hlatest : Latest txid w₁ := by rwa [Latest, hconfirms.versions]
  match r, hanswer with
  | .inl (.ok txMetadata), ⟨htxid, hsame, _⟩ =>
    subst hsame
    exact keeps_awaitRelay numConfirmations (.ok txMetadata) hlatest
      (fun _ hok => Except.ok.inj hok ▸ htxid) nofun
  | .inl (.error e), ⟨hsame, hother⟩ =>
    subst hsame
    exact keeps_awaitRelay numConfirmations (.error e) hlatest nofun fun _ _ => hother
  | .inr r, ⟨hversions, hanswer⟩ =>
    refine hnext r w' (by rwa [Latest, hversions]) ?_
    split at hanswer
    next => exact .inl hanswer
    next => exact .inr hanswer.1

theorem keeps_bump {item : Except (Error E) (SatPerVbyte × SatPerVbyte)} (h : Latest txid w)
    (hunconfirmed : (∃ fees, item = .ok fees) → w.confirmed = none) :
    Prog.Keeps (mining errors) (fun _ => True) (bump lib network request txid item)
      (Sum.elim Latest Result) w := by
  cases item with
  | error e => exact ⟨trivial, h⟩
  | ok fees =>
    unfold bump
    cases request.btcAddress.toAddress lib network with
    | error e =>
      refine ⟨trivial, result_error h fun confirmed hconfirmed => ?_⟩
      rw [hunconfirmed ⟨fees, rfl⟩] at hconfirmed
      cases hconfirmed
    | ok address =>
      refine ⟨trivial, fun r w' hr => ?_⟩
      obtain ⟨w₁, hconfirms, hanswer⟩ := hr
      cases r with
      | ok newTxid =>
        obtain ⟨-, rfl⟩ := hanswer
        exact ⟨trivial, List.getLast?_concat⟩
      | error e =>
        cases hanswer
        refine ⟨trivial, ?_⟩
        rwa [Sum.elim_inl, Latest, hconfirms.versions]

theorem keeps_propagate (item : Except (Error E) (SatPerVbyte × SatPerVbyte)) (h : Latest txid w) :
    Prog.Keeps (mining errors) (fun _ => True)
      (propagate lib errors network request numConfirmations txid item)
      (Sum.elim Latest Result) w := by
  refine keeps_select h fun r w' hlatest hsettled => ?_
  match r, hsettled with
  | .ok false, _ => exact ⟨trivial, hlatest⟩
  | .ok true, hsettled =>
    exact keeps_bump hlatest fun _ => hsettled.resolve_right nofun
  | .error e, _ => exact keeps_bump hlatest nofun

variable (lib errors network request numConfirmations autoRbf) in
theorem keeps_waitRound (h : Latest txid w) :
    Prog.Keeps (mining errors) (fun _ => True)
      (waitRound lib errors network request numConfirmations autoRbf txid)
      (Sum.elim Latest Result) w := by
  refine keeps_select h fun r w₁ h₁ hsettled => ?_
  cases r with
  | none =>
    refine ⟨trivial, result_error h₁ fun confirmed hconfirmed => ?_⟩
    rcases hsettled with hnone | hopen
    · rw [hnone] at hconfirmed
      cases hconfirmed
    · exact absurd rfl hopen
  | some update =>
    dsimp only
    split
    next =>
      split
      next e _ => exact keeps_propagate _ h₁
      next newFee _ =>
        refine keeps_select h₁ fun r w₂ h₂ _ => ?_
        cases r with
        | error e => exact ⟨trivial, h₂⟩
        | ok currentFee =>
          dsimp only
          split
          · exact keeps_propagate _ h₂
          · exact ⟨trivial, h₂⟩
    next => exact ⟨trivial, h₁⟩

/-! ### The confirmed version -/

/-- The version is confirmed, and it is the latest one; that many queries can still be answered. -/
structure Settles (version : Txid) (queries : Nat) (w : World) : Prop where
  latest : Latest version w
  confirmed : ∃ confirmed, w.confirmed = some confirmed ∧ confirmed.txid = version ∧
    confirmed.queries ≤ queries

theorem eq_of_confirms {confirmed : Confirmed} (h : w.confirmed = some confirmed)
    (hconfirms : Confirms w w') : w' = w := by
  cases hconfirms with
  | none => rfl
  | version hnone _ =>
    rw [hnone] at h
    cases h

/-- Nothing is broadcast or confirmed after a confirmation. -/
theorem confirmed_of_mining {confirmed : Confirmed} {call : Call} {r : (api E).Answer call}
    (h : w.confirmed = some confirmed) (hr : mining errors w call r w') :
    w'.versions = w.versions ∧
      ∃ queries ≤ confirmed.queries, w'.confirmed = some { confirmed with queries } := by
  obtain ⟨w₁, hconfirms, hanswer⟩ := hr
  cases eq_of_confirms h hconfirms
  have hsame (hw' : w' = w) : w'.versions = w.versions ∧
      ∃ queries ≤ confirmed.queries, w'.confirmed = some { confirmed with queries } := by
    subst hw'
    exact ⟨rfl, confirmed.queries, Nat.le_refl _, h⟩
  cases call with
  | select txid numConfirmations query =>
    match r, hanswer with
    | .inl (.ok _), ⟨_, hw', _⟩ => exact hsame hw'
    | .inl (.error _), ⟨hw', _⟩ => exact hsame hw'
    | .inr r, ⟨hversions, hanswer⟩ =>
      rw [h] at hanswer
      obtain ⟨-, queries, hle, hconfirmed, -⟩ := hanswer
      exact ⟨hversions, queries, hle, hconfirmed⟩
  | bumpFee txid address feeRate =>
    match r, hanswer with
    | .ok _, ⟨hnone, _⟩ =>
      rw [h] at hnone
      cases hnone
    | .error _, hw' => exact hsame hw'
  | waitForBlockInRelay blockHash numConfirmations =>
    match r, hanswer with
    | .ok _, hw' => exact hsame hw'
    | .error _, ⟨hw', _⟩ => exact hsame hw'
  | sleep => exact hsame hanswer

theorem Settles.answered {version : Txid} {queries : Nat} {call : Call} {r : (api E).Answer call}
    (h : Settles version queries w) (hr : mining errors w call r w') :
    Settles version queries w' := by
  obtain ⟨confirmed, hconfirmed, hversion, hqueries⟩ := h.confirmed
  obtain ⟨hversions, queries', hle, hconfirmed'⟩ := confirmed_of_mining hconfirmed hr
  exact ⟨by rw [Latest, hversions, h.latest], _, hconfirmed', hversion, hle.trans hqueries⟩

/-- What is left of a round ends with the version or with its metadata. -/
theorem Settles.round {version : Txid} {queries : Nat} {p : Prog (api E) (Round E)}
    (h : Settles version queries w)
    (hp : Prog.Keeps (mining errors) (fun _ => True) p (Sum.elim Latest Result) w) :
    Prog.Keeps (mining errors) (fun _ => True) p
      (Sum.elim (fun txid w' => txid = version ∧ Settles version queries w')
        fun result _ => Returned version result) w := by
  refine (hp.frame (fun _ _ _ _ h hr => h.answered hr) h).mono fun r w' _ hr => ?_
  obtain ⟨hr, hsettles⟩ := hr
  obtain ⟨confirmed, hconfirmed, hversion, -⟩ := hsettles.confirmed
  cases r with
  | inl txid => exact ⟨hsettles.latest.eq hr, hsettles⟩
  | inr result =>
    have hresult := (hr confirmed hconfirmed).mpr (by rw [hversion]; exact hsettles.latest)
    rwa [hversion] at hresult

/-- The number of queries that can still be answered. -/
def queriesLeft (w : World) : Nat := (w.confirmed.map Confirmed.queries).getD 0

/-- When the confirmed version is waited for, its metadata is found, or one query fewer is left. -/
theorem keeps_waitRound_settles {version : Txid} {queries : Nat}
    (h : Settles version queries w) :
    Prog.Keeps (mining errors) (fun _ => True)
      (waitRound lib errors network request numConfirmations autoRbf version)
      (Sum.elim (fun txid w' => (txid = version ∧ ∃ queries, Settles version queries w') ∧
        queriesLeft w' < queriesLeft w) fun result _ => Returned version result) w := by
  have hround := keeps_waitRound lib errors network request numConfirmations autoRbf h.latest
  refine ⟨trivial, fun r w' hr => ?_⟩
  have hrest := hround.2 r w' hr
  obtain ⟨confirmed, hconfirmed, hversion, -⟩ := h.confirmed
  obtain ⟨w₁, hconfirms, hanswer⟩ := hr
  cases eq_of_confirms hconfirmed hconfirms
  match r, hanswer with
  | .inl (.ok txMetadata), ⟨htxid, hw', hfinal⟩ =>
    subst hw'
    refine ⟨trivial, fun r w' hr => ?_⟩
    obtain ⟨w₁, hconfirms, hanswer⟩ := hr
    cases eq_of_confirms hconfirmed hconfirms
    match r, hanswer with
    | .ok _, _ => exact ⟨trivial, txMetadata, rfl, htxid⟩
    | .error _, ⟨_, hother⟩ =>
      exact absurd (hfinal confirmed hconfirmed).2 (hother confirmed hconfirmed).1
  | .inl (.error e), ⟨_, hother⟩ => exact absurd hversion (hother confirmed hconfirmed)
  | .inr r, ⟨hversions, hanswer⟩ =>
    rw [hconfirmed] at hanswer
    obtain ⟨-, queries', -, hconfirmed', hlt⟩ := hanswer
    have hsettles : Settles version queries' w' := ⟨by rw [Latest, hversions, h.latest],
      _, hconfirmed', hversion, Nat.le_refl _⟩
    refine (hsettles.round hrest).mono fun r w'' _ hr => ?_
    cases r with
    | inl txid =>
      obtain ⟨htxid, hsettles⟩ := hr
      obtain ⟨confirmed'', hconfirmed'', -, hle⟩ := hsettles.confirmed
      refine ⟨⟨htxid, queries', hsettles⟩, ?_⟩
      have hlt := hlt hversion
      simp only [queriesLeft, hconfirmed, hconfirmed'', Option.map_some, Option.getD_some]
      omega
    | inr result => exact hr

theorem exists_answer (errors : RuntimeErrors E) (w : World) (call : Call) :
    ∃ r w', mining errors w call r w' := by
  suffices ∃ r w', chainEnv errors w call r w' by
    obtain ⟨r, w', hanswer⟩ := this
    exact ⟨r, w', w, .none, hanswer⟩
  cases call with
  | select txid numConfirmations query =>
    cases hconfirmed : w.confirmed with
    | none =>
      refine ⟨.inl (.ok ⟨txid, ⟨[], [], [], []⟩, 0, none⟩), w, rfl, rfl, fun confirmed h => ?_⟩
      rw [hconfirmed] at h
      cases h
    | some confirmed =>
      by_cases htxid : confirmed.txid = txid
      · refine ⟨.inl (.ok ⟨txid, ⟨[], [], [], []⟩, confirmed.blockHash, none⟩), w, rfl, rfl, ?_⟩
        intro confirmed' h
        cases hconfirmed.symm.trans h
        exact ⟨htxid, rfl⟩
      · refine ⟨.inl (.error errors.channelClosed), w, rfl, fun confirmed' h => ?_⟩
        cases hconfirmed.symm.trans h
        exact htxid
  | bumpFee txid address feeRate => exact ⟨.error errors.channelClosed, w, rfl⟩
  | waitForBlockInRelay blockHash numConfirmations => exact ⟨.ok (), w, rfl⟩
  | sleep => exact ⟨(), w, rfl⟩

section Ends

variable {p : Prog (api E) (Round E)} {confirmed : Confirmed}

/-- What is left of a round is not disturbed by the confirmation. -/
theorem keeps_of_confirms
    (hp : Prog.Keeps (mining errors) (fun _ => True) p (Sum.elim Latest Result) w)
    (hwaiting : ∀ result, p ≠ .pure (.inr result)) (hconfirms : Confirms w w') :
    Prog.Keeps (mining errors) (fun _ => True) p (Sum.elim Latest Result) w' := by
  match p, hwaiting, hp with
  | .pure (.inl txid), _, hp =>
    refine ⟨trivial, ?_⟩
    rw [Sum.elim_inl, Latest, hconfirms.versions]
    exact hp.2
  | .pure (.inr result), hwaiting, _ => exact absurd rfl (hwaiting result)
  | .call call next, _, hp =>
    refine ⟨trivial, fun r w'' hr => hp.2 r w'' ?_⟩
    obtain ⟨w₁, hconfirms', hanswer⟩ := hr
    exact ⟨w₁, hconfirms.trans hconfirms', hanswer⟩

/-- In a run that returns the metadata of the confirmed version, that was the latest one already. -/
theorem latest_of_loopEnds
    (hp : Prog.Keeps (mining errors) (fun _ => True) p (Sum.elim Latest Result) w)
    (hconfirmed : w.confirmed = some confirmed)
    (hends : Prog.LoopEnds (mining errors)
      (waitRound lib errors network request numConfirmations autoRbf)
      (fun result _ => Returned confirmed.txid result) p w) : Latest confirmed.txid w := by
  obtain ⟨result, w', hruns, hreturned⟩ := hends.returns
  have hfinal : w'.versions = w.versions ∧
      ∃ queries, w'.confirmed = some { confirmed with queries } :=
    hruns.inv (I := fun w' => w'.versions = w.versions ∧
      ∃ queries, w'.confirmed = some { confirmed with queries }) (fun _ _ _ _ h hr => by
        obtain ⟨hversions, queries, hconfirmed⟩ := h
        obtain ⟨hversions', queries', -, hconfirmed'⟩ := confirmed_of_mining hconfirmed hr
        exact ⟨hversions'.trans hversions, queries', hconfirmed'⟩)
      ⟨rfl, confirmed.queries, hconfirmed⟩
  obtain ⟨hversions, queries, hconfirmed'⟩ := hfinal
  have hresult : Result result w' := (hp.loopRuns (fun _ _ _ h =>
    keeps_waitRound lib errors network request numConfirmations autoRbf h) hruns).2
  have hlatest := (hresult _ hconfirmed').mp hreturned
  rwa [Latest, hversions] at hlatest

theorem loopEnds_of_latest
    (hp : Prog.Keeps (mining errors) (fun _ => True) p (Sum.elim Latest Result) w)
    (hconfirmed : w.confirmed = some confirmed) (hlatest : Latest confirmed.txid w) :
    Prog.LoopEnds (mining errors) (waitRound lib errors network request numConfirmations autoRbf)
      (fun result _ => Returned confirmed.txid result) p w := by
  have hsettles : Settles confirmed.txid confirmed.queries w :=
    ⟨hlatest, confirmed, hconfirmed, rfl, Nat.le_refl _⟩
  refine .of_keeps (J := fun txid w => txid = confirmed.txid ∧
    ∃ queries, Settles confirmed.txid queries w) (fun w call _ => exists_answer errors w call)
    queriesLeft (fun txid w _ h => ?_) ((hsettles.round hp).mono fun r w' _ hr => ?_)
  · obtain ⟨rfl, queries, h⟩ := h
    exact keeps_waitRound_settles h
  · cases r with
    | inl txid => exact ⟨hr.1, confirmed.queries, hr.2⟩
    | inr result => exact hr

end Ends

/-- Once a version is confirmed for good, a call that is still waiting returns its metadata, however
long it takes and whatever else happens, just when no later version has been broadcast. -/
theorem loopEnds_iff (lib : Lib E) (errors : RuntimeErrors E) (network : Network)
    (request : Request) (numConfirmations : UInt32) (autoRbf : Bool) (txid : Txid)
    {p : Prog (api E) (Round E)} {w w' : World} {confirmed : Confirmed}
    (hruns : Prog.LoopRuns (mining errors)
      (waitRound lib errors network request numConfirmations autoRbf)
      (waitRound lib errors network request numConfirmations autoRbf txid) ⟨[txid], none⟩ p w)
    (hwaiting : ∀ result, p ≠ .pure (.inr result)) (hconfirms : Confirms w w')
    (hconfirmed : w'.confirmed = some confirmed) :
    Prog.LoopEnds (mining errors) (waitRound lib errors network request numConfirmations autoRbf)
      (fun result _ => Returned confirmed.txid result) p w' ↔ Latest confirmed.txid w' := by
  have hround (txid : Txid) (w : World) (_ : True) (h : Latest txid w) :=
    keeps_waitRound lib errors network request numConfirmations autoRbf h
  have hp := (hround txid ⟨[txid], none⟩ trivial rfl).loopRuns hround hruns
  have hp' := keeps_of_confirms hp hwaiting hconfirms
  exact ⟨latest_of_loopEnds hp' hconfirmed, loopEnds_of_latest hp' hconfirmed⟩

end Rounds

/-! ### A version that is mined after it has been replaced -/

def parachainErrors : RuntimeErrors String := ⟨"channel closed", fun e => e = "invalid chain"⟩

/-- The rounds of the wait for the redeem payment. -/
abbrev redeemRound : Txid → Prog (api String) (Round String) :=
  waitRound Light.twoPayments parachainErrors .regtest openRedeem 6 true

/-- The fee rate rises from 10 to 20 satoshi per virtual byte, and the payment is replaced. -/
theorem loopRuns_replaced : Prog.LoopRuns (mining parachainErrors) redeemRound
    (redeemRound Light.firstTxid) ⟨[Light.firstTxid], none⟩ (.pure (.inl Light.secondTxid))
    ⟨[Light.firstTxid, Light.secondTxid], none⟩ := by
  let w : World := ⟨[Light.firstTxid], none⟩
  have hupdate : mining parachainErrors w (.select Light.firstTxid 6 .feeRateUpdate)
      (.inr (some (.ok ⟨20 * 10 ^ 18⟩))) w := ⟨w, .none, rfl, rfl⟩
  have hfeeRate : mining parachainErrors w (.select Light.firstTxid 6 (.feeRate Light.firstTxid))
      (.inr (.ok 10)) w := ⟨w, .none, rfl, rfl⟩
  have hmempool : mining parachainErrors w
      (.select Light.firstTxid 6 (.isInMempool Light.firstTxid)) (.inr (.ok true)) w :=
    ⟨w, .none, rfl, rfl⟩
  have hbump : mining parachainErrors w
      (.bumpFee Light.firstTxid (regtestAddress 0x7dd65592d0ab2fe0d0257d571abf032cd9db93dc) 20)
      (.ok Light.secondTxid) ⟨[Light.firstTxid, Light.secondTxid], none⟩ := ⟨w, .none, rfl, rfl⟩
  exact .step hupdate (.step hfeeRate (.step hmempool (.step hbump (.refl _ _))))

/-- The two versions, with one of them mined. -/
def minedVersion (txid : Txid) : World :=
  ⟨[Light.firstTxid, Light.secondTxid], some ⟨txid, 1, 3⟩⟩

/-- When the second version is mined, its metadata is returned. -/
theorem loopEnds_iff_secondVersion :
    Prog.LoopEnds (mining parachainErrors) redeemRound
        (fun result _ => Returned Light.secondTxid result) (.pure (.inl Light.secondTxid))
        (minedVersion Light.secondTxid) ↔
      Latest Light.secondTxid (minedVersion Light.secondTxid) := by
  have hmined : Confirms ⟨[Light.firstTxid, Light.secondTxid], none⟩
      (minedVersion Light.secondTxid) :=
    .version rfl (List.mem_cons_of_mem _ List.mem_cons_self)
  exact loopEnds_iff Light.twoPayments parachainErrors .regtest openRedeem 6 true Light.firstTxid
    loopRuns_replaced nofun hmined rfl

/-- When the first version is mined although it has been replaced, it may not be returned. -/
theorem not_loopEnds_firstVersion : ¬∀ (p : Prog (api String) (Round String)) (w w' : World)
    (confirmed : Confirmed), Prog.LoopRuns (mining parachainErrors) redeemRound
      (redeemRound Light.firstTxid) ⟨[Light.firstTxid], none⟩ p w →
    (∀ result, p ≠ .pure (.inr result)) → Confirms w w' → w'.confirmed = some confirmed →
    Prog.LoopEnds (mining parachainErrors) redeemRound
      (fun result _ => Returned confirmed.txid result) p w' := by
  intro hclaim
  have hmined : Confirms ⟨[Light.firstTxid, Light.secondTxid], none⟩
      (minedVersion Light.firstTxid) := .version rfl List.mem_cons_self
  have hends := hclaim _ _ _ _ loopRuns_replaced nofun hmined rfl
  have hp : Prog.Keeps (mining parachainErrors) (fun _ => True)
      (.pure (.inl Light.secondTxid) : Prog (api String) (Round String)) (Sum.elim Latest Result)
      (minedVersion Light.firstTxid) := ⟨trivial, rfl⟩
  have hlatest : Latest Light.firstTxid (minedVersion Light.firstTxid) :=
    latest_of_loopEnds hp rfl hends
  have hsecond : Latest Light.secondTxid (minedVersion Light.firstTxid) := rfl
  exact absurd (hsecond.eq hlatest) (by decide)

end InterBtcClients.Vault.Inclusion
