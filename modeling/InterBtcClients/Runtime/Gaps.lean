import InterBtcClients.Library.Pool
import InterBtcClients.Runtime.Submission
import Mathlib.Data.UInt

/-! The nonces that the submissions of one account leave unused: the cached nonce is advanced before
the submission is known to have entered the pool, so a rejected one leaves its nonce behind. -/

namespace InterBtcClients.Runtime.Submission

open Library

variable {ι E V : Type}

/-- An account: its nonce on the chain and those that it has had there, the nonces of the
submissions that the pool has accepted, the cached nonce, and the nonces that calls have obtained
and whose submission the node has not answered. An extrinsic is only included while its nonce is the
account's, so those below a nonce on the chain have been accepted. -/
structure Account (ι : Type) where
  onChain : UInt32
  seen : List UInt32
  accepted : List UInt32
  next : UInt32
  inFlight : ι → Option UInt32
  current : onChain ∈ seen
  included : ∀ nonce ∈ seen, ∀ k < nonce, k ∈ accepted

/-- A submission with this nonce has entered the pool. -/
def Account.enter (s : Account ι) (nonce : UInt32) : Account ι :=
  { s with
    accepted := nonce :: s.accepted
    included := fun n hn k hk => List.mem_cons_of_mem _ (s.included n hn k hk) }

/-- A fork has taken the chain to a block with this nonce. -/
def Account.retract (s : Account ι) {nonce : UInt32} (h : nonce ∈ s.seen) : Account ι :=
  { s with onChain := nonce, current := h }

/-- The extrinsic with the account's nonce has been included. -/
def Account.advance (s : Account ι) (h : s.onChain ∈ s.accepted) : Account ι :=
  { s with
    onChain := s.onChain + 1
    seen := (s.onChain + 1) :: s.seen
    current := List.mem_cons_self
    included := fun n hn k hk => by
      rcases List.mem_cons.mp hn with rfl | hn
      · rcases lt_or_eq_of_lt_add_one hk with hk | rfl
        · exact s.included _ s.current k hk
        · exact h
      · exact s.included n hn k hk }

/-- The steps of the chain and of the other clients of the account. -/
inductive ChainStep : Account ι → Account ι → Prop
  | enter (s : Account ι) (nonce : UInt32) : ChainStep s (s.enter nonce)
  | advance (s : Account ι) (h : s.onChain ∈ s.accepted) : ChainStep s (s.advance h)
  | retract (s : Account ι) {nonce : UInt32} (h : nonce ∈ s.seen) : ChainStep s (s.retract h)

/-- What a call relies on: the others leave its nonce to it, and what has been accepted stays so. -/
structure Relies (i : ι) (s s' : Account ι) : Prop where
  inFlight : s'.inFlight i = s.inFlight i
  seen : s.seen ⊆ s'.seen
  accepted : s.accepted ⊆ s'.accepted

/-- Every nonce below the cached one has been accepted or is on its way. -/
def Covered (s : Account ι) : Prop :=
  ∀ k < s.next, k ∈ s.accepted ∨ ∃ i, s.inFlight i = some k

/-- What a call guarantees. -/
structure Grants (i : ι) (s s' : Account ι) : Prop where
  relies : ∀ j, j ≠ i → Relies j s s'
  covered : Covered s → Covered s'

variable {i : ι} {s s' s'' : Account ι} {nonce : UInt32}

theorem Relies.refl (i : ι) (s : Account ι) : Relies i s s :=
  ⟨rfl, List.Subset.refl _, List.Subset.refl _⟩

theorem Relies.trans (h : Relies i s s') (h' : Relies i s' s'') : Relies i s s'' :=
  ⟨h'.inFlight.trans h.inFlight, List.Subset.trans h.seen h'.seen,
    List.Subset.trans h.accepted h'.accepted⟩

theorem Grants.refl (i : ι) (s : Account ι) : Grants i s s := ⟨fun j _ => .refl j s, id⟩

theorem Grants.trans (h : Grants i s s') (h' : Grants i s' s'') : Grants i s s'' :=
  ⟨fun j hne => (h.relies j hne).trans (h'.relies j hne),
    fun hcovered => h'.covered (h.covered hcovered)⟩

theorem Covered.enter (h : Covered s) (nonce : UInt32) : Covered (s.enter nonce) := by
  intro k hk
  rcases h k hk with hk | hk
  · exact .inl (List.mem_cons_of_mem _ hk)
  · exact .inr hk

theorem grants_enter (nonce : UInt32) : Grants i s (s.enter nonce) where
  relies _ _ := ⟨rfl, List.Subset.refl _, List.subset_cons_self _ _⟩
  covered h := h.enter nonce

variable [DecidableEq ι]

/-- The call has obtained a nonce, or its submission has ended. -/
def Account.flight (s : Account ι) (i : ι) (nonce : Option UInt32) : Account ι :=
  { s with inFlight := Function.update s.inFlight i nonce }

/-- The surroundings of one call: the storage has some nonce that the account has had, and a
submission that is not signed, or gets no answer or an error, may have a nonce that the pool has not
accepted only where `rejects` allows it. -/
def accountEnv (rejects : Account ι → UInt32 → Prop) (i : ι) :
    Prog.Env (submissionApi E V) (Account ι)
  | s, .fetchAccount, r, s' =>
    s' = s ∧ ∀ nonce, r = some (.ok (some nonce)) → nonce ∈ s.seen
  | s, .writeNonce update, r, s' =>
    r = none ∧ s' = s ∨ r = some (update s.next).1 ∧
      s' = { s with next := (update s.next).2 }.flight i (some (update s.next).1)
  | s, .createSignedWithNonce nonce, r, s' =>
    r = .ok () ∧ s' = s ∨ (∃ e, r = .error e) ∧ rejects s nonce ∧ s' = s.flight i none
  | s, .submitAndWatch nonce, r, s' =>
    s' = (s.enter nonce).flight i none ∨
      r ≠ some (.ok ()) ∧ rejects s nonce ∧ s' = s.flight i none
  | s, _, _, s' => s' = s

theorem relies_flight {j : ι} (hne : j ≠ i) (nonce : Option UInt32) :
    Relies j s (s.flight i nonce) :=
  ⟨Function.update_of_ne hne _ _, List.Subset.refl _, List.Subset.refl _⟩

/-- A submission whose nonce has been accepted ends. -/
theorem grants_land (hi : s.inFlight i = some nonce) (haccepted : nonce ∈ s.accepted) :
    Grants i s (s.flight i none) where
  relies j hne := relies_flight hne none
  covered hcovered k hk := by
    rcases hcovered k hk with hk | ⟨j, hj⟩
    · exact .inl hk
    · by_cases hji : j = i
      · subst hji
        rw [hi] at hj
        cases hj
        exact .inl haccepted
      · exact .inr ⟨j, (Function.update_of_ne hji _ _).trans hj⟩

/-- A nonce is taken under the lock: those below it have been accepted, as the chain says, or were
below the cached one before. -/
theorem grants_take {read : UInt32} (hi : s.inFlight i = none)
    (hread : ∀ k < read, k ∈ s.accepted) :
    Grants i s ({ s with next := (takeNonce read s.next).2 }.flight i
      (some (takeNonce read s.next).1)) where
  relies j hne := ⟨Function.update_of_ne hne _ _, List.Subset.refl _, List.Subset.refl _⟩
  covered hcovered k hk := by
    rcases lt_or_eq_of_lt_saturatingAdd hk with hk | rfl
    · have hbelow : k ∈ s.accepted ∨ ∃ j, s.inFlight j = some k := by
        change k < if read > s.next then read else s.next at hk
        split at hk
        next => exact .inl (hread k hk)
        next => exact hcovered k hk
      rcases hbelow with hk | ⟨j, hj⟩
      · exact .inl hk
      · have hji : j ≠ i := by
          rintro rfl
          rw [hi] at hj
          cases hj
        exact .inr ⟨j, (Function.update_of_ne hji _ _).trans hj⟩
    · exact .inr ⟨i, Function.update_self _ _ _⟩

/-! ### The program -/

/-- The surroundings in which no submission is rejected whose nonce the pool has not accepted. -/
abbrev carefulEnv (i : ι) : Prog.Env (submissionApi E V) (Account ι) :=
  accountEnv (fun s nonce => nonce ∈ s.accepted) i

/-- The call relies on the others and guarantees what they rely on, and ends with `Q`. -/
abbrev Safe {A : Type} (i : ι) (p : Prog (submissionApi E V) A) (Q : A → Account ι → Prop)
    (s₁ s : Account ι) : Prop :=
  Prog.Guarantees (carefulEnv i) (Relies i) (Grants i) p Q s₁ s

/-- The call has no submission on its way. -/
def Idle (i : ι) (s : Account ι) : Prop := s.inFlight i = none

/-- The submission of the call is on its way with this nonce. -/
def Flying (i : ι) (nonce : UInt32) (s : Account ι) : Prop := s.inFlight i = some nonce

omit [DecidableEq ι] in
theorem Idle.relies (h : Idle i s) (hrelies : Relies i s s') : Idle i s' :=
  hrelies.inFlight.trans h

omit [DecidableEq ι] in
theorem Flying.relies (h : Flying i nonce s) (hrelies : Relies i s s') : Flying i nonce s' :=
  hrelies.inFlight.trans h

section Program

variable {s₁ : Account ι}

omit [DecidableEq ι] in
/-- The nonce read from the storage, or the 0 that a failed read counts for, is one that the account
has had. -/
theorem accepted_of_read {r : Option (Except (SubxtError E) (Option UInt32))}
    (hr : ∀ nonce, r = some (.ok (some nonce)) → nonce ∈ s.seen)
    {account : Except (SubxtError E) (Option UInt32)} (h : r = some account) :
    ∀ k < onChainNonce account, k ∈ s.accepted := by
  intro k hk
  subst h
  rcases account with e | _ | nonce
  · exact absurd hk (Nat.not_lt_zero _)
  · exact absurd hk (Nat.not_lt_zero _)
  · exact s.included nonce (hr nonce rfl) k hk

theorem safe_getFreshNonce (hs : Grants i s₁ s) (h : Idle i s) :
    Safe (E := E) (V := V) i getFreshNonce.run
      (Prog.Outcome (Flying i) fun _ => Idle i) s₁ s := by
  refine Prog.guarantees_run_seq (P := fun _ => Idle i)
    (Prog.guarantees_run_ask hs fun s' r s'' hrelies hr => ?_) fun _ s₁ s hs h => ?_
  · obtain rfl : s'' = s' := hr
    exact ⟨.refl i s'', .intro (fun _ _ => h.relies hrelies) fun _ _ => h.relies hrelies⟩
  refine Prog.guarantees_run_seq
    (P := fun account s => Idle i s ∧ ∀ k < onChainNonce account, k ∈ s.accepted)
    (Prog.guarantees_run_ask hs fun s' r s'' hrelies hr => ?_) fun account s₁ s hs h => ?_
  · obtain ⟨rfl, hseen⟩ := hr
    cases r with
    | none => exact ⟨.refl i s'', h.relies hrelies⟩
    | some account =>
      exact ⟨.refl i s'', h.relies hrelies, accepted_of_read hseen rfl⟩
  · refine Prog.guarantees_run_ask hs fun s' r s'' hrelies hr => ?_
    have hidle : Idle i s' := h.1.relies hrelies
    obtain ⟨rfl, rfl⟩ | ⟨rfl, rfl⟩ := hr
    · exact ⟨.refl i s'', hidle⟩
    · refine ⟨grants_take hidle fun k hk => hrelies.accepted (h.2 k hk), ?_⟩
      exact Function.update_self _ _ _

/-- A submission ends, with its nonce accepted. -/
theorem safe_submit (hs : Grants i s₁ s) (h : Idle i s) :
    Safe (E := E) (V := V) i submit.run (Prog.Outcome (fun _ => Idle i) fun _ => Idle i) s₁ s := by
  refine Prog.guarantees_run_seq (safe_getFreshNonce hs h) fun nonce s₁ s hs h => ?_
  have hland {s : Account ι} : Idle i (s.flight i none) := Function.update_self _ _ _
  refine Prog.guarantees_run_seq (P := fun _ => Flying i nonce)
    (Prog.guarantees_run_ask hs fun s' r s'' hrelies hr => ?_) fun _ s₁ s hs h => ?_
  · have hflying : Flying i nonce s' := h.relies hrelies
    obtain ⟨rfl, rfl⟩ | ⟨⟨e, rfl⟩, haccepted, rfl⟩ := hr
    · exact ⟨.refl i s'', hflying⟩
    · exact ⟨grants_land hflying haccepted, hland⟩
  refine Prog.guarantees_run_seq (P := fun _ => Idle i)
    (Prog.guarantees_run_ask hs fun s' r s'' hrelies hr => ?_) fun _ s₁ s hs h => ?_
  · have hflying : Flying i nonce s' := h.relies hrelies
    obtain ⟨hgrants, hidle⟩ : Grants i s' s'' ∧ Idle i s'' := by
      obtain rfl | ⟨-, haccepted, rfl⟩ := hr
      · have henter : Flying i nonce (s'.enter nonce) := hflying
        exact ⟨(grants_enter nonce).trans (grants_land henter List.mem_cons_self), hland⟩
      · exact ⟨grants_land hflying haccepted, hland⟩
    exact ⟨hgrants, .intro (fun _ _ => hidle) fun _ _ => hidle⟩
  · refine Prog.guarantees_run_ask hs fun s' r s'' hrelies hr => ?_
    obtain rfl : s'' = s' := hr
    exact ⟨.refl i s'', .intro (fun _ _ => h.relies hrelies) fun _ _ => h.relies hrelies⟩

theorem safe_attempt (hs : Grants i s₁ s) (h : Idle i s) :
    Safe (E := E) (V := V) i attempt.run (Prog.Outcome (fun _ => Idle i) fun _ => Idle i) s₁ s := by
  refine Prog.guarantees_run_seq (P := fun _ => Idle i)
    (Prog.guarantees_run_lift ((safe_submit hs h).mono fun r _ _ hr => ?_)) fun r s₁ s hs h => ?_
  · cases r <;> exact hr
  match r with
  | .ok events => exact ⟨hs, h⟩
  | .error (.failed e) => exact ⟨hs, h⟩
  | .error .elapsed =>
    refine Prog.guarantees_run_seq (P := fun _ => Idle i) (Prog.guarantees_run_lift
      (Prog.guarantees_request hs fun s' r s'' hrelies hr => ?_)) fun _ s₁ s hs h => ⟨hs, h⟩
    obtain rfl : s'' = s' := hr
    exact ⟨.refl i s'', h.relies hrelies⟩

theorem safe_retryRound (hs : Grants i s₁ s) (h : Idle i s) :
    Safe (E := E) (V := V) i (retryRound attempt verify ()).run
      (Prog.Outcome (fun _ => Idle i) fun _ => Idle i) s₁ s := by
  refine Prog.guarantees_run_seq (P := fun _ => Idle i)
    (Prog.guarantees_run_lift ((safe_attempt hs h).mono fun r _ _ hr => ?_)) fun r s₁ s hs h => ?_
  · cases r <;> exact hr
  match verify r with
  | .ok events => exact ⟨hs, h⟩
  | .error (.throw e) => exact ⟨hs, h⟩
  | .error (.skip e) =>
    refine Prog.guarantees_run_seq (P := fun _ => Idle i) (Prog.guarantees_run_lift
      (Prog.guarantees_request hs fun s' r s'' hrelies hr => ?_)) fun again s₁ s hs h => ?_
    · obtain rfl : s'' = s' := hr
      exact ⟨.refl i s'', h.relies hrelies⟩
    · cases again <;> exact ⟨hs, h⟩

theorem safe_withUniqueSigner (fuel : Nat) (hs : Grants i s₁ s) (h : Idle i s) :
    Safe (E := E) (V := V) i (withUniqueSigner fuel).run (fun _ => Idle i) s₁ s := by
  refine Prog.guarantees_run_iterate (fun _ => Idle i) (fun _ _ _ hs h => ?_) (fun _ _ h => h) fuel
    hs h
  refine (safe_retryRound hs h).mono fun r _ _ hr => ?_
  rcases r with e | _ | _ <;> exact hr

end Program

omit [DecidableEq ι] in
theorem Relies.of_chainStep (h : ChainStep s s') : Relies i s s' := by
  cases h with
  | enter nonce => exact ⟨rfl, List.Subset.refl _, List.subset_cons_self _ _⟩
  | advance h => exact ⟨rfl, List.subset_cons_self _ _, List.Subset.refl _⟩
  | retract h => exact ⟨rfl, List.Subset.refl _, List.Subset.refl _⟩

omit [DecidableEq ι] in
theorem Covered.chainStep (hcovered : Covered s) (h : ChainStep s s') : Covered s' := by
  cases h with
  | enter nonce => exact hcovered.enter nonce
  | advance h => exact hcovered
  | retract h => exact hcovered

omit [DecidableEq ι] in
theorem cooperates_calls : Prog.Cooperates Relies Grants (ChainStep (ι := ι)) where
  refl := .refl
  trans := .trans
  idle := .refl
  relies hne h := h.relies _ (Ne.symm hne)
  other := .of_chainStep

/-- A client that has just been started on an account with any nonce on the chain. -/
structure Started (s : Account ι) : Prop where
  next : s.next = 0
  idle : ∀ i, Idle i s

omit [DecidableEq ι] in
/-- Without a gap the chain can include all extrinsics up to the cached nonce. -/
theorem exists_advanced (s : Account ι) (h : ∀ k < s.next, k ∈ s.accepted) :
    ∃ s', Relation.ReflTransGen ChainStep s s' ∧ s.next ≤ s'.onChain := by
  induction hleft : s.next.toNat - s.onChain.toNat generalizing s with
  | zero =>
    refine ⟨s, .refl, UInt32.le_iff_toNat_le.mpr ?_⟩
    omega
  | succ n ih =>
    have hlt : s.onChain < s.next := UInt32.lt_iff_toNat_lt.mpr (by omega)
    have hsucc : (s.onChain + 1).toNat = s.onChain.toNat + 1 := by
      have hnext := s.next.toNat_lt
      rw [UInt32.toNat_add]
      exact Nat.mod_eq_of_lt (by change s.onChain.toNat + 1 < 4294967296; omega)
    have hadvance := h s.onChain hlt
    obtain ⟨s', hsteps, hle⟩ := ih (s.advance hadvance) h (by
      change s.next.toNat - (s.onChain + 1).toNat = n
      omega)
    exact ⟨s', .head (.advance s hadvance) hsteps, hle⟩

/-- In every run of any number of calls in which no submission is rejected whose nonce the pool has
not accepted, whenever no submission is on its way there is no gap below the cached nonce, so that
the chain can include all that have been accepted. -/
theorem covered_of_poolRuns (fuel : ι → Nat)
    {calls : ι → Prog (submissionApi E V) (Except (Error E) (Option V))} (hstarted : Started s)
    (hruns : Prog.PoolRuns carefulEnv ChainStep (fun i => (withUniqueSigner (fuel i)).run) s
      calls s')
    (hidle : ∀ i, Idle i s') :
    (∀ k < s'.next, k ∈ s'.accepted) ∧
      ∃ s'', Relation.ReflTransGen ChainStep s' s'' ∧ s'.next ≤ s''.onChain := by
  have hcovered : Covered s := by
    intro k hk
    rw [hstarted.next] at hk
    exact absurd hk (Nat.not_lt_zero _)
  have hrun := Prog.Guarantees.poolRuns cooperates_calls (I := Covered)
    (fun i _ _ _ hrelies h => h.relies hrelies) (fun h => h.covered)
    (fun h hcovered => hcovered.chainStep h) (fun i => safe_withUniqueSigner (fuel i) (.refl i s)
      (hstarted.idle i)) hcovered hruns
  have haccepted : ∀ k < s'.next, k ∈ s'.accepted := by
    intro k hk
    rcases hrun.1 k hk with hk | ⟨i, hi⟩
    · exact hk
    · rw [hidle i] at hi
      cases hi
  exact ⟨haccepted, exists_advanced s' haccepted⟩

/-! ### One call -/

/-- A new account, with the client just started. -/
def newAccount : Account Unit where
  onChain := 0
  seen := [0]
  accepted := []
  next := 0
  inFlight _ := none
  current := List.mem_cons_self
  included := by simp

/-- A node that answers each submission with `answer`, and includes none; `again` is whether another
attempt is made after one that has failed. -/
def serveAccount (answer : Account Unit → UInt32 → Except (SubxtError String) Unit) (again : Bool)
    (s : Account Unit) :
    (call : SubmissionCall) → Option ((submissionApi String Unit).Answer call × Account Unit)
  | .atLatest => some (some (.ok ()), s)
  | .fetchAccount => some (some (.ok none), s)
  | .writeNonce update => some (some (update s.next).1,
      { s with next := (update s.next).2 }.flight () (some (update s.next).1))
  | .createSignedWithNonce _ => some (.ok (), s)
  | .submitAndWatch nonce =>
    match answer s nonce with
    | .ok _ => some (some (.ok ()), (s.enter nonce).flight () none)
    | .error e => some (some (.error e), s.flight () none)
  | .waitForFinalizedSuccess _ => some (some (.ok ()), s)
  | .sendShutdown => some ((), s)
  | .nextBackoff => some (again, s)

theorem accountEnv_serveAccount {rejects : Account Unit → UInt32 → Prop}
    {answer : Account Unit → UInt32 → Except (SubxtError String) Unit} {again : Bool}
    (hanswer : ∀ s nonce, answer s nonce = .ok () ∨ rejects s nonce)
    {i : Unit} {s s' : Account Unit} {call : SubmissionCall}
    {r : (submissionApi String Unit).Answer call}
    (h : serveAccount answer again s call = some (r, s')) :
    accountEnv rejects i s call r s' := by
  cases call with
  | fetchAccount =>
    cases h
    exact ⟨rfl, fun nonce h => by cases h⟩
  | writeNonce update =>
    cases h
    exact .inr ⟨rfl, rfl⟩
  | createSignedWithNonce nonce =>
    cases h
    exact .inl ⟨rfl, rfl⟩
  | submitAndWatch nonce =>
    dsimp only [serveAccount] at h
    cases hreply : answer s nonce with
    | ok _ =>
      rw [hreply] at h
      cases h
      exact .inl rfl
    | error e =>
      have hrejects : rejects s nonce := (hanswer s nonce).resolve_left (by simp [hreply])
      rw [hreply] at h
      cases h
      exact .inr ⟨by simp, hrejects, rfl⟩
  | _ =>
    cases h
    rfl

/-- A submission is answered with an error code. -/
def refusal (code : Int) : Except (SubxtError String) Unit := .error (.custom code none)

/-- The run of one call of `with_unique_signer`, which is not tried again. -/
def rejectedCall :
    (Unit → Prog (submissionApi String Unit) (Except (Error String) (Option Unit))) ×
      Account Unit :=
  Prog.playPool (fun _ => serveAccount (fun _ _ => refusal POOL_INVALID_TX) false)
    (List.replicate 6 (.inl ())) (fun _ => (withUniqueSigner 1).run, newAccount)

/-- A submission that is rejected as invalid leaves the nonce 0 behind. -/
theorem gap_of_rejected : ∃ calls s',
    Prog.PoolRuns (accountEnv (E := String) (V := Unit) fun _ _ => True) ChainStep
      (fun _ => (withUniqueSigner 1).run) newAccount calls s' ∧
      (∀ i, Idle i s') ∧ s'.onChain ≤ 0 ∧ 0 < s'.next ∧ 0 ∉ s'.accepted := by
  refine ⟨rejectedCall.1, rejectedCall.2, Prog.poolRuns_play
    (accountEnv_serveAccount fun _ _ => .inr trivial) (fun move hmove => ?_) _ _, fun _ => rfl,
    by decide, by decide, by decide⟩
  cases List.eq_of_mem_replicate hmove

/-- A submission with a nonce that is in the pool has too low a priority. -/
def occupied (s : Account Unit) (nonce : UInt32) : Except (SubxtError String) Unit :=
  if nonce ∈ s.accepted then refusal POOL_TOO_LOW_PRIORITY else .ok ()

/-- Another client of the account takes the nonce 0, and the call is tried again with the next. -/
def retriedCall :
    (Unit → Prog (submissionApi String Unit) (Except (Error String) (Option Unit))) ×
      Account Unit :=
  Prog.playPool (fun _ => serveAccount occupied true)
    (.inr (·.enter 0) :: List.replicate 12 (.inl ()))
    (fun _ => (withUniqueSigner 2).run, newAccount)

theorem covered_of_poolRuns_retried : retriedCall.2.accepted = [1, 0] ∧
    (∀ k < retriedCall.2.next, k ∈ retriedCall.2.accepted) ∧
      ∃ s', Relation.ReflTransGen ChainStep retriedCall.2 s' ∧
        retriedCall.2.next ≤ s'.onChain := by
  have hstarted : Started newAccount := ⟨rfl, fun _ => rfl⟩
  have hanswer (s : Account Unit) (nonce : UInt32) :
      occupied s nonce = .ok () ∨ nonce ∈ s.accepted := by
    unfold occupied
    split
    next hmem => exact .inr hmem
    next => exact .inl rfl
  refine ⟨rfl, covered_of_poolRuns (fun _ => 2) hstarted (Prog.poolRuns_play
    (accountEnv_serveAccount hanswer) (fun move hmove s => ?_) _ _) fun _ => rfl⟩
  rcases List.mem_cons.mp hmove with hmove | hmove
  · cases hmove
    exact .enter s 0
  · cases List.eq_of_mem_replicate hmove

end InterBtcClients.Runtime.Submission
