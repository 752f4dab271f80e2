import InterBtcClients.Library.Interleave
import InterBtcClients.Runtime.Submission
import Mathlib.Data.List.Basic

/-! How many extrinsics with one call `with_unique_signer` can get into the chain: every retry signs
a new extrinsic with another nonce, also when the one before is still in the pool. -/

namespace InterBtcClients.Runtime.Submission

open Library

variable {E V : Type}

/-! ### The node -/

/-- An attempt that has reached the node: the nonce of its extrinsic, whether that has entered the
pool, and what the node has answered in the end; `none` when the time limit came before. -/
structure Attempt (E V : Type) where
  nonce : UInt32
  entered : Bool
  outcome : Option (Except (SubxtError E) V)
  deriving DecidableEq

/-- The extrinsic has been included or can still be: one that a fork has retracted is in the pool
again. -/
def Attempt.Alive (a : Attempt E V) : Prop :=
  a.entered = true ∧ ∀ e, a.outcome ≠ some (.error (.givenUp e))

/-- The node has not found the block of the extrinsic, or has called it invalid or too low in
priority. -/
def SubxtError.Resends : SubxtError E → Prop
  | .blockNotFound => True
  | .custom code _ => code = POOL_INVALID_TX ∨ code = POOL_TOO_LOW_PRIORITY
  | .givenUp _ | .other _ => False

/-- The node has answered with such an error. -/
def Attempt.Resent (a : Attempt E V) : Prop := ∃ e, a.outcome = some (.error e) ∧ e.Resends

/-- The nonce that the client has cached, which other callers take nonces from as well, and the
attempts that the node has answered. -/
structure Submissions (E V : Type) where
  next : UInt32
  attempts : List (Attempt E V)
  deriving DecidableEq

def Submissions.add (s : Submissions E V) (a : Attempt E V) : Submissions E V :=
  { s with attempts := s.attempts ++ [a] }

def attemptEnv : Prog.Env (submissionApi E V) (Submissions E V)
  | s, .writeNonce update, r, s' =>
    r = none ∧ s' = s ∨ r = some (update s.next).1 ∧ s' = { s with next := (update s.next).2 }
  | s, .submitAndWatch nonce, r, s' =>
    r = some (.ok ()) ∧ s' = s ∨
      r = none ∧ (∃ entered, s' = s.add ⟨nonce, entered, none⟩) ∨
      ∃ e entered, r = some (.error e) ∧ s' = s.add ⟨nonce, entered, some (.error e)⟩
  | s, .waitForFinalizedSuccess nonce, r, s' => s' = s.add ⟨nonce, true, r⟩
  | s, _, _, s' => s' = s

/-- Other callers take nonces. -/
structure OthersTake (s s' : Submissions E V) : Prop where
  next : s.next ≤ s'.next
  attempts : s'.attempts = s.attempts

abbrev sharedEnv : Prog.Env (submissionApi E V) (Submissions E V) :=
  Prog.interfere OthersTake attemptEnv

/-- At most one extrinsic has been included or can still be; those with the same nonce exclude each
other. -/
def AtMostOnce (s : List (Attempt E V)) : Prop :=
  ∀ a ∈ s, ∀ b ∈ s, a.Alive → b.Alive → a.nonce = b.nonce

/-- After an extrinsic that has entered the pool and was answered with such an error, no other one
enters it and stays there, unless the nonces are used up. -/
def NotSentAgain (s : List (Attempt E V)) : Prop :=
  s.Pairwise fun a b => a.entered = true → a.Resent → b.Alive → a.nonce = 0xFFFFFFFF

/-! ### The attempts -/

theorem Attempt.Resent.alive {a : Attempt E V} (h : a.Resent) (hentered : a.entered = true) :
    a.Alive := by
  obtain ⟨e, houtcome, hresends⟩ := h
  refine ⟨hentered, fun e' hgivenUp => ?_⟩
  cases houtcome.symm.trans hgivenUp
  exact hresends

/-- The nonce is below `next`, unless it is the largest one. -/
structure Below (nonce next : UInt32) : Prop where
  le : nonce ≤ next
  lt : nonce ≠ 0xFFFFFFFF → nonce < next

theorem Below.trans_le {nonce next next' : UInt32} (h : Below nonce next) (hle : next ≤ next') :
    Below nonce next' :=
  ⟨UInt32.le_trans h.le hle, fun hne => UInt32.lt_of_lt_of_le (h.lt hne) hle⟩

/-- Of two nonces the first one is the largest there is just when they are the same. -/
theorem Below.eq_iff {nonce next : UInt32} (h : Below nonce next) :
    nonce = next ↔ nonce = 0xFFFFFFFF := by
  constructor
  · intro heq
    by_contra hne
    exact UInt32.ne_of_lt (h.lt hne) heq
  · rintro rfl
    exact UInt32.le_antisymm h.le (UInt32.le_iff_toNat_le.mpr (Nat.le_pred_of_lt next.toNat_lt))

/-- The nonces of the attempts rise, and the next one is above them. -/
structure NoncesRise (s : Submissions E V) : Prop where
  rise : s.attempts.Pairwise fun a b => Below a.nonce b.nonce
  below : ∀ a ∈ s.attempts, Below a.nonce s.next

theorem NoncesRise.stable {s s' : Submissions E V} (h : NoncesRise s) (hR : OthersTake s s') :
    NoncesRise s' where
  rise := hR.attempts ▸ h.rise
  below a ha := (h.below a (hR.attempts ▸ ha)).trans_le hR.next

/-- An attempt with a nonce above those before and below the next one. -/
theorem NoncesRise.add {s : Submissions E V} {a : Attempt E V} (h : NoncesRise s)
    (habove : ∀ b ∈ s.attempts, Below b.nonce a.nonce) (hbelow : Below a.nonce s.next) :
    NoncesRise (s.add a) where
  rise := by
    refine List.pairwise_append.mpr ⟨h.rise, List.pairwise_singleton _ _, fun b hb c hc => ?_⟩
    rw [List.mem_singleton.mp hc]
    exact habove b hb
  below := by
    refine List.forall_mem_append.mpr ⟨h.below, fun b hb => ?_⟩
    rw [List.mem_singleton.mp hb]
    exact hbelow

/-- All attempts but the last one, if any, have been answered with an error that is retried. -/
def ResentBefore (s : List (Attempt E V)) : Prop := ∀ a ∈ s.dropLast, a.Resent

theorem ResentBefore.getElem {s : List (Attempt E V)} (h : ResentBefore s) {i j : Nat}
    (hj : j < s.length) (hij : i < j) : s[i].Resent := by
  have hi : i < s.dropLast.length := by
    rw [List.length_dropLast]
    omega
  have hmem := List.getElem_mem hi
  rw [List.getElem_dropLast] at hmem
  exact h _ hmem

/-- Of two extrinsics that can be included the first one has been retried, and the second one has a
larger nonce. -/
theorem NoncesRise.atMostOnce_iff {s : Submissions E V} (h : NoncesRise s)
    (hbefore : ResentBefore s.attempts) : AtMostOnce s.attempts ↔ NotSentAgain s.attempts := by
  have hrise := List.pairwise_iff_getElem.mp h.rise
  constructor
  · intro honce
    refine List.pairwise_iff_getElem.mpr fun i j hi hj hij hentered hresent halive => ?_
    exact (hrise i j hi hj hij).eq_iff.mp
      (honce _ (List.getElem_mem hi) _ (List.getElem_mem hj) (hresent.alive hentered) halive)
  · intro hnot a ha b hb halive halive'
    have hnot := List.pairwise_iff_getElem.mp hnot
    have hsame {i j : Nat} (hi : i < s.attempts.length) (hj : j < s.attempts.length) (hij : i < j)
        (halive : s.attempts[i].Alive) (halive' : s.attempts[j].Alive) :
        s.attempts[i].nonce = s.attempts[j].nonce :=
      (hrise i j hi hj hij).eq_iff.mpr
        (hnot i j hi hj hij halive.1 (hbefore.getElem hj hij) halive')
    obtain ⟨i, hi, rfl⟩ := List.getElem_of_mem ha
    obtain ⟨j, hj, rfl⟩ := List.getElem_of_mem hb
    rcases Nat.lt_trichotomy i j with hij | rfl | hji
    · exact hsame hi hj hij halive halive'
    · rfl
    · exact (hsame hj hi hji halive' halive).symm

/-! ### The program -/

/-- What an attempt that is made at `s` leaves: nothing new when it has not reached the node, else
one entry more, with the error that it ends in if the node has answered with one. -/
structure Added (s : Submissions E V) (failed : SubxtError E → Prop) (s' : Submissions E V) :
    Prop where
  rise : NoncesRise s'
  attempts : s'.attempts = s.attempts ∨ ∃ a : Attempt E V, s'.attempts = s.attempts ++ [a] ∧
    ∀ e, failed e → a.outcome = some (.error e)

section Program

variable {s s' : Submissions E V}

/-- Before the attempt reaches the node: as many attempts as at its start. -/
structure Before (start s : Submissions E V) : Prop where
  rise : NoncesRise s
  attempts : s.attempts = start.attempts

theorem Before.refl (h : NoncesRise s) : Before s s := ⟨h, rfl⟩

theorem Before.stable {start : Submissions E V} (h : Before start s) (hR : OthersTake s s') :
    Before start s' :=
  ⟨h.rise.stable hR, hR.attempts.trans h.attempts⟩

theorem Before.added {start : Submissions E V} (h : Before start s)
    (failed : SubxtError E → Prop) : Added start failed s :=
  ⟨h.rise, .inl h.attempts⟩

/-- The nonce is above those of the attempts, and below the next one. -/
structure Takes (start : Submissions E V) (nonce : UInt32) (s : Submissions E V) : Prop
    extends Before start s where
  above : ∀ a ∈ s.attempts, Below a.nonce nonce
  below : Below nonce s.next

theorem Takes.stable {start : Submissions E V} {nonce : UInt32} (h : Takes start nonce s)
    (hR : OthersTake s s') : Takes start nonce s' where
  toBefore := h.toBefore.stable hR
  above a ha := h.above a (hR.attempts ▸ ha)
  below := h.below.trans_le hR.next

theorem Takes.add {start : Submissions E V} {nonce : UInt32} (h : Takes start nonce s)
    {entered : Bool} {outcome : Option (Except (SubxtError E) V)} {failed : SubxtError E → Prop}
    (houtcome : ∀ e, failed e → outcome = some (.error e)) :
    Added start failed (s.add ⟨nonce, entered, outcome⟩) where
  rise := h.rise.add h.above h.below
  attempts := .inr ⟨_, congrArg (· ++ _) h.attempts, houtcome⟩

/-- The nonce is taken under the lock. -/
theorem Before.takes {start : Submissions E V} (h : Before start s) (onChain : UInt32) :
    Takes start (takeNonce onChain s.next).1 { s with next := (takeNonce onChain s.next).2 } := by
  have hnext := (le_takeNonce onChain s.next).2
  have hsucc := saturatingAdd_one (takeNonce onChain s.next).1
  exact
    { rise :=
        { rise := h.rise.rise
          below := fun a ha => ((h.rise.below a ha).trans_le hnext).trans_le hsucc.1 }
      attempts := h.attempts
      above := fun a ha => (h.rise.below a ha).trans_le hnext
      below := ⟨hsucc.1, hsucc.2⟩ }

theorem keeps_getFreshNonce {start : Submissions E V} (h : Before start s) :
    Prog.Keeps sharedEnv (fun _ => True) (getFreshNonce (E := E) (V := V)).run
      (Prog.Outcome (Takes start) fun _ => Before start) s := by
  refine Prog.keeps_run_bind.mpr (Prog.keeps_map.mpr ⟨trivial, fun r s₁ hr => ⟨trivial, ?_⟩⟩)
  obtain ⟨_, hR, rfl⟩ := hr
  have h₁ := h.stable hR
  refine .intro (fun _ _ => ?_) fun _ _ => h₁
  refine Prog.keeps_run_bind.mpr (Prog.keeps_map.mpr ⟨trivial, fun r s₂ hr => ⟨trivial, ?_⟩⟩)
  obtain ⟨_, hR, rfl⟩ := hr
  have h₂ := h₁.stable hR
  refine .intro (fun account _ => ?_) fun _ _ => h₂
  refine Prog.keeps_map.mpr ⟨trivial, fun r s₃ hr => ⟨trivial, ?_⟩⟩
  obtain ⟨s₃, hR, hr⟩ := hr
  have h₃ := h₂.stable hR
  rcases hr with ⟨rfl, rfl⟩ | ⟨rfl, rfl⟩
  · exact h₃
  · exact h₃.takes _

theorem keeps_submit (h : NoncesRise s) :
    Prog.Keeps sharedEnv (fun _ => True) (submit (E := E) (V := V)).run
      (fun r => Added s fun e => r = .error (.failed e)) s := by
  refine Prog.keeps_run_bind.mpr ((keeps_getFreshNonce (.refl h)).mono fun r s₁ _ hr => ?_)
  rcases r with _ | nonce
  · exact Before.added hr _
  have h₁ : Takes s nonce s₁ := hr
  refine Prog.keeps_run_bind.mpr (Prog.keeps_map.mpr ⟨trivial, fun r s₂ hr => ⟨trivial, ?_⟩⟩)
  obtain ⟨_, hR, rfl⟩ := hr
  have h₂ := h₁.stable hR
  refine .intro (fun _ _ => ?_) fun _ _ => h₂.toBefore.added _
  refine Prog.keeps_run_bind.mpr (Prog.keeps_map.mpr ⟨trivial, fun r s₃ hr => ⟨trivial, ?_⟩⟩)
  obtain ⟨s₃, hR, hr⟩ := hr
  have h₃ := h₂.stable hR
  obtain ⟨rfl, rfl⟩ | ⟨rfl, entered, rfl⟩ | ⟨e, entered, rfl, rfl⟩ := hr
  · refine Prog.keeps_map.mpr ⟨trivial, fun r s₄ hr => ⟨trivial, ?_⟩⟩
    obtain ⟨s₄, hR, rfl⟩ := hr
    refine (h₃.stable hR).add fun e he => ?_
    rcases r with _ | e' | events <;> cases he
    rfl
  · exact h₃.add fun e he => by cases he
  · refine h₃.add fun e' he => ?_
    cases he
    rfl

/-- What an attempt leaves for the loop: an error that comes from the node is that of its entry. -/
theorem keeps_attempt (h : NoncesRise s) :
    Prog.Keeps sharedEnv (fun _ => True) (attempt (E := E) (V := V)).run
      (fun r => Added s fun e => r = .error (.subxtRuntimeError e)) s := by
  refine Prog.keeps_run_bind.mpr (Prog.keeps_run_lift.mpr ((keeps_submit h).mono
    fun r s₁ _ hr => ?_))
  match r, hr with
  | .ok events, hr =>
    exact ⟨trivial, hr.rise, hr.attempts.imp_right fun ⟨a, ha, _⟩ => ⟨a, ha, nofun⟩⟩
  | .error (.failed e), hr =>
    refine ⟨trivial, hr.rise, hr.attempts.imp_right fun ⟨a, ha, houtcome⟩ =>
      ⟨a, ha, fun e' he => ?_⟩⟩
    cases he
    exact houtcome e rfl
  | .error .elapsed, hr =>
    refine Prog.keeps_run_bind.mpr (Prog.keeps_run_lift.mpr
      ⟨trivial, fun _ s₂ hs => ⟨trivial, trivial, ?_⟩⟩)
    obtain ⟨_, hR, rfl⟩ := hs
    refine ⟨hr.rise.stable hR, ?_⟩
    rw [hR.attempts]
    exact hr.attempts.imp_right fun ⟨a, ha, _⟩ => ⟨a, ha, nofun⟩

/-- Only some errors of the node are retried. -/
theorem resends_of_skip {r : Except (Error E) V} {e : Error E} (h : verify r = .error (.skip e)) :
    ∃ e', r = .error (.subxtRuntimeError e') ∧ e'.Resends := by
  rcases r with e' | events
  · cases e' with
    | subxtRuntimeError e' =>
      refine ⟨e', rfl, ?_⟩
      cases e' with
      | custom code data =>
        simp only [verify, Error.isInvalidTransaction, Error.isPoolTooLowPriority,
          Error.isBlockHashNotFoundError, Error.mapCustomError] at h
        by_cases hinvalid : code = POOL_INVALID_TX
        · exact .inl hinvalid
        · by_cases hpriority : code = POOL_TOO_LOW_PRIORITY
          · exact .inr hpriority
          · simp [hinvalid, hpriority] at h
      | blockNotFound => trivial
      | givenUp e | other e => cases h
    | _ => cases h
  · cases h

/-- The attempts made so far have all been retried. -/
structure Retrying (s : Submissions E V) : Prop where
  rise : NoncesRise s
  resent : ∀ a ∈ s.attempts, a.Resent

/-- The attempts made before the last one have all been retried. -/
structure Retried (s : Submissions E V) : Prop where
  rise : NoncesRise s
  before : ResentBefore s.attempts

theorem Retrying.retried (h : Retrying s) : Retried s :=
  ⟨h.rise, fun a ha => h.resent a (List.dropLast_subset _ ha)⟩

theorem keeps_retryRound (h : Retrying s) :
    Prog.Keeps sharedEnv (fun _ => True) (retryRound (attempt (E := E) (V := V)) verify ()).run
      (Prog.Round (fun _ => Retrying) fun _ => Retried) s := by
  refine Prog.keeps_run_bind.mpr (Prog.keeps_run_lift.mpr ((keeps_attempt h.rise).mono
    fun r s₁ _ hr => ?_))
  have hbefore : Retried s₁ := by
    refine ⟨hr.rise, ?_⟩
    rcases hr.attempts with hsame | ⟨a, hadded, -⟩
    · rw [hsame]
      exact h.retried.before
    · rw [hadded, ResentBefore, List.dropLast_concat]
      exact h.resent
  dsimp only [Prog.Outcome]
  split
  next events _ => exact ⟨trivial, hbefore⟩
  next e _ => exact ⟨trivial, hbefore⟩
  next e hskip =>
    obtain ⟨e', rfl, hresends⟩ := resends_of_skip hskip
    have hresent : ∀ a ∈ s₁.attempts, a.Resent := by
      rcases hr.attempts with hsame | ⟨a, hadded, houtcome⟩
      · rw [hsame]
        exact h.resent
      · rw [hadded]
        refine List.forall_mem_append.mpr ⟨h.resent, fun b hb => ?_⟩
        rw [List.mem_singleton.mp hb]
        exact ⟨e', houtcome e' rfl, hresends⟩
    refine Prog.keeps_run_bind.mpr (Prog.keeps_run_lift.mpr
      ⟨trivial, fun again s₂ hs => ⟨trivial, ?_⟩⟩)
    obtain ⟨_, hR, rfl⟩ := hs
    have hretrying : Retrying s₂ := ⟨hr.rise.stable hR, hR.attempts ▸ hresent⟩
    cases again with
    | true => exact ⟨trivial, hretrying⟩
    | false => exact ⟨trivial, hretrying.retried⟩

theorem keeps_withUniqueSigner (fuel : Nat) (next : UInt32) :
    Prog.Keeps sharedEnv (fun _ => True) (withUniqueSigner (E := E) (V := V) fuel).run
      (fun _ => Retried) ⟨next, []⟩ := by
  have hstart : Retrying (⟨next, []⟩ : Submissions E V) :=
    ⟨⟨.nil, List.forall_mem_nil _⟩, List.forall_mem_nil _⟩
  exact Prog.keeps_run_iterate (fun _ => Retrying) (fun _ _ h => keeps_retryRound h)
    (fun _ _ h => h.retried) fuel hstart

end Program

/-- However the node answers and whoever else takes nonces, when `with_unique_signer` returns at
most one extrinsic with its call has been included or can still be, exactly if none that has entered
the pool was answered with block not found, or with the code for an invalid transaction or a too low
priority, before another one has entered it. -/
theorem atMostOnce_iff_notSentAgain (fuel : Nat) {next : UInt32} {s : Submissions E V}
    {r : Except (Error E) (Option V)}
    (hruns : Prog.Runs sharedEnv (withUniqueSigner fuel).run ⟨next, []⟩ (.pure r) s) :
    AtMostOnce s.attempts ↔ NotSentAgain s.attempts := by
  have hretried : Retried s := (keeps_withUniqueSigner fuel next).returns hruns
  exact hretried.rise.atMostOnce_iff hretried.before

/-! ### A fork -/

/-- A node that finalizes every extrinsic but the first one: it takes that one and does not find its
block after a fork, or does not let it enter the pool. -/
def serveFork (accepts : Bool) (s : Submissions String Unit) :
    (call : SubmissionCall) → (submissionApi String Unit).Answer call × Submissions String Unit
  | .atLatest => (some (.ok ()), s)
  | .fetchAccount => (some (.ok none), s)
  | .writeNonce update => (some (update s.next).1, { s with next := (update s.next).2 })
  | .createSignedWithNonce _ => (.ok (), s)
  | .submitAndWatch nonce =>
    if s.attempts = [] ∧ ¬accepts then
      (some (.error (.custom POOL_TOO_LOW_PRIORITY none)),
        s.add ⟨nonce, false, some (.error (.custom POOL_TOO_LOW_PRIORITY none))⟩)
    else (some (.ok ()), s)
  | .waitForFinalizedSuccess nonce =>
    if s.attempts = [] then
      (some (.error .blockNotFound), s.add ⟨nonce, true, some (.error .blockNotFound)⟩)
    else (some (.ok ()), s.add ⟨nonce, true, some (.ok ())⟩)
  | .sendShutdown => ((), s)
  | .nextBackoff => (true, s)

theorem sharedEnv_serveFork (accepts : Bool) (s : Submissions String Unit) (call : SubmissionCall) :
    sharedEnv s call (serveFork accepts s call).1 (serveFork accepts s call).2 := by
  refine ⟨s, ⟨UInt32.le_refl _, rfl⟩, ?_⟩
  cases call with
  | writeNonce update => exact .inr ⟨rfl, rfl⟩
  | submitAndWatch nonce =>
    dsimp only [serveFork]
    split
    · exact .inr (.inr ⟨_, false, rfl, rfl⟩)
    · exact .inl ⟨rfl, rfl⟩
  | waitForFinalizedSuccess nonce =>
    dsimp only [serveFork]
    split <;> rfl
  | _ => rfl

/-- The first extrinsic is in the pool again or has never been there; the second is finalized. -/
def forked (accepts : Bool) : Submissions String Unit where
  next := 2
  attempts :=
    [⟨0, accepts, some (.error (if accepts then .blockNotFound
        else .custom POOL_TOO_LOW_PRIORITY none))⟩,
      ⟨1, true, some (.ok ())⟩]

theorem runs_forked (accepts : Bool) : Prog.Runs sharedEnv (withUniqueSigner 2).run ⟨0, []⟩
    (.pure (.ok (some ()) : Except (Error String) (Option Unit))) (forked accepts) := by
  have hruns := Prog.runs_exec (sharedEnv_serveFork accepts)
    (withUniqueSigner (E := String) (V := Unit) 2).run ⟨0, []⟩
  have hexec : (withUniqueSigner (E := String) (V := Unit) 2).run.exec (serveFork accepts) ⟨0, []⟩ =
      (.ok (some ()), forked accepts) := by
    cases accepts <;> decide +kernel
  rwa [hexec] at hruns

theorem sentAgain_of_fork : ∃ s, Prog.Runs sharedEnv (withUniqueSigner 2).run ⟨0, []⟩
    (.pure (.ok (some ()) : Except (Error String) (Option Unit))) s ∧ ¬AtMostOnce s.attempts := by
  refine ⟨forked true, runs_forked true, fun honce => ?_⟩
  have hnonce : (0 : UInt32) = 1 :=
    honce _ List.mem_cons_self _ (List.mem_cons_of_mem _ List.mem_cons_self)
      ⟨rfl, by simp⟩ ⟨rfl, by simp⟩
  exact absurd hnonce (by decide)

/-- The condition holds when the first extrinsic has not entered the pool. -/
theorem atMostOnce_iff_notSentAgain_forked :
    (AtMostOnce (forked true).attempts ↔ NotSentAgain (forked true).attempts) ∧
      (AtMostOnce (forked false).attempts ↔ NotSentAgain (forked false).attempts) :=
  ⟨atMostOnce_iff_notSentAgain 2 (runs_forked true),
    atMostOnce_iff_notSentAgain 2 (runs_forked false)⟩

end InterBtcClients.Runtime.Submission
