import InterBtcClients.Library.Pool
import InterBtcClients.Runtime.Submission
import Mathlib.Data.List.Nodup

/-! The nonces that any number of concurrent calls of `get_fresh_nonce` return: the chain is read
before the lock is taken, and the cached nonce is above all that have been handed out. -/

namespace InterBtcClients.Runtime.Submission

open Library

variable {ι E V : Type} [DecidableEq ι]

/-- The cached nonce, what each call has read from the chain last, and the calls that have taken the
write lock, in that order, with their nonces. -/
structure Nonces (ι : Type) where
  next : UInt32
  read : ι → UInt32
  taken : List (ι × UInt32)

/-- A client that has been started with a cached nonce. -/
def Nonces.start (next : UInt32) : Nonces ι := ⟨next, fun _ => 0, []⟩

/-- The surroundings of one call: the chain answers as it likes, and what is done under the lock is
done at once. -/
def nonceEnv (i : ι) : Prog.Env (submissionApi E V) (Nonces ι)
  | s, .fetchAccount, r, s' =>
    s' = r.elim s fun account => { s with read := Function.update s.read i (onChainNonce account) }
  | s, .writeNonce update, r, s' =>
    r = none ∧ s' = s ∨ r = some (update s.next).1 ∧
      s' = { s with next := (update s.next).2, taken := s.taken ++ [(i, (update s.next).1)] }
  | s, _, _, s' => s' = s

/-- What is left of a call that has read `read` and has not taken the lock: it takes the lock once,
and returns with the nonce. -/
def Locks : UInt32 → Prog (submissionApi E V) (Except (Stopped E) UInt32) → Prop
  | _, .pure a => ∀ nonce, a ≠ .ok nonce
  | read, .call .fetchAccount next => ∀ r, Locks (r.elim read onChainNonce) (next r)
  | read, .call (.writeNonce update) next =>
    update = takeNonce read ∧ ∀ r, next r = .pure (beforeTimeout r)
  | read, .call .atLatest next => ∀ r, Locks read (next r)
  | _, .call _ _ => False

theorem locks_getFreshNonce (read : UInt32) : Locks read (getFreshNonce (E := E) (V := V)).run := by
  intro r
  rcases r with _ | e | _
  · intro nonce h
    cases h
  · intro nonce h
    cases h
  · intro account
    cases account with
    | none =>
      intro nonce h
      cases h
    | some account => exact ⟨rfl, fun r => by cases r <;> rfl⟩

/-- The nonces that have been handed out rise, as long as they are not the largest one, and the
cached nonce is above them. -/
structure Rising (s : Nonces ι) : Prop where
  distinct : (s.taken.map Prod.fst).Nodup
  rising : s.taken.Pairwise fun a b => a.2 ≠ 0xFFFFFFFF → a.2 < b.2
  below : ∀ a ∈ s.taken, a.2 ≠ 0xFFFFFFFF → a.2 < s.next

/-- A call has not taken the lock, or it has and has returned the nonce. -/
def AtLock (i : ι) (p : Prog (submissionApi E V) (Except (Stopped E) UInt32)) (s : Nonces ι) :
    Prop :=
  (∀ nonce, (i, nonce) ∉ s.taken) ∧ Locks (s.read i) p ∨
    ∃ nonce, p = .pure (.ok nonce) ∧ (i, nonce) ∈ s.taken ∧ s.read i ≤ nonce

omit [DecidableEq ι] in
/-- One call under the lock. -/
theorem Rising.take {s : Nonces ι} {i : ι} (h : Rising s) (hi : ∀ nonce, (i, nonce) ∉ s.taken)
    (read : UInt32) :
    Rising { s with
      next := (takeNonce read s.next).2
      taken := s.taken ++ [(i, (takeNonce read s.next).1)] } where
  distinct := by
    rw [List.map_append, List.nodup_append]
    refine ⟨h.distinct, by simp, ?_⟩
    rintro a ha b hb rfl
    obtain ⟨⟨j, nonce⟩, hmem, rfl⟩ := List.mem_map.mp ha
    have hj : j = i := List.mem_singleton.mp hb
    subst hj
    exact hi nonce hmem
  rising := by
    refine List.pairwise_append.mpr ⟨h.rising, List.pairwise_singleton _ _, ?_⟩
    intro a ha b hb hne
    rw [List.mem_singleton.mp hb]
    exact UInt32.lt_of_lt_of_le (h.below a ha hne) (le_takeNonce read s.next).2
  below := by
    intro a ha hne
    have hsucc := saturatingAdd_one (takeNonce read s.next).1
    change a.2 < saturatingAdd (takeNonce read s.next).1 1
    rcases List.mem_append.mp ha with ha | ha
    · have hlt := UInt32.lt_of_lt_of_le (h.below a ha hne) (le_takeNonce read s.next).2
      exact UInt32.lt_of_lt_of_le hlt hsucc.1
    · rw [List.mem_singleton.mp ha] at hne ⊢
      exact hsucc.2 hne

/-- The steps of one call. -/
theorem AtLock.step {i : ι} {s s' : Nonces ι} {c : SubmissionCall}
    {next : (submissionApi E V).Answer c → Prog (submissionApi E V) (Except (Stopped E) UInt32)}
    {r : (submissionApi E V).Answer c} (h : AtLock i (.call c next) s) (hI : Rising s)
    (hr : nonceEnv i s c r s') : Rising s' ∧ AtLock i (next r) s' := by
  obtain ⟨hi, hlocks⟩ | ⟨nonce, hp, -⟩ := h
  · cases c with
    | atLatest =>
      cases hr
      exact ⟨hI, .inl ⟨hi, hlocks r⟩⟩
    | fetchAccount =>
      have hnext := hlocks r
      cases r with
      | none =>
        cases hr
        exact ⟨hI, .inl ⟨hi, hnext⟩⟩
      | some account =>
        cases hr
        refine ⟨⟨hI.distinct, hI.rising, hI.below⟩, .inl ⟨hi, ?_⟩⟩
        change Locks (Function.update s.read i (onChainNonce account) i) _
        rw [Function.update_self]
        exact hnext
    | writeNonce update =>
      obtain ⟨rfl, hnext⟩ := hlocks
      obtain ⟨rfl, rfl⟩ | ⟨rfl, rfl⟩ := hr
      · refine ⟨hI, .inl ⟨hi, ?_⟩⟩
        rw [hnext]
        intro nonce hnonce
        cases hnonce
      · exact ⟨hI.take hi _, .inr ⟨_, hnext _, by simp, (le_takeNonce _ _).1⟩⟩
    | _ => exact hlocks.elim
  · cases hp

/-- What a step of another call leaves as it is. -/
theorem nonceEnv_frame {i j : ι} {s s' : Nonces ι} {c : SubmissionCall}
    {r : (submissionApi E V).Answer c} (hne : j ≠ i) (hr : nonceEnv i s c r s') :
    s'.read j = s.read j ∧ ∀ nonce, (j, nonce) ∈ s'.taken ↔ (j, nonce) ∈ s.taken := by
  cases c with
  | fetchAccount =>
    cases r with
    | none =>
      cases hr
      exact ⟨rfl, fun _ => Iff.rfl⟩
    | some account =>
      cases hr
      exact ⟨Function.update_of_ne hne _ _, fun _ => Iff.rfl⟩
  | writeNonce update =>
    obtain ⟨-, rfl⟩ | ⟨-, rfl⟩ := hr
    · exact ⟨rfl, fun _ => Iff.rfl⟩
    · refine ⟨rfl, fun nonce => ?_⟩
      simp [hne]
  | _ =>
    cases hr
    exact ⟨rfl, fun _ => Iff.rfl⟩

/-- A step of another call. -/
theorem AtLock.stable {i j : ι} {p : Prog (submissionApi E V) (Except (Stopped E) UInt32)}
    {s s' : Nonces ι} {c : SubmissionCall} {r : (submissionApi E V).Answer c} (hne : j ≠ i)
    (hr : nonceEnv i s c r s') (h : AtLock j p s) : AtLock j p s' := by
  obtain ⟨hread, htaken⟩ := nonceEnv_frame hne hr
  unfold AtLock at *
  simp only [hread, htaken]
  exact h

theorem assertions_getFreshNonce :
    Prog.Assertions (nonceEnv (ι := ι) (E := E) (V := V)) (fun _ _ => False) Rising AtLock where
  own hI hK hr := hK.step hI hr
  others hne _ _ hr hK := hK.stable hne hr
  other h := h.elim

/-- Whatever the chain answers and in whatever order the calls run, as long as none of them returns
the largest nonce: the nonces that have been returned are those taken under the lock, they rise in
the order in which the lock was taken, no two calls have the same one, and each is at least the one
that its call has read. -/
theorem nonces_of_poolRuns (next : UInt32) {s : Nonces ι}
    {calls : ι → Prog (submissionApi E V) (Except (Stopped E) UInt32)}
    (hruns : Prog.PoolRuns nonceEnv (fun _ _ => False) (fun _ => getFreshNonce.run)
      (Nonces.start next) calls s)
    (hmax : ∀ i, calls i ≠ .pure (.ok 0xFFFFFFFF)) :
    (∀ i nonce, calls i = .pure (.ok nonce) ↔ (i, nonce) ∈ s.taken) ∧
      (s.taken.map Prod.snd).Pairwise (· < ·) ∧
      (∀ i j nonce, calls i = .pure (.ok nonce) → calls j = .pure (.ok nonce) → i = j) ∧
      ∀ i nonce, calls i = .pure (.ok nonce) → s.read i ≤ nonce := by
  have hstart : Rising (Nonces.start (ι := ι) next) :=
    ⟨List.nodup_nil, .nil, List.forall_mem_nil _⟩
  have hcalls (i : ι) : AtLock i (getFreshNonce (E := E) (V := V)).run (Nonces.start next) :=
    .inl ⟨fun _ => List.not_mem_nil, locks_getFreshNonce 0⟩
  obtain ⟨hrising, hlock⟩ := assertions_getFreshNonce.poolRuns hstart hcalls hruns
  have hreturned (i : ι) (nonce : UInt32) :
      calls i = .pure (.ok nonce) ↔ (i, nonce) ∈ s.taken := by
    obtain ⟨hi, hlocks⟩ | ⟨nonce', hcall, hmem, -⟩ := hlock i
    · refine ⟨fun hcall => ?_, fun hmem => absurd hmem (hi nonce)⟩
      rw [hcall] at hlocks
      exact absurd rfl (hlocks nonce)
    · rw [hcall]
      constructor
      · intro h
        cases h
        exact hmem
      · intro hmem'
        have heq : (i, nonce) = (i, nonce') :=
          List.inj_on_of_nodup_map hrising.distinct hmem' hmem rfl
        rw [(Prod.mk.inj heq).2]
  have hrises : (s.taken.map Prod.snd).Pairwise (· < ·) := by
    refine List.pairwise_map.mpr (hrising.rising.imp_of_mem ?_)
    rintro ⟨i, nonce⟩ b ha - hlt
    refine hlt fun hnonce => hmax i ?_
    rw [← hnonce]
    exact (hreturned i nonce).mpr ha
  refine ⟨hreturned, hrises, fun i j nonce hi hj => ?_, fun i nonce hcall => ?_⟩
  · have hdistinct : (s.taken.map Prod.snd).Nodup := hrises.imp UInt32.ne_of_lt
    have heq : (i, nonce) = (j, nonce) :=
      List.inj_on_of_nodup_map hdistinct ((hreturned i nonce).mp hi) ((hreturned j nonce).mp hj) rfl
    exact (Prod.mk.inj heq).1
  · obtain ⟨-, hlocks⟩ | ⟨nonce', hcall', -, hread⟩ := hlock i
    · rw [hcall] at hlocks
      exact absurd rfl (hlocks nonce)
    · rw [hcall] at hcall'
      cases hcall'
      exact hread

/-! ### Two calls -/

/-- A chain on which the account has the nonce 5. -/
def serveNonce (i : Bool) (s : Nonces Bool) :
    (call : SubmissionCall) → Option ((submissionApi String Unit).Answer call × Nonces Bool)
  | .atLatest => some (some (.ok ()), s)
  | .fetchAccount => some (some (.ok (some 5)), { s with read := Function.update s.read i 5 })
  | .writeNonce update => some (some (update s.next).1,
      { s with next := (update s.next).2, taken := s.taken ++ [(i, (update s.next).1)] })
  | .createSignedWithNonce _ => some (.ok (), s)
  | .submitAndWatch _ => some (some (.ok ()), s)
  | .waitForFinalizedSuccess _ => some (some (.ok ()), s)
  | .sendShutdown => some ((), s)
  | .nextBackoff => some (false, s)

theorem nonceEnv_serveNonce {i : Bool} {s s' : Nonces Bool} {call : SubmissionCall}
    {r : (submissionApi String Unit).Answer call} (h : serveNonce i s call = some (r, s')) :
    nonceEnv i s call r s' := by
  cases call <;> cases h
  case writeNonce => exact .inr ⟨rfl, rfl⟩
  all_goals rfl

/-- Both read the chain before either takes the lock. -/
def bothRead : (Bool → Prog (submissionApi String Unit) (Except (Stopped String) UInt32)) ×
    Nonces Bool :=
  Prog.playPool serveNonce
    [.inl false, .inl true, .inl false, .inl true, .inl true, .inl false]
    (fun _ => getFreshNonce.run, Nonces.start 0)

theorem nonces_of_poolRuns_bothRead :
    bothRead.2.taken = [(true, 5), (false, 6)] ∧ bothRead.2.read false ≤ 6 ∧
      (bothRead.2.taken.map Prod.snd).Pairwise (· < ·) := by
  have hturns (move : Nonces Bool → Nonces Bool)
      (hmove : .inr move ∈ ([.inl false, .inl true, .inl false, .inl true, .inl true, .inl false] :
        List (Bool ⊕ (Nonces Bool → Nonces Bool)))) (s : Nonces Bool) : False := by
    simp at hmove
  have hruns : Prog.PoolRuns nonceEnv (fun _ _ => False) (fun _ => getFreshNonce.run)
      (Nonces.start 0) bothRead.1 bothRead.2 :=
    Prog.poolRuns_play nonceEnv_serveNonce hturns _ _
  have hfalse : bothRead.1 false = .pure (.ok 6) := rfl
  have htrue : bothRead.1 true = .pure (.ok 5) := rfl
  have hmax : ∀ i, bothRead.1 i ≠ .pure (.ok 0xFFFFFFFF) := by
    rintro (_ | _)
    · rw [hfalse]
      simp
    · rw [htrue]
      simp
  obtain ⟨-, hrises, -, hread⟩ := nonces_of_poolRuns 0 hruns hmax
  exact ⟨rfl, hread false 6 hfalse, hrises⟩

end InterBtcClients.Runtime.Submission
