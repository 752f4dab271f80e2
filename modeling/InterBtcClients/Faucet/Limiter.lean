import InterBtcClients.Faucet.Http
import InterBtcClients.Library.Pool
import Mathlib.Data.Finset.Card

/-! The concurrency limit of the faucet: any number of requests run at once, and each that has got a
permit gives it back when it ends.  A request that gets none goes on as well, so the limit is kept
where all of them get one. -/

namespace InterBtcClients.Faucet.Limiter

open Library InterBtcClients.Runtime

variable {E ι : Type}

/-- The permits that are available, the requests that have one, those that have asked for one, and
those that have got none. -/
structure World (ι : Type) where
  permits : Nat
  holders : Finset ι
  arrived : ι → Bool
  refused : ι → Bool

def World.start : World ι := ⟨0, ∅, fun _ => false, fun _ => false⟩

def World.setConcurrencyLimit (w : World ι) (n : Nat) : World ι :=
  { w with permits := w.permits + n }

variable [DecidableEq ι]

def World.acquire (w : World ι) (i : ι) : World ι :=
  { w with
    permits := w.permits - 1
    holders := insert i w.holders
    arrived := Function.update w.arrived i true }

def World.refuse (w : World ι) (i : ι) : World ι :=
  { w with
    arrived := Function.update w.arrived i true
    refused := Function.update w.refused i true }

def World.release (w : World ι) (i : ι) : World ι :=
  { w with permits := w.permits + 1, holders := w.holders.erase i }

/-- The answers to the request `i`; what the store and the chain answer is left open. -/
def limiterEnv (i : ι) : Prog.Env (api E) (World ι)
  | w, .tryAcquire, true, w' => 0 < w.permits ∧ w' = w.acquire i
  | w, .tryAcquire, false, w' => w.permits = 0 ∧ w' = w.refuse i
  | w, .releasePermit, _, w' => w' = w.release i
  | w, _, _, w' => w' = w

/-- Only requests change the state. -/
def NothingElse (_ _ : World ι) : Prop := False

/-- The request has asked for a permit and has not ended. -/
def InProgress (requests : ι → Prog (api E) (Except (Error E) Unit)) (w : World ι) (i : ι) : Prop :=
  w.arrived i = true ∧ ∃ call next, requests i = .call call next

/-- At most `n` requests are in progress, those that get no permit have ended at once, and those
that have ended have no permit, so that `n` are available when none is in progress. -/
structure Limited (n : Nat) (requests : ι → Prog (api E) (Except (Error E) Unit)) (w : World ι) :
    Prop where
  atMost : ∀ those : Finset ι, (∀ i ∈ those, InProgress requests w i) → those.card ≤ n
  busy : ∀ i, w.refused i = true → requests i = .pure (.error .busy)
  released : ∀ i result, requests i = .pure result → i ∉ w.holders
  restored : (∀ i, ¬InProgress requests w i) → w.permits = n

/-! ### A request without its permit -/

/-- The calls on the store, the chain and the clock. -/
def Neutral : Call → Prop
  | .tryAcquire | .releasePermit => False
  | _ => True

def NotBusy (e : Error E) : Prop := e ≠ .busy

/-- The program leaves the permits alone, and does not fail with `busy`. -/
abbrev Serves {A : Type} (f : Rpc E A) : Prop := f.run.Yields Neutral (Prog.FailsWith NotBusy)

theorem serves_ask {call : Call} (hcall : Neutral call) :
    Serves (E := E) (ExceptT.lift (ask call)) :=
  Prog.yields_run_lift ⟨hcall, fun _ => trivial⟩

/-- A call whose error becomes one of the request. -/
theorem serves_mapError {A : Type} {p : Prog (api E) (Except E A)} {wrap : E → Error E}
    (hp : p.Only Neutral) (hwrap : ∀ e, NotBusy (wrap e)) :
    Serves (ExceptT.mk (Except.mapError wrap <$> p)) := by
  induction p with
  | pure r =>
    cases r with
    | ok a => exact Prog.failsWith_ok a
    | error e => exact Prog.failsWith_error (hwrap e)
  | call call next ih => exact ⟨hp.1, fun r => ih r (hp.2 r)⟩

theorem serves_runtime {A : Type} {call : Prog (api E) (Except E A)} (hcall : call.Only Neutral) :
    Serves (runtime call) :=
  serves_mapError hcall fun e h => by cases h

theorem serves_throw {A : Type} {e : Error E} (he : NotBusy e) : Serves (throw e : Rpc E A) :=
  Prog.failsWith_error he

theorem serves_pure {A : Type} (a : A) : Serves (pure a : Rpc E A) := Prog.failsWith_ok a

theorem serves_ensureFundable (config : AllowanceConfig) (accountType : FundingRequestAccountType) :
    Serves (E := E) (ensureFundable config accountType) := by
  have hsignature (authUrl : String) : Serves (E := E) (ensureSignatureExists authUrl) := by
    refine Prog.yields_run_bind (serves_mapError ⟨trivial, fun _ => trivial⟩
      fun e h => by cases h) fun signed => ?_
    cases signed with
    | true => exact serves_pure ()
    | false => exact serves_throw fun h => by cases h
  have hbalance (currencyId : CurrencyId) :
      Serves (E := E) (ensureBalance config.maxFundableClientBalance currencyId) := by
    refine Prog.yields_run_bind (serves_runtime ⟨trivial, fun _ => trivial⟩) fun freeBalance => ?_
    refine Prog.yields_run_bind (serves_runtime ⟨trivial, fun _ => trivial⟩) fun reserved => ?_
    refine Prog.yields_run_bind (serves_runtime ⟨trivial, fun _ => trivial⟩) fun one => ?_
    change Serves (if _ then _ else _)
    split
    · exact serves_throw fun h => by cases h
    · exact serves_pure ()
  have hauth : Serves (E := E) (config.authUrl.forM ensureSignatureExists) := by
    cases config.authUrl with
    | none => exact serves_pure ()
    | some authUrl => exact hsignature authUrl
  have hsymbol (allowance : AllowanceAmount) :
      Serves (E := E) (runtime (ask (.tryFromSymbol allowance.symbol))) :=
    serves_runtime ⟨trivial, fun _ => trivial⟩
  refine Prog.yields_run_bind hauth fun _ => ?_
  refine Prog.yields_run_bind (Prog.yields_run_mapM hsymbol _) fun ids => ?_
  exact Prog.yields_run_forM hbalance ids

theorem serves_ensureExpired (cooldownThreshold : DateTime)
    (accountType : FundingRequestAccountType) :
    Serves (E := E) (ensureExpired cooldownThreshold accountType) := by
  refine Prog.yields_run_bind (serves_ask trivial) fun r => ?_
  have hunlock {e : Error E} (he : NotBusy e) :
      Serves (do
        ExceptT.lift (ask .unlock)
        throw e : Rpc E Unit) :=
    Prog.yields_run_bind (serves_ask trivial) fun _ => serves_throw he
  rcases r with e | _ | last
  · exact hunlock fun h => by cases h
  · exact serves_pure ()
  · change Serves (if _ then _ else _)
    split
    · exact serves_pure ()
    · exact hunlock fun h => by cases h

theorem serves_transfer (amounts : Allowance) : Serves (E := E) (transfer amounts) := by
  refine Prog.yields_run_bind (Prog.yields_run_mapM (fun allowance => ?_) _) fun transfers =>
    serves_runtime ⟨trivial, fun _ => trivial⟩
  exact Prog.yields_run_bind (serves_runtime ⟨trivial, fun _ => trivial⟩) fun _ => serves_pure _

theorem serves_atomicFaucetFunding (chrono : Chrono) (config : AllowanceConfig) :
    Serves (E := E) (atomicFaucetFunding chrono config) := by
  have hallowed (accountType : FundingRequestAccountType) :
      Serves (E := E) (ensureFundingAllowed chrono config accountType) := by
    refine Prog.yields_run_bind (serves_ensureFundable config accountType) fun _ => ?_
    refine Prog.yields_run_bind (serves_ask trivial) fun now => ?_
    split
    · exact serves_throw fun h => by cases h
    · exact Prog.yields_run_bind (serves_ask trivial) fun _ => serves_ensureExpired _ _
  have htype : (getAccountType (E := E)).Only Neutral := by
    refine ⟨trivial, fun r => ?_⟩
    cases r with
    | ok vaults => trivial
    | error e => trivial
  refine Prog.yields_run_bind (Prog.yields_run_lift htype) fun accountType => ?_
  refine Prog.yields_run_bind (hallowed accountType) fun _ => ?_
  refine Prog.yields_run_bind (serves_ask trivial) fun now => ?_
  refine Prog.yields_run_bind (serves_ask trivial) fun r => ?_
  cases r with
  | error e =>
    exact Prog.yields_run_bind (serves_ask trivial) fun _ => serves_throw fun h => by cases h
  | ok _ => exact Prog.yields_run_bind (serves_ask trivial) fun _ => serves_transfer _

/-- What a request does after it has asked for a permit. -/
theorem serves_fundWithStore (chrono : Chrono) (config : AllowanceConfig) (resets : E → Bool) :
    Serves (fundWithStore chrono config resets) := by
  refine Prog.yields_run_bind (serves_mapError ⟨trivial, fun _ => trivial⟩
    fun e h => by cases h) fun _ => ?_
  refine Prog.yields_run_lift_bind (serves_atomicFaucetFunding chrono config) fun r hr => ?_
  split
  next => exact serves_pure ()
  next e =>
    split
    · exact Prog.yields_run_bind (serves_mapError ⟨trivial, fun _ => trivial⟩
        fun e h => by cases h) fun _ => serves_throw fun h => by cases h
    · exact serves_throw fun h => by cases h
  next e _ => exact serves_throw (hr e rfl)

/-! ### Where a request is -/

section

variable {chrono : Chrono} {config : AllowanceConfig} {resets : E → Bool}

/-- What is left of a request with a permit. -/
def holding (p : Prog (api E) (Except (Error E) Unit)) : Prog (api E) (Except (Error E) Unit) := do
  let result ← p
  ask .releasePermit
  return result

inductive At (chrono : Chrono) (config : AllowanceConfig) (resets : E → Bool) (i : ι)
    (w : World ι) : Prog (api E) (Except (Error E) Unit) → Prop
  | arriving (harrived : w.arrived i = false) (hholds : i ∉ w.holders)
      (hrefused : w.refused i = false) :
        At chrono config resets i w (fundAccount chrono config resets)
  | holding {p : Prog (api E) (Except (Error E) Unit)} (hp : p.Only Neutral)
      (harrived : w.arrived i = true) (hholds : i ∈ w.holders) (hrefused : w.refused i = false) :
      At chrono config resets i w (holding p)
  | refused {p : Prog (api E) (Except (Error E) Unit)}
      (hp : p.Yields Neutral (Prog.FailsWith NotBusy)) (hholds : i ∉ w.holders)
      (hrefused : w.refused i = true) : At chrono config resets i w p
  | ended (result : Except (Error E) Unit) (hholds : i ∉ w.holders)
      (hrefused : w.refused i = false) :
      At chrono config resets i w (.pure result)

/-- A permit is available or a request has it. -/
def Counted (n : Nat) (w : World ι) : Prop := w.permits + w.holders.card = n

variable {n : Nat} {i j : ι} {w w' : World ι} {call : Call} {r : (api E).Answer call}
variable {next : (api E).Answer call → Prog (api E) (Except (Error E) Unit)}
variable {p : Prog (api E) (Except (Error E) Unit)}

theorem eq_of_neutral (hcall : Neutral call) (hr : limiterEnv i w call r w') : w' = w := by
  cases call with
  | tryAcquire | releasePermit => exact hcall.elim
  | _ => exact hr

theorem At.step (h : At chrono config resets i w (.call call next)) (hcounted : Counted n w)
    (hr : limiterEnv i w call r w') : Counted n w' ∧ At chrono config resets i w' (next r) := by
  generalize hcall : (Prog.call call next : Prog (api E) _) = p at h
  cases h with
  | arriving harrived hholds hrefused =>
    cases hcall
    have hserves := serves_fundWithStore chrono config resets
    cases r with
    | true =>
      obtain ⟨hpermits, rfl⟩ := hr
      refine ⟨?_, .holding hserves.only (Function.update_self _ _ _) (Finset.mem_insert_self _ _)
        hrefused⟩
      simp only [Counted, World.acquire, Finset.card_insert_of_notMem hholds] at hcounted ⊢
      omega
    | false =>
      obtain ⟨-, rfl⟩ := hr
      have hrest : Prog.Yields Neutral (Prog.FailsWith NotBusy)
          ((fundWithStore chrono config resets).run >>= fun result => pure result) :=
        Prog.yields_bind hserves fun _ h => h
      exact ⟨hcounted, .refused hrest hholds (Function.update_self _ _ _)⟩
  | @holding p hp harrived hholds hrefused =>
    cases p with
    | pure result =>
      cases hcall
      cases hr
      refine ⟨?_, .ended result (Finset.notMem_erase i _) hrefused⟩
      have hcard := Finset.card_erase_add_one hholds
      simp only [Counted, World.release] at hcounted ⊢
      omega
    | call c q =>
      cases hcall
      cases eq_of_neutral hp.1 hr
      exact ⟨hcounted, .holding (hp.2 r) harrived hholds hrefused⟩
  | refused hp hholds hrefused =>
    subst hcall
    cases eq_of_neutral hp.1 hr
    exact ⟨hcounted, .refused (hp.2 r) hholds hrefused⟩
  | ended result hholds hrefused => cases hcall

/-- What a request does is seen by no other one but in the number of permits. -/
theorem unchanged_of_ne (hne : j ≠ i) (hr : limiterEnv i w call r w') :
    (j ∈ w'.holders ↔ j ∈ w.holders) ∧ w'.arrived j = w.arrived j ∧ w'.refused j = w.refused j := by
  cases call with
  | tryAcquire =>
    cases r with
    | true =>
      obtain ⟨-, rfl⟩ := hr
      exact ⟨Finset.mem_insert.trans (or_iff_right hne), Function.update_of_ne hne _ _, rfl⟩
    | false =>
      obtain ⟨-, rfl⟩ := hr
      exact ⟨Iff.rfl, Function.update_of_ne hne _ _, Function.update_of_ne hne _ _⟩
  | releasePermit =>
    cases hr
    exact ⟨Finset.mem_erase.trans (and_iff_right hne), rfl, rfl⟩
  | _ =>
    cases hr
    exact ⟨Iff.rfl, rfl, rfl⟩

theorem At.other (h : At chrono config resets j w p) (hne : j ≠ i) (hr : limiterEnv i w call r w') :
    At chrono config resets j w' p := by
  obtain ⟨hholders, harrived', hrefused'⟩ := unchanged_of_ne hne hr
  cases h with
  | arriving harrived hholds hrefused =>
    exact .arriving (harrived'.trans harrived) (mt hholders.mp hholds) (hrefused'.trans hrefused)
  | holding hp harrived hholds hrefused =>
    exact .holding hp (harrived'.trans harrived) (hholders.mpr hholds) (hrefused'.trans hrefused)
  | refused hp hholds hrefused =>
    exact .refused hp (mt hholders.mp hholds) (hrefused'.trans hrefused)
  | ended result hholds hrefused =>
    exact .ended result (mt hholders.mp hholds) (hrefused'.trans hrefused)

theorem assertions_requests (chrono : Chrono) (config : AllowanceConfig) (resets : E → Bool)
    (n : Nat) : Prog.Assertions (limiterEnv (ι := ι)) NothingElse (Counted n)
      (fun i p w => At chrono config resets i w p) where
  own hI hK hr := hK.step hI hr
  others hne _ _ hr hK := hK.other hne hr
  other h := h.elim

omit [DecidableEq ι] in
/-- A request that has got its permit holds it until it ends. -/
theorem At.holds (h : At chrono config resets i w (.call call next)) (harrived : w.arrived i = true)
    (hrefused : w.refused i = false) : i ∈ w.holders := by
  generalize hcall : (Prog.call call next : Prog (api E) _) = p at h
  cases h with
  | arriving hnot _ _ =>
    rw [harrived] at hnot
    cases hnot
  | holding _ _ hholds _ => exact hholds
  | refused _ _ h =>
    rw [hrefused] at h
    cases h
  | ended result _ _ => cases hcall

omit [DecidableEq ι] in
theorem At.released {result : Except (Error E) Unit}
    (h : At chrono config resets i w (.pure result)) : i ∉ w.holders := by
  generalize hpure : (Prog.pure result : Prog (api E) _) = p at h
  cases h with
  | arriving _ hholds _ => exact hholds
  | @holding p _ _ _ _ =>
    cases p with
    | pure result => cases hpure
    | call c q => cases hpure
  | refused _ hholds _ => exact hholds
  | ended _ hholds _ => exact hholds

omit [DecidableEq ι] in
theorem At.arrived (h : At chrono config resets i w p) (hholds : i ∈ w.holders) :
    w.arrived i = true := by
  cases h with
  | arriving _ hnot _ => exact absurd hholds hnot
  | holding _ harrived _ _ => exact harrived
  | refused _ hnot _ => exact absurd hholds hnot
  | ended _ hnot _ => exact absurd hholds hnot

omit [DecidableEq ι] in
/-- A request that has got no permit does not fail with `busy`. -/
theorem At.not_busy (h : At chrono config resets i w p) (hrefused : w.refused i = true) :
    p ≠ .pure (.error .busy) := by
  rintro rfl
  generalize hpure : (Prog.pure (Except.error Error.busy) :
    Prog (api E) (Except (Error E) Unit)) = p at h
  cases h with
  | refused hp _ _ =>
    subst hpure
    exact hp .busy rfl rfl
  | arriving _ _ hnot | holding _ _ _ hnot | ended _ _ hnot =>
    rw [hrefused] at hnot
    cases hnot

variable {requests : ι → Prog (api E) (Except (Error E) Unit)}

omit [DecidableEq ι] in
/-- Every request that has ended has given its permit back. -/
theorem restored (hcounted : Counted n w) (hat : ∀ i, At chrono config resets i w (requests i))
    (hnone : ∀ i, ¬InProgress requests w i) : w.permits = n := by
  have hholders : w.holders = ∅ := by
    refine Finset.eq_empty_of_forall_notMem fun i hi => ?_
    cases hp : requests i with
    | pure result =>
      have h := hat i
      rw [hp] at h
      exact h.released hi
    | call call next => exact hnone i ⟨(hat i).arrived hi, call, next, hp⟩
  rw [Counted, hholders, Finset.card_empty] at hcounted
  omega

omit [DecidableEq ι] in
/-- Where every request has got a permit, those in progress hold them. -/
theorem atMost (hcounted : Counted n w) (hat : ∀ i, At chrono config resets i w (requests i))
    (hrefused : ∀ i, w.refused i = false) (those : Finset ι)
    (hthose : ∀ i ∈ those, InProgress requests w i) : those.card ≤ n := by
  have hsubset : those ⊆ w.holders := by
    intro i hi
    obtain ⟨harrived, call, next, hp⟩ := hthose i hi
    have h := hat i
    rw [hp] at h
    exact h.holds harrived (hrefused i)
  have hcard := Finset.card_le_card hsubset
  unfold Counted at hcounted
  omega

end

/-- In every run of any number of requests, the limit is kept up to the state that is reached if and
only if every request so far has found a permit. -/
theorem limited_iff_available (chrono : Chrono) (config : AllowanceConfig) (resets : E → Bool)
    (n : Nat) {requests : ι → Prog (api E) (Except (Error E) Unit)} {w : World ι}
    (hruns : Prog.PoolRuns limiterEnv NothingElse (fun _ => fundAccount chrono config resets)
      (World.start.setConcurrencyLimit n) requests w) :
    Limited n requests w ↔ ∀ i, w.refused i = false := by
  have hstart : Counted n (World.start.setConcurrencyLimit n : World ι) := by
    simp [Counted, World.setConcurrencyLimit, World.start]
  obtain ⟨hcounted, hat⟩ := (assertions_requests chrono config resets n).poolRuns hstart
    (fun i => .arriving rfl (Finset.notMem_empty i) rfl) hruns
  constructor
  · intro h i
    refine Bool.eq_false_iff.mpr fun hrefused => ?_
    exact (hat i).not_busy hrefused (h.busy i hrefused)
  · intro hrefused
    refine ⟨fun those hthose => atMost hcounted hat hrefused those hthose, fun i hi => ?_,
      fun i result hp => ?_, fun hnone => restored hcounted hat hnone⟩
    · rw [hrefused i] at hi
      cases hi
    · have h := hat i
      rw [hp] at h
      exact h.released

/-! ### A limit of one -/

/-- Times before 1970 are out of range. -/
def unixChrono : Chrono where
  checkedSubSigned time duration := if time < duration then none else some (time - duration)
  eq_sub {time duration time'} h := by
    by_cases hlt : time < duration
    · rw [if_pos hlt] at h
      cases h
    · rw [if_neg hlt] at h
      exact (Option.some.inj h).symm

def noAllowances : AllowanceConfig := ⟨0, 0, [], [], none⟩

def startRequests (_ : Bool) : Prog (api Unit) (Except (Error Unit) Unit) :=
  fundAccount unixChrono noAllowances fun _ => false

def startWorld : World Bool := World.start.setConcurrencyLimit 1

/-- The store cannot be opened. -/
def serve (i : Bool) (w : World Bool) : (call : Call) → Option ((api Unit).Answer call × World Bool)
  | .tryAcquire => if 0 < w.permits then some (true, w.acquire i) else some (false, w.refuse i)
  | .releasePermit => some ((), w.release i)
  | .openKvStore => some (.error (), w)
  | _ => none

theorem limiterEnv_serve {i : Bool} {w w' : World Bool} {call : Call} {r : (api Unit).Answer call}
    (h : serve i w call = some (r, w')) : limiterEnv i w call r w' := by
  cases call with
  | tryAcquire =>
    dsimp only [serve] at h
    split at h
    next hpermits =>
      cases h
      exact ⟨hpermits, rfl⟩
    next hnone =>
      cases h
      exact ⟨Nat.eq_zero_of_not_pos hnone, rfl⟩
  | releasePermit | openKvStore =>
    cases h
    rfl
  | _ => cases h

/-- The requests after the given turns. -/
def after (turns : List Bool) : (Bool → Prog (api Unit) (Except (Error Unit) Unit)) × World Bool :=
  Prog.playPool serve (turns.map .inl) (startRequests, startWorld)

theorem poolRuns_after (turns : List Bool) :
    Prog.PoolRuns limiterEnv NothingElse startRequests startWorld (after turns).1 (after turns).2 :=
  Prog.poolRuns_play limiterEnv_serve (fun move hmove => by simp at hmove) _ _

/-- The second request arrives when the first one has failed. -/
theorem limited_iff_available_failed :
    Limited 1 (after [false, false, false, true]).1 (after [false, false, false, true]).2 ∧
      (after [false, false, false, true]).1 false = .pure (.error (.kvError ())) ∧
      InProgress (after [false, false, false, true]).1 (after [false, false, false, true]).2
        true := by
  have havailable (i : Bool) : (after [false, false, false, true]).2.refused i = false := by
    cases i with
    | false => rfl
    | true => rfl
  exact ⟨(limited_iff_available unixChrono noAllowances (fun _ => false) 1 (poolRuns_after _)).mpr
    havailable, rfl, rfl, .openKvStore, _, rfl⟩

/-- The second request arrives when the first one has the permit, and goes on. -/
theorem not_limited_of_refused :
    ∃ requests w, Prog.PoolRuns limiterEnv NothingElse startRequests startWorld requests w ∧
      InProgress requests w false ∧ InProgress requests w true ∧ ¬Limited 1 requests w := by
  have hfirst : InProgress (after [false, true]).1 (after [false, true]).2 false :=
    ⟨rfl, .openKvStore, _, rfl⟩
  have hsecond : InProgress (after [false, true]).1 (after [false, true]).2 true :=
    ⟨rfl, .openKvStore, _, rfl⟩
  refine ⟨_, _, poolRuns_after [false, true], hfirst, hsecond, fun h => ?_⟩
  have hcard := h.atMost {false, true} fun i _ => by
    cases i with
    | false => exact hfirst
    | true => exact hsecond
  exact absurd hcard (by decide)

end InterBtcClients.Faucet.Limiter
