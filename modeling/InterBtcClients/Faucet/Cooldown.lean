import InterBtcClients.Faucet.Http
import InterBtcClients.Library.Pool

/-! The cooldown of the faucet: any number of requests for one account run at once, and of those for
one type of account whose transfers succeed any two have been claimed a cooldown apart, unless a
failed request has removed the claim of another one. -/

namespace InterBtcClients.Faucet.Cooldown

open Library InterBtcClients.Runtime

variable {E ι : Type}

/-! ### The requests at once -/

/-- The time, what is stored for the account, the request that holds the lock, what each request has
stored that has not failed since, and whether its transfer has succeeded. -/
structure World (ι : Type) where
  clock : DateTime
  record : Option FaucetRequest
  lock : Option ι
  claims : ι → Option FaucetRequest
  paid : ι → Bool

def World.start (clock : DateTime) (record : Option FaucetRequest) : World ι :=
  ⟨clock, record, none, fun _ => none, fun _ => false⟩

def World.claim [DecidableEq ι] (w : World ι) (i : ι) (request : FaucetRequest) : World ι :=
  { w with record := some request, claims := Function.update w.claims i (some request) }

def World.fail [DecidableEq ι] (w : World ι) (i : ι) : World ι :=
  { w with claims := Function.update w.claims i none }

/-- The answers to the request `i`.  A store that reports a failure may have done what it was asked
for. -/
def faucetEnv [DecidableEq ι] (i : ι) : Prog.Env (api E) (World ι)
  | w, .now, time, w' => time = w.clock ∧ w' = w
  | w, .lock, _, w' => w.lock = none ∧ w' = { w with lock := some i }
  | w, .unlock, _, w' => w' = { w with lock := none }
  | w, .kvGet, r, w' => (∀ record, r = .ok record → record = w.record) ∧ w' = w
  | w, .kvSet request, .ok _, w' => w' = w.claim i request
  | w, .kvSet request, .error _, w' => w' = w ∨ w' = { w with record := some request }
  | w, .kvRemove, .ok _, w' => w' = { w.fail i with record := none }
  | w, .kvRemove, .error _, w' => w' = w.fail i ∨ w' = { w.fail i with record := none }
  | w, .transferTo _, .ok _, w' => w' = { w with paid := Function.update w.paid i true }
  | w, .transferTo _, .error _, w' => w' = w.fail i
  | w, _, _, w' => w' = w

/-- The clock is never set back. -/
def TimePasses (w w' : World ι) : Prop := ∃ clock, w.clock ≤ clock ∧ w' = { w with clock }

/-- The cooldown in seconds. -/
def cooldown (config : AllowanceConfig) : Int := config.faucetCooldownHours * 3600

/-- The requests whose transfers have succeeded have made their claims, and for one type of account
a cooldown apart. -/
structure Payouts (cooldown : Int) (w : World ι) : Prop where
  claimed : ∀ i, w.paid i = true → ∃ claim, w.claims i = some claim
  apart : ∀ i j claim claim', i ≠ j → w.paid i = true → w.paid j = true →
    w.claims i = some claim → w.claims j = some claim' → claim.accountType = claim'.accountType →
    claim.datetime + cooldown ≤ claim'.datetime ∨ claim'.datetime + cooldown ≤ claim.datetime

/-- When the record is removed, the claims of the other requests that have not failed are a cooldown
old. -/
def Meets (cooldown : Int) (i : ι) (w : World ι) : Call → Prop
  | .kvRemove => ∀ j claim, j ≠ i → w.claims j = some claim →
    claim.datetime + cooldown ≤ w.clock.toRfc2822
  | _ => True

/-! ### The invariant -/

section Invariant

/-- A record of an account that has been a user keeps no vault from making a claim. -/
structure Recorded (cooldown : Int) (clock : DateTime) (record claim : FaucetRequest) : Prop where
  stored : record.datetime ≤ clock.toRfc2822
  latest : claim.datetime ≤ record.datetime
  user : record.accountType = .user → claim.accountType = .vault →
    claim.datetime + cooldown ≤ record.datetime

structure Inv (cooldown : Int) (w : World ι) : Prop where
  apart : ∀ i j claim claim', i ≠ j → w.claims i = some claim → w.claims j = some claim' →
    claim.accountType = claim'.accountType →
    claim.datetime + cooldown ≤ claim'.datetime ∨ claim'.datetime + cooldown ≤ claim.datetime
  past : ∀ i claim, w.claims i = some claim → claim.datetime ≤ w.clock.toRfc2822
  recorded : ∀ record, w.record = some record → ∀ i claim, w.claims i = some claim →
    Recorded cooldown w.clock record claim
  removed : w.record = none → ∀ i claim, w.claims i = some claim →
    claim.datetime + cooldown ≤ w.clock.toRfc2822
  paid : ∀ i, w.paid i = true → ∃ claim, w.claims i = some claim

theorem Inv.payouts {cooldown : Int} {w : World ι} (h : Inv cooldown w) : Payouts cooldown w :=
  ⟨h.paid, fun i j claim claim' hij _ _ => h.apart i j claim claim' hij⟩

theorem inv_start (cooldown : Int) (clock : DateTime) (record : Option FaucetRequest) :
    Inv cooldown (World.start clock record : World ι) :=
  ⟨nofun, nofun, nofun, nofun, nofun⟩

theorem toRfc2822_mono {time time' : DateTime} (h : time ≤ time') :
    time.toRfc2822 ≤ time'.toRfc2822 :=
  Int.ediv_le_ediv (by decide) h

variable {cooldown : Int} {w w' : World ι} {i : ι}

theorem Inv.passes (h : Inv cooldown w) (hpasses : TimePasses w w') : Inv cooldown w' := by
  obtain ⟨clock, hclock, rfl⟩ := hpasses
  have hseconds := toRfc2822_mono hclock
  refine ⟨h.apart, fun i claim hclaim => Int.le_trans (h.past i claim hclaim) hseconds,
    fun record hrecord i claim hclaim => ?_,
    fun hrecord i claim hclaim => Int.le_trans (h.removed hrecord i claim hclaim) hseconds, h.paid⟩
  have hrecorded := h.recorded record hrecord i claim hclaim
  exact ⟨Int.le_trans hrecorded.stored hseconds, hrecorded.latest, hrecorded.user⟩

theorem Inv.withLock (h : Inv cooldown w) (lock : Option ι) : Inv cooldown { w with lock } :=
  ⟨h.apart, h.past, h.recorded, h.removed, h.paid⟩

/-- The claims that have been made are in the past of a new one, and no claim of the new one's type
is less than a cooldown old. -/
def Cleared (cooldown : Int) (request : FaucetRequest) (w : World ι) : Prop :=
  ∀ j claim, w.claims j = some claim → claim.datetime ≤ request.datetime ∧
    (request.accountType = .vault ∧ claim.accountType = .user ∨
      claim.datetime + cooldown ≤ request.datetime)

theorem recorded_of_cleared {request : FaucetRequest} (h : Cleared cooldown request w)
    (hpast : request.datetime ≤ w.clock.toRfc2822) {j : ι} {claim : FaucetRequest}
    (hclaim : w.claims j = some claim) : Recorded cooldown w.clock request claim := by
  obtain ⟨hlatest, hcleared⟩ := h j claim hclaim
  refine ⟨hpast, hlatest, fun huser hvault => ?_⟩
  rcases hcleared with ⟨hrequest, -⟩ | hcleared
  · rw [huser] at hrequest
    cases hrequest
  · exact hcleared

theorem Inv.store {request : FaucetRequest} (h : Inv cooldown w)
    (hcleared : Cleared cooldown request w) (hpast : request.datetime ≤ w.clock.toRfc2822) :
    Inv cooldown { w with record := some request } := by
  refine ⟨h.apart, h.past, fun record hrecord j claim hclaim => ?_, nofun, h.paid⟩
  cases hrecord
  exact recorded_of_cleared hcleared hpast hclaim

variable [DecidableEq ι]

@[simp] theorem fail_claims_self (w : World ι) (i : ι) : (w.fail i).claims i = none :=
  Function.update_self ..

@[simp] theorem fail_claims_of_ne (w : World ι) {i j : ι} (h : j ≠ i) :
    (w.fail i).claims j = w.claims j :=
  Function.update_of_ne h ..

@[simp] theorem claim_claims_self (w : World ι) (i : ι) (request : FaucetRequest) :
    (w.claim i request).claims i = some request :=
  Function.update_self ..

@[simp] theorem claim_claims_of_ne (w : World ι) {i j : ι} (h : j ≠ i) (request : FaucetRequest) :
    (w.claim i request).claims j = w.claims j :=
  Function.update_of_ne h ..

theorem fail_claims {j : ι} {claim : FaucetRequest} (h : (w.fail i).claims j = some claim) :
    j ≠ i ∧ w.claims j = some claim := by
  by_cases hj : j = i
  · subst hj
    rw [fail_claims_self] at h
    cases h
  · rw [fail_claims_of_ne w hj] at h
    exact ⟨hj, h⟩

theorem Inv.fail (h : Inv cooldown w) (hpaid : w.paid i = false) : Inv cooldown (w.fail i) where
  apart j k claim claim' hjk hj hk :=
    h.apart j k claim claim' hjk (fail_claims hj).2 (fail_claims hk).2
  past j claim hj := h.past j claim (fail_claims hj).2
  recorded record hrecord j claim hj := h.recorded record hrecord j claim (fail_claims hj).2
  removed hrecord j claim hj := h.removed hrecord j claim (fail_claims hj).2
  paid j hj := by
    have hne : j ≠ i := by
      rintro rfl
      exact Bool.false_ne_true (hpaid.symm.trans hj)
    rw [fail_claims_of_ne w hne]
    exact h.paid j hj

theorem Inv.remove (h : Inv cooldown w) (hpaid : w.paid i = false)
    (hmeets : ∀ j claim, j ≠ i → w.claims j = some claim →
      claim.datetime + cooldown ≤ w.clock.toRfc2822) :
    Inv cooldown { w.fail i with record := none } := by
  have hfail := h.fail hpaid
  refine ⟨hfail.apart, hfail.past, nofun, fun _ j claim hj => ?_, hfail.paid⟩
  obtain ⟨hne, hj⟩ := fail_claims hj
  exact hmeets j claim hne hj

theorem Inv.pay {claim : FaucetRequest} (h : Inv cooldown w) (hclaim : w.claims i = some claim) :
    Inv cooldown { w with paid := Function.update w.paid i true } := by
  refine ⟨h.apart, h.past, h.recorded, h.removed, fun j hj => ?_⟩
  by_cases hji : j = i
  · exact ⟨claim, hji ▸ hclaim⟩
  · exact h.paid j ((Function.update_of_ne hji ..).symm.trans hj)

theorem Inv.claim {request : FaucetRequest} (h : Inv cooldown w)
    (hcleared : Cleared cooldown request w) (hpast : request.datetime ≤ w.clock.toRfc2822) :
    Inv cooldown (w.claim i request) := by
  have hclaims {j : ι} {claim : FaucetRequest} (hj : (w.claim i request).claims j = some claim) :
      j = i ∧ claim = request ∨ j ≠ i ∧ w.claims j = some claim := by
    by_cases hji : j = i
    · subst hji
      rw [claim_claims_self] at hj
      cases hj
      exact .inl ⟨rfl, rfl⟩
    · rw [claim_claims_of_ne w hji] at hj
      exact .inr ⟨hji, hj⟩
  have hother {j : ι} {claim : FaucetRequest} (hj : w.claims j = some claim)
      (htype : claim.accountType = request.accountType) :
      claim.datetime + cooldown ≤ request.datetime := by
    rcases (hcleared j claim hj).2 with ⟨hvault, huser⟩ | hle
    · rw [htype, hvault] at huser
      cases huser
    · exact hle
  constructor
  · intro j k claim claim' hjk hj hk htype
    rcases hclaims hj with ⟨rfl, rfl⟩ | ⟨-, hj'⟩
    · rcases hclaims hk with ⟨rfl, rfl⟩ | ⟨-, hk'⟩
      · exact absurd rfl hjk
      · exact .inr (hother hk' htype.symm)
    · rcases hclaims hk with ⟨rfl, rfl⟩ | ⟨-, hk'⟩
      · exact .inl (hother hj' htype)
      · exact h.apart j k claim claim' hjk hj' hk' htype
  · intro j claim hj
    rcases hclaims hj with ⟨rfl, rfl⟩ | ⟨-, hj⟩
    · exact hpast
    · exact h.past j claim hj
  · intro record hrecord j claim hj
    cases hrecord
    rcases hclaims hj with ⟨rfl, rfl⟩ | ⟨-, hj⟩
    · refine ⟨hpast, Int.le_refl _, fun huser hvault => ?_⟩
      rw [huser] at hvault
      cases hvault
    · exact recorded_of_cleared hcleared hpast hj
  · exact nofun
  · intro j hj
    by_cases hji : j = i
    · exact ⟨request, by rw [hji, claim_claims_self]⟩
    · obtain ⟨claim, hclaim⟩ := h.paid j hj
      exact ⟨claim, by rw [claim_claims_of_ne w hji, hclaim]⟩

end Invariant

/-! ### One request -/

/-- What the request relies on: while it holds the lock, nobody else makes a claim. -/
structure Relies (cooldown : Int) (i : ι) (w w' : World ι) : Prop where
  inv : Inv cooldown w → Inv cooldown w'
  claim : w'.claims i = w.claims i
  paid : w'.paid i = w.paid i
  clock : w.clock ≤ w'.clock
  locked : w.lock = some i → w'.lock = some i ∧
    ∀ j claim, w'.claims j = some claim → w.claims j = some claim

structure Grants (cooldown : Int) (i : ι) (w w' : World ι) : Prop where
  inv : Inv cooldown w → Inv cooldown w'
  claims : ∀ j, j ≠ i → w'.claims j = w.claims j
  paid : ∀ j, j ≠ i → w'.paid j = w.paid j
  clock : w.clock ≤ w'.clock
  locked : ∀ j, j ≠ i → w.lock = some j → w'.lock = some j ∧
    ∀ claim, w'.claims i = some claim → w.claims i = some claim

section Request

variable {cooldown : Int} {i : ι} {w w' : World ι}

theorem Grants.refl (i : ι) (w : World ι) : Grants cooldown i w w :=
  ⟨id, fun _ _ => rfl, fun _ _ => rfl, Int.le_refl _, fun _ _ h => ⟨h, fun _ => id⟩⟩

/-- The transfer of the request has not succeeded. -/
structure Unpaid (cooldown : Int) (i : ι) (w : World ι) : Prop where
  inv : Inv cooldown w
  paid : w.paid i = false

/-- The request may make a claim: it holds the lock, and no claim is too young. -/
structure Allowed (cooldown : Int) (i : ι) (accountType : FundingRequestAccountType) (w : World ι) :
    Prop where
  unpaid : Unpaid cooldown i w
  locked : w.lock = some i
  cleared : Cleared cooldown ⟨w.clock.toRfc2822, accountType⟩ w

structure Claimed (cooldown : Int) (i : ι) (w : World ι) : Prop where
  unpaid : Unpaid cooldown i w
  claimed : ∃ claim, w.claims i = some claim

theorem stable_unpaid : Prog.Stable (Relies cooldown i) (Unpaid cooldown i) :=
  fun _ _ hrelies h => ⟨hrelies.inv h.inv, hrelies.paid.trans h.paid⟩

theorem Cleared.mono {request : FaucetRequest} {datetime : Int} (h : Cleared cooldown request w)
    (hclaims : ∀ j claim, w'.claims j = some claim → w.claims j = some claim)
    (hdatetime : request.datetime ≤ datetime) :
    Cleared cooldown ⟨datetime, request.accountType⟩ w' := by
  intro j claim hj
  obtain ⟨hlatest, hcleared⟩ := h j claim (hclaims j claim hj)
  exact ⟨Int.le_trans hlatest hdatetime, hcleared.imp_right fun hle => Int.le_trans hle hdatetime⟩

theorem stable_allowed {accountType : FundingRequestAccountType} :
    Prog.Stable (Relies cooldown i) (Allowed cooldown i accountType) := by
  intro w w' hrelies h
  obtain ⟨hlocked, hclaims⟩ := hrelies.locked h.locked
  exact ⟨stable_unpaid _ _ hrelies h.unpaid, hlocked,
    h.cleared.mono hclaims (toRfc2822_mono hrelies.clock)⟩

theorem stable_claimed : Prog.Stable (Relies cooldown i) (Claimed cooldown i) := by
  intro w w' hrelies h
  obtain ⟨claim, hclaim⟩ := h.claimed
  exact ⟨stable_unpaid _ _ hrelies h.unpaid, claim, hrelies.claim.trans hclaim⟩

/-- A record that has expired lets a claim be made only when the others are old enough. -/
theorem cleared_of_record {accountType : FundingRequestAccountType} {cooldownThreshold : DateTime}
    {config : AllowanceConfig} {record : Option FaucetRequest} {chrono : Chrono} {now : DateTime}
    (h : Inv (Cooldown.cooldown config) w) (hrecord : w.record = record) (hnow : now ≤ w.clock)
    (hthreshold : chrono.checkedSubSigned now (hours config.faucetCooldownHours) =
      some cooldownThreshold)
    (hexpired : ∀ last, record = some last → hasRequestExpired (.parseFromRfc2822 last.datetime)
      cooldownThreshold accountType last.accountType = true) :
    Cleared (Cooldown.cooldown config) ⟨w.clock.toRfc2822, accountType⟩ w := by
  intro j claim hj
  refine ⟨h.past j claim hj, ?_⟩
  cases record with
  | none => exact .inr (h.removed hrecord j claim hj)
  | some last =>
    have hrecorded := h.recorded last hrecord j claim hj
    have hstored := hrecorded.stored
    have hlatest := hrecorded.latest
    rcases of_decide_eq_true (hexpired last rfl) with hlt | hvault
    · right
      rw [chrono.eq_sub hthreshold] at hlt
      have hlt : last.datetime * 1000000000 <
        (now : Int) - config.faucetCooldownHours * 3600 * 1000000000 := hlt
      have hnow := Int.sub_nonneg_of_le hnow
      change claim.datetime + config.faucetCooldownHours * 3600 ≤ (w.clock : Int) / 1000000000
      omega
    · obtain ⟨hvault, huser⟩ := of_decide_eq_true hvault
      cases htype : claim.accountType with
      | user => exact .inl ⟨hvault, rfl⟩
      | vault => exact .inr (Int.le_trans (hrecorded.user huser htype) hstored)

/-- What the holder of the lock does disturbs nobody else who holds it. -/
theorem grants_of_locked (hlock : w.lock = some i) (hinv : Inv cooldown w → Inv cooldown w')
    (hclaims : ∀ j, j ≠ i → w'.claims j = w.claims j) (hpaid : w'.paid = w.paid)
    (hclock : w'.clock = w.clock) : Grants cooldown i w w' := by
  refine ⟨hinv, hclaims, fun j _ => by rw [hpaid], Int.le_of_eq hclock.symm, fun j hj hlock' => ?_⟩
  exact absurd (Option.some.inj (hlock'.symm.trans hlock)) hj

variable [DecidableEq ι]

theorem cooperates (cooldown : Int) :
    Prog.Cooperates (Relies cooldown) (Grants cooldown) (TimePasses (ι := ι)) where
  refl i w := ⟨id, rfl, rfl, Int.le_refl _, fun h => ⟨h, fun _ _ => id⟩⟩
  trans h h' := by
    refine ⟨h'.inv ∘ h.inv, h'.claim.trans h.claim, h'.paid.trans h.paid,
      Int.le_trans h.clock h'.clock, fun hlock => ?_⟩
    obtain ⟨hlock', hclaims⟩ := h.locked hlock
    obtain ⟨hlock'', hclaims'⟩ := h'.locked hlock'
    exact ⟨hlock'', fun j claim hj => hclaims j claim (hclaims' j claim hj)⟩
  idle := Grants.refl
  relies {i j w w'} hij h := by
    refine ⟨h.inv, h.claims j hij.symm, h.paid j hij.symm, h.clock, fun hlock => ?_⟩
    obtain ⟨hlock', hclaim⟩ := h.locked j hij.symm hlock
    refine ⟨hlock', fun k claim hk => ?_⟩
    by_cases hki : k = i
    · rw [hki] at hk ⊢
      exact hclaim claim hk
    · rwa [h.claims k hki] at hk
  other {i w w'} h := by
    have hinv : Inv cooldown w → Inv cooldown w' := fun hinv => hinv.passes h
    obtain ⟨clock, hclock, rfl⟩ := h
    exact ⟨hinv, rfl, rfl, hclock, fun h => ⟨h, fun _ _ => id⟩⟩

/-- The answers to a request, while the removals meet their condition. -/
def requestEnv (E : Type) (cooldown : Int) (i : ι) : Prog.Env (api E) (World ι) :=
  fun w call r w' => faucetEnv i w call r w' ∧ Meets cooldown i w call

/-- The request relies on the others and guarantees what they rely on, and ends with `Q`. -/
abbrev Safe {A : Type} (cooldown : Int) (i : ι) (p : Prog (api E) A) (Q : A → World ι → Prop)
    (w₁ w : World ι) : Prop :=
  Prog.Guarantees (requestEnv E cooldown i) (Relies cooldown i) (Grants cooldown i) p Q w₁ w

/-- The calls that only read. -/
def Reads : Call → Prop
  | .lock | .unlock | .kvSet _ | .kvRemove | .transferTo _ => False
  | _ => True

theorem eq_of_reads {call : Call} {r : (api E).Answer call} (h : Reads call)
    (hr : faucetEnv i w call r w') : w' = w := by
  cases call with
  | lock | unlock | kvSet _ | kvRemove | transferTo _ => cases h
  | now | kvGet => exact hr.2
  | _ => exact hr

/-- Calls that only read disturb nothing. -/
theorem safe_of_reads {A : Type} {p : Prog (api E) A} (hp : p.Only Reads) {L : World ι → Prop}
    (hL : Prog.Stable (Relies cooldown i) L) {w₁ : World ι} (hw : Grants cooldown i w₁ w)
    (h : L w) :
    Safe cooldown i p (fun _ => L) w₁ w := by
  have hreads : Prog.Keeps (Prog.tracked (Relies cooldown i) (requestEnv E cooldown i))
      (fun s => Grants cooldown i s.1 s.2 ∧ L s.2) p _ (w₁, w) :=
    Prog.keeps_of_only (fun s call r s' h hcall hr => by
      obtain ⟨hrelies, hanswer, -⟩ := hr
      rw [eq_of_reads hcall hanswer]
      exact ⟨Grants.refl i _, hL _ _ hrelies h.2⟩) hp ⟨hw, h⟩
  exact (hreads.weaken fun _ h => h.1).mono fun _ _ _ h => h.1.2

theorem safe_of_reads_run {A : Type} {p : Rpc E A} (hp : p.run.Only Reads) {L : World ι → Prop}
    (hL : Prog.Stable (Relies cooldown i) L) {w₁ : World ι} (hw : Grants cooldown i w₁ w)
    (h : L w) :
    Safe cooldown i p.run (Prog.Outcome (fun _ => L) fun _ => L) w₁ w :=
  (safe_of_reads hp hL hw h).mono fun _ _ _ h => .intro (fun _ _ => h) fun _ _ => h

theorem only_ensureFundable (config : AllowanceConfig) (accountType : FundingRequestAccountType) :
    (ensureFundable (E := E) config accountType).run.Only Reads := by
  have hbalance (currencyId : CurrencyId) :
      (ensureBalance (E := E) config.maxFundableClientBalance currencyId).run.Only Reads := by
    refine Prog.only_run_bind ⟨trivial, fun _ => trivial⟩ fun freeBalance => ?_
    refine Prog.only_run_bind ⟨trivial, fun _ => trivial⟩ fun reservedBalance => ?_
    refine Prog.only_run_bind ⟨trivial, fun _ => trivial⟩ fun one => ?_
    change Prog.Only _ (ExceptT.run (if _ then _ else _))
    split <;> trivial
  have hsymbol (allowance : AllowanceAmount) :
      (runtime (ask (.tryFromSymbol allowance.symbol)) : Rpc E CurrencyId).run.Only Reads :=
    ⟨trivial, fun _ => trivial⟩
  refine Prog.only_run_bind ?_ fun _ => Prog.only_run_bind (Prog.only_run_mapM hsymbol _)
    fun ids => Prog.only_run_forM hbalance ids
  cases config.authUrl with
  | none => trivial
  | some authUrl =>
    refine Prog.only_run_bind ⟨trivial, fun _ => trivial⟩ fun signed => ?_
    cases signed <;> trivial

theorem safe_unlock {Q : World ι → Prop} {w₁ : World ι} (hw : Grants cooldown i w₁ w)
    (h : ∀ w', Relies cooldown i w w' → w'.lock = some i ∧ Q { w' with lock := none }) :
    Safe (E := E) cooldown i (ask .unlock) (fun _ => Q) w₁ w := by
  refine Prog.guarantees_request hw fun w' r w'' hrelies hr => ?_
  obtain ⟨rfl, -⟩ := hr
  obtain ⟨hlock, hQ⟩ := h w' hrelies
  exact ⟨grants_of_locked hlock (fun hinv => hinv.withLock none) (fun _ _ => rfl) rfl rfl, hQ⟩

/-- A request that is not allowed gives the lock back. -/
theorem safe_refuse {A : Type} {Q : A → World ι → Prop} {w₁ : World ι} (e : Error E)
    (hw : Grants cooldown i w₁ w) (hlock : w.lock = some i) (h : Unpaid cooldown i w) :
    Safe cooldown i (do
      ExceptT.lift (ask .unlock)
      throw e : Rpc E A).run (Prog.Outcome Q fun _ => Unpaid cooldown i) w₁ w := by
  refine Prog.guarantees_run_seq (P := fun _ => Unpaid cooldown i)
    (Prog.guarantees_run_lift (safe_unlock hw fun w' hrelies => ?_)) fun _ _ _ hw h => ⟨hw, h⟩
  have hunpaid := stable_unpaid _ _ hrelies h
  exact ⟨(hrelies.locked hlock).1, hunpaid.inv.withLock none, hunpaid.paid⟩

section Funding

variable {chrono : Chrono} {config : AllowanceConfig} {accountType : FundingRequestAccountType}
variable {now cooldownThreshold : DateTime} {w₁ : World ι}

theorem safe_ensureExpired
    (hthreshold : chrono.checkedSubSigned now (hours config.faucetCooldownHours) =
      some cooldownThreshold)
    (hw : Grants (Cooldown.cooldown config) i w₁ w) (h : Unpaid (Cooldown.cooldown config) i w)
    (hlock : w.lock = some i) (hnow : now ≤ w.clock) :
    Safe (Cooldown.cooldown config) i (ensureExpired (E := E) cooldownThreshold accountType).run
      (Prog.Outcome (fun _ => Allowed (Cooldown.cooldown config) i accountType)
        fun _ => Unpaid (Cooldown.cooldown config) i) w₁ w := by
  refine Prog.guarantees_run_seq (P := fun r w => Unpaid (Cooldown.cooldown config) i w ∧
    w.lock = some i ∧ now ≤ w.clock ∧ ∀ record, r = .ok record → w.record = record)
    (Prog.guarantees_run_lift (Prog.guarantees_request hw fun w' r w'' hrelies hr => ?_))
    fun r w₁ w hw h => ?_
  · obtain ⟨⟨hrecord, rfl⟩, -⟩ := hr
    exact ⟨Grants.refl i _, stable_unpaid _ _ hrelies h, (hrelies.locked hlock).1,
      Int.le_trans hnow hrelies.clock, fun record hok => (hrecord record hok).symm⟩
  · obtain ⟨h, hlock, hnow, hrecord⟩ := h
    match r, hrecord with
    | .error e, _ => exact safe_refuse (.kvError e) hw hlock h
    | .ok none, hrecord =>
      exact ⟨hw, h, hlock, cleared_of_record h.inv (hrecord none rfl) hnow hthreshold nofun⟩
    | .ok (some last), hrecord =>
      change Prog.Keeps _ _ (ExceptT.run (if _ then _ else _)) _ _
      split
      next hexpired =>
        exact ⟨hw, h, hlock, cleared_of_record h.inv (hrecord _ rfl) hnow hthreshold
          fun _ hlast => Option.some.inj hlast ▸ hexpired⟩
      next => exact safe_refuse .accountAlreadyFunded hw hlock h

theorem safe_ensureFundingAllowed (hw : Grants (Cooldown.cooldown config) i w₁ w)
    (h : Unpaid (Cooldown.cooldown config) i w) :
    Safe (Cooldown.cooldown config) i
      (ensureFundingAllowed (E := E) chrono config accountType).run
      (Prog.Outcome (fun _ => Allowed (Cooldown.cooldown config) i accountType)
        fun _ => Unpaid (Cooldown.cooldown config) i) w₁ w := by
  refine Prog.guarantees_run_seq (safe_of_reads_run (only_ensureFundable config accountType)
    stable_unpaid hw h) fun _ w₁ w hw h => ?_
  refine Prog.guarantees_run_seq (P := fun now w => Unpaid (Cooldown.cooldown config) i w ∧
    now ≤ w.clock) (Prog.guarantees_run_lift (Prog.guarantees_request hw
      fun w' now w'' hrelies hr => ?_)) fun now w₁ w hw h => ?_
  · obtain ⟨⟨rfl, rfl⟩, -⟩ := hr
    exact ⟨Grants.refl i _, stable_unpaid _ _ hrelies h, Int.le_refl _⟩
  · obtain ⟨h, hnow⟩ := h
    split
    next => exact ⟨hw, h⟩
    next cooldownThreshold hthreshold =>
      refine Prog.guarantees_run_seq (P := fun _ w => Unpaid (Cooldown.cooldown config) i w ∧
        w.lock = some i ∧ now ≤ w.clock) (Prog.guarantees_run_lift (Prog.guarantees_request hw
          fun w' _ w'' hrelies hr => ?_)) fun _ w₁ w hw h => ?_
      · obtain ⟨⟨hfree, rfl⟩, -⟩ := hr
        have hunpaid := stable_unpaid _ _ hrelies h
        refine ⟨⟨fun hinv => hinv.withLock _, fun _ _ => rfl, fun _ _ => rfl, Int.le_refl _,
          fun j _ hlock => ?_⟩, ⟨hunpaid.inv.withLock _, hunpaid.paid⟩, rfl,
          Int.le_trans hnow hrelies.clock⟩
        rw [hfree] at hlock
        cases hlock
      · exact safe_ensureExpired hthreshold hw h.1 h.2.1 h.2.2

/-- A request whose transfer has failed has no claim any more. -/
theorem grants_fail (h : Unpaid cooldown i w) : Grants cooldown i w (w.fail i) := by
  refine ⟨fun hinv => hinv.fail h.paid, fun j hj => fail_claims_of_ne w hj, fun _ _ => rfl,
    Int.le_refl _, fun j _ hlock => ⟨hlock, fun claim hclaim => ?_⟩⟩
  rw [fail_claims_self] at hclaim
  cases hclaim

theorem Unpaid.fail (h : Unpaid cooldown i w) : Unpaid cooldown i (w.fail i) :=
  ⟨h.inv.fail h.paid, h.paid⟩

theorem safe_transfer (amounts : Allowance) (hw : Grants cooldown i w₁ w)
    (h : Claimed cooldown i w) :
    Safe cooldown i (transfer (E := E) amounts).run
      (Prog.Outcome (fun _ _ => True) fun _ => Unpaid cooldown i) w₁ w := by
  have hsymbol (allowance : AllowanceAmount) : (do
      let currencyId ← runtime (ask (.tryFromSymbol allowance.symbol))
      return (allowance.amount, currencyId) : Rpc E (Nat × CurrencyId)).run.Only Reads :=
    Prog.only_run_bind ⟨trivial, fun _ => trivial⟩ fun _ => trivial
  refine Prog.guarantees_run_seq (P := fun _ => Claimed cooldown i) ((safe_of_reads_run
    (Prog.only_run_mapM hsymbol amounts) stable_claimed hw h).mono fun _ _ _ h =>
      h.imp (fun _ h => h) fun _ h => h.unpaid) fun transfers w₁ w hw h => ?_
  have hrequest : Safe (E := E) cooldown i (ask (.transferTo transfers)) (fun r w =>
      Prog.Outcome (fun _ _ => True) (fun _ => Unpaid cooldown i)
        (Except.mapError Error.runtimeError r) w) w₁ w := by
    refine Prog.guarantees_request hw fun w' r w'' hrelies hr => ?_
    have h := stable_claimed _ _ hrelies h
    obtain ⟨claim, hclaim⟩ := h.claimed
    match r, hr.1 with
    | .ok _, hanswer =>
      cases hanswer
      exact ⟨⟨fun hinv => hinv.pay hclaim, fun _ _ => rfl, fun j hj => Function.update_of_ne hj ..,
        Int.le_refl _, fun _ _ hlock => ⟨hlock, fun _ => id⟩⟩, trivial⟩
    | .error _, hanswer =>
      cases hanswer
      exact ⟨grants_fail h.unpaid, h.unpaid.fail⟩
  exact Prog.keeps_map.mpr hrequest

/-- A claim is made with the lock, before the time of which no other one is too young. -/
theorem safe_kvSet {datetime : Int} (hw : Grants cooldown i w₁ w) (h : Unpaid cooldown i w)
    (hlock : w.lock = some i) (hcleared : Cleared cooldown ⟨datetime, accountType⟩ w)
    (hpast : datetime ≤ w.clock.toRfc2822) :
    Safe (E := E) cooldown i (ask (.kvSet ⟨datetime, accountType⟩))
      (fun r w => w.lock = some i ∧ Unpaid cooldown i w ∧
        ∀ done, r = .ok done → ∃ claim, w.claims i = some claim) w₁ w := by
  refine Prog.guarantees_request hw fun w' r w'' hrelies hr => ?_
  obtain ⟨hlock, hclaims⟩ := hrelies.locked hlock
  have h := stable_unpaid _ _ hrelies h
  have hcleared := hcleared.mono hclaims (Int.le_refl _)
  have hpast := Int.le_trans hpast (toRfc2822_mono hrelies.clock)
  match r, hr.1 with
  | .ok _, hanswer =>
    cases hanswer
    exact ⟨grants_of_locked hlock (fun hinv => hinv.claim hcleared hpast)
      (fun j hj => claim_claims_of_ne w' hj _) rfl rfl, hlock, ⟨h.inv.claim hcleared hpast, h.paid⟩,
      fun _ _ => ⟨_, claim_claims_self w' i _⟩⟩
  | .error _, hanswer =>
    rcases hanswer with rfl | rfl
    · exact ⟨Grants.refl i _, hlock, h, nofun⟩
    · exact ⟨grants_of_locked hlock (fun hinv => hinv.store hcleared hpast) (fun _ _ => rfl) rfl
        rfl, hlock, ⟨h.inv.store hcleared hpast, h.paid⟩, nofun⟩

theorem safe_atomicFaucetFunding (hw : Grants (Cooldown.cooldown config) i w₁ w)
    (h : Unpaid (Cooldown.cooldown config) i w) :
    Safe (Cooldown.cooldown config) i (atomicFaucetFunding (E := E) chrono config).run
      (Prog.Outcome (fun _ _ => True) fun _ => Unpaid (Cooldown.cooldown config) i) w₁ w := by
  have hreads : (getAccountType (E := E)).Only Reads := by
    refine ⟨trivial, fun r => ?_⟩
    cases r with
    | ok vaults => trivial
    | error e => trivial
  refine Prog.guarantees_run_seq
    (Prog.guarantees_run_lift (safe_of_reads hreads stable_unpaid hw h))
    fun accountType w₁ w hw h => ?_
  refine Prog.guarantees_run_seq (safe_ensureFundingAllowed hw h) fun _ w₁ w hw h => ?_
  refine Prog.guarantees_run_seq (P := fun now w => Unpaid (Cooldown.cooldown config) i w ∧
    w.lock = some i ∧ Cleared (Cooldown.cooldown config) ⟨now.toRfc2822, accountType⟩ w ∧
      now.toRfc2822 ≤ w.clock.toRfc2822) (Prog.guarantees_run_lift (Prog.guarantees_request hw
        fun w' now w'' hrelies hr => ?_)) fun now w₁ w hw h => ?_
  · obtain ⟨⟨rfl, rfl⟩, -⟩ := hr
    have h := stable_allowed _ _ hrelies h
    exact ⟨Grants.refl i _, h.unpaid, h.locked, h.cleared, Int.le_refl _⟩
  · obtain ⟨h, hlock, hcleared, hpast⟩ := h
    refine Prog.guarantees_run_seq (Prog.guarantees_run_lift
      (safe_kvSet hw h hlock hcleared hpast)) fun r w₁ w hw h => ?_
    obtain ⟨hlock, h, hclaimed⟩ := h
    cases r with
    | error e => exact safe_refuse (.kvError e) hw hlock h
    | ok done =>
      refine Prog.guarantees_run_seq (P := fun _ => Claimed (Cooldown.cooldown config) i)
        (Prog.guarantees_run_lift (safe_unlock hw fun w' hrelies => ?_))
        fun _ w₁ w hw h => safe_transfer _ hw h
      have h := stable_claimed _ _ hrelies ⟨h, hclaimed done rfl⟩
      exact ⟨(hrelies.locked hlock).1, ⟨h.unpaid.inv.withLock none, h.unpaid.paid⟩, h.claimed⟩

/-- The removal meets its condition, so nothing is removed that keeps another claim away. -/
theorem safe_kvRemove (hw : Grants cooldown i w₁ w) (h : Unpaid cooldown i w) :
    Safe (E := E) cooldown i (ask .kvRemove) (fun _ _ => True) w₁ w := by
  refine Prog.guarantees_request hw fun w' r w'' hrelies hr => ⟨?_, trivial⟩
  have h := stable_unpaid _ _ hrelies h
  obtain ⟨hanswer, hmeets⟩ := hr
  have hfail := grants_fail h
  have hremove : Grants cooldown i w' { w'.fail i with record := none } :=
    ⟨fun hinv => hinv.remove h.paid hmeets, hfail.claims, hfail.paid, hfail.clock, hfail.locked⟩
  match r, hanswer with
  | .ok _, hanswer =>
    cases hanswer
    exact hremove
  | .error _, hanswer =>
    rcases hanswer with rfl | rfl
    · exact hfail
    · exact hremove

theorem safe_fundWithStore (resets : E → Bool) (hw : Grants (Cooldown.cooldown config) i w₁ w)
    (h : Unpaid (Cooldown.cooldown config) i w) :
    Safe (Cooldown.cooldown config) i (fundWithStore chrono config resets).run
      (Prog.Outcome (fun _ _ => True) fun _ _ => True) w₁ w := by
  have hopen : (ExceptT.mk (Except.mapError .kvError <$> ask .openKvStore) : Rpc E Unit).run.Only
      Reads := ⟨trivial, fun _ => trivial⟩
  refine Prog.guarantees_run_seq ((safe_of_reads_run hopen stable_unpaid hw h).mono
    fun _ _ _ h => h.imp (fun _ h => h) fun _ _ => trivial) fun _ w₁ w hw h => ?_
  refine Prog.guarantees_run_seq (Prog.guarantees_run_lift (safe_atomicFaucetFunding hw h))
    fun r w₁ w hw h => ?_
  match r, h with
  | .ok _, _ => exact ⟨hw, trivial⟩
  | .error (.runtimeError e), h =>
    change Prog.Keeps _ _ (ExceptT.run (if _ then _ else _)) _ _
    split
    next =>
      refine Prog.guarantees_run_seq (P := fun _ _ => True) (Prog.keeps_map.mpr
        ((safe_kvRemove hw h).mono fun r _ _ _ => ?_)) fun _ _ _ hw _ => ⟨hw, trivial⟩
      exact .intro (fun _ _ => trivial) fun _ _ => trivial
    next => exact ⟨hw, trivial⟩
  | .error (.kvError _), _ | .error (.reqwestError _), _ | .error .accountBalanceExceedsMaximum, _
  | .error .accountAlreadyFunded, _ | .error .mathError, _ | .error .signatureMissing, _
  | .error .busy, _ =>
    exact ⟨hw, trivial⟩

theorem safe_fundAccount (resets : E → Bool) (hw : Grants (Cooldown.cooldown config) i w₁ w)
    (h : Unpaid (Cooldown.cooldown config) i w) :
    Safe (Cooldown.cooldown config) i (fundAccount chrono config resets) (fun _ _ => True)
      w₁ w := by
  have hacquire : (ask (E := E) .tryAcquire).Only Reads := ⟨trivial, fun _ => trivial⟩
  have hrelease : (ask (E := E) .releasePermit).Only Reads := ⟨trivial, fun _ => trivial⟩
  have hstable : Prog.Stable (Relies (Cooldown.cooldown config) i) fun _ => True :=
    fun _ _ _ _ => trivial
  refine Prog.guarantees_bind (safe_of_reads hacquire stable_unpaid hw h) fun permit w₁ w hw h => ?_
  refine Prog.guarantees_bind (safe_fundWithStore resets hw h) fun result w₁ w hw _ => ?_
  cases permit with
  | false => exact ⟨hw, trivial⟩
  | true =>
    exact Prog.guarantees_bind (safe_of_reads hrelease hstable hw trivial)
      fun _ _ _ hw _ => ⟨hw, trivial⟩

end Funding

end Request

/-! ### Schedules -/

section Schedules

def cooldownConfig : AllowanceConfig := ⟨1000, 6, [⟨"KSM", 100⟩], [⟨"KSM", 200⟩], none⟩

def unboundedChrono : Chrono := ⟨fun time duration => some (time - duration), fun h =>
  (Option.some.inj h).symm⟩

variable [DecidableEq ι] {vaults : ι → List VaultId} {fails : ι → Bool} {i : ι} {w w' : World ι}

/-- The answers to requests whose account has no funds and, when they look it up, the `vaults`; the
transfers of the requests that `fails` names are refused by the chain. -/
def answer (vaults : ι → List VaultId) (fails : ι → Bool) (i : ι) (w : World ι) :
    (call : Call) → Option ((api Unit).Answer call × World ι)
  | .tryAcquire => some (true, w)
  | .releasePermit => some ((), w)
  | .openKvStore => some (.ok (), w)
  | .getVaultsByAccountId => some (.ok (vaults i), w)
  | .signatureExists _ => some (.ok true, w)
  | .tryFromSymbol _ => some (.ok (.token .KSM), w)
  | .one _ => some (.ok 1000000000000, w)
  | .getFreeBalanceForId _ => some (.ok 0, w)
  | .getReservedBalanceForId _ => some (.ok 0, w)
  | .now => some (w.clock, w)
  | .lock => if w.lock = none then some ((), { w with lock := some i }) else none
  | .unlock => some ((), { w with lock := none })
  | .kvGet => some (.ok w.record, w)
  | .kvSet request => some (.ok (), w.claim i request)
  | .kvRemove => if fails i then some (.ok (), { w.fail i with record := none }) else none
  | .transferTo _ =>
    if fails i then some (.error (), w.fail i)
    else some (.ok (), { w with paid := Function.update w.paid i true })

theorem faucetEnv_answer {call : (api Unit).Call} {r : (api Unit).Answer call}
    (h : answer vaults fails i w call = some (r, w')) : faucetEnv i w call r w' := by
  cases call with
  | lock =>
    obtain ⟨hfree, h⟩ := Option.ite_none_right_eq_some.mp h
    cases h
    exact ⟨hfree, rfl⟩
  | kvRemove =>
    obtain ⟨-, h⟩ := Option.ite_none_right_eq_some.mp h
    cases h
    rfl
  | transferTo transfers =>
    dsimp only [answer] at h
    split at h <;> cases h <;> rfl
  | now =>
    cases h
    exact ⟨rfl, rfl⟩
  | kvGet =>
    cases h
    exact ⟨fun _ h => (Except.ok.inj h).symm, rfl⟩
  | _ =>
    cases h
    rfl

/-- A request that would remove more than its own claim waits. -/
def patientAnswer (fails : Fin 3 → Bool) (i : Fin 3) (w : World (Fin 3)) :
    (call : Call) → Option ((api Unit).Answer call × World (Fin 3))
  | .kvRemove =>
    if ∀ j ≠ i, ∀ claim ∈ w.claims j,
        claim.datetime + cooldown cooldownConfig ≤ w.clock.toRfc2822 then
      answer (fun _ => []) fails i w .kvRemove
    else none
  | call => answer (fun _ => []) fails i w call

theorem requestEnv_patientAnswer {fails : Fin 3 → Bool} {i : Fin 3} {w w' : World (Fin 3)}
    {call : (api Unit).Call} {r : (api Unit).Answer call}
    (h : patientAnswer fails i w call = some (r, w')) :
    requestEnv Unit (cooldown cooldownConfig) i w call r w' := by
  cases call with
  | kvRemove =>
    obtain ⟨hold, h⟩ := Option.ite_none_right_eq_some.mp h
    exact ⟨faucetEnv_answer h, fun j claim hne hclaim => hold j hne claim hclaim⟩
  | _ =>
    have h : answer (fun _ => []) fails i w _ = some (r, w') := h
    exact ⟨faucetEnv_answer h, trivial⟩

omit [DecidableEq ι]

def passTime (seconds : Nat) (w : World ι) : World ι :=
  { w with clock := w.clock + seconds * 10 ^ 9 }

theorem timePasses_passTime (seconds : Nat) (w : World ι) : TimePasses w (passTime seconds w) :=
  ⟨_, Int.le_add_of_nonneg_right (Int.mul_nonneg (Int.natCast_nonneg seconds) (by decide)), rfl⟩

/-- Whose turns it is, and for how many calls, or the seconds that pass. -/
abbrev Turns (ι : Type) := List ((ι × Nat) ⊕ Nat)

def Turns.moves (turns : Turns ι) : List (ι ⊕ (World ι → World ι)) :=
  turns.flatMap fun
    | .inl (i, calls) => List.replicate calls (.inl i)
    | .inr seconds => [.inr (passTime seconds)]

theorem timePasses_of_moves {turns : Turns ι} {move : World ι → World ι}
    (h : .inr move ∈ turns.moves) (w : World ι) : TimePasses w (move w) := by
  obtain ⟨turn, -, hmove⟩ := List.mem_flatMap.mp h
  cases turn with
  | inl calls => cases List.eq_of_mem_replicate hmove
  | inr seconds =>
    cases List.mem_singleton.mp hmove
    exact timePasses_passTime seconds w

/-- Requests for one account, for which nothing is stored at first. -/
def requests : ι → Prog (api Unit) (Except (Error Unit) Unit) :=
  fun _ => fundAccount unboundedChrono cooldownConfig fun _ => true

/-- A user is funded and makes a request seven hours later, whose transfer fails, and at once
another one. -/
def failedSecond : Turns (Fin 3) := [.inl (0, 16), .inr 25200, .inl (1, 17), .inl (2, 16)]

/-- The account becomes a vault while the first transfer is under way.  The second request is
funded, the first transfer fails, and the third request comes a second later. -/
def userBecomesVault : Turns Nat :=
  [.inl (0, 15), .inl (1, 17), .inl (0, 3), .inr 1, .inl (2, 17)]

abbrev userRequests : (Fin 3 → Prog (api Unit) (Except (Error Unit) Unit)) × World (Fin 3) :=
  Prog.playPool (patientAnswer (· = 1)) failedSecond.moves (requests, World.start 0 none)

abbrev resetRequests : (Nat → Prog (api Unit) (Except (Error Unit) Unit)) × World Nat :=
  Prog.playPool (answer (fun i => if i = 0 then [] else [default]) (· = 0)) userBecomesVault.moves
    (requests, World.start 0 none)

end Schedules

/-- While every removal meets its condition, the payouts of any number of requests for the account
are a cooldown apart. -/
theorem payouts_of_runs [DecidableEq ι] {chrono : Chrono} {config : AllowanceConfig}
    {resets : E → Bool} {clock : DateTime} {record : Option FaucetRequest}
    {ps : ι → Prog (api E) (Except (Error E) Unit)} {w : World ι}
    (hruns : Prog.PoolRuns (requestEnv E (cooldown config)) TimePasses
      (fun _ => fundAccount chrono config resets) (World.start clock record) ps w) :
    Payouts (cooldown config) w := by
  have hstart : Inv (cooldown config) (World.start clock record : World ι) :=
    inv_start (cooldown config) clock record
  have hrun := Prog.Guarantees.poolRuns (cooperates (cooldown config)) (I := Inv (cooldown config))
    (Q := fun _ _ _ => True) (fun _ _ _ _ _ _ => trivial) (fun hG hinv => hG.inv hinv)
    (fun hpasses hinv => hinv.passes hpasses)
    (fun i => safe_fundAccount resets (Grants.refl i _) ⟨hstart, rfl⟩) hstart hruns
  exact hrun.1.payouts

/-- The second request removes its claim, and the third one is funded. -/
theorem payouts_of_runs_failedSecond :
    userRequests.2.paid 0 = true ∧ userRequests.2.paid 1 = false ∧ userRequests.2.paid 2 = true ∧
      userRequests.2.claims 1 = none ∧ userRequests.2.claims 2 = some ⟨25200, .user⟩ ∧
      Payouts (cooldown cooldownConfig) userRequests.2 :=
  ⟨by decide +kernel, by decide +kernel, by decide +kernel, by decide +kernel, by decide +kernel,
    payouts_of_runs (Prog.poolRuns_play requestEnv_patientAnswer
      (fun _ hmove => timePasses_of_moves hmove) requests (World.start 0 none))⟩

/-- The failed transfer removes what the second request has stored, and the vault is funded twice
within a second. -/
theorem not_payouts_userBecomesVault :
    Prog.PoolRuns (faucetEnv (E := Unit)) TimePasses
        (fun _ => fundAccount unboundedChrono cooldownConfig fun _ => true) (World.start 0 none)
        resetRequests.1 resetRequests.2 ∧
      ¬ Payouts (cooldown cooldownConfig) resetRequests.2 := by
  refine ⟨Prog.poolRuns_play faucetEnv_answer (fun _ hmove => timePasses_of_moves hmove) requests
    (World.start 0 none), fun h => ?_⟩
  have hapart := h.apart 1 2 ⟨0, .vault⟩ ⟨1, .vault⟩ (by decide) (by decide +kernel)
    (by decide +kernel) (by decide +kernel) (by decide +kernel) rfl
  revert hapart
  decide

end InterBtcClients.Faucet.Cooldown
