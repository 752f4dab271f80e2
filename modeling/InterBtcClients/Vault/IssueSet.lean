import InterBtcClients.Bitcoin.ThreeKeys
import InterBtcClients.Vault.CancellationStart
import InterBtcClients.Vault.Types

/-! The issues that the vault watches from its start: those that are active by the global period and
the parachain's height.  They are all of the live ones unless an issue lives on by its own, longer
period or by the height of bitcoin. -/

namespace InterBtcClients.Vault.IssueSet

open Library Bitcoin InterBtcClients.Runtime Cancellation
open CancellationStart (parachainDeadline bitcoinDeadline)

deriving instance Hashable for BtcAddress

abbrev IssueRequests := ReversibleHashMap H256 BtcAddress

abbrev Issue := H256 × InterBtcIssueRequest

/-! ### The program -/

section Program

/-- `overflow` and `sliceLength` end the task in a panic. -/
inductive Failure (R : Type)
  | rpc (e : R)
  | overflow
  | sliceLength

variable (R : Type)

inductive Call
  | getCurrentActiveBlockNumber
  | getIssuePeriod
  | getFinalizedBlockHash
  /-- What the iterator over the issue requests at this block yields, with their raw keys. -/
  | iter (head : H256)
  | getBlockCount

@[reducible] def api : Interface where
  Call := Call
  Answer
    | .getCurrentActiveBlockNumber => Except R Nat
    | .getIssuePeriod => Except R Nat
    | .getFinalizedBlockHash => Except R H256
    | .iter _ => Except R (List (Except R (List UInt8 × InterBtcIssueRequest)))
    | .getBlockCount => Except R Nat

abbrev Rpc := ExceptT (Failure R) (Prog (api R))

variable {R}

abbrev ask (call : Call) : Prog (api R) ((api R).Answer call) := Prog.request (api R) call

/-- The sum of `bits` wide unsigned integers, which wraps around unless the build checks for
overflow. -/
def plus (bits : Nat) (overflowChecks : Bool) (a b : Nat) : Except (Failure R) Nat :=
  if a + b < 2 ^ bits then .ok (a + b)
  else if overflowChecks then .error .overflow
  else .ok ((a + b) % 2 ^ bits)

/-- The keys of storage maps start with two hashes of names and one of what follows them. -/
def BLAKE2_128_HASH_PREFIX_LENGTH : Nat := 48

def stripBlake2KeyPrefix (rawKey : List UInt8) : Except (Failure R) (List UInt8) :=
  if BLAKE2_128_HASH_PREFIX_LENGTH ≤ rawKey.length then
    .ok (rawKey.drop BLAKE2_128_HASH_PREFIX_LENGTH)
  else .error .sliceLength

def fromSlice (bytes : List UInt8) : Except (Failure R) H256 :=
  if bytes.length = 32 then .ok (BitVec.ofNat 256 (ofBytes bytes)) else .error .sliceLength

variable (overflowChecks : Bool)

/-- The sum is worked out for pending requests only. -/
def isActive (issuePeriod currentHeight : Nat) (request : InterBtcIssueRequest) :
    Except (Failure R) Bool := do
  if request.status = .pending then
    return decide ((← plus 32 overflowChecks request.opentime issuePeriod) > currentHeight)
  return false

def activeIssues (issuePeriod currentHeight : Nat) :
    List (Except R (List UInt8 × InterBtcIssueRequest)) → Except (Failure R) (List Issue)
  | [] => return []
  | item :: items => do
    let (issueId, request) ← item.mapError .rpc
    if ← isActive overflowChecks issuePeriod currentHeight request then
      let key ← stripBlake2KeyPrefix issueId
      let issueId ← fromSlice key
      return (issueId, request) :: (← activeIssues issuePeriod currentHeight items)
    activeIssues issuePeriod currentHeight items

def getAllActiveIssues : Rpc R (List Issue) := do
  let currentHeight ← ExceptT.mk (Except.mapError .rpc <$> ask .getCurrentActiveBlockNumber)
  let issuePeriod ← ExceptT.mk (Except.mapError .rpc <$> ask .getIssuePeriod)
  let head ← ExceptT.mk (Except.mapError .rpc <$> ask .getFinalizedBlockHash)
  let items ← ExceptT.mk (Except.mapError .rpc <$> ask (.iter head))
  ExceptT.mk (pure (activeIssues overflowChecks issuePeriod currentHeight items))

def insertAll (issueSet : IssueRequests) (requests : List Issue) : IssueRequests :=
  requests.foldl (fun issueSet (issueId, request) =>
    (issueSet.insert issueId request.btcAddress).2) issueSet

/-- The height from which the bitcoin chain is watched, and the issues that are. -/
def initializeIssueSet (issueSet : IssueRequests) : Rpc R (Nat × IssueRequests) := do
  let requests ← getAllActiveIssues overflowChecks
  match (requests.map fun (_, request) => request.btcHeight).min? with
  | some btcStartHeight => return (btcStartHeight, insertAll issueSet requests)
  | none =>
    -- no open issues
    let blockCount ← ExceptT.mk (Except.mapError .rpc <$> ask .getBlockCount)
    return (blockCount % 2 ^ 32, insertAll issueSet requests)

end Program

/-! ### The chain -/

/-- The issue requests on chain, in the order in which the iterator yields them; `keyPrefix` is what
the raw key of an issue starts with. -/
structure Chain where
  activeBlockNumber : Nat
  relayHeight : Nat
  issuePeriod : Nat
  issues : List Issue
  nodup : (issues.map Prod.fst).Nodup
  finalizedBlockHash : H256
  keyPrefix : H256 → List UInt8
  length_keyPrefix : ∀ id, (keyPrefix id).length = BLAKE2_128_HASH_PREFIX_LENGTH
  blockCount : Nat

variable {R : Type}

def Chain.item (chain : Chain) (issue : Issue) : Except R (List UInt8 × InterBtcIssueRequest) :=
  .ok (chain.keyPrefix issue.1 ++ toBytes 32 issue.1.toNat, issue.2)

variable (R) in
/-- Every call succeeds. -/
def Chain.answer (chain : Chain) : (call : Call) → (api R).Answer call
  | .getCurrentActiveBlockNumber => .ok chain.activeBlockNumber
  | .getIssuePeriod => .ok chain.issuePeriod
  | .getFinalizedBlockHash => .ok chain.finalizedBlockHash
  | .iter _ => .ok (chain.issues.map chain.item)
  | .getBlockCount => .ok chain.blockCount

/-- What the canceller works the deadlines of an issue out from. -/
def openTime (issue : Issue) : UnconvertedOpenTime where
  id := issue.1
  parachainOpenHeight := issueCanceller.parachainOpenHeight issue.2
  bitcoinOpenHeight := issueCanceller.bitcoinOpenHeight issue.2
  period := issueCanceller.period issue.2

def Chain.Expired (chain : Chain) (issue : Issue) : Prop :=
  parachainDeadline chain.issuePeriod (openTime issue) < chain.activeBlockNumber ∧
    bitcoinDeadline chain.issuePeriod (openTime issue) < chain.relayHeight

instance (chain : Chain) (issue : Issue) : Decidable (chain.Expired issue) :=
  inferInstanceAs (Decidable (_ ∧ _))

/-- The issues that are pending and not expired. -/
structure Chain.Live (chain : Chain) (issue : Issue) : Prop where
  mem : issue ∈ chain.issues
  pending : issue.2.status = .pending
  unexpired : ¬chain.Expired issue

variable (R) in
/-- Every live issue is returned and watched, and no sum fails or wraps around. -/
structure Watches (overflowChecks : Bool) (chain : Chain) (issueSet : IssueRequests) : Prop where
  plus : ∀ issue ∈ chain.issues, issue.2.status = .pending →
    plus (R := R) 32 overflowChecks issue.2.opentime chain.issuePeriod =
      .ok (issue.2.opentime + chain.issuePeriod)
  returned : ∃ requests,
    (getAllActiveIssues overflowChecks).run.eval (chain.answer R) = .ok requests ∧
      ∀ issue, chain.Live issue → issue ∈ requests
  watched : ∃ btcStartHeight issueSet',
    (initializeIssueSet overflowChecks issueSet).run.eval (chain.answer R) =
        .ok (btcStartHeight, issueSet') ∧
      ∀ issue, chain.Live issue → issueSet'.image issue.1 = some issue.2.btcAddress ∧
        (issueSet'.getKeyForValue issue.2.btcAddress).isSome ∧ btcStartHeight ≤ issue.2.btcHeight

/-! ### What is returned -/

section Returned

variable {overflowChecks : Bool} {chain : Chain}

theorem plus_eq_sum_iff {bits a b : Nat} :
    plus (R := R) bits overflowChecks a b = .ok (a + b) ↔ a + b < 2 ^ bits := by
  unfold plus
  by_cases h : a + b < 2 ^ bits
  · rw [if_pos h]
    exact iff_of_true rfl h
  · rw [if_neg h]
    refine iff_of_false (fun heq => h ?_) h
    cases overflowChecks with
    | true => cases heq
    | false =>
      have hwrap : (a + b) % 2 ^ bits = a + b := Except.ok.inj heq
      exact hwrap ▸ Nat.mod_lt (a + b) (Nat.two_pow_pos bits)

def activeAt (issuePeriod currentHeight : Nat) (request : InterBtcIssueRequest) : Bool :=
  request.status = .pending ∧ currentHeight < request.opentime + issuePeriod

/-- The issues for which the global period has not run out. -/
def Chain.active (chain : Chain) : List Issue :=
  chain.issues.filter fun issue => activeAt chain.issuePeriod chain.activeBlockNumber issue.2

theorem strip_rawKey (chain : Chain) (id : H256) : stripBlake2KeyPrefix (R := R)
    (chain.keyPrefix id ++ toBytes 32 id.toNat) = .ok (toBytes 32 id.toNat) := by
  have hlength := chain.length_keyPrefix id
  rw [stripBlake2KeyPrefix, if_pos (by rw [List.length_append]; omega), List.drop_left' hlength]

theorem fromSlice_toBytes (id : H256) : fromSlice (R := R) (toBytes 32 id.toNat) = .ok id := by
  rw [fromSlice, if_pos (length_toBytes 32 id.toNat)]
  exact congrArg Except.ok (ofNat_ofBytes_toBytes 32 id)

variable (overflowChecks) in
theorem isActive_of_sum {issuePeriod : Nat} (currentHeight : Nat) {request : InterBtcIssueRequest}
    (hsum : request.status = .pending → request.opentime + issuePeriod < 2 ^ 32) :
    isActive (R := R) overflowChecks issuePeriod currentHeight request =
      .ok (activeAt issuePeriod currentHeight request) := by
  unfold isActive activeAt
  by_cases hpending : request.status = .pending
  · rw [if_pos hpending, plus_eq_sum_iff.mpr (hsum hpending), Prog.ok_bind]
    simp only [hpending, true_and]
    rfl
  · rw [if_neg hpending]
    simp only [hpending, false_and, decide_false]
    rfl

variable (overflowChecks chain) in
theorem activeIssues_of_sum {issuePeriod : Nat} (currentHeight : Nat) {issues : List Issue}
    (hsum : ∀ issue ∈ issues, issue.2.status = .pending →
      issue.2.opentime + issuePeriod < 2 ^ 32) :
    activeIssues overflowChecks issuePeriod currentHeight (issues.map (chain.item (R := R))) =
      .ok (issues.filter fun issue => activeAt issuePeriod currentHeight issue.2) := by
  induction issues with
  | nil => rfl
  | cons issue issues ih =>
    have hactive := isActive_of_sum (R := R) overflowChecks currentHeight
      (hsum issue List.mem_cons_self)
    have hrest := ih fun other hother => hsum other (List.mem_cons_of_mem _ hother)
    rw [List.map_cons, activeIssues, Chain.item, Prog.mapError_ok, Prog.ok_bind]
    dsimp only
    rw [hactive, Prog.ok_bind, hrest, strip_rawKey, Prog.ok_bind, fromSlice_toBytes, Prog.ok_bind,
      Prog.ok_bind, List.filter_cons]
    split <;> rfl

/-- The sums of all pending issues are `u32`. -/
def Chain.InRange (chain : Chain) : Prop :=
  ∀ issue ∈ chain.issues, issue.2.status = .pending →
    issue.2.opentime + chain.issuePeriod < 2 ^ 32

variable (overflowChecks) in
theorem eval_getAllActiveIssues (hsum : chain.InRange) :
    (getAllActiveIssues overflowChecks).run.eval (chain.answer R) = .ok chain.active :=
  activeIssues_of_sum overflowChecks chain chain.activeBlockNumber hsum

end Returned

/-! ### What is watched -/

section Watched

variable {chain : Chain} {overflowChecks : Bool} {issueSet : IssueRequests} {requests : List Issue}

theorem image_insertAll_of_notMem {id : H256} (h : id ∉ requests.map Prod.fst) :
    (insertAll issueSet requests).image id = issueSet.image id := by
  induction requests generalizing issueSet with
  | nil => rfl
  | cons request requests ih =>
    obtain ⟨hne, hrest⟩ := not_or.mp (mt List.mem_cons.mpr h)
    refine (ih hrest).trans ?_
    rw [ReversibleHashMap.image_insert, Function.update_of_ne hne]

/-- An address stays in the reverse map, of whichever issue it becomes. -/
theorem isSome_preimage_insertAll {address : BtcAddress} (h : (issueSet.preimage address).isSome) :
    ((insertAll issueSet requests).preimage address).isSome := by
  induction requests generalizing issueSet with
  | nil => exact h
  | cons request requests ih =>
    refine ih ?_
    rw [ReversibleHashMap.preimage_insert, Function.update_apply]
    split
    · rfl
    · exact h

variable (issueSet) in
theorem watched_insertAll {issue : Issue} (hnodup : (requests.map Prod.fst).Nodup)
    (h : issue ∈ requests) :
    (insertAll issueSet requests).image issue.1 = some issue.2.btcAddress ∧
      ((insertAll issueSet requests).getKeyForValue issue.2.btcAddress).isSome := by
  induction requests generalizing issueSet with
  | nil => exact absurd h List.not_mem_nil
  | cons request requests ih =>
    obtain ⟨hnotMem, hnodup⟩ := List.nodup_cons.mp hnodup
    rcases List.mem_cons.mp h with rfl | hmem
    · constructor
      · refine (image_insertAll_of_notMem hnotMem).trans ?_
        rw [ReversibleHashMap.image_insert, Function.update_self]
      · show ((insertAll (issueSet.insert issue.1 issue.2.btcAddress).2 requests).preimage
          issue.2.btcAddress).isSome
        apply isSome_preimage_insertAll
        rw [ReversibleHashMap.preimage_insert, Function.update_self]
        rfl
    · exact ih _ hnodup hmem

variable (issueSet) in
/-- The start is at the height of the earliest of the requests. -/
theorem exists_eval_initializeIssueSet
    (hrequests : (getAllActiveIssues overflowChecks).run.eval (chain.answer R) = .ok requests) :
    ∃ btcStartHeight, (initializeIssueSet overflowChecks issueSet).run.eval (chain.answer R) =
        .ok (btcStartHeight, insertAll issueSet requests) ∧
      ∀ issue ∈ requests, btcStartHeight ≤ issue.2.btcHeight := by
  rw [initializeIssueSet, Prog.eval_run_bind, hrequests, Prog.bind_ok]
  cases hmin : (requests.map fun request => request.2.btcHeight).min? with
  | some btcStartHeight =>
    have hle := (List.min?_eq_some_iff.mp hmin).2
    exact ⟨btcStartHeight, rfl, fun issue hissue => hle _ (List.mem_map_of_mem hissue)⟩
  | none =>
    have hnil : requests = [] := List.map_eq_nil_iff.mp (List.min?_eq_none_iff.mp hmin)
    refine ⟨chain.blockCount % 2 ^ 32, rfl, fun issue hissue => ?_⟩
    rw [hnil] at hissue
    exact absurd hissue List.not_mem_nil

/-! ### Live issues -/

/-- For every pending issue the sum is a `u32`, and the global period has not run out unless the
issue has expired. -/
def Chain.Safe (chain : Chain) : Prop :=
  ∀ issue ∈ chain.issues, issue.2.status = .pending →
    issue.2.opentime + chain.issuePeriod < 2 ^ 32 ∧
      (chain.activeBlockNumber < issue.2.opentime + chain.issuePeriod ∨ chain.Expired issue)

instance : Decidable chain.Safe := inferInstanceAs (Decidable (∀ issue ∈ chain.issues, _))

theorem mem_active_of_safe {issue : Issue} (hsafe : chain.Safe) (hlive : chain.Live issue) :
    issue ∈ chain.active := by
  obtain ⟨-, hactive | hexpired⟩ := hsafe issue hlive.mem hlive.pending
  · exact List.mem_filter.mpr ⟨hlive.mem, decide_eq_true ⟨hlive.pending, hactive⟩⟩
  · exact absurd hexpired hlive.unexpired

theorem watches_of_safe (hsafe : chain.Safe) (issueSet : IssueRequests) :
    Watches R overflowChecks chain issueSet := by
  have hsum : chain.InRange := fun issue hmem hpending => (hsafe issue hmem hpending).1
  have hreturned := eval_getAllActiveIssues (R := R) overflowChecks hsum
  have hnodup : (chain.active.map Prod.fst).Nodup :=
    chain.nodup.sublist (List.filter_sublist.map Prod.fst)
  obtain ⟨btcStartHeight, hinitialized, hle⟩ :=
    exists_eval_initializeIssueSet issueSet hreturned
  constructor
  case plus => exact fun issue hmem hpending => plus_eq_sum_iff.mpr (hsum issue hmem hpending)
  case returned => exact ⟨_, hreturned, fun issue => mem_active_of_safe hsafe⟩
  case watched =>
    refine ⟨btcStartHeight, _, hinitialized, fun issue hlive => ?_⟩
    have hmem := mem_active_of_safe hsafe hlive
    obtain ⟨himage, hpreimage⟩ := watched_insertAll issueSet hnodup hmem
    exact ⟨himage, hpreimage, hle issue hmem⟩

theorem safe_of_watches (h : Watches R overflowChecks chain issueSet) : chain.Safe := by
  have hsum : chain.InRange := fun issue hmem hpending =>
    plus_eq_sum_iff.mp (h.plus issue hmem hpending)
  obtain ⟨requests, hrequests, hreturned⟩ := h.returned
  rw [eval_getAllActiveIssues overflowChecks hsum] at hrequests
  cases hrequests
  intro issue hmem hpending
  refine ⟨hsum issue hmem hpending, or_iff_not_imp_right.mpr fun hunexpired => ?_⟩
  have hactive := hreturned issue ⟨hmem, hpending, hunexpired⟩
  exact (of_decide_eq_true (List.mem_filter.mp hactive).2).2

/-- Whether live issues are missed depends on the issues, not on the build. -/
theorem watches_iff_safe (R : Type) (overflowChecks : Bool) (chain : Chain)
    (issueSet : IssueRequests) : Watches R overflowChecks chain issueSet ↔ chain.Safe :=
  ⟨safe_of_watches, fun hsafe => watches_of_safe hsafe issueSet⟩

/-- An issue with a period of 2000 blocks of its own, at the end of a global period of 1000. -/
def longIssue : Chain where
  activeBlockNumber := 1500
  relayHeight := 60
  issuePeriod := 1000
  issues := [(1, { (default : InterBtcIssueRequest) with
    opentime := 100, btcHeight := 50, period := 2000, status := .pending })]
  nodup := List.nodup_singleton 1
  finalizedBlockHash := 0
  keyPrefix _ := List.replicate 48 0
  length_keyPrefix _ := rfl
  blockCount := 60

/-- The canceller leaves the issue be for another 600 blocks, and it is not watched. -/
theorem not_watches_longIssue : ¬Watches Unit false longIssue ReversibleHashMap.new := by
  intro h
  exact absurd (safe_of_watches h) (by decide)

end Watched

end InterBtcClients.Vault.IssueSet
