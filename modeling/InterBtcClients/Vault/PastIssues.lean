import InterBtcClients.Library.Session
import InterBtcClients.Vault.Rescan

/-! `add_keys_from_past_issue_request`: at each start the vault imports the deposit keys of its past
issues and rescans the bitcoin blocks that may hold payments to them, saving how far it got. -/

namespace InterBtcClients.Vault.PastIssues

open Library InterBtcClients.Runtime

abbrev Issue := H256 × InterBtcIssueRequest

def ofVault (vaultId : VaultId) (issues : List Issue) : List Issue :=
  issues.filter fun (_, issue) => issue.vault = vaultId

section Program

variable (E PublicKey : Type)

inductive Call
  | dbGet
  | dbPut (status : RescanStatus)
  | getVaultIssueRequests
  | addNewDepositKey (publicKey : PublicKey) (secretKey : H256)
  | getBlockCount
  | getPrunedHeight
  | rescanElectrsForAddresses (addresses : List BtcAddress)
  | rescanBlockchain (start stop : Nat)
  /-- Whether less than ten seconds have passed since the last chunk was begun. -/
  | elapsedBelowLimit

/-- The calls that an invocation makes to the database, the parachain, the bitcoin node and the
clock. -/
@[reducible] def api : Interface where
  Call := Call PublicKey
  Answer
    | .dbGet => Except E (Option RescanStatus)
    | .dbPut _ => Except E Unit
    | .getVaultIssueRequests => Except E (List Issue)
    | .addNewDepositKey _ _ => Except E Unit
    | .getBlockCount => Except E Nat
    | .getPrunedHeight => Except E Nat
    | .rescanElectrsForAddresses _ => Except E Unit
    | .rescanBlockchain _ _ => Except E Unit
    | .elapsedBelowLimit => Bool

abbrev Rpc := ExceptT E (Prog (api E PublicKey))

variable {E PublicKey}

abbrev ask (call : Call PublicKey) : Prog (api E PublicKey) ((api E PublicKey).Answer call) :=
  Prog.request (api E PublicKey) call

variable (fromSlice : BtcPublicKey → Except E PublicKey) (sha256 : (n : Nat) → BitVec n → H256)
variable (vaultId : VaultId)

def get : Rpc E PublicKey RescanStatus := do
  let status ← ExceptT.mk (ask .dbGet)
  return status.getD default

def store (status : RescanStatus) : Rpc E PublicKey Unit :=
  ExceptT.mk (ask (.dbPut status))

/-- The secret key is the hash of the public key followed by the issue id. -/
def depositKey (secureId : H256) (publicKey : BtcPublicKey) : Except E (PublicKey × H256) := do
  let key ← fromSlice publicKey
  return (key, sha256 _ (publicKey ++ secureId))

def addNewDepositKey (secureId : H256) (publicKey : BtcPublicKey) : Rpc E PublicKey Unit := do
  let (key, secretKey) ← ExceptT.mk (pure (depositKey fromSlice sha256 secureId publicKey))
  ExceptT.mk (ask (.addNewDepositKey key secretKey))

/-- A key that cannot be imported is reported and left out. -/
def addKeys (issueRequests : List Issue) : Prog (api E PublicKey) PUnit :=
  issueRequests.forM fun (issueId, request) => do
    let _ ← (addNewDepositKey fromSlice sha256 issueId request.btcPublicKey).run
    return ⟨⟩

/-- The electrs scan of what bitcoin core no longer has. -/
def scanPruned (issueRequests : List Issue) (btcPrunedStartHeight : Nat) :
    Option (Nat × Nat) → Rpc E PublicKey Unit
  | some _ =>
    ExceptT.mk (ask (.rescanElectrsForAddresses ((issueRequests.filter fun (_, request) =>
      request.btcHeight < btcPrunedStartHeight).map fun (_, request) => request.btcAddress)))
  | none => return ()

/-- `usize::saturating_mul`. -/
def saturatingMul (a b : Nat) : Nat := min (a * b) usizeMax

/-- One round of the loop over the queued range: the state is the size of the next chunk and the
status. -/
def scanChunk : Nat × RescanStatus → Rpc E PublicKey ((Nat × RescanStatus) ⊕ Unit)
  | (chunkSize, scanningStatus) =>
    match scanningStatus.processBlocks chunkSize with
    | (none, _) => return .inr ()
    | (some (chunkStart, chunkEnd), scanningStatus) => do
      ExceptT.mk (ask (.rescanBlockchain chunkStart chunkEnd))
      let fast ← ExceptT.lift (ask .elapsedBelowLimit)
      let chunkSize := if fast then saturatingMul chunkSize 2 else max (chunkSize / 2) 1
      store scanningStatus
      return .inl (chunkSize, scanningStatus)

/-- `some ()` is an invocation that completed, `none` one whose loop has not ended after `fuel`
rounds. -/
def addKeysFromPastIssueRequest (fuel : Nat) : Rpc E PublicKey (Option Unit) := do
  let scanningStatus ← get
  let issueRequests ← ExceptT.mk (ask .getVaultIssueRequests)
  let issueRequests := ofVault vaultId issueRequests
  ExceptT.lift (addKeys fromSlice sha256 issueRequests)
  let btcEndHeight ← ExceptT.mk (ask .getBlockCount)
  let btcPrunedStartHeight ← ExceptT.mk (ask .getPrunedHeight)
  let scanningStatus := scanningStatus.update (issueRequests.map Prod.snd) btcEndHeight
  let (unscannable, scanningStatus) := scanningStatus.prune btcPrunedStartHeight
  scanPruned issueRequests btcPrunedStartHeight unscannable
  store scanningStatus
  Prog.iterate scanChunk fuel (1, scanningStatus)

end Program

/-! ### The surroundings -/

/-- The blocks passed to a successful rescan, and the keys that had been imported by then. -/
structure Scan (PublicKey : Type) where
  imported : List (PublicKey × H256)
  first : Nat
  last : Nat

/-- What the database, the node and the chain hold, with a history of what the invocations did:
the issues that the latest one listed, the bitcoin height read by the first one that listed an id,
and the issues listed by those that stored a status. -/
structure World (PublicKey : Type) where
  stored : Option RescanStatus
  height : Nat
  imported : List (PublicKey × H256)
  scans : List (Scan PublicKey)
  listed : List Issue
  firstHeight : H256 → Option Nat
  queued : List Issue

/-- The two are one issue, at different moments. -/
def Same (e e' : Issue) : Prop :=
  e.1 = e'.1 ∧ e.2.btcHeight = e'.2.btcHeight ∧ e.2.btcPublicKey = e'.2.btcPublicKey

namespace World

variable {PublicKey : Type}

def initial : World PublicKey := ⟨none, 0, [], [], [], fun _ => none, []⟩

/-- The status that an invocation starts from. -/
def status (w : World PublicKey) : RescanStatus := w.stored.getD default

def list (w : World PublicKey) (issues : List Issue) : World PublicKey :=
  { w with listed := issues }

def importKey (w : World PublicKey) (key : PublicKey × H256) : World PublicKey :=
  { w with imported := key :: w.imported }

def readHeight (w : World PublicKey) (height : Nat) : World PublicKey :=
  { w with
    height
    firstHeight := fun id => (w.firstHeight id).or
      (if id ∈ w.listed.map Prod.fst then some height else none) }

def put (w : World PublicKey) (status : RescanStatus) : World PublicKey :=
  { w with stored := some status, queued := w.listed ++ w.queued }

def scan (w : World PublicKey) (first last : Nat) : World PublicKey :=
  { w with scans := ⟨w.imported, first, last⟩ :: w.scans }

/-- Block `x` has been rescanned since `key` was imported. -/
def Scanned (w : World PublicKey) (key : PublicKey × H256) (x : Nat) : Prop :=
  ∃ scan ∈ w.scans, key ∈ scan.imported ∧ scan.first ≤ x ∧ x ≤ scan.last

end World

section Env

variable {E PublicKey : Type}
variable (fromSlice : BtcPublicKey → Except E PublicKey) (sha256 : (n : Nat) → BitVec n → H256)
variable (vaultId : VaultId)

/-- The lists only grow: what was listed is listed again, and what is new has no lower open time
than anything listed before.  Their keys can be imported. -/
def Grows (w : World PublicKey) (issues : List Issue) : Prop :=
  (∀ e ∈ w.listed, ∃ e' ∈ issues, Same e e' ∧ e.2.opentime = e'.2.opentime) ∧
    (∀ e ∈ issues, (∀ e' ∈ w.listed, ¬Same e' e) →
      ∀ e' ∈ w.listed, e'.2.opentime ≤ e.2.opentime) ∧
    ∀ e ∈ issues, ∃ key, fromSlice e.2.btcPublicKey = .ok key

/-- A failed call changes nothing. -/
def fallible {A : Type} (r : Except E A) (w w' : World PublicKey) (onOk : A → Prop) : Prop :=
  match r with
  | .ok a => onOk a
  | .error _ => w' = w

/-- Any call may fail, except for key imports.  Heights do not decrease and the node has not pruned
any block. -/
def env : Prog.Env (api E PublicKey) (World PublicKey)
  | w, .dbGet, r, w' => fallible r w w' fun status => status = w.stored ∧ w' = w
  | w, .dbPut status, r, w' => fallible r w w' fun _ => w' = w.put status
  | w, .getVaultIssueRequests, r, w' => fallible r w w' fun issues =>
      Grows fromSlice w (ofVault vaultId issues) ∧ w' = w.list (ofVault vaultId issues)
  | w, .addNewDepositKey publicKey secretKey, r, w' =>
      r = .ok () ∧ w' = w.importKey (publicKey, secretKey)
  | w, .getBlockCount, r, w' => fallible r w w' fun height =>
      w.height ≤ height ∧ w' = w.readHeight height
  | w, .getPrunedHeight, r, w' => fallible r w w' fun height => height = 0 ∧ w' = w
  | w, .rescanElectrsForAddresses _, _, w' => w' = w
  | w, .rescanBlockchain first last, r, w' => fallible r w w' fun _ => w' = w.scan first last
  | w, .elapsedBelowLimit, _, w' => w' = w

/-- Every issue listed that does not open after the newest one stored has been queued: it was in the
list of an invocation that stored its status. -/
def NoneOvertaken (w : World PublicKey) :
    (call : Call PublicKey) → (api E PublicKey).Answer call → Prop
  | .getVaultIssueRequests, .ok issues => ∀ e ∈ ofVault vaultId issues,
      e.2.opentime ≤ w.status.newestIssueHeight → ∃ e' ∈ w.queued, Same e' e
  | _, _ => True

/-- The surroundings in which no issue is overtaken. -/
def orderedEnv : Prog.Env (api E PublicKey) (World PublicKey) := fun w call r w' =>
  env fromSlice vaultId w call r w' ∧ NoneOvertaken vaultId w call r

end Env

/-! ### The invariant -/

section Invariant

variable {E PublicKey : Type}
variable {fromSlice : BtcPublicKey → Except E PublicKey} {sha256 : (n : Nat) → BitVec n → H256}
variable {vaultId : VaultId}

/-- The block is in the range that a restart finds queued. -/
def Queued (s : RescanStatus) (x : Nat) : Prop :=
  ∃ first last, s.queuedRescanRange = some (first, last) ∧ first ≤ x ∧ x ≤ last

variable (fromSlice sha256) in
/-- The key of `e` has been imported, and since then each of the blocks that may hold a payment to
it has been rescanned, except for those that are queued. -/
def Covered (w : World PublicKey) (e : Issue) : Prop :=
  ∃ key, depositKey fromSlice sha256 e.1 e.2.btcPublicKey = .ok key ∧ key ∈ w.imported ∧
    ∃ height, w.firstHeight e.1 = some height ∧
      ∀ x, e.2.btcHeight ≤ x → x ≤ height → w.Scanned key x ∨ Queued w.status x

variable (fromSlice sha256) in
structure Inv (w : World PublicKey) : Prop where
  covered : ∀ e ∈ w.queued, Covered fromSlice sha256 w e
  firstHeight_le : ∀ id height, w.firstHeight id = some height → height ≤ w.height

theorem Covered.same {w : World PublicKey} {e e' : Issue} (h : Covered fromSlice sha256 w e)
    (hsame : Same e e') : Covered fromSlice sha256 w e' := by
  obtain ⟨hid, hheight, hkey⟩ := hsame
  simpa only [Covered, hid, hheight, hkey] using h

/-- What the calls between two stores do to the world: keys, scans and first heights are added and
the height grows. -/
structure Grown (w w' : World PublicKey) : Prop where
  stored : w'.stored = w.stored
  queued : w'.queued = w.queued
  imported : w.imported ⊆ w'.imported
  scans : w.scans ⊆ w'.scans
  height : w.height ≤ w'.height
  firstHeight : ∀ id height, w.firstHeight id = some height → w'.firstHeight id = some height
  firstHeight_le : ∀ id height, w'.firstHeight id = some height →
    w.firstHeight id = some height ∨ height ≤ w'.height

theorem World.Scanned.mono {w w' : World PublicKey} {key : PublicKey × H256} {x : Nat}
    (h : w.Scanned key x) (hscans : w.scans ⊆ w'.scans) : w'.Scanned key x := by
  obtain ⟨scan, hscan, hcovers⟩ := h
  exact ⟨scan, hscans hscan, hcovers⟩

theorem Covered.grown {w w' : World PublicKey} {e : Issue} (h : Covered fromSlice sha256 w e)
    (hgrown : Grown w w') : Covered fromSlice sha256 w' e := by
  obtain ⟨key, hkey, himported, height, hfirst, hblocks⟩ := h
  refine ⟨key, hkey, hgrown.imported himported, height, hgrown.firstHeight _ _ hfirst,
    fun x hx hxh => ?_⟩
  rcases hblocks x hx hxh with hscanned | hqueued
  · exact .inl (hscanned.mono hgrown.scans)
  · right
    rwa [World.status, hgrown.stored]

theorem Inv.grown {w w' : World PublicKey} (h : Inv fromSlice sha256 w) (hgrown : Grown w w') :
    Inv fromSlice sha256 w' where
  covered e he := by
    rw [hgrown.queued] at he
    exact (h.covered e he).grown hgrown
  firstHeight_le id height hid := by
    rcases hgrown.firstHeight_le id height hid with hold | hle
    · exact Nat.le_trans (h.firstHeight_le id height hold) hgrown.height
    · exact hle

theorem grown_list (w : World PublicKey) (issues : List Issue) : Grown w (w.list issues) :=
  ⟨rfl, rfl, fun _ h => h, fun _ h => h, Nat.le_refl _, fun _ _ h => h,
    fun _ _ h => .inl h⟩

theorem grown_importKey (w : World PublicKey) (key : PublicKey × H256) :
    Grown w (w.importKey key) :=
  ⟨rfl, rfl, List.subset_cons_self _ _, fun _ h => h, Nat.le_refl _, fun _ _ h => h,
    fun _ _ h => .inl h⟩

theorem firstHeight_readHeight {w : World PublicKey} {id : H256} {height first : Nat}
    (h : (w.readHeight height).firstHeight id = some first) :
    w.firstHeight id = some first ∨ first = height := by
  simp only [World.readHeight, Option.or_eq_some_iff] at h
  rcases h with hold | ⟨-, hnew⟩
  · exact .inl hold
  · split at hnew
    · exact .inr (Option.some.inj hnew).symm
    · cases hnew

theorem grown_readHeight (w : World PublicKey) {height : Nat} (h : w.height ≤ height) :
    Grown w (w.readHeight height) :=
  ⟨rfl, rfl, fun _ h => h, fun _ h => h, h, fun id _ hid => by simp [World.readHeight, hid],
    fun id _ hid => by
      rcases firstHeight_readHeight hid with hold | rfl
      · exact .inl hold
      · exact .inr (Nat.le_refl _)⟩

theorem grown_scan (w : World PublicKey) (first last : Nat) : Grown w (w.scan first last) :=
  ⟨rfl, rfl, fun _ h => h, List.subset_cons_self _ _, Nat.le_refl _, fun _ _ h => h,
    fun _ _ h => .inl h⟩

/-- Storing a status keeps an issue covered when the blocks that are no longer queued have been
rescanned. -/
theorem Covered.put {w : World PublicKey} {e : Issue} {status : RescanStatus}
    (hinv : Inv fromSlice sha256 w) (h : Covered fromSlice sha256 w e)
    (hblocks : ∀ key x, key ∈ w.imported → x ≤ w.height → Queued w.status x →
      w.Scanned key x ∨ Queued status x) :
    Covered fromSlice sha256 (w.put status) e := by
  obtain ⟨key, hkey, himported, height, hfirst, hold⟩ := h
  refine ⟨key, hkey, himported, height, hfirst, fun x hx hxh => ?_⟩
  rcases hold x hx hxh with hscanned | hqueued
  · exact .inl hscanned
  · exact hblocks key x himported
      (Nat.le_trans hxh (hinv.firstHeight_le _ _ hfirst)) hqueued

/-! ### The blocks that stay queued -/

theorem queued_update {s : RescanStatus} {x height : Nat} (h : Queued s x) (hx : x ≤ height)
    (issues : List InterBtcIssueRequest) : Queued (s.update issues height) x := by
  by_cases hnil : s.newIssues issues = []
  · rwa [RescanStatus.update_of_newIssues_eq_nil hnil]
  · obtain ⟨first, last, hrange, hfirst, -⟩ := h
    obtain ⟨b, hb, -, hold⟩ := RescanStatus.update_of_newIssues_ne_nil hnil height
    exact ⟨b, max b height, hb, Nat.le_trans (hold _ _ hrange) hfirst,
      Nat.le_trans hx (Nat.le_max_right _ _)⟩

/-- An update queues all blocks, up to the current height, of the issues that it takes for new. -/
theorem queued_update_of_new {s : RescanStatus} {issue : InterBtcIssueRequest}
    {issues : List InterBtcIssueRequest} {x height : Nat} (hmem : issue ∈ issues)
    (hnew : s.newestIssueHeight < issue.opentime) (hfirst : issue.btcHeight ≤ x)
    (hx : x ≤ height) : Queued (s.update issues height) x := by
  have hissue : issue ∈ s.newIssues issues := by simp [RescanStatus.newIssues, hmem, hnew]
  obtain ⟨b, hb, hall, -⟩ :=
    RescanStatus.update_of_newIssues_ne_nil (List.ne_nil_of_mem hissue) height
  exact ⟨b, max b height, hb, Nat.le_trans (hall issue hissue) hfirst,
    Nat.le_trans hx (Nat.le_max_right _ _)⟩

/-- A queued block is in the chunk that is taken or stays queued. -/
theorem queued_processBlocks {s s' : RescanStatus} {maxBlocks first last x : Nat}
    (h : s.processBlocks maxBlocks = (some (first, last), s')) (hx : Queued s x) :
    (first ≤ x ∧ x ≤ last) ∨ Queued s' x := by
  obtain ⟨start, stop, hrange, hstart, hstop⟩ := hx
  simp only [RescanStatus.processBlocks, hrange] at h
  split at h
  · rename_i heq
    cases h
    left
    omega
  · cases h
    by_cases hle : x ≤ min stop (saturatingAdd first maxBlocks - 1)
    · exact .inl ⟨hstart, hle⟩
    · exact .inr ⟨_, stop, rfl, by omega, hstop⟩

/-! ### What an invocation keeps -/

variable (fromSlice sha256) in
/-- Every block that may hold a payment to `e`, up to the height first read with `e` listed, has
been rescanned since the key of `e` was imported. -/
def Rescanned (w : World PublicKey) (e : Issue) : Prop :=
  ∃ key, depositKey fromSlice sha256 e.1 e.2.btcPublicKey = .ok key ∧
    ∃ height, w.firstHeight e.1 = some height ∧
      ∀ x, e.2.btcHeight ≤ x → x ≤ height → w.Scanned key x

theorem Covered.rescanned {w : World PublicKey} {e : Issue} (h : Covered fromSlice sha256 w e)
    (hnone : w.status.queuedRescanRange = none) : Rescanned fromSlice sha256 w e := by
  obtain ⟨key, hkey, -, height, hfirst, hblocks⟩ := h
  refine ⟨key, hkey, height, hfirst, fun x hx hxh => ?_⟩
  rcases hblocks x hx hxh with hscanned | ⟨_, _, hrange, -⟩
  · exact hscanned
  · rw [hnone] at hrange
    cases hrange

variable (fromSlice sha256) in
/-- The state of the loop: the status has been stored, with the listed issues queued. -/
def Scanning (w : World PublicKey) (status : RescanStatus) : Prop :=
  Inv fromSlice sha256 w ∧ w.status = status ∧ w.listed ⊆ w.queued

variable (fromSlice sha256) in
def Completes (r : Except E (Option Unit)) (w : World PublicKey) : Prop :=
  r = .ok (some ()) → ∀ e ∈ w.listed, Rescanned fromSlice sha256 w e

theorem scanning_put {w : World PublicKey} {status : RescanStatus}
    (hinv : Inv fromSlice sha256 w)
    (h : ∀ e ∈ w.listed ++ w.queued, Covered fromSlice sha256 (w.put status) e) :
    Scanning fromSlice sha256 (w.put status) status :=
  ⟨⟨h, hinv.firstHeight_le⟩, rfl, List.subset_append_left _ _⟩

theorem keeps_scanChunk {x : Nat × RescanStatus} {w : World PublicKey}
    (h : Scanning fromSlice sha256 w x.2) :
    Prog.Keeps (orderedEnv fromSlice vaultId) (Inv fromSlice sha256) (scanChunk x).run
      (Prog.Round (fun x w => Scanning fromSlice sha256 w x.2) (Completes fromSlice sha256)) w := by
  obtain ⟨chunkSize, status⟩ := x
  obtain ⟨hinv, hstatus, hlisted⟩ := h
  simp only [scanChunk]
  split
  · rename_i hchunk
    refine Prog.keeps_run_pure.mpr ⟨hinv, fun _ e he =>
      (hinv.covered e (hlisted he)).rescanned ?_⟩
    rw [hstatus]
    exact RescanStatus.queuedRescanRange_of_processBlocks_none hchunk
  · rename_i first last status' hchunk
    refine Prog.keeps_run_bind.mpr (Prog.keeps_request.mpr ⟨hinv, fun r w' hr => ?_⟩)
    match r, hr with
    | .error e, ⟨hw, _⟩ =>
      cases hw
      exact ⟨hinv, nofun⟩
    | .ok (), ⟨hw, _⟩ =>
      cases hw
      have hscan := hinv.grown (grown_scan w first last)
      refine ⟨hscan, Prog.keeps_run_bind.mpr (Prog.keeps_run_lift.mpr
        (Prog.keeps_request.mpr ⟨hscan, fun fast w' hr => ?_⟩))⟩
      cases hr.1
      refine ⟨hscan, Prog.keeps_run_bind.mpr (Prog.keeps_request.mpr ⟨hscan, fun r w' hr => ?_⟩)⟩
      match r, hr with
      | .error e, ⟨hw, _⟩ =>
        cases hw
        exact ⟨hscan, nofun⟩
      | .ok (), ⟨hw, _⟩ =>
        cases hw
        have hput : Scanning fromSlice sha256 ((w.scan first last).put status') status' := by
          refine scanning_put hscan fun e he => ?_
          have hqueued : e ∈ w.queued := by
            rcases List.mem_append.mp he with he | he
            · exact hlisted he
            · exact he
          refine Covered.put hscan (hscan.covered e hqueued) fun key x himported _ hx => ?_
          rw [World.status, (grown_scan w first last).stored, ← World.status, hstatus] at hx
          rcases queued_processBlocks hchunk hx with hin | hleft
          · exact .inl ⟨_, List.mem_cons_self, himported, hin⟩
          · exact .inr hleft
        exact ⟨hput.1, hput.1, hput⟩

variable (fromSlice sha256) in
/-- After the status has been loaded and the issues listed: each of them has been queued before or
is new to the status. -/
structure Started (w : World PublicKey) (status : RescanStatus) (issues : List Issue) : Prop where
  inv : Inv fromSlice sha256 w
  status_eq : w.status = status
  listed : w.listed = issues
  ordered : ∀ e ∈ issues, e.2.opentime ≤ status.newestIssueHeight → ∃ e' ∈ w.queued, Same e' e
  parsed : ∀ e ∈ issues, ∃ key, fromSlice e.2.btcPublicKey = .ok key

theorem Started.grown {w w' : World PublicKey} {status : RescanStatus} {issues : List Issue}
    (h : Started fromSlice sha256 w status issues) (hgrown : Grown w w')
    (hlisted : w'.listed = w.listed) : Started fromSlice sha256 w' status issues where
  inv := h.inv.grown hgrown
  status_eq := by rw [World.status, hgrown.stored]; exact h.status_eq
  listed := hlisted.trans h.listed
  ordered := by rw [hgrown.queued]; exact h.ordered
  parsed := h.parsed

variable (fromSlice sha256) in
def Imported (w : World PublicKey) (e : Issue) : Prop :=
  ∃ key, depositKey fromSlice sha256 e.1 e.2.btcPublicKey = .ok key ∧ key ∈ w.imported

theorem keeps_addNewDepositKey {w : World PublicKey} {e : Issue}
    {Q : Except E Unit → World PublicKey → Prop} {key : PublicKey × H256}
    (hinv : Inv fromSlice sha256 w)
    (hkey : depositKey fromSlice sha256 e.1 e.2.btcPublicKey = .ok key)
    (hQ : Q (.ok ()) (w.importKey key)) :
    Prog.Keeps (orderedEnv fromSlice vaultId) (Inv fromSlice sha256)
      (addNewDepositKey fromSlice sha256 e.1 e.2.btcPublicKey).run Q w := by
  refine Prog.keeps_run_bind.mpr ⟨hinv, ?_⟩
  simp only [hkey]
  refine Prog.keeps_request.mpr ⟨hinv, fun r w' hr => ?_⟩
  obtain ⟨⟨rfl, rfl⟩, -⟩ := hr
  exact ⟨hinv.grown (grown_importKey w key), hQ⟩

theorem depositKey_of_parsed {publicKey : BtcPublicKey} (id : H256)
    (h : ∃ key, fromSlice publicKey = .ok key) :
    ∃ key, depositKey fromSlice sha256 id publicKey = .ok key := by
  obtain ⟨key, hkey⟩ := h
  exact ⟨(key, sha256 _ (publicKey ++ id)), by rw [depositKey, hkey]; rfl⟩

theorem keeps_addKeys {w : World PublicKey} {status : RescanStatus} {issues : List Issue}
    (h : Started fromSlice sha256 w status issues) :
    Prog.Keeps (orderedEnv fromSlice vaultId) (Inv fromSlice sha256)
      (addKeys fromSlice sha256 issues) (fun _ w => Started fromSlice sha256 w status issues ∧
        ∀ e ∈ issues, Imported fromSlice sha256 w e) w := by
  -- The issues that are not left in the loop have been imported.
  let J (rest : List Issue) (w : World PublicKey) : Prop :=
    Started fromSlice sha256 w status issues ∧ rest ⊆ issues ∧
      ∀ e ∈ issues, e ∈ rest ∨ Imported fromSlice sha256 w e
  have hstep : ∀ e rest w, J (e :: rest) w →
      Prog.Keeps (orderedEnv fromSlice vaultId) (Inv fromSlice sha256)
        ((addNewDepositKey fromSlice sha256 e.1 e.2.btcPublicKey).run >>= fun _ => pure ⟨⟩)
        (fun (_ : PUnit) w => J rest w) w := by
    rintro e rest w ⟨hstarted, hsub, himported⟩
    obtain ⟨key, hkey⟩ := depositKey_of_parsed e.1 (hstarted.parsed e (hsub List.mem_cons_self))
    have hnext := hstarted.grown (grown_importKey w key) rfl
    refine Prog.keeps_bind.mpr (keeps_addNewDepositKey hstarted.inv hkey
      ⟨hnext.inv, hnext, fun e he => hsub (List.mem_cons_of_mem _ he), fun e' he' => ?_⟩)
    rcases himported e' he' with hmem | ⟨key, hkey', hin⟩
    · rcases List.mem_cons.mp hmem with rfl | hmem
      · exact .inr ⟨_, hkey, List.mem_cons_self⟩
      · exact .inl hmem
    · exact .inr ⟨key, hkey', List.mem_cons_of_mem _ hin⟩
  refine (Prog.keeps_forM J hstep (fun w hw => hw.1.inv)
    ⟨h, fun _ he => he, fun e he => .inl he⟩).mono fun _ w _ hw => ⟨hw.1, fun e he => ?_⟩
  rcases hw.2.2 e he with hnil | himported
  · cases hnil
  · exact himported

/-- Storing the updated status leaves every listed issue covered: those that were queued before stay
so, and the others are new to the status. -/
theorem scanning_put_update {w : World PublicKey} {status : RescanStatus} {issues : List Issue}
    {height : Nat} (h : Started fromSlice sha256 w status issues)
    (himported : ∀ e ∈ issues, Imported fromSlice sha256 w e) (hheight : w.height ≤ height) :
    let status' := status.update (issues.map Prod.snd) height
    Scanning fromSlice sha256 ((w.readHeight height).put status') status' := by
  intro status'
  have hinv := h.inv.grown (grown_readHeight w hheight)
  have hold : ∀ e ∈ w.queued,
      Covered fromSlice sha256 ((w.readHeight height).put status') e := by
    intro e he
    refine Covered.put hinv (hinv.covered e he) fun key x _ hx hqueued => .inr ?_
    rw [World.status, (grown_readHeight w hheight).stored, ← World.status, h.status_eq] at hqueued
    exact queued_update hqueued hx _
  refine scanning_put hinv fun e he => ?_
  rcases List.mem_append.mp he with he | he
  · have hlisted : e ∈ issues := h.listed ▸ he
    by_cases hnew : e.2.opentime ≤ status.newestIssueHeight
    · obtain ⟨e', he', hsame⟩ := h.ordered e hlisted hnew
      exact (hold e' he').same hsame
    · obtain ⟨key, hkey, hin⟩ := himported e hlisted
      obtain ⟨first, hfirst⟩ : ∃ first, (w.readHeight height).firstHeight e.1 = some first := by
        have hid : e.1 ∈ w.listed.map Prod.fst := List.mem_map_of_mem (h.listed ▸ hlisted)
        simp only [World.readHeight, hid, if_true]
        cases w.firstHeight e.1 with
        | none => exact ⟨height, rfl⟩
        | some first => exact ⟨first, rfl⟩
      refine ⟨key, hkey, hin, first, hfirst, fun x hx hxf => .inr ?_⟩
      exact queued_update_of_new (List.mem_map_of_mem hlisted) (Nat.lt_of_not_le hnew) hx
        (Nat.le_trans hxf (hinv.firstHeight_le _ _ hfirst))
  · exact hold e he

theorem keeps_get {w : World PublicKey} (hinv : Inv fromSlice sha256 w) :
    Prog.Keeps (orderedEnv fromSlice vaultId) (Inv fromSlice sha256)
      (get : Rpc E PublicKey RescanStatus).run
      (fun r w' => w' = w ∧ ∀ status, r = .ok status → status = w.status) w := by
  refine Prog.keeps_run_bind.mpr (Prog.keeps_request.mpr ⟨hinv, fun r w' hr => ?_⟩)
  match r, hr with
  | .error e, ⟨hw, _⟩ =>
    cases hw
    exact ⟨hinv, rfl, nofun⟩
  | .ok stored, ⟨⟨hstored, hw⟩, _⟩ =>
    cases hw
    refine ⟨hinv, hinv, rfl, fun status hstatus => ?_⟩
    cases hstatus
    rw [hstored]
    rfl

/-- What holds once the list has been read. -/
theorem started_list {w : World PublicKey} {issues : List Issue} (hinv : Inv fromSlice sha256 w)
    (hgrows : Grows fromSlice w issues)
    (hordered : ∀ e ∈ issues, e.2.opentime ≤ w.status.newestIssueHeight →
      ∃ e' ∈ w.queued, Same e' e) :
    Started fromSlice sha256 (w.list issues) w.status issues where
  inv := hinv.grown (grown_list w issues)
  status_eq := rfl
  listed := rfl
  ordered := hordered
  parsed := hgrows.2.2

/-- What is left of an invocation once the keys are imported. -/
theorem keeps_scan {w : World PublicKey} {status : RescanStatus} {issues : List Issue} (fuel : Nat)
    (h : Started fromSlice sha256 w status issues)
    (himported : ∀ e ∈ issues, Imported fromSlice sha256 w e) :
    Prog.Keeps (orderedEnv fromSlice vaultId) (Inv fromSlice sha256) (ExceptT.run do
      let btcEndHeight ← ExceptT.mk (ask .getBlockCount)
      let btcPrunedStartHeight ← ExceptT.mk (ask .getPrunedHeight)
      let scanningStatus := status.update (issues.map Prod.snd) btcEndHeight
      let (unscannable, scanningStatus) := scanningStatus.prune btcPrunedStartHeight
      scanPruned issues btcPrunedStartHeight unscannable
      store scanningStatus
      Prog.iterate scanChunk fuel (1, scanningStatus)) (Completes fromSlice sha256) w := by
  refine Prog.keeps_run_bind.mpr (Prog.keeps_request.mpr ⟨h.inv, fun r w' hr => ?_⟩)
  match r, hr with
  | .error e, ⟨hw, _⟩ =>
    cases hw
    exact ⟨h.inv, nofun⟩
  | .ok height, ⟨⟨hheight, hw⟩, _⟩ =>
    cases hw
    have hinv := h.inv.grown (grown_readHeight w hheight)
    refine ⟨hinv, Prog.keeps_run_bind.mpr (Prog.keeps_request.mpr ⟨hinv, fun r w' hr => ?_⟩)⟩
    match r, hr with
    | .error e, ⟨hw, _⟩ =>
      cases hw
      exact ⟨hinv, nofun⟩
    | .ok pruned, ⟨⟨hpruned, hw⟩, _⟩ =>
      cases hw
      cases hpruned
      refine ⟨hinv, ?_⟩
      simp only [Prog.Outcome, RescanStatus.prune_zero]
      refine Prog.keeps_run_bind.mpr (Prog.keeps_run_pure.mpr ⟨hinv, ?_⟩)
      refine Prog.keeps_run_bind.mpr (Prog.keeps_request.mpr ⟨hinv, fun r w' hr => ?_⟩)
      match r, hr with
      | .error e, ⟨hw, _⟩ =>
        cases hw
        exact ⟨hinv, nofun⟩
      | .ok (), ⟨hw, _⟩ =>
        cases hw
        have hscanning := scanning_put_update h himported hheight
        exact ⟨hscanning.1, Prog.keeps_run_iterate
          (fun x w => Scanning fromSlice sha256 w x.2) (fun _ _ hx => keeps_scanChunk hx)
          (fun _ _ _ => nofun) fuel hscanning⟩

/-- Wherever an invocation is cut off, every issue queued so far has its key imported and its blocks
rescanned or queued.  If it completes, all that it listed have been rescanned. -/
theorem keeps_addKeysFromPastIssueRequest {w : World PublicKey} (fuel : Nat)
    (hinv : Inv fromSlice sha256 w) :
    Prog.Keeps (orderedEnv fromSlice vaultId) (Inv fromSlice sha256)
      (addKeysFromPastIssueRequest fromSlice sha256 vaultId fuel).run
      (Completes fromSlice sha256) w := by
  refine Prog.keeps_run_bind.mpr ((keeps_get hinv).mono fun r w' _ hr => ?_)
  obtain ⟨rfl, hstatus⟩ := hr
  match r, hstatus with
  | .error e, _ => exact nofun
  | .ok status, hstatus =>
    cases hstatus _ rfl
    refine Prog.keeps_run_bind.mpr (Prog.keeps_request.mpr ⟨hinv, fun r w' hr => ?_⟩)
    match r, hr with
    | .error e, ⟨hw, _⟩ =>
      cases hw
      exact ⟨hinv, nofun⟩
    | .ok issues, ⟨⟨hgrows, hw⟩, hordered⟩ =>
      cases hw
      have hstarted := started_list hinv hgrows hordered
      refine ⟨hstarted.inv, Prog.keeps_run_bind.mpr (Prog.keeps_run_lift.mpr ?_)⟩
      exact (keeps_addKeys hstarted).mono fun _ _ _ h => keeps_scan fuel h.1 h.2

theorem inv_initial : Inv fromSlice sha256 (World.initial : World PublicKey) where
  covered _ h := nomatch h
  firstHeight_le _ _ h := nomatch h

variable (fromSlice sha256 vaultId) in
/-- Over any number of invocations that are cut off or return, an invocation that completes leaves
none of its issues unscanned, if every issue that one of them lists opens after the newest issue of
the stored status or had been queued when that was stored. -/
theorem rescanned_of_completes (fuel : Nat) {w w' : World PublicKey}
    (hrestarts : Prog.Restarts (orderedEnv fromSlice vaultId)
      (addKeysFromPastIssueRequest fromSlice sha256 vaultId fuel).run World.initial w)
    (hruns : Prog.Runs (orderedEnv fromSlice vaultId)
      (addKeysFromPastIssueRequest fromSlice sha256 vaultId fuel).run w
      (.pure (.ok (some ()))) w') :
    ∀ e ∈ w'.listed, Rescanned fromSlice sha256 w' e := by
  have hinv := hrestarts.inv (fun _ => keeps_addKeysFromPastIssueRequest fuel) inv_initial
  exact (keeps_addKeysFromPastIssueRequest fuel hinv).returns hruns rfl

end Invariant

/-! ### Two invocations -/

/-- The public key of the secret key one. -/
def publicKeyOfOne : BtcPublicKey :=
  (0x02 : BitVec 8) ++
    (0x79BE667EF9DCBBAC55A06295CE870B07029BFCDB2DCE28D959F2815B16F81798 : BitVec 256)

def pastIssue (id : H256) (opentime btcHeight : Nat) : Issue :=
  (id, { (default : InterBtcIssueRequest) with
    opentime, btcHeight, btcPublicKey := publicKeyOfOne })

/-- The one key of the example is well formed. -/
def readKey (key : BtcPublicKey) : Except Unit BtcPublicKey := .ok key

/-- SHA-256 on the two inputs of the example: `publicKeyOfOne` followed by the ids one and two. -/
def digest (n : Nat) (input : BitVec n) : H256 :=
  if input.toNat = (publicKeyOfOne ++ (1 : H256)).toNat then
    0xa3afeffd8685383c9d05605589a78a73874e5f9580d6db1a9d5db20bd7b329ac
  else if input.toNat = (publicKeyOfOne ++ (2 : H256)).toNat then
    0x567fdf4804b29c191f168473d565e495bb268444a0324e491a453f95e4a0bb23
  else 0

/-- Surroundings that answer with the lists that `next` determines, and do not fail otherwise. -/
def answer (next : World BtcPublicKey → Except Unit (List Issue)) (w : World BtcPublicKey) :
    (call : Call BtcPublicKey) → (api Unit BtcPublicKey).Answer call × World BtcPublicKey
  | .dbGet => (.ok w.stored, w)
  | .dbPut status => (.ok (), w.put status)
  | .getVaultIssueRequests => match next w with
    | .ok issues => (.ok issues, w.list (ofVault default issues))
    | .error e => (.error e, w)
  | .addNewDepositKey publicKey secretKey => (.ok (), w.importKey (publicKey, secretKey))
  | .getBlockCount => (.ok (w.height + 20), w.readHeight (w.height + 20))
  | .getPrunedHeight => (.ok 0, w)
  | .rescanElectrsForAddresses _ => (.ok (), w)
  | .rescanBlockchain first last => (.ok (), w.scan first last)
  | .elapsedBelowLimit => (true, w)

theorem env_answer {next : World BtcPublicKey → Except Unit (List Issue)}
    (h : ∀ w issues, next w = .ok issues → Grows readKey w (ofVault default issues))
    (w : World BtcPublicKey) (call : Call BtcPublicKey) :
    env readKey default w call (answer next w call).1 (answer next w call).2 := by
  cases call with
  | getVaultIssueRequests =>
    simp only [answer]
    split
    · rename_i issues hissues
      exact ⟨h w issues hissues, rfl⟩
    · rfl
  | rescanElectrsForAddresses addresses => rfl
  | getBlockCount => exact ⟨Nat.le_add_right _ _, rfl⟩
  | dbPut status => rfl
  | rescanBlockchain first last => rfl
  | elapsedBelowLimit => rfl
  | dbGet | addNewDepositKey publicKey secretKey | getPrunedHeight => exact ⟨rfl, rfl⟩

def firstIssue : Issue := pastIssue 1 5 10

def secondIssue (opentime : Nat) : Issue := pastIssue 2 opentime 12

/-- The first issue alone, and once it has been queued both. -/
def lists (opentime : Nat) (w : World BtcPublicKey) : Except Unit (List Issue) :=
  if w.listed = [firstIssue] ∧ firstIssue ∈ w.queued ∧ w.status.newestIssueHeight = 5 then
    .ok [firstIssue, secondIssue opentime]
  else if w.listed = [] ∧ w.stored = none then .ok [firstIssue]
  else .error ()

theorem grows_lists {opentime : Nat} (hopentime : 5 ≤ opentime) (w : World BtcPublicKey)
    (issues : List Issue) (h : lists opentime w = .ok issues) :
    Grows readKey w (ofVault default issues) := by
  unfold lists at h
  split at h
  next hw =>
    cases h
    have hlist : ofVault default [firstIssue, secondIssue opentime] =
      [firstIssue, secondIssue opentime] := rfl
    rw [hlist]
    refine ⟨fun e he => ?_, fun e he _ e' he' => ?_, fun e _ => ⟨_, rfl⟩⟩
    · rw [hw.1] at he
      exact ⟨e, List.mem_cons.mpr (.inl (List.mem_singleton.mp he)), ⟨rfl, rfl, rfl⟩, rfl⟩
    · rw [hw.1] at he'
      cases List.mem_singleton.mp he'
      rcases List.mem_cons.mp he with rfl | he
      · exact Nat.le_refl _
      · cases List.mem_singleton.mp he
        exact hopentime
  next =>
    split at h
    next hw =>
      cases h
      refine ⟨?_, ?_, fun e _ => ⟨_, rfl⟩⟩ <;> simp [hw.1]
    next => cases h

/-- An issue that opens later is not overtaken. -/
theorem noneOvertaken_lists {opentime : Nat} (hopentime : 5 < opentime) (w : World BtcPublicKey)
    (call : Call BtcPublicKey) :
    NoneOvertaken default w call (answer (lists opentime) w call).1 := by
  cases call with
  | getVaultIssueRequests =>
    simp only [answer, lists]
    split
    next issues hissues =>
      intro e he hopen
      have he := (List.mem_filter.mp he).1
      split at hissues
      next hw =>
        cases hissues
        rw [hw.2.2] at hopen
        rcases List.mem_cons.mp he with rfl | he
        · exact ⟨firstIssue, hw.2.1, rfl, rfl, rfl⟩
        · cases List.mem_singleton.mp he
          exact absurd hopen (Nat.not_le.mpr hopentime)
      next =>
        split at hissues
        next hw =>
          cases hissues
          cases List.mem_singleton.mp he
          rw [World.status, hw.2] at hopen
          exact absurd hopen (by decide)
        next => cases hissues
    next => trivial
  | _ => trivial

abbrev invocation : Prog (api Unit BtcPublicKey) (Except Unit (Option Unit)) :=
  (addKeysFromPastIssueRequest readKey digest default 8).run

/-- An invocation that `answer (lists opentime)` serves. -/
def invoke (opentime : Nat) (w : World BtcPublicKey) :
    Except Unit (Option Unit) × World BtcPublicKey :=
  invocation.exec (answer (lists opentime)) w

theorem runs_invoke {env : Prog.Env (api Unit BtcPublicKey) (World BtcPublicKey)} {opentime : Nat}
    {w : World BtcPublicKey}
    (henv : ∀ w call,
      env w call (answer (lists opentime) w call).1 (answer (lists opentime) w call).2)
    (hok : (invoke opentime w).1 = .ok (some ())) :
    Prog.Runs env invocation w (.pure (.ok (some ()))) (invoke opentime w).2 :=
  hok ▸ Prog.runs_exec henv _ _

/-- The world after an invocation that is cut off when it has rescanned its first block and has not
stored that yet. -/
def afterCut : World BtcPublicKey := (Prog.cut (answer (lists 6)) 7 invocation World.initial).2

/-- The first invocation has left blocks queued; the second one lists both issues and rescans the
blocks of both. -/
theorem rescanned_of_completes_afterCut :
    afterCut.status.queuedRescanRange = some (10, 20) ∧
      (invoke 6 afterCut).2.listed = [firstIssue, secondIssue 6] ∧
      (invoke 6 afterCut).2.firstHeight 1 = some 20 ∧
      (invoke 6 afterCut).2.firstHeight 2 = some 40 ∧
      ∀ e ∈ [firstIssue, secondIssue 6], Rescanned readKey digest (invoke 6 afterCut).2 e := by
  have henv (w : World BtcPublicKey) (call : Call BtcPublicKey) :
      orderedEnv readKey default w call (answer (lists 6) w call).1 (answer (lists 6) w call).2 :=
    ⟨env_answer (grows_lists (by decide)) w call, noneOvertaken_lists (by decide) w call⟩
  have hrestarts : Prog.Restarts (orderedEnv readKey default) invocation World.initial afterCut :=
    .next (.refl _) (Prog.runs_cut henv 7 _ _)
  exact ⟨rfl, rfl, rfl, rfl,
    rescanned_of_completes readKey digest default 8 hrestarts (runs_invoke henv rfl)⟩

/-- The worlds after the first and the second of two invocations. -/
def afterFirst : World BtcPublicKey := (invoke 5 World.initial).2

def afterSecond : World BtcPublicKey := (invoke 5 afterFirst).2

/-- The second issue has the open time of the first: when it appears in the list, its key is
imported, and the invocation completes without any rescan. -/
theorem not_rescanned_of_completes :
    Prog.Restarts (env readKey default) invocation World.initial afterFirst ∧
      Prog.Runs (env readKey default) invocation afterFirst (.pure (.ok (some ()))) afterSecond ∧
      secondIssue 5 ∈ afterSecond.listed ∧
      ¬Rescanned readKey digest afterSecond (secondIssue 5) := by
  have henv := env_answer (grows_lists (Nat.le_refl 5))
  refine ⟨.next (.refl _) (runs_invoke henv rfl), runs_invoke henv rfl,
    List.mem_cons_of_mem _ List.mem_cons_self, ?_⟩
  rintro ⟨key, hkey, height, hheight, hblocks⟩
  have hheight' : some 40 = some height := hheight
  cases hheight'
  have hsecret : key.2 = digest _ (publicKeyOfOne ++ (2 : H256)) := by
    cases hkey
    rfl
  obtain ⟨scan, hscan, himported, -⟩ := hblocks 12 (Nat.le_refl _) (by decide)
  have hold : key.2 ∈ [digest _ (publicKeyOfOne ++ (1 : H256))] := by
    have hscans : afterSecond.scans.map (fun scan => scan.imported.map Prod.snd) =
        List.replicate 4 [digest _ (publicKeyOfOne ++ (1 : H256))] := rfl
    have hmem := List.mem_map_of_mem (f := fun scan => scan.imported.map Prod.snd) hscan
    rw [hscans] at hmem
    rw [← List.eq_of_mem_replicate hmem]
    exact List.mem_map_of_mem himported
  rw [List.mem_singleton, hsecret] at hold
  exact absurd hold (by decide)

end InterBtcClients.Vault.PastIssues
