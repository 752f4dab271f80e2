import InterBtcClients.Bitcoin.Types
import InterBtcClients.Library.Interleave
import InterBtcClients.Vault.PastIssues

/-! `add_keys_from_past_issue_request` with a node that prunes: what the node can no longer rescan
is imported from the electrs server.  In the end each payment to a past issue is in a block that has
been rescanned or has been imported itself. -/

namespace InterBtcClients.Vault.PrunedIssues

open Library Bitcoin InterBtcClients.Runtime
open PastIssues (Issue Call api Queued depositKey ofVault addKeysFromPastIssueRequest)

/-! ### The surroundings -/

/-- The bitcoin chain: `paid address height txid` when the transaction is in the block at this
height and has an output to the address.  `raw` are the transactions themselves. -/
structure Payments where
  paid : String → Nat → Txid → Prop
  raw : Txid → List UInt8

/-- The node has the blocks from `prunedHeight` on.  `funds` are the transactions that have been
imported one by one. -/
structure World (PublicKey : Type) extends PastIssues.World PublicKey where
  prunedHeight : Nat
  funds : List (List UInt8)

/-- The two are one issue, at different moments. -/
def Same (e e' : Issue) : Prop := PastIssues.Same e e' ∧ e.2.btcAddress = e'.2.btcAddress

section Env

variable {E PublicKey : Type}
variable (payments : Payments) (address : BtcAddress → String)
variable (fromSlice : BtcPublicKey → Except E PublicKey) (sha256 : (n : Nat) → BitVec n → H256)
variable (vaultId : VaultId)

/-- What happens in the meantime: scans are completed and blocks are pruned. -/
structure Evolves (w w' : World PublicKey) : Prop where
  stored : w'.stored = w.stored
  height : w'.height = w.height
  imported : w'.imported = w.imported
  listed : w'.listed = w.listed
  firstHeight : w'.firstHeight = w.firstHeight
  queued : w'.queued = w.queued
  scans : w.scans ⊆ w'.scans
  prunedHeight : w.prunedHeight ≤ w'.prunedHeight
  funds : w.funds ⊆ w'.funds

/-- The lists only grow: what was listed is listed again.  An issue opens after the newest one of
the stored status, or was in the list of an invocation that stored its status. -/
structure Lists (w : World PublicKey) (issues : List Issue) : Prop where
  again : ∀ e ∈ w.listed, ∃ e' ∈ issues, Same e e'
  ordered : ∀ e ∈ issues, e.2.opentime ≤ w.status.newestIssueHeight → ∃ e' ∈ w.queued, Same e' e
  parsed : ∀ e ∈ issues, ∃ key, fromSlice e.2.btcPublicKey = .ok key

/-- A completed rescan of the blocks, with all keys of before. -/
def Rescans (w : World PublicKey) (first last : Nat) (w' : World PublicKey) : Prop :=
  ∃ scan ∈ w'.scans, w.imported ⊆ scan.imported ∧ scan.first = first ∧ scan.last = last

/-- The payments to the addresses, in blocks that the node may not have, have been imported. -/
def Imports (w : World PublicKey) (addresses : List BtcAddress) (w' : World PublicKey) : Prop :=
  ∀ btcAddress ∈ addresses, ∀ x < w.prunedHeight, ∀ txid,
    payments.paid (address btcAddress) x txid → payments.raw txid ∈ w'.funds

/-- A call that fails changes nothing.  All keys can be imported. -/
def Answers (w : World PublicKey) :
    (call : Call PublicKey) → (api E PublicKey).Answer call → World PublicKey → Prop
  | .dbGet => Prog.Outcome (fun status w' => status = w.stored ∧ w' = w) fun _ w' => w' = w
  | .dbPut status =>
    Prog.Outcome (fun _ w' => w' = { w with toWorld := w.put status }) fun _ w' => w' = w
  | .getVaultIssueRequests =>
    Prog.Outcome (fun issues w' => Lists fromSlice w (ofVault vaultId issues) ∧
      w' = { w with toWorld := w.list (ofVault vaultId issues) }) fun _ w' => w' = w
  | .addNewDepositKey publicKey secretKey => fun r w' =>
    r = .ok () ∧ w' = { w with toWorld := w.importKey (publicKey, secretKey) }
  | .getBlockCount =>
    Prog.Outcome (fun height w' => w.height ≤ height ∧
      w' = { w with toWorld := w.readHeight height }) fun _ w' => w' = w
  | .getPrunedHeight =>
    Prog.Outcome (fun height w' => height = w.prunedHeight ∧ w' = w) fun _ w' => w' = w
  | .rescanElectrsForAddresses addresses => fun r w' =>
    Evolves w w' ∧ (r = .ok () → Imports payments address w addresses w')
  | .rescanBlockchain first last => fun r w' =>
    Evolves w w' ∧ (r = .ok () → Rescans w first last w')
  | .elapsedBelowLimit => fun _ w' => w' = w

def env : Prog.Env (api E PublicKey) (World PublicKey) :=
  Prog.interfere Evolves fun w call r w' => Answers payments address fromSlice vaultId w call r w'

/-! ### The invariant -/

/-- A payment to the address in this block is known to the wallet. -/
def Found (w : World PublicKey) (key : PublicKey × H256) (btcAddress : BtcAddress) (x : Nat) :
    Prop :=
  w.Scanned key x ∨ ∀ txid, payments.paid (address btcAddress) x txid → payments.raw txid ∈ w.funds

/-- The key of `e` has been imported, and its payments are known, up to the height first read with
`e` listed, or their blocks are queued in the status. -/
def Covered (w : World PublicKey) (status : RescanStatus) (e : Issue) : Prop :=
  ∃ key, depositKey fromSlice sha256 e.1 e.2.btcPublicKey = .ok key ∧ key ∈ w.imported ∧
    ∃ height, w.firstHeight e.1 = some height ∧ ∀ x, e.2.btcHeight ≤ x → x ≤ height →
      Found payments address w key e.2.btcAddress x ∨ Queued status x

structure Inv (w : World PublicKey) : Prop where
  covered : ∀ e ∈ w.queued, Covered payments address fromSlice sha256 w w.status e
  relisted : ∀ e ∈ w.queued, ∃ e' ∈ w.listed, Same e e'
  firstHeight_le : ∀ id height, w.firstHeight id = some height → height ≤ w.height

end Env

section Invariant

variable {E PublicKey : Type} {payments : Payments} {address : BtcAddress → String}
variable {fromSlice : BtcPublicKey → Except E PublicKey} {sha256 : (n : Nat) → BitVec n → H256}
variable {vaultId : VaultId} {w w' w'' : World PublicKey} {e e' : Issue}
variable {status status' : RescanStatus}

theorem Same.trans {e'' : Issue} (h : Same e e') (h' : Same e' e'') : Same e e'' :=
  ⟨⟨h.1.1.trans h'.1.1, h.1.2.1.trans h'.1.2.1, h.1.2.2.trans h'.1.2.2⟩, h.2.trans h'.2⟩

theorem Evolves.refl (w : World PublicKey) : Evolves w w :=
  ⟨rfl, rfl, rfl, rfl, rfl, rfl, List.Subset.refl _, Nat.le_refl _, List.Subset.refl _⟩

theorem Evolves.trans (h : Evolves w w') (h' : Evolves w' w'') : Evolves w w'' where
  stored := h'.stored.trans h.stored
  height := h'.height.trans h.height
  imported := h'.imported.trans h.imported
  listed := h'.listed.trans h.listed
  firstHeight := h'.firstHeight.trans h.firstHeight
  queued := h'.queued.trans h.queued
  scans := List.Subset.trans h.scans h'.scans
  prunedHeight := Nat.le_trans h.prunedHeight h'.prunedHeight
  funds := List.Subset.trans h.funds h'.funds

/-- What changes between two stores. -/
structure Grown (w w' : World PublicKey) : Prop where
  issues : PastIssues.Grown w.toWorld w'.toWorld
  funds : w.funds ⊆ w'.funds

theorem Evolves.grown (h : Evolves w w') : Grown w w' where
  issues := ⟨h.stored, h.queued, h.imported ▸ List.Subset.refl _, h.scans,
    Nat.le_of_eq h.height.symm, fun _ _ hid => h.firstHeight ▸ hid,
    fun _ _ hid => .inl (h.firstHeight ▸ hid)⟩
  funds := h.funds

theorem Found.grown {key : PublicKey × H256} {btcAddress : BtcAddress} {x : Nat}
    (h : Found payments address w key btcAddress x) (hgrown : Grown w w') :
    Found payments address w' key btcAddress x := by
  rcases h with hscanned | hfunds
  · exact .inl (hscanned.mono hgrown.issues.scans)
  · exact .inr fun txid hpaid => hgrown.funds (hfunds txid hpaid)

theorem Covered.grown (h : Covered payments address fromSlice sha256 w status e)
    (hgrown : Grown w w') : Covered payments address fromSlice sha256 w' status e := by
  obtain ⟨key, hkey, himported, height, hfirst, hblocks⟩ := h
  refine ⟨key, hkey, hgrown.issues.imported himported, height, hgrown.issues.firstHeight _ _ hfirst,
    fun x hx hxh => ?_⟩
  rcases hblocks x hx hxh with hfound | hqueued
  · exact .inl (hfound.grown hgrown)
  · exact .inr hqueued

theorem Covered.same (h : Covered payments address fromSlice sha256 w status e)
    (hsame : Same e e') : Covered payments address fromSlice sha256 w status e' := by
  obtain ⟨⟨hid, hheight, hkey⟩, haddress⟩ := hsame
  simpa only [Covered, hid, hheight, hkey, haddress] using h

/-- Another status covers an issue when the payments in the blocks that it does not have queued are
known. -/
theorem Covered.requeue (h : Covered payments address fromSlice sha256 w status e)
    (hblocks : ∀ key height, key ∈ w.imported → w.firstHeight e.1 = some height →
      ∀ x, e.2.btcHeight ≤ x → x ≤ height → Queued status x →
        Found payments address w key e.2.btcAddress x ∨ Queued status' x) :
    Covered payments address fromSlice sha256 w status' e := by
  obtain ⟨key, hkey, himported, height, hfirst, hold⟩ := h
  refine ⟨key, hkey, himported, height, hfirst, fun x hx hxh => ?_⟩
  rcases hold x hx hxh with hfound | hqueued
  · exact .inl hfound
  · exact hblocks key height himported hfirst x hx hxh hqueued

theorem Inv.grown (h : Inv payments address fromSlice sha256 w) (hgrown : Grown w w')
    (hlisted : w'.listed = w.listed) : Inv payments address fromSlice sha256 w' where
  covered e he := by
    rw [hgrown.issues.queued] at he
    rw [PastIssues.World.status, hgrown.issues.stored]
    exact (h.covered e he).grown hgrown
  relisted e he := by
    rw [hgrown.issues.queued] at he
    rw [hlisted]
    exact h.relisted e he
  firstHeight_le id height hid := by
    rcases hgrown.issues.firstHeight_le id height hid with hold | hle
    · exact Nat.le_trans (h.firstHeight_le id height hold) hgrown.issues.height
    · exact hle

theorem Inv.evolves (h : Inv payments address fromSlice sha256 w) (hevolves : Evolves w w') :
    Inv payments address fromSlice sha256 w' :=
  h.grown hevolves.grown hevolves.listed

/-- Storing a status that covers all issues that are listed or queued. -/
theorem inv_put (h : Inv payments address fromSlice sha256 w)
    (hcovered : ∀ e ∈ w.listed ++ w.queued, Covered payments address fromSlice sha256 w status e) :
    Inv payments address fromSlice sha256 { w with toWorld := w.put status } where
  covered := hcovered
  relisted e he := by
    rcases List.mem_append.mp he with he | he
    · exact ⟨e, he, ⟨rfl, rfl, rfl⟩, rfl⟩
    · exact h.relisted e he
  firstHeight_le := h.firstHeight_le

/-- A queued block stays queued when what the node has pruned is cut off, unless it is a part of
that. -/
theorem queued_prune {s s' : RescanStatus} {p x : Nat} {unscannable : Option (Nat × Nat)}
    (h : s.prune p = (unscannable, s')) (hx : Queued s x) :
    Queued s' x ∨ (unscannable.isSome ∧ x < p) := by
  obtain ⟨first, last, hrange, hfirst, hlast⟩ := hx
  simp only [RescanStatus.prune, hrange] at h
  split at h
  · cases h
    by_cases hxp : x < p
    · exact .inr ⟨rfl, hxp⟩
    · exact .inl ⟨p, last, rfl, Nat.le_of_not_lt hxp, hlast⟩
  · cases h
    exact .inl ⟨first, last, hrange, hfirst, hlast⟩

/-! ### The program -/

variable (payments address fromSlice sha256 vaultId) in
abbrev Meets {A : Type} (p : Prog (api E PublicKey) A) (Q : A → World PublicKey → Prop)
    (w : World PublicKey) : Prop :=
  Prog.Keeps (env payments address fromSlice vaultId) (Inv payments address fromSlice sha256) p Q w

theorem meets_ask {call : Call PublicKey}
    {Q : (api E PublicKey).Answer call → World PublicKey → Prop}
    (hw : Inv payments address fromSlice sha256 w)
    (h : ∀ w' r w'', Evolves w w' → Answers payments address fromSlice vaultId w' call r w'' →
      Inv payments address fromSlice sha256 w'' ∧ Q r w'') :
    Meets payments address fromSlice sha256 vaultId (PastIssues.ask call) Q w := by
  refine Prog.keeps_request.mpr ⟨hw, fun r w'' hr => ?_⟩
  obtain ⟨w', hevolves, hanswer⟩ := hr
  exact h w' r w'' hevolves hanswer

/-- The status has been loaded and the issues have been listed. -/
structure Started (payments : Payments) (address : BtcAddress → String)
    (fromSlice : BtcPublicKey → Except E PublicKey) (sha256 : (n : Nat) → BitVec n → H256)
    (w : World PublicKey) (status : RescanStatus) (issues : List Issue) : Prop where
  inv : Inv payments address fromSlice sha256 w
  status_eq : w.status = status
  listed : w.listed = issues
  ordered : ∀ e ∈ issues, e.2.opentime ≤ status.newestIssueHeight → ∃ e' ∈ w.queued, Same e' e
  parsed : ∀ e ∈ issues, ∃ key, fromSlice e.2.btcPublicKey = .ok key

variable {issues : List Issue}

theorem Started.grown (h : Started payments address fromSlice sha256 w status issues)
    (hgrown : Grown w w') (hlisted : w'.listed = w.listed) :
    Started payments address fromSlice sha256 w' status issues where
  inv := h.inv.grown hgrown hlisted
  status_eq := by
    rw [PastIssues.World.status, hgrown.issues.stored]
    exact h.status_eq
  listed := hlisted.trans h.listed
  ordered := by
    rw [hgrown.issues.queued]
    exact h.ordered
  parsed := h.parsed

theorem started_list (hw : Inv payments address fromSlice sha256 w)
    (hlists : Lists fromSlice w issues) :
    Started payments address fromSlice sha256 { w with toWorld := w.list issues } w.status
      issues where
  inv := by
    refine ⟨fun e he => (hw.covered e he).grown ⟨PastIssues.grown_list _ _, List.Subset.refl _⟩,
      fun e he => ?_, hw.firstHeight_le⟩
    obtain ⟨e', he', hsame⟩ := hw.relisted e he
    obtain ⟨e'', he'', hsame'⟩ := hlists.again e' he'
    exact ⟨e'', he'', hsame.trans hsame'⟩
  status_eq := rfl
  listed := rfl
  ordered := hlists.ordered
  parsed := hlists.parsed

theorem meets_get (hw : Inv payments address fromSlice sha256 w) :
    Meets payments address fromSlice sha256 vaultId (PastIssues.get (E := E)).run
      (fun r w => Inv payments address fromSlice sha256 w ∧ ∀ status, r = .ok status →
        w.status = status) w := by
  refine Prog.keeps_run_bind.mpr (meets_ask hw fun w' r w'' hevolves hanswer => ?_)
  have hw := hw.evolves hevolves
  cases r with
  | error e =>
    obtain rfl : w'' = w' := hanswer
    exact ⟨hw, hw, nofun⟩
  | ok stored =>
    obtain ⟨rfl, rfl⟩ := hanswer
    refine ⟨hw, hw, hw, fun status hstatus => ?_⟩
    cases hstatus
    rfl

/-- The keys of all issues are imported. -/
theorem meets_addKeys (h : Started payments address fromSlice sha256 w status issues) :
    Meets payments address fromSlice sha256 vaultId (PastIssues.addKeys fromSlice sha256 issues)
      (fun _ w => Started payments address fromSlice sha256 w status issues ∧
        ∀ e ∈ issues, PastIssues.Imported fromSlice sha256 w.toWorld e) w := by
  -- the issues that are not left in the loop have been imported
  let J (rest : List Issue) (w : World PublicKey) : Prop :=
    Started payments address fromSlice sha256 w status issues ∧ rest ⊆ issues ∧
      ∀ e ∈ issues, e ∈ rest ∨ PastIssues.Imported fromSlice sha256 w.toWorld e
  have hstep (e : Issue) (rest : List Issue) (w : World PublicKey) (hJ : J (e :: rest) w) :
      Meets payments address fromSlice sha256 vaultId
        ((PastIssues.addNewDepositKey fromSlice sha256 e.1 e.2.btcPublicKey).run >>=
          fun _ => pure ⟨⟩) (fun (_ : PUnit) w => J rest w) w := by
    obtain ⟨hstarted, hsub, himported⟩ := hJ
    obtain ⟨key, hkey⟩ : ∃ key, depositKey fromSlice sha256 e.1 e.2.btcPublicKey = .ok key :=
      PastIssues.depositKey_of_parsed e.1 (hstarted.parsed e (hsub List.mem_cons_self))
    refine Prog.keeps_bind.mpr (Prog.keeps_run_bind.mpr ⟨hstarted.inv, ?_⟩)
    simp only [hkey]
    refine meets_ask hstarted.inv fun w' r w'' hevolves hanswer => ?_
    obtain ⟨rfl, rfl⟩ := hanswer
    have hgrown : Grown w' { w' with toWorld := w'.importKey key } :=
      ⟨PastIssues.grown_importKey w'.toWorld key, List.Subset.refl _⟩
    have hnext := (hstarted.grown hevolves.grown hevolves.listed).grown hgrown rfl
    refine ⟨hnext.inv, hnext.inv, hnext, fun e he => hsub (List.mem_cons_of_mem _ he),
      fun e' he' => ?_⟩
    rcases himported e' he' with hmem | ⟨key', hkey', hin⟩
    · rcases List.mem_cons.mp hmem with rfl | hmem
      · exact .inr ⟨_, hkey, List.mem_cons_self⟩
      · exact .inl hmem
    · exact .inr ⟨key', hkey', List.mem_cons_of_mem _ (hevolves.imported ▸ hin)⟩
  refine (Prog.keeps_forM J hstep (fun w hw => hw.1.inv)
    ⟨h, List.Subset.refl _, fun e he => .inl he⟩).mono fun _ w _ hw => ⟨hw.1, fun e he => ?_⟩
  rcases hw.2.2 e he with hnil | himported
  · cases hnil
  · exact himported

variable (payments address fromSlice sha256) in
/-- The status, which is about to be stored, covers the issues. -/
structure Ready (w : World PublicKey) (status : RescanStatus) (issues : List Issue) : Prop where
  inv : Inv payments address fromSlice sha256 w
  listed : w.listed = issues
  covered : ∀ e ∈ w.listed ++ w.queued, Covered payments address fromSlice sha256 w status e

theorem Ready.evolves (h : Ready payments address fromSlice sha256 w status issues)
    (hevolves : Evolves w w') : Ready payments address fromSlice sha256 w' status issues where
  inv := h.inv.evolves hevolves
  listed := hevolves.listed.trans h.listed
  covered e he := by
    rw [hevolves.listed, hevolves.queued] at he
    exact (h.covered e he).grown hevolves.grown

/-- Those that were queued before stay covered, and the other ones are new to the status. -/
theorem ready_update (h : Started payments address fromSlice sha256 w status issues)
    (himported : ∀ e ∈ issues, PastIssues.Imported fromSlice sha256 w.toWorld e) {height : Nat}
    (hheight : w.height ≤ height) :
    Ready payments address fromSlice sha256 { w with toWorld := w.readHeight height }
      (status.update (issues.map Prod.snd) height) issues := by
  have hgrown : Grown w { w with toWorld := w.readHeight height } :=
    ⟨PastIssues.grown_readHeight w.toWorld hheight, List.Subset.refl _⟩
  have hinv := h.inv.grown hgrown rfl
  have hold (e : Issue) (he : e ∈ w.queued) : Covered payments address fromSlice sha256
      { w with toWorld := w.readHeight height } (status.update (issues.map Prod.snd) height) e := by
    refine (hinv.covered e he).requeue fun key first _ hfirst x _ hxf hqueued => .inr ?_
    rw [PastIssues.World.status, hgrown.issues.stored] at hqueued
    have hqueued : Queued status x := h.status_eq ▸ hqueued
    exact PastIssues.queued_update hqueued
      (Nat.le_trans hxf (hinv.firstHeight_le _ _ hfirst)) _
  refine ⟨hinv, h.listed, fun e he => ?_⟩
  rcases List.mem_append.mp he with he | he
  · have hlisted : e ∈ issues := h.listed ▸ he
    by_cases hnew : e.2.opentime ≤ status.newestIssueHeight
    · obtain ⟨e', he', hsame⟩ := h.ordered e hlisted hnew
      exact (hold e' he').same hsame
    · obtain ⟨key, hkey, hin⟩ := himported e hlisted
      obtain ⟨first, hfirst⟩ : ∃ first, (w.readHeight height).firstHeight e.1 = some first := by
        have hid : e.1 ∈ w.listed.map Prod.fst := List.mem_map_of_mem he
        simp only [PastIssues.World.readHeight, hid, if_true]
        cases w.firstHeight e.1 with
        | none => exact ⟨height, rfl⟩
        | some first => exact ⟨first, rfl⟩
      refine ⟨key, hkey, hin, first, hfirst, fun x hx hxf => .inr ?_⟩
      exact PastIssues.queued_update_of_new (List.mem_map_of_mem hlisted) (Nat.lt_of_not_le hnew) hx
        (Nat.le_trans hxf (hinv.firstHeight_le _ _ hfirst))
  · exact hold e he

/-- The payments in the blocks that are cut off have been imported. -/
theorem Ready.prune {p : Nat} {unscannable : Option (Nat × Nat)}
    (h : Ready payments address fromSlice sha256 w status issues)
    (hprune : status.prune p = (unscannable, status'))
    (himports : unscannable.isSome → ∀ e ∈ issues, e.2.btcHeight < p → ∀ x < p, ∀ txid,
      payments.paid (address e.2.btcAddress) x txid → payments.raw txid ∈ w.funds) :
    Ready payments address fromSlice sha256 w status' issues := by
  refine ⟨h.inv, h.listed, fun e he => ?_⟩
  obtain ⟨e', he', ⟨-, hheight, -⟩, haddress⟩ : ∃ e' ∈ issues, Same e e' := by
    rcases List.mem_append.mp he with he | he
    · exact ⟨e, h.listed ▸ he, ⟨rfl, rfl, rfl⟩, rfl⟩
    · exact h.listed ▸ h.inv.relisted e he
  refine (h.covered e he).requeue fun key first _ _ x hx _ hqueued => ?_
  rcases queued_prune hprune hqueued with hkept | ⟨hsome, hxp⟩
  · exact .inr hkept
  · refine .inl (.inr fun txid hpaid => ?_)
    rw [haddress] at hpaid
    rw [hheight] at hx
    exact himports hsome e' he' (Nat.lt_of_le_of_lt hx hxp) x hxp txid hpaid

theorem meets_scanPruned {p : Nat} {unscannable : Option (Nat × Nat)}
    (h : Ready payments address fromSlice sha256 w status issues) (hp : p ≤ w.prunedHeight)
    (hprune : status.prune p = (unscannable, status')) :
    Meets payments address fromSlice sha256 vaultId (PastIssues.scanPruned issues p unscannable).run
      (Prog.Outcome (fun _ w => Ready payments address fromSlice sha256 w status' issues)
        fun _ _ => True) w := by
  cases unscannable with
  | none => exact ⟨h.inv, h.prune hprune nofun⟩
  | some range =>
    refine meets_ask h.inv fun w' r w'' hevolves hanswer => ?_
    obtain ⟨hevolves', himports⟩ := hanswer
    have hready := (h.evolves hevolves).evolves hevolves'
    cases r with
    | error e => exact ⟨hready.inv, trivial⟩
    | ok _ =>
      refine ⟨hready.inv, hready.prune hprune fun _ e he hlt x hx txid hpaid => ?_⟩
      refine himports rfl _ (List.mem_map_of_mem (List.mem_filter.mpr ⟨he, by simpa using hlt⟩)) x
        (Nat.lt_of_lt_of_le hx (Nat.le_trans hp hevolves.prunedHeight)) txid hpaid

variable (payments address fromSlice sha256) in
/-- The state of the loop: the status has been stored, with the listed issues queued. -/
structure Scanning (w : World PublicKey) (status : RescanStatus) : Prop where
  inv : Inv payments address fromSlice sha256 w
  status_eq : w.status = status
  listed : w.listed ⊆ w.queued

theorem Scanning.evolves (h : Scanning payments address fromSlice sha256 w status)
    (hevolves : Evolves w w') : Scanning payments address fromSlice sha256 w' status where
  inv := h.inv.evolves hevolves
  status_eq := by
    rw [PastIssues.World.status, hevolves.stored]
    exact h.status_eq
  listed := by
    rw [hevolves.listed, hevolves.queued]
    exact h.listed

theorem meets_store (h : Ready payments address fromSlice sha256 w status issues) :
    Meets payments address fromSlice sha256 vaultId (PastIssues.store status).run
      (Prog.Outcome (fun _ w => Scanning payments address fromSlice sha256 w status)
        fun _ _ => True) w := by
  refine meets_ask h.inv fun w' r w'' hevolves hanswer => ?_
  have h := h.evolves hevolves
  cases r with
  | error e =>
    obtain rfl : w'' = w' := hanswer
    exact ⟨h.inv, trivial⟩
  | ok _ =>
    obtain rfl : w'' = _ := hanswer
    have hinv := inv_put h.inv h.covered
    exact ⟨hinv, hinv, rfl, List.subset_append_left _ _⟩

variable (payments address fromSlice sha256) in
/-- Every payment to `e`, up to the height first read with `e` listed, is in a block that has been
rescanned since the key of `e` was imported, or has been imported itself. -/
def Known (w : World PublicKey) (e : Issue) : Prop :=
  ∃ key, depositKey fromSlice sha256 e.1 e.2.btcPublicKey = .ok key ∧
    ∃ height, w.firstHeight e.1 = some height ∧
      ∀ x, e.2.btcHeight ≤ x → x ≤ height → Found payments address w key e.2.btcAddress x

variable (payments address fromSlice sha256) in
def Completes (r : Except E (Option Unit)) (w : World PublicKey) : Prop :=
  r = .ok (some ()) → ∀ e ∈ w.listed, Known payments address fromSlice sha256 w e

theorem completes_error (e : E) (w : World PublicKey) :
    Completes payments address fromSlice sha256 (.error e) w := by
  intro h
  cases h

theorem completes_none (w : World PublicKey) :
    Completes payments address fromSlice sha256 (.ok none : Except E (Option Unit)) w := by
  intro h
  cases h

theorem Covered.known (h : Covered payments address fromSlice sha256 w status e)
    (hnone : status.queuedRescanRange = none) : Known payments address fromSlice sha256 w e := by
  obtain ⟨key, hkey, -, height, hfirst, hblocks⟩ := h
  refine ⟨key, hkey, height, hfirst, fun x hx hxh => ?_⟩
  rcases hblocks x hx hxh with hfound | ⟨_, _, hrange, -⟩
  · exact hfound
  · rw [hnone] at hrange
    cases hrange

theorem meets_scanChunk {x : Nat × RescanStatus}
    (h : Scanning payments address fromSlice sha256 w x.2) :
    Meets payments address fromSlice sha256 vaultId (PastIssues.scanChunk x).run
      (Prog.Round (fun x w => Scanning payments address fromSlice sha256 w x.2)
        (Completes payments address fromSlice sha256)) w := by
  obtain ⟨chunkSize, status⟩ := x
  simp only [PastIssues.scanChunk]
  split
  next hchunk =>
    refine Prog.keeps_run_pure.mpr ⟨h.inv, ?_⟩
    intro _ e he
    refine (h.inv.covered e (h.listed he)).known ?_
    have hstatus : w.status = status := h.status_eq
    rw [hstatus]
    exact RescanStatus.queuedRescanRange_of_processBlocks_none hchunk
  next first last status' hchunk =>
    refine Prog.keeps_run_bind.mpr (meets_ask h.inv fun w' r w'' hevolves hanswer => ?_)
    obtain ⟨hevolves', hrescans⟩ := hanswer
    have hscanning := (h.evolves hevolves).evolves hevolves'
    cases r with
    | error e => exact ⟨hscanning.inv, completes_error e _⟩
    | ok _ =>
      obtain ⟨scan, hscan, hkeys, rfl, rfl⟩ := hrescans rfl
      have hready : Ready payments address fromSlice sha256 w'' status' w''.listed := by
        refine ⟨hscanning.inv, rfl, fun e he => ?_⟩
        have hqueued : e ∈ w''.queued := by
          rcases List.mem_append.mp he with he | he
          · exact hscanning.listed he
          · exact he
        refine (hscanning.inv.covered e hqueued).requeue fun key _ hkey _ x _ _ hx => ?_
        have hstatus : w''.status = status := hscanning.status_eq
        rw [hstatus] at hx
        rcases PastIssues.queued_processBlocks hchunk hx with hin | hleft
        · exact .inl (.inl ⟨scan, hscan, hkeys (hevolves'.imported ▸ hkey), hin⟩)
        · exact .inr hleft
      refine ⟨hscanning.inv, Prog.keeps_run_bind.mpr (Prog.keeps_run_lift.mpr
        (meets_ask hscanning.inv fun w₁ fast w₂ hevolves hanswer => ?_))⟩
      obtain rfl : w₂ = w₁ := hanswer
      have hready := hready.evolves hevolves
      refine ⟨hready.inv, Prog.keeps_run_bind.mpr ((meets_store hready).mono fun r w hw hr => ?_)⟩
      cases r with
      | error e => exact completes_error e _
      | ok _ => exact ⟨hw, hr⟩

/-- What is left of an invocation once the keys are imported. -/
theorem meets_scan (fuel : Nat) (h : Started payments address fromSlice sha256 w status issues)
    (himported : ∀ e ∈ issues, PastIssues.Imported fromSlice sha256 w.toWorld e) :
    Meets payments address fromSlice sha256 vaultId (ExceptT.run do
      let btcEndHeight ← ExceptT.mk (PastIssues.ask (E := E) .getBlockCount)
      let btcPrunedStartHeight ← ExceptT.mk (PastIssues.ask .getPrunedHeight)
      let scanningStatus := status.update (issues.map Prod.snd) btcEndHeight
      let (unscannable, scanningStatus) := scanningStatus.prune btcPrunedStartHeight
      PastIssues.scanPruned issues btcPrunedStartHeight unscannable
      PastIssues.store scanningStatus
      Prog.iterate PastIssues.scanChunk fuel (1, scanningStatus))
      (Completes payments address fromSlice sha256) w := by
  refine Prog.keeps_run_bind.mpr (meets_ask h.inv fun w' r w'' hevolves hanswer => ?_)
  have h := h.grown hevolves.grown hevolves.listed
  cases r with
  | error e =>
    obtain rfl : w'' = w' := hanswer
    exact ⟨h.inv, completes_error e _⟩
  | ok height =>
    obtain ⟨hheight, rfl⟩ := hanswer
    have hready := ready_update h (fun e he => by
      obtain ⟨key, hkey, hin⟩ := himported e he
      exact ⟨key, hkey, hevolves.imported ▸ hin⟩) hheight
    refine ⟨hready.inv, Prog.keeps_run_bind.mpr (meets_ask hready.inv
      fun w₁ r w₂ hevolves hanswer => ?_)⟩
    have hready := hready.evolves hevolves
    cases r with
    | error e =>
      obtain rfl : w₂ = w₁ := hanswer
      exact ⟨hready.inv, completes_error e _⟩
    | ok p =>
      obtain ⟨hp, rfl⟩ := hanswer
      refine ⟨hready.inv, ?_⟩
      simp only [Prog.Outcome]
      rcases hprune : (status.update (issues.map Prod.snd) height).prune p with
        ⟨unscannable, status'⟩
      refine Prog.keeps_run_bind.mpr
        ((meets_scanPruned hready (Nat.le_of_eq hp) hprune).mono fun r w hw hr => ?_)
      cases r with
      | error e => exact completes_error e _
      | ok _ =>
        refine Prog.keeps_run_bind.mpr ((meets_store hr).mono fun r w hw hr => ?_)
        cases r with
        | error e => exact completes_error e _
        | ok _ =>
          exact Prog.keeps_run_iterate
            (fun (x : Nat × RescanStatus) w => Scanning payments address fromSlice sha256 w x.2)
            (fun _ _ hx => meets_scanChunk hx) (fun _ w _ => completes_none w) fuel hr

/-- Wherever an invocation is cut off, each issue queued so far has its key imported, and its
payments are known or in blocks that are queued. -/
theorem meets_addKeysFromPastIssueRequest (fuel : Nat)
    (hw : Inv payments address fromSlice sha256 w) :
    Meets payments address fromSlice sha256 vaultId
      (addKeysFromPastIssueRequest fromSlice sha256 vaultId fuel).run
      (Completes payments address fromSlice sha256) w := by
  refine Prog.keeps_run_bind.mpr ((meets_get hw).mono fun r w _ hr => ?_)
  obtain ⟨hw, hstatus⟩ := hr
  cases r with
  | error e => exact completes_error e _
  | ok status =>
    cases hstatus status rfl
    refine Prog.keeps_run_bind.mpr (meets_ask hw fun w' r w'' hevolves hanswer => ?_)
    have hw := hw.evolves hevolves
    cases r with
    | error e =>
      obtain rfl : w'' = w' := hanswer
      exact ⟨hw, completes_error e _⟩
    | ok issues =>
      obtain ⟨hlists, rfl⟩ := hanswer
      have hstarted := started_list hw hlists
      rw [PastIssues.World.status, hevolves.stored] at hstarted
      refine ⟨hstarted.inv, Prog.keeps_run_bind.mpr (Prog.keeps_run_lift.mpr ?_)⟩
      exact (meets_addKeys hstarted).mono fun _ _ _ h => meets_scan fuel h.1 h.2

theorem inv_start (hqueued : w.queued = []) (hfirst : w.firstHeight = fun _ => none) :
    Inv payments address fromSlice sha256 w := by
  refine ⟨fun e he => ?_, fun e he => ?_, fun id height hid => ?_⟩
  · rw [hqueued] at he
    exact absurd he List.not_mem_nil
  · rw [hqueued] at he
    exact absurd he List.not_mem_nil
  · rw [hfirst] at hid
    cases hid

end Invariant

end InterBtcClients.Vault.PrunedIssues
