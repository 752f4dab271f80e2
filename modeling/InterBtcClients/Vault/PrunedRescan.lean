import InterBtcClients.Bitcoin.CoreRescan
import InterBtcClients.Bitcoin.Pages
import InterBtcClients.Bitcoin.ThreeKeys
import InterBtcClients.Runtime.Addr
import InterBtcClients.Vault.PrunedIssues

/-! The rescans of past issues on the node and the electrs server themselves: each call of
`add_keys_from_past_issue_request` is made by the program for it, while scans go on that have been
begun, and the node prunes blocks. -/

namespace InterBtcClients.Vault.PrunedRescan

open Library Paging Bitcoin InterBtcClients.Runtime PrunedIssues
open CoreRescan (Failure TransactionValue ended isConfirmedPaymentTo)
open PastIssues (Issue Scan ofVault addKeysFromPastIssueRequest)

/-! ### The program -/

section Program

variable {X E PublicKey : Type}

inductive Call (PublicKey : Type)
  | vault (call : PastIssues.Call PublicKey)
  | node (call : CoreRescan.Call)

@[reducible] def api (E PublicKey : Type) : Interface where
  Call := Call PublicKey
  Answer
    | .vault call => (PastIssues.api (Failure E) PublicKey).Answer call
    | .node call => (CoreRescan.api E).Answer call

def onNode {A : Type} (p : Prog (CoreRescan.api E) A) : Prog (api E PublicKey) A :=
  p.embed Call.node fun _ r => r

variable (lib : Lib X) (network : Network) (isTransportError : E → Bool) (fuel : Nat)

/-- What makes the call; addresses that cannot be converted are left out. -/
def perform : (call : PastIssues.Call PublicKey) →
    Prog (api E PublicKey) ((PastIssues.api (Failure E) PublicKey).Answer call)
  | .rescanBlockchain first last =>
    ended <$> onNode (CoreRescan.rescanBlockchain isTransportError fuel first last).run
  | .rescanElectrsForAddresses addresses =>
    onNode (CoreRescan.rescanElectrsForAddresses lib fuel
      (addresses.filterMap fun address => (address.toAddress lib network).toOption)).run
  | call => Prog.request (api E PublicKey) (.vault call)

variable (fromSlice : BtcPublicKey → Except (Failure E) PublicKey)
variable (sha256 : (n : Nat) → BitVec n → H256) (vaultId : VaultId)

/-- An invocation, of at most `rounds` chunks. -/
def addKeys (rounds : Nat) : Prog (api E PublicKey) (Except (Failure E) (Option Unit)) :=
  (addKeysFromPastIssueRequest fromSlice sha256 vaultId rounds).run.interpret
    (perform lib network isTransportError fuel)

end Program

/-! ### The node -/

/-- The wallet's scan that goes on, if any, and the histories that the electrs server has of the
addresses, newest first. -/
structure Node (PublicKey : Type) extends world : World PublicKey where
  running : Option (Scan PublicKey)
  history : String → List TransactionValue

section Env

variable {X E PublicKey : Type}
variable (payments : Payments) (address : BtcAddress → String) (isTransportError : E → Bool)
variable (fromSlice : BtcPublicKey → Except (Failure E) PublicKey) (vaultId : VaultId)

/-- What happens in the meantime.  A scan ends when it is complete, and transactions are added to
the histories. -/
structure Node.Evolves (n n' : Node PublicKey) : Prop where
  world : PrunedIssues.Evolves n.world n'.world
  running : ∀ scan, n.running = some scan → n'.running = some scan ∨ scan ∈ n'.scans
  history : ∀ address, ∃ new, n'.history address = new ++ n.history address

def Node.scan (n : Node PublicKey) (first last : Nat) : Scan PublicKey := ⟨n.imported, first, last⟩

def Node.start (n : Node PublicKey) (scan : Scan PublicKey) : Node PublicKey :=
  { n with running := some scan }

def Node.complete (n : Node PublicKey) (scan : Scan PublicKey) : Node PublicKey :=
  { n with scans := scan :: n.scans }

def Node.fund (n : Node PublicKey) (rawTx : List UInt8) : Node PublicKey :=
  { n with funds := rawTx :: n.funds }

/-- The history has the confirmed payments to the address, at least those in blocks that the node
may not have, and each transaction once. -/
structure Histories (address : String) (n : Node PublicKey) : Prop where
  paid : ∀ x < n.prunedHeight, ∀ txid, payments.paid address x txid →
    ∃ tx ∈ n.history address, tx.txid = txid ∧ tx.status = some ⟨true⟩ ∧
      ∃ output ∈ tx.vout, output.scriptpubkeyAddress = some address
  distinct : ((n.history address).map fun tx => tx.txid).Nodup

/-- A request that times out has begun the scan, and no other transport error occurs. -/
def NodeAnswers (n : Node PublicKey) :
    (call : CoreRescan.Call) → (CoreRescan.api E).Answer call → Node PublicKey → Prop
  | .getWalletInfo => fun r n' =>
    n' = n ∧ ∀ scanning, r = .ok scanning → scanning ≠ some .scanning → n.running = none
  | .rescanBlockchain first last =>
    Prog.Outcome (fun _ n' => n' = n.complete (n.scan first last)) fun e n' =>
      if isTransportError e then
        n.running = none ∧ n' = n.start (n.scan first last)
      else n' = n
  | .addressTxsChain address last => fun r n' =>
    n' = n ∧ ∀ page, r = .ok page → Histories payments address n ∧
      page = (after (fun tx => tx.txid) last (n.history address)).take
        Electrs.ELECTRS_TRANSACTIONS_PER_PAGE
  | .getTxHex txid => fun r n' => n' = n ∧ ∀ rawTx, r = .ok rawTx → rawTx = payments.raw txid
  | .getTxMerkleBlockProof _ => fun _ n' => n' = n
  | .importPrunedFunds rawTx _ =>
    Prog.Outcome (fun _ n' => n' = n.fund rawTx) fun _ n' => n' = n

def coreEnv : Prog.Env (CoreRescan.api E) (Node PublicKey) :=
  Prog.interfere Node.Evolves fun n call => NodeAnswers payments isTransportError n call

def answers (n : Node PublicKey) :
    (call : Call PublicKey) → (api E PublicKey).Answer call → Node PublicKey → Prop
  | .vault call => fun r n' =>
    Answers payments address fromSlice vaultId n.world call r n'.world ∧ n'.running = n.running
  | .node call => NodeAnswers payments isTransportError n call

def nodeEnv : Prog.Env (api E PublicKey) (Node PublicKey) :=
  Prog.interfere Node.Evolves
    fun n call => answers payments address isTransportError fromSlice vaultId n call

end Env

section Refinement

variable {X E PublicKey : Type} {payments : Payments} {address : BtcAddress → String}
variable {isTransportError : E → Bool} {fromSlice : BtcPublicKey → Except (Failure E) PublicKey}
variable {vaultId : VaultId} {n n' n'' : Node PublicKey}

theorem Node.Evolves.refl (n : Node PublicKey) : n.Evolves n :=
  ⟨PrunedIssues.Evolves.refl _, fun _ => .inl, fun _ => ⟨[], rfl⟩⟩

theorem Node.Evolves.trans (h : n.Evolves n') (h' : n'.Evolves n'') : n.Evolves n'' where
  world := h.world.trans h'.world
  running scan hscan := by
    rcases h.running scan hscan with hrunning | hdone
    · exact h'.running scan hrunning
    · exact .inr (h'.world.scans hdone)
  history address := by
    obtain ⟨new, hnew⟩ := h.history address
    obtain ⟨new', hnew'⟩ := h'.history address
    exact ⟨new' ++ new, by rw [hnew', hnew, List.append_assoc]⟩

theorem Node.evolves_start (hrunning : n.running = none) (scan : Scan PublicKey) :
    n.Evolves (n.start scan) :=
  ⟨PrunedIssues.Evolves.refl _,
    fun _ hscan => absurd (hrunning.symm.trans hscan) (Option.some_ne_none _).symm,
    fun _ => ⟨[], rfl⟩⟩

theorem Node.evolves_complete (n : Node PublicKey) (scan : Scan PublicKey) :
    n.Evolves (n.complete scan) :=
  ⟨⟨rfl, rfl, rfl, rfl, rfl, rfl, List.subset_cons_self _ _, Nat.le_refl _, List.Subset.refl _⟩,
    fun _ => .inl, fun _ => ⟨[], rfl⟩⟩

theorem Node.evolves_fund (n : Node PublicKey) (rawTx : List UInt8) : n.Evolves (n.fund rawTx) :=
  ⟨⟨rfl, rfl, rfl, rfl, rfl, rfl, List.Subset.refl _, Nat.le_refl _, List.subset_cons_self _ _⟩,
    fun _ => .inl, fun _ => ⟨[], rfl⟩⟩

/-! ### The programs for the calls -/

variable {n₀ : Node PublicKey}

theorem keeps_ask {call : CoreRescan.Call}
    {Q : (CoreRescan.api E).Answer call → Node PublicKey → Prop} (h : n₀.Evolves n)
    (hanswer : ∀ n' r n'', n₀.Evolves n' → NodeAnswers payments isTransportError n' call r n'' →
      n₀.Evolves n'' ∧ Q r n'') :
    Prog.Keeps (coreEnv payments isTransportError) n₀.Evolves (CoreRescan.ask call) Q n := by
  refine Prog.keeps_request.mpr ⟨h, fun r n'' hr => ?_⟩
  obtain ⟨n', hevolves, hr⟩ := hr
  exact hanswer n' r n'' (h.trans hevolves) hr

/-- When the wait is over, what was running has been completed. -/
theorem keeps_waitForRescan (fuel : Nat) (h : n₀.Evolves n) :
    Prog.Keeps (coreEnv payments isTransportError) n₀.Evolves
      (ExceptT.run (CoreRescan.waitForRescan (E := E) fuel))
      (fun r n => n₀.Evolves n ∧ (r = .ok (some ()) → n.running = none)) n := by
  refine Prog.keeps_run_iterate (fun _ n => n₀.Evolves n) (fun _ n h => ?_)
    (fun _ n h => ⟨h, nofun⟩) fuel h
  refine Prog.keeps_run_bind.mpr (keeps_ask h fun n' r n'' h hr => ?_)
  obtain ⟨rfl, hrunning⟩ := hr
  refine ⟨h, ?_⟩
  cases r with
  | error e => exact ⟨h, nofun⟩
  | ok scanning =>
    simp only [Prog.Outcome]
    split
    · exact ⟨h, h⟩
    next hscanning => exact ⟨h, h, fun _ => hrunning scanning rfl hscanning⟩

theorem keeps_rescanBlockchain (fuel first last : Nat) (h : n₀.Evolves n) :
    Prog.Keeps (coreEnv payments isTransportError) n₀.Evolves
      (ExceptT.run (CoreRescan.rescanBlockchain isTransportError fuel first last))
      (fun r n => n₀.Evolves n ∧ (r = .ok (some ()) → Rescans n₀.world first last n.world)) n := by
  refine Prog.keeps_run_bind.mpr ((keeps_waitForRescan fuel h).mono fun r n _ hr => ?_)
  obtain ⟨h, -⟩ := hr
  match r with
  | .error e => exact ⟨h, nofun⟩
  | .ok none => exact ⟨h, h, nofun⟩
  | .ok (some ()) =>
    have hscan (n : Node PublicKey) (h : n₀.Evolves n) :
        n₀.imported ⊆ (n.scan first last).imported := h.world.imported ▸ List.Subset.refl _
    refine Prog.keeps_run_bind.mpr (Prog.keeps_run_lift.mpr (keeps_ask h fun n r n' h hr => ?_))
    cases r with
    | ok _ =>
      obtain rfl : n' = n.complete (n.scan first last) := hr
      have h' := h.trans (n.evolves_complete (n.scan first last))
      exact ⟨h', h', h', fun _ => ⟨_, List.mem_cons_self, hscan n h, rfl, rfl⟩⟩
    | error e =>
      simp only [NodeAnswers, Prog.Outcome] at hr ⊢
      split at hr
      next htransport =>
        obtain ⟨hnone, rfl⟩ := hr
        have h' := h.trans (Node.evolves_start hnone (n.scan first last))
        simp only [htransport, if_true]
        -- What the request began is complete when the second wait is over.
        refine ⟨h', (keeps_waitForRescan fuel (Node.Evolves.refl _)).weaken (fun _ => h'.trans)
          |>.mono fun r n'' _ hr => ?_⟩
        obtain ⟨hevolves, -, hnone'⟩ := hr
        refine ⟨h'.trans hevolves, fun hok => ?_⟩
        rcases hevolves.running _ rfl with hrunning | hdone
        · rw [hnone' hok] at hrunning
          cases hrunning
        · exact ⟨_, hdone, hscan n h, rfl, rfl⟩
      next htransport =>
        obtain rfl : n' = n := hr
        simp only [htransport]
        exact ⟨h, h, h, nofun⟩

theorem keeps_importPayment (tx : TransactionValue) (n : Node PublicKey) :
    Prog.Keeps (coreEnv payments isTransportError) n.Evolves
      (ExceptT.run (CoreRescan.importPayment tx))
      (Prog.Outcome (fun _ n' => n.Evolves n' ∧ payments.raw tx.txid ∈ n'.funds) fun _ => n.Evolves)
      n := by
  refine Prog.keeps_run_seq (P := fun rawTx n' => n.Evolves n' ∧ rawTx = payments.raw tx.txid)
    (keeps_ask (Node.Evolves.refl n) fun _ r n' h hr => ?_) fun rawTx n₁ _ h₁ => ?_
  · obtain ⟨rfl, hraw⟩ := hr
    exact ⟨h, Prog.Outcome.intro (fun rawTx hok => ⟨h, hraw rawTx hok⟩) fun _ _ => h⟩
  obtain ⟨h₁, rfl⟩ := h₁
  refine Prog.keeps_run_seq (P := fun _ => n.Evolves) (keeps_ask h₁ fun _ r n' h hr => ?_)
    fun proof n₂ _ h₂ => ?_
  · obtain rfl : n' = _ := hr
    exact ⟨h, Prog.Outcome.intro (fun _ _ => h) fun _ _ => h⟩
  refine keeps_ask h₂ fun n₃ r n' h hr => ?_
  cases r with
  | ok _ =>
    obtain rfl : n' = n₃.fund _ := hr
    exact ⟨h.trans (n₃.evolves_fund _), h.trans (n₃.evolves_fund _), List.mem_cons_self⟩
  | error e =>
    obtain rfl : n' = n₃ := hr
    exact ⟨h, h⟩

theorem serves_addressTxsChain (address : String) :
    Electrs.ServesGrowing (coreEnv payments isTransportError) n₀.Evolves
      (Histories payments address) (fun tx => tx.txid) (fun n => n.history address)
      fun last => CoreRescan.ask (E := E) (.addressTxsChain address last) := by
  intro last n h
  refine Prog.keeps_request.mpr ⟨h, fun r n'' hr => ?_⟩
  obtain ⟨n', hevolves, rfl, hpage⟩ := hr
  refine ⟨h.trans hevolves, Prog.Outcome.intro (fun page hok => ?_) fun _ _ => trivial⟩
  obtain ⟨hhistories, rfl⟩ := hpage page hok
  exact ⟨hhistories, hevolves.history address, hhistories.distinct, rfl⟩

/-- The payments to the address in blocks that the node may not have are imported. -/
theorem keeps_rescanElectrsForAddress (fuel : Nat) (address : String) (n : Node PublicKey) :
    Prog.Keeps (coreEnv payments isTransportError) n.Evolves
      (ExceptT.run (CoreRescan.rescanElectrsForAddress (E := E) fuel address))
      (Prog.Outcome (fun _ n' => n.Evolves n' ∧ ∀ x < n.prunedHeight, ∀ txid,
        payments.paid address x txid → payments.raw txid ∈ n'.funds) fun _ => n.Evolves) n := by
  refine Prog.keeps_run_seq (P := fun txs n' => n.Evolves n' ∧
    ∃ n₁, n.Evolves n₁ ∧ Histories payments address n₁ ∧ txs = n₁.history address) ?_
    fun txs n₁ _ h₁ => ?_
  · refine Prog.keeps_map.mpr ((Electrs.keeps_readPages (serves_addressTxsChain address) fuel
      (Node.Evolves.refl n)).mono fun r n' h hr => ?_)
    match r, hr with
    | .ok (some txs), hr => exact ⟨h, hr txs rfl⟩
    | .ok none, _ => exact h
    | .error e, _ => exact h
  obtain ⟨h₁, n₂, h₂, hhistories, rfl⟩ := h₁
  refine (Prog.keeps_run_forM_each (J := n.Evolves)
    (P := fun tx n' => payments.raw tx.txid ∈ n'.funds) (fun tx n' h => ?_) (fun _ h => h) _
    h₁).mono fun r n' _ hr => hr.imp (fun _ hok => ⟨hok.1, fun x hx txid hpaid => ?_⟩) fun _ h => h
  · refine Prog.keeps_run_adapt.mpr
      (((keeps_importPayment tx n').weaken fun _ => h.trans).mono fun r n'' _ hr => ?_)
    cases r with
    | ok _ => exact ⟨⟨h.trans hr.2.1, hr.2.2⟩, fun _ hmem => hr.2.1.world.funds hmem⟩
    | error e => exact h.trans hr.2
  obtain ⟨tx, htx, rfl, hstatus, output, houtput, haddress⟩ :=
    hhistories.paid x (Nat.lt_of_lt_of_le hx h₂.world.prunedHeight) txid hpaid
  have hconfirmed : isConfirmedPaymentTo address tx = true := by
    simp only [isConfirmedPaymentTo, hstatus, Option.all_some, Bool.true_and, List.any_eq_true]
    exact ⟨output, houtput, by simpa using haddress⟩
  exact hok.2 tx (List.mem_filter.mpr ⟨htx, hconfirmed⟩)

theorem keeps_rescanElectrsForAddresses (lib : Lib X) (fuel : Nat) (addresses : List Address)
    (n : Node PublicKey) :
    Prog.Keeps (coreEnv payments isTransportError) n.Evolves
      (ExceptT.run (CoreRescan.rescanElectrsForAddresses (E := E) lib fuel addresses))
      (Prog.Outcome (fun _ n' => n.Evolves n' ∧ ∀ adr ∈ addresses, ∀ x < n.prunedHeight, ∀ txid,
        payments.paid (lib.addressString adr) x txid → payments.raw txid ∈ n'.funds)
        fun _ => n.Evolves) n := by
  refine Prog.keeps_run_forM_each (J := n.Evolves) (P := fun adr n' => ∀ x < n.prunedHeight,
    ∀ txid, payments.paid (lib.addressString adr) x txid → payments.raw txid ∈ n'.funds)
    (fun adr n' h => ?_) (fun _ h => h) _ (Node.Evolves.refl n)
  refine ((keeps_rescanElectrsForAddress fuel (lib.addressString adr) n').weaken fun _ =>
    h.trans).mono fun r n'' _ hr => hr.2.imp (fun _ hok => ?_) fun _ => h.trans
  refine ⟨⟨h.trans hok.1, fun x hx => hok.2 x (Nat.lt_of_lt_of_le hx h.world.prunedHeight)⟩, ?_⟩
  exact fun _ himported x hx txid hpaid => hok.1.world.funds (himported x hx txid hpaid)

/-! ### The calls of an invocation -/

theorem keeps_onNode {A : Type} {p : Prog (CoreRescan.api E) A} {I : Node PublicKey → Prop}
    {Q : A → Node PublicKey → Prop}
    (h : Prog.Keeps (coreEnv payments isTransportError) I p Q n) :
    Prog.Keeps (nodeEnv payments address isTransportError fromSlice vaultId) I (onNode p) Q n := by
  refine Prog.keeps_embed_of_part ?_
  have henv : Prog.partEnv Call.node (fun _ r => r)
      (nodeEnv payments address isTransportError fromSlice vaultId) =
      coreEnv payments isTransportError := by
    funext n c r n'
    exact propext ⟨fun ⟨_, hr, h⟩ => hr ▸ h, fun h => ⟨r, rfl, h⟩⟩
  rw [henv]
  exact h

/-- The string of the address that the bitcoin library makes. -/
def addressOf (lib : Lib X) (network : Network) (address : BtcAddress) : String :=
  match address.toAddress lib network with
  | .ok adr => lib.addressString adr
  | .error _ => ""

theorem mem_addresses (lib : Lib X) (network : Network) {addresses : List BtcAddress}
    {btcAddress : BtcAddress} (h : btcAddress ∈ addresses) :
    ∃ adr ∈ addresses.filterMap fun address => (address.toAddress lib network).toOption,
      lib.addressString adr = addressOf lib network btcAddress := by
  obtain ⟨adr, hadr⟩ := btcAddress.toAddress_ok lib network
  refine ⟨adr, List.mem_filterMap.mpr ⟨btcAddress, h, ?_⟩, ?_⟩
  · rw [hadr]
    rfl
  · rw [addressOf, hadr]

variable {sha256 : (n : Nat) → BitVec n → H256}

/-- The programs for the two rescans do what the calls are taken to do. -/
theorem keeps_perform (lib : Lib X) (network : Network) (fuel : Nat)
    (call : PastIssues.Call PublicKey)
    (hinv : Inv payments (addressOf lib network) fromSlice sha256 n.world) :
    Prog.Keeps (nodeEnv payments (addressOf lib network) isTransportError fromSlice vaultId)
      (fun n' => True ∧ (Inv payments (addressOf lib network) fromSlice sha256 n'.world ∨
        ∃ r, env payments (addressOf lib network) fromSlice vaultId n.world call r n'.world))
      (perform (E := E) lib network isTransportError fuel call)
      (fun r n' => env payments (addressOf lib network) fromSlice vaultId n.world call r n'.world)
      n := by
  have hkeeps (n' : Node PublicKey) (h : n.Evolves n') : True ∧
      (Inv payments (addressOf lib network) fromSlice sha256 n'.world ∨
        ∃ r, env payments (addressOf lib network) fromSlice vaultId n.world call r n'.world) :=
    ⟨trivial, .inl (hinv.evolves h.world)⟩
  cases call with
  | rescanBlockchain first last =>
    refine Prog.keeps_map.mpr (((keeps_onNode (keeps_rescanBlockchain fuel first last
      (Node.Evolves.refl n))).weaken hkeeps).mono fun r n' _ hr => ?_)
    obtain ⟨hevolves, -, hrescans⟩ := hr
    refine ⟨n.world, PrunedIssues.Evolves.refl _, hevolves.world, fun hended => hrescans ?_⟩
    match r, hended with
    | .ok (some ()), _ => rfl
  | rescanElectrsForAddresses addresses =>
    refine ((keeps_onNode (keeps_rescanElectrsForAddresses lib fuel _ n)).weaken
      hkeeps).mono fun r n' _ hr => ?_
    obtain ⟨hevolves, hr⟩ := hr
    refine ⟨n.world, PrunedIssues.Evolves.refl _, hevolves.world, fun hok => ?_⟩
    match r, hok with
    | .ok (), _ =>
      intro btcAddress hmem x hx txid hpaid
      obtain ⟨adr, hadr, heq⟩ := mem_addresses lib network hmem
      exact hr.2 adr hadr x hx txid (heq ▸ hpaid)
  | _ =>
    refine Prog.keeps_request.mpr ⟨hkeeps n (Node.Evolves.refl n), fun r n' hr => ?_⟩
    obtain ⟨n₁, hevolves, hanswer, -⟩ := hr
    exact ⟨⟨trivial, .inr ⟨r, n₁.world, hevolves.world, hanswer⟩⟩, n₁.world, hevolves.world,
      hanswer⟩

theorem keeps_addKeys (lib : Lib X) (network : Network) (fuel rounds : Nat)
    (hinv : Inv payments (addressOf lib network) fromSlice sha256 n.world) :
    Prog.Keeps (nodeEnv payments (addressOf lib network) isTransportError fromSlice vaultId)
      (fun n => True ∧ Inv payments (addressOf lib network) fromSlice sha256 n.world)
      (addKeys lib network isTransportError fuel fromSlice sha256 vaultId rounds)
      (fun r n => Completes payments (addressOf lib network) fromSlice sha256 r n.world) n :=
  Prog.keeps_interpret Node.world (fun call _ _ hinv => keeps_perform lib network fuel
    call hinv) (meets_addKeysFromPastIssueRequest rounds hinv) trivial

end Refinement

/-! ### A payment in a pruned block, and a request that times out -/

/-- An issue from block 10 on, to the address of the first key. -/
def prunedIssue : Issue :=
  (1, { (default : InterBtcIssueRequest) with
    opentime := 5
    btcHeight := 10
    btcAddress := .P2WPKHv0 0x751e76e8199196d454941c45d1b3a323f1433bd6
    btcPublicKey := PastIssues.publicKeyOfOne })

def prunedAddress : String := "bcrt1qw508d6qejxtdg4y5r3zarvary0c5xw7kygt080"

/-- One payment, in block 12. -/
def onePayment : Payments where
  paid address height txid := address = prunedAddress ∧ height = 12 ∧ txid = 7
  raw _ := [7]

def readKey (key : BtcPublicKey) : Except (Failure Unit) BtcPublicKey := .ok key

def paidHistory (address : String) : List TransactionValue :=
  [{ txid := 7, vout := [⟨[], some address, 1000⟩], status := some ⟨true⟩ }]

/-- The node has the blocks from 15 to 20. -/
def prunedNode : Node BtcPublicKey where
  stored := none
  height := 20
  imported := []
  scans := []
  listed := []
  firstHeight _ := none
  queued := []
  prunedHeight := 15
  funds := []
  running := none
  history := paidHistory

/-- The scan that was running is complete. -/
def Node.settle {PublicKey : Type} (n : Node PublicKey) : Node PublicKey :=
  { n with scans := n.running.toList ++ n.scans, running := none }

theorem Node.evolves_settle {PublicKey : Type} (n : Node PublicKey) : n.Evolves n.settle :=
  ⟨⟨rfl, rfl, rfl, rfl, rfl, rfl, List.subset_append_right _ _, Nat.le_refl _,
    List.Subset.refl _⟩, fun scan hscan => .inr (List.mem_append_left _ (by simp [hscan])),
    fun _ => ⟨[], rfl⟩⟩

/-- The first request for a scan times out. -/
def serve (n : Node BtcPublicKey) :
    (call : Call BtcPublicKey) → (api Unit BtcPublicKey).Answer call × Node BtcPublicKey
  | .vault .dbGet => (.ok n.stored, n)
  | .vault (.dbPut status) => (.ok (), { n with toWorld := n.world.put status })
  | .vault .getVaultIssueRequests =>
    if n.listed = [] ∧ n.stored = none then
      (.ok [prunedIssue], { n with toWorld := n.world.list (ofVault default [prunedIssue]) })
    else (.error .waiting, n)
  | .vault (.addNewDepositKey publicKey secretKey) =>
    (.ok (), { n with toWorld := n.world.importKey (publicKey, secretKey) })
  | .vault .getBlockCount => (.ok n.height, { n with toWorld := n.world.readHeight n.height })
  | .vault .getPrunedHeight => (.ok n.prunedHeight, n)
  | .vault (.rescanElectrsForAddresses _) => (.error .waiting, n)
  | .vault (.rescanBlockchain _ _) => (.error .waiting, n)
  | .vault .elapsedBelowLimit => (true, n)
  | .node .getWalletInfo => (.ok none, n.settle)
  | .node (.rescanBlockchain first last) =>
    if n.running = none ∧ n.scans = [] then (.error (), n.start (n.scan first last))
    else (.ok (), n.complete (n.scan first last))
  | .node (.addressTxsChain address last) =>
    if n.history address = paidHistory address then
      (.ok ((after (fun tx => tx.txid) last (n.history address)).take
        Electrs.ELECTRS_TRANSACTIONS_PER_PAGE), n)
    else (.error (), n)
  | .node (.getTxHex txid) => (.ok (onePayment.raw txid), n)
  | .node (.getTxMerkleBlockProof _) => (.ok [], n)
  | .node (.importPrunedFunds rawTx _) => (.ok (), n.fund rawTx)

theorem nodeEnv_serve (address : BtcAddress → String) (n : Node BtcPublicKey)
    (call : Call BtcPublicKey) :
    nodeEnv onePayment address (fun _ => true) readKey default n call (serve n call).1
      (serve n call).2 := by
  have hrefl := Node.Evolves.refl n
  cases call with
  | vault call =>
    refine ⟨n, hrefl, ?_⟩
    cases call with
    | getVaultIssueRequests =>
      simp only [serve]
      split
      next h =>
        refine ⟨⟨⟨?_, ?_, ?_⟩, rfl⟩, rfl⟩
        · rw [h.1]
          exact fun e he => absurd he List.not_mem_nil
        · intro e he hopen
          cases List.mem_singleton.mp (List.mem_filter.mp he).1
          rw [PastIssues.World.status, h.2] at hopen
          exact absurd hopen (by decide)
        · exact fun e _ => ⟨_, rfl⟩
      next => exact ⟨rfl, rfl⟩
    | rescanElectrsForAddresses addresses =>
      exact ⟨⟨PrunedIssues.Evolves.refl _, fun h => by cases h⟩, rfl⟩
    | rescanBlockchain first last =>
      exact ⟨⟨PrunedIssues.Evolves.refl _, fun h => by cases h⟩, rfl⟩
    | getBlockCount => exact ⟨⟨Nat.le_refl _, rfl⟩, rfl⟩
    | dbPut status => exact ⟨rfl, rfl⟩
    | elapsedBelowLimit => exact ⟨rfl, rfl⟩
    | dbGet | addNewDepositKey publicKey secretKey | getPrunedHeight => exact ⟨⟨rfl, rfl⟩, rfl⟩
  | node call =>
    cases call with
    | getWalletInfo => exact ⟨n.settle, n.evolves_settle, rfl, fun _ _ _ => rfl⟩
    | rescanBlockchain first last =>
      refine ⟨n, hrefl, ?_⟩
      simp only [serve]
      split
      next h => exact ⟨h.1, rfl⟩
      next => rfl
    | addressTxsChain address last =>
      simp only [serve]
      split
      next h =>
        refine ⟨n, hrefl, rfl, fun page hpage => ?_⟩
        cases hpage
        refine ⟨⟨fun x _ txid hpaid => ?_, ?_⟩, rfl⟩
        · rw [h]
          exact ⟨_, List.mem_singleton_self _, hpaid.2.2.symm, rfl, _,
            List.mem_singleton_self _, rfl⟩
        · rw [h]
          exact List.nodup_singleton _
      next =>
        refine ⟨n, hrefl, rfl, fun page hpage => ?_⟩
        cases hpage
    | getTxHex txid =>
      refine ⟨n, hrefl, rfl, fun rawTx hraw => ?_⟩
      cases hraw
      rfl
    | getTxMerkleBlockProof txid => exact ⟨n, hrefl, rfl⟩
    | importPrunedFunds rawTx rawMerkleProof => exact ⟨n, hrefl, rfl⟩

def afterServe : Except (Failure Unit) (Option Unit) × Node BtcPublicKey :=
  (addKeys (threeKeys [] []) .regtest (fun _ => true) 2 readKey PastIssues.digest default 8).exec
    serve prunedNode

end InterBtcClients.Vault.PrunedRescan
