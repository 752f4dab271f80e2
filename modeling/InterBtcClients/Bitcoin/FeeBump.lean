import InterBtcClients.Bitcoin.Change

/-! The versions of a payment: the transaction that the light client sends first and those that
replace it with a higher fee.  They all spend the first input of the first one, so that the chain
takes at most one of them. -/

namespace InterBtcClients.Bitcoin.Light

open Library Electrs InterBtcClients.Runtime

variable {E : Type} (lib : Lib E)

/-- One call of `bump_fee`, by the client as it is then. -/
structure Bump where
  light : BitcoinLight
  address : Address
  feeRate : SatPerVbyte

/-- Successive calls of `bump_fee`, each for the latest version. -/
def bumpFees : List Bump → Txid → Prog (api E) Unit
  | [], _ => return ()
  | bump :: bumps, txid => do
    match ← (bump.light.bumpFee lib txid bump.address bump.feeRate).run with
    | .ok txid => bumpFees bumps txid
    | .error _ => bumpFees bumps txid

def payAndBump (light : BitcoinLight) (address : Address) (sat : UInt64) (feeRate : SatPerVbyte)
    (requestId : Option H256) (bumps : List Bump) : Prog (api E) Unit := do
  match ← (light.createAndSendTransaction lib address sat feeRate requestId).run with
  | .ok txid => bumpFees lib bumps txid
  | .error _ => return ()

/-! ### The server -/

structure Version where
  replaces : Option Txid
  tx : Transaction
  deriving DecidableEq

/-- The transactions that have been sent, and the latest that the server has accepted, under the id
that it gave. -/
structure World where
  versions : List Version
  latest : Option (Txid × Transaction)
  deriving DecidableEq

namespace World

def start : World := ⟨[], none⟩

def send (w : World) (tx : Transaction) : World :=
  { w with versions := w.versions ++ [⟨w.latest.map Prod.fst, tx⟩] }

def accept (w : World) (tx : Transaction) (txid : Txid) : World :=
  { w.send tx with latest := some (txid, tx) }

end World

/-- The server returns the latest version for its id, and no transaction spends an output of its own
(its id is a hash of what it spends).  All else it may answer as it likes; a transaction may have
been sent although the server answered with an error. -/
def serverEnv : Prog.Env (api E) World
  | w, .postTx tx, .ok txid, w' =>
    (∀ outpoint ∈ tx.spends, outpoint.txid ≠ txid) ∧ w' = w.accept tx txid
  | w, .postTx tx, .error _, w' => w' = w.send tx
  | w, .txHex txid, .ok rawTx, w' =>
    (∀ tx, w.latest = some (txid, tx) → lib.deserialize rawTx = .ok tx) ∧ w' = w
  | w, _, _, w' => w' = w

/-- No double payment: all versions spend the first input of the first one, so that of a chain that
spends no output twice at most one transaction is a version, and none spends an output of the
version that it replaces. -/
structure NoDoublePayment (w : World) : Prop where
  first : ∀ original, w.versions.head? = some original →
    ∃ outpoint, original.tx.spends.head? = some outpoint ∧
      ∀ version ∈ w.versions, version.tx.spends.head? = some outpoint
  confirmed : ∀ chain : List Transaction, (chain.flatMap Transaction.spends).Nodup →
    (chain.filter (· ∈ w.versions.map Version.tx)).length ≤ 1
  replaced : ∀ version ∈ w.versions, ∀ txid, version.replaces = some txid →
    ∀ outpoint ∈ version.tx.spends, outpoint.txid ≠ txid

structure Inv (w : World) : Prop where
  first : ∃ outpoint, ∀ version ∈ w.versions, version.tx.spends.head? = some outpoint
  latest : ∀ txid tx, w.latest = some (txid, tx) →
    tx ∈ w.versions.map Version.tx ∧ ∀ outpoint ∈ tx.spends, outpoint.txid ≠ txid
  replaced : ∀ version ∈ w.versions, ∀ txid, version.replaces = some txid →
    ∀ outpoint ∈ version.tx.spends, outpoint.txid ≠ txid

/-- What a transaction has to meet to be sent: it spends the first input of the versions there are,
and no output of the latest. -/
structure Replaces (w : World) (tx : Transaction) : Prop where
  nonempty : tx.spends ≠ []
  first : ∀ version ∈ w.versions, tx.spends.head? = version.tx.spends.head?
  latest : ∀ txid tx', w.latest = some (txid, tx') → ∀ outpoint ∈ tx.spends, outpoint.txid ≠ txid

section Invariant

variable {lib} {w w' : World} {tx : Transaction}

theorem inv_start : Inv World.start where
  first := ⟨default, nofun⟩
  latest := nofun
  replaced := nofun

theorem Inv.send (h : Inv w) (htx : Replaces w tx) : Inv (w.send tx) where
  first := by
    obtain ⟨outpoint, hfirst⟩ := h.first
    cases hversions : w.versions with
    | nil =>
      refine ⟨tx.spends.head htx.nonempty, fun version hversion => ?_⟩
      rw [World.send, hversions, List.nil_append, List.mem_singleton] at hversion
      rw [hversion, List.head?_eq_some_head htx.nonempty]
    | cons original versions =>
      have horiginal : original ∈ w.versions := by simp [hversions]
      refine ⟨outpoint, fun version hversion => ?_⟩
      rcases List.mem_append.mp hversion with hversion | hversion
      · exact hfirst version hversion
      · rw [List.mem_singleton.mp hversion, htx.first original horiginal, hfirst original horiginal]
  latest txid tx' hlatest := by
    obtain ⟨hmem, hself⟩ := h.latest txid tx' hlatest
    exact ⟨by simp only [World.send, List.map_append, List.mem_append, hmem, true_or], hself⟩
  replaced version hversion txid htxid := by
    rcases List.mem_append.mp hversion with hversion | hversion
    · exact h.replaced version hversion txid htxid
    · rw [List.mem_singleton.mp hversion] at htxid ⊢
      obtain ⟨⟨_, tx'⟩, hlatest, rfl⟩ := Option.map_eq_some_iff.mp htxid
      exact htx.latest _ tx' hlatest

theorem Inv.accept {txid : Txid} (h : Inv w) (htx : Replaces w tx)
    (hself : ∀ outpoint ∈ tx.spends, outpoint.txid ≠ txid) : Inv (w.accept tx txid) where
  first := (h.send htx).first
  latest txid' tx' hlatest := by
    cases hlatest
    exact ⟨by simp [World.accept, World.send], hself⟩
  replaced := (h.send htx).replaced

theorem serverEnv_query (w : World) (w₁ : World) (c : Call) (r : (api E).Answer c) (w₂ : World)
    (hw : w₁ = w) (hc : c.IsQuery) (hr : serverEnv lib w₁ c r w₂) : w₂ = w := by
  rw [← hw]
  cases c with
  | postTx tx => cases hc
  | txHex txid =>
    cases r with
    | ok rawTx => exact hr.2
    | error e => exact hr
  | tx txid | addressUtxo address | scripthashTxsChain scripthash last
  | addressTxsChain address last => exact hr

theorem keeps_getTransaction {txid : Txid} (hlatest : w.latest = some (txid, tx)) :
    Prog.Keeps (serverEnv lib) (· = w) (BitcoinLight.getTransaction lib txid).run
      (Prog.Outcome (fun tx' _ => tx' = tx) fun _ _ => True) w := by
  refine ⟨rfl, fun r w' hr => ?_⟩
  cases r with
  | error e =>
    cases hr
    exact ⟨rfl, trivial⟩
  | ok rawTx =>
    obtain ⟨htx, rfl⟩ := hr
    refine Prog.keeps_run_ofExcept.mpr ⟨rfl, ?_⟩
    rw [htx tx hlatest]
    rfl

theorem spends_unfunded (tx : Transaction) (idx : Nat) :
    (BitcoinLight.unfunded tx idx).spends = tx.spends := by
  simp [BitcoinLight.unfunded, Transaction.spends, Function.comp_def]

/-- A replacement of the latest version spends first what all versions spend first. -/
theorem replaces_of_funded {changeAddress : Address} {base : List TxOut} {txid : Txid}
    {latest : Transaction} (h : Inv w) (hlatest : w.latest = some (txid, latest))
    (htx : Funded lib changeAddress (some txid) latest.spends.head? base tx) : Replaces w tx where
  nonempty := htx.nonempty
  first version hversion := by
    obtain ⟨outpoint, hfirst⟩ := h.first
    obtain ⟨last, hlast, rfl⟩ := List.mem_map.mp (h.latest txid latest hlatest).1
    rw [hfirst version hversion]
    exact htx.selects.first outpoint (hfirst last hlast)
  latest txid' tx' hlatest' outpoint houtpoint := by
    rw [hlatest] at hlatest'
    cases hlatest'
    rintro rfl
    exact htx.selects.kept outpoint houtpoint rfl

theorem replaces_start {changeAddress : Address} {base : List TxOut}
    (htx : Funded lib changeAddress none none base tx) : Replaces World.start tx where
  nonempty := htx.nonempty
  first := nofun
  latest := nofun

end Invariant

/-! ### Invariants of the payment -/

section Kept

variable {lib} {w w' : World} {tx : Transaction}

/-- An invariant `J` of payments to the addresses in `To`: it is kept when the transactions that are
sent meet `Good`, as those do that the wallet funds. -/
structure KeptBy (lib : Lib E) (To : Address → Prop) (base : List TxOut) (J : World → Prop)
    (Good : World → Transaction → Prop) : Prop where
  start : J World.start
  self : ∀ {w txid tx}, J w → w.latest = some (txid, tx) →
    ∀ outpoint ∈ tx.spends, outpoint.txid ≠ txid
  send : ∀ {w tx}, J w → Good w tx → J (w.send tx)
  accept : ∀ {w tx txid}, J w → Good w tx → (∀ outpoint ∈ tx.spends, outpoint.txid ≠ txid) →
    J (w.accept tx txid)
  create : ∀ {changeAddress tx}, Funded lib changeAddress none none base tx → Good World.start tx
  bump : ∀ {w txid latest idx payload changeAddress tx} {address : Address}, To address → J w →
    w.latest = some (txid, latest) →
    extractReturnToSelfAddress lib latest address.payload = .ok (some (idx, payload)) →
    Funded lib changeAddress (some txid) latest.spends.head?
      (BitcoinLight.unfunded latest idx).output tx → Good w tx

variable {To : Address → Prop} {base : List TxOut} {J : World → Prop}
variable {Good : World → Transaction → Prop}

theorem KeptBy.sendTransaction {locked : LockedTransaction} (hJ : KeptBy lib To base J Good)
    (h : J w) (htx : Good w locked.transaction) :
    Prog.Keeps (serverEnv lib) J (BitcoinLight.sendTransaction locked).run
      (Prog.Outcome (fun txid w' => ∃ tx, w'.latest = some (txid, tx))
        fun _ w' => w'.latest = w.latest) w := by
  refine ⟨h, fun r w' hr => ?_⟩
  cases r with
  | ok txid =>
    obtain ⟨hself, rfl⟩ := hr
    exact ⟨hJ.accept h htx hself, locked.transaction, rfl⟩
  | error e =>
    cases hr
    exact ⟨hJ.send h htx, rfl⟩

theorem KeptBy.fundAndSend {recipient changeAddress : Address} {unsignedTx latest : Transaction}
    {txid : Txid} (hJ : KeptBy lib To base J Good) (light : BitcoinLight) (feeRate : SatPerVbyte)
    (h : J w) (hlatest : w.latest = some (txid, latest))
    (hspends : unsignedTx.spends = latest.spends)
    (hgood : ∀ tx, Funded lib changeAddress (some txid) latest.spends.head? unsignedTx.output tx →
      Good w tx) :
    Prog.Keeps (serverEnv lib) J (light.fundAndSignTransaction lib recipient unsignedTx
        changeAddress feeRate (some txid) >>= BitcoinLight.sendTransaction).run
      (Prog.Outcome (fun txid w' => ∃ tx, w'.latest = some (txid, tx))
        fun _ w' => w'.latest = w.latest) w := by
  have hself := hJ.self h hlatest
  have hkept (outpoint : OutPoint) (hfirst : unsignedTx.spends.head? = some outpoint) :
      some txid ≠ some outpoint.txid := by
    rw [hspends] at hfirst
    exact fun hsame => hself outpoint (List.mem_of_head? hfirst) (Option.some.inj hsame).symm
  have hfund : Prog.Keeps (serverEnv lib) (· = w) (light.fundAndSignTransaction lib recipient
      unsignedTx changeAddress feeRate (some txid)).run _ w :=
    keeps_fundAndSignTransaction (serverEnv_query w) light recipient changeAddress feeRate rfl hkept
  refine Prog.keeps_run_seq (P := fun locked w' => w' = w ∧ Good w locked.transaction)
    ((hfund.weaken fun _ hw => hw ▸ h).mono fun r w' _ hr => ?_)
    fun locked w' _ hlocked => ?_
  · obtain ⟨rfl, hr⟩ := hr
    rw [hspends] at hr
    exact hr.imp (fun locked hlocked => ⟨rfl, hgood _ hlocked⟩) fun _ _ => rfl
  · obtain ⟨rfl, htx⟩ := hlocked
    exact hJ.sendTransaction h htx

theorem KeptBy.bumpFee {txid : Txid} {address : Address} (hJ : KeptBy lib To base J Good)
    (light : BitcoinLight) (feeRate : SatPerVbyte) (haddress : To address) (h : J w)
    (hlatest : w.latest = some (txid, tx)) :
    Prog.Keeps (serverEnv lib) J (light.bumpFee lib txid address feeRate).run
      (Prog.Outcome (fun txid w' => ∃ tx, w'.latest = some (txid, tx))
        fun _ w' => w'.latest = w.latest) w := by
  refine Prog.keeps_run_seq (P := fun tx' w' => w' = w ∧ tx' = tx)
    (((keeps_getTransaction hlatest).weaken fun _ hw => hw ▸ h).mono fun r w' _ hr => ?_)
    fun tx' w' _ htx => ?_
  · obtain ⟨rfl, hr⟩ := hr
    exact hr.imp (fun tx' htx' => ⟨rfl, htx'⟩) fun _ _ => rfl
  obtain ⟨rfl, rfl⟩ := htx
  refine Prog.keeps_run_seq (P := fun returnToSelf w'' => w'' = w' ∧
    extractReturnToSelfAddress lib tx' address.payload = .ok returnToSelf)
    (Prog.keeps_run_ofExcept.mpr ⟨h, ?_⟩) fun returnToSelf w'' _ hreturn => ?_
  · cases extractReturnToSelfAddress lib tx' address.payload with
    | ok returnToSelf => exact ⟨rfl, rfl⟩
    | error e => rfl
  obtain ⟨rfl, hreturn⟩ := hreturn
  match returnToSelf, hreturn with
  | none, _ => exact ⟨h, rfl⟩
  | some (idx, payload), hreturn =>
    exact hJ.fundAndSend light feeRate h hlatest (spends_unfunded tx' idx) fun tx =>
      hJ.bump haddress h hlatest hreturn

theorem KeptBy.bumpFees {bumps : List Bump} {txid : Txid} (hJ : KeptBy lib To base J Good)
    (hbumps : ∀ bump ∈ bumps, To bump.address) (h : J w) (hlatest : w.latest = some (txid, tx)) :
    Prog.Keeps (serverEnv lib) J (bumpFees lib bumps txid) (fun _ _ => True) w := by
  induction bumps generalizing txid tx w with
  | nil => exact ⟨h, trivial⟩
  | cons bump bumps ih =>
    obtain ⟨haddress, hbumps⟩ := List.forall_mem_cons.mp hbumps
    refine Prog.keeps_bind.mpr ((hJ.bumpFee bump.light bump.feeRate haddress h hlatest).mono
      fun r w' h' hr => ?_)
    cases r with
    | ok txid' =>
      obtain ⟨tx', hlatest'⟩ := hr
      exact ih hbumps h' hlatest'
    | error e => exact ih hbumps h' (hr.trans hlatest)

theorem KeptBy.payAndBump {address : Address} {sat : UInt64} {requestId : Option H256}
    {bumps : List Bump}
    (hJ : KeptBy lib To (Wallet.createTransaction lib address sat requestId).output J Good)
    (light : BitcoinLight) (feeRate : SatPerVbyte) (hbumps : ∀ bump ∈ bumps, To bump.address) :
    Prog.Keeps (serverEnv lib) J (payAndBump lib light address sat feeRate requestId bumps)
      (fun _ _ => True) World.start := by
  have hcreate : Prog.Keeps (serverEnv lib) (· = World.start)
      (light.createTransaction lib address sat feeRate requestId).run _ World.start :=
    keeps_createTransaction (serverEnv_query World.start) light address sat feeRate requestId rfl
  have hsend : Prog.Keeps (serverEnv lib) J
      (light.createAndSendTransaction lib address sat feeRate requestId).run
      (Prog.Outcome (fun txid w => ∃ tx, w.latest = some (txid, tx)) fun _ _ => True)
      World.start := by
    refine Prog.keeps_run_seq (P := fun locked w => w = World.start ∧ Good w locked.transaction)
      ((hcreate.weaken fun _ hw => hw ▸ hJ.start).mono fun r w _ hr => ?_) fun locked w h hw => ?_
    · obtain ⟨rfl, hr⟩ := hr
      refine hr.imp (fun locked hlocked => ?_) fun _ _ => trivial
      obtain ⟨changeAddress, -, hfunded⟩ := hlocked
      exact ⟨rfl, hJ.create hfunded⟩
    · exact (hJ.sendTransaction h hw.2).mono fun _ _ _ hr => hr.imp (fun _ => id) fun _ _ => trivial
  refine Prog.keeps_bind.mpr (hsend.mono fun r w h hr => ?_)
  cases r with
  | error e => exact ⟨h, trivial⟩
  | ok txid =>
    obtain ⟨tx, hlatest⟩ := hr
    exact hJ.bumpFees hbumps h hlatest

variable (lib) in
theorem inv_kept (base : List TxOut) : KeptBy lib (fun _ => True) base Inv Replaces where
  start := inv_start
  self h hlatest := (h.latest _ _ hlatest).2
  send h htx := h.send htx
  accept h htx hself := h.accept htx hself
  create := replaces_start
  bump _ h hlatest _ hfunded := replaces_of_funded h hlatest hfunded

end Kept

/-- Of a chain that spends no output twice, at most one transaction can spend a given one. -/
theorem length_filter_le_one {chain : List Transaction} {p : Transaction → Bool}
    (outpoint : OutPoint) (hchain : (chain.flatMap Transaction.spends).Nodup)
    (hp : ∀ tx, p tx = true → outpoint ∈ tx.spends) : (chain.filter p).length ≤ 1 := by
  induction chain with
  | nil => exact Nat.zero_le 1
  | cons tx chain ih =>
    rw [List.flatMap_cons, List.nodup_append] at hchain
    obtain ⟨-, hchain, hdisjoint⟩ := hchain
    by_cases htx : p tx
    · have hrest : chain.filter p = [] := by
        refine List.filter_eq_nil_iff.mpr fun other hother hpother => ?_
        have hmem : outpoint ∈ chain.flatMap Transaction.spends :=
          List.mem_flatMap.mpr ⟨other, hother, hp other hpother⟩
        exact hdisjoint outpoint (hp tx htx) outpoint hmem rfl
      rw [List.filter_cons_of_pos htx, hrest]
      exact Nat.le_refl 1
    · rw [List.filter_cons_of_neg htx]
      exact ih hchain

theorem Inv.noDoublePayment {w : World} (h : Inv w) : NoDoublePayment w where
  first original horiginal := by
    obtain ⟨outpoint, hfirst⟩ := h.first
    exact ⟨outpoint, hfirst original (List.mem_of_head? horiginal), hfirst⟩
  confirmed chain hchain := by
    obtain ⟨outpoint, hfirst⟩ := h.first
    refine length_filter_le_one outpoint hchain fun tx htx => ?_
    obtain ⟨version, hversion, rfl⟩ := List.mem_map.mp (of_decide_eq_true htx)
    exact List.mem_of_head? (hfirst version hversion)
  replaced := h.replaced

/-- Whatever the server answers, whenever the run of the payment and of any number of fee bumps is
cut off, the versions sent so far cannot lead to a double payment. -/
theorem noDoublePayment_of_runs (light : BitcoinLight) (address : Address) (sat : UInt64)
    (feeRate : SatPerVbyte) (requestId : Option H256) (bumps : List Bump) {p : Prog (api E) Unit}
    {w : World} (hruns : Prog.Runs (serverEnv lib)
      (payAndBump lib light address sat feeRate requestId bumps) World.start p w) :
    NoDoublePayment w :=
  (((inv_kept lib _).payAndBump light feeRate fun _ _ => trivial).runs hruns).inv.noDoublePayment

/-! ### A payment that is replaced once -/

def fundingTxid : Txid := 0x1111111111111111111111111111111111111111111111111111111111111111

/-- A payment of 20000 satoshi to key 3 for the request 7, with change to key 1. -/
def payment (change : UInt64) (witness : Witness) : Transaction where
  version := 2
  lockTime := 0
  input := [⟨⟨fundingTxid, 0⟩, [], 0xFFFFFFFD, witness⟩]
  output :=
    [⟨20000, witnessScript (toBytes 20 0x7dd65592d0ab2fe0d0257d571abf032cd9db93dc)⟩,
      ⟨0, 0x6A :: 0x20 :: toBytes 32 7⟩,
      ⟨change, witnessScript (toBytes 20 0x751e76e8199196d454941c45d1b3a323f1433bd6)⟩]

def firstPublicKey : List UInt8 :=
  toBytes 33 0x0279be667ef9dcbbac55a06295ce870b07029bfcdb2dce28d959f2815b16f81798

def firstSignature : List UInt8 :=
  toBytes 5 0x3045022100 ++
    toBytes 32 0x985eac53aa84325d88b66223b6af3cad97aca0b1ba9d3a3c3bd696c231671206 ++
    toBytes 2 0x0220 ++
    toBytes 32 0x6d37cd55a6c8caa1fbc0d827a9691dd78b33c677961b51a3bca4ef6abf2fbd17 ++ [1]

def secondSignature : List UInt8 :=
  toBytes 5 0x3045022100 ++
    toBytes 32 0x85dc4ec7b2ae16318a2d07327975c4f614ee7182897a86c622ea0f4a025889f4 ++
    toBytes 2 0x0220 ++
    toBytes 32 0x2cd154ce5058ac856e0d5d744d698c56a4cdf9f5be249149f2af1f0db7f9a14b ++ [1]

/-- At 10 satoshi per virtual byte. -/
def firstVersion : Transaction := payment 78160 [firstSignature, firstPublicKey]

/-- At 20 satoshi per virtual byte. -/
def secondVersion : Transaction := payment 76320 [secondSignature, firstPublicKey]

def firstTxid : Txid := 0xfc957d60b74764bb4ea4321cd83dbccbe2e5d09e31326ba5e40a95b81c2ffe45

def secondTxid : Txid := 0x86a347efa15a11a6bc408adf36dcbb35fb423141bff3312791bc14a22b71a796

def twoPayments : Lib String :=
  threeKeys
    [(payment 78160 [], 0xd9a246478f4ca8dd942ad4abcdc3d640bb4c6692aa3f7b6cb25d35ebb79fe2ba,
        firstSignature),
      (payment 76320 [], 0x6d1d707f8f0534c62a39dc6619bab672367fa1a8a1f1c806e55d76faf8ee0d35,
        secondSignature)]
    [(firstTxid, firstVersion), (secondTxid, secondVersion)]

/-- A server with one output for key 1, which accepts whatever is sent. -/
def serve (w : World) : (call : Call) → (api String).Answer call × World
  | .tx txid =>
    (.ok ⟨txid, [⟨witnessScript (toBytes 20 0x751e76e8199196d454941c45d1b3a323f1433bd6),
      some "bcrt1qw508d6qejxtdg4y5r3zarvary0c5xw7kygt080", 100000⟩]⟩, w)
  | .txHex _ =>
    (if w.latest = some (firstTxid, firstVersion) then .ok (serialize firstVersion)
      else .error "not found", w)
  | .addressUtxo _ => (.ok [⟨fundingTxid, 0, 100000⟩], w)
  | .scripthashTxsChain _ _ => (.ok [], w)
  | .addressTxsChain _ _ => (.ok [], w)
  | .postTx tx =>
    if ∀ outpoint ∈ tx.spends, outpoint.txid ≠ twoPayments.txid tx then
      (.ok (twoPayments.txid tx), w.accept tx (twoPayments.txid tx))
    else (.error "rejected", w.send tx)

theorem deserialize_serialize :
    twoPayments.deserialize (serialize firstVersion) = .ok firstVersion := by
  decide +kernel

theorem serverEnv_serve (w : World) (call : Call) :
    serverEnv twoPayments w call (serve w call).1 (serve w call).2 := by
  cases call with
  | postTx tx =>
    dsimp only [serve]
    split
    next hself => exact ⟨hself, rfl⟩
    next => rfl
  | txHex txid =>
    dsimp only [serve]
    split
    next hlatest =>
      refine ⟨fun tx htx => ?_, rfl⟩
      rw [hlatest] at htx
      cases htx
      exact deserialize_serialize
    next => rfl
  | tx txid | addressUtxo address | scripthashTxsChain scripthash last
  | addressTxsChain address last => rfl

/-- Both versions spend the funding output. -/
theorem noDoublePayment_of_runs_twoVersions :
    NoDoublePayment ⟨[⟨none, firstVersion⟩, ⟨some firstTxid, secondVersion⟩],
      some (secondTxid, secondVersion)⟩ := by
  let recipient : Address := regtestAddress 0x7dd65592d0ab2fe0d0257d571abf032cd9db93dc
  have hexec : ((payAndBump twoPayments firstKeyLight recipient 20000 10 (some 7)
      [⟨firstKeyLight, recipient, 20⟩]).exec serve World.start).2 =
      ⟨[⟨none, firstVersion⟩, ⟨some firstTxid, secondVersion⟩],
        some (secondTxid, secondVersion)⟩ := by
    decide +kernel
  have hruns := Prog.runs_exec serverEnv_serve (payAndBump twoPayments firstKeyLight recipient 20000
    10 (some 7) [⟨firstKeyLight, recipient, 20⟩]) World.start
  rw [hexec] at hruns
  exact noDoublePayment_of_runs twoPayments firstKeyLight recipient 20000 10 (some 7)
    [⟨firstKeyLight, recipient, 20⟩] hruns

end InterBtcClients.Bitcoin.Light
