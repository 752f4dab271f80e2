import InterBtcClients.Bitcoin.FeeBump
import InterBtcClients.Library.Pool

/-! The lock of the light client, which a payment holds from before its coins are looked up until it
has been sent.  Each vault of an account has a client with a lock of its own, and all of them have
the same key: no two payments spend the same coin in the runs in which no two of the locks are held
at once. -/

namespace InterBtcClients.Bitcoin.CreationLock

open Library Light InterBtcClients.Runtime

variable {E ι : Type}

/-! ### Clients -/

/-- A mutex, by its number. -/
abbrev Lock := Nat

structure Client where
  light : BitcoinLight
  transactionCreationLock : Lock

/-- The client of a key, with the lock that is made for it. -/
def newLightClient (lib : Lib E) (privateKey : PrivateKey) (lock : Lock) :
    Except (Light.Error E) Client := do
  return ⟨← BitcoinLight.new lib privateKey, lock⟩

/-- The clients of the vaults, each made by the constructor. -/
def newClients (lib : Lib E) (privateKey : PrivateKey) (vaultIds : List VaultId) :
    Except (Light.Error E) (List Client) :=
  vaultIds.zipIdx.mapM fun vaultId => newLightClient lib privateKey vaultId.2

/-! ### The program -/

/-- The calls of a payment: it takes and gives back its client's lock, and asks the server. -/
inductive Call
  | lockOwned (lock : Lock)
  | drop (lock : Lock)
  | electrs (call : Electrs.Call)

@[reducible] def api (E : Type) : Interface where
  Call := Call
  Answer
    | .lockOwned _ => Unit
    | .drop _ => Unit
    | .electrs call => (Electrs.api E).Answer call

abbrev Rpc (E : Type) := ExceptT (Failure (BitcoinError E)) (Prog (api E))

abbrev ask (call : Call) : Prog (api E) ((api E).Answer call) := Prog.request (api E) call

def electrs {A : Type} (p : Light.Rpc E A) : Prog (api E) (Except (Failure (BitcoinError E)) A) :=
  p.run.embed Call.electrs fun _ r => r

/-- A signed transaction with the lock that is held until it has been sent. -/
structure Locked where
  transaction : LockedTransaction
  lock : Lock

namespace Client

variable (lib : Lib E) (client : Client)

/-- A failure gives the lock back. -/
def fundAndSignTransaction (recipient : Address) (unsignedTx : Transaction)
    (changeAddress : Address) (feeRate : SatPerVbyte) (prevTxid : Option Txid) :
    Rpc E Locked := do
  let lock := client.transactionCreationLock
  ExceptT.lift (ask (.lockOwned lock))
  match ← ExceptT.lift (electrs (client.light.fundAndSignTransaction lib recipient unsignedTx
    changeAddress feeRate prevTxid)) with
  | .ok transaction => return ⟨transaction, lock⟩
  | .error e =>
    ExceptT.lift (ask (.drop lock))
    throw e

def createTransaction (recipient : Address) (sat : UInt64) (feeRate : SatPerVbyte)
    (requestId : Option H256) : Rpc E Locked := do
  let unsignedTx := Wallet.createTransaction lib recipient sat requestId
  let changeAddress ←
    Prog.ofExcept (client.light.getChangeAddress.mapError fun e => .error (.lightClientError e))
  client.fundAndSignTransaction lib recipient unsignedTx changeAddress feeRate none

/-- The lock is given back when the server has answered. -/
def sendTransaction (transaction : Locked) : Rpc E Txid := do
  let txid ← ExceptT.lift (electrs (BitcoinLight.sendTransaction transaction.transaction))
  ExceptT.lift (ask (.drop transaction.lock))
  Prog.ofExcept txid

def createAndSendTransaction (address : Address) (sat : UInt64) (feeRate : SatPerVbyte)
    (requestId : Option H256) : Rpc E Txid := do
  let tx ← client.createTransaction lib address sat feeRate requestId
  sendTransaction tx

end Client

/-- A payment that a client is asked for. -/
structure Payment where
  client : Client
  address : Address
  sat : UInt64
  feeRate : SatPerVbyte
  requestId : Option H256

def Payment.send (lib : Lib E) (payment : Payment) :
    Prog (api E) (Except (Failure (BitcoinError E)) Txid) :=
  (payment.client.createAndSendTransaction lib payment.address payment.sat payment.feeRate
    payment.requestId).run

/-! ### The payments at once -/

/-- The locks that are held, with the payments that hold them, and the transactions that have been
broadcast. -/
structure World (ι : Type) where
  held : List (Lock × ι)
  broadcast : List Transaction

namespace World

def start : World ι := ⟨[], []⟩

def take (w : World ι) (lock : Lock) (i : ι) : World ι := { w with held := (lock, i) :: w.held }

def drop (w : World ι) (lock : Lock) : World ι :=
  { w with held := w.held.filter fun holder => holder.1 ≠ lock }

def send (w : World ι) (tx : Transaction) : World ι := { w with broadcast := w.broadcast ++ [tx] }

end World

/-- No transaction that has been broadcast spends the output. -/
def Unspent (broadcast : List Transaction) (outpoint : OutPoint) : Prop :=
  ∀ tx ∈ broadcast, outpoint ∉ tx.spends

/-- The answers to the payment `i`.  The server lists unspent outputs only.  A transaction may have
been broadcast although the server answered with an error. -/
def paymentEnv (i : ι) : Prog.Env (api E) (World ι)
  | w, .lockOwned lock, _, w' => lock ∉ w.held.map Prod.fst ∧ w' = w.take lock i
  | w, .drop lock, _, w' => w' = w.drop lock
  | w, .electrs (.addressUtxo _), r, w' =>
    (∀ utxos, r = .ok utxos → ∀ utxo ∈ utxos, Unspent w.broadcast ⟨utxo.txid, utxo.vout⟩) ∧ w' = w
  | w, .electrs (.postTx tx), .ok _, w' => w' = w.send tx
  | w, .electrs (.postTx tx), .error _, w' => w' = w ∨ w' = w.send tx
  | w, .electrs (.tx _), _, w' => w' = w
  | w, .electrs (.txHex _), _, w' => w' = w
  | w, .electrs (.scripthashTxsChain _ _), _, w' => w' = w
  | w, .electrs (.addressTxsChain _ _), _, w' => w' = w

/-- Nothing else spends the coins of the wallet. -/
def NothingElse (_ _ : World ι) : Prop := False

/-- No two transactions that have been broadcast spend the same output. -/
def NoDoubleSpend (w : World ι) : Prop :=
  w.broadcast.Pairwise fun tx tx' => ∀ outpoint ∈ tx.spends, outpoint ∉ tx'.spends

/-- A payment takes its client's lock when no other client's lock is held. -/
def Meets (w : World ι) : Call → Prop
  | .lockOwned lock => ∀ holder ∈ w.held, holder.1 = lock
  | _ => True

def lockedEnv (E : Type) (i : ι) : Prog.Env (api E) (World ι) :=
  fun w call r w' => paymentEnv i w call r w' ∧ Meets w call

/-! ### The invariant -/

/-- The payment `i` holds the lock of its client. -/
def Holds (lock : ι → Lock) (i : ι) (w : World ι) : Prop := (lock i, i) ∈ w.held

structure Inv (lock : ι → Lock) (w : World ι) : Prop where
  unique : ∀ i j, Holds lock i w → Holds lock j w → i = j
  noDoubleSpend : NoDoubleSpend w

section Invariant

variable {lock : ι → Lock} {w w' : World ι} {i : ι}

theorem inv_start : Inv lock (World.start : World ι) := ⟨nofun, List.Pairwise.nil⟩

theorem Inv.take (h : Inv lock w) (hfree : w.held = []) : Inv lock (w.take (lock i) i) := by
  have hholder (j : ι) (hj : Holds lock j (w.take (lock i) i)) : j = i := by
    rw [Holds, World.take, hfree] at hj
    exact congrArg Prod.snd (List.mem_singleton.mp hj)
  exact ⟨fun j k hj hk => (hholder j hj).trans (hholder k hk).symm, h.noDoubleSpend⟩

theorem Inv.drop (h : Inv lock w) : Inv lock (w.drop (lock i)) :=
  ⟨fun j k hj hk => h.unique j k (List.mem_of_mem_filter hj) (List.mem_of_mem_filter hk),
    h.noDoubleSpend⟩

theorem Inv.send {tx : Transaction} (h : Inv lock w) (htx : SpendsOnly (Unspent w.broadcast) tx) :
    Inv lock (w.send tx) := by
  refine ⟨h.unique, List.pairwise_append.mpr ⟨h.noDoubleSpend, List.pairwise_singleton _ _, ?_⟩⟩
  intro sent hsent tx' htx' outpoint houtpoint hspent
  rw [List.mem_singleton.mp htx'] at hspent
  exact htx outpoint hspent sent hsent houtpoint

end Invariant

/-! ### One payment -/

/-- While the payment holds its lock, nothing is broadcast by others. -/
structure Relies (lock : ι → Lock) (i : ι) (w w' : World ι) : Prop where
  inv : Inv lock w → Inv lock w'
  held : Holds lock i w → Holds lock i w' ∧ w'.broadcast = w.broadcast

structure Grants (lock : ι → Lock) (i : ι) (w w' : World ι) : Prop where
  inv : Inv lock w → Inv lock w'
  held : ∀ j, j ≠ i → Holds lock j w → Holds lock j w' ∧ w'.broadcast = w.broadcast

/-- The payment holds the only lock that is held. -/
structure Held (lock : ι → Lock) (i : ι) (w : World ι) : Prop where
  inv : Inv lock w
  holds : Holds lock i w

section Payment

variable {lock : ι → Lock} {i : ι} {w w' : World ι}

theorem Grants.refl (i : ι) (w : World ι) : Grants lock i w w := ⟨id, fun _ _ h => ⟨h, rfl⟩⟩

/-- What is done with the only lock disturbs nobody else. -/
theorem Held.grants (h : Held lock i w) (hinv : Inv lock w → Inv lock w') : Grants lock i w w' :=
  ⟨hinv, fun j hj hholds => absurd (h.inv.unique j i hholds h.holds) hj⟩

theorem Held.relies (h : Held lock i w) (hrelies : Relies lock i w w') :
    Held lock i w' ∧ w'.broadcast = w.broadcast := by
  obtain ⟨hholds, hbroadcast⟩ := hrelies.held h.holds
  exact ⟨⟨hrelies.inv h.inv, hholds⟩, hbroadcast⟩

theorem cooperates (lock : ι → Lock) :
    Prog.Cooperates (Relies lock) (Grants lock) NothingElse where
  refl _ _ := ⟨id, fun h => ⟨h, rfl⟩⟩
  trans h h' := by
    refine ⟨h'.inv ∘ h.inv, fun hholds => ?_⟩
    obtain ⟨hholds, hbroadcast⟩ := h.held hholds
    obtain ⟨hholds, hbroadcast'⟩ := h'.held hholds
    exact ⟨hholds, hbroadcast'.trans hbroadcast⟩
  idle := Grants.refl
  relies hij h := ⟨h.inv, h.held _ hij.symm⟩
  other := False.elim

/-- The payment relies on the others and guarantees what they rely on, and ends with `Q`. -/
abbrev Safe {A : Type} (lock : ι → Lock) (i : ι) (p : Prog (api E) A) (Q : A → World ι → Prop)
    (w₁ w : World ι) : Prop :=
  Prog.Guarantees (lockedEnv E i) (Relies lock i) (Grants lock i) p Q w₁ w

variable {w₁ : World ι}

theorem held_eq_nil {lock : Lock} (hfree : lock ∉ w.held.map Prod.fst)
    (hmeets : ∀ holder ∈ w.held, holder.1 = lock) : w.held = [] := by
  refine List.eq_nil_iff_forall_not_mem.mpr fun holder hholder => hfree ?_
  rw [← hmeets holder hholder]
  exact List.mem_map_of_mem hholder

theorem safe_lockOwned (hw : Grants lock i w₁ w) (h : Inv lock w) :
    Safe (E := E) lock i (ask (.lockOwned (lock i))) (fun _ => Held lock i) w₁ w := by
  refine Prog.guarantees_request hw fun w' r w'' hrelies hr => ?_
  obtain ⟨⟨hfree, rfl⟩, hmeets⟩ := hr
  have hnone : w'.held = [] := held_eq_nil hfree hmeets
  have htake : Inv lock (w'.take (lock i) i) := (hrelies.inv h).take hnone
  refine ⟨⟨fun _ => htake, fun j _ hholds => ?_⟩, htake, List.mem_cons_self⟩
  rw [Holds, hnone] at hholds
  cases hholds

theorem safe_drop (hw : Grants lock i w₁ w) (h : Held lock i w) :
    Safe (E := E) lock i (ask (.drop (lock i))) (fun _ _ => True) w₁ w := by
  refine Prog.guarantees_request hw fun w' r w'' hrelies hr => ⟨?_, trivial⟩
  obtain ⟨rfl, -⟩ := hr
  exact (h.relies hrelies).1.grants Inv.drop

theorem eq_of_isQuery {call : Electrs.Call} {r : (Electrs.api E).Answer call} (hcall : call.IsQuery)
    (h : paymentEnv i w (.electrs call) r w') : w' = w := by
  cases call with
  | postTx tx => cases hcall
  | addressUtxo address => exact h.2
  | tx txid | txHex txid | scripthashTxsChain scripthash last
  | addressTxsChain address last => exact h

/-- With the lock, the transaction is funded with outputs that are unspent until it is sent. -/
theorem safe_fundAndSignTransaction {lib : Lib E} {light : BitcoinLight} {recipient : Address}
    {unsignedTx : Transaction} {changeAddress : Address} {feeRate : SatPerVbyte}
    {prevTxid : Option Txid} (hinput : unsignedTx.input = []) (hw : Grants lock i w₁ w)
    (h : Held lock i w) :
    Safe lock i
      (electrs (light.fundAndSignTransaction lib recipient unsignedTx changeAddress feeRate
        prevTxid))
      (fun r w => Held lock i w ∧ ∀ transaction, r = .ok transaction →
        SpendsOnly (Unspent w.broadcast) transaction.transaction) w₁ w := by
  have hfund : Prog.Keeps (Prog.partEnv Call.electrs (fun _ r => r)
      (Prog.tracked (Relies lock i) (lockedEnv E i)))
      (fun s => Grants lock i s.1 s.2 ∧ Held lock i s.2 ∧ s.2.broadcast = w.broadcast)
      (light.fundAndSignTransaction lib recipient unsignedTx changeAddress feeRate prevTxid).run
      (Prog.Outcome (fun transaction _ => SpendsOnly (Unspent w.broadcast) transaction.transaction)
        fun _ _ => True) (w₁, w) := by
    refine keeps_fundAndSignTransaction_of_listed (fun s call r s' hs hcall hr => ?_)
      (fun address _ s utxos s' hs hr => ?_) hinput ⟨hw, h, rfl⟩
    · obtain ⟨r, rfl, hrelies, hanswer, -⟩ := hr
      obtain ⟨hheld, hbroadcast⟩ := hs.2.1.relies hrelies
      rw [eq_of_isQuery hcall hanswer]
      exact ⟨Grants.refl i _, hheld, hbroadcast.trans hs.2.2⟩
    · obtain ⟨r, rfl, hrelies, ⟨hlisted, -⟩, -⟩ := hr
      obtain ⟨-, hbroadcast⟩ := hs.2.1.relies hrelies
      rw [hbroadcast.trans hs.2.2] at hlisted
      exact hlisted utxos rfl
  refine Prog.keeps_embed_of_part ((hfund.weaken fun _ h => h.1).mono fun r s _ hr => ?_)
  obtain ⟨⟨-, hheld, hbroadcast⟩, hspends⟩ := hr
  refine ⟨hheld, fun transaction hok => ?_⟩
  cases hok
  rw [hbroadcast]
  exact hspends

theorem safe_postTx {transaction : LockedTransaction} (hw : Grants lock i w₁ w) (h : Held lock i w)
    (htx : SpendsOnly (Unspent w.broadcast) transaction.transaction) :
    Safe (E := E) lock i (electrs (BitcoinLight.sendTransaction transaction))
      (fun _ => Held lock i) w₁ w := by
  refine Prog.keeps_embed_of_part (Prog.keeps_run_adapt.mpr (Prog.keeps_map.mpr
    (Prog.keeps_request.mpr ⟨hw, fun r s hr => ?_⟩)))
  obtain ⟨r, rfl, hrelies, hanswer, -⟩ := hr
  obtain ⟨hheld, hbroadcast⟩ := h.relies hrelies
  rw [← hbroadcast] at htx
  have hsend : Held lock i (s.1.send transaction.transaction) :=
    ⟨hheld.inv.send htx, hheld.holds⟩
  match r, hanswer with
  | .ok txid, hanswer =>
    rw [show s.2 = s.1.send transaction.transaction from hanswer]
    exact ⟨hheld.grants fun _ => hsend.inv, hsend⟩
  | .error e, hanswer =>
    rcases hanswer with hanswer | hanswer
    · rw [hanswer]
      exact ⟨Grants.refl i _, hheld⟩
    · rw [hanswer]
      exact ⟨hheld.grants fun _ => hsend.inv, hsend⟩

/-- A payment whose coins are unspent while it is sent. -/
theorem safe_sendTransaction {transaction : Locked} (hlock : transaction.lock = lock i)
    (hw : Grants lock i w₁ w) (h : Held lock i w)
    (htx : SpendsOnly (Unspent w.broadcast) transaction.transaction.transaction) :
    Safe (E := E) lock i (Client.sendTransaction transaction).run
      (Prog.Outcome (fun _ _ => True) fun _ _ => True) w₁ w := by
  refine Prog.guarantees_run_seq (Prog.guarantees_run_lift (safe_postTx hw h htx))
    fun txid w₁ w hw h => ?_
  rw [hlock]
  refine Prog.guarantees_run_seq (Prog.guarantees_run_lift (safe_drop hw h)) fun _ w₁ w hw _ => ?_
  exact ⟨hw, .intro (fun _ _ => trivial) fun _ _ => trivial⟩

theorem safe_createTransaction (lib : Lib E) {client : Client}
    (hlock : client.transactionCreationLock = lock i) (recipient : Address) (sat : UInt64)
    (feeRate : SatPerVbyte) (requestId : Option H256) (hw : Grants lock i w₁ w) (h : Inv lock w) :
    Safe lock i (client.createTransaction lib recipient sat feeRate requestId).run
      (Prog.Outcome (fun transaction w => transaction.lock = lock i ∧ Held lock i w ∧
        SpendsOnly (Unspent w.broadcast) transaction.transaction.transaction) fun _ _ => True)
      w₁ w := by
  refine Prog.guarantees_run_seq (P := fun _ => Inv lock) (Prog.keeps_run_ofExcept.mpr
    ⟨hw, .intro (fun _ _ => h) fun _ _ => trivial⟩) fun changeAddress w₁ w hw h => ?_
  rw [Client.fundAndSignTransaction, hlock]
  refine Prog.guarantees_run_seq (Prog.guarantees_run_lift (safe_lockOwned hw h))
    fun _ w₁ w hw h => ?_
  refine Prog.guarantees_run_seq (Prog.guarantees_run_lift (safe_fundAndSignTransaction rfl hw h))
    fun r w₁ w hw h => ?_
  cases r with
  | ok transaction => exact ⟨hw, rfl, h.1, h.2 transaction rfl⟩
  | error e =>
    exact Prog.guarantees_run_seq (Prog.guarantees_run_lift (safe_drop hw h.1))
      fun _ _ _ hw _ => ⟨hw, trivial⟩

theorem safe_send (lib : Lib E) {payment : Payment}
    (hlock : payment.client.transactionCreationLock = lock i) (hw : Grants lock i w₁ w)
    (h : Inv lock w) :
    Safe lock i (payment.send lib) (Prog.Outcome (fun _ _ => True) fun _ _ => True) w₁ w :=
  Prog.guarantees_run_seq (safe_createTransaction lib hlock payment.address payment.sat
    payment.feeRate payment.requestId hw h)
    fun _ _ _ hw h => safe_sendTransaction h.1 hw h.2.1 h.2.2

end Payment

/-! ### Clients with one lock, and with one each -/

/-- The payments take no lock but this one. -/
def TakesOnly (lock : Lock) : Call → Prop
  | .lockOwned lock' => lock' = lock
  | _ => True

theorem only_electrs {A : Type} (lock : Lock) (p : Light.Rpc E A) :
    (electrs p).Only (TakesOnly lock) :=
  Prog.only_embed (fun _ => trivial) _

theorem only_send (lib : Lib E) (payment : Payment) :
    (payment.send lib).Only (TakesOnly payment.client.transactionCreationLock) := by
  refine Prog.only_run_bind (Prog.only_run_bind trivial fun changeAddress => ?_)
    fun transaction => ?_
  · refine Prog.only_run_bind ⟨rfl, fun _ => trivial⟩ fun _ => ?_
    refine Prog.only_run_bind (Prog.only_bind (only_electrs _ _) fun _ => trivial) fun r => ?_
    cases r with
    | ok transaction => trivial
    | error e => exact Prog.only_run_bind ⟨trivial, fun _ => trivial⟩ fun _ => trivial
  · refine Prog.only_run_bind (Prog.only_bind (only_electrs _ _) fun _ => trivial) fun r => ?_
    exact Prog.only_run_bind ⟨trivial, fun _ => trivial⟩ fun _ => trivial

/-- The payments of a single client take its lock when no lock is held. -/
theorem lockedEnv_of_lock {lock : Lock} {w w' : World ι} {i : ι} {call : (api E).Call}
    {r : (api E).Answer call} (hw : ∀ holder ∈ w.held, holder.1 = lock)
    (hcall : TakesOnly lock call) (hr : paymentEnv i w call r w') :
    lockedEnv E i w call r w' ∧ ∀ holder ∈ w'.held, holder.1 = lock := by
  cases call with
  | lockOwned lock' =>
    cases hcall
    obtain ⟨hfree, rfl⟩ := hr
    refine ⟨⟨⟨hfree, rfl⟩, hw⟩, fun holder hholder => ?_⟩
    rcases List.mem_cons.mp hholder with rfl | hholder
    · rfl
    · exact hw holder hholder
  | drop lock' =>
    refine ⟨⟨hr, trivial⟩, fun holder hholder => ?_⟩
    rw [show w' = w.drop lock' from hr] at hholder
    exact hw holder (List.mem_of_mem_filter hholder)
  | electrs call =>
    have hheld : w'.held = w.held := by
      cases call with
      | postTx tx =>
        cases r with
        | ok txid => rw [show w' = w.send tx from hr]; rfl
        | error e => rcases hr with rfl | rfl <;> rfl
      | addressUtxo address => rw [hr.2]
      | tx txid | txHex txid | scripthashTxsChain scripthash last
      | addressTxsChain address last => rw [show w' = w from hr]
    exact ⟨⟨hr, trivial⟩, hheld ▸ hw⟩

theorem mapM_newLightClient {lib : Lib E} {privateKey : PrivateKey} {light : BitcoinLight}
    (hlight : BitcoinLight.new lib privateKey = .ok light) (vaultIds : List VaultId)
    (first : Lock) :
    (vaultIds.zipIdx first).mapM (fun vaultId => newLightClient lib privateKey vaultId.2) =
      .ok ((List.range' first vaultIds.length).map (Client.mk light)) := by
  have hclient (lock : Lock) : newLightClient lib privateKey lock = .ok ⟨light, lock⟩ := by
    rw [newLightClient, hlight]
    rfl
  induction vaultIds generalizing first with
  | nil => rfl
  | cons vaultId vaultIds ih =>
    rw [List.zipIdx_cons, List.mapM_cons, ih, hclient]
    rfl

/-- The constructor makes clients that are the same but for their locks, which are all different. -/
theorem newClients_eq {lib : Lib E} {privateKey : PrivateKey} {light : BitcoinLight}
    (hlight : BitcoinLight.new lib privateKey = .ok light) (vaultIds : List VaultId) :
    newClients lib privateKey vaultIds =
      .ok ((List.range vaultIds.length).map (Client.mk light)) := by
  rw [newClients, mapM_newLightClient hlight, List.range_eq_range']

/-! ### The runs -/

section Runs

variable [DecidableEq ι] {lib : Lib E} {payments : ι → Payment} {w : World ι}
variable {ps : ι → Prog (api E) (Except (Failure (BitcoinError E)) Txid)}

theorem inv_of_runs (hruns : Prog.PoolRuns (lockedEnv E) NothingElse
    (fun i => (payments i).send lib) World.start ps w) :
    Inv (fun i => (payments i).client.transactionCreationLock) w := by
  refine (Prog.Guarantees.poolRuns (cooperates _) (I := Inv _)
    (Q := fun _ => Prog.Outcome (fun _ _ => True) fun _ _ => True) (fun _ r _ _ _ _ => ?_)
    (fun hG hinv => hG.inv hinv) False.elim
    (fun i => safe_send lib rfl (Grants.refl i _) inv_start) inv_start hruns).1
  exact .intro (fun _ _ => trivial) fun _ _ => trivial

/-- The payments of a single client spend no output twice in any run. -/
theorem noDoubleSpend_of_client {client : Client} (hclient : ∀ i, (payments i).client = client)
    (hruns : Prog.PoolRuns paymentEnv NothingElse (fun i => (payments i).send lib) World.start
      ps w) : NoDoubleSpend w := by
  have honly (i : ι) : ((payments i).send lib).Only (TakesOnly client.transactionCreationLock) :=
    hclient i ▸ only_send lib (payments i)
  exact (inv_of_runs (hruns.restrict
    (J := fun w => ∀ holder ∈ w.held, holder.1 = client.transactionCreationLock)
    (fun _ _ _ _ _ hw hcall hr => lockedEnv_of_lock hw hcall hr) (fun _ _ _ h => h.elim) honly
    nofun)).noDoubleSpend

/-- No output is spent twice in the runs in which every payment takes its client's lock when no
other client's lock is held. -/
theorem noDoubleSpend_of_runs (hruns : Prog.PoolRuns (lockedEnv E) NothingElse
    (fun i => (payments i).send lib) World.start ps w) : NoDoubleSpend w :=
  (inv_of_runs hruns).noDoubleSpend

end Runs

/-! ### Two vaults -/

section TwoVaults

/-- A payment of 20000 satoshi to key 3, with change to key 1. -/
def paymentOf (vout : UInt32) (requestId : Nat) (witness : Witness) : Transaction where
  version := 2
  lockTime := 0
  input := [⟨⟨fundingTxid, vout⟩, [], 0xFFFFFFFD, witness⟩]
  output :=
    [⟨20000, witnessScript (toBytes 20 0x7dd65592d0ab2fe0d0257d571abf032cd9db93dc)⟩,
      ⟨0, 0x6A :: 0x20 :: toBytes 32 requestId⟩,
      ⟨78160, witnessScript (toBytes 20 0x751e76e8199196d454941c45d1b3a323f1433bd6)⟩]

def sameCoinSignature : List UInt8 :=
  toBytes 4 0x30440220 ++
    toBytes 32 0x22e9c22f9df87f346d24a35c1ec71ea5819128f6e3f47974bc48d7c65bd902f0 ++
    toBytes 2 0x0220 ++
    toBytes 32 0x2f554e66667fee07ff1324886c4dbba493e33314a06b978c70b578d4114b73d0 ++ [1]

def otherCoinSignature : List UInt8 :=
  toBytes 5 0x3045022100 ++
    toBytes 32 0xf77a25f5f3fa6c825953e24c7dc36eebf3456212dd1ee5eb2a75b92a01318758 ++
    toBytes 2 0x0220 ++
    toBytes 32 0x449fc0fafb2cb7a418784119885e54b5fca98c4cc1f309ccbf6ce669ef3762b5 ++ [1]

def twoRequests : Lib String :=
  threeKeys
    [(paymentOf 0 7 [], 0xd9a246478f4ca8dd942ad4abcdc3d640bb4c6692aa3f7b6cb25d35ebb79fe2ba,
        firstSignature),
      (paymentOf 0 8 [], 0xfb1ae25e0ae4fa6ba2a025809a7b28814a0ec8ea3258b9f217347b4d58a79094,
        sameCoinSignature),
      (paymentOf 1 8 [], 0xf20629bdf0dd8486ea04855610b28b63e821eae1861f04a85530540c66dbd5bd,
        otherCoinSignature)]
    [(firstTxid, paymentOf 0 7 [firstSignature, firstPublicKey]),
      (0x1850705435930474056a628aaa86c4ae7bf02a652d1434dfd8da76ea53f3e83a,
        paymentOf 0 8 [sameCoinSignature, firstPublicKey]),
      (0x4c99fa883219178aec63c7b826e03ae8e9af2679616c08770abd881e3961884e,
        paymentOf 1 8 [otherCoinSignature, firstPublicKey])]

/-- The vault `i` of the key 1 is asked to pay for the request `7 + i`. -/
def vaultPayment (i : Nat) : Payment where
  client := ⟨firstKeyLight, i⟩
  address := regtestAddress 0x7dd65592d0ab2fe0d0257d571abf032cd9db93dc
  sat := 20000
  feeRate := 10
  requestId := some (.ofNat 256 (7 + i))

/-- The funding transaction has two outputs for the key 1, which the server lists while they are
unspent. -/
def answer (i : Nat) (w : World Nat) :
    (call : Call) → Option ((api String).Answer call × World Nat)
  | .lockOwned lock => if lock ∈ w.held.map Prod.fst then none else some ((), w.take lock i)
  | .drop lock => some ((), w.drop lock)
  | .electrs (.tx txid) => some (.ok ⟨txid, List.replicate 2
      ⟨witnessScript (toBytes 20 0x751e76e8199196d454941c45d1b3a323f1433bd6),
        some "bcrt1qw508d6qejxtdg4y5r3zarvary0c5xw7kygt080", 100000⟩⟩, w)
  | .electrs (.txHex _) => some (.error "not found", w)
  | .electrs (.addressUtxo _) =>
    some (.ok ([⟨fundingTxid, 0, 100000⟩, ⟨fundingTxid, 1, 100000⟩].filter
      fun utxo => ∀ tx ∈ w.broadcast, ⟨utxo.txid, utxo.vout⟩ ∉ tx.spends), w)
  | .electrs (.scripthashTxsChain _ _) => some (.ok [], w)
  | .electrs (.addressTxsChain _ _) => some (.ok [], w)
  | .electrs (.postTx tx) => some (.ok (twoRequests.txid tx), w.send tx)

/-- A client waits for the locks of all others as well. -/
def answerAlone (i : Nat) (w : World Nat) :
    (call : Call) → Option ((api String).Answer call × World Nat)
  | .lockOwned lock => if w.held = [] then some ((), w.take lock i) else none
  | .drop lock => answer i w (.drop lock)
  | .electrs call => answer i w (.electrs call)

theorem paymentEnv_answer {i : Nat} {w w' : World Nat} {call : (api String).Call}
    {r : (api String).Answer call} (h : answer i w call = some (r, w')) :
    paymentEnv i w call r w' := by
  cases call with
  | lockOwned lock =>
    obtain ⟨hfree, h⟩ := Option.ite_none_left_eq_some.mp h
    cases h
    exact ⟨hfree, rfl⟩
  | drop lock =>
    cases h
    rfl
  | electrs call =>
    cases call with
    | addressUtxo address =>
      cases h
      refine ⟨fun utxos hutxos utxo hutxo => ?_, rfl⟩
      cases hutxos
      have hunspent := of_decide_eq_true (List.mem_filter.mp hutxo).2
      exact hunspent
    | tx txid | txHex txid | scripthashTxsChain scripthash last
    | addressTxsChain address last | postTx tx =>
      cases h
      rfl

theorem lockedEnv_answerAlone {i : Nat} {w w' : World Nat} {call : (api String).Call}
    {r : (api String).Answer call} (h : answerAlone i w call = some (r, w')) :
    lockedEnv String i w call r w' := by
  cases call with
  | lockOwned lock =>
    obtain ⟨hnone, h⟩ := Option.ite_none_right_eq_some.mp h
    cases h
    refine ⟨⟨?_, rfl⟩, ?_⟩
    · rw [hnone]
      exact List.not_mem_nil
    · rw [Meets, hnone]
      exact nofun
  | drop lock => exact ⟨paymentEnv_answer h, trivial⟩
  | electrs call => exact ⟨paymentEnv_answer h, trivial⟩

/-- Each payment is given a number of turns. -/
def moves (turns : List (Nat × Nat)) : List (Nat ⊕ (World Nat → World Nat)) :=
  turns.flatMap fun turn => List.replicate turn.2 (.inl turn.1)

theorem nothingElse_of_moves {turns : List (Nat × Nat)} {move : World Nat → World Nat}
    (h : .inr move ∈ moves turns) (w : World Nat) : NothingElse w (move w) := by
  obtain ⟨turn, -, hmove⟩ := List.mem_flatMap.mp h
  cases List.eq_of_mem_replicate hmove

def payments : Nat → Prog (api String) (Except (Failure (BitcoinError String)) Txid) :=
  fun i => (vaultPayment i).send twoRequests

/-- One payment after the other. -/
abbrev inTurn : (Nat → Prog (api String) (Except (Failure (BitcoinError String)) Txid)) ×
    World Nat :=
  Prog.playPool answerAlone (moves [(0, 5), (1, 5)]) (payments, World.start)

/-- The second payment is funded before the first one is sent. -/
abbrev atOnce : (Nat → Prog (api String) (Except (Failure (BitcoinError String)) Txid)) ×
    World Nat :=
  Prog.playPool answer (moves [(0, 3), (1, 3), (0, 2), (1, 2)]) (payments, World.start)

def twoVaults : List VaultId :=
  [⟨1, ⟨.token .KSM, .token .KBTC⟩⟩, ⟨1, ⟨.token .KINT, .token .KBTC⟩⟩]

end TwoVaults

/-- The payments spend both outputs. -/
theorem noDoubleSpend_of_runs_inTurn :
    inTurn.2.broadcast.map Transaction.spends = [[⟨fundingTxid, 0⟩], [⟨fundingTxid, 1⟩]] ∧
      NoDoubleSpend inTurn.2 :=
  ⟨by decide +kernel, noDoubleSpend_of_runs (Prog.poolRuns_play lockedEnv_answerAlone
    (fun _ hmove => nothingElse_of_moves hmove) payments World.start)⟩

/-- The clients of two vaults of the account, each with its own lock, spend the same output. -/
theorem not_noDoubleSpend_atOnce :
    newClients twoRequests ⟨.regtest, 1⟩ twoVaults =
        .ok [(vaultPayment 0).client, (vaultPayment 1).client] ∧
      Prog.PoolRuns paymentEnv NothingElse (fun i => (vaultPayment i).send twoRequests) World.start
        atOnce.1 atOnce.2 ∧
      atOnce.2.broadcast.map Transaction.spends = [[⟨fundingTxid, 0⟩], [⟨fundingTxid, 0⟩]] ∧
      ¬ NoDoubleSpend atOnce.2 := by
  have hspends : atOnce.2.broadcast.map Transaction.spends =
      [[⟨fundingTxid, 0⟩], [⟨fundingTxid, 0⟩]] := by decide +kernel
  refine ⟨newClients_eq rfl twoVaults, Prog.poolRuns_play paymentEnv_answer
    (fun _ hmove => nothingElse_of_moves hmove) payments World.start, hspends, fun h => ?_⟩
  have hpairs : (atOnce.2.broadcast.map Transaction.spends).Pairwise fun spends spends' =>
      ∀ outpoint ∈ spends, outpoint ∉ spends' := List.pairwise_map.mpr h
  rw [hspends] at hpairs
  exact List.rel_of_pairwise_cons hpairs List.mem_cons_self _ List.mem_cons_self List.mem_cons_self

end InterBtcClients.Bitcoin.CreationLock
