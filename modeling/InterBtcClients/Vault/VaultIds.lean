import InterBtcClients.Library.Loop
import InterBtcClients.Library.Pool
import InterBtcClients.Vault.PastIssues

/-! The derivation key of a client: the public key that it registers, the bitcoin wallets that hold
the private key, one for each vault and a master wallet, and the vaults whose events it processes.
Each is added to these when its wallet has been loaded and has the key. -/

namespace InterBtcClients.Vault.VaultIds

open Library InterBtcClients.Runtime

inductive RuntimeError (E : Type)
  | vaultNotFound
  | vaultLiquidated
  | other (err : E)

inductive Error (E : Type)
  | walletInitializationFailure (err : E)
  | missingPublicKey
  | inner (err : E)

/-- What labels a key in a wallet. -/
inductive Label
  | derivation
  | deposit

/-- The wallet of a vault, or the master wallet. -/
abbrev WalletName := Option VaultId

structure RequestIssueEvent where
  issueId : H256
  vaultId : VaultId
  vaultPublicKey : BtcPublicKey
  vaultAddress : BtcAddress

/-- The functions on keys. -/
structure Lib (E PublicKey PrivateKey Address : Type) where
  fromSlice : BtcPublicKey → Except E PublicKey
  serialize : PublicKey → BtcPublicKey
  p2wpkh : PublicKey → Except E Address
  publicKey : PrivateKey → PublicKey
  calculateDepositSecretKey : PrivateKey → H256 → Except E PrivateKey
  sha256 : (n : Nat) → BitVec n → H256

inductive Call (E PublicKey PrivateKey Address : Type)
  | constructor (vaultId : VaultId)
  | createOrLoadWallet (vaultId : VaultId)
  | getPublicKey
  | registerPublicKey (publicKey : BtcPublicKey)
  | getNewAddress
  | getAddressInfo (address : Address)
  | dumpPrivateKey (wallet : WalletName) (address : Address)
  | importPrivateKey (wallet : WalletName) (privateKey : PrivateKey) (label : Label)
  | fundAccount
  | maybeRegisterVaults
  | getVaultsByAccountId
  | getVault (vaultId : VaultId)
  | pastIssues (call : PastIssues.Call PublicKey)
  | initializeMetrics (vaultId : VaultId)
  | insertVault (vaultId : VaultId)
  | hasVault (vaultId : VaultId)
  | nextRegisterVault
  | nextRequestIssue
  | sendOpened
  | publishExpectedBitcoinBalance (vaultId : VaultId)
  | failedToAddKey (issueId : H256) (err : E)
  | watch (issueId : H256) (address : BtcAddress)

variable {E PublicKey PrivateKey Address : Type}

/-- The calls to the wallets, the parachain, the faucet, the database, the map of the vaults and the
other tasks. -/
@[reducible] def api (E PublicKey PrivateKey Address : Type) : Interface where
  Call := Call E PublicKey PrivateKey Address
  Answer
    | .constructor _ => Except E Unit
    | .createOrLoadWallet _ => Except E Unit
    | .getPublicKey => Except E (Option BtcPublicKey)
    | .registerPublicKey _ => Except E Unit
    | .getNewAddress => Except E Address
    | .getAddressInfo _ => Except E (Option PublicKey)
    | .dumpPrivateKey _ _ => Except E PrivateKey
    | .importPrivateKey _ _ _ => Except E Unit
    | .fundAccount => Except E Unit
    | .maybeRegisterVaults => Except E Unit
    | .getVaultsByAccountId => Except E (List VaultId)
    | .getVault _ => Except (RuntimeError E) Unit
    | .pastIssues call => (PastIssues.api E PublicKey).Answer call
    | .hasVault _ => Bool
    | .nextRegisterVault => Option VaultId
    | .nextRequestIssue => Option RequestIssueEvent
    | _ => Unit

abbrev Client (E PublicKey PrivateKey Address : Type) :=
  Prog (api E PublicKey PrivateKey Address)

abbrev ask (call : Call E PublicKey PrivateKey Address) :
    Client E PublicKey PrivateKey Address ((api E PublicKey PrivateKey Address).Answer call) :=
  Prog.request (api E PublicKey PrivateKey Address) call

abbrev Rpc (E PublicKey PrivateKey Address : Type) :=
  ExceptT E (Client E PublicKey PrivateKey Address)

/-- The errors of the calls are errors of the client. -/
def rpc {A : Type} (p : Rpc E PublicKey PrivateKey Address A) :
    ExceptT (Error E) (Client E PublicKey PrivateKey Address) A :=
  p.adapt .inner

section Program

variable (lib : Lib E PublicKey PrivateKey Address)

/-! ### Bitcoin Core -/

def getNewPublicKey :
    ExceptT (Error E) (Client E PublicKey PrivateKey Address) PublicKey := do
  let address ← rpc (ExceptT.mk (ask .getNewAddress))
  let publicKey ← rpc (ExceptT.mk (ask (.getAddressInfo address)))
  Prog.ofExcept (publicKey.elim (.error .missingPublicKey) .ok)

def dumpDerivationKey (wallet : WalletName) (publicKey : PublicKey) :
    Rpc E PublicKey PrivateKey Address PrivateKey := do
  let address ← Prog.ofExcept (lib.p2wpkh publicKey)
  ExceptT.mk (ask (.dumpPrivateKey wallet address))

def importDerivationKey (wallet : WalletName) (privateKey : PrivateKey) :
    Rpc E PublicKey PrivateKey Address Unit :=
  ExceptT.mk (ask (.importPrivateKey wallet privateKey .derivation))

/-- The `add_new_deposit_key` of a wallet. -/
def importDepositKey (wallet : WalletName) (publicKey : PublicKey) (secretKey : H256) :
    Rpc E PublicKey PrivateKey Address Unit := do
  let privateKey ← dumpDerivationKey lib wallet publicKey
  let depositSecretKey ← Prog.ofExcept (lib.calculateDepositSecretKey privateKey secretKey)
  ExceptT.mk (ask (.importPrivateKey wallet depositSecretKey .deposit))

/-! ### Issues -/

/-- The calls for the past issues of a vault, whose keys are imported to its wallet. -/
def onPastIssues (vaultId : VaultId) :
    (call : PastIssues.Call PublicKey) →
      Client E PublicKey PrivateKey Address ((PastIssues.api E PublicKey).Answer call)
  | .addNewDepositKey publicKey secretKey =>
    ExceptT.run (importDepositKey lib (some vaultId) publicKey secretKey)
  | call => ask (.pastIssues call)

def addKeysFromPastIssueRequest (vaultId : VaultId) (fuel : Nat) :
    Rpc E PublicKey PrivateKey Address (Option Unit) :=
  ExceptT.mk <| (ExceptT.run <| PastIssues.addKeysFromPastIssueRequest lib.fromSlice lib.sha256
    vaultId fuel).interpret (onPastIssues lib vaultId)

def addNewDepositKey (vaultId : VaultId) (secureId : H256) (publicKey : BtcPublicKey) :
    Rpc E PublicKey PrivateKey Address Unit := do
  let (publicKey, secretKey) ←
    Prog.ofExcept (PastIssues.depositKey lib.fromSlice lib.sha256 secureId publicKey)
  importDepositKey lib (some vaultId) publicKey secretKey

/-! ### The vaults -/

/-- The key of a vault that has not migrated is copied to the master wallet. -/
def migrate (vaultId : VaultId) (publicKey : PublicKey) :
    Rpc E PublicKey PrivateKey Address Unit := do
  match ← ExceptT.lift (ExceptT.run (dumpDerivationKey lib (some vaultId) publicKey)) with
  | .ok privateKey => importDerivationKey none privateKey
  | .error _ => return ()

def copyDerivationKey (vaultId : VaultId) (publicKey : PublicKey) :
    Rpc E PublicKey PrivateKey Address Unit := do
  let privateKey ← dumpDerivationKey lib none publicKey
  importDerivationKey (some vaultId) privateKey

def insertVault (vaultId : VaultId) : Client E PublicKey PrivateKey Address Unit := do
  ask (.initializeMetrics vaultId)
  ask (.insertVault vaultId)

/-- The registered key, as a key of bitcoin. -/
def derivationKey : ExceptT (Error E) (Client E PublicKey PrivateKey Address) PublicKey := do
  let derivationKey ← rpc (ExceptT.mk (ask .getPublicKey))
  let derivationKey ← Prog.ofExcept (derivationKey.elim (.error .missingPublicKey) .ok)
  rpc (Prog.ofExcept (lib.fromSlice derivationKey))

/-- `none` is an invocation in which the rescan of past issues has not ended after `fuel` rounds. -/
def addVaultId (fuel : Nat) (vaultId : VaultId) :
    ExceptT (Error E) (Client E PublicKey PrivateKey Address) (Option Unit) := do
  rpc (ExceptT.mk (ask (.constructor vaultId)))
  ExceptT.adapt .walletInitializationFailure (ExceptT.mk (ask (.createOrLoadWallet vaultId)))
  let publicKey ← derivationKey lib
  rpc (migrate lib vaultId publicKey)
  rpc (copyDerivationKey lib vaultId publicKey)
  match ← rpc (addKeysFromPastIssueRequest lib vaultId fuel) with
  | none => return none
  | some () => do
    ExceptT.lift (insertVault vaultId)
    return some ()

/-- A vault that is liquidated is left out. -/
def fetchVaultId (fuel : Nat) (vaultId : VaultId) :
    ExceptT (Error E) (Client E PublicKey PrivateKey Address) (Option Unit) := do
  match ← ExceptT.lift (ask (.getVault vaultId)) with
  | .error .vaultLiquidated => return some ()
  | .error (.other err) => throw (.inner err)
  | _ => addVaultId lib fuel vaultId

def fetchEach (fuel : Nat) :
    List VaultId → ExceptT (Error E) (Client E PublicKey PrivateKey Address) (Option Unit)
  | [] => return some ()
  | vaultId :: vaultIds => do
    match ← fetchVaultId lib fuel vaultId with
    | none => return none
    | some () => fetchEach fuel vaultIds

def fetchVaultIds (fuel : Nat) :
    ExceptT (Error E) (Client E PublicKey PrivateKey Address) (Option Unit) := do
  let vaultIds ← rpc (ExceptT.mk (ask .getVaultsByAccountId))
  fetchEach lib fuel vaultIds

def registerPublicKey :
    Option BtcPublicKey → ExceptT (Error E) (Client E PublicKey PrivateKey Address) Unit
  | some _ => return ()
  | none => do
    let publicKey ← getNewPublicKey
    rpc (ExceptT.mk (ask (.registerPublicKey (lib.serialize publicKey))))

def maybeRegisterPublicKey (faucet : Bool) :
    ExceptT (Error E) (Client E PublicKey PrivateKey Address) Unit := do
  if faucet then rpc (ExceptT.mk (ask .fundAccount))
  registerPublicKey lib (← rpc (ExceptT.mk (ask .getPublicKey)))

/-- The part of `run_service` that registers the client and adds its vaults. -/
def startup (faucet : Bool) (fuel : Nat) :
    ExceptT (Error E) (Client E PublicKey PrivateKey Address) (Option Unit) := do
  maybeRegisterPublicKey lib faucet
  rpc (ExceptT.mk (ask .maybeRegisterVaults))
  fetchVaultIds lib fuel

/-! ### The listeners -/

def onRegisterVault (accountId : AccountId) (fuel : Nat) (vaultId : VaultId) :
    Client E PublicKey PrivateKey Address Unit := do
  if vaultId.accountId = accountId then
    let _ ← ExceptT.run (addVaultId lib fuel vaultId)

def listenForVaultIdRegistrations (accountId : AccountId) (fuel : Nat) :
    Client E PublicKey PrivateKey Address (Option Unit) :=
  Prog.iterate (fun () => do
    match ← ask .nextRegisterVault with
    | none => return .inr ()
    | some vaultId => do
      onRegisterVault lib accountId fuel vaultId
      return .inl ()) fuel ()

def addKeyForEvent (event : RequestIssueEvent) : Client E PublicKey PrivateKey Address Unit := do
  match ← ExceptT.run (addNewDepositKey lib event.vaultId event.issueId event.vaultPublicKey) with
  | .ok () => return ()
  | .error err => ask (.failedToAddKey event.issueId err)

def onRequestIssue (accountId : AccountId) (event : RequestIssueEvent) :
    Client E PublicKey PrivateKey Address Unit := do
  if event.vaultId.accountId = accountId then
    if ← ask (.hasVault event.vaultId) then
      ask .sendOpened
      ask (.publishExpectedBitcoinBalance event.vaultId)
      addKeyForEvent lib event
      ask (.watch event.issueId event.vaultAddress)
  else
    ask (.watch event.issueId event.vaultAddress)

def listenForIssueRequests (accountId : AccountId) (fuel : Nat) :
    Client E PublicKey PrivateKey Address (Option Unit) :=
  Prog.iterate (fun () => do
    match ← ask .nextRequestIssue with
    | none => return .inr ()
    | some event => do
      onRequestIssue lib accountId event
      return .inl ()) fuel ()

end Program

/-! ### The surroundings -/

/-- The calls of a start-up after which the vaults of the account are noted. -/
inductive Stage
  | registered
  | listed
  deriving DecidableEq

/-- The private keys in each wallet, the registered public key, the vaults of the account and those
that are liquidated, the map of each process, and the errors that listeners have reported; with the
vaults that the account had when a process first got to a stage, which nothing reads. -/
structure World (E PrivateKey : Type) where
  wallet : WalletName → List PrivateKey
  publicKey : Option BtcPublicKey
  vaults : List VaultId
  liquidated : List VaultId
  served : Nat → List VaultId
  reported : List E
  noted : Nat × Stage → Option (List VaultId)

namespace World

def importKey (s : World E PrivateKey) (wallet : WalletName) (privateKey : PrivateKey) :
    World E PrivateKey :=
  { s with wallet := Function.update s.wallet wallet (privateKey :: s.wallet wallet) }

def serve (s : World E PrivateKey) (process : Nat) (vaultId : VaultId) : World E PrivateKey :=
  { s with served := Function.update s.served process (vaultId :: s.served process) }

def register (s : World E PrivateKey) (vaultIds : List VaultId) : World E PrivateKey :=
  { s with vaults := vaultIds ++ s.vaults }

def note (s : World E PrivateKey) (stage : Nat × Stage) : World E PrivateKey :=
  { s with noted := Function.update s.noted stage (some ((s.noted stage).getD s.vaults)) }

end World

/-- The private key is that of the address. -/
def Spends (lib : Lib E PublicKey PrivateKey Address) (privateKey : PrivateKey)
    (address : Address) : Prop :=
  lib.p2wpkh (lib.publicKey privateKey) = .ok address

section Env

variable (lib : Lib E PublicKey PrivateKey Address) (accountId : AccountId) (Unrelated : E → Prop)

/-- A call fails for a reason that is not the absence of a key. -/
def Answers {A : Type} (onOk : A → Prop) : Except E A → Prop
  | .ok a => onOk a
  | .error err => Unrelated err

/-- The answers to the calls for past issues. -/
def Allowed : (call : PastIssues.Call PublicKey) → (PastIssues.api E PublicKey).Answer call → Prop
  | .dbGet, r => Answers Unrelated (fun _ => True) r
  | .dbPut _, r => Answers Unrelated (fun _ => True) r
  | .getVaultIssueRequests, r => Answers Unrelated (fun _ => True) r
  | .addNewDepositKey _ _, _ => True
  | .getBlockCount, r => Answers Unrelated (fun _ => True) r
  | .getPrunedHeight, r => Answers Unrelated (fun _ => True) r
  | .rescanElectrsForAddresses _, r => Answers Unrelated (fun _ => True) r
  | .rescanBlockchain _ _, r => Answers Unrelated (fun _ => True) r
  | .elapsedBelowLimit, _ => True

/-- Any call may fail, also after it has had its effect.  The node finds a key for an address when
it is in the wallet. -/
def env (process : Nat) : Prog.Env (api E PublicKey PrivateKey Address) (World E PrivateKey)
  | s, .constructor _, r, s' => s' = s ∧ Answers Unrelated (fun _ => True) r
  | s, .createOrLoadWallet _, r, s' => s' = s ∧ Answers Unrelated (fun _ => True) r
  | s, .getPublicKey, r, s' => s' = s ∧ Answers Unrelated (· = s.publicKey) r
  | s, .registerPublicKey publicKey, r, s' =>
    (s' = s ∨ s.publicKey = none ∧ s' = { s with publicKey := some publicKey }) ∧
      Answers Unrelated (fun _ => s'.publicKey = some publicKey) r
  | s, .getNewAddress, r, s' =>
    (s' = s ∨ ∃ privateKey, s' = s.importKey none privateKey) ∧
      Answers Unrelated
        (fun address => ∃ privateKey ∈ s'.wallet none, Spends lib privateKey address) r
  | s, .getAddressInfo address, r, s' => s' = s ∧ Answers Unrelated (fun publicKey =>
    (∀ publicKey', publicKey = some publicKey' → lib.p2wpkh publicKey' = .ok address) ∧
      (publicKey = none → ∀ privateKey ∈ s.wallet none, ¬Spends lib privateKey address)) r
  | s, .dumpPrivateKey wallet address, r, s' => s' = s ∧
    (∀ privateKey, r = .ok privateKey →
      privateKey ∈ s.wallet wallet ∧ Spends lib privateKey address) ∧
    ∀ err, r = .error err →
      Unrelated err ∨ ∀ privateKey ∈ s.wallet wallet, ¬Spends lib privateKey address
  | s, .importPrivateKey wallet privateKey _, r, s' =>
    (s' = s ∨ s' = s.importKey wallet privateKey) ∧
      Answers Unrelated (fun _ => s' = s.importKey wallet privateKey) r
  | s, .fundAccount, r, s' => s' = s ∧ Answers Unrelated (fun _ => True) r
  | s, .maybeRegisterVaults, .ok _, s' =>
    ∃ vaultIds, s' = (s.register vaultIds).note (process, .registered)
  | s, .maybeRegisterVaults, .error err, s' =>
    (∃ vaultIds, s' = s.register vaultIds) ∧ Unrelated err
  | s, .getVaultsByAccountId, .ok vaultIds, s' =>
    vaultIds = s.vaults ∧ s' = s.note (process, .listed)
  | s, .getVaultsByAccountId, .error err, s' => s' = s ∧ Unrelated err
  | s, .getVault vaultId, r, s' => s' = s ∧
    (r = .error .vaultLiquidated → vaultId ∈ s.liquidated) ∧
    ∀ err, r = .error (.other err) → Unrelated err
  | s, .pastIssues call, r, s' => s' = s ∧ Allowed Unrelated call r
  | s, .insertVault vaultId, _, s' => s' = s.serve process vaultId
  | s, .hasVault vaultId, r, s' => s' = s ∧ (r = true ↔ vaultId ∈ s.served process)
  | s, .nextRequestIssue, r, s' => s' = s ∧ ∀ event, r = some event →
    event.vaultId.accountId = accountId → s.publicKey = some event.vaultPublicKey
  | s, .failedToAddKey _ err, _, s' => s' = { s with reported := err :: s.reported }
  | s, _, _, s' => s' = s

/-- What else happens: a key is imported by hand, a vault is registered, a vault is liquidated. -/
inductive Other (s : World E PrivateKey) : World E PrivateKey → Prop
  | importKey (wallet : WalletName) (privateKey : PrivateKey) :
      Other s (s.importKey wallet privateKey)
  | register (vaultId : VaultId) : Other s (s.register [vaultId])
  | liquidate (vaultId : VaultId) : Other s { s with liquidated := vaultId :: s.liquidated }

/-- The wallet has the private key. -/
def Holds (s : World E PrivateKey) (wallet : WalletName) (publicKey : PublicKey) : Prop :=
  ∃ address, lib.p2wpkh publicKey = .ok address ∧
    ∃ privateKey ∈ s.wallet wallet, Spends lib privateKey address

/-- The public key is the registered one. -/
def Registered (s : World E PrivateKey) (publicKey : PublicKey) : Prop :=
  ∃ slice, s.publicKey = some slice ∧ lib.fromSlice slice = .ok publicKey

/-- The wallet of the vault and the master wallet have the derivation key. -/
def Custody (s : World E PrivateKey) (vaultId : VaultId) : Prop :=
  ∃ publicKey, Registered lib s publicKey ∧ Holds lib s (some vaultId) publicKey ∧
    Holds lib s none publicKey

/-- There is a derivation key, and the master wallet has it. -/
def Mastered (s : World E PrivateKey) : Prop :=
  ∃ publicKey, Registered lib s publicKey ∧ Holds lib s none publicKey

/-- The master wallet has the derivation key, if there is one. -/
def Keyed (s : World E PrivateKey) : Prop :=
  ∀ slice, s.publicKey = some slice →
    ∃ publicKey, lib.fromSlice slice = .ok publicKey ∧ Holds lib s none publicKey

/-- The error of a function on keys. -/
def Malformed (err : E) : Prop :=
  (∃ publicKey, lib.fromSlice publicKey = .error err) ∨
    (∃ publicKey, lib.p2wpkh publicKey = .error err) ∨
    ∃ privateKey secretKey, lib.calculateDepositSecretKey privateKey secretKey = .error err

structure Inv (K : Prop) (s : World E PrivateKey) : Prop where
  served : ∀ process vaultId, vaultId ∈ s.served process → Custody lib s vaultId
  reported : ∀ err ∈ s.reported, Unrelated err ∨ Malformed lib err
  keyed : K → Keyed lib s
  noted : ∀ stage vaultIds, s.noted stage = some vaultIds → vaultIds ⊆ s.vaults

/-- Nothing is lost. -/
structure Grows (s s' : World E PrivateKey) : Prop where
  wallet : ∀ wallet, s.wallet wallet ⊆ s'.wallet wallet
  publicKey : ∀ publicKey, s.publicKey = some publicKey → s'.publicKey = some publicKey
  vaults : s.vaults ⊆ s'.vaults
  liquidated : s.liquidated ⊆ s'.liquidated
  served : ∀ process, s.served process ⊆ s'.served process
  noted : ∀ stage vaultIds, s.noted stage = some vaultIds → s'.noted stage = some vaultIds

/-- A step of a program, and what it relies on. -/
def Step (K : Prop) (s s' : World E PrivateKey) : Prop :=
  Grows s s' ∧ (Inv lib Unrelated K s → Inv lib Unrelated K s')

end Env

section Steps

variable {lib : Lib E PublicKey PrivateKey Address} {accountId : AccountId} {Unrelated : E → Prop}
variable {K : Prop} {process : Nat} {s s' s'' : World E PrivateKey} {wallet : WalletName}
variable {publicKey : PublicKey} {vaultId : VaultId}

theorem Grows.refl (s : World E PrivateKey) : Grows s s :=
  ⟨fun _ => List.Subset.refl _, fun _ h => h, List.Subset.refl _, List.Subset.refl _,
    fun _ => List.Subset.refl _, fun _ _ h => h⟩

theorem Grows.trans (h : Grows s s') (h' : Grows s' s'') : Grows s s'' :=
  ⟨fun wallet => List.Subset.trans (h.wallet wallet) (h'.wallet wallet),
    fun publicKey hkey => h'.publicKey publicKey (h.publicKey publicKey hkey),
    List.Subset.trans h.vaults h'.vaults, List.Subset.trans h.liquidated h'.liquidated,
    fun process => List.Subset.trans (h.served process) (h'.served process),
    fun stage vaultIds hnoted => h'.noted stage vaultIds (h.noted stage vaultIds hnoted)⟩

theorem grows_importKey (wallet : WalletName) (privateKey : PrivateKey) :
    Grows s (s.importKey wallet privateKey) := by
  refine ⟨fun wallet' => ?_, fun _ h => h, List.Subset.refl _, List.Subset.refl _,
    fun _ => List.Subset.refl _, fun _ _ h => h⟩
  by_cases hwallet : wallet' = wallet
  · subst hwallet
    simp [World.importKey]
  · simp [World.importKey, hwallet]

theorem grows_serve : Grows s (s.serve process vaultId) := by
  refine ⟨fun _ => List.Subset.refl _, fun _ h => h, List.Subset.refl _, List.Subset.refl _,
    fun process' => ?_, fun _ _ h => h⟩
  by_cases hprocess : process' = process
  · subst hprocess
    simp [World.serve]
  · simp [World.serve, hprocess]

theorem grows_register {vaultIds : List VaultId} : Grows s (s.register vaultIds) :=
  ⟨fun _ => List.Subset.refl _, fun _ h => h, List.subset_append_right _ _, List.Subset.refl _,
    fun _ => List.Subset.refl _, fun _ _ h => h⟩

theorem grows_note {stage : Nat × Stage} : Grows s (s.note stage) := by
  refine ⟨fun _ => List.Subset.refl _, fun _ h => h, List.Subset.refl _, List.Subset.refl _,
    fun _ => List.Subset.refl _, fun stage' vaultIds h => ?_⟩
  by_cases hstage : stage' = stage
  · subst hstage
    simp [World.note, h]
  · simpa [World.note, hstage] using h

theorem Holds.grows (h : Holds lib s wallet publicKey) (hgrows : Grows s s') :
    Holds lib s' wallet publicKey := by
  obtain ⟨address, haddress, privateKey, hmem, hspends⟩ := h
  exact ⟨address, haddress, privateKey, hgrows.wallet wallet hmem, hspends⟩

theorem Registered.grows (h : Registered lib s publicKey) (hgrows : Grows s s') :
    Registered lib s' publicKey := by
  obtain ⟨slice, hslice, hkey⟩ := h
  exact ⟨slice, hgrows.publicKey slice hslice, hkey⟩

theorem Custody.grows (h : Custody lib s vaultId) (hgrows : Grows s s') :
    Custody lib s' vaultId := by
  obtain ⟨publicKey, hregistered, hvault, hmaster⟩ := h
  exact ⟨publicKey, hregistered.grows hgrows, hvault.grows hgrows, hmaster.grows hgrows⟩

theorem Mastered.grows (h : Mastered lib s) (hgrows : Grows s s') : Mastered lib s' := by
  obtain ⟨publicKey, hregistered, hholds⟩ := h
  exact ⟨publicKey, hregistered.grows hgrows, hholds.grows hgrows⟩

theorem Registered.unique {publicKey' : PublicKey} (h : Registered lib s publicKey)
    (h' : Registered lib s publicKey') : publicKey = publicKey' := by
  obtain ⟨slice, hslice, hkey⟩ := h
  obtain ⟨slice', hslice', hkey'⟩ := h'
  rw [hslice] at hslice'
  cases hslice'
  rw [hkey] at hkey'
  exact Except.ok.inj hkey'

theorem Mastered.holds (h : Mastered lib s) (hregistered : Registered lib s publicKey) :
    Holds lib s none publicKey := by
  obtain ⟨publicKey', hregistered', hholds⟩ := h
  exact hregistered.unique hregistered' ▸ hholds

theorem Mastered.publicKey_ne_none (h : Mastered lib s) : s.publicKey ≠ none := by
  obtain ⟨publicKey, ⟨slice, hslice, -⟩, -⟩ := h
  rw [hslice]
  exact Option.some_ne_none _

/-- A step that registers no key, serves and reports nothing, and notes no vault that the account
does not have. -/
theorem Inv.grows (h : Inv lib Unrelated K s) (hgrows : Grows s s')
    (hkey : s'.publicKey = s.publicKey) (hserved : s'.served = s.served)
    (hreported : s'.reported = s.reported)
    (hnoted : ∀ stage vaultIds, s'.noted stage = some vaultIds →
      s.noted stage = some vaultIds ∨ vaultIds ⊆ s.vaults) : Inv lib Unrelated K s' := by
  refine ⟨fun process vaultId hmem => ?_, hreported ▸ h.reported, fun hK slice hslice => ?_,
    fun stage vaultIds hvaultIds => ?_⟩
  · rw [hserved] at hmem
    exact (h.served process vaultId hmem).grows hgrows
  · rw [hkey] at hslice
    obtain ⟨publicKey, hpublicKey, hholds⟩ := h.keyed hK slice hslice
    exact ⟨publicKey, hpublicKey, hholds.grows hgrows⟩
  · rcases hnoted stage vaultIds hvaultIds with hvaultIds | hsubset
    · exact List.Subset.trans (h.noted stage vaultIds hvaultIds) hgrows.vaults
    · exact List.Subset.trans hsubset hgrows.vaults

theorem Step.refl (s : World E PrivateKey) : Step lib Unrelated K s s := ⟨Grows.refl s, id⟩

theorem Step.trans (h : Step lib Unrelated K s s') (h' : Step lib Unrelated K s' s'') :
    Step lib Unrelated K s s'' :=
  ⟨h.1.trans h'.1, fun hs => h'.2 (h.2 hs)⟩

theorem step_of_grows (hgrows : Grows s s') (hkey : s'.publicKey = s.publicKey)
    (hserved : s'.served = s.served) (hreported : s'.reported = s.reported)
    (hnoted : s'.noted = s.noted) : Step lib Unrelated K s s' :=
  ⟨hgrows, fun h => h.grows hgrows hkey hserved hreported fun _ _ hvaultIds =>
    .inl (hnoted ▸ hvaultIds)⟩

theorem step_importKey (wallet : WalletName) (privateKey : PrivateKey) :
    Step lib Unrelated K s (s.importKey wallet privateKey) :=
  step_of_grows (grows_importKey wallet privateKey) rfl rfl rfl rfl

theorem step_register {vaultIds : List VaultId} : Step lib Unrelated K s (s.register vaultIds) :=
  step_of_grows grows_register rfl rfl rfl rfl

theorem step_note {stage : Nat × Stage} : Step lib Unrelated K s (s.note stage) := by
  refine ⟨grows_note, fun h => h.grows grows_note rfl rfl rfl fun stage' vaultIds hvaultIds => ?_⟩
  by_cases hstage : stage' = stage
  · subst hstage
    cases hnoted : s.noted stage' with
    | none => exact .inr (by simp_all [World.note])
    | some vaultIds' => exact .inl (by simpa [World.note, hnoted] using hvaultIds)
  · exact .inl (by simpa [World.note, hstage] using hvaultIds)

/-- What is noted of a stage that has been reached is among the vaults of the account. -/
theorem Inv.note {stage : Nat × Stage} (h : Inv lib Unrelated K s) :
    ∃ vaultIds, (s.note stage).noted stage = some vaultIds ∧ vaultIds ⊆ s.vaults := by
  refine ⟨_, Function.update_self .., ?_⟩
  cases hnoted : s.noted stage with
  | none => exact List.Subset.refl _
  | some vaultIds => exact h.noted stage vaultIds hnoted

theorem step_other (h : Other s s') : Step lib Unrelated K s s' := by
  cases h with
  | importKey wallet privateKey => exact step_importKey wallet privateKey
  | register vaultId => exact step_register
  | liquidate vaultId =>
    exact step_of_grows ⟨fun _ => List.Subset.refl _, fun _ h => h, List.Subset.refl _,
      List.subset_cons_self _ _, fun _ => List.Subset.refl _, fun _ _ h => h⟩ rfl rfl rfl rfl

/-- A call that registers, serves and reports nothing. -/
def Quiet : Call E PublicKey PrivateKey Address → Prop
  | .registerPublicKey _ => False
  | .insertVault _ => False
  | .failedToAddKey _ _ => False
  | _ => True

theorem step_of_env {c : Call E PublicKey PrivateKey Address}
    {r : (api E PublicKey PrivateKey Address).Answer c} (hc : Quiet c)
    (hr : env lib accountId Unrelated process s c r s') : Step lib Unrelated K s s' := by
  cases c with
  | registerPublicKey slice => exact hc.elim
  | insertVault vaultId => exact hc.elim
  | failedToAddKey issueId err => exact hc.elim
  | getNewAddress =>
    obtain ⟨rfl | ⟨privateKey, rfl⟩, -⟩ := hr
    · exact Step.refl _
    · exact step_importKey none privateKey
  | importPrivateKey wallet privateKey label =>
    obtain ⟨rfl | rfl, -⟩ := hr
    · exact Step.refl _
    · exact step_importKey wallet privateKey
  | maybeRegisterVaults =>
    cases r with
    | ok _ =>
      obtain ⟨vaultIds, rfl⟩ := hr
      exact step_register.trans step_note
    | error err =>
      obtain ⟨⟨vaultIds, rfl⟩, -⟩ := hr
      exact step_register
  | getVaultsByAccountId =>
    cases r with
    | ok vaultIds =>
      obtain ⟨-, rfl⟩ := hr
      exact step_note
    | error err =>
      obtain ⟨rfl, -⟩ := hr
      exact Step.refl _
  | initializeMetrics vaultId =>
    cases hr
    exact Step.refl _
  | nextRegisterVault =>
    cases hr
    exact Step.refl _
  | sendOpened =>
    cases hr
    exact Step.refl _
  | publishExpectedBitcoinBalance vaultId =>
    cases hr
    exact Step.refl _
  | watch issueId address =>
    cases hr
    exact Step.refl _
  | _ =>
    obtain ⟨rfl, -⟩ := hr
    exact Step.refl _

end Steps

/-! ### The programs -/

section Programs

variable (lib : Lib E PublicKey PrivateKey Address) (accountId : AccountId) (Unrelated : E → Prop)
variable (K : Prop) (process : Nat)

/-- What a program guarantees when the others do the same. -/
abbrev Meets {A : Type} (p : Client E PublicKey PrivateKey Address A)
    (Q : A → World E PrivateKey → Prop) (s₁ s : World E PrivateKey) : Prop :=
  Prog.Guarantees (env lib accountId Unrelated process) (Step lib Unrelated K)
    (Step lib Unrelated K) p Q s₁ s

/-- An error that is not about a missing key. -/
def Explained (err : E) : Prop := Unrelated err ∨ Malformed lib err

def ExplainedError : Error E → Prop
  | .walletInitializationFailure err => Unrelated err
  | .missingPublicKey => False
  | .inner err => Explained lib Unrelated err

variable {lib accountId Unrelated K process}
variable {s₁ s : World E PrivateKey} {wallet : WalletName} {publicKey : PublicKey}
variable {vaultId : VaultId}
variable {A B : Type} {T : Prop}

theorem meets_ask {c : Call E PublicKey PrivateKey Address}
    {Q : (api E PublicKey PrivateKey Address).Answer c → World E PrivateKey → Prop} (hc : Quiet c)
    (hG : Step lib Unrelated K s₁ s)
    (hQ : ∀ s' r s'', Grows s s' → env lib accountId Unrelated process s' c r s'' →
      Grows s' s'' → Q r s'') :
    Meets lib accountId Unrelated K process (ask c) Q s₁ s :=
  Prog.guarantees_request hG fun s' r s'' hR hr =>
    have hstep := step_of_env hc hr
    ⟨hstep, hQ s' r s'' hR.1 hr hstep.1⟩

theorem meets_rpc {p : Rpc E PublicKey PrivateKey Address A} {Q : A → World E PrivateKey → Prop}
    (h : Meets lib accountId Unrelated K process p.run
      (Prog.Outcome Q fun err _ => T → Explained lib Unrelated err) s₁ s) :
    Meets lib accountId Unrelated K process (rpc p).run
      (Prog.Outcome Q fun err _ => T → ExplainedError lib Unrelated err) s₁ s :=
  Prog.keeps_run_adapt.mpr (h.mono fun r _ _ hr => by cases r <;> exact hr)

theorem meets_ofExcept {x : Except E A} {Q : A → World E PrivateKey → Prop}
    (hG : Step lib Unrelated K s₁ s) (hok : ∀ a, x = .ok a → Q a s)
    (herror : ∀ err, x = .error err → Malformed lib err) :
    Meets lib accountId Unrelated K process
      (ExceptT.run (Prog.ofExcept x : Rpc E PublicKey PrivateKey Address A))
      (Prog.Outcome Q fun err _ => T → Explained lib Unrelated err) s₁ s :=
  Prog.keeps_run_ofExcept.mpr ⟨hG, .intro hok fun err herr _ => .inr (herror err herr)⟩

theorem meets_dumpDerivationKey (hG : Step lib Unrelated K s₁ s)
    (hkey : T → Holds lib s wallet publicKey) :
    Meets lib accountId Unrelated K process (dumpDerivationKey lib wallet publicKey).run
      (Prog.Outcome (fun privateKey s => ∃ address, lib.p2wpkh publicKey = .ok address ∧
          privateKey ∈ s.wallet wallet ∧ Spends lib privateKey address)
        fun err _ => T → Explained lib Unrelated err) s₁ s := by
  refine Prog.guarantees_run_seq (P := fun address s => lib.p2wpkh publicKey = .ok address ∧
    (T → Holds lib s wallet publicKey)) ?_ fun address s₁ s hG haddress => ?_
  · exact meets_ofExcept hG (fun address haddress => ⟨haddress, hkey⟩)
      fun err herr => .inr (.inl ⟨_, herr⟩)
  · obtain ⟨haddress, hkey⟩ := haddress
    refine meets_ask trivial hG fun s' r s'' hgrows hr _ => ?_
    obtain ⟨rfl, hok, herror⟩ := hr
    refine .intro (fun privateKey hr => ⟨address, haddress, hok privateKey hr⟩) fun err hr hT => ?_
    rcases herror err hr with hunrelated | hnone
    · exact .inl hunrelated
    · obtain ⟨address', haddress', privateKey, hmem, hspends⟩ := (hkey hT).grows hgrows
      rw [haddress] at haddress'
      cases haddress'
      exact absurd hspends (hnone privateKey hmem)

/-- What steps leave still holds at the end. -/
theorem Meets.steps {p : ExceptT A (Client E PublicKey PrivateKey Address) B}
    {Q : B → World E PrivateKey → Prop} {R : A → World E PrivateKey → Prop}
    {J : World E PrivateKey → Prop}
    (h : Meets lib accountId Unrelated K process p.run (Prog.Outcome Q R) s₁ s)
    (hJ : ∀ s s', Step lib Unrelated K s s' → J s → J s') (hs : J s) :
    Meets lib accountId Unrelated K process p.run
      (Prog.Outcome (fun b s => Q b s ∧ J s) R) s₁ s :=
  (Prog.Guarantees.frame h hJ hJ hs).mono fun _ _ _ hr =>
    hr.1.imp (fun _ hb => ⟨hb, hr.2⟩) fun _ he => he

/-- What only grows still holds at the end. -/
theorem Meets.frame {p : ExceptT A (Client E PublicKey PrivateKey Address) B}
    {Q : B → World E PrivateKey → Prop} {R : A → World E PrivateKey → Prop}
    {J : World E PrivateKey → Prop}
    (h : Meets lib accountId Unrelated K process p.run (Prog.Outcome Q R) s₁ s)
    (hJ : ∀ s s', Grows s s' → J s → J s') (hs : J s) :
    Meets lib accountId Unrelated K process p.run
      (Prog.Outcome (fun b s => Q b s ∧ J s) R) s₁ s :=
  Meets.steps h (fun s s' hstep => hJ s s' hstep.1) hs

theorem meets_importPrivateKey (privateKey : PrivateKey) (label : Label)
    (hG : Step lib Unrelated K s₁ s) :
    Meets lib accountId Unrelated K process
      (ExceptT.run (ExceptT.mk (ask (.importPrivateKey wallet privateKey label))))
      (Prog.Outcome (fun _ s => privateKey ∈ s.wallet wallet)
        fun err _ => T → Explained lib Unrelated err) s₁ s := by
  refine meets_ask trivial hG fun s' r s'' _ hr _ => ?_
  obtain ⟨-, hanswers⟩ := hr
  cases r with
  | ok _ =>
    dsimp only [Prog.Outcome]
    rw [show s'' = s'.importKey wallet privateKey from hanswers]
    simp [World.importKey]
  | error err => exact fun _ => .inl hanswers

theorem meets_importDerivationKey {address : Address} {privateKey : PrivateKey}
    (haddress : lib.p2wpkh publicKey = .ok address) (hspends : Spends lib privateKey address)
    (hG : Step lib Unrelated K s₁ s) :
    Meets lib accountId Unrelated K process (importDerivationKey wallet privateKey).run
      (Prog.Outcome (fun _ s => Holds lib s wallet publicKey)
        fun err _ => T → Explained lib Unrelated err) s₁ s :=
  (meets_importPrivateKey privateKey .derivation hG).mono fun _ _ _ hr =>
    hr.imp (fun _ hmem => ⟨address, haddress, privateKey, hmem, hspends⟩) fun _ h => h

theorem meets_migrate (hG : Step lib Unrelated K s₁ s) :
    Meets lib accountId Unrelated K process (migrate lib vaultId publicKey).run
      (Prog.Outcome (fun _ _ => True) fun err _ => T → Explained lib Unrelated err) s₁ s := by
  refine Prog.keeps_run_bind.mpr (Prog.keeps_run_lift.mpr ?_)
  refine (meets_dumpDerivationKey (T := False) hG False.elim).mono fun r x hG hr => ?_
  cases r with
  | ok privateKey =>
    obtain ⟨address, haddress, -, hspends⟩ := hr
    exact (meets_importDerivationKey haddress hspends hG).mono fun _ _ _ hr =>
      hr.imp (fun _ _ => trivial) fun _ h => h
  | error err => exact ⟨hG, trivial⟩

theorem meets_copyDerivationKey (hG : Step lib Unrelated K s₁ s)
    (hkey : T → Holds lib s none publicKey) :
    Meets lib accountId Unrelated K process (copyDerivationKey lib vaultId publicKey).run
      (Prog.Outcome
        (fun _ s => Holds lib s (some vaultId) publicKey ∧ Holds lib s none publicKey)
        fun err _ => T → Explained lib Unrelated err) s₁ s := by
  refine Prog.guarantees_run_seq (meets_dumpDerivationKey hG hkey)
    fun privateKey s₁ s hG hprivateKey => ?_
  obtain ⟨address, haddress, hmem, hspends⟩ := hprivateKey
  have hholds : Holds lib s none publicKey := ⟨address, haddress, privateKey, hmem, hspends⟩
  exact (meets_importDerivationKey haddress hspends hG).frame (fun _ _ hgrows h => h.grows hgrows)
    hholds

theorem meets_importDepositKey {secretKey : H256} (hG : Step lib Unrelated K s₁ s)
    (hkey : T → Holds lib s wallet publicKey) :
    Meets lib accountId Unrelated K process (importDepositKey lib wallet publicKey secretKey).run
      (Prog.Outcome (fun _ _ => True) fun err _ => T → Explained lib Unrelated err) s₁ s := by
  refine Prog.guarantees_run_seq (meets_dumpDerivationKey hG hkey) fun privateKey s₁ s hG _ => ?_
  refine Prog.guarantees_run_seq (P := fun _ _ => True) ?_ fun depositSecretKey s₁ s hG _ => ?_
  · exact meets_ofExcept hG (fun _ _ => trivial) fun err herr => .inr (.inr ⟨_, _, herr⟩)
  · exact (meets_importPrivateKey depositSecretKey .deposit hG).mono fun _ _ _ hr =>
      hr.imp (fun _ _ => trivial) fun _ h => h

end Programs

/-! #### Past issues -/

section PastIssues

variable {lib : Lib E PublicKey PrivateKey Address} {Unrelated : E → Prop} {A : Type}

variable (Unrelated) in
/-- When the calls are answered as allowed, the errors of the program are those of the answers. -/
abbrev Relays (p : PastIssues.Rpc E PublicKey A) : Prop :=
  Prog.Keeps (Prog.answered (Allowed Unrelated)) (fun _ => True) p.run
    (Prog.Outcome (fun _ _ => True) fun err _ => Unrelated err) ()

theorem outcome_of_answers {r : Except E A} (h : Answers Unrelated (fun _ => True) r) :
    Prog.Outcome (fun _ _ => True) (fun err _ => Unrelated err) r () := by
  cases r with
  | ok a => trivial
  | error err => exact h

theorem relays_store (status : RescanStatus) :
    Relays Unrelated (PastIssues.store status : PastIssues.Rpc E PublicKey Unit) :=
  ⟨trivial, fun _ _ hr => ⟨trivial, outcome_of_answers hr⟩⟩

theorem relays_scanPruned (issueRequests : List PastIssues.Issue) (btcPrunedStartHeight : Nat)
    (unscannable : Option (Nat × Nat)) :
    Relays Unrelated (PastIssues.scanPruned issueRequests btcPrunedStartHeight unscannable :
      PastIssues.Rpc E PublicKey Unit) := by
  cases unscannable with
  | none => exact ⟨trivial, trivial⟩
  | some range => exact ⟨trivial, fun _ _ hr => ⟨trivial, outcome_of_answers hr⟩⟩

theorem relays_scanChunk (x : Nat × RescanStatus) :
    Relays Unrelated (PastIssues.scanChunk x : PastIssues.Rpc E PublicKey _) := by
  obtain ⟨chunkSize, status⟩ := x
  simp only [PastIssues.scanChunk]
  split
  · exact ⟨trivial, trivial⟩
  · refine Prog.keeps_run_seq (P := fun _ _ => True)
      ⟨trivial, fun _ _ hr => ⟨trivial, outcome_of_answers hr⟩⟩ fun _ _ _ _ => ?_
    refine Prog.keeps_run_seq (P := fun _ _ => True) ?_ fun fast _ _ _ => ?_
    · exact Prog.keeps_run_lift.mpr ⟨trivial, fun _ _ _ => ⟨trivial, trivial⟩⟩
    · exact Prog.keeps_run_seq (relays_store _) fun _ _ _ _ => ⟨trivial, trivial⟩

theorem relays_addKeysFromPastIssueRequest (vaultId : VaultId) (fuel : Nat) :
    Relays Unrelated
      (PastIssues.addKeysFromPastIssueRequest lib.fromSlice lib.sha256 vaultId fuel) := by
  refine Prog.keeps_run_seq (P := fun _ _ => True) ?_ fun status _ _ _ => ?_
  · exact Prog.keeps_run_seq (P := fun _ _ => True)
      ⟨trivial, fun _ _ hr => ⟨trivial, outcome_of_answers hr⟩⟩ fun _ _ _ _ => ⟨trivial, trivial⟩
  refine Prog.keeps_run_seq (P := fun _ _ => True)
    ⟨trivial, fun _ _ hr => ⟨trivial, outcome_of_answers hr⟩⟩ fun issues _ _ _ => ?_
  refine Prog.keeps_run_seq (P := fun _ _ => True)
    (Prog.keeps_run_lift.mpr
      (Prog.keeps_of_forall (fun _ => trivial) (fun _ _ => trivial) _)) fun _ _ _ _ => ?_
  refine Prog.keeps_run_seq (P := fun _ _ => True)
    ⟨trivial, fun _ _ hr => ⟨trivial, outcome_of_answers hr⟩⟩ fun btcEndHeight _ _ _ => ?_
  refine Prog.keeps_run_seq (P := fun _ _ => True)
    ⟨trivial, fun _ _ hr => ⟨trivial, outcome_of_answers hr⟩⟩ fun btcPrunedStartHeight _ _ _ => ?_
  refine Prog.keeps_run_seq (relays_scanPruned _ _ _) fun _ _ _ _ => ?_
  refine Prog.keeps_run_seq (relays_store _) fun _ _ _ _ => ?_
  refine Prog.keeps_run_iterate (fun _ _ => True) (fun x _ _ => ?_) (fun _ _ _ => trivial) fuel
    trivial
  exact (relays_scanChunk x).mono fun r _ _ hr => by rcases r with err | _ | _ <;> exact hr

end PastIssues

/-! #### The vaults -/

section Vaults

variable {lib : Lib E PublicKey PrivateKey Address} {accountId : AccountId} {Unrelated : E → Prop}
variable {K T : Prop} {process : Nat} {s₁ s : World E PrivateKey} {publicKey : PublicKey}
variable {vaultId : VaultId} {A : Type}

theorem meets_addKeysFromPastIssueRequest (fuel : Nat) (hG : Step lib Unrelated K s₁ s) :
    Meets lib accountId Unrelated K process (addKeysFromPastIssueRequest lib vaultId fuel).run
      (Prog.Outcome (fun _ _ => True) fun err _ => T → Explained lib Unrelated err) s₁ s := by
  have hrelays : Prog.Keeps (Prog.answered (Allowed Unrelated)) (fun _ => True)
      (PastIssues.addKeysFromPastIssueRequest lib.fromSlice lib.sha256 vaultId fuel).run
      (fun r _ => Prog.FailsWith Unrelated r) () :=
    (relays_addKeysFromPastIssueRequest vaultId fuel).mono fun r _ _ hr => by
      cases r with
      | ok _ => exact Prog.failsWith_ok _
      | error err => exact Prog.failsWith_error hr
  refine (Prog.guarantees_interpret (J := fun _ => True) hrelays (fun c s₁ s hG _ => ?_) hG
    trivial).mono fun r _ _ hr => .intro (fun _ _ => trivial) fun err herr _ => .inl (hr.1 err herr)
  cases c with
  | addNewDepositKey publicKey secretKey =>
    exact (meets_importDepositKey (T := False) hG False.elim).mono fun _ _ _ _ => ⟨trivial, trivial⟩
  | _ => exact meets_ask trivial hG fun _ _ _ _ hr _ => ⟨hr.2, trivial⟩

theorem meets_getPublicKey (hG : Step lib Unrelated K s₁ s) :
    Meets lib accountId Unrelated K process (rpc (ExceptT.mk (ask .getPublicKey))).run
      (Prog.Outcome
        (fun slice s' => (∀ slice', slice = some slice' → s'.publicKey = some slice') ∧
          (s.publicKey ≠ none → slice ≠ none))
        fun err _ => T → ExplainedError lib Unrelated err) s₁ s := by
  refine meets_rpc (meets_ask trivial hG fun s' r s'' hgrows hr _ => ?_)
  obtain ⟨rfl, hanswers⟩ := hr
  cases r with
  | error err => exact fun _ => .inl hanswers
  | ok slice =>
    cases hanswers
    refine ⟨fun slice' h => h, fun hne hnone => ?_⟩
    obtain ⟨slice, hslice⟩ := Option.ne_none_iff_exists'.mp hne
    rw [hgrows.publicKey slice hslice] at hnone
    cases hnone

theorem meets_derivationKey (hG : Step lib Unrelated K s₁ s)
    (hkey : T → s.publicKey ≠ none) :
    Meets lib accountId Unrelated K process (derivationKey lib).run
      (Prog.Outcome (fun publicKey s => Registered lib s publicKey)
        fun err _ => T → ExplainedError lib Unrelated err) s₁ s := by
  refine Prog.guarantees_run_seq (meets_getPublicKey hG) fun slice s₁ s' hG hslice => ?_
  obtain ⟨hslice, hnone⟩ := hslice
  cases slice with
  | none =>
    exact Prog.keeps_run_bind.mpr ⟨hG, fun hT => hnone (hkey hT) rfl⟩
  | some slice =>
    refine Prog.keeps_run_bind.mpr ⟨hG, ?_⟩
    refine meets_rpc (meets_ofExcept hG (fun publicKey hpublicKey => ?_) fun err herr => ?_)
    · exact ⟨slice, hslice slice rfl, hpublicKey⟩
    · exact .inl ⟨slice, herr⟩

theorem meets_insertVault (hG : Step lib Unrelated K s₁ s) (hcustody : Custody lib s vaultId) :
    Meets lib accountId Unrelated K process (insertVault vaultId)
      (fun _ s => vaultId ∈ s.served process) s₁ s := by
  refine Prog.guarantees_bind (P := fun _ s => Custody lib s vaultId)
    (meets_ask trivial hG fun _ _ _ hgrows _ hgrows' => (hcustody.grows hgrows).grows hgrows')
    fun _ s₁ s hG hcustody => ?_
  refine Prog.guarantees_request hG fun s' r s'' hR hr => ?_
  cases hr
  have hcustody : Custody lib (s'.serve process vaultId) vaultId :=
    (hcustody.grows hR.1).grows grows_serve
  refine ⟨⟨grows_serve, fun hs' => ⟨fun process' vaultId' hmem => ?_, hs'.reported, hs'.keyed,
    hs'.noted⟩⟩, ?_⟩
  · by_cases hprocess : process' = process
    · subst hprocess
      rcases List.mem_cons.mp (by simpa [World.serve] using hmem) with rfl | hmem
      · exact hcustody
      · exact (hs'.served _ vaultId' hmem).grows grows_serve
    · exact (hs'.served process' vaultId' (by simpa [World.serve, hprocess] using hmem)).grows
        grows_serve
  · simp [World.serve]

theorem meets_constructor (hG : Step lib Unrelated K s₁ s) :
    Meets lib accountId Unrelated K process (rpc (ExceptT.mk (ask (.constructor vaultId)))).run
      (Prog.Outcome (fun _ _ => True) fun err _ => T → ExplainedError lib Unrelated err) s₁ s := by
  refine meets_rpc (meets_ask trivial hG fun s' r s'' _ hr _ => ?_)
  exact .intro (fun _ _ => trivial) fun err herr _ => .inl (by rw [herr] at hr; exact hr.2)

theorem meets_createOrLoadWallet (hG : Step lib Unrelated K s₁ s) :
    Meets lib accountId Unrelated K process
      (ExceptT.run (ExceptT.adapt Error.walletInitializationFailure
        (ExceptT.mk (ask (.createOrLoadWallet vaultId)))))
      (Prog.Outcome (fun _ _ => True) fun err _ => T → ExplainedError lib Unrelated err) s₁ s := by
  refine Prog.keeps_run_adapt.mpr (meets_ask trivial hG fun s' r s'' _ hr _ => ?_)
  cases r with
  | ok _ => trivial
  | error err => exact fun _ => hr.2

theorem meets_addVaultId (fuel : Nat) (hG : Step lib Unrelated K s₁ s)
    (hkey : T → Mastered lib s) :
    Meets lib accountId Unrelated K process (addVaultId lib fuel vaultId).run
      (Prog.Outcome (fun done s => done = some () → vaultId ∈ s.served process)
        fun err _ => T → ExplainedError lib Unrelated err) s₁ s := by
  have hmastered (s s' : World E PrivateKey) (hgrows : Grows s s') (h : T → Mastered lib s) :
      T → Mastered lib s' := fun hT => (h hT).grows hgrows
  refine Prog.guarantees_run_seq ((meets_constructor hG).frame hmastered hkey)
    fun _ s₁ s hG hkey => ?_
  refine Prog.guarantees_run_seq ((meets_createOrLoadWallet hG).frame hmastered hkey.2)
    fun _ s₁ s hG hkey => ?_
  refine Prog.guarantees_run_seq ((meets_derivationKey hG fun hT =>
    (hkey.2 hT).publicKey_ne_none).frame hmastered hkey.2) fun publicKey s₁ s hG hkey => ?_
  obtain ⟨hregistered, hkey⟩ := hkey
  refine Prog.guarantees_run_seq ((meets_rpc (meets_migrate hG)).frame
    (J := fun s => Registered lib s publicKey ∧ (T → Mastered lib s))
    (fun s s' hgrows h => ⟨h.1.grows hgrows, hmastered s s' hgrows h.2⟩) ⟨hregistered, hkey⟩)
    fun _ s₁ s hG hkey => ?_
  obtain ⟨-, hregistered, hkey⟩ := hkey
  refine Prog.guarantees_run_seq ((meets_rpc (meets_copyDerivationKey hG fun hT =>
    (hkey hT).holds hregistered)).frame (J := fun s => Registered lib s publicKey)
    (fun _ _ hgrows h => h.grows hgrows) hregistered)
    fun _ s₁ s hG hholds => ?_
  have hcustody : Custody lib s vaultId := ⟨publicKey, hholds.2, hholds.1⟩
  refine Prog.guarantees_run_seq ((meets_rpc (meets_addKeysFromPastIssueRequest fuel hG)).frame
    (J := fun s => Custody lib s vaultId) (fun _ _ hgrows h => h.grows hgrows) hcustody)
    fun done s₁ s hG hcustody => ?_
  cases done with
  | none => exact ⟨hG, nofun⟩
  | some _ =>
    refine Prog.guarantees_run_seq (Prog.guarantees_run_lift (meets_insertVault hG hcustody.2))
      fun _ s₁ s hG hserved => ⟨hG, fun _ => hserved⟩

/-- The process handles the events of the vaults, but for those that are liquidated. -/
def Handled (process : Nat) (vaultIds : List VaultId) (s : World E PrivateKey) : Prop :=
  ∀ vaultId ∈ vaultIds, vaultId ∈ s.liquidated ∨ vaultId ∈ s.served process

omit lib accountId Unrelated K T s₁ publicKey vaultId A in
theorem Handled.grows {s' : World E PrivateKey} {vaultIds : List VaultId}
    (h : Handled process vaultIds s) (hgrows : Grows s s') : Handled process vaultIds s' :=
  fun vaultId hmem => (h vaultId hmem).imp (fun h => hgrows.liquidated h)
    fun h => hgrows.served process h

theorem meets_fetchVaultId (fuel : Nat) (hG : Step lib Unrelated K s₁ s)
    (hkey : T → Mastered lib s) :
    Meets lib accountId Unrelated K process (fetchVaultId lib fuel vaultId).run
      (Prog.Outcome (fun done s => done = some () → Handled process [vaultId] s)
        fun err _ => T → ExplainedError lib Unrelated err) s₁ s := by
  refine Prog.guarantees_run_seq (P := fun r s => (T → Mastered lib s) ∧
    (r = .error .vaultLiquidated → vaultId ∈ s.liquidated) ∧
    ∀ err, r = .error (.other err) → Unrelated err) ?_ fun r s₁ s hG hr => ?_
  · refine Prog.guarantees_run_lift (meets_ask trivial hG fun s' r s'' hgrows hr hgrows' => ?_)
    obtain ⟨rfl, hliquidated, hother⟩ := hr
    exact ⟨fun hT => (hkey hT).grows hgrows, hliquidated, hother⟩
  · obtain ⟨hkey, hliquidated, hother⟩ := hr
    have hadd : Meets lib accountId Unrelated K process (addVaultId lib fuel vaultId).run
        (Prog.Outcome (fun done s => done = some () → Handled process [vaultId] s)
          fun err _ => T → ExplainedError lib Unrelated err) s₁ s :=
      (meets_addVaultId fuel hG hkey).mono fun r _ _ hr => hr.imp
        (fun done hserved hdone vaultId' hmem => by
          rw [List.mem_singleton.mp hmem]
          exact .inr (hserved hdone)) fun _ h => h
    rcases r with (_ | _ | err) | _
    · exact hadd
    · refine ⟨hG, fun _ vaultId' hmem => ?_⟩
      rw [List.mem_singleton.mp hmem]
      exact .inl (hliquidated rfl)
    · exact ⟨hG, fun _ => .inl (hother err rfl)⟩
    · exact hadd

theorem meets_fetchEach (fuel : Nat) (vaultIds : List VaultId) (hG : Step lib Unrelated K s₁ s)
    (hkey : T → Mastered lib s) :
    Meets lib accountId Unrelated K process (fetchEach lib fuel vaultIds).run
      (Prog.Outcome (fun done s => done = some () → Handled process vaultIds s)
        fun err _ => T → ExplainedError lib Unrelated err) s₁ s := by
  induction vaultIds generalizing s₁ s with
  | nil => exact ⟨hG, fun _ _ hmem => by cases hmem⟩
  | cons vaultId vaultIds ih =>
    refine Prog.guarantees_run_seq ((meets_fetchVaultId fuel hG hkey).frame
      (J := fun s => T → Mastered lib s) (fun _ _ hgrows h hT => (h hT).grows hgrows) hkey)
      fun done s₁ s hG hr => ?_
    cases done with
    | none => exact ⟨hG, nofun⟩
    | some _ =>
      obtain ⟨hhandled, hkey⟩ := hr
      refine ((ih hG hkey).frame (J := Handled process [vaultId])
        (fun _ _ hgrows h => h.grows hgrows) (hhandled rfl)).mono fun r _ _ hr => hr.imp
        (fun done h hdone vaultId' hmem => ?_) fun _ h => h
      rcases List.mem_cons.mp hmem with rfl | hmem
      · exact h.2 vaultId' List.mem_cons_self
      · exact h.1 hdone vaultId' hmem

/-- The process handles the vaults that were noted at the stage. -/
def HandledAt (process : Nat) (stage : Stage) (s : World E PrivateKey) : Prop :=
  ∃ vaultIds, s.noted (process, stage) = some vaultIds ∧ Handled process vaultIds s

omit lib accountId Unrelated K T s₁ publicKey vaultId A in
theorem HandledAt.grows {stage : Stage} {s' : World E PrivateKey} (h : HandledAt process stage s)
    (hgrows : Grows s s') : HandledAt process stage s' := by
  obtain ⟨vaultIds, hnoted, hhandled⟩ := h
  exact ⟨vaultIds, hgrows.noted _ _ hnoted, hhandled.grows hgrows⟩

/-- The vaults that were noted at the stage are among those that are given. -/
def NotedIn (process : Nat) (stage : Stage) (vaultIds : List VaultId) (s : World E PrivateKey) :
    Prop :=
  ∃ vaultIds', s.noted (process, stage) = some vaultIds' ∧ vaultIds' ⊆ vaultIds

omit lib accountId Unrelated K T s₁ publicKey vaultId A in
theorem NotedIn.grows {stage : Stage} {vaultIds : List VaultId} {s' : World E PrivateKey}
    (h : NotedIn process stage vaultIds s) (hgrows : Grows s s') :
    NotedIn process stage vaultIds s' := by
  obtain ⟨vaultIds', hnoted, hsubset⟩ := h
  exact ⟨vaultIds', hgrows.noted _ _ hnoted, hsubset⟩

theorem meets_fetchVaultIds (fuel : Nat) {registered : List VaultId}
    (hG : Step lib Unrelated K s₁ s) (hs : Inv lib Unrelated K s) (hkey : T → Mastered lib s)
    (hregistered : s.noted (process, .registered) = some registered) :
    Meets lib accountId Unrelated K process (fetchVaultIds lib fuel).run
      (Prog.Outcome (fun done s => done = some () → ∀ stage, HandledAt process stage s)
        fun err _ => T → ExplainedError lib Unrelated err) s₁ s := by
  refine Prog.guarantees_run_seq (P := fun listed s => (T → Mastered lib s) ∧
    ∀ stage, NotedIn process stage listed s) ?_ fun listed s₁ s hG hr => ?_
  · refine meets_rpc (Prog.guarantees_request hG fun s' r s'' hR hr => ?_)
    have hstep : Step lib Unrelated K s' s'' := step_of_env (by trivial) hr
    refine ⟨hstep, ?_⟩
    cases r with
    | error err => exact fun _ => .inl hr.2
    | ok listed =>
      obtain ⟨rfl, rfl⟩ := hr
      refine ⟨fun hT => ((hkey hT).grows hR.1).grows hstep.1, fun stage => ?_⟩
      cases stage with
      | registered =>
        have hnoted := hR.1.noted _ _ hregistered
        exact ⟨registered, hstep.1.noted _ _ hnoted, (hR.2 hs).noted _ _ hnoted⟩
      | listed => exact (hR.2 hs).note
  · obtain ⟨hkey, hnoted⟩ := hr
    refine ((meets_fetchEach fuel listed hG hkey).frame
      (J := fun s => ∀ stage, NotedIn process stage listed s)
      (fun _ _ hgrows h stage => (h stage).grows hgrows) hnoted).mono fun r _ _ hr =>
        hr.imp (fun done h hdone stage => ?_) fun _ h => h
    obtain ⟨vaultIds, hvaultIds, hsubset⟩ := h.2 stage
    exact ⟨vaultIds, hvaultIds, fun vaultId hmem => h.1 hdone vaultId (hsubset hmem)⟩

/-! #### The start-up -/

theorem meets_getNewPublicKey (hG : Step lib Unrelated K s₁ s) :
    Meets lib accountId Unrelated K process
      (ExceptT.run (getNewPublicKey : ExceptT (Error E) (Client E PublicKey PrivateKey Address) _))
      (Prog.Outcome (fun publicKey s => Holds lib s none publicKey)
        fun err _ => T → ExplainedError lib Unrelated err) s₁ s := by
  refine Prog.guarantees_run_seq (P := fun address s => ∃ privateKey ∈ s.wallet none,
    Spends lib privateKey address) ?_ fun address s₁ s hG hkey => ?_
  · refine meets_rpc (meets_ask trivial hG fun s' r s'' _ hr _ => ?_)
    cases r with
    | error err => exact fun _ => .inl hr.2
    | ok address => exact hr.2
  refine Prog.guarantees_run_seq
    (P := fun publicKey s => ∃ publicKey', publicKey = some publicKey' ∧
      Holds lib s none publicKey') ?_ fun publicKey s₁ s hG hpublicKey => ?_
  · refine meets_rpc (meets_ask trivial hG fun s' r s'' hgrows hr _ => ?_)
    obtain ⟨rfl, hanswers⟩ := hr
    obtain ⟨privateKey, hmem, hspends⟩ := hkey
    have hmem := hgrows.wallet none hmem
    cases r with
    | error err => exact fun _ => .inl hanswers
    | ok publicKey =>
      obtain ⟨hsome, hnone⟩ := hanswers
      cases publicKey with
      | none => exact absurd hspends (hnone rfl privateKey hmem)
      | some publicKey =>
        exact ⟨publicKey, rfl, address, hsome publicKey rfl, privateKey, hmem, hspends⟩
  · obtain ⟨publicKey, rfl, hholds⟩ := hpublicKey
    exact ⟨hG, hholds⟩

theorem step_registerPublicKey {slice : BtcPublicKey} (hslice : lib.fromSlice slice = .ok publicKey)
    (hnone : s.publicKey = none) (hholds : Holds lib s none publicKey) :
    Step lib Unrelated K s { s with publicKey := some slice } := by
  refine ⟨⟨fun _ => List.Subset.refl _, fun slice' h => ?_, List.Subset.refl _, List.Subset.refl _,
    fun _ => List.Subset.refl _, fun _ _ h => h⟩, fun hs => ⟨fun process vaultId hmem => ?_,
    hs.reported, fun _ slice' h => ?_, hs.noted⟩⟩
  · rw [hnone] at h
    cases h
  · obtain ⟨publicKey', ⟨slice', hslice', -⟩, -⟩ := hs.served process vaultId hmem
    rw [hnone] at hslice'
    cases hslice'
  · cases h
    exact ⟨publicKey, hslice, hholds⟩

theorem meets_registerPublicKey (hserialize : ∀ key, lib.fromSlice (lib.serialize key) = .ok key)
    {slice : Option BtcPublicKey} (hG : Step lib Unrelated K s₁ s)
    (hslice : slice ≠ none → s.publicKey ≠ none) :
    Meets lib accountId Unrelated K process (registerPublicKey lib slice).run
      (Prog.Outcome (fun _ s => s.publicKey ≠ none)
        fun err _ => T → ExplainedError lib Unrelated err) s₁ s := by
  cases slice with
  | some slice => exact ⟨hG, hslice (Option.some_ne_none _)⟩
  | none =>
    refine Prog.guarantees_run_seq (meets_getNewPublicKey hG) fun publicKey s₁ s hG hholds => ?_
    refine meets_rpc (Prog.guarantees_request hG fun s' r s'' hR hr => ?_)
    obtain ⟨hstep, hanswers⟩ := hr
    constructor
    · rcases hstep with rfl | ⟨hnone, rfl⟩
      · exact Step.refl _
      · exact step_registerPublicKey (hserialize publicKey) hnone (hholds.grows hR.1)
    · cases r with
      | error err => exact fun _ => .inl hanswers
      | ok _ =>
        dsimp only [Prog.Outcome]
        rw [show s''.publicKey = some _ from hanswers]
        exact Option.some_ne_none _

theorem meets_maybeRegisterPublicKey
    (hserialize : ∀ key, lib.fromSlice (lib.serialize key) = .ok key) (faucet : Bool)
    (hG : Step lib Unrelated K s₁ s) :
    Meets lib accountId Unrelated K process (maybeRegisterPublicKey lib faucet).run
      (Prog.Outcome (fun _ s => s.publicKey ≠ none)
        fun err _ => T → ExplainedError lib Unrelated err) s₁ s := by
  have hregister {s₁ s : World E PrivateKey} (hG : Step lib Unrelated K s₁ s) :
      Meets lib accountId Unrelated K process
        (ExceptT.run (do registerPublicKey lib (← rpc (ExceptT.mk (ask .getPublicKey)))))
        (Prog.Outcome (fun _ s => s.publicKey ≠ none)
          fun err _ => T → ExplainedError lib Unrelated err) s₁ s := by
    refine Prog.guarantees_run_seq (meets_getPublicKey hG) fun slice s₁ s hG hslice => ?_
    refine meets_registerPublicKey hserialize hG fun hne => ?_
    obtain ⟨slice, rfl⟩ := Option.ne_none_iff_exists'.mp hne
    rw [hslice.1 slice rfl]
    exact Option.some_ne_none _
  unfold maybeRegisterPublicKey
  cases faucet with
  | false => exact hregister hG
  | true =>
    refine Prog.guarantees_run_seq (P := fun _ _ => True) ?_ fun _ s₁ s hG _ => hregister hG
    refine meets_rpc (meets_ask trivial hG fun s' r s'' _ hr _ => ?_)
    exact .intro (fun _ _ => trivial) fun err herr _ => .inl (by rw [herr] at hr; exact hr.2)

theorem meets_startup (hserialize : ∀ key, lib.fromSlice (lib.serialize key) = .ok key)
    (faucet : Bool) (fuel : Nat) (hG : Step lib Unrelated K s₁ s) (hs : Inv lib Unrelated K s) :
    Meets lib accountId Unrelated K process (startup lib faucet fuel).run
      (Prog.Outcome (fun done s => done = some () → ∀ stage, HandledAt process stage s)
        fun err _ => K → ExplainedError lib Unrelated err) s₁ s := by
  refine Prog.guarantees_run_seq ((meets_maybeRegisterPublicKey hserialize faucet hG).steps
    (J := Inv lib Unrelated K) (fun s s' hstep h => hstep.2 h) hs)
    fun _ s₁ s hG hregistered => ?_
  obtain ⟨hne, hs⟩ := hregistered
  have hkey (hK : K) : Mastered lib s := by
    obtain ⟨slice, hslice⟩ := Option.ne_none_iff_exists'.mp hne
    obtain ⟨publicKey, hpublicKey, hholds⟩ := hs.keyed hK slice hslice
    exact ⟨publicKey, ⟨slice, hslice, hpublicKey⟩, hholds⟩
  refine Prog.guarantees_run_seq (P := fun _ s => Inv lib Unrelated K s ∧ (K → Mastered lib s) ∧
    ∃ registered, s.noted (process, .registered) = some registered) ?_ fun _ s₁ s hG hr => ?_
  · refine meets_rpc (Prog.guarantees_request hG fun s' r s'' hR hr => ?_)
    have hstep : Step lib Unrelated K s' s'' := step_of_env (by trivial) hr
    refine ⟨hstep, ?_⟩
    cases r with
    | error err => exact fun _ => .inl hr.2
    | ok _ =>
      obtain ⟨vaultIds, rfl⟩ := hr
      exact ⟨hstep.2 (hR.2 hs), fun hK => ((hkey hK).grows hR.1).grows hstep.1, _,
        Function.update_self ..⟩
  · obtain ⟨hs, hkey, registered, hregistered⟩ := hr
    exact meets_fetchVaultIds fuel hG hs hkey hregistered

/-! #### The listeners -/

theorem meets_iterate {body : Unit → Client E PublicKey PrivateKey Address (Unit ⊕ Unit)}
    (hbody : ∀ s₁ s, Step lib Unrelated K s₁ s → Inv lib Unrelated K s →
      Meets lib accountId Unrelated K process (body ()) (fun _ s => Inv lib Unrelated K s) s₁ s)
    (fuel : Nat) (hG : Step lib Unrelated K s₁ s) (hs : Inv lib Unrelated K s) :
    Meets lib accountId Unrelated K process (Prog.iterate body fuel ()) (fun _ _ => True) s₁ s := by
  refine Prog.keeps_iterate
    (J := fun _ y => Step lib Unrelated K y.1 y.2 ∧ Inv lib Unrelated K y.2) (fun _ y hy => ?_)
    (fun _ _ _ => trivial) fuel ⟨hG, hs⟩
  refine (hbody y.1 y.2 hy.1 hy.2).mono fun r y' hG hr => ?_
  cases r with
  | inl _ => exact ⟨hG, hr⟩
  | inr _ => trivial

theorem meets_onRegisterVault (fuel : Nat) (hG : Step lib Unrelated K s₁ s)
    (hs : Inv lib Unrelated K s) :
    Meets lib accountId Unrelated K process (onRegisterVault lib accountId fuel vaultId)
      (fun _ s => Inv lib Unrelated K s) s₁ s := by
  unfold onRegisterVault
  split
  · exact Prog.guarantees_bind (Prog.Guarantees.frame
      (meets_addVaultId (T := False) fuel hG False.elim) (fun _ _ hstep => hstep.2)
      (fun _ _ hstep => hstep.2) hs) fun _ _ _ hG hr => ⟨hG, hr.2⟩
  · exact ⟨hG, hs⟩

theorem meets_addNewDepositKey {secureId : H256} {slice : BtcPublicKey}
    (hG : Step lib Unrelated K s₁ s) (hslice : s.publicKey = some slice)
    (hcustody : Custody lib s vaultId) :
    Meets lib accountId Unrelated K process (addNewDepositKey lib vaultId secureId slice).run
      (Prog.Outcome (fun _ _ => True) fun err _ => True → Explained lib Unrelated err) s₁ s := by
  refine Prog.guarantees_run_seq (P := fun key s => Holds lib s (some vaultId) key.1) ?_
    fun key s₁ s hG hholds => meets_importDepositKey hG fun _ => hholds
  refine meets_ofExcept hG (fun key hkey => ?_) fun err herr => ?_
  · obtain ⟨publicKey, hpublicKey, hkey⟩ := Prog.bind_eq_ok hkey
    cases hkey
    obtain ⟨publicKey', hregistered, hholds, -⟩ := hcustody
    exact hregistered.unique ⟨slice, hslice, hpublicKey⟩ ▸ hholds
  · rcases Prog.bind_eq_error herr with herr | ⟨publicKey, -, herr⟩
    · exact .inl ⟨slice, herr⟩
    · cases herr

theorem meets_addKeyForEvent {event : RequestIssueEvent} (hG : Step lib Unrelated K s₁ s)
    (hs : Inv lib Unrelated K s) (hslice : s.publicKey = some event.vaultPublicKey)
    (hcustody : Custody lib s event.vaultId) :
    Meets lib accountId Unrelated K process (addKeyForEvent lib event)
      (fun _ s => Inv lib Unrelated K s) s₁ s := by
  have hadd : Meets lib accountId Unrelated K process
      (addNewDepositKey lib event.vaultId event.issueId event.vaultPublicKey).run _ s₁ s :=
    meets_addNewDepositKey hG hslice hcustody
  refine Prog.guarantees_bind (Prog.Guarantees.frame hadd (fun _ _ hstep => hstep.2)
    (fun _ _ hstep => hstep.2) hs) fun r s₁ s hG hr => ?_
  cases r with
  | ok _ => exact ⟨hG, hr.2⟩
  | error err =>
    refine Prog.guarantees_request hG fun s' _ s'' hR hr' => ?_
    cases hr'
    have hgrows : Grows s' { s' with reported := err :: s'.reported } :=
      ⟨fun _ => List.Subset.refl _, fun _ h => h, List.Subset.refl _, List.Subset.refl _,
        fun _ => List.Subset.refl _, fun _ _ h => h⟩
    have hinv (hs' : Inv lib Unrelated K s') :
        Inv lib Unrelated K { s' with reported := err :: s'.reported } := by
      refine ⟨fun process vaultId hmem => (hs'.served process vaultId hmem).grows hgrows,
        fun err' hmem => ?_, hs'.keyed, hs'.noted⟩
      rcases List.mem_cons.mp hmem with rfl | hmem
      · exact hr.1 trivial
      · exact hs'.reported err' hmem
    exact ⟨⟨hgrows, hinv⟩, hinv (hR.2 hr.2)⟩

theorem meets_quiet (c : Call E PublicKey PrivateKey Address) (hc : Quiet c)
    {J : World E PrivateKey → Prop} (hJ : ∀ s s', Step lib Unrelated K s s' → J s → J s')
    (hG : Step lib Unrelated K s₁ s) (hs : J s) :
    Meets lib accountId Unrelated K process (ask c) (fun _ s => J s) s₁ s :=
  Prog.guarantees_request hG fun s' _ s'' hR hr =>
    ⟨step_of_env hc hr, hJ s' s'' (step_of_env hc hr) (hJ s s' hR hs)⟩

theorem meets_onRequestIssue {event : RequestIssueEvent} (hG : Step lib Unrelated K s₁ s)
    (hs : Inv lib Unrelated K s)
    (hslice : event.vaultId.accountId = accountId → s.publicKey = some event.vaultPublicKey) :
    Meets lib accountId Unrelated K process (onRequestIssue lib accountId event)
      (fun _ s => Inv lib Unrelated K s) s₁ s := by
  have hinv (s s' : World E PrivateKey) (hstep : Step lib Unrelated K s s') := hstep.2
  unfold onRequestIssue
  split
  next haccount =>
    let Known (s : World E PrivateKey) : Prop := Inv lib Unrelated K s ∧
      s.publicKey = some event.vaultPublicKey ∧ Custody lib s event.vaultId
    have hknown (s s' : World E PrivateKey) (hstep : Step lib Unrelated K s s') (h : Known s) :
        Known s' := ⟨hstep.2 h.1, hstep.1.publicKey _ h.2.1, h.2.2.grows hstep.1⟩
    refine Prog.guarantees_bind (P := fun r s => Inv lib Unrelated K s ∧ (r = true → Known s)) ?_
      fun r s₁ s hG hr => ?_
    · refine Prog.guarantees_request hG fun s' r s'' hR hr => ?_
      obtain ⟨rfl, hserved⟩ := hr
      have hs' := hR.2 hs
      exact ⟨Step.refl _, hs', fun hr => ⟨hs', hR.1.publicKey _ (hslice haccount),
        hs'.served process event.vaultId (hserved.mp hr)⟩⟩
    · cases r with
      | false => exact ⟨hG, hr.1⟩
      | true =>
        refine Prog.guarantees_bind (meets_quiet .sendOpened trivial hknown hG (hr.2 rfl))
          fun _ s₁ s hG h => ?_
        refine Prog.guarantees_bind
          (meets_quiet (.publishExpectedBitcoinBalance event.vaultId) trivial hknown hG h)
          fun _ s₁ s hG h => ?_
        refine Prog.guarantees_bind (meets_addKeyForEvent hG h.1 h.2.1 h.2.2)
          fun _ s₁ s hG hs => ?_
        exact meets_quiet (.watch event.issueId event.vaultAddress) trivial hinv hG hs
  next => exact meets_quiet (.watch event.issueId event.vaultAddress) trivial hinv hG hs

theorem meets_listenForVaultIdRegistrations (fuel : Nat) (hG : Step lib Unrelated K s₁ s)
    (hs : Inv lib Unrelated K s) :
    Meets lib accountId Unrelated K process (listenForVaultIdRegistrations lib accountId fuel)
      (fun _ _ => True) s₁ s := by
  refine meets_iterate (fun s₁ s hG hs => ?_) fuel hG hs
  refine Prog.guarantees_bind (P := fun _ s => Inv lib Unrelated K s) ?_ fun r s₁ s hG hs => ?_
  · refine Prog.guarantees_request hG fun s' r s'' hR hr => ?_
    cases hr
    exact ⟨Step.refl _, hR.2 hs⟩
  · cases r with
    | none => exact ⟨hG, hs⟩
    | some vaultId =>
      exact Prog.guarantees_bind (meets_onRegisterVault fuel hG hs) fun _ _ _ hG hs => ⟨hG, hs⟩

theorem meets_listenForIssueRequests (fuel : Nat) (hG : Step lib Unrelated K s₁ s)
    (hs : Inv lib Unrelated K s) :
    Meets lib accountId Unrelated K process (listenForIssueRequests lib accountId fuel)
      (fun _ _ => True) s₁ s := by
  refine meets_iterate (fun s₁ s hG hs => ?_) fuel hG hs
  refine Prog.guarantees_bind (P := fun r s => Inv lib Unrelated K s ∧ ∀ event, r = some event →
    event.vaultId.accountId = accountId → s.publicKey = some event.vaultPublicKey) ?_
    fun r s₁ s hG hr => ?_
  · refine Prog.guarantees_request hG fun s' r s'' hR hr => ?_
    obtain ⟨rfl, hevent⟩ := hr
    exact ⟨Step.refl _, hR.2 hs, hevent⟩
  · cases r with
    | none => exact ⟨hG, hr.1⟩
    | some event =>
      exact Prog.guarantees_bind (meets_onRequestIssue hG hr.1 (hr.2 event rfl))
        fun _ _ _ hG hs => ⟨hG, hs⟩

end Vaults

/-! ### All together -/

inductive Task
  | startup
  | vaultIdRegistrations
  | issueRequests
  deriving DecidableEq

def client (lib : Lib E PublicKey PrivateKey Address) (accountId : AccountId) (faucet : Bool)
    (fuel : Nat) : Task → Client E PublicKey PrivateKey Address (Except (Error E) (Option Unit))
  | .startup => ExceptT.run (startup lib faucet fuel)
  | .vaultIdRegistrations => .ok <$> listenForVaultIdRegistrations lib accountId fuel
  | .issueRequests => .ok <$> listenForIssueRequests lib accountId fuel

section Pool

variable {lib : Lib E PublicKey PrivateKey Address} {Unrelated : E → Prop}
variable {start s : World E PrivateKey}
variable {ps : Nat × Task → Client E PublicKey PrivateKey Address (Except (Error E) (Option Unit))}

/-- What a task ends with. -/
def Ends (lib : Lib E PublicKey PrivateKey Address) (Unrelated : E → Prop)
    (start : World E PrivateKey) (i : Nat × Task) (r : Except (Error E) (Option Unit))
    (s : World E PrivateKey) : Prop :=
  i.2 = .startup → (r = .ok (some ()) → ∀ stage, HandledAt i.1 stage s) ∧
    ∀ err, r = .error err → Keyed lib start → ExplainedError lib Unrelated err

theorem meets_client (hserialize : ∀ key, lib.fromSlice (lib.serialize key) = .ok key)
    (accountId : AccountId) (faucet : Bool) (fuel : Nat)
    (hstart : Inv lib Unrelated (Keyed lib start) start) (i : Nat × Task) :
    Meets lib accountId Unrelated (Keyed lib start) i.1 (client lib accountId faucet fuel i.2)
      (Ends lib Unrelated start i) start start := by
  obtain ⟨process, task⟩ := i
  have hG : Step lib Unrelated (Keyed lib start) start start := Step.refl start
  cases task with
  | startup =>
    refine (meets_startup hserialize faucet fuel hG hstart).mono
      fun r _ _ hr _ => ⟨fun hdone => ?_, fun err herr => ?_⟩
    · subst hdone
      exact hr rfl
    · subst herr
      exact hr
  | vaultIdRegistrations =>
    exact Prog.keeps_map.mpr ((meets_listenForVaultIdRegistrations fuel hG hstart).mono
      fun _ _ _ _ htask => by cases htask)
  | issueRequests =>
    exact Prog.keeps_map.mpr ((meets_listenForIssueRequests fuel hG hstart).mono
      fun _ _ _ _ htask => by cases htask)

/-- In every interleaving of the tasks of any number of processes, with calls that may fail: the
wallet of each vault that is served and the master wallet have the derivation key; no listener fails
to import the key of an issue because the derivation key is missing; and a start-up that ends well
serves every vault that the account had when it had registered the configured ones, and when it
listed them, but for those that are liquidated.  When the master wallet had the key, or there was
none, no start-up fails because it is missing. -/
theorem custody_of_poolRuns (hserialize : ∀ key, lib.fromSlice (lib.serialize key) = .ok key)
    (accountId : AccountId) (faucet : Bool) (fuel : Nat)
    (hserved : ∀ process, start.served process = []) (hreported : start.reported = [])
    (hnoted : ∀ stage, start.noted stage = none)
    (hruns : Prog.PoolRuns (fun i => env lib accountId Unrelated i.1) Other
      (fun i => client lib accountId faucet fuel i.2) start ps s) :
    (∀ process vaultId, vaultId ∈ s.served process → Custody lib s vaultId) ∧
      (∀ err ∈ s.reported, Explained lib Unrelated err) ∧
      ∀ process, (ps (process, .startup) = .pure (.ok (some ())) →
          ∀ stage, HandledAt process stage s) ∧
        ∀ err, ps (process, .startup) = .pure (.error err) → Keyed lib start →
          ExplainedError lib Unrelated err := by
  have hstart : Inv lib Unrelated (Keyed lib start) start := by
    refine ⟨fun process vaultId hmem => ?_, fun err hmem => ?_, id, fun stage vaultIds h => ?_⟩
    · rw [hserved] at hmem
      cases hmem
    · rw [hreported] at hmem
      cases hmem
    · rw [hnoted] at h
      cases h
  have hcooperates : Prog.Cooperates (fun _ : Nat × Task => Step lib Unrelated (Keyed lib start))
      (fun _ => Step lib Unrelated (Keyed lib start)) Other :=
    ⟨fun _ s => Step.refl s, fun h h' => h.trans h', fun _ s => Step.refl s, fun _ h => h,
      step_other⟩
  have hends (i : Nat × Task) (r : Except (Error E) (Option Unit)) :
      Prog.Stable (Step lib Unrelated (Keyed lib start)) (Ends lib Unrelated start i r) :=
    fun _ _ hstep h htask =>
      ⟨fun hdone stage => ((h htask).1 hdone stage).grows hstep.1, (h htask).2⟩
  obtain ⟨hinv, hmeets⟩ := Prog.Guarantees.poolRuns hcooperates hends (fun hstep => hstep.2)
    (fun hother => (step_other hother).2)
    (meets_client hserialize accountId faucet fuel hstart) hstart hruns
  refine ⟨hinv.served, hinv.reported, fun process => ⟨fun hdone => ?_, fun err herr => ?_⟩⟩
  · have hstartup := hmeets (process, .startup)
    rw [hdone] at hstartup
    exact (hstartup.2 rfl).1 rfl
  · have hstartup := hmeets (process, .startup)
    rw [herr] at hstartup
    exact (hstartup.2 rfl).2 err rfl

end Pool

/-! ### A first start -/

/-- A private key is its own public key. -/
def plainKeys : Lib Unit BtcPublicKey BtcPublicKey BtcPublicKey where
  fromSlice := .ok
  serialize := id
  p2wpkh := .ok
  publicKey := id
  calculateDepositSecretKey privateKey secretKey := .ok (privateKey + secretKey.setWidth 264)
  sha256 _ _ := 5

def newVault : VaultId := ⟨1, ⟨.token .KSM, .token .KBTC⟩⟩

def requestIssue : RequestIssueEvent := ⟨3, newVault, 7, .P2WPKHv0 8⟩

def fresh : World Unit BtcPublicKey where
  wallet _ := []
  publicKey := none
  vaults := []
  liquidated := []
  served _ := []
  reported := []
  noted _ := none

/-- The new key is 7, the start-up registers the vault, and there is an issue once the vault has
been added. -/
def serve (i : Nat × Task) (s : World Unit BtcPublicKey) :
    (call : Call Unit BtcPublicKey BtcPublicKey BtcPublicKey) →
      Option ((api Unit BtcPublicKey BtcPublicKey BtcPublicKey).Answer call ×
        World Unit BtcPublicKey)
  | .constructor _ => some (.ok (), s)
  | .createOrLoadWallet _ => some (.ok (), s)
  | .getPublicKey => some (.ok s.publicKey, s)
  | .registerPublicKey publicKey =>
    if s.publicKey = none then some (.ok (), { s with publicKey := some publicKey }) else none
  | .getNewAddress => some (.ok 7, s.importKey none 7)
  | .getAddressInfo address => some (.ok (some address), s)
  | .dumpPrivateKey wallet address =>
    if address ∈ s.wallet wallet then some (.ok address, s) else some (.error (), s)
  | .importPrivateKey wallet privateKey _ => some (.ok (), s.importKey wallet privateKey)
  | .maybeRegisterVaults => some (.ok (), (s.register [newVault]).note (i.1, .registered))
  | .getVaultsByAccountId => some (.ok s.vaults, s.note (i.1, .listed))
  | .getVault _ => some (.ok (), s)
  | .pastIssues .dbGet => some (.ok none, s)
  | .pastIssues (.dbPut _) => some (.ok (), s)
  | .pastIssues .getVaultIssueRequests => some (.ok [], s)
  | .pastIssues .getBlockCount => some (.ok 0, s)
  | .pastIssues .getPrunedHeight => some (.ok 0, s)
  | .initializeMetrics _ => some ((), s)
  | .insertVault vaultId => some ((), s.serve i.1 vaultId)
  | .hasVault vaultId => some (decide (vaultId ∈ s.served i.1), s)
  | .nextRequestIssue =>
    if s.publicKey = some 7 ∧ newVault ∈ s.served i.1 then some (some requestIssue, s) else none
  | .sendOpened => some ((), s)
  | .publishExpectedBitcoinBalance _ => some ((), s)
  | .watch _ _ => some ((), s)
  | _ => none

theorem env_serve {i : Nat × Task} {s s' : World Unit BtcPublicKey}
    {call : Call Unit BtcPublicKey BtcPublicKey BtcPublicKey}
    {r : (api Unit BtcPublicKey BtcPublicKey BtcPublicKey).Answer call}
    (h : serve i s call = some (r, s')) : env plainKeys 1 (fun _ => False) i.1 s call r s' := by
  cases call with
  | registerPublicKey publicKey =>
    dsimp only [serve] at h
    split at h
    next hnone =>
      cases h
      exact ⟨.inr ⟨hnone, rfl⟩, rfl⟩
    next => cases h
  | getNewAddress =>
    cases h
    exact ⟨.inr ⟨7, rfl⟩, 7, by simp [World.importKey], rfl⟩
  | getAddressInfo address =>
    cases h
    exact ⟨rfl, fun publicKey h => by cases h; rfl, nofun⟩
  | dumpPrivateKey wallet address =>
    dsimp only [serve] at h
    split at h
    next hmem =>
      cases h
      exact ⟨rfl, fun privateKey h => by cases h; exact ⟨hmem, rfl⟩, nofun⟩
    next hmem =>
      cases h
      refine ⟨rfl, nofun, fun _ _ => .inr fun privateKey hprivateKey hspends => hmem ?_⟩
      cases hspends
      exact hprivateKey
  | importPrivateKey wallet privateKey label =>
    cases h
    exact ⟨.inr rfl, rfl⟩
  | maybeRegisterVaults =>
    cases h
    exact ⟨[newVault], rfl⟩
  | getVaultsByAccountId =>
    cases h
    exact ⟨rfl, rfl⟩
  | getVault vaultId =>
    cases h
    exact ⟨rfl, nofun, nofun⟩
  | pastIssues call =>
    cases call with
    | addNewDepositKey publicKey secretKey => cases h
    | rescanElectrsForAddresses addresses => cases h
    | rescanBlockchain start stop => cases h
    | elapsedBelowLimit => cases h
    | _ =>
      cases h
      exact ⟨rfl, trivial⟩
  | hasVault vaultId =>
    cases h
    exact ⟨rfl, decide_eq_true_iff⟩
  | nextRequestIssue =>
    dsimp only [serve] at h
    split at h
    next hknown =>
      cases h
      exact ⟨rfl, fun event hevent _ => by cases hevent; exact hknown.1⟩
    next => cases h
  | fundAccount => cases h
  | nextRegisterVault => cases h
  | failedToAddKey issueId err => cases h
  | initializeMetrics vaultId =>
    cases h
    rfl
  | insertVault vaultId =>
    cases h
    rfl
  | sendOpened =>
    cases h
    rfl
  | publishExpectedBitcoinBalance vaultId =>
    cases h
    rfl
  | watch issueId address =>
    cases h
    rfl
  | _ =>
    cases h
    exact ⟨rfl, by first | rfl | trivial⟩

def turns : List ((Nat × Task) ⊕ (World Unit BtcPublicKey → World Unit BtcPublicKey)) :=
  (List.replicate 20 (0, Task.startup) ++ List.replicate 7 (0, Task.issueRequests)).map .inl

def afterStart :
    (Nat × Task → Client Unit BtcPublicKey BtcPublicKey BtcPublicKey
      (Except (Error Unit) (Option Unit))) × World Unit BtcPublicKey :=
  Prog.playPool serve turns (fun i => client plainKeys 1 false 5 i.2, fresh)

/-- Whether a start-up has ended well. -/
def done : Client Unit BtcPublicKey BtcPublicKey BtcPublicKey
    (Except (Error Unit) (Option Unit)) → Bool
  | .pure (.ok (some ())) => true
  | _ => false

theorem eq_pure_of_done {p : Client Unit BtcPublicKey BtcPublicKey BtcPublicKey
    (Except (Error Unit) (Option Unit))} (h : done p = true) : p = .pure (.ok (some ())) := by
  unfold done at h
  split at h
  next => rfl
  next => cases h

theorem custody_of_poolRuns_afterStart :
    afterStart.2.wallet (some newVault) = [12, 7] ∧ Custody plainKeys afterStart.2 newVault ∧
      afterStart.2.noted (0, .registered) = some [newVault] ∧
      ∀ stage, HandledAt 0 stage afterStart.2 := by
  have hturns (move : World Unit BtcPublicKey → World Unit BtcPublicKey)
      (hmove : .inr move ∈ turns) (s : World Unit BtcPublicKey) : Other s (move s) := by
    simp [turns] at hmove
  have hruns : Prog.PoolRuns (fun i : Nat × Task => env plainKeys 1 (fun _ => False) i.1) Other
      (fun i => client plainKeys 1 false 5 i.2) fresh afterStart.1 afterStart.2 :=
    Prog.poolRuns_play env_serve hturns _ _
  obtain ⟨hcustody, -, hstartup⟩ :=
    custody_of_poolRuns (fun _ => rfl) 1 false 5 (fun _ => rfl) rfl (fun _ => rfl) hruns
  have hserved : newVault ∈ afterStart.2.served 0 := by decide +kernel
  have hdone : done (afterStart.1 (0, .startup)) = true := by decide +kernel
  exact ⟨by decide +kernel, hcustody 0 newVault hserved, by decide +kernel,
    (hstartup 0).1 (eq_pure_of_done hdone)⟩

end InterBtcClients.Vault.VaultIds
