import InterBtcClients.Bitcoin.Funding
import InterBtcClients.Bitcoin.ThreeKeys
import InterBtcClients.Library.Run
import Mathlib.Order.MinMax

/-! Where the light client's change goes while deposit keys are added: to the first address of the
key store, which is that of the derivation key as long as the deposit addresses come after it. -/

namespace InterBtcClients.Bitcoin.Light

open Library Electrs InterBtcClients.Runtime

variable {E : Type} (lib : Lib E)

def BitcoinLight.derivationAddress (light : BitcoinLight) : Except (Error E) Address :=
  light.wallet.p2wpkhAddress lib light.privateKey.inner

/-- The address that deposits are received at. -/
def BitcoinLight.depositAddress (light : BitcoinLight) (secretKey : List UInt8) :
    Except (BitcoinError E) Address := do
  let depositKey ← light.depositKey lib secretKey
  (light.wallet.p2wpkhAddress lib depositKey).mapError .lightClientError

/-- The client with the deposit addresses that it was given. -/
structure Deposits where
  light : BitcoinLight
  addresses : List Address

/-- A deposit key that cannot be added leaves the client as it was. -/
def Deposits.step (s : Deposits) (secretKey : List UInt8) : Deposits :=
  match s.light.addNewDepositKey lib secretKey with
  | .ok light => ⟨light, s.addresses ++ (s.light.depositAddress lib secretKey).toOption.toList⟩
  | .error _ => s

/-- A server that may answer anything. -/
def anyAnswer : Prog.Env (api E) Unit := fun _ _ _ _ => True

/-- All change goes to `address`, which is not one for deposits. -/
structure ChangeTo (address : Address) (s : Deposits) : Prop where
  changeAddress : s.light.getChangeAddress (E := E) = .ok address
  newAddress : s.light.getNewAddress (E := E) = .ok address
  payments : ∀ recipient sat feeRate requestId locked,
    Prog.Runs anyAnswer (s.light.createTransaction lib recipient sat feeRate requestId).run ()
      (.pure (.ok locked)) () →
    PaysChange lib address (Wallet.createTransaction lib recipient sat requestId).output
      locked.transaction.output
  deposits : address ∉ s.addresses

/-- The deposit address comes after `address` in the key store. -/
def DepositAfter (light : BitcoinLight) (address : Address) (secretKey : List UInt8) : Prop :=
  ∀ deposit, light.depositAddress lib secretKey = .ok deposit → address < deposit

/-! ### The first address of the key store -/

theorem head?_keys_insert (keyStore : KeyStore) (address : Address) (key : PrivateKey) :
    (keyStore.insert address key).keys.head? =
      some (keyStore.keys.head?.elim address fun first => min address first) := by
  rw [← Std.TreeMap.minKey?_eq_head?_keys, ← Std.TreeMap.minKey?_eq_head?_keys,
    Std.TreeMap.minKey?_insert]
  congr
  funext first
  simp only [min_def, Ordering.isLE_iff_ne_gt, compare_gt_iff_gt, not_lt]

variable {lib}

theorem getChangeAddress_eq_ok {light : BitcoinLight} {address : Address} :
    light.getChangeAddress (E := E) = .ok address ↔
      light.wallet.keyStore.keys.head? = some address := by
  rw [BitcoinLight.getChangeAddress]
  split
  next first hfirst => rw [hfirst, Except.ok.injEq, Option.some.injEq]
  next hfirst => simp [hfirst]

/-! ### One deposit key -/

theorem step_of_depositAddress_error {s : Deposits} {secretKey : List UInt8} {e : BitcoinError E}
    (h : s.light.depositAddress lib secretKey = .error e) : s.step lib secretKey = s := by
  rw [Deposits.step, BitcoinLight.addNewDepositKey]
  rcases Prog.bind_eq_error h with hkey | ⟨key, hkey, h⟩
  · rw [hkey]
    rfl
  · obtain ⟨e', haddress, -⟩ := Prog.mapError_eq_error h
    rw [hkey, Prog.ok_bind, Wallet.putP2wpkhKey, haddress]
    rfl

theorem step_of_depositAddress_ok {s : Deposits} {secretKey : List UInt8} {deposit : Address}
    (h : s.light.depositAddress lib secretKey = .ok deposit) :
    ∃ key, s.step lib secretKey =
      ⟨{ s.light with wallet := { s.light.wallet with
          keyStore := s.light.wallet.keyStore.insert deposit key } }, s.addresses ++
            [deposit]⟩ := by
  have hdeposit := h
  rw [BitcoinLight.depositAddress] at h
  rw [Deposits.step, BitcoinLight.addNewDepositKey, hdeposit]
  obtain ⟨key, hkey, h⟩ := Prog.bind_eq_ok h
  have haddress := Prog.mapError_eq_ok h
  refine ⟨⟨s.light.wallet.network, key⟩, ?_⟩
  rw [hkey, Prog.ok_bind, Wallet.putP2wpkhKey, haddress]
  rfl

/-- Adding keys does not change the address that a deposit key has. -/
theorem depositAddress_step (s : Deposits) (added secretKey : List UInt8) :
    (s.step lib added).light.depositAddress lib secretKey =
      s.light.depositAddress lib secretKey := by
  cases h : s.light.depositAddress lib added with
  | error e => rw [step_of_depositAddress_error h]
  | ok deposit =>
    obtain ⟨key, hstep⟩ := step_of_depositAddress_ok h
    rw [hstep]
    rfl

theorem changeTo_iff {address : Address} {s : Deposits} :
    ChangeTo lib address s ↔
      s.light.wallet.keyStore.keys.head? = some address ∧ address ∉ s.addresses := by
  constructor
  · intro h
    exact ⟨getChangeAddress_eq_ok.mp h.changeAddress, h.deposits⟩
  · rintro ⟨hfirst, hdeposits⟩
    have hchange := (getChangeAddress_eq_ok (E := E)).mpr hfirst
    refine ⟨hchange, by rw [BitcoinLight.getNewAddress, hchange]; rfl, ?_, hdeposits⟩
    intro recipient sat feeRate requestId locked hruns
    obtain ⟨changeAddress, hchange', hfunded⟩ := (keeps_createTransaction (I := fun _ => True)
      (fun _ _ _ _ _ _ _ => trivial) s.light recipient sat feeRate requestId trivial).returns hruns
    rw [hchange, Except.ok.injEq] at hchange'
    rw [hchange']
    exact hfunded.change

theorem changeTo_step_iff {address : Address} {s : Deposits} (secretKey : List UInt8)
    (h : ChangeTo lib address s) :
    ChangeTo lib address (s.step lib secretKey) ↔
      DepositAfter lib s.light address secretKey := by
  obtain ⟨hfirst, hdeposits⟩ := changeTo_iff.mp h
  cases hdeposit : s.light.depositAddress lib secretKey with
  | error e =>
    rw [step_of_depositAddress_error hdeposit, iff_true_left h]
    intro deposit hdeposit'
    rw [hdeposit] at hdeposit'
    cases hdeposit'
  | ok deposit =>
    obtain ⟨key, hstep⟩ := step_of_depositAddress_ok hdeposit
    have hafter : DepositAfter lib s.light address secretKey ↔ address < deposit := by
      simp [DepositAfter, hdeposit]
    rw [hafter, changeTo_iff, hstep, head?_keys_insert, hfirst, Option.elim_some,
      Option.some.injEq, min_eq_right_iff, List.mem_append, List.mem_singleton, not_or,
      lt_iff_le_and_ne]
    exact and_congr_right fun _ => and_iff_right hdeposits

theorem changeTo_new {privateKey : PrivateKey} {light : BitcoinLight} {address : Address}
    (hnew : BitcoinLight.new lib privateKey = .ok light)
    (haddress : light.derivationAddress lib = .ok address) : ChangeTo lib address ⟨light, []⟩ := by
  obtain ⟨wallet, hwallet, hnew⟩ := Prog.bind_eq_ok hnew
  obtain ⟨derivation, hkey, hwallet⟩ := Prog.bind_eq_ok hwallet
  cases hwallet
  cases hnew
  have hsame : derivation = address := Except.ok.inj (hkey.symm.trans haddress)
  rw [changeTo_iff, ← hsame]
  refine ⟨?_, List.not_mem_nil⟩
  exact head?_keys_insert (Wallet.new privateKey.network).keyStore derivation _

variable (lib) in
/-- In the states of a run that adds deposit keys, all change goes to the derivation address exactly
when every deposit address that is added comes after it. -/
theorem always_changeTo_iff {privateKey : PrivateKey} {light : BitcoinLight} {address : Address}
    (hnew : BitcoinLight.new lib privateKey = .ok light)
    (haddress : light.derivationAddress lib = .ok address) (secretKeys : List (List UInt8)) :
    Run.Always (Deposits.step lib) (ChangeTo lib address) ⟨light, []⟩ secretKeys ↔
      ∀ secretKey ∈ secretKeys, DepositAfter lib light address secretKey := by
  refine (Run.always_iff_along (fun s secretKey h => changeTo_step_iff secretKey h)
    (changeTo_new hnew haddress)).trans (Run.along_iff_forall
    (J := fun s => s.light.depositAddress lib = light.depositAddress lib) ?_ ?_ rfl)
  · intro s secretKey hs
    funext other
    rw [depositAddress_step, hs]
  · intro s secretKey hs
    rw [DepositAfter, DepositAfter, hs]

/-! ### One deposit key of three -/

def noPayments : Lib String := threeKeys [] []

/-- The address of key 1. -/
def derivation : Address := regtestAddress 0x751e76e8199196d454941c45d1b3a323f1433bd6

/-- The client of the derivation key 1. -/
def firstKeyLight : BitcoinLight :=
  ⟨⟨.regtest, 1⟩, ⟨.regtest, (∅ : KeyStore).insert derivation ⟨.regtest, 1⟩⟩⟩

/-- The deposit address of the secret key 3 comes after the derivation address. -/
theorem always_changeTo_iff_third :
    Run.Always (Deposits.step noPayments) (ChangeTo noPayments derivation) ⟨firstKeyLight, []⟩
      [toBytes 32 3] := by
  have hnew : BitcoinLight.new noPayments ⟨.regtest, 1⟩ = .ok firstKeyLight := rfl
  refine (always_changeTo_iff noPayments hnew rfl [toBytes 32 3]).mpr fun secretKey hsecretKey => ?_
  rw [List.mem_singleton.mp hsecretKey]
  have hdeposit : firstKeyLight.depositAddress noPayments (toBytes 32 3) =
      .ok (regtestAddress 0x7dd65592d0ab2fe0d0257d571abf032cd9db93dc) := rfl
  intro deposit h
  rw [hdeposit] at h
  cases h
  decide

/-- That of the secret key 2 comes before it, and receives the change from then on. -/
theorem not_always_changeTo :
    BitcoinLight.new noPayments ⟨.regtest, 1⟩ = .ok firstKeyLight ∧
      (Deposits.step noPayments ⟨firstKeyLight, []⟩ (toBytes 32 2)).addresses =
        [regtestAddress 0x06afd46bcdfd22ef94ac122aa11f241244a37ecc] ∧
      (Deposits.step noPayments ⟨firstKeyLight, []⟩ (toBytes 32 2)).light.getChangeAddress
        (E := String) = .ok (regtestAddress 0x06afd46bcdfd22ef94ac122aa11f241244a37ecc) ∧
      ¬Run.Always (Deposits.step noPayments) (ChangeTo noPayments derivation) ⟨firstKeyLight, []⟩
        [toBytes 32 2] := by
  have hdeposits : (Deposits.step noPayments ⟨firstKeyLight, []⟩ (toBytes 32 2)).addresses =
      [regtestAddress 0x06afd46bcdfd22ef94ac122aa11f241244a37ecc] := rfl
  have hchange : (Deposits.step noPayments ⟨firstKeyLight, []⟩
    (toBytes 32 2)).light.getChangeAddress
      (E := String) = .ok (regtestAddress 0x06afd46bcdfd22ef94ac122aa11f241244a37ecc) := rfl
  refine ⟨rfl, hdeposits, hchange, fun h => ?_⟩
  have hderivation := h.last.changeAddress
  cases hchange.symm.trans hderivation

end InterBtcClients.Bitcoin.Light
