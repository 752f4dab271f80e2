import InterBtcClients.Bitcoin.FeeBump
import InterBtcClients.Bitcoin.UnknownScripts
import Mathlib.Logic.Relation

/-! When the fee of a payment can be raised.  The replacement has the outputs of the payment, with
its change found again among them, and the wallet has the keys for all coins that it can be funded
with when the server names the scripts that they have; but the light client takes it for granted
that there is change, and panics when there is none. -/

namespace InterBtcClients.Bitcoin.Light

open Library Electrs Wallet InterBtcClients.Runtime

variable {E : Type} (lib : Lib E)

/-! ### The client and the server -/

/-- What the wallet relies on about the bitcoin library: the scripts of the addresses of keys are
read back on their network, and a partially signed transaction has a place for each input. -/
structure ReadsScripts (lib : Lib E) : Prop where
  network : ∀ {publicKey network address}, lib.p2wpkh publicKey network = .ok address →
    address.network = network
  payload : ∀ {publicKey network address}, lib.p2wpkh publicKey network = .ok address →
    lib.payloadFromScript (lib.scriptPubkey address) = .ok address.payload
  address : ∀ {publicKey network address}, lib.p2wpkh publicKey network = .ok address →
    lib.addressFromScript (lib.scriptPubkey address) network = .ok address
  inputs : ∀ {tx psbt}, lib.fromUnsignedTx tx = .ok psbt → psbt.inputs.length = tx.input.length

/-- A deposit key is added to the client. -/
def AddsKey (light light' : BitcoinLight) : Prop :=
  ∃ secretKey, light.addNewDepositKey lib secretKey = .ok light'

/-- The client later on, when it may have more deposit keys. -/
abbrev Grows : BitcoinLight → BitcoinLight → Prop := Relation.ReflTransGen (AddsKey lib)

/-- The client of a derivation key, with any deposit keys. -/
def Built (light : BitcoinLight) : Prop :=
  ∃ privateKey start, BitcoinLight.new lib privateKey = .ok start ∧ Grows lib start light

/-- A server of a chain whose outputs have the scripts `scripts`, which has the raw form of the
transactions `transactions`: it names these scripts and lists outputs for the address that they are
to.  The values, which outputs it lists, what it does with the transactions that it is sent and
which requests fail is its choice.  The state is what it has been sent. -/
def electrsEnv (scripts : OutPoint → Script) (transactions : Txid → Option Transaction) :
    Prog.Env (api E) (List Transaction)
  | sent, .tx txid, .ok tx, sent' =>
    (∀ (vout : UInt32) txOut, tx.vout[vout.toNat]? = some txOut →
      txOut.scriptpubkey = scripts ⟨txid, vout⟩) ∧ sent' = sent
  | sent, .addressUtxo address, .ok utxos, sent' =>
    (∀ utxo ∈ utxos, scripts ⟨utxo.txid, utxo.vout⟩ = lib.scriptPubkey address) ∧ sent' = sent
  | sent, .txHex txid, .ok rawTx, sent' =>
    (∀ tx, transactions txid = some tx → lib.deserialize rawTx = .ok tx) ∧ sent' = sent
  | sent, .postTx tx, _, sent' => sent' = sent ++ [tx]
  | sent, _, _, sent' => sent' = sent

/-- An error that is returned to the caller, not a panic. -/
def Failure.IsError {X : Type} : Failure X → Prop
  | .error _ => True
  | .panic _ => False

/-- How a fee bump of `original`, which pays `payment`, may end: with an error, or with one
transaction sent.  It has the outputs of the original one but for the change, which goes where it
went before. -/
def KeepsPayment (light : BitcoinLight) (payment : List TxOut) (original : Transaction) :
    Except (Failure (BitcoinError E)) Txid → List Transaction → Prop :=
  Prog.Outcome (fun _ sent => ∃ tx changeAddress, sent = [tx] ∧
      light.getChangeAddress (E := E) = .ok changeAddress ∧
      PaysChange lib changeAddress payment original.output ∧
      PaysChange lib changeAddress payment tx.output)
    fun e _ => e.IsError

/-- Every run of a fee bump keeps the payment, with a server that names the scripts `named`. -/
def BumpKeepsPayment (light later : BitcoinLight) (named : OutPoint → Script)
    (transactions : Txid → Option Transaction) (txid : Txid) (recipient : Address)
    (feeRate : SatPerVbyte) (payment : List TxOut) (original : Transaction) : Prop :=
  ∀ result sent, Prog.Runs (electrsEnv lib named transactions)
    (later.bumpFee lib txid recipient feeRate).run [] (.pure result) sent →
    KeepsPayment lib light payment original result sent

/-- An output with a value that is not to the destination. -/
def PaysOther (destination : Payload) (txOut : TxOut) : Prop :=
  0 < txOut.value ∧
    ∃ payload, lib.payloadFromScript txOut.scriptPubkey = .ok payload ∧ payload ≠ destination

/-- The wallet has the keys for the scripts `named` of what a transaction spends, apart from outputs
of `txid`, which are not spent again by a transaction that replaces `txid`. -/
def Wallet.KnowsInputs (wallet : Wallet) (named : OutPoint → Script) (txid : Txid)
    (tx : Transaction) : Prop :=
  ∀ outpoint ∈ tx.spends, outpoint.txid ≠ txid → wallet.HasKey lib (named outpoint)

/-- The addresses of the key store are those of keys. -/
structure Sound (light : BitcoinLight) : Prop where
  network : light.wallet.network = light.privateKey.network
  keys : ∀ address ∈ light.wallet.keyStore,
    ∃ publicKey, lib.p2wpkh publicKey light.wallet.network = .ok address

variable {lib}

section Client

variable {light light' : BitcoinLight} {script : Script}

theorem hasKey_iff {wallet : Wallet} : wallet.HasKey lib script ↔
    ∃ address, lib.addressFromScript script wallet.network = .ok address ∧
      address ∈ wallet.keyStore := by
  constructor
  · rintro ⟨publicKey, hpublic⟩
    obtain ⟨privateKey, hprivate, -⟩ := Prog.bind_eq_ok hpublic
    obtain ⟨address, haddress, hlookup⟩ := Prog.bind_eq_ok hprivate
    refine ⟨address, Prog.mapError_eq_ok haddress, ?_⟩
    rw [Std.TreeMap.mem_iff_isSome_getElem?]
    split at hlookup
    next found hfound => rw [hfound]; rfl
    next => cases hlookup
  · rintro ⟨address, haddress, hmem⟩
    rw [Std.TreeMap.mem_iff_isSome_getElem?] at hmem
    obtain ⟨privateKey, hlookup⟩ := Option.isSome_iff_exists.mp hmem
    refine ⟨lib.publicKey privateKey, ?_⟩
    rw [getPubKey, getPrivKey, haddress, Prog.mapError_ok, Prog.ok_bind, hlookup]
    rfl

/-- Adding a key puts its address into the key store and leaves the rest. -/
theorem eq_of_putP2wpkhKey {wallet wallet' : Wallet} {secretKey : SecretKey}
    (h : wallet.putP2wpkhKey lib secretKey = .ok wallet') :
    ∃ publicKey address, lib.p2wpkh publicKey wallet.network = .ok address ∧
      wallet' = { wallet with
        keyStore := wallet.keyStore.insert address ⟨wallet.network, secretKey⟩ } := by
  obtain ⟨address, haddress, h⟩ := Prog.bind_eq_ok h
  cases h
  exact ⟨_, address, Prog.mapError_eq_ok haddress, rfl⟩

theorem eq_of_addsKey (h : AddsKey lib light light') :
    ∃ secretKey wallet, light.wallet.putP2wpkhKey lib secretKey = .ok wallet ∧
      light' = { light with wallet } := by
  obtain ⟨secretKey, h⟩ := h
  obtain ⟨depositKey, -, h⟩ := Prog.bind_eq_ok h
  obtain ⟨wallet, hwallet, h⟩ := Prog.bind_eq_ok h
  cases h
  exact ⟨depositKey, wallet, Prog.mapError_eq_ok hwallet, rfl⟩

/-- The wallet with one more key has addresses of keys only, if it had such addresses before. -/
theorem keys_putP2wpkhKey {wallet wallet' : Wallet} {secretKey : SecretKey}
    (h : wallet.putP2wpkhKey lib secretKey = .ok wallet')
    (hkeys : ∀ address ∈ wallet.keyStore,
      ∃ publicKey, lib.p2wpkh publicKey wallet.network = .ok address) :
    wallet'.network = wallet.network ∧ ∀ address ∈ wallet'.keyStore,
      ∃ publicKey, lib.p2wpkh publicKey wallet'.network = .ok address := by
  obtain ⟨publicKey, added, hadded, rfl⟩ := eq_of_putP2wpkhKey h
  refine ⟨rfl, fun address haddress => ?_⟩
  rcases Std.TreeMap.mem_insert.mp haddress with hsame | haddress
  · rw [← compare_eq_iff_eq.mp hsame]
    exact ⟨publicKey, hadded⟩
  · exact hkeys address haddress

theorem sound_new {privateKey : PrivateKey} (h : BitcoinLight.new lib privateKey = .ok light) :
    Sound lib light := by
  obtain ⟨wallet, hwallet, h⟩ := Prog.bind_eq_ok h
  cases h
  obtain ⟨hnetwork, hkeys⟩ := keys_putP2wpkhKey hwallet fun address haddress =>
    absurd haddress Std.TreeMap.not_mem_emptyc
  exact ⟨hnetwork, hkeys⟩

theorem Sound.grows (h : Sound lib light) (hgrows : Grows lib light light') : Sound lib light' := by
  induction hgrows with
  | refl => exact h
  | tail _ hadds ih =>
    obtain ⟨secretKey, wallet, hwallet, rfl⟩ := eq_of_addsKey hadds
    obtain ⟨hnetwork, hkeys⟩ := keys_putP2wpkhKey hwallet ih.keys
    exact ⟨hnetwork.trans ih.network, hkeys⟩

theorem Built.sound (h : Built lib light) : Sound lib light := by
  obtain ⟨privateKey, start, hnew, hgrows⟩ := h
  exact (sound_new hnew).grows hgrows

/-- No key is lost. -/
theorem wallet_of_grows (hgrows : Grows lib light light') :
    light'.wallet.network = light.wallet.network ∧
      ∀ address ∈ light.wallet.keyStore, address ∈ light'.wallet.keyStore := by
  induction hgrows with
  | refl => exact ⟨rfl, fun _ => id⟩
  | tail _ hadds ih =>
    obtain ⟨secretKey, wallet, hwallet, rfl⟩ := eq_of_addsKey hadds
    obtain ⟨publicKey, added, -, rfl⟩ := eq_of_putP2wpkhKey hwallet
    exact ⟨ih.1, fun address haddress => Std.TreeMap.mem_insert.mpr (.inr (ih.2 address haddress))⟩

theorem hasKey_of_grows (hgrows : Grows lib light light') (h : light.wallet.HasKey lib script) :
    light'.wallet.HasKey lib script := by
  obtain ⟨hnetwork, hkeys⟩ := wallet_of_grows hgrows
  obtain ⟨address, haddress, hmem⟩ := hasKey_iff.mp h
  rw [← hnetwork] at haddress
  exact hasKey_iff.mpr ⟨address, haddress, hkeys address hmem⟩

theorem hasKey_of_mem {address : Address} (hlib : ReadsScripts lib) (h : Sound lib light)
    (hmem : address ∈ light.wallet.keyStore) :
    light.wallet.HasKey lib (lib.scriptPubkey address) := by
  obtain ⟨publicKey, hkey⟩ := h.keys address hmem
  exact hasKey_iff.mpr ⟨address, hlib.address hkey, hmem⟩

end Client

/-! ### Signing -/

/-- Every input can be signed: its coin is known, and the wallet has the key for it. -/
structure Signable (lib : Lib E) (wallet : Wallet) (psbt : PartiallySignedTransaction) : Prop where
  length : psbt.inputs.length = psbt.unsignedTx.input.length
  witnessUtxo : ∀ psbtInput ∈ psbt.inputs,
    ∃ txOut, psbtInput.witnessUtxo = some txOut ∧ wallet.HasKey lib txOut.scriptPubkey

section Signing

variable {wallet : Wallet} {psbt : PartiallySignedTransaction}

theorem Signable.addInput {scriptPubkey : Script} (h : Signable lib wallet psbt) (utxo : Utxo)
    (hkey : wallet.HasKey lib scriptPubkey) :
    Signable lib wallet (addInput psbt utxo scriptPubkey) where
  length := by simp [Wallet.addInput, h.length]
  witnessUtxo psbtInput hmem := by
    rcases List.mem_append.mp hmem with hmem | hmem
    · exact h.witnessUtxo psbtInput hmem
    · rw [List.mem_singleton.mp hmem]
      exact ⟨_, rfl, hkey⟩

theorem Signable.withOutput (h : Signable lib wallet psbt) (output : List TxOut) :
    Signable lib wallet (withOutput psbt output) :=
  ⟨h.length, h.witnessUtxo⟩

/-- The wallet finds the size of a transaction that it can sign. -/
theorem Signable.exists_size (h : Signable lib wallet psbt) :
    ∃ n, calculateMaximumSignedTxSize lib psbt wallet = .ok n := by
  cases hsize : calculateMaximumSignedTxSize lib psbt wallet with
  | ok n => exact ⟨n, rfl⟩
  | error e =>
    rcases Prog.bind_eq_error hsize with hinput | ⟨input, -, hweight⟩
    · obtain ⟨⟨txin, i⟩, hmem, hinput⟩ := Prog.exists_of_mapM_eq_error hinput
      have hlength : (lib.extractTx psbt).input.length = psbt.inputs.length := by
        have := congrArg List.length (lib.spends_extractTx psbt)
        rwa [Transaction.spends, Transaction.spends, List.length_map, List.length_map,
          ← h.length] at this
      have hi : i < psbt.inputs.length := by
        have := (List.mem_zipIdx hmem).2.1
        omega
      have hfound := List.getElem?_eq_getElem hi
      obtain ⟨txOut, hutxo, publicKey, hpublic⟩ := h.witnessUtxo _ (List.getElem_mem hi)
      dsimp only at hinput
      rw [hfound, expectSome, Prog.ok_bind, hutxo, expectSome, Prog.ok_bind, hpublic, expect,
        Prog.ok_bind] at hinput
      cases hinput
    · cases hweight

theorem Signable.exists_of_addChange {params : FundParams} {s : Funding}
    {r : Except (Failure (Error E)) PartiallySignedTransaction}
    (hadd : addChange lib params wallet s = r) (h : Signable lib wallet s.psbt) :
    ∃ psbt, r = .ok psbt ∧ Signable lib wallet psbt := by
  let changeAmount := s.selectCoins.getChange params.minViableChange params.changeFee
  let changed : PartiallySignedTransaction :=
    if changeAmount > 0 then Wallet.withOutput s.psbt (s.psbt.unsignedTx.output ++
      [⟨changeAmount, lib.scriptPubkey params.changeAddress⟩])
    else s.psbt
  have hchanged : Signable lib wallet changed := by
    by_cases hchange : changeAmount > 0
    · rw [show changed = _ from if_pos hchange]
      exact h.withOutput _
    · rw [show changed = _ from if_neg hchange]
      exact h
  obtain ⟨n, hsize⟩ := hchanged.exists_size
  rw [addChange, hsize, Prog.ok_bind] at hadd
  subst hadd
  dsimp only
  split
  · exact ⟨_, rfl, hchanged.withOutput _⟩
  · exact ⟨_, rfl, hchanged⟩

theorem isError_of_mapError {X Y A : Type} {x : Except X A} {f : X → Y} {e : Failure Y}
    (h : (x.mapError fun e => .error (f e)) = .error e) : e.IsError := by
  obtain ⟨e', -, rfl⟩ := Prog.mapError_eq_error h
  trivial

theorem Signable.isError_of_signTransaction {e : Failure (Error E)} (h : Signable lib wallet psbt)
    (hsign : signTransaction lib wallet psbt = .error e) : e.IsError := by
  rcases Prog.bind_eq_error hsign with hinput | ⟨inputs, -, hinputs⟩
  · obtain ⟨⟨psbtInput, i⟩, hmem, hinput⟩ := Prog.exists_of_mapM_eq_error hinput
    obtain ⟨txOut, hutxo, -⟩ := h.witnessUtxo psbtInput (List.fst_mem_of_mem_zipIdx hmem)
    dsimp only at hinput
    rw [signInput, hutxo, expectSome, Prog.ok_bind] at hinput
    rcases Prog.bind_eq_error hinput with hhash | ⟨sighashTy, -, hinput⟩
    · exact isError_of_mapError hhash
    split at hinput
    next scriptCode =>
      rw [Prog.ok_bind] at hinput
      rcases Prog.bind_eq_error hinput with hhash | ⟨sigHash, -, hinput⟩
      · exact isError_of_mapError hhash
      rcases Prog.bind_eq_error hinput with hkey | ⟨privateKey, -, hinput⟩
      · exact isError_of_mapError (f := id) hkey
      · cases hinput
    next =>
      cases hinput
      trivial
  · cases hinputs

end Signing

/-! ### Funding -/

section Funding

variable {scripts : OutPoint → Script} {transactions : Txid → Option Transaction}
variable {sent : List Transaction} {light : BitcoinLight} {wallet : Wallet} {base : List TxOut}

theorem electrsEnv_query (w : List Transaction) (c : Call) (r : (api E).Answer c)
    (w' : List Transaction) (hw : w = sent) (hc : c.IsQuery)
    (hr : electrsEnv lib scripts transactions w c r w') : w' = sent := by
  rw [← hw]
  cases c with
  | postTx tx => cases hc
  | tx txid | txHex txid | addressUtxo address =>
    cases r with
    | ok answer => exact hr.2
    | error e => exact hr
  | scripthashTxsChain scripthash last | addressTxsChain address last => exact hr

theorem keeps_getScriptPubkey (outpoint : OutPoint) :
    Prog.Keeps (electrsEnv lib scripts transactions) (· = sent) (getScriptPubkey outpoint).run
      (Prog.Outcome (fun script _ => script = scripts outpoint) fun _ _ => True) sent := by
  have hprev : Prog.Keeps (electrsEnv lib scripts transactions) (· = sent) (getPrevOut outpoint).run
      (Prog.Outcome (fun txOut _ => txOut.scriptpubkey = scripts outpoint) fun _ _ => True)
      sent := by
    refine Prog.keeps_run_seq (P := fun tx _ => ∀ txOut,
      tx.vout[outpoint.vout.toNat]? = some txOut → txOut.scriptpubkey = scripts outpoint)
      ⟨rfl, fun r w' hr => ?_⟩ fun tx w hw htx => ?_
    · cases r with
      | ok tx => exact ⟨hr.2, hr.1 outpoint.vout⟩
      | error e => exact ⟨hr, trivial⟩
    · split
      next txOut htxOut => exact ⟨hw, htx txOut htxOut⟩
      next => exact ⟨hw, trivial⟩
  exact Prog.keeps_run_seq hprev fun txOut w hw htxOut => ⟨hw, htxOut⟩

/-- The outputs that the server lists for the addresses of the wallet are coins that it has keys
for. -/
theorem lists_electrsEnv {address : Address} {Coin : OutPoint → Prop}
    (hkey : wallet.HasKey lib (lib.scriptPubkey address))
    (hcoin : ∀ outpoint, wallet.HasKey lib (scripts outpoint) → Coin outpoint) :
    Lists (electrsEnv lib scripts transactions) (· = sent) Coin address := by
  rintro w utxos w' - ⟨hlisted, -⟩ utxo hutxo
  refine hcoin _ ?_
  rw [hlisted utxo hutxo]
  exact hkey

/-- What a transaction has to meet while it is funded: it can be signed, and pays `base`. -/
structure Signs (lib : Lib E) (wallet : Wallet) (base : List TxOut)
    (psbt : PartiallySignedTransaction) : Prop where
  signable : Signable lib wallet psbt
  output : psbt.unsignedTx.output = base

/-- A round with a coin that the wallet has a key for does not panic. -/
theorem keeps_fundRound_signs {params : FundParams} {s : Funding} {coin : Except (Error E) Utxo}
    (hcoin : IsCoin (fun outpoint => params.prevTxid ≠ some outpoint.txid →
      wallet.HasKey lib (scripts outpoint)) coin)
    (hs : Signs lib wallet base s.psbt) :
    Prog.Keeps (electrsEnv lib scripts transactions) (· = sent)
      (fundRound lib params wallet coin s).run
      (Prog.Outcome (Sum.elim (fun s _ => Signs lib wallet base s.psbt)
        fun result _ => ∀ psbt, result = some psbt → Signable lib wallet psbt ∧
          PaysChange lib params.changeAddress base psbt.unsignedTx.output)
        fun e _ => e.IsError) sent := by
  cases coin with
  | error e => exact ⟨rfl, nofun⟩
  | ok utxo =>
    by_cases hkept : params.prevTxid = some utxo.outpoint.txid
    · rw [fundRound, if_pos hkept]
      exact ⟨rfl, hs⟩
    rw [fundRound, if_neg hkept]
    refine Prog.keeps_run_seq (P := fun script _ => script = scripts utxo.outpoint)
      (Prog.keeps_run_adapt.mpr ((keeps_getScriptPubkey utxo.outpoint).mono fun r _ _ hr => ?_))
      fun scriptPubkey w hw hscript => ?_
    · cases r with
      | ok script => exact hr
      | error e => trivial
    subst hw hscript
    obtain ⟨publicKey, hpublic⟩ := hcoin utxo rfl hkept
    have hadded := hs.signable.addInput utxo ⟨publicKey, hpublic⟩
    refine Prog.keeps_run_bind.mpr (Prog.keeps_run_ofExcept.mpr ⟨rfl, ?_⟩)
    rw [hpublic]
    dsimp only [expect, Prog.Outcome]
    split
    · refine Prog.keeps_run_bind.mpr (Prog.keeps_run_ofExcept.mpr ⟨rfl, ?_⟩)
      generalize hadd : addChange _ _ _ _ = r
      obtain ⟨psbt, rfl, hsignable⟩ := Signable.exists_of_addChange hadd hadded
      refine ⟨rfl, ?_⟩
      rintro _ ⟨⟩
      exact ⟨hsignable, hs.output ▸ (adds_addChange hadd).2⟩
    · exact ⟨rfl, hadded, hs.output⟩

/-- The wallet funds and signs without a panic when it has the keys for the change and for the coins
that are to be spent. -/
theorem keeps_fundAndSignTransaction_signs (recipient : Address) {changeAddress : Address}
    {unsignedTx : Transaction} (feeRate : SatPerVbyte) (prevTxid : Option Txid)
    (hlib : ReadsScripts lib) (hlight : Sound lib light)
    (hchange : light.wallet.HasKey lib (lib.scriptPubkey changeAddress))
    (hspends : SpendsOnly (fun outpoint => prevTxid ≠ some outpoint.txid →
      light.wallet.HasKey lib (scripts outpoint)) unsignedTx) :
    Prog.Keeps (electrsEnv lib scripts transactions) (· = sent)
      (light.fundAndSignTransaction lib recipient unsignedTx changeAddress feeRate prevTxid).run
      (Prog.Outcome (fun locked _ =>
        PaysChange lib changeAddress unsignedTx.output locked.transaction.output)
        fun e _ => e.IsError) sent := by
  have hfund : Prog.Keeps (electrsEnv lib scripts transactions) (· = sent)
      (fundTransaction lib light.wallet unsignedTx changeAddress (saturatingMul feeRate 1000)
        prevTxid).run
      (Prog.Outcome (fun psbt _ => Signable lib light.wallet psbt ∧
        PaysChange lib changeAddress unsignedTx.output psbt.unsignedTx.output)
        fun e _ => e.IsError) sent := by
    refine keeps_fundTransaction_of_select rfl (fun _ => trivial) (fun e he => ?_)
      fun params s w hw hparams hprevTxid hunsigned => ?_
    · obtain ⟨publicKey, hpublic⟩ := hchange
      rw [hpublic] at he
      cases he
    subst hw hparams hprevTxid
    have hgives : (availableCoins light.wallet.keyStore.keys unsignedTx.input).Gives
        (electrsEnv lib scripts transactions) (· = w)
        (IsCoin fun outpoint => params.prevTxid ≠ some outpoint.txid →
          light.wallet.HasKey lib (scripts outpoint)) w :=
      gives_availableCoins electrsEnv_query
        (fun txin htxin => hspends _ (List.mem_map_of_mem htxin))
        (fun address haddress => lists_electrsEnv
          (hasKey_of_mem hlib hlight (Std.TreeMap.mem_of_mem_keys haddress))
          fun _ hkey _ => hkey) rfl
    have hpsbt := lib.unsignedTx_of_fromUnsignedTx hunsigned
    have hinputs := hlib.inputs hunsigned
    refine AsyncStream.keeps_run_forUntil_of_gives
      (J := fun s => Signs lib light.wallet unsignedTx.output s.psbt) (fun _ _ _ _ => trivial)
      (fun coin s w' hw hcoin hs => ?_) hgives ⟨⟨?_, ?_⟩, ?_⟩
    · subst hw
      exact keeps_fundRound_signs hcoin hs
    · rw [hinputs, hpsbt]
    · rw [List.length_eq_zero_iff.mp hinputs]
      exact nofun
    · rw [hpsbt]
  refine (keeps_fundAndSignTransaction_of_fund (R := Failure.IsError) (fun psbt e hpsbt he => ?_)
    (hfund.mono fun r _ _ hr => hr.imp (fun _ => id) fun e he => ?_)).mono
    fun r _ _ hr => hr.imp ?_ fun _ => id
  · have herror := hpsbt.1.isError_of_signTransaction he
    cases e with
    | error e => trivial
    | panic message => cases herror
  · cases e with
    | error e => trivial
    | panic message => cases he
  · rintro locked ⟨psbt, ⟨-, hchange⟩, -, houtput⟩
    rwa [houtput]

end Funding

/-! ### The change of a payment -/

section Change

variable {tx : Transaction} {destination : Payload}

/-- The position and the payload of an output with a value that is not to the destination. -/
def otherOutput (lib : Lib E) (destination : Payload) (indexed : TxOut × Nat) :
    Option (Nat × Payload) :=
  if indexed.1.value > 0 then
    match lib.payloadFromScript indexed.1.scriptPubkey with
    | .ok payload => if payload ≠ destination then some (indexed.2, payload) else none
    | .error _ => none
  else none

theorem otherOutput_eq_none {indexed : TxOut × Nat}
    (h : ¬PaysOther lib destination indexed.1) : otherOutput lib destination indexed = none := by
  unfold otherOutput
  split
  next hvalue =>
    split
    next payload hread =>
      refine if_neg fun hother => h ⟨hvalue, payload, hread, hother⟩
    next => rfl
  next => rfl

theorem filter_extractIndexedOutputAddresses :
    (extractIndexedOutputAddresses lib tx).filter (·.2 ≠ destination) =
      tx.output.zipIdx.filterMap (otherOutput lib destination) := by
  rw [extractIndexedOutputAddresses, List.filterMap_filter, List.filter_filterMap]
  congr
  funext indexed
  unfold otherOutput
  dsimp only
  by_cases hvalue : indexed.1.value > 0
  · rw [if_pos (decide_eq_true hvalue), if_pos hvalue]
    cases lib.payloadFromScript indexed.1.scriptPubkey with
    | ok payload =>
      by_cases hsame : payload = destination
      · simp [Option.filter, hsame]
      · simp [Option.filter, hsame]
    | error e => rfl
  · rw [if_neg (mt of_decide_eq_true hvalue), if_neg hvalue]
    rfl

theorem extractReturnToSelfAddress_of_filterMap {others : List (Nat × Payload)}
    (h : tx.output.zipIdx.filterMap (otherOutput lib destination) = others)
    (hlength : others.length ≤ 1) :
    extractReturnToSelfAddress lib tx destination = .ok others.head? := by
  have hfilter := filter_extractIndexedOutputAddresses.trans h
  dsimp only [extractReturnToSelfAddress]
  split
  next hnil => rw [hfilter.symm.trans hnil]; rfl
  next address hone => rw [hfilter.symm.trans hone]; rfl
  next hnil hone =>
    rcases Nat.le_one_iff_eq_zero_or_eq_one.mp hlength with hzero | hlength
    · rw [List.length_eq_zero_iff.mp hzero] at hfilter
      exact absurd hfilter hnil
    · obtain ⟨address, rfl⟩ := List.length_eq_one_iff.mp hlength
      exact absurd hfilter (hone address)

theorem extractReturnToSelfAddress_none
    (h : ∀ txOut ∈ tx.output, ¬PaysOther lib destination txOut) :
    extractReturnToSelfAddress lib tx destination = .ok none := by
  have hnone : tx.output.zipIdx.filterMap (otherOutput lib destination) = [] :=
    List.filterMap_eq_nil_iff.mpr fun indexed hmem =>
      otherOutput_eq_none (h indexed.1 (List.fst_mem_of_mem_zipIdx hmem))
  exact extractReturnToSelfAddress_of_filterMap hnone (Nat.zero_le 1)

theorem extractReturnToSelfAddress_some {base : List TxOut} {change : TxOut} {payload : Payload}
    (houtput : tx.output = base ++ [change])
    (hbase : ∀ txOut ∈ base, ¬PaysOther lib destination txOut) (hvalue : 0 < change.value)
    (hread : lib.payloadFromScript change.scriptPubkey = .ok payload)
    (hother : payload ≠ destination) :
    extractReturnToSelfAddress lib tx destination = .ok (some (base.length, payload)) := by
  have hnone : base.zipIdx.filterMap (otherOutput lib destination) = [] :=
    List.filterMap_eq_nil_iff.mpr fun indexed hmem =>
      otherOutput_eq_none (hbase indexed.1 (List.fst_mem_of_mem_zipIdx hmem))
  have hchange : otherOutput lib destination (change, 0 + base.length) =
      some (base.length, payload) := by
    dsimp only [otherOutput]
    rw [if_pos hvalue, hread]
    dsimp only
    rw [if_pos hother, Nat.zero_add]
  have hothers : tx.output.zipIdx.filterMap (otherOutput lib destination) =
      [(base.length, payload)] := by
    rw [houtput, List.zipIdx_append, List.filterMap_append, hnone, List.zipIdx_singleton,
      List.nil_append, List.filterMap_cons, hchange]
    rfl
  exact extractReturnToSelfAddress_of_filterMap hothers le_rfl

/-- The outputs of a payment are to the recipient, or without a value. -/
theorem not_paysOther_payment {recipient : Address} {sat : UInt64} {requestId : Option H256}
    (hrecipient : ∀ payload, lib.payloadFromScript (lib.scriptPubkey recipient) = .ok payload →
      payload = recipient.payload) :
    ∀ txOut ∈ (Wallet.createTransaction lib recipient sat requestId).output,
      ¬PaysOther lib recipient.payload txOut := by
  rintro txOut hmem ⟨hvalue, payload, hread, hother⟩
  rcases List.mem_cons.mp hmem with rfl | hmem
  · exact hother (hrecipient payload hread)
  · obtain ⟨opReturn, -, rfl⟩ := Option.map_eq_some_iff.mp (Option.mem_toList.mp hmem)
    exact UInt64.lt_irrefl _ hvalue

end Change

/-! ### Fee bumps -/

section Bump

variable {scripts : OutPoint → Script} {transactions : Txid → Option Transaction}
variable {light later : BitcoinLight} {recipient changeAddress : Address} {original : Transaction}
variable {txid : Txid} {feeRate : SatPerVbyte} {payment : List TxOut}

/-- A payment spends coins that the wallet has keys for. -/
theorem spendsOnly_of_created {sat : UInt64} {requestId : Option H256} {locked : LockedTransaction}
    {sent : List Transaction} (hlib : ReadsScripts lib) (hlight : Sound lib light)
    (hcreated : Prog.Runs (electrsEnv lib scripts transactions)
      (light.createTransaction lib recipient sat feeRate requestId).run []
      (.pure (.ok locked)) sent) :
    SpendsOnly (fun outpoint => light.wallet.HasKey lib (scripts outpoint)) locked.transaction := by
  have hkeeps : Prog.Keeps (electrsEnv lib scripts transactions) (· = [])
      (light.createTransaction lib recipient sat feeRate requestId).run
      (Prog.Outcome (fun locked _ => SpendsOnly
        (fun outpoint => light.wallet.HasKey lib (scripts outpoint)) locked.transaction)
        fun _ _ => True) [] := by
    refine Prog.keeps_run_seq (P := fun _ _ => True) (Prog.keeps_run_ofExcept.mpr
      ⟨rfl, .intro (fun _ _ => trivial) fun _ _ => trivial⟩) fun changeAddress w hw _ => ?_
    exact keeps_fundAndSignTransaction_of_listed electrsEnv_query (fun address haddress =>
      lists_electrsEnv (hasKey_of_mem hlib hlight (Std.TreeMap.mem_of_mem_keys haddress))
        fun _ => id) rfl hw
  exact hkeeps.returns hcreated

/-- A payment whose change is found again is replaced by one with the same outputs, or the bump
fails. -/
theorem keeps_bumpFee_of_change {idx : Nat} (hlib : ReadsScripts lib) (hlater : Sound lib later)
    (htx : transactions txid = some original)
    (hreturn : extractReturnToSelfAddress lib original recipient.payload =
      .ok (some (idx, changeAddress.payload)))
    (houtput : (BitcoinLight.unfunded original idx).output = payment)
    (hchange : changeAddress ∈ later.wallet.keyStore)
    (hknows : later.wallet.KnowsInputs lib scripts txid original) :
    Prog.Keeps (electrsEnv lib scripts transactions) (fun _ => True)
      (later.bumpFee lib txid recipient feeRate).run
      (Prog.Outcome (fun _ sent => ∃ tx, sent = [tx] ∧
        PaysChange lib changeAddress payment tx.output) fun e _ => e.IsError) [] := by
  have hnetwork : changeAddress.network = later.privateKey.network := by
    obtain ⟨publicKey, hkey⟩ := hlater.keys changeAddress hchange
    rw [hlib.network hkey, hlater.network]
  refine Prog.keeps_run_seq (P := fun tx sent => tx = original ∧ sent = [])
    ⟨trivial, fun r sent hr => ?_⟩ fun tx sent _ h => ?_
  · cases r with
    | error e => exact ⟨trivial, trivial⟩
    | ok rawTx =>
      obtain ⟨hraw, hsent⟩ := hr
      refine Prog.keeps_run_ofExcept.mpr ⟨trivial, ?_⟩
      rw [hraw original htx]
      exact ⟨rfl, hsent⟩
  obtain ⟨rfl, rfl⟩ := h
  refine Prog.keeps_run_bind.mpr (Prog.keeps_run_ofExcept.mpr ⟨trivial, ?_⟩)
  rw [hreturn]
  have hunfunded : SpendsOnly (fun outpoint => some txid ≠ some outpoint.txid →
      later.wallet.HasKey lib (scripts outpoint)) (BitcoinLight.unfunded tx idx) := by
    rw [SpendsOnly, spends_unfunded]
    exact fun outpoint hmem hkept =>
      hknows outpoint hmem fun hsame => hkept (congrArg some hsame.symm)
  have hfund : Prog.Keeps (electrsEnv lib scripts transactions) (· = []) _ _ [] :=
    keeps_fundAndSignTransaction_signs recipient feeRate (some txid) hlib hlater
      (hasKey_of_mem hlib hlater hchange) hunfunded
  have hsame : (⟨changeAddress.payload, later.privateKey.network⟩ : Address) = changeAddress := by
    rw [← hnetwork]
  show Prog.Keeps _ _ (ExceptT.run (later.fundAndSignTransaction lib recipient _
    ⟨changeAddress.payload, later.privateKey.network⟩ feeRate (some txid) >>= _)) _ _
  rw [hsame]
  rw [houtput] at hfund
  refine Prog.keeps_run_seq (P := fun locked sent => sent = [] ∧
    PaysChange lib changeAddress payment locked.transaction.output)
    ((hfund.weaken fun _ _ => trivial).mono fun r sent _ hr =>
      hr.2.imp (fun locked hlocked => ⟨hr.1, hlocked⟩) fun _ => id) fun locked sent _ hlocked => ?_
  obtain ⟨rfl, hpays⟩ := hlocked
  refine ⟨trivial, fun r sent hr => ⟨trivial, ?_⟩⟩
  cases r with
  | ok newTxid => exact ⟨locked.transaction, hr, hpays⟩
  | error e => trivial

theorem runs_getTransaction {rawTx : List UInt8} (htx : transactions txid = some original)
    (hraw : lib.deserialize rawTx = .ok original) :
    Prog.Runs (electrsEnv lib scripts transactions) (BitcoinLight.getTransaction lib txid).run []
      (.pure (.ok original)) [] := by
  have hanswer : electrsEnv lib scripts transactions [] (.txHex txid) (.ok rawTx) [] := by
    refine ⟨fun tx htx' => ?_, rfl⟩
    rw [htx] at htx'
    cases htx'
    exact hraw
  refine .step hanswer ?_
  show Prog.Runs _ (Prog.pure ((lib.deserialize rawTx).mapError _)) _ _ _
  rw [hraw]
  exact .refl _ _

/-- A payment without change makes a bump panic. -/
theorem runs_bumpFee_of_none {rawTx : List UInt8} (htx : transactions txid = some original)
    (hraw : lib.deserialize rawTx = .ok original)
    (hreturn : extractReturnToSelfAddress lib original recipient.payload = .ok none) :
    Prog.Runs (electrsEnv lib scripts transactions)
      (later.bumpFee lib txid recipient feeRate).run []
      (.pure (.error (.panic "called `Option::unwrap()` on a `None` value"))) [] := by
  refine (runs_getTransaction htx hraw).run_bind_ok ?_
  rw [hreturn]
  exact .refl _ _

/-- The server may say that the outputs it names the scripts of are worth nothing. -/
theorem runs_fundTransaction_of_unknown {tx : Transaction} {nSatoshisPerK : UInt64}
    {prevTxid : Option Txid} (hchange : later.wallet.HasKey lib (lib.scriptPubkey changeAddress))
    (hpsbt : ∃ psbt, lib.fromUnsignedTx { tx with input := [] } = .ok psbt)
    (hselect : selectionTarget lib tx ⟨nSatoshisPerK⟩ ≠ 0)
    (hunknown : ∃ outpoint ∈ tx.spends, prevTxid ≠ some outpoint.txid ∧
      ¬later.wallet.HasKey lib (scripts outpoint)) :
    Prog.Runs (electrsEnv lib scripts transactions)
      (fundTransaction lib later.wallet tx changeAddress nSatoshisPerK prevTxid).run []
      (.pure (.error (.panic "wallet has key"))) [] := by
  obtain ⟨outputs, houtputs⟩ := exists_worthless scripts
  rw [← houtputs.fundTransaction hchange hpsbt hselect hunknown]
  refine Prog.runs_eval_of_only (only_fundTransaction
    (fun txid => ⟨fun vout txOut htxOut => ?_, rfl⟩) (fun _ => ⟨nofun, rfl⟩) _ _ _ _ _)
  rw [houtputs ⟨txid, vout⟩] at htxOut
  cases htxOut
  rfl

/-- An input whose script the wallet does not know makes a bump panic. -/
theorem runs_bumpFee_of_unknown {rawTx : List UInt8} {idx : Nat}
    (htx : transactions txid = some original) (hraw : lib.deserialize rawTx = .ok original)
    (hreturn : extractReturnToSelfAddress lib original recipient.payload =
      .ok (some (idx, changeAddress.payload)))
    (hnetwork : changeAddress.network = later.privateKey.network)
    (hchange : later.wallet.HasKey lib (lib.scriptPubkey changeAddress))
    (hpsbt : ∃ psbt, lib.fromUnsignedTx
      { BitcoinLight.unfunded original idx with input := [] } = .ok psbt)
    (hselect : selectionTarget lib (BitcoinLight.unfunded original idx)
      ⟨saturatingMul feeRate 1000⟩ ≠ 0)
    (hunknown : ¬later.wallet.KnowsInputs lib scripts txid original) :
    Prog.Runs (electrsEnv lib scripts transactions)
      (later.bumpFee lib txid recipient feeRate).run []
      (.pure (.error (.panic "wallet has key"))) [] := by
  have hspent : ∃ outpoint ∈ (BitcoinLight.unfunded original idx).spends,
      some txid ≠ some outpoint.txid ∧ ¬later.wallet.HasKey lib (scripts outpoint) := by
    simp only [Wallet.KnowsInputs, not_forall] at hunknown
    obtain ⟨outpoint, hmem, hkept, hkey⟩ := hunknown
    rw [spends_unfunded]
    exact ⟨outpoint, hmem, fun hsame => hkept (Option.some.inj hsame).symm, hkey⟩
  have hsame : (⟨changeAddress.payload, later.privateKey.network⟩ : Address) = changeAddress := by
    rw [← hnetwork]
  have hfund : Prog.Runs (electrsEnv lib scripts transactions) _ [] _ [] :=
    runs_fundTransaction_of_unknown hchange hpsbt hselect hspent
  refine (runs_getTransaction htx hraw).run_bind_ok ?_
  rw [hreturn]
  show Prog.Runs _ (ExceptT.run (later.fundAndSignTransaction lib recipient _
    ⟨changeAddress.payload, later.privateKey.network⟩ feeRate (some txid) >>= _)) _ _ _
  rw [hsame]
  exact ((hfund.run_adapt_error _).run_bind_error _).run_bind_error _

/-- The change of a payment is found again when it has an output to another address. -/
theorem extractReturnToSelfAddress_of_paysOther (hlib : ReadsScripts lib) (hlight : Sound lib light)
    (hchange : changeAddress ∈ light.wallet.keyStore)
    (hpays : PaysChange lib changeAddress payment original.output)
    (hpayment : ∀ txOut ∈ payment, ¬PaysOther lib recipient.payload txOut)
    (hother : ∃ txOut ∈ original.output, PaysOther lib recipient.payload txOut) :
    extractReturnToSelfAddress lib original recipient.payload =
        .ok (some (payment.length, changeAddress.payload)) ∧
      (BitcoinLight.unfunded original payment.length).output = payment := by
  obtain ⟨change, houtput, hlength, hscript⟩ := hpays
  obtain ⟨txOut, hmem, hother⟩ := hother
  have hchanged : txOut ∈ change := by
    rw [houtput] at hmem
    exact (List.mem_append.mp hmem).resolve_left fun hmem => hpayment txOut hmem hother
  obtain rfl : change = [txOut] := by
    obtain ⟨first, rfl⟩ := List.length_eq_one_iff.mp
      (Nat.le_antisymm hlength (List.length_pos_of_mem hchanged))
    rw [List.mem_singleton.mp hchanged]
  obtain ⟨hvalue, payload, hread, hne⟩ := hother
  obtain ⟨publicKey, hkey⟩ := hlight.keys changeAddress hchange
  have hpayload : changeAddress.payload = payload := by
    rw [hscript txOut hchanged, hlib.payload hkey] at hread
    exact Except.ok.inj hread
  refine ⟨?_, ?_⟩
  · rw [hpayload]
    exact extractReturnToSelfAddress_some houtput hpayment hvalue hread hne
  · rw [BitcoinLight.unfunded, houtput]
    simp [List.eraseIdx_append_of_length_le]

end Bump

/-! ### The server of one coin -/

def firstScript : Script := witnessScript (toBytes 20 0x751e76e8199196d454941c45d1b3a323f1433bd6)

def thirdKeyAddress : Address := regtestAddress 0x7dd65592d0ab2fe0d0257d571abf032cd9db93dc

/-- A server with one output, for key 1, which takes no transactions. -/
def serveCoin (sent : List Transaction) :
    (call : Call) → (api String).Answer call × List Transaction
  | .tx txid => (.ok ⟨txid, [⟨firstScript, none, 100000⟩]⟩, sent)
  | .txHex _ => (.error "not found", sent)
  | .addressUtxo address =>
    (if address = derivation then .ok [⟨fundingTxid, 0, 100000⟩] else .ok [], sent)
  | .scripthashTxsChain _ _ => (.ok [], sent)
  | .addressTxsChain _ _ => (.ok [], sent)
  | .postTx tx => (.error "rejected", sent ++ [tx])

section ThreeKeys

variable {signed : List (Transaction × H256 × List UInt8)} {sent : List (Txid × Transaction)}
variable {transactions : Txid → Option Transaction}

theorem electrsEnv_serveCoin (posted : List Transaction) (call : Call) :
    electrsEnv (threeKeys signed sent) (fun _ => firstScript) transactions posted call
      (serveCoin posted call).1 (serveCoin posted call).2 := by
  cases call with
  | tx txid =>
    refine ⟨fun vout txOut htxOut => ?_, rfl⟩
    rw [List.mem_singleton.mp (List.mem_of_getElem? htxOut)]
  | addressUtxo address =>
    dsimp only [serveCoin]
    split
    next haddress =>
      subst haddress
      exact ⟨fun _ _ => rfl, rfl⟩
    next => exact ⟨nofun, rfl⟩
  | txHex txid | scripthashTxsChain scripthash last
  | addressTxsChain address last | postTx tx => rfl

theorem eq_of_p2wpkh_threeKeys {publicKey : PublicKey} {network : Network} {address : Address}
    (h : (threeKeys signed sent).p2wpkh publicKey network = .ok address) :
    ∃ program, program.length = 20 ∧ address = ⟨.witnessProgram 0 program, network⟩ := by
  simp only [threeKeys] at h
  split at h
  next key _ =>
    cases h
    exact ⟨toBytes 20 key.hash, length_toBytes 20 _, rfl⟩
  next => cases h

theorem readsScripts_threeKeys : ReadsScripts (threeKeys signed sent) where
  network h := by
    obtain ⟨program, -, rfl⟩ := eq_of_p2wpkh_threeKeys h
    rfl
  payload h := by
    obtain ⟨program, hlength, rfl⟩ := eq_of_p2wpkh_threeKeys h
    exact readScript_witnessScript program (.inl hlength)
  address h := by
    obtain ⟨program, hlength, rfl⟩ := eq_of_p2wpkh_threeKeys h
    show Except.bind (readScript (witnessScript program)) _ = _
    rw [readScript_witnessScript program (.inl hlength)]
    rfl
  inputs h := by
    simp only [threeKeys] at h
    split at h
    · cases h
      exact List.length_map _
    · cases h

theorem payload_thirdKeyAddress {payload : Payload}
    (h : (threeKeys signed sent).payloadFromScript ((threeKeys signed sent).scriptPubkey
      thirdKeyAddress) = .ok payload) : payload = thirdKeyAddress.payload := by
  obtain ⟨program, hlength, haddress⟩ : ∃ program, program.length = 20 ∧
      thirdKeyAddress = ⟨.witnessProgram 0 program, .regtest⟩ :=
    ⟨toBytes 20 0x7dd65592d0ab2fe0d0257d571abf032cd9db93dc, length_toBytes 20 _, rfl⟩
  rw [haddress] at h ⊢
  exact Except.ok.inj (h.symm.trans (readScript_witnessScript program (.inl hlength)))

end ThreeKeys

/-- The run of a payment at 10 satoshi per virtual byte for the request 7, found by calculation. -/
theorem exists_created (lib : Lib String) (transactions : Txid → Option Transaction) (sat : UInt64)
    (tx : Transaction) (hserve : ∀ posted call,
      electrsEnv lib (fun _ => firstScript) transactions posted call
        (serveCoin posted call).1 (serveCoin posted call).2)
    (hexec : (match (firstKeyLight.createTransaction lib thirdKeyAddress sat 10 (some 7)).run.exec
        serveCoin [] with
      | (.ok locked, []) => decide (locked.transaction = tx)
      | _ => false) = true) :
    ∃ locked, Prog.Runs (electrsEnv lib (fun _ => firstScript) transactions)
      (firstKeyLight.createTransaction lib thirdKeyAddress sat 10 (some 7)).run []
      (.pure (.ok locked)) [] ∧ locked.transaction = tx := by
  have hruns := Prog.runs_exec hserve
    (firstKeyLight.createTransaction lib thirdKeyAddress sat 10 (some 7)).run []
  split at hexec
  next locked hresult =>
    rw [hresult] at hruns
    exact ⟨locked, hruns, of_decide_eq_true hexec⟩
  next => cases hexec

/-! ### The condition -/

section Condition

variable {scripts named : OutPoint → Script} {transactions : Txid → Option Transaction}
variable {light later : BitcoinLight} {recipient : Address} {txid : Txid}
variable {feeRate createRate : SatPerVbyte} {sat : UInt64} {requestId : Option H256}
variable {locked : LockedTransaction}

/-- A payment has the change address of the client that created it. -/
theorem exists_change_of_created {sent : List Transaction}
    (hcreated : Prog.Runs (electrsEnv lib scripts transactions)
      (light.createTransaction lib recipient sat createRate requestId).run []
      (.pure (.ok locked)) sent) :
    ∃ changeAddress, light.getChangeAddress (E := E) = .ok changeAddress ∧
      changeAddress ∈ light.wallet.keyStore ∧
      PaysChange lib changeAddress (Wallet.createTransaction lib recipient sat requestId).output
        locked.transaction.output := by
  obtain ⟨changeAddress, hchange, hfunded⟩ :=
    (keeps_createTransaction electrsEnv_query light recipient sat createRate requestId rfl).returns
      hcreated
  exact ⟨changeAddress, hchange,
    Std.TreeMap.mem_of_mem_keys (List.mem_of_head? (getChangeAddress_eq_ok.mp hchange)),
    hfunded.change⟩

section Later

variable (hlib : ReadsScripts lib) (hlight : Built lib light) (hgrows : Grows lib light later)
  (hrecipient : ∀ payload, lib.payloadFromScript (lib.scriptPubkey recipient) = .ok payload →
    payload = recipient.payload)
  (hcreated : Prog.Runs (electrsEnv lib scripts transactions)
    (light.createTransaction lib recipient sat createRate requestId).run []
    (.pure (.ok locked)) [])
  (htx : transactions txid = some locked.transaction)

include htx in
/-- A bump that keeps the payment has found its change. -/
theorem paysOther_of_keeps {payment : List TxOut}
    (hraw : ∃ rawTx, lib.deserialize rawTx = .ok locked.transaction)
    (hkeeps : BumpKeepsPayment lib light later named transactions txid recipient feeRate payment
      locked.transaction) :
    ∃ txOut ∈ locked.transaction.output, PaysOther lib recipient.payload txOut := by
  obtain ⟨rawTx, hraw⟩ := hraw
  by_contra hnone
  refine hkeeps _ _ (runs_bumpFee_of_none htx hraw (extractReturnToSelfAddress_none ?_))
  exact fun txOut htxOut hother => hnone ⟨txOut, htxOut, hother⟩

include hlib hlight hgrows hcreated in
/-- The wallet has the keys for what a payment of its own spends. -/
theorem knowsInputs_of_named
    (hnamed : ∀ outpoint ∈ locked.transaction.spends, named outpoint = scripts outpoint) :
    later.wallet.KnowsInputs lib named txid locked.transaction := by
  intro outpoint hspent _
  rw [hnamed outpoint hspent]
  exact hasKey_of_grows hgrows (spendsOnly_of_created hlib hlight.sound hcreated outpoint hspent)

include hlib hlight hgrows hrecipient hcreated htx

theorem bumpKeepsPayment_of_knowsInputs
    (hother : ∃ txOut ∈ locked.transaction.output, PaysOther lib recipient.payload txOut)
    (hknows : later.wallet.KnowsInputs lib named txid locked.transaction) :
    BumpKeepsPayment lib light later named transactions txid recipient feeRate
      (Wallet.createTransaction lib recipient sat requestId).output locked.transaction := by
  intro result sent hruns
  have hsound := hlight.sound
  obtain ⟨changeAddress, hgetChange, hmem, hchange⟩ := exists_change_of_created hcreated
  obtain ⟨hreturn, houtput⟩ := extractReturnToSelfAddress_of_paysOther hlib hsound hmem hchange
    (not_paysOther_payment hrecipient) hother
  refine ((keeps_bumpFee_of_change hlib (hsound.grows hgrows) htx hreturn houtput
    ((wallet_of_grows hgrows).2 changeAddress hmem) hknows).returns hruns).imp ?_ fun _ => id
  rintro newTxid ⟨tx, hsent, hpays⟩
  exact ⟨tx, changeAddress, hsent, hgetChange, hchange, hpays⟩

/-- A bump that has something to select gets to every input. -/
theorem knowsInputs_of_keeps (hraw : ∃ rawTx, lib.deserialize rawTx = .ok locked.transaction)
    (hpsbt : ∀ tx, tx.input = [] → ∃ psbt, lib.fromUnsignedTx tx = .ok psbt)
    (hselect : selectionTarget lib (Wallet.createTransaction lib recipient sat requestId)
      ⟨saturatingMul feeRate 1000⟩ ≠ 0)
    (hkeeps : BumpKeepsPayment lib light later named transactions txid recipient feeRate
      (Wallet.createTransaction lib recipient sat requestId).output locked.transaction) :
    later.wallet.KnowsInputs lib named txid locked.transaction := by
  have hlater := hlight.sound.grows hgrows
  obtain ⟨changeAddress, -, hmem, hchange⟩ := exists_change_of_created hcreated
  obtain ⟨hreturn, houtput⟩ := extractReturnToSelfAddress_of_paysOther hlib hlight.sound hmem
    hchange (not_paysOther_payment hrecipient) (paysOther_of_keeps htx hraw hkeeps)
  have hmem := (wallet_of_grows hgrows).2 changeAddress hmem
  obtain ⟨publicKey, hkey⟩ := hlater.keys changeAddress hmem
  obtain ⟨rawTx, hraw⟩ := hraw
  by_contra hunknown
  refine hkeeps _ _ (runs_bumpFee_of_unknown htx hraw hreturn
    ((hlib.network hkey).trans hlater.network) (hasKey_of_mem hlib hlater hmem) (hpsbt _ rfl) ?_
    hunknown)
  rwa [selectionTarget_congr houtput]

end Later

/-- A fee bump of a payment keeps its outputs or fails, whatever the fee rate and the answers of the
server, exactly when the payment has an output with a value to an address other than the
recipient's: its change.  This is so for a server that names the scripts that the inputs have; when
it may name others, and there is something to select, the wallet must have the keys for these
too. -/
theorem bumpFee_keepsPayment_iff (hlib : ReadsScripts lib) (hlight : Built lib light)
    (hgrows : Grows lib light later)
    (hrecipient : ∀ payload, lib.payloadFromScript (lib.scriptPubkey recipient) = .ok payload →
      payload = recipient.payload)
    (hcreated : Prog.Runs (electrsEnv lib scripts transactions)
      (light.createTransaction lib recipient sat createRate requestId).run []
      (.pure (.ok locked)) [])
    (htx : transactions txid = some locked.transaction)
    (hraw : ∃ rawTx, lib.deserialize rawTx = .ok locked.transaction) (named : OutPoint → Script)
    (feeRate : SatPerVbyte) :
    ((∀ outpoint ∈ locked.transaction.spends, named outpoint = scripts outpoint) →
      (BumpKeepsPayment lib light later named transactions txid recipient feeRate
          (Wallet.createTransaction lib recipient sat requestId).output locked.transaction ↔
        ∃ txOut ∈ locked.transaction.output, PaysOther lib recipient.payload txOut)) ∧
    ((∀ tx, tx.input = [] → ∃ psbt, lib.fromUnsignedTx tx = .ok psbt) →
      selectionTarget lib (Wallet.createTransaction lib recipient sat requestId)
        ⟨saturatingMul feeRate 1000⟩ ≠ 0 →
      (BumpKeepsPayment lib light later named transactions txid recipient feeRate
          (Wallet.createTransaction lib recipient sat requestId).output locked.transaction ↔
        (∃ txOut ∈ locked.transaction.output, PaysOther lib recipient.payload txOut) ∧
          later.wallet.KnowsInputs lib named txid locked.transaction)) := by
  constructor
  · intro hnamed
    refine ⟨paysOther_of_keeps htx hraw, fun hother => ?_⟩
    exact bumpKeepsPayment_of_knowsInputs hlib hlight hgrows hrecipient hcreated htx hother
      (knowsInputs_of_named hlib hlight hgrows hcreated hnamed)
  · intro hpsbt hselect
    refine ⟨fun hkeeps => ⟨paysOther_of_keeps htx hraw hkeeps, ?_⟩, fun ⟨hother, hknows⟩ => ?_⟩
    · exact knowsInputs_of_keeps hlib hlight hgrows hrecipient hcreated htx hraw hpsbt hselect
        hkeeps
    · exact bumpKeepsPayment_of_knowsInputs hlib hlight hgrows hrecipient hcreated htx hother hknows

end Condition

/-- The raw form of the first version of the payment is known. -/
def knowsFirst : Txid → Option Transaction := Function.update (fun _ => none) firstTxid firstVersion

def firstOutputs : List TxOut :=
  (Wallet.createTransaction twoPayments thirdKeyAddress 20000 (some 7)).output

/-- The first version of the payment has change to the derivation address.  Its fee can be raised,
unless the server says that its input has the empty script. -/
theorem bumpFee_keepsPayment_iff_firstVersion :
    (∃ txOut ∈ firstVersion.output, PaysOther twoPayments thirdKeyAddress.payload txOut) ∧
      BumpKeepsPayment twoPayments firstKeyLight firstKeyLight (fun _ => firstScript) knowsFirst
        firstTxid thirdKeyAddress 20 firstOutputs firstVersion ∧
      ¬BumpKeepsPayment twoPayments firstKeyLight firstKeyLight (fun _ => []) knowsFirst
        firstTxid thirdKeyAddress 20 firstOutputs firstVersion := by
  obtain ⟨locked, hcreated, htx⟩ := exists_created twoPayments knowsFirst 20000 firstVersion
    electrsEnv_serveCoin (by decide +kernel)
  have hother : ∃ txOut ∈ firstVersion.output,
      PaysOther twoPayments thirdKeyAddress.payload txOut := by
    have hchange : ⟨78160, firstScript⟩ ∈ firstVersion.output := by decide +kernel
    have hread := readScript_witnessScript (toBytes 20 0x751e76e8199196d454941c45d1b3a323f1433bd6)
      (.inl (length_toBytes 20 _))
    exact ⟨_, hchange, by decide, _, hread, by decide +kernel⟩
  have hreads : ReadsScripts twoPayments := readsScripts_threeKeys
  have hbuilt : Built twoPayments firstKeyLight := ⟨⟨.regtest, 1⟩, firstKeyLight, rfl, .refl⟩
  have hknown : knowsFirst firstTxid = some locked.transaction := by
    rw [knowsFirst, Function.update_self, htx]
  have hraw : ∃ rawTx, twoPayments.deserialize rawTx = .ok locked.transaction :=
    ⟨serialize firstVersion, by rw [deserialize_serialize, htx]⟩
  have hpsbt (tx : Transaction) (hinput : tx.input = []) :
      ∃ psbt, twoPayments.fromUnsignedTx tx = .ok psbt :=
    ⟨_, if_pos (by rw [hinput]; rfl)⟩
  have hselect : selectionTarget twoPayments
      (Wallet.createTransaction twoPayments thirdKeyAddress 20000 (some 7))
      ⟨saturatingMul 20 1000⟩ ≠ 0 := by decide +kernel
  have hunknown : ¬firstKeyLight.wallet.KnowsInputs twoPayments (fun _ => []) firstTxid
      firstVersion := by
    intro hknows
    obtain ⟨publicKey, hkey⟩ := hknows ⟨fundingTxid, 0⟩ (by decide +kernel) (by decide +kernel)
    cases hkey
  refine ⟨hother, ?_⟩
  rw [← htx] at hother hunknown ⊢
  exact ⟨((bumpFee_keepsPayment_iff hreads hbuilt .refl (fun _ => payload_thirdKeyAddress) hcreated
      hknown hraw _ 20).1 fun _ _ => rfl).mpr hother,
    fun hkeeps => hunknown (((bumpFee_keepsPayment_iff hreads hbuilt .refl
      (fun _ => payload_thirdKeyAddress) hcreated hknown hraw _ 20).2 hpsbt hselect).mp hkeeps).2⟩

/-! ### A payment of all that there is -/

def exactPayment (witness : Witness) : Transaction where
  version := 2
  lockTime := 0
  input := [⟨⟨fundingTxid, 0⟩, [], 0xFFFFFFFD, witness⟩]
  output :=
    [⟨98470, witnessScript (toBytes 20 0x7dd65592d0ab2fe0d0257d571abf032cd9db93dc)⟩,
      ⟨0, 0x6A :: 0x20 :: toBytes 32 7⟩]

def exactSignature : List UInt8 :=
  toBytes 4 0x30440220 ++
    toBytes 32 0x6700e24cc08234d0e219dde5bd6e17bb77a8f6e22e37056116b73d85dc23b45e ++
    toBytes 2 0x0220 ++
    toBytes 32 0x61096707ab933ace5ce87398289f4e7a218bd6ebc56fc68902fcffdca6a0494c ++ [1]

def exactTxid : Txid := 0x520a495cab05bc572370985a8b6e6f5f0b0cf4886c2a4769288ff5b9f6bc620a

def exactVersion : Transaction := exactPayment [exactSignature, firstPublicKey]

def onePayment : Lib String :=
  threeKeys
    [(exactPayment [], 0x75ec529f12c31d099b24b5d8a5bdd10e69790073885a3efe4ed1136e85654ca4,
      exactSignature)]
    [(exactTxid, exactVersion)]

/-- Of 100000 satoshi, 98470 are paid and 1530 are the fee, so that there is no change. -/
theorem not_bumpFee_keepsPayment :
    ∃ locked, Prog.Runs (electrsEnv onePayment (fun _ => firstScript)
        (Function.update (fun _ => none) exactTxid (some exactVersion)))
        (firstKeyLight.createTransaction onePayment thirdKeyAddress 98470 10 (some 7)).run []
        (.pure (.ok locked)) [] ∧ locked.transaction = exactVersion ∧
      ¬BumpKeepsPayment onePayment firstKeyLight firstKeyLight (fun _ => firstScript)
        (Function.update (fun _ => none) exactTxid (some exactVersion)) exactTxid thirdKeyAddress 20
        (Wallet.createTransaction onePayment thirdKeyAddress 98470 (some 7)).output
        exactVersion := by
  obtain ⟨locked, hcreated, htx⟩ := exists_created onePayment
    (Function.update (fun _ => none) exactTxid (some exactVersion)) 98470 exactVersion
    electrsEnv_serveCoin (by decide +kernel)
  have hraw : onePayment.deserialize (serialize exactVersion) = .ok exactVersion := by
    decide +kernel
  have hreturn : extractReturnToSelfAddress onePayment exactVersion thirdKeyAddress.payload =
      .ok none := by
    decide +kernel
  refine ⟨locked, hcreated, htx, fun hkeeps => ?_⟩
  exact hkeeps _ _ (runs_bumpFee_of_none (Function.update_self _ _ _) hraw hreturn)

end InterBtcClients.Bitcoin.Light
