import InterBtcClients.Bitcoin.FeeBump
import InterBtcClients.Vault.Dispatch

/-! The payments of the light client and their two readers: the outputs that the wallet writes, and
that every replacement keeps, are those that the vault's scan of a chain and its lookup by the
OP_RETURN output look for. -/

namespace InterBtcClients.Vault.Recognition

open Library Bitcoin Bitcoin.Light InterBtcClients.Runtime
open Execution (Request getRequestForBtcTx)
open Dispatch (Matches getRequestForBtcTx_iff)

variable {E : Type}

/-- The scripts of the bitcoin library: those of the parachain's addresses are read back and are not
taken for data, and data is pushed as one item after the OP_RETURN. -/
structure StandardScripts (lib : Lib E) : Prop where
  payload : ∀ {btcAddress : BtcAddress} {network address},
    btcAddress.toAddress lib network = .ok address →
      lib.payloadFromScript (lib.scriptPubkey address) = .ok address.payload
  address : ∀ {btcAddress : BtcAddress} {network address},
    btcAddress.toAddress lib network = .ok address →
      lib.addressFromScript (lib.scriptPubkey address) network = .ok address
  opReturn : ∀ data, lib.opReturnScript data = 0x6A :: 32 :: toBytes 32 data.toNat
  notOpReturn : ∀ {btcAddress : BtcAddress} {network address},
    btcAddress.toAddress lib network = .ok address →
      ∀ data, lib.scriptPubkey address ≠ 0x6A :: data

variable (lib : Lib E)

/-- The payment of a request, with the calls of `bump_fee` that follow it. -/
def payRequest (light : BitcoinLight) (address : Address) (request : Request)
    (feeRate : SatPerVbyte) (bumps : List (BitcoinLight × SatPerVbyte)) :
    Prog (Electrs.api E) Unit :=
  payAndBump lib light address request.amount.toUInt64 feeRate (some request.hash)
    (bumps.map fun (light, feeRate) => ⟨light, address, feeRate⟩)

/-- The transaction as the electrs server lists it. -/
def listed (network : Network) (tx : Transaction) : Electrs.TransactionValue where
  txid := lib.txid tx
  vout := tx.output.map fun txOut =>
    { scriptpubkey := txOut.scriptPubkey
      scriptpubkeyAddress :=
        (lib.addressFromScript txOut.scriptPubkey network).toOption.map lib.addressString
      value := txOut.value }

/-- The outputs of a payment: the recipient, the OP_RETURN output and at most one more. -/
def PaysRequest (address : Address) (request : Request) (tx : Transaction) : Prop :=
  ∃ changeAddress, PaysChange lib changeAddress
    (Wallet.createTransaction lib address request.amount.toUInt64 (some request.hash)).output
    tx.output

/-- Both readers take the transaction for the payment of the request. -/
structure Recognised (network : Network) (address : Address) (request : Request)
    (tx : Transaction) : Prop where
  matched : ∀ requests, request ∈ requests → (requests.map Request.hash).Nodup →
    getRequestForBtcTx lib tx requests = some request
  hasScript : Electrs.hasScript lib (lib.sha256 (lib.opReturnScript request.hash))
    (listed lib network tx)
  pays : Electrs.Pays lib address request.amount (listed lib network tx)

section Readers

variable {lib} {network : Network} {address : Address} {request : Request} {tx : Transaction}

theorem payload_of_toAddress (haddress : request.btcAddress.toAddress lib network = .ok address) :
    request.btcAddress.toPayload lib = .ok address.payload := by
  obtain ⟨payload, hpayload, haddress⟩ := Prog.bind_eq_ok haddress
  cases haddress
  exact hpayload

/-- The recipient's output, the OP_RETURN output and what follows. -/
theorem PaysRequest.output (h : PaysRequest lib address request tx) :
    ∃ change : List TxOut, change.length ≤ 1 ∧
      tx.output = ⟨request.amount.toUInt64, lib.scriptPubkey address⟩ ::
        ⟨0, lib.opReturnScript request.hash⟩ :: change := by
  obtain ⟨changeAddress, change, houtput, hlength, -⟩ := h
  exact ⟨change, hlength, houtput⟩

/-- The first output is not taken for the OP_RETURN output. -/
theorem getOpReturn_of_pays (hscripts : StandardScripts lib)
    (haddress : request.btcAddress.toAddress lib network = .ok address)
    (h : PaysRequest lib address request tx) : getOpReturn tx = some request.hash := by
  obtain ⟨change, -, houtput⟩ := h.output
  have hdata := length_toBytes 32 request.hash.toNat
  have hhash := ofNat_ofBytes_toBytes 32 request.hash
  have hrecipient : ∀ data, lib.scriptPubkey address ≠ 0x6A :: 32 :: data :=
    fun data => hscripts.notOpReturn haddress (32 :: data)
  have hbytes : getOpReturnBytes tx = some (0x6A :: 32 :: toBytes 32 request.hash.toNat) := by
    rw [getOpReturnBytes, houtput, List.take_succ_cons, List.take_succ_cons, List.findSome?_cons,
      List.findSome?_cons]
    split
    next data hsome =>
      split at hsome
      next bytes hscript => exact (hrecipient bytes hscript).elim
      next => cases hsome
    next =>
      simp only [hscripts.opReturn, hdata, if_true]
  rw [getOpReturn, hbytes, Option.map_some]
  exact congrArg some hhash

theorem toNat_amount (hamount : request.amount ≤ 21 * 10 ^ 14) :
    request.amount.toUInt64.toNat = request.amount :=
  Nat.mod_eq_of_lt (by omega)

theorem matches_of_pays (hscripts : StandardScripts lib)
    (haddress : request.btcAddress.toAddress lib network = .ok address)
    (hamount : request.amount ≤ 21 * 10 ^ 14) (h : PaysRequest lib address request tx) :
    Matches lib tx request := by
  refine ⟨getOpReturn_of_pays hscripts haddress h, address.payload, request.amount.toUInt64,
    payload_of_toAddress haddress, ?_, (toNat_amount hamount).ge⟩
  obtain ⟨change, -, houtput⟩ := h.output
  rw [getPaymentAmountTo, houtput, List.findSome?_cons]
  simp only [hscripts.payload haddress, if_true]

theorem pays_listed (hscripts : StandardScripts lib)
    (haddress : request.btcAddress.toAddress lib network = .ok address)
    (hamount : request.amount ≤ 21 * 10 ^ 14) (h : PaysRequest lib address request tx) :
    Electrs.Pays lib address request.amount (listed lib network tx) := by
  obtain ⟨change, -, houtput⟩ := h.output
  let recipient : Electrs.TxOutValue :=
    ⟨lib.scriptPubkey address, some (lib.addressString address), request.amount.toUInt64⟩
  have hrecipient : recipient ∈ (listed lib network tx).vout := by
    simp [recipient, listed, houtput, hscripts.address haddress, Except.toOption]
  have hlargest : request.amount.toUInt64 ≤
      (listed lib network tx).largestPaymentTo (lib.addressString address) :=
    Electrs.TransactionValue.le_largestPaymentTo hrecipient rfl
  rw [UInt64.le_iff_toNat_le, toNat_amount hamount] at hlargest
  exact hlargest

theorem recognised_of_pays (hscripts : StandardScripts lib)
    (haddress : request.btcAddress.toAddress lib network = .ok address)
    (hamount : request.amount ≤ 21 * 10 ^ 14) (h : PaysRequest lib address request tx) :
    Recognised lib network address request tx where
  matched requests hmem hdistinct :=
    (getRequestForBtcTx_iff hdistinct).mpr ⟨hmem, matches_of_pays hscripts haddress hamount h⟩
  hasScript := by
    obtain ⟨change, -, houtput⟩ := h.output
    rw [Electrs.hasScript, listed, houtput]
    simp
  pays := pays_listed hscripts haddress hamount h

end Readers

/-! ### The writer -/

section Writer

variable {lib} {network : Network} {address : Address} {request : Request} {tx : Transaction}

/-- The output that a replacement takes out is the third one. -/
theorem output_unfunded (hscripts : StandardScripts lib)
    (haddress : request.btcAddress.toAddress lib network = .ok address)
    (h : PaysRequest lib address request tx) {idx : Nat} {payload : Payload}
    (hreturn : extractReturnToSelfAddress lib tx address.payload = .ok (some (idx, payload))) :
    (BitcoinLight.unfunded tx idx).output = (Wallet.createTransaction lib address
      request.amount.toUInt64 (some request.hash)).output := by
  obtain ⟨change, hlength, houtput⟩ := h.output
  have hself : (idx, payload) ∈
      (extractIndexedOutputAddresses lib tx).filter (·.2 ≠ address.payload) := by
    simp only [extractReturnToSelfAddress] at hreturn
    split at hreturn
    next => cases hreturn
    next self hfilter =>
      cases hreturn
      have hfilter : (extractIndexedOutputAddresses lib tx).filter (·.2 ≠ address.payload) =
        [(idx, payload)] := hfilter
      rw [hfilter]
      exact List.mem_singleton_self _
    next => cases hreturn
  obtain ⟨hindexed, hne⟩ := List.mem_filter.mp hself
  rw [extractIndexedOutputAddresses, houtput] at hindexed
  obtain ⟨⟨txOut, position⟩, hmem, hpayload⟩ := List.mem_filterMap.mp hindexed
  obtain ⟨hmem, hpositive⟩ := List.mem_filter.mp hmem
  obtain ⟨rfl, hread⟩ :
      position = idx ∧ lib.payloadFromScript txOut.scriptPubkey = .ok payload := by
    dsimp only at hpayload
    split at hpayload
    next hread =>
      cases hpayload
      exact ⟨rfl, hread⟩
    next => cases hpayload
  have hposition := List.mk_mem_zipIdx_iff_getElem?.mp hmem
  rw [BitcoinLight.unfunded, houtput]
  rcases position with _ | _ | position
  · cases hposition
    rw [hscripts.payload haddress] at hread
    cases hread
    simp at hne
  · cases hposition
    simp at hpositive
  · obtain ⟨hlt, -⟩ := List.getElem?_eq_some_iff.mp hposition
    rw [List.length_cons, List.length_cons] at hlt
    have hlast : change.eraseIdx position = [] := by
      have := List.length_eraseIdx_of_lt (l := change) (i := position) (by omega)
      exact List.length_eq_zero_iff.mp (by omega)
    rw [List.eraseIdx_cons_succ, List.eraseIdx_cons_succ, hlast]
    rfl

/-- The versions of the payment that have been sent. -/
structure Paying (lib : Lib E) (address : Address) (request : Request) (w : World) : Prop where
  versions : ∀ version ∈ w.versions, PaysRequest lib address request version.tx
  latest : ∀ txid tx, w.latest = some (txid, tx) →
    PaysRequest lib address request tx ∧ ∀ outpoint ∈ tx.spends, outpoint.txid ≠ txid

theorem Paying.send {w : World} (h : Paying lib address request w)
    (htx : PaysRequest lib address request tx) : Paying lib address request (w.send tx) where
  versions version hversion := by
    rcases List.mem_append.mp hversion with hversion | hversion
    · exact h.versions version hversion
    · rw [List.mem_singleton.mp hversion]
      exact htx
  latest := h.latest

theorem paying_kept (hscripts : StandardScripts lib)
    (haddress : request.btcAddress.toAddress lib network = .ok address) :
    KeptBy lib (· = address) (Wallet.createTransaction lib address request.amount.toUInt64
      (some request.hash)).output (Paying lib address request)
      fun _ tx => PaysRequest lib address request tx where
  start := ⟨nofun, nofun⟩
  self h hlatest := (h.latest _ _ hlatest).2
  send h htx := h.send htx
  accept h htx hself := by
    refine ⟨(h.send htx).versions, fun txid' tx' hlatest => ?_⟩
    cases hlatest
    exact ⟨htx, hself⟩
  create hfunded := ⟨_, hfunded.change⟩
  bump hto h hlatest hreturn hfunded := by
    subst hto
    have hchange := hfunded.change
    rw [output_unfunded hscripts haddress (h.latest _ _ hlatest).1 hreturn] at hchange
    exact ⟨_, hchange⟩

variable (lib) in
/-- Whatever the server answers, whenever the run of a request's payment and of any number of fee
bumps is cut off, both readers recognise every version that has been sent. -/
theorem recognised_of_runs (hscripts : StandardScripts lib) (light : BitcoinLight)
    (request : Request) (haddress : request.btcAddress.toAddress lib network = .ok address)
    (hamount : request.amount ≤ 21 * 10 ^ 14) (feeRate : SatPerVbyte)
    (bumps : List (BitcoinLight × SatPerVbyte)) {p : Prog (Electrs.api E) Unit} {w : World}
    (hruns : Prog.Runs (serverEnv lib) (payRequest lib light address request feeRate bumps)
      World.start p w) :
    ∀ version ∈ w.versions, Recognised lib network address request version.tx := by
  have hbumps : ∀ bump ∈ bumps.map fun (light, feeRate) => (⟨light, address, feeRate⟩ : Bump),
      bump.address = address := by
    intro bump hbump
    obtain ⟨_, -, rfl⟩ := List.mem_map.mp hbump
    rfl
  have hinv := (((paying_kept hscripts haddress).payAndBump light feeRate hbumps).runs hruns).inv
  exact fun version hversion =>
    recognised_of_pays hscripts haddress hamount (hinv.versions version hversion)

end Writer

/-! ### A payment that is replaced once -/

theorem standardScripts_threeKeys (signed : List (Transaction × H256 × List UInt8))
    (sent : List (Txid × Transaction)) : StandardScripts (threeKeys signed sent) := by
  have hother {byte : UInt8} {script data : Script} (h : byte ≠ 0x6A) :
      byte :: script ≠ 0x6A :: data :=
    fun heq => h (List.cons.inj heq).1
  have hread {btcAddress : BtcAddress} {network : Network} {address : Address}
      (haddress : btcAddress.toAddress (threeKeys signed sent) network = .ok address) :
      address.network = network ∧
        readScript ((threeKeys signed sent).scriptPubkey address) = .ok address.payload ∧
        ∀ data, (threeKeys signed sent).scriptPubkey address ≠ 0x6A :: data := by
    cases btcAddress with
    | P2PKH hash =>
      rw [BtcAddress.toAddress, BtcAddress.toPayload, Lib.payload_newP2pkh] at haddress
      cases haddress
      exact ⟨rfl, readScript_p2pkh hash, fun _ => hother (by decide)⟩
    | P2SH hash =>
      rw [BtcAddress.toAddress, BtcAddress.toPayload, Lib.payload_newP2sh] at haddress
      cases haddress
      exact ⟨rfl, readScript_p2sh hash, fun _ => hother (by decide)⟩
    | P2WPKHv0 hash =>
      rw [BtcAddress.toAddress, BtcAddress.toPayload, Lib.payload_newV0P2wpkh] at haddress
      cases haddress
      exact ⟨rfl, readScript_witnessScript _ (.inl (length_toBytes 20 _)),
        fun _ => hother (by decide)⟩
    | P2WSHv0 hash =>
      rw [BtcAddress.toAddress, BtcAddress.toPayload, Lib.payload_newV0P2wsh] at haddress
      cases haddress
      exact ⟨rfl, readScript_witnessScript _ (.inr (length_toBytes 32 _)),
        fun _ => hother (by decide)⟩
  refine ⟨fun haddress => (hread haddress).2.1, fun {btcAddress network address} haddress => ?_,
    fun _ => rfl, fun haddress => (hread haddress).2.2⟩
  obtain ⟨rfl, hscript, -⟩ := hread haddress
  change (readScript _ >>= fun payload => Except.ok (⟨payload, address.network⟩ : Address)) = _
  rw [hscript]
  rfl

/-- The redeem request with the id 7, which asks for 20000 satoshi on the address of the third
key. -/
def openRedeem : Request where
  hash := 7
  btcHeight := some 100
  deadline := some ⟨13820, 376⟩
  amount := 20000
  btcAddress := .P2WPKHv0 0x7dd65592d0ab2fe0d0257d571abf032cd9db93dc
  requestType := .redeem
  vaultId := default
  feeBudget := some 300

/-- The first version and its replacement are recognised. -/
theorem recognised_of_runs_twoVersions :
    Recognised twoPayments .regtest (regtestAddress 0x7dd65592d0ab2fe0d0257d571abf032cd9db93dc)
        openRedeem firstVersion ∧
      Recognised twoPayments .regtest (regtestAddress 0x7dd65592d0ab2fe0d0257d571abf032cd9db93dc)
        openRedeem secondVersion := by
  let recipient : Address := regtestAddress 0x7dd65592d0ab2fe0d0257d571abf032cd9db93dc
  have hexec : ((payRequest twoPayments firstKeyLight recipient openRedeem 10
      [(firstKeyLight, 20)]).exec serve World.start).2 =
      ⟨[⟨none, firstVersion⟩, ⟨some firstTxid, secondVersion⟩],
        some (secondTxid, secondVersion)⟩ := by
    decide +kernel
  have hruns := Prog.runs_exec serverEnv_serve (payRequest twoPayments firstKeyLight recipient
    openRedeem 10 [(firstKeyLight, 20)]) World.start
  rw [hexec] at hruns
  have hrecognised := recognised_of_runs twoPayments (standardScripts_threeKeys _ _) firstKeyLight
    openRedeem rfl (by decide) 10 [(firstKeyLight, 20)] hruns
  exact ⟨hrecognised ⟨none, firstVersion⟩ List.mem_cons_self,
    hrecognised ⟨some firstTxid, secondVersion⟩ (List.mem_cons_of_mem _ List.mem_cons_self)⟩

end InterBtcClients.Vault.Recognition
