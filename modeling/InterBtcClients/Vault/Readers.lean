import InterBtcClients.Vault.Recognition

/-! What the two readers of a transaction take for the payment of a request.  The scan of a full
node reads the first OP_RETURN output among the first three and the first output to the address; the
lookup at an electrs server matches the OP_RETURN output anywhere and reads the largest output to
the address. -/

namespace InterBtcClients.Vault.Readers

open Library Bitcoin InterBtcClients.Runtime
open Execution (Request getRequestForBtcTx)
open Dispatch (Matches getRequestForBtcTx_iff)
open Recognition (listed payload_of_toAddress)

variable {E : Type}

/-- The scripts and addresses of the bitcoin library: data is pushed as one item after the
OP_RETURN, the address of a script is its payload on the network, and no other payload is written
like the address that is asked for. -/
structure AddressScripts (lib : Lib E) (network : Network) (address : Address) : Prop where
  opReturn : ∀ data, lib.opReturnScript data = 0x6A :: 32 :: toBytes 32 data.toNat
  fromScript : ∀ script, lib.addressFromScript script network =
    (lib.payloadFromScript script).map fun payload => ⟨payload, network⟩
  written : ∀ payload, lib.addressString ⟨payload, network⟩ = lib.addressString address →
    payload = address.payload

variable (lib : Lib E)

/-- The transaction has the OP_RETURN output of the id. -/
def HasOpReturn (tx : Transaction) (id : H256) : Prop :=
  ∃ txOut ∈ tx.output, txOut.scriptPubkey = lib.opReturnScript id

/-- An output to the destination has at least the amount. -/
def PaysTo (tx : Transaction) (dest : Payload) (amount : Nat) : Prop :=
  ∃ txOut ∈ tx.output, lib.payloadFromScript txOut.scriptPubkey = .ok dest ∧
    amount ≤ txOut.value.toNat

/-- The OP_RETURN output of the id is among the first three outputs, and none comes before it. -/
def FirstOpReturn (tx : Transaction) (id : H256) : Prop :=
  ∃ before txOut after, tx.output = before ++ txOut :: after ∧ before.length < 3 ∧
    txOut.scriptPubkey = lib.opReturnScript id ∧
    ∀ other ∈ before, ∀ data, other.scriptPubkey ≠ lib.opReturnScript data

/-- The first output to the destination has at least the amount. -/
def FirstPayment (tx : Transaction) (dest : Payload) (amount : Nat) : Prop :=
  ∃ before txOut after, tx.output = before ++ txOut :: after ∧
    lib.payloadFromScript txOut.scriptPubkey = .ok dest ∧ amount ≤ txOut.value.toNat ∧
    ∀ other ∈ before, lib.payloadFromScript other.scriptPubkey ≠ .ok dest

/-- The history of the id's OP_RETURN script when there is no other transaction. -/
def opReturnHistory (network : Network)
    (tx : Transaction) (id : H256) : List Electrs.TransactionValue :=
  if tx.output.any (·.scriptPubkey = lib.opReturnScript id) then [listed lib network tx] else []

variable {lib} in
theorem FirstOpReturn.hasOpReturn {tx : Transaction} {id : H256} (h : FirstOpReturn lib tx id) :
    HasOpReturn lib tx id := by
  obtain ⟨before, txOut, after, houtput, -, hscript, -⟩ := h
  exact ⟨txOut, by simp [houtput], hscript⟩

variable {lib} in
theorem FirstPayment.paysTo {tx : Transaction} {dest : Payload} {amount : Nat}
    (h : FirstPayment lib tx dest amount) : PaysTo lib tx dest amount := by
  obtain ⟨before, txOut, after, houtput, hpayload, hamount, -⟩ := h
  exact ⟨txOut, by simp [houtput], hpayload, hamount⟩

section Scan

variable {lib} {network : Network} {address : Address} {tx : Transaction}

/-- What the scan reads off one output. -/
def readOpReturn (txOut : TxOut) : Option (List UInt8) :=
  match txOut.scriptPubkey with
  | 0x6A :: 32 :: data => if data.length = 32 then some (0x6A :: 32 :: data) else none
  | _ => none

theorem readOpReturn_eq_some_iff (h : AddressScripts lib network address) {txOut : TxOut}
    {bytes : List UInt8} :
    readOpReturn txOut = some bytes ↔
      txOut.scriptPubkey = bytes ∧ ∃ data, bytes = lib.opReturnScript data := by
  simp only [readOpReturn, h.opReturn]
  constructor
  · intro hread
    split at hread
    next data hscript =>
      split at hread
      next hlength =>
        cases hread
        exact ⟨hscript, _, by rw [toBytes_ofNat_ofBytes hlength]⟩
      next => cases hread
    next => cases hread
  · rintro ⟨hscript, data, rfl⟩
    simp only [hscript, length_toBytes, if_true]

theorem readOpReturn_eq_none_iff (h : AddressScripts lib network address) {txOut : TxOut} :
    readOpReturn txOut = none ↔ ∀ data, txOut.scriptPubkey ≠ lib.opReturnScript data := by
  rw [Option.eq_none_iff_forall_ne_some]
  constructor
  · intro hread data hscript
    exact hread _ ((readOpReturn_eq_some_iff h).mpr ⟨rfl, data, hscript⟩)
  · intro hread bytes hbytes
    obtain ⟨rfl, data, hdata⟩ := (readOpReturn_eq_some_iff h).mp hbytes
    exact hread data hdata

theorem getOpReturn_eq_some_iff (h : AddressScripts lib network address) {id : H256} :
    getOpReturn tx = some id ↔ FirstOpReturn lib tx id := by
  have hread : ∀ data : H256,
      BitVec.ofNat 256 (ofBytes ((lib.opReturnScript data).drop 2)) = data := by
    intro data
    rw [h.opReturn]
    exact ofNat_ofBytes_toBytes 32 data
  have hbytes : getOpReturnBytes tx = (tx.output.take 3).findSome? readOpReturn := rfl
  simp only [getOpReturn, hbytes, Option.map_eq_some_iff, List.findSome?_eq_some_iff,
    readOpReturn_eq_some_iff h, readOpReturn_eq_none_iff h]
  constructor
  · rintro ⟨bytes, ⟨before, txOut, after, htake, ⟨hscript, data, rfl⟩, hbefore⟩, hid⟩
    rw [hread] at hid
    subst hid
    have hlength := congrArg List.length htake
    rw [List.length_take, List.length_append, List.length_cons] at hlength
    refine ⟨before, txOut, after ++ tx.output.drop 3, ?_, by omega, hscript, hbefore⟩
    rw [← List.cons_append, ← List.append_assoc, ← htake, List.take_append_drop]
  · rintro ⟨before, txOut, after, houtput, hlength, hscript, hbefore⟩
    refine ⟨lib.opReturnScript id, ⟨before, txOut, after.take (2 - before.length), ?_,
      ⟨hscript, id, rfl⟩, hbefore⟩, hread id⟩
    have hsucc : 3 - before.length = (2 - before.length) + 1 := by omega
    rw [houtput, List.take_append, List.take_of_length_le (by omega), hsucc, List.take_succ_cons]

theorem getPaymentAmountTo_iff {dest : Payload} {amount : Nat} :
    (∃ paid, getPaymentAmountTo lib tx dest = some paid ∧ amount ≤ paid.toNat) ↔
      FirstPayment lib tx dest amount := by
  simp only [getPaymentAmountTo_eq_some_iff]
  constructor
  · rintro ⟨_, ⟨before, txOut, after, houtput, ⟨hpayload, rfl⟩, hbefore⟩, hamount⟩
    exact ⟨before, txOut, after, houtput, hpayload, hamount, hbefore⟩
  · rintro ⟨before, txOut, after, houtput, hpayload, hamount, hbefore⟩
    exact ⟨_, ⟨before, txOut, after, houtput, ⟨hpayload, rfl⟩, hbefore⟩, hamount⟩

/-- The scan of a full node takes the transaction for the payment of the request. -/
theorem matches_iff (h : AddressScripts lib network address) {request : Request}
    (haddress : request.btcAddress.toAddress lib network = .ok address) :
    Matches lib tx request ↔
      FirstOpReturn lib tx request.hash ∧ FirstPayment lib tx address.payload request.amount := by
  have hpayload := payload_of_toAddress haddress
  rw [Matches, getOpReturn_eq_some_iff h, ← getPaymentAmountTo_iff]
  constructor
  · rintro ⟨hopReturn, payload, paid, hpayload', hpaid, hamount⟩
    rw [hpayload] at hpayload'
    cases hpayload'
    exact ⟨hopReturn, paid, hpaid, hamount⟩
  · rintro ⟨hopReturn, paid, hpaid, hamount⟩
    exact ⟨hopReturn, address.payload, paid, hpayload, hpaid, hamount⟩

end Scan

section Lookup

variable {lib} {network : Network} {address : Address} {tx : Transaction}

theorem le_largestPaymentTo_iff {tx : Electrs.TransactionValue} {address : String} {amount : Nat} :
    amount ≤ (tx.largestPaymentTo address).toNat ↔ amount = 0 ∨ ∃ txOut ∈ tx.vout,
      txOut.scriptpubkeyAddress = some address ∧ amount ≤ txOut.value.toNat := by
  constructor
  · intro hle
    rw [Electrs.TransactionValue.largestPaymentTo] at hle
    cases hmax : ((tx.vout.filter fun vout => vout.scriptpubkeyAddress = some address).map
        Electrs.TxOutValue.value).max? with
    | none =>
      rw [hmax] at hle
      exact .inl (Nat.le_zero.mp hle)
    | some largest =>
      rw [hmax] at hle
      obtain ⟨txOut, hmem, rfl⟩ := List.mem_map.mp (List.max?_eq_some_iff.mp hmax).1
      obtain ⟨hmem, haddress⟩ := List.mem_filter.mp hmem
      exact .inr ⟨txOut, hmem, of_decide_eq_true haddress, hle⟩
  · rintro (rfl | ⟨txOut, hmem, haddress, hle⟩)
    · exact Nat.zero_le _
    · have hlargest := Electrs.TransactionValue.le_largestPaymentTo hmem haddress
      exact hle.trans (UInt64.le_iff_toNat_le.mp hlargest)

/-- The lookup takes the transaction that the server lists for a payment of the amount. -/
theorem pays_listed_iff (h : AddressScripts lib network address)
    (hnetwork : address.network = network) {amount : Nat} :
    Electrs.Pays lib address amount (listed lib network tx) ↔
      amount = 0 ∨ PaysTo lib tx address.payload amount := by
  have hread : ∀ script, ((lib.addressFromScript script network).toOption.map lib.addressString =
      some (lib.addressString address)) ↔ lib.payloadFromScript script = .ok address.payload := by
    intro script
    rw [h.fromScript]
    cases lib.payloadFromScript script with
    | error e => simp [Except.map, Except.toOption]
    | ok payload =>
      simp only [Except.map, Except.toOption, Option.map_some, Option.some.injEq, Except.ok.injEq]
      constructor
      · exact h.written payload
      · rintro rfl
        rw [← hnetwork]
  rw [Electrs.Pays, le_largestPaymentTo_iff]
  simp [listed, PaysTo, hread]

/-- A server with one page of history. -/
theorem eval_getTxForOpReturn {answer : (call : Electrs.Call) → (Electrs.api E).Answer call}
    {history : List Electrs.TransactionValue} {amount : Nat} {id : H256}
    (hserved : answer (.scripthashTxsChain (lib.sha256 (lib.opReturnScript id)) none) = .ok history)
    (hpage : history.length < Electrs.ELECTRS_TRANSACTIONS_PER_PAGE) (fuel : Nat) :
    (Electrs.getTxForOpReturn lib (fuel + 1) address amount id).run.eval answer =
      .ok (some (Electrs.findPayment (lib.addressString address) amount history)) := by
  have hround : (Electrs.readPage Electrs.TransactionValue.txid (Electrs.pages fun last =>
      Electrs.ask (.scripthashTxsChain (lib.sha256 (lib.opReturnScript id)) last))
      (none, [])).run.eval answer = .ok (.inr history) := by
    simp [Electrs.readPage, Electrs.ask, Prog.request, Prog.eval, hserved, hpage]
  rw [Electrs.getTxForOpReturn, Prog.eval_run_bind, Electrs.getTxsByScripthash, Electrs.readPages,
    Prog.eval_iterate_some hround]
  rfl

theorem network_of_toAddress {btcAddress : BtcAddress}
    (haddress : btcAddress.toAddress lib network = .ok address) : address.network = network := by
  obtain ⟨payload, -, haddress⟩ := Prog.bind_eq_ok haddress
  cases haddress
  rfl

theorem findPayment_singleton_iff {listing : Electrs.TransactionValue} {amount : Nat} :
    Electrs.findPayment (lib.addressString address) amount [listing] = some listing.txid ↔
      Electrs.Pays lib address amount listing := by
  simp [Electrs.findPayment, Electrs.Pays]

/-- The lookup, served with the history in which only the transaction can be. -/
theorem findPayment_opReturnHistory_iff (h : AddressScripts lib network address)
    (hnetwork : address.network = network) (tx : Transaction) (amount : Nat) (id : H256) :
    Electrs.findPayment (lib.addressString address) amount (opReturnHistory lib network tx id) =
        some (lib.txid tx) ↔
      HasOpReturn lib tx id ∧ (amount = 0 ∨ PaysTo lib tx address.payload amount) := by
  have hscript : tx.output.any (fun txOut => txOut.scriptPubkey = lib.opReturnScript id) = true ↔
      HasOpReturn lib tx id := by
    simp [HasOpReturn]
  rw [opReturnHistory]
  split
  next hhas =>
    rw [← pays_listed_iff h hnetwork, and_iff_right (hscript.mp hhas)]
    exact findPayment_singleton_iff
  next hhas =>
    have hnot : ¬HasOpReturn lib tx id := fun hop => hhas (hscript.mpr hop)
    simp [Electrs.findPayment, hnot]

end Lookup

/-- The scan takes the transaction for the payment exactly if the lookup does, the OP_RETURN output
is the first one and is among the first three outputs, and the first output to the address has the
amount. -/
theorem getRequestForBtcTx_iff_getTxForOpReturn (lib : Lib E) {network : Network}
    {address : Address} (h : AddressScripts lib network address) {requests : List Request}
    {request : Request} (hmem : request ∈ requests)
    (hdistinct : (requests.map Request.hash).Nodup)
    (haddress : request.btcAddress.toAddress lib network = .ok address) (tx : Transaction)
    {answer : (call : Electrs.Call) → (Electrs.api E).Answer call}
    (hserved : answer (.scripthashTxsChain (lib.sha256 (lib.opReturnScript request.hash)) none) =
      .ok (opReturnHistory lib network tx request.hash)) (fuel : Nat) :
    ∃ found, (Electrs.getTxForOpReturn lib (fuel + 1) address request.amount
        request.hash).run.eval answer = .ok (some found) ∧
      (found = some (lib.txid tx) ↔ HasOpReturn lib tx request.hash ∧
        (request.amount = 0 ∨ PaysTo lib tx address.payload request.amount)) ∧
      (getRequestForBtcTx lib tx requests = some request ↔
        found = some (lib.txid tx) ∧ FirstOpReturn lib tx request.hash ∧
          FirstPayment lib tx address.payload request.amount) := by
  have hpage : (opReturnHistory lib network tx request.hash).length <
      Electrs.ELECTRS_TRANSACTIONS_PER_PAGE := by
    unfold opReturnHistory Electrs.ELECTRS_TRANSACTIONS_PER_PAGE
    split <;> simp
  have hlookup := findPayment_opReturnHistory_iff h (network_of_toAddress haddress) tx
    request.amount request.hash
  refine ⟨_, eval_getTxForOpReturn hserved hpage fuel, hlookup, ?_⟩
  rw [getRequestForBtcTx_iff hdistinct, and_iff_right hmem, matches_iff h haddress, hlookup]
  constructor
  · rintro ⟨hopReturn, hpayment⟩
    exact ⟨⟨hopReturn.hasOpReturn, .inr hpayment.paysTo⟩, hopReturn, hpayment⟩
  · exact And.right

/-! ### Transactions that one reader takes and the other does not -/

def toKey1 (value : UInt64) : TxOut :=
  ⟨value, witnessScript (toBytes 20 0x751e76e8199196d454941c45d1b3a323f1433bd6)⟩

def toKey3 (value : UInt64) : TxOut :=
  ⟨value, witnessScript (toBytes 20 0x7dd65592d0ab2fe0d0257d571abf032cd9db93dc)⟩

def opReturnOutput (id : H256) : TxOut := ⟨0, 0x6A :: 0x20 :: toBytes 32 id.toNat⟩

/-- A transaction with these outputs, which spends an output of key 1; its id does not depend on the
witness. -/
def paymentWith (output : List TxOut) : Transaction where
  version := 2
  lockTime := 0
  input := [⟨⟨Light.fundingTxid, 0⟩, [], 0xFFFFFFFD, []⟩]
  output

/-- The OP_RETURN output is the fourth one. -/
def fourthOutput : Transaction :=
  paymentWith [toKey3 20000, toKey1 40000, toKey1 38000, opReturnOutput 7]

/-- The first output to the address has half of the amount. -/
def twoOutputs : Transaction :=
  paymentWith [toKey3 10000, opReturnOutput 7, toKey3 20000, toKey1 68000]

/-- The OP_RETURN output of another request comes first. -/
def twoOpReturns : Transaction :=
  paymentWith [toKey3 20000, opReturnOutput 8, opReturnOutput 7, toKey1 78000]

def readerKeys : Lib String :=
  { threeKeys []
      [(0x56a86ea7dcf9aab712ebe9c2829c43f24a7b659719060e7164e6888be131c192, fourthOutput),
        (0x332e3600c5c255ca7272d555231b791b30032dc87be7424ab860a14bb6e44989, twoOutputs),
        (0xcfddd78149d64e047a7b2e6bc3ca36fb9337d6d3a9197d373530d03788b0f81c, twoOpReturns)] with
    sha256 := fun bytes =>
      if bytes = 0x6A :: 0x20 :: toBytes 32 7 then
        toBytes 32 0xf12122651c88a38a46e4803ab76c3951791304b3a229c049c236805a8ec9724e
      else [] }

/-- The answers of a server that knows one transaction. -/
def serveTransaction (tx : Transaction) (id : H256) :
    (call : Electrs.Call) → (Electrs.api String).Answer call
  | .scripthashTxsChain scriptHash _ =>
    if scriptHash = readerKeys.sha256 (readerKeys.opReturnScript id) then
      .ok (opReturnHistory readerKeys .regtest tx id)
    else .ok []
  | .tx _ => .error "not found"
  | .txHex _ => .error "not found"
  | .addressUtxo _ => .ok []
  | .addressTxsChain _ _ => .ok []
  | .postTx _ => .error "rejected"

/-- The lookup for the open redeem request, at a server that knows one transaction. -/
def lookUpRedeem (tx : Transaction) : Except (Electrs.Error String) (Option (Option Txid)) :=
  (Electrs.getTxForOpReturn readerKeys 1
    (regtestAddress 0x7dd65592d0ab2fe0d0257d571abf032cd9db93dc) Recognition.openRedeem.amount
    Recognition.openRedeem.hash).run.eval (serveTransaction tx Recognition.openRedeem.hash)

/-- Both readers take the transaction for the payment of the open redeem request, or neither
does. -/
def Agree (tx : Transaction) : Prop :=
  getRequestForBtcTx readerKeys tx [Recognition.openRedeem] = some Recognition.openRedeem ↔
    lookUpRedeem tx = .ok (some (some (readerKeys.txid tx)))

instance (tx : Transaction) : Decidable (Agree tx) := inferInstanceAs (Decidable (_ ↔ _))

theorem not_agree_fourthOutput_twoOutputs_twoOpReturns :
    ¬Agree fourthOutput ∧ ¬Agree twoOutputs ∧ ¬Agree twoOpReturns := by
  decide +kernel

theorem addressScripts_readerKeys : AddressScripts readerKeys .regtest
    (regtestAddress 0x7dd65592d0ab2fe0d0257d571abf032cd9db93dc) where
  opReturn _ := rfl
  fromScript script := by
    change (readScript script >>= fun payload => Except.ok (⟨payload, .regtest⟩ : Address)) =
      (readScript script).map fun payload => ⟨payload, .regtest⟩
    cases readScript script <;> rfl
  written payload hwritten := by
    have hwritten : (knownKeys.find? fun key => regtestAddress key.hash = ⟨payload, .regtest⟩).elim
        "" KnownKey.address = "bcrt1q0ht9tyks4vh7p5p904t340cr9nvahy7uevmqwj" := hwritten
    cases hfind : knownKeys.find? fun key => regtestAddress key.hash = ⟨payload, .regtest⟩ with
    | none =>
      rw [hfind] at hwritten
      exact absurd hwritten (by decide)
    | some key =>
      rw [hfind] at hwritten
      have hkey := List.mem_of_find?_eq_some hfind
      have haddress : regtestAddress key.hash = ⟨payload, .regtest⟩ := by
        simpa using List.find?_some hfind
      simp only [knownKeys, List.mem_cons, List.not_mem_nil, or_false] at hkey
      rcases hkey with rfl | rfl | rfl
      · exact absurd hwritten (by decide)
      · exact absurd hwritten (by decide)
      · exact (congrArg Address.payload haddress).symm

theorem getRequestForBtcTx_iff_getTxForOpReturn_twoOutputs :
    ∃ found, lookUpRedeem twoOutputs = .ok (some found) ∧
      (found = some (readerKeys.txid twoOutputs) ↔ HasOpReturn readerKeys twoOutputs 7 ∧
        (Recognition.openRedeem.amount = 0 ∨ PaysTo readerKeys twoOutputs
          (.witnessProgram 0 (toBytes 20 0x7dd65592d0ab2fe0d0257d571abf032cd9db93dc)) 20000)) ∧
      (getRequestForBtcTx readerKeys twoOutputs [Recognition.openRedeem] =
          some Recognition.openRedeem ↔
        found = some (readerKeys.txid twoOutputs) ∧ FirstOpReturn readerKeys twoOutputs 7 ∧
          FirstPayment readerKeys twoOutputs
            (.witnessProgram 0 (toBytes 20 0x7dd65592d0ab2fe0d0257d571abf032cd9db93dc)) 20000) :=
  getRequestForBtcTx_iff_getTxForOpReturn readerKeys addressScripts_readerKeys
    (List.mem_cons_self : Recognition.openRedeem ∈ [Recognition.openRedeem]) (by simp) rfl
    twoOutputs
    (by decide +kernel) 0

end InterBtcClients.Vault.Readers
