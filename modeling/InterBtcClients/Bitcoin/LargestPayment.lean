import InterBtcClients.Bitcoin.History
import InterBtcClients.Bitcoin.Pages
import InterBtcClients.Bitcoin.ThreeKeys

/-! The payment that a lookup by OP_RETURN finds on a server that does not change: the first of the
history that is large enough, which is the largest one only when no later payment is larger. -/

namespace InterBtcClients.Bitcoin.Electrs

open Library Paging InterBtcClients.Runtime

variable {E : Type} {lib : Lib E} {s : Server} {scriptHash : List UInt8}

/-! ### The history -/

section Pages

variable (lib s) in
def Server.answers (call : Call) : (api E).Answer call := (s.answer lib call).1

variable (lib s scriptHash) in
theorem serves_answers :
    Serves (s.answers lib) (fun last => ask (.scripthashTxsChain scriptHash last))
      (s.history lib scriptHash) := by
  intro last
  cases last with
  | none => rfl
  | some txid => rfl

/-- The loop over the pages ends with the whole history. -/
theorem eval_getTxsByScripthash {fuel : Nat}
    (hfuel : (s.history lib scriptHash).length < fuel * ELECTRS_TRANSACTIONS_PER_PAGE) :
    (getTxsByScripthash fuel scriptHash).run.eval (s.answers lib) =
      .ok (some (s.history lib scriptHash)) := by
  have hrounds := (Nat.div_lt_iff_lt_mul (by decide)).mpr hfuel
  have hpages := eval_history (serves_answers lib s scriptHash) s.distinct_history fuel
  rwa [if_pos hrounds] at hpages

theorem eval_getTxForOpReturn {fuel : Nat} (address : Address) (amount : Nat) (data : H256)
    (hfuel : (s.opReturnHistory lib data).length < fuel * ELECTRS_TRANSACTIONS_PER_PAGE) :
    (getTxForOpReturn lib fuel address amount data).run.eval (s.answers lib) =
      .ok (some (findPayment (lib.addressString address) amount (s.opReturnHistory lib data))) := by
  unfold getTxForOpReturn
  rw [Prog.eval_run_bind, eval_getTxsByScripthash hfuel]
  rfl

end Pages

/-! ### The largest payment -/

section Largest

variable (lib s) in
/-- The lookup, with fuel for a page for each transaction of the history and one more. -/
def Server.lookup (address : Address) (amount : Nat) (data : H256) :
    Except (Error E) (Option (Option Txid)) :=
  (getTxForOpReturn lib ((s.opReturnHistory lib data).length + 1) address amount data).run.eval
    (s.answers lib)

theorem lookup_eq (address : Address) (amount : Nat) (data : H256) :
    s.lookup lib address amount data =
      .ok (some (findPayment (lib.addressString address) amount (s.opReturnHistory lib data))) := by
  apply eval_getTxForOpReturn
  unfold ELECTRS_TRANSACTIONS_PER_PAGE
  omega

/-- The values of the outputs to the address. -/
def TransactionValue.paymentsTo (tx : TransactionValue) (address : String) : List UInt64 :=
  (tx.vout.filter fun vout => vout.scriptpubkeyAddress = some address).map TxOutValue.value

variable {address : String} {tx : TransactionValue} {value : UInt64}

theorem le_largestPaymentTo_of_mem (h : value ∈ tx.paymentsTo address) :
    value ≤ tx.largestPaymentTo address := by
  obtain ⟨vout, hvout, rfl⟩ := List.mem_map.mp h
  obtain ⟨hmem, haddress⟩ := List.mem_filter.mp hvout
  exact TransactionValue.le_largestPaymentTo hmem (of_decide_eq_true haddress)

/-- An address that is not paid counts as one that is paid nothing. -/
theorem largestPaymentTo_mem (h : tx.paymentsTo address ≠ []) :
    tx.largestPaymentTo address ∈ tx.paymentsTo address := by
  show (tx.paymentsTo address).max?.getD 0 ∈ _
  cases hmax : (tx.paymentsTo address).max? with
  | none => exact absurd (List.max?_eq_none_iff.mp hmax) h
  | some largest => exact List.max?_mem hmax

theorem largestPaymentTo_eq_zero (h : tx.paymentsTo address = []) :
    tx.largestPaymentTo address = 0 := by
  show (tx.paymentsTo address).max?.getD 0 = 0
  rw [h]
  rfl

/-- The largest payment to the address in the transaction is one of the largest in the history. -/
def TransactionValue.PaysMost (tx : TransactionValue) (history : List TransactionValue)
    (address : String) : Prop :=
  ∃ value ∈ tx.paymentsTo address,
    ∀ other ∈ history, ∀ value' ∈ other.paymentsTo address, value' ≤ value

variable (lib s) in
/-- A lookup finds nothing if no output to the address has the amount, and otherwise the largest
payment. -/
structure FindsLargest (address : Address) (amount : Nat) (data : H256) : Prop where
  none_iff : s.lookup lib address amount data = .ok (some none) ↔
    ¬∃ tx ∈ s.opReturnHistory lib data, ∃ value ∈ tx.paymentsTo (lib.addressString address),
      amount ≤ value.toNat
  largest : s.lookup lib address amount data ≠ .ok (some none) →
    ∃ tx ∈ s.opReturnHistory lib data,
      s.lookup lib address amount data = .ok (some (some tx.txid)) ∧
      tx.PaysMost (s.opReturnHistory lib data) (lib.addressString address)

/-- The first transaction that reaches the amount, and any does for an amount of 0, has a payment to
the address, and no transaction has a larger one. -/
def FirstIsLargest (history : List TransactionValue) (address : String) (amount : Nat) : Prop :=
  ∀ tx, history.find? (fun tx => (tx.largestPaymentTo address).toNat ≥ amount) = some tx →
    (amount = 0 → tx.paymentsTo address ≠ []) ∧
      ∀ other ∈ history, other.largestPaymentTo address ≤ tx.largestPaymentTo address

theorem paysMost_iff {history : List TransactionValue} : tx.PaysMost history address ↔
    tx.paymentsTo address ≠ [] ∧
      ∀ other ∈ history, other.largestPaymentTo address ≤ tx.largestPaymentTo address := by
  constructor
  · rintro ⟨value, hvalue, hlargest⟩
    refine ⟨List.ne_nil_of_mem hvalue, fun other hother => ?_⟩
    by_cases hnone : other.paymentsTo address = []
    · rw [largestPaymentTo_eq_zero hnone, UInt64.le_iff_toNat_le]
      exact Nat.zero_le _
    · have hle := hlargest other hother _ (largestPaymentTo_mem hnone)
      exact UInt64.le_trans hle (le_largestPaymentTo_of_mem hvalue)
  · rintro ⟨hpays, hlargest⟩
    refine ⟨_, largestPaymentTo_mem hpays, fun other hother value' hvalue' => ?_⟩
    exact UInt64.le_trans (le_largestPaymentTo_of_mem hvalue') (hlargest other hother)

theorem reaches_of_find {history : List TransactionValue} {amount : Nat}
    (h : history.find? (fun tx => (tx.largestPaymentTo address).toNat ≥ amount) = some tx) :
    amount ≤ (tx.largestPaymentTo address).toNat := by
  simpa using List.find?_some h

/-- A transaction reaches an amount above 0 with a payment. -/
theorem pays_of_reaches {amount : Nat} (hreaches : amount ≤ (tx.largestPaymentTo address).toNat)
    (hzero : amount = 0 → tx.paymentsTo address ≠ []) : tx.paymentsTo address ≠ [] := by
  by_cases hamount : amount = 0
  · exact hzero hamount
  · intro hnone
    rw [largestPaymentTo_eq_zero hnone, UInt64.toNat_zero] at hreaches
    omega

variable {amount : Nat} {data : H256} {dest : Address}

theorem lookup_eq_none_iff : s.lookup lib dest amount data = .ok (some none) ↔
    ∀ tx ∈ s.opReturnHistory lib data, ¬Pays lib dest amount tx := by
  rw [lookup_eq, ← findPayment_eq_none_iff]
  simp

theorem findsLargest_of_first (h : FirstIsLargest (s.opReturnHistory lib data)
    (lib.addressString dest) amount) : FindsLargest lib s dest amount data := by
  constructor
  case none_iff =>
    rw [lookup_eq_none_iff]
    constructor
    · rintro hnone ⟨tx, htx, value, hvalue, hamount⟩
      have hle := UInt64.le_iff_toNat_le.mp (le_largestPaymentTo_of_mem hvalue)
      exact hnone tx htx (Nat.le_trans hamount hle)
    · intro hnone
      rw [← lookup_eq_none_iff, lookup_eq, findPayment]
      cases hfind : (s.opReturnHistory lib data).find? _ with
      | none => rfl
      | some tx =>
        have hreaches := reaches_of_find hfind
        have hpays := pays_of_reaches hreaches (h tx hfind).1
        exact absurd ⟨tx, List.mem_of_find?_eq_some hfind, _, largestPaymentTo_mem hpays, hreaches⟩
          hnone
  case largest =>
    rw [lookup_eq, findPayment]
    intro hsome
    cases hfind : (s.opReturnHistory lib data).find? _ with
    | none =>
      rw [hfind] at hsome
      exact absurd rfl hsome
    | some tx =>
      have hreaches := reaches_of_find hfind
      obtain ⟨hzero, hlargest⟩ := h tx hfind
      exact ⟨tx, List.mem_of_find?_eq_some hfind, rfl,
        paysMost_iff.mpr ⟨pays_of_reaches hreaches hzero, hlargest⟩⟩

theorem first_of_findsLargest (h : FindsLargest lib s dest amount data) :
    FirstIsLargest (s.opReturnHistory lib data) (lib.addressString dest) amount := by
  intro tx hfind
  have hlookup : s.lookup lib dest amount data = .ok (some (some tx.txid)) := by
    rw [lookup_eq, findPayment, hfind]
    rfl
  obtain ⟨found, hfound, heq, hmost⟩ := h.largest (by rw [hlookup]; simp)
  have htxid : tx.txid = found.txid := by simpa [hlookup] using heq
  have hsame := List.inj_on_of_nodup_map s.distinct_history (List.mem_of_find?_eq_some hfind)
    hfound htxid
  subst hsame
  obtain ⟨hpays, hlargest⟩ := paysMost_iff.mp hmost
  exact ⟨fun _ => hpays, hlargest⟩

/-- The lookup finds the largest payment exactly when it is the first that is large enough. -/
theorem findsLargest_iff (lib : Lib E) (s : Server) (address : Address) (amount : Nat)
    (data : H256) :
    FindsLargest lib s address amount data ↔
      FirstIsLargest (s.opReturnHistory lib data) (lib.addressString address) amount :=
  ⟨first_of_findsLargest, findsLargest_of_first⟩

/-- The address of the secret key 1. -/
def payee : Address := regtestAddress 0x751e76e8199196d454941c45d1b3a323f1433bd6

/-- A payment to the address with the OP_RETURN output for 7. -/
def paymentOf (txid : Txid) (value : UInt64) : TransactionValue where
  txid := txid
  vout := [⟨(threeKeys [] []).opReturnScript 7, none, 0⟩,
    ⟨(threeKeys [] []).scriptPubkey payee, (threeKeys [] []).addressString payee, value⟩]

/-- The newer of two payments is the smaller one. -/
def twoPayments : Server where
  mempool := []
  confirmed := [paymentOf 2 1000, paymentOf 1 5000]
  asked := []
  distinct := by decide

/-- The payment of 1000 is returned. -/
theorem not_findsLargest_twoPayments :
    ¬FindsLargest (threeKeys [] []) twoPayments payee 1000 7 := by
  intro h
  have hfirst : (twoPayments.opReturnHistory (threeKeys [] []) 7).find? (fun tx =>
      (tx.largestPaymentTo ((threeKeys [] []).addressString payee)).toNat ≥ 1000) =
      some (paymentOf 2 1000) := by
    decide +kernel
  have hmem : paymentOf 1 5000 ∈ twoPayments.opReturnHistory (threeKeys [] []) 7 := by
    decide +kernel
  have hle := (first_of_findsLargest h _ hfirst).2 _ hmem
  exact absurd hle (by decide +kernel)

end Largest

end InterBtcClients.Bitcoin.Electrs
