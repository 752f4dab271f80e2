import InterBtcClients.Bitcoin.Electrs
import InterBtcClients.Library.Paging

/-! The lookup of a request's payment by its OP_RETURN output, against a server that returns the
confirmed history of a script in pages, newest transactions first. -/

namespace InterBtcClients.Bitcoin.Electrs

open Library Paging InterBtcClients.Runtime

variable {E : Type} (lib : Lib E)

/-- The transactions that a server knows, newest first, each once in a block, and the history that
the script asked for last had when it was first asked for. -/
structure Server where
  mempool : List TransactionValue
  confirmed : List TransactionValue
  asked : List TransactionValue
  distinct : (confirmed.map TransactionValue.txid).Nodup

def hasScript (scriptHash : List UInt8) (tx : TransactionValue) : Bool :=
  tx.vout.any fun txOut => lib.sha256 txOut.scriptpubkey = scriptHash

def Server.history (s : Server) (scriptHash : List UInt8) : List TransactionValue :=
  s.confirmed.filter (hasScript lib scriptHash)

/-- New blocks have been found. -/
def Server.Extends (s' s : Server) : Prop := ∃ new, s'.confirmed = new ++ s.confirmed

def historyEnv : Prog.Env (api E) Server
  | s, .scripthashTxsChain scriptHash last, r, s' => s'.Extends s ∧
    r = .ok ((after TransactionValue.txid last (s'.history lib scriptHash)).take
      ELECTRS_TRANSACTIONS_PER_PAGE) ∧
    s'.asked = match last with
      | none => s'.history lib scriptHash
      | some _ => s.asked
  | s, _, _, s' => s'.Extends s ∧ s'.asked = s.asked

/-- What was asked for has the history of the start, and is in that of now. -/
structure Asked (scriptHash : List UInt8) (s₀ s : Server) : Prop where
  known : s₀.history lib scriptHash ⊆ s.asked
  confirmed : s.asked ⊆ s.history lib scriptHash

/-- What the loop over the pages, started in `s₀`, has read, and where it is in the history. -/
def Reading (scriptHash : List UInt8) (s₀ s : Server) (txs : List TransactionValue) :
    Option Txid → Prop
  | none => txs = []
  | some txid => Asked lib scriptHash s₀ s ∧ ∃ rest, s.asked = txs ++ rest ∧
    Position TransactionValue.txid (s.history lib scriptHash) (some txid) rest

variable {lib} {s s' s₀ : Server} {scriptHash : List UInt8} {txs : List TransactionValue}

theorem Server.distinct_history (s : Server) :
    ((s.history lib scriptHash).map TransactionValue.txid).Nodup :=
  s.distinct.sublist (List.filter_sublist.map _)

theorem Server.extends_self (s : Server) : s.Extends s := ⟨[], rfl⟩

theorem Server.Extends.trans (h' : s'.Extends s) (h : s.Extends s₀) : s'.Extends s₀ := by
  obtain ⟨new, hnew⟩ := h
  obtain ⟨new', hnew'⟩ := h'
  exact ⟨new' ++ new, by rw [hnew', hnew, List.append_assoc]⟩

theorem Server.Extends.subset (h : s.Extends s₀) :
    s₀.history lib scriptHash ⊆ s.history lib scriptHash := by
  obtain ⟨new, hnew⟩ := h
  refine List.filter_subset _ ?_
  rw [hnew]
  exact List.subset_append_right _ _

theorem Server.Extends.answer {call : Call} {r : (api E).Answer call} (h : s.Extends s₀)
    (hr : historyEnv lib s call r s') : s'.Extends s₀ := by
  cases call with
  | scripthashTxsChain scriptHash last => exact hr.1.trans h
  | _ => exact hr.1.trans h

/-- What is left to read when the server answers with a page. -/
theorem Reading.rest {last : Option Txid} {r : Except E (List TransactionValue)}
    (h : Reading lib scriptHash s₀ s txs last) (hs : s.Extends s₀)
    (hr : historyEnv lib s (.scripthashTxsChain scriptHash last) r s') :
    Asked lib scriptHash s₀ s' ∧ ∃ rest, s'.asked = txs ++ rest ∧
      r = .ok (rest.take ELECTRS_TRANSACTIONS_PER_PAGE) ∧
      Position TransactionValue.txid (s'.history lib scriptHash) last rest := by
  have hs' := hs.answer hr
  obtain ⟨hextends, hpage, hasked⟩ := hr
  cases last with
  | none =>
    have hasked : s'.asked = s'.history lib scriptHash := hasked
    refine ⟨⟨?_, ?_⟩, s'.history lib scriptHash, ?_, hpage, rfl⟩
    · rw [hasked]
      exact hs'.subset
    · rw [hasked]
      exact List.Subset.refl _
    · rw [hasked, show txs = [] from h, List.nil_append]
  | some txid =>
    obtain ⟨hknown, rest, htxs, hposition⟩ := h
    have hgrows : s.history lib scriptHash ⊆ s'.history lib scriptHash := hextends.subset
    obtain ⟨new, hnew⟩ := hextends
    have hgrown : s'.history lib scriptHash =
        new.filter (hasScript lib scriptHash) ++ s.history lib scriptHash := by
      rw [Server.history, hnew, List.filter_append, Server.history]
    have hposition' := hposition.grow (new.filter (hasScript lib scriptHash))
    rw [← hgrown] at hposition'
    have hasked : s'.asked = s.asked := hasked
    have hknown' : Asked lib scriptHash s₀ s' :=
      ⟨hasked ▸ hknown.known, hasked ▸ List.Subset.trans hknown.confirmed hgrows⟩
    refine ⟨hknown', rest, hasked.trans htxs, ?_, hposition'⟩
    rw [hpage, after_of_position s'.distinct_history hposition']

/-- What a round of the loop ends with: a full page more, or the whole history. -/
def PageRead (lib : Lib E) (scriptHash : List UInt8) (s₀ : Server) (txs : List TransactionValue) :
    Except (Error E) ((Option Txid × List TransactionValue) ⊕ List TransactionValue) →
      Server → Prop
  | .ok (.inl (last, txs')), s => Reading lib scriptHash s₀ s txs' last ∧
    txs'.length = txs.length + ELECTRS_TRANSACTIONS_PER_PAGE ∧ txs'.length ≤ s.asked.length
  | .ok (.inr txs'), s => txs' = s.asked ∧ Asked lib scriptHash s₀ s
  | .error _, _ => False

theorem keeps_readScriptPage {last : Option Txid} (h : Reading lib scriptHash s₀ s txs last)
    (hs : s.Extends s₀) :
    Prog.Keeps (historyEnv lib) (fun s' => s'.Extends s₀)
      (readPage TransactionValue.txid (pages fun last => ask (.scripthashTxsChain scriptHash last))
        (last, txs)).run (PageRead lib scriptHash s₀ txs) s := by
  refine Prog.keeps_run_bind.mpr ⟨hs, fun r s' hr => ⟨hs.answer hr, ?_⟩⟩
  have hs' := hs.answer hr
  obtain ⟨hknown, rest, hasked, rfl, hposition⟩ := h.rest hs hr
  dsimp only [Prog.mapError_ok, Prog.Outcome]
  split
  next hlast =>
    have hrest : rest.take ELECTRS_TRANSACTIONS_PER_PAGE = rest := by
      rw [List.length_take] at hlast
      exact List.take_of_length_le (by omega)
    refine ⟨hs', ?_, hknown⟩
    rw [hrest, hasked]
  next hfull =>
    have hsplit := (List.take_append_drop ELECTRS_TRANSACTIONS_PER_PAGE rest).symm
    have hlength : (rest.take ELECTRS_TRANSACTIONS_PER_PAGE).length =
        ELECTRS_TRANSACTIONS_PER_PAGE := by
      rw [List.length_take] at hfull ⊢
      omega
    cases hlast : (rest.take ELECTRS_TRANSACTIONS_PER_PAGE).getLast? with
    | none =>
      rw [List.getLast?_eq_none_iff.mp hlast] at hlength
      cases hlength
    | some tx =>
      have hread := congrArg List.length hsplit
      rw [List.length_append] at hread
      refine ⟨hs', ⟨hknown, rest.drop ELECTRS_TRANSACTIONS_PER_PAGE, ?_,
        hposition.next hsplit hlast⟩, ?_, ?_⟩
      · rw [List.append_assoc, ← hsplit, hasked]
      · rw [List.length_append, hlength]
      · rw [hasked, List.length_append, List.length_append]
        omega

/-- The loop returns the whole history, as it was when the first page was read, unless it runs out
of fuel before. -/
def HistoryRead (lib : Lib E) (scriptHash : List UInt8) (s₀ : Server) (read : Nat) :
    Except (Error E) (Option (List TransactionValue)) → Server → Prop
  | .ok (some txs), s => txs = s.asked ∧ Asked lib scriptHash s₀ s
  | .ok none, s => read ≤ s.asked.length
  | .error _, _ => False

theorem keeps_readScript (fuel : Nat) {last : Option Txid}
    (h : Reading lib scriptHash s₀ s txs last) (hs : s.Extends s₀)
    (hread : txs.length ≤ s.asked.length) :
    Prog.Keeps (historyEnv lib) (fun s' => s'.Extends s₀)
      (Prog.iterate (readPage TransactionValue.txid
        (pages fun last => ask (.scripthashTxsChain scriptHash last))) fuel (last, txs)).run
      (HistoryRead lib scriptHash s₀ (txs.length + fuel * ELECTRS_TRANSACTIONS_PER_PAGE)) s := by
  induction fuel generalizing s txs last with
  | zero => exact ⟨hs, by simpa [HistoryRead] using hread⟩
  | succ fuel ih =>
    refine Prog.keeps_run_bind.mpr ((keeps_readScriptPage h hs).mono fun r s' hs' hr => ?_)
    match r, hr with
    | .error e, hr => exact hr.elim
    | .ok (.inr txs'), hr => exact ⟨hs', hr⟩
    | .ok (.inl (last', txs')), ⟨hreading, hlength, hread⟩ =>
      have hnext := ih hreading hs' hread
      rwa [hlength, Nat.add_assoc, Nat.add_comm ELECTRS_TRANSACTIONS_PER_PAGE,
        ← Nat.succ_mul] at hnext

theorem keeps_getTxsByScripthash (fuel : Nat) :
    Prog.Keeps (historyEnv lib) (fun s' => s'.Extends s₀) (getTxsByScripthash fuel scriptHash).run
      (HistoryRead lib scriptHash s₀ (fuel * ELECTRS_TRANSACTIONS_PER_PAGE)) s₀ := by
  have hstart : Reading lib scriptHash s₀ s₀ [] none := rfl
  have hpages := keeps_readScript fuel hstart s₀.extends_self (Nat.zero_le _)
  rwa [List.length_nil, Nat.zero_add] at hpages

/-- The history that a lookup asks for. -/
def Server.opReturnHistory (lib : Lib E) (data : H256) (s : Server) : List TransactionValue :=
  s.history lib (lib.sha256 (lib.opReturnScript data))

/-- What a lookup ends with: the first payment of the history that is large enough. -/
def LookedUp (lib : Lib E) (address : Address) (amount : Nat) (data : H256) (s₀ : Server)
    (read : Nat) : Except (Error E) (Option (Option Txid)) → Server → Prop
  | .ok (some found), s => found = findPayment (lib.addressString address) amount s.asked ∧
    Asked lib (lib.sha256 (lib.opReturnScript data)) s₀ s
  | .ok none, s => read ≤ s.asked.length
  | .error _, _ => False

theorem keeps_getTxForOpReturn (fuel : Nat) (address : Address) (amount : Nat) (data : H256) :
    Prog.Keeps (historyEnv lib) (fun s' => s'.Extends s₀)
      (getTxForOpReturn lib fuel address amount data).run
      (LookedUp lib address amount data s₀ (fuel * ELECTRS_TRANSACTIONS_PER_PAGE)) s₀ := by
  refine Prog.keeps_run_bind.mpr ((keeps_getTxsByScripthash fuel).mono fun r s' hs' hr => ?_)
  match r, hr with
  | .error e, hr => exact hr.elim
  | .ok none, hr => exact ⟨hs', hr⟩
  | .ok (some txs), ⟨htxs, hknown⟩ =>
    rw [htxs]
    exact ⟨hs', rfl, hknown⟩

/-! ### Answers -/

variable (lib) in
/-- The answers of a server that finds no blocks. -/
def Server.answer (s : Server) : (call : Call) → (api E).Answer call × Server
  | .scripthashTxsChain scriptHash none =>
    (.ok ((s.history lib scriptHash).take ELECTRS_TRANSACTIONS_PER_PAGE),
      { s with asked := s.history lib scriptHash })
  | .scripthashTxsChain scriptHash (some txid) =>
    (.ok ((after TransactionValue.txid (some txid) (s.history lib scriptHash)).take
      ELECTRS_TRANSACTIONS_PER_PAGE), s)
  | .tx txid => (.ok ⟨txid, []⟩, s)
  | .txHex _ => (.ok [], s)
  | .addressUtxo _ => (.ok [], s)
  | .addressTxsChain _ _ => (.ok [], s)
  | .postTx tx => (.ok (lib.txid tx), s)

variable (lib) in
theorem historyEnv_answer (s : Server) (call : Call) :
    historyEnv lib s call (s.answer lib call).1 (s.answer lib call).2 := by
  cases call with
  | scripthashTxsChain scriptHash last =>
    cases last with
    | none => exact ⟨s.extends_self, rfl, rfl⟩
    | some txid => exact ⟨s.extends_self, rfl, rfl⟩
  | _ => exact ⟨s.extends_self, rfl⟩

/-- A bound on the histories of a server. -/
def Server.Bounded (n : Nat) (s : Server) : Prop := s.asked.length ≤ n ∧ s.confirmed.length ≤ n

variable (lib) in
theorem Server.Bounded.answer {n : Nat} (h : s.Bounded n) (call : Call) :
    (s.answer lib call).2.Bounded n := by
  cases call with
  | scripthashTxsChain scriptHash last =>
    cases last with
    | none => exact ⟨(List.length_filter_le _ _).trans h.2, h.2⟩
    | some txid => exact h
  | _ => exact h

variable (lib) in
/-- With enough fuel a lookup has a result. -/
theorem exec_getTxForOpReturn (s : Server) (address : Address) (amount : Nat) (data : H256) :
    ∃ found, ((getTxForOpReturn lib (s.asked.length + s.confirmed.length + 1) address amount
      data).run.exec (Server.answer lib) s).1 = .ok (some found) := by
  have hbound : s.Bounded (s.asked.length + s.confirmed.length) :=
    ⟨Nat.le_add_right _ _, Nat.le_add_left _ _⟩
  generalize s.asked.length + s.confirmed.length = n at hbound
  have hend := Prog.exec_inv (fun s call (h : s.Bounded n) => h.answer lib call)
    (getTxForOpReturn lib (n + 1) address amount data).run hbound
  have hresult := (keeps_getTxForOpReturn (n + 1) address amount data).returns
    (Prog.runs_exec (historyEnv_answer lib)
      (getTxForOpReturn lib (n + 1) address amount data).run s)
  generalize (getTxForOpReturn lib (n + 1) address amount data).run.exec (Server.answer lib) s =
    result at hend hresult
  match result, hresult with
  | (.ok (some found), s'), _ => exact ⟨found, rfl⟩
  | (.ok none, s'), hread =>
    have hread : (n + 1) * 25 ≤ s'.asked.length := hread
    have hle : s'.asked.length ≤ n := hend.1
    omega

/-! ### Payments -/

instance lawfulOrderMaxUInt64 : Std.LawfulOrderMax UInt64 where
  max_eq_or a b := by
    rw [show max a b = if a ≤ b then b else a from rfl]
    split <;> simp
  max_le_iff a b c := by
    rw [show max a b = if a ≤ b then b else a from rfl]
    split <;> simp only [UInt64.le_iff_toNat_le] at * <;> omega

theorem TransactionValue.le_largestPaymentTo {tx : TransactionValue} {txOut : TxOutValue}
    {address : String} (hmem : txOut ∈ tx.vout)
    (haddress : txOut.scriptpubkeyAddress = some address) :
    txOut.value ≤ tx.largestPaymentTo address := by
  have hvalue : txOut.value ∈ (tx.vout.filter fun vout =>
      vout.scriptpubkeyAddress = some address).map TxOutValue.value :=
    List.mem_map_of_mem (List.mem_filter.mpr ⟨hmem, decide_eq_true haddress⟩)
  rw [largestPaymentTo]
  generalize (tx.vout.filter fun vout => vout.scriptpubkeyAddress = some address).map
    TxOutValue.value = values at hvalue ⊢
  cases hmax : values.max? with
  | none => simp [List.max?_eq_none_iff.mp hmax] at hvalue
  | some largest => exact (List.max?_eq_some_iff.mp hmax).2 _ hvalue

/-- A transaction that pays at least the amount to the address. -/
def Pays (lib : Lib E) (address : Address) (amount : Nat) (tx : TransactionValue) : Prop :=
  amount ≤ (tx.largestPaymentTo (lib.addressString address)).toNat

theorem findPayment_eq_none_iff {address : Address} {amount : Nat} :
    findPayment (lib.addressString address) amount txs = none ↔
      ∀ tx ∈ txs, ¬Pays lib address amount tx := by
  simp [findPayment, Pays]

theorem findPayment_eq_some {address : Address} {amount : Nat} {txid : Txid}
    (h : findPayment (lib.addressString address) amount txs = some txid) :
    ∃ tx ∈ txs, tx.txid = txid ∧ Pays lib address amount tx := by
  obtain ⟨tx, htx, rfl⟩ := Option.map_eq_some_iff.mp h
  exact ⟨tx, List.mem_of_find?_eq_some htx, rfl, by simpa [Pays] using List.find?_some htx⟩

end InterBtcClients.Bitcoin.Electrs
