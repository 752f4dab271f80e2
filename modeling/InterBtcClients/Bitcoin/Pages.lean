import InterBtcClients.Bitcoin.Electrs
import InterBtcClients.Library.Paging

/-! The histories that the client puts together from the pages of a server.  The loop ends with the
first page that is not full, which has no transactions when the others have all of them.  While it
reads, the history may grow at its head. -/

namespace InterBtcClients.Bitcoin.Electrs

open Library Paging

variable {E : Type} {answer : (call : Call) → (api E).Answer call}
variable {request : Option Txid → Prog (api E) (Except E (List TransactionValue))}
variable {history rest : List TransactionValue} {last : Option Txid}

/-- `request` is answered with the page of the history that follows the transaction last seen. -/
def Serves (answer : (call : Call) → (api E).Answer call)
    (request : Option Txid → Prog (api E) (Except E (List TransactionValue)))
    (history : List TransactionValue) : Prop :=
  ∀ last, (request last).eval answer =
    .ok ((after TransactionValue.txid last history).take ELECTRS_TRANSACTIONS_PER_PAGE)

section Loop

variable (hserves : Serves answer request history)
  (hdistinct : (history.map TransactionValue.txid).Nodup) (read : List TransactionValue)

include hserves hdistinct

theorem eval_readPage (h : Position TransactionValue.txid history last rest) :
    (readPage TransactionValue.txid (pages request) (last, read)).run.eval answer =
      if (rest.take ELECTRS_TRANSACTIONS_PER_PAGE).length < ELECTRS_TRANSACTIONS_PER_PAGE then
        .ok (.inr (read ++ rest.take ELECTRS_TRANSACTIONS_PER_PAGE))
      else
        .ok (.inl ((rest.take ELECTRS_TRANSACTIONS_PER_PAGE).getLast?.map TransactionValue.txid,
          read ++ rest.take ELECTRS_TRANSACTIONS_PER_PAGE)) := by
  have hpage := hserves last
  rw [after_of_position hdistinct h] at hpage
  unfold readPage
  rw [Prog.eval_run_bind, Prog.eval_run_mk, Prog.eval_map, hpage, Prog.mapError_ok, Prog.bind_ok]
  dsimp only
  split
  · rfl
  · rfl

/-- The last page, with which all has been read. -/
theorem eval_readPage_short (h : Position TransactionValue.txid history last rest)
    (hshort : rest.length < ELECTRS_TRANSACTIONS_PER_PAGE) :
    (readPage TransactionValue.txid (pages request) (last, read)).run.eval answer =
      .ok (.inr (read ++ rest)) := by
  rw [eval_readPage hserves hdistinct read h, List.take_of_length_le (Nat.le_of_lt hshort),
    if_pos hshort]

/-- A full page, after which the rest is asked for by its last transaction. -/
theorem eval_readPage_full (h : Position TransactionValue.txid history last rest)
    (hfull : ELECTRS_TRANSACTIONS_PER_PAGE ≤ rest.length) :
    ∃ txid, Position TransactionValue.txid history (some txid)
        (rest.drop ELECTRS_TRANSACTIONS_PER_PAGE) ∧
      (readPage TransactionValue.txid (pages request) (last, read)).run.eval answer =
        .ok (.inl (some txid, read ++ rest.take ELECTRS_TRANSACTIONS_PER_PAGE)) := by
  have hlength := List.length_take_of_le hfull
  have hpage := eval_readPage hserves hdistinct read h
  rw [hlength, if_neg (Nat.lt_irrefl _)] at hpage
  cases hlast : (rest.take ELECTRS_TRANSACTIONS_PER_PAGE).getLast? with
  | none =>
    rw [List.getLast?_eq_none_iff.mp hlast] at hlength
    cases hlength
  | some tx =>
    rw [hlast] at hpage
    exact ⟨tx.txid, h.next (List.take_append_drop ELECTRS_TRANSACTIONS_PER_PAGE rest).symm hlast,
      hpage⟩

/-- Each full page takes one round and leaves as many transactions fewer. -/
theorem eval_readPages (fuel : Nat) (h : Position TransactionValue.txid history last rest) :
    (Prog.iterate (readPage TransactionValue.txid (pages request)) fuel (last, read)).run.eval
        answer =
      .ok (if rest.length / ELECTRS_TRANSACTIONS_PER_PAGE < fuel then some (read ++ rest)
        else none) := by
  induction fuel generalizing last rest read with
  | zero => rfl
  | succ fuel ih =>
    by_cases hshort : rest.length < ELECTRS_TRANSACTIONS_PER_PAGE
    · rw [Nat.div_eq_of_lt hshort, if_pos (Nat.succ_pos fuel)]
      exact Prog.eval_iterate_some (eval_readPage_short hserves hdistinct read h hshort) fuel
    · have hfull := Nat.le_of_not_lt hshort
      obtain ⟨txid, hnext, hpage⟩ := eval_readPage_full hserves hdistinct read h hfull
      rw [Prog.eval_iterate_succ hpage, ih _ hnext, List.append_assoc, List.take_append_drop,
        List.length_drop]
      have hrounds : rest.length / ELECTRS_TRANSACTIONS_PER_PAGE =
          (rest.length - ELECTRS_TRANSACTIONS_PER_PAGE) / ELECTRS_TRANSACTIONS_PER_PAGE + 1 :=
        Nat.div_eq_sub_div (by decide) hfull
      rw [hrounds]
      simp only [Nat.add_lt_add_iff_right]

omit read in
theorem eval_history (fuel : Nat) :
    (readPages TransactionValue.txid (pages request) fuel).run.eval answer =
      .ok (if history.length / ELECTRS_TRANSACTIONS_PER_PAGE < fuel then some history else none) :=
  eval_readPages hserves hdistinct [] fuel
    (rfl : Position TransactionValue.txid history none history)

end Loop

/-- The history of an address and that of a script are read completely, in order and without
duplicates, in one round more than they have full pages. -/
theorem histories_complete (answer : (call : Call) → (api E).Answer call)
    {history : List TransactionValue} (hdistinct : (history.map TransactionValue.txid).Nodup) :
    (∀ address, Serves answer (fun last => ask (.addressTxsChain address last)) history →
      ∀ fuel, (getAddressTxHistoryFull fuel address).run.eval answer =
        .ok (if history.length / ELECTRS_TRANSACTIONS_PER_PAGE < fuel then some history
          else none)) ∧
    ∀ scriptHash, Serves answer (fun last => ask (.scripthashTxsChain scriptHash last)) history →
      ∀ fuel, (getTxsByScripthash fuel scriptHash).run.eval answer =
        .ok (if history.length / ELECTRS_TRANSACTIONS_PER_PAGE < fuel then some history
          else none) := by
  constructor
  · intro address hserves fuel
    exact eval_history hserves hdistinct fuel
  · intro scriptHash hserves fuel
    exact eval_history hserves hdistinct fuel

/-- A server that has the same history for all addresses and scripts. -/
def servePages (history : List TransactionValue) : (call : Call) → (api String).Answer call
  | .scripthashTxsChain _ last | .addressTxsChain _ last =>
    .ok ((after TransactionValue.txid last history).take ELECTRS_TRANSACTIONS_PER_PAGE)
  | .addressUtxo _ => .ok []
  | .tx _ => .error "not found"
  | .txHex _ => .error "not found"
  | .postTx _ => .error "rejected"

/-- Two full pages. -/
def fiftyTransactions : List TransactionValue :=
  (List.range 50).map fun i => ⟨.ofNat 256 i, []⟩

theorem histories_complete_fiftyTransactions :
    (getAddressTxHistoryFull 3 "bc1qar0srrr7xfkvy5l643lydnw9re59gtzzwf5mdq").run.eval
        (servePages fiftyTransactions) = .ok (some fiftyTransactions) ∧
      (getTxsByScripthash 3 []).run.eval (servePages fiftyTransactions) =
        .ok (some fiftyTransactions) := by
  have hdistinct : (fiftyTransactions.map TransactionValue.txid).Nodup := by decide +kernel
  obtain ⟨haddress, hscript⟩ := histories_complete (servePages fiftyTransactions) hdistinct
  exact ⟨haddress _ (fun _ => rfl) 3, hscript [] (fun _ => rfl) 3⟩

/-! ### A history that grows -/

section Growing

variable {F : Interface} {T X S : Type} {txid : T → Txid}
variable {pages : Option Txid → Prog F (Except X (List T))} {env : Prog.Env F S} {I A : S → Prop}
variable {history : S → List T}

/-- A page is that of the history of the moment, in a state with `A`.  Nothing but new transactions
has come before those of earlier. -/
def ServesGrowing (env : Prog.Env F S) (I A : S → Prop) (txid : T → Txid) (history : S → List T)
    (pages : Option Txid → Prog F (Except X (List T))) : Prop :=
  ∀ last s, I s → Prog.Keeps env I (pages last)
    (Prog.Outcome (fun page s' => A s' ∧ (∃ new, history s' = new ++ history s) ∧
      ((history s').map txid).Nodup ∧
      page = (after txid last (history s')).take ELECTRS_TRANSACTIONS_PER_PAGE) fun _ _ => True) s

/-- What has been read is the first part of the history that the first page has been taken from. -/
def ReadSoFar (I A : S → Prop) (txid : T → Txid) (history : S → List T) :
    Option Txid × List T → S → Prop
  | (none, read), _ => read = []
  | (some last, read), s => ∃ s₁ rest, I s₁ ∧ A s₁ ∧ history s₁ = read ++ rest ∧
    Position txid (history s) (some last) rest

/-- The loop ends with the whole history of a moment when it read. -/
theorem keeps_readPages (hserves : ServesGrowing env I A txid history pages) (fuel : Nat) {s : S}
    (hs : I s) :
    Prog.Keeps env I (readPages txid pages fuel).run
      (Prog.Outcome (fun read _ => ∀ txs, read = some txs → ∃ s₁, I s₁ ∧ A s₁ ∧ txs = history s₁)
        fun _ _ => True) s := by
  refine Prog.keeps_run_iterate (fun x s => I s ∧ ReadSoFar I A txid history x s)
    (fun (last, read) s h => ?_) (fun _ _ _ => nofun) fuel ⟨hs, rfl⟩
  obtain ⟨hs, hread⟩ := h
  refine Prog.keeps_run_bind.mpr ((hserves last s hs).mono fun r s' hs' hr => ?_)
  cases r with
  | error e => trivial
  | ok page =>
    obtain ⟨hA, ⟨new, hnew⟩, hdistinct, rfl⟩ := hr
    have hposition : ∃ s₁ rest, I s₁ ∧ A s₁ ∧ history s₁ = read ++ rest ∧
        Position txid (history s') last rest := by
      cases last with
      | none =>
        cases (hread : read = [])
        exact ⟨s', history s', hs', hA, rfl, rfl⟩
      | some last =>
        obtain ⟨s₁, rest, hs₁, hA₁, hsplit, hposition⟩ := hread
        exact ⟨s₁, rest, hs₁, hA₁, hsplit, hnew ▸ hposition.grow new⟩
    obtain ⟨s₁, rest, hs₁, hA₁, hsplit, hposition⟩ := hposition
    rw [after_of_position hdistinct hposition]
    dsimp only [Prog.Outcome]
    split
    next hshort =>
      have hrest : rest.take ELECTRS_TRANSACTIONS_PER_PAGE = rest := by
        rw [List.length_take] at hshort
        exact List.take_of_length_le (by omega)
      refine ⟨hs', ?_⟩
      rintro _ ⟨⟩
      exact ⟨s₁, hs₁, hA₁, by rw [hrest, hsplit]⟩
    next hfull =>
      refine ⟨hs', hs', ?_⟩
      have hrest := (List.take_append_drop ELECTRS_TRANSACTIONS_PER_PAGE rest).symm
      cases hlast : (rest.take ELECTRS_TRANSACTIONS_PER_PAGE).getLast? with
      | none =>
        rw [List.getLast?_eq_none_iff.mp hlast] at hfull
        exact absurd (Nat.succ_pos 24) hfull
      | some tx =>
        refine ⟨s₁, rest.drop ELECTRS_TRANSACTIONS_PER_PAGE, hs₁, hA₁, ?_,
          hposition.next hrest hlast⟩
        rw [List.append_assoc, ← hrest, hsplit]

end Growing

end InterBtcClients.Bitcoin.Electrs
