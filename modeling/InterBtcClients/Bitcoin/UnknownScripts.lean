import InterBtcClients.Bitcoin.Available
import InterBtcClients.Bitcoin.Funding

/-! A server that names for an input a script that the wallet has no key for.  The funding, which
takes it for granted that there is a key, panics when it gets to the input; and it gets to all of
them when the server says that they are worth nothing. -/

namespace InterBtcClients.Bitcoin.Light

open Library Electrs Wallet InterBtcClients.Runtime

variable {E : Type} {lib : Lib E}

variable (lib) in
/-- The wallet has the key for the outputs with a script. -/
def Wallet.HasKey (wallet : Wallet) (script : Script) : Prop :=
  ∃ publicKey, wallet.getPubKey lib script = .ok publicKey

/-! ### The requests of the funding -/

section Only

variable {P : Call → Prop} (htx : ∀ txid, P (.tx txid))

include htx

theorem only_fundRound (params : FundParams) (wallet : Wallet) (coin : Except (Error E) Utxo)
    (s : Funding) : Prog.Only P (fundRound lib params wallet coin s).run := by
  cases coin with
  | error e => trivial
  | ok utxo =>
    by_cases hkept : params.prevTxid = some utxo.outpoint.txid
    · rw [fundRound, if_pos hkept]
      trivial
    rw [fundRound, if_neg hkept]
    refine Prog.only_run_bind (Prog.only_bind (only_getScriptPubkey htx utxo.outpoint)
      fun _ => trivial) fun scriptPubkey => Prog.only_run_bind trivial fun publicKey => ?_
    dsimp only
    split
    · exact Prog.only_run_bind trivial fun _ => trivial
    · trivial

/-- The funding asks for transactions and for the outputs of addresses only. -/
theorem only_fundTransaction (hutxo : ∀ address, P (.addressUtxo address)) (wallet : Wallet)
    (tx : Transaction) (changeAddress : Address) (nSatoshisPerK : UInt64) (prevTxid : Option Txid) :
    Prog.Only P
      (fundTransaction lib wallet tx changeAddress nSatoshisPerK prevTxid).run := by
  refine Prog.only_run_bind trivial fun changePublicKey => Prog.only_run_bind trivial fun psbt =>
    Prog.only_run_bind (AsyncStream.only_run_forUntil (fun coin s => only_fundRound htx _ _ coin s)
      (only_availableCoins htx hutxo _ _) _) fun result => ?_
  rcases result with s | psbt | _
  · trivial
  · trivial
  · trivial

end Only

/-! ### Outputs without a value -/

variable (lib) in
/-- The outputs of the transactions are `outputs`, and none is listed for an address. -/
def answerOutputs (outputs : Txid → List TxOutValue) : Answers E
  | .tx txid => .ok ⟨txid, outputs txid⟩
  | .addressUtxo _ => .ok []
  | .txHex _ => .ok []
  | .scripthashTxsChain _ _ => .ok []
  | .addressTxsChain _ _ => .ok []
  | .postTx tx => .ok (lib.txid tx)

/-- Every output there can be has the script `named`, and no value. -/
def Worthless (named : OutPoint → Script) (outputs : Txid → List TxOutValue) : Prop :=
  ∀ outpoint : OutPoint,
    (outputs outpoint.txid)[outpoint.vout.toNat]? = some ⟨named outpoint, none, 0⟩

theorem exists_worthless (named : OutPoint → Script) : ∃ outputs, Worthless named outputs := by
  refine ⟨fun txid => (List.range UInt32.size).map fun vout =>
    ⟨named ⟨txid, vout.toUInt32⟩, none, 0⟩, fun outpoint => ?_⟩
  have hlt := outpoint.vout.toNat_lt_size
  have hvout : outpoint.vout.toNat.toUInt32 = outpoint.vout := UInt32.ofNat_toNat
  dsimp only
  generalize UInt32.size = size at hlt ⊢
  rw [List.getElem?_map, List.getElem?_range hlt, Option.map_some, hvout]

section Outputs

variable {named : OutPoint → Script} {outputs : Txid → List TxOutValue}
variable {params : FundParams} {wallet : Wallet} {s : Funding}

theorem Worthless.eval_getPrevOut (h : Worthless named outputs) (outpoint : OutPoint) :
    (getPrevOut outpoint).run.eval (answerOutputs lib outputs) =
      .ok ⟨named outpoint, none, 0⟩ := by
  rw [getPrevOut, Prog.eval_run_bind]
  show (Except.bind (.ok _) _) = _
  rw [Prog.bind_ok]
  dsimp only
  rw [h outpoint]
  rfl

theorem Worthless.coinStream (h : Worthless named outputs) (tx : Transaction) :
    coinStream (answerOutputs lib outputs) wallet tx =
      tx.spends.map fun outpoint => .ok ⟨outpoint, 0⟩ := by
  have hvalue (outpoint : OutPoint) :
      (getPrevValue outpoint).run.eval (answerOutputs lib outputs) = .ok 0 := by
    rw [getPrevValue, Prog.eval_run_bind, h.eval_getPrevOut]
    rfl
  have hcoin (txin : TxIn) :
      inputCoin (answerOutputs lib outputs) txin = ⟨txin.previousOutput, 0⟩ := by
    rw [inputCoin, hvalue]
    rfl
  rw [Light.coinStream, eval_availableCoins
    ⟨fun txin _ => by rw [hcoin]; exact hvalue _, fun _ _ => rfl⟩]
  have hutxos (addresses : List Address) :
      addresses.flatMap (addressUtxos (answerOutputs lib outputs)) = [] :=
    List.flatMap_eq_nil_iff.mpr fun _ _ => rfl
  rw [hutxos, List.append_nil, Transaction.spends, List.map_map, List.map_map]
  exact List.map_congr_left fun txin _ => congrArg Except.ok (hcoin txin)

/-- A coin that is worth nothing leaves as much to select as there was. -/
theorem valueToSelect_add_of_worthless (rate : FeeRate) {coin : Coin} (h : coin.utxo.value = 0) :
    (s.add lib rate coin).valueToSelect = s.valueToSelect := by
  have heffective : (coinOutput lib rate coin).getEffectiveValue = 0 := by
    rw [← UInt64.toNat_inj, CoinOutput.getEffectiveValue, toNat_saturatingSub, coinOutput, h]
    exact Nat.zero_sub _
  rw [Funding.add, heffective, ← UInt64.toNat_inj, toNat_saturatingSub]
  exact Nat.sub_zero _

/-- The loop gets to every input while there is something to select. -/
theorem Worthless.selectFrom (h : Worthless named outputs) {outpoints : List OutPoint}
    (hselect : s.valueToSelect ≠ 0)
    (hunknown : ∃ outpoint ∈ outpoints, params.prevTxid ≠ some outpoint.txid ∧
      ¬wallet.HasKey lib (named outpoint)) :
    selectFrom lib (answerOutputs lib outputs) params wallet
        (outpoints.map fun outpoint => .ok ⟨outpoint, 0⟩) s =
      .error (.panic "wallet has key") := by
  induction outpoints generalizing s with
  | nil =>
    obtain ⟨outpoint, hmem, -⟩ := hunknown
    cases hmem
  | cons first outpoints ih =>
    rw [List.map_cons]
    by_cases hskipped : params.prevTxid = some first.txid
    · rw [selectFrom_skipped hskipped]
      refine ih hselect ?_
      obtain ⟨outpoint, hmem, hkept, hkey⟩ := hunknown
      rcases List.mem_cons.mp hmem with rfl | hmem
      · exact absurd hskipped hkept
      · exact ⟨outpoint, hmem, hkept, hkey⟩
    have hscript : (getScriptPubkey first).run.eval (answerOutputs lib outputs) =
        .ok (named first) := by
      rw [getScriptPubkey, Prog.eval_run_bind, h.eval_getPrevOut]
      rfl
    rw [selectFrom_kept hskipped, findCoin, hscript, Prog.mapError_ok, Prog.ok_bind]
    cases hkey : wallet.getPubKey lib (named first) with
    | error e => rfl
    | ok publicKey =>
      have hleft : (s.add lib params.mEffectiveFeerate
          ⟨⟨first, 0⟩, named first, publicKey⟩).valueToSelect = s.valueToSelect :=
        valueToSelect_add_of_worthless _ rfl
      show (if _ then _ else _) = _
      rw [hleft, if_neg hselect]
      refine ih (hleft ▸ hselect) ?_
      obtain ⟨outpoint, hmem, hkept, hunknown⟩ := hunknown
      rcases List.mem_cons.mp hmem with rfl | hmem
      · exact absurd ⟨publicKey, hkey⟩ hunknown
      · exact ⟨outpoint, hmem, hkept, hunknown⟩

/-- The funding panics when there is an input whose script the wallet does not know. -/
theorem Worthless.fundTransaction (h : Worthless named outputs) {tx : Transaction}
    {changeAddress : Address} {nSatoshisPerK : UInt64} {prevTxid : Option Txid}
    (hchange : wallet.HasKey lib (lib.scriptPubkey changeAddress))
    (hpsbt : ∃ psbt, lib.fromUnsignedTx { tx with input := [] } = .ok psbt)
    (hselect : selectionTarget lib tx ⟨nSatoshisPerK⟩ ≠ 0)
    (hunknown : ∃ outpoint ∈ tx.spends, prevTxid ≠ some outpoint.txid ∧
      ¬wallet.HasKey lib (named outpoint)) :
    (Wallet.fundTransaction lib wallet tx changeAddress nSatoshisPerK prevTxid).run.eval
        (answerOutputs lib outputs) = .error (.panic "wallet has key") := by
  obtain ⟨changePublicKey, hpublic⟩ := hchange
  obtain ⟨psbt, hpsbt⟩ := hpsbt
  rw [eval_fundTransaction, hpublic, hpsbt, h.coinStream]
  show Except.bind (Light.selectFrom lib _ _ wallet _ _) _ = _
  rw [h.selectFrom hselect hunknown]
  rfl

end Outputs

end InterBtcClients.Bitcoin.Light
