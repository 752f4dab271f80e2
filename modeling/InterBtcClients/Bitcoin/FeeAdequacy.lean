import InterBtcClients.Bitcoin.Amounts

/-! When a funded transaction pays the fee rate that was asked for: the fees of its parts are
rounded up and add up to enough, unless a coin is worth less than the fee for its input or the
numbers of inputs and outputs take more bytes than the parts account for. -/

namespace InterBtcClients.Bitcoin.Light

open Library Electrs Wallet InterBtcClients.Runtime

variable {E : Type} {lib : Lib E}

/-- What the spent outputs are worth. -/
def witnessTotal (psbt : PartiallySignedTransaction) : Nat :=
  (psbt.inputs.map fun input => input.witnessUtxo.elim 0 fun txOut => txOut.value.toNat).sum

/-- The transaction pays the fee for the size that it has when it is signed. -/
def PaysFee (lib : Lib E) (wallet : Wallet) (rate : FeeRate) (psbt : PartiallySignedTransaction) :
    Prop :=
  ∃ nBytes, calculateMaximumSignedTxSize lib psbt wallet = .ok nBytes ∧
    outputsTotal psbt.unsignedTx.output + (rate.getFee nBytes).toNat ≤ witnessTotal psbt

/-! ### The condition -/

section Condition

variable (lib) (tx : Transaction) (changeAddress : Address) (rate : FeeRate) (utxos : List Utxo)

/-- What the coins lack that are worth less than the fee for their input. -/
def shortfall : Nat := (utxos.map fun utxo => (inputFee lib rate).toNat - utxo.value.toNat).sum

/-- What the coins are worth beyond the target. -/
def surplus : Nat :=
  totalEffective lib rate utxos - (outputsTotal tx.output + (notInputFees lib tx rate).toNat)

/-- The least change that is paid out. -/
def leastChange : Nat := max 205 (dust lib changeAddress).toNat

def HasChange : Prop :=
  totalEffective lib rate utxos < 2 ^ 64 ∧
    (changeFee lib changeAddress rate).toNat + leastChange lib changeAddress ≤
      surplus lib tx rate utxos

instance : Decidable (HasChange lib tx changeAddress rate utxos) :=
  inferInstanceAs (Decidable (_ ∧ _))

/-- The outputs of the funded transaction, with any change. -/
def fundedOutputs : List TxOut :=
  if HasChange lib tx changeAddress rate utxos then
    tx.output ++ [changePrototypeTxout lib changeAddress]
  else tx.output

/-- The fees of the parts, and what is left over when there is no change, pay for the whole and for
what the coins lack. -/
def FeeCovered : Prop :=
  exactFee rate.nSatoshisPerK.toNat
      (signedSize utxos.length (fundedOutputs lib tx changeAddress rate utxos)) +
      shortfall lib rate utxos ≤
    (notInputFees lib tx rate).toNat + utxos.length * (inputFee lib rate).toNat +
      if HasChange lib tx changeAddress rate utxos then (changeFee lib changeAddress rate).toNat
      else surplus lib tx rate utxos

end Condition

variable (lib) in
theorem inputFeesPaid_add_shortfall (rate : FeeRate) (utxos : List Utxo) :
    inputFeesPaid lib rate utxos + shortfall lib rate utxos =
      utxos.length * (inputFee lib rate).toNat := by
  induction utxos with
  | nil => simp [inputFeesPaid, shortfall]
  | cons utxo utxos ih =>
    simp only [inputFeesPaid, shortfall, List.map_cons, List.sum_cons, List.length_cons,
      Nat.succ_mul] at ih ⊢
    omega

theorem toNat_minViableChange (hstd : Standard lib) (changeAddress : Address)
    {changePublicKey : PublicKey} (hlength : changePublicKey.length = 33) :
    (minViableChange lib changeAddress changePublicKey).toNat = leastChange lib changeAddress := by
  rw [minViableChange, changeSpendFee_eq hstd hlength, UInt64.toNat_max]
  rfl

/-- Coins that are worth the fee for their input cover the fee, unless there are as many inputs or
outputs as take more than one byte to count. -/
theorem feeCovered_of_worth (hstd : Standard lib) {tx : Transaction} {changeAddress : Address}
    {rate : FeeRate} {utxos : List Utxo} (hmemory : memorySize tx.output < 2 ^ 63)
    (hscript : (lib.scriptPubkey changeAddress).length < 2 ^ 63)
    (hworth : ∀ utxo ∈ utxos, (inputFee lib rate).toNat ≤ utxo.value.toNat)
    (hinputs : utxos.length < 253) (houtputs : tx.output.length < 252) :
    FeeCovered lib tx changeAddress rate utxos := by
  have hshort : shortfall lib rate utxos = 0 :=
    (sum_map_const utxos _ 0 fun utxo hutxo => Nat.sub_eq_zero_of_le (hworth utxo hutxo)).trans
      (Nat.zero_mul _)
  have hcount := compactLen_of_lt hinputs
  have hcount' := compactLen_of_lt (show tx.output.length < 253 by omega)
  have hbase : (notInputFees lib tx rate).toNat =
      exactFee rate.nSatoshisPerK.toNat (11 + outputsSize tx.output) := by
    rw [notInputFees, toNat_getFee, toNat_txNoinputsSize hstd hmemory, hcount']
  have hchange : (changeFee lib changeAddress rate).toNat = exactFee rate.nSatoshisPerK.toNat
      (txOutSize (changePrototypeTxout lib changeAddress)) := by
    rw [changeFee, toNat_getFee, toNat_txOutSerializeSize hstd hscript]
  have hparts := exactFee_add_le rate.nSatoshisPerK.toNat (11 + outputsSize tx.output)
    (68 * utxos.length)
  have hinput := exactFee_mul_le rate.nSatoshisPerK.toNat 68 utxos.length
  rw [← toNat_inputFee hstd] at hinput
  rw [FeeCovered, fundedOutputs, hshort, hbase, hchange, signedSize, hcount]
  by_cases h : HasChange lib tx changeAddress rate utxos
  · have hmore := compactLen_of_lt (show tx.output.length + 1 < 253 by omega)
    have hwhole := exactFee_add_le rate.nSatoshisPerK.toNat
      (11 + outputsSize tx.output + 68 * utxos.length)
      (txOutSize (changePrototypeTxout lib changeAddress))
    have hsize : 9 + 1 + compactLen (tx.output.length + 1) + 68 * utxos.length +
        (outputsSize tx.output + txOutSize (changePrototypeTxout lib changeAddress)) =
        11 + outputsSize tx.output + 68 * utxos.length +
          txOutSize (changePrototypeTxout lib changeAddress) := by omega
    rw [if_pos h, if_pos h, List.length_append, List.length_singleton, outputsSize_concat, hsize]
    omega
  · have hsize : 9 + 1 + compactLen tx.output.length + 68 * utxos.length + outputsSize tx.output =
        11 + outputsSize tx.output + 68 * utxos.length := by omega
    rw [if_neg h, if_neg h, hsize]
    omega

section Selected

variable {answer : Answers E} {wallet : Wallet} {tx : Transaction} {changeAddress : Address}
  {rate : FeeRate} {prevTxid : Option Txid} {psbt : PartiallySignedTransaction} {nBytes : UInt64}
  (sel : Selection lib answer wallet tx changeAddress rate prevTxid)

theorem witnessTotal_of_funds (h : sel.Funds psbt nBytes) :
    witnessTotal psbt = totalValue sel.utxos := by
  rw [witnessTotal, h.inputs, Selection.utxos, totalValue, List.map_map, List.map_map]
  rfl

theorem paysFee_iff_of_funds (h : sel.Funds psbt nBytes) : PaysFee lib wallet rate psbt ↔
    outputsTotal psbt.unsignedTx.output + (rate.getFee nBytes).toNat ≤ totalValue sel.utxos := by
  rw [PaysFee, witnessTotal_of_funds sel h]
  constructor
  · rintro ⟨n, hn, hle⟩
    rw [h.measured] at hn
    cases hn
    exact hle
  · intro hle
    exact ⟨nBytes, h.measured, hle⟩

variable (hstd : Standard lib)
  (hfits : outputsTotal tx.output + (notInputFees lib tx rate).toNat < 2 ^ 64)

include hstd hfits

theorem hasChange_iff : HasChange lib tx changeAddress rate sel.utxos ↔ sel.changeAmount ≠ 0 := by
  have htarget := toNat_selectionTarget hfits
  have hviable := toNat_minViableChange hstd changeAddress
    (length_getPubKey hstd.publicKey sel.changeKey)
  have hcovers := sel.target_le_totalEffective
  unfold HasChange surplus
  rcases sel.change_cases hstd with ⟨hzero, hcase⟩ | ⟨hlt, hsum, hle⟩
  · rw [hzero]
    simp only [ne_eq, not_true_eq_false, iff_false]
    omega
  · have hpos : sel.changeAmount ≠ 0 := by
      intro hzero
      rw [hzero, hviable] at hle
      simp only [leastChange, UInt64.toNat_zero] at hle
      omega
    simp only [hpos, ne_eq, not_false_eq_true, iff_true]
    omega

theorem signedSize_fundedOutputs (k : Nat) (amount : UInt64) :
    signedSize k (fundedOutputs lib tx changeAddress rate sel.utxos) =
      signedSize k (tx.output ++ sel.change amount) := by
  have hchange := hasChange_iff sel hstd hfits
  rw [sel.signedSize_change k amount 0, fundedOutputs, Selection.change]
  by_cases hzero : sel.changeAmount = 0
  · rw [if_neg (fun h => hchange.mp h hzero), if_pos hzero, List.append_nil]
  · rw [if_pos (hchange.mpr hzero), if_neg hzero]
    rfl

/-- The fee that is needed against what is not paid out, with and without change. -/
theorem feeCovered_iff_of_funds (h : sel.Funds psbt nBytes) :
    FeeCovered lib tx changeAddress rate sel.utxos ↔ (rate.getFee nBytes).toNat ≤
      inputFeesPaid lib rate sel.utxos + (notInputFees lib tx rate).toNat +
        if sel.changeAmount = 0 then surplus lib tx rate sel.utxos
        else (changeFee lib changeAddress rate).toNat := by
  have hparts := inputFeesPaid_add_shortfall lib rate sel.utxos
  have hcount : sel.utxos.length = sel.coins.length := List.length_map _
  have hchange := hasChange_iff sel hstd hfits
  rw [FeeCovered, signedSize_fundedOutputs sel hstd hfits _ sel.changeAmount, hcount, ← h.size,
    toNat_getFee, ← hcount]
  by_cases hzero : sel.changeAmount = 0
  · rw [if_neg (fun h => hchange.mp h hzero), if_pos hzero]
    omega
  · rw [if_pos (hchange.mpr hzero), if_neg hzero]
    omega

/-- The transaction pays the fee if what is not paid out covers it. -/
theorem paysFee_iff_feeCovered (h : sel.Funds psbt nBytes) :
    PaysFee lib wallet rate psbt ↔ FeeCovered lib tx changeAddress rate sel.utxos := by
  have htarget := toNat_selectionTarget hfits
  have htotal := totalValue_eq lib rate sel.utxos
  have hcovers := sel.target_le_totalEffective
  rw [paysFee_iff_of_funds sel h, feeCovered_iff_of_funds sel hstd hfits h, h.output,
    sel.outputsTotal_change]
  by_cases hzero : sel.changeAmount = 0
  · rw [if_pos hzero, if_pos hzero, surplus]
    omega
  · rw [if_neg hzero, if_neg hzero]
    have hworth := sel.totalValue_of_change hstd hfits hzero
    have hreturned := sel.toNat_nFeeRet hstd hfits hzero
    by_cases hneeded : rate.getFee nBytes < sel.nFeeRet
    · have hless := UInt64.lt_iff_toNat_lt.mp hneeded
      rw [Selection.finalChange, if_pos hneeded, UInt64.toNat_add,
        UInt64.toNat_sub_of_le _ _ (UInt64.le_of_lt hneeded)]
      omega
    · rw [UInt64.lt_iff_toNat_lt] at hneeded
      rw [Selection.finalChange, if_neg (by rwa [UInt64.lt_iff_toNat_lt])]
      omega

end Selected

/-! ### The funded transactions -/

/-- The funded transaction pays the fee rate if the shortest cover meets the condition. -/
theorem paysFee_iff {answer : Answers E} {wallet : Wallet} {tx : Transaction}
    {changeAddress : Address} {nSatoshisPerK : UInt64} {prevTxid : Option Txid}
    {psbt : PartiallySignedTransaction} (hstd : Standard lib)
    (hmemory : InMemory lib answer wallet tx changeAddress)
    (hfits : outputsTotal tx.output + (notInputFees lib tx ⟨nSatoshisPerK⟩).toNat < 2 ^ 64)
    (h : (fundTransaction lib wallet tx changeAddress nSatoshisPerK prevTxid).run.eval answer =
      .ok psbt) :
    PaysFee lib wallet ⟨nSatoshisPerK⟩ psbt ↔
      ∀ utxos, ShortestCover (effectiveValue lib ⟨nSatoshisPerK⟩)
        (outputsTotal tx.output + (notInputFees lib tx ⟨nSatoshisPerK⟩).toNat)
        (usableCoins prevTxid (coinStream answer wallet tx)) utxos →
      FeeCovered lib tx changeAddress ⟨nSatoshisPerK⟩ utxos := by
  obtain ⟨sel, hadd⟩ := exists_selection hstd.publicKey h
  obtain ⟨nBytes, hfunds⟩ := sel.funds_of_addChange hstd hmemory hadd
  have hshortest := sel.chosen.shortest
  rw [toNat_selectionTarget hfits] at hshortest
  rw [paysFee_iff_feeCovered sel hstd hfits hfunds]
  constructor
  · intro hcovered utxos hutxos
    rw [hutxos.unique hshortest]
    exact hcovered
  · intro hall
    exact hall _ hshortest

/-- A coin of 100000 satoshi. -/
theorem paysFee_iff_oneCoin :
    PaysFee (threeKeys [] []) keyWallet ⟨10000⟩ (paymentPsbt [100000] 48590) := by
  have h : (fundTransaction (threeKeys [] []) keyWallet paymentTx keyAddress 10000 none).run.eval
    (coinsWorth [100000]) = .ok (paymentPsbt [100000] 48590) := rfl
  have hcover : ShortestCover (effectiveValue (threeKeys [] []) ⟨10000⟩)
      (outputsTotal paymentTx.output + (notInputFees (threeKeys [] []) paymentTx ⟨10000⟩).toNat)
      (usableCoins none (coinStream (coinsWorth [100000]) keyWallet paymentTx))
      [⟨⟨1, 0⟩, 100000⟩] := .singleton (by decide +kernel)
  refine (paysFee_iff (standard_threeKeys [] []) ?_ ?_ h).mpr fun utxos hutxos => ?_
  · unfold InMemory
    decide +kernel
  · decide +kernel
  · rw [hutxos.unique hcover]
    unfold FeeCovered
    decide +kernel

/-- A coin of 100 satoshi before it, whose input costs 680 satoshi. -/
theorem not_paysFee_smallCoin :
    (fundTransaction (threeKeys [] []) keyWallet paymentTx keyAddress 10000 none).run.eval
      (coinsWorth [100, 100000]) = .ok (paymentPsbt [100, 100000] 48590) ∧
    ¬ PaysFee (threeKeys [] []) keyWallet ⟨10000⟩ (paymentPsbt [100, 100000] 48590) := by
  refine ⟨rfl, ?_⟩
  rintro ⟨nBytes, hsize, hle⟩
  have hmeasured : calculateMaximumSignedTxSize (threeKeys [] []) (paymentPsbt [100, 100000] 48590)
    keyWallet = .ok 209 := rfl
  rw [hmeasured] at hsize
  cases hsize
  revert hle
  decide +kernel

end InterBtcClients.Bitcoin.Light
