import InterBtcClients.Bitcoin.Amounts

/-! A funded transaction of amounts that exist is calculated without overflow, spends no more coins
than it needs and pays no more for fees than its parts cost and the least change is worth. -/

namespace InterBtcClients.Bitcoin.Light

open Library Electrs Wallet InterBtcClients.Runtime

variable {E : Type} {lib : Lib E}

/-! ### Arithmetic without overflow -/

def AddFits (a b : UInt64) : Prop := a.toNat + b.toNat < 2 ^ 64

instance (a b : UInt64) : Decidable (AddFits a b) :=
  inferInstanceAs (Decidable (a.toNat + b.toNat < 2 ^ 64))

def SumFits (values : List UInt64) : Prop := (values.map UInt64.toNat).sum < 2 ^ 64

/-- The size of an output. -/
structure OutputFits (lib : Lib E) (txOut : TxOut) : Prop where
  count : AddFits 8 (lengthSize lib txOut.scriptPubkey)
  script : AddFits (8 + lengthSize lib txOut.scriptPubkey) txOut.scriptPubkey.length.toUInt64

/-- The size of an input with its witness. -/
structure InputFits (lib : Lib E) (txin : TxIn) : Prop where
  count : AddFits (32 + 4 + 4) (lengthSize lib txin.scriptSig)
  script : AddFits (32 + 4 + 4 + lengthSize lib txin.scriptSig) txin.scriptSig.length.toUInt64
  witness : (lengthSize lib txin.witness).toNat + (txin.witness.map fun elem =>
    (lengthSize lib elem).toNat + elem.length).sum < 2 ^ 64
  triple : (txInSerializeSize lib txin).toNat * (WITNESS_SCALE_FACTOR - 1).toNat < 2 ^ 64
  base : AddFits (txInSerializeSize lib txin * (WITNESS_SCALE_FACTOR - 1))
    (txInSerializeSize lib txin)
  weight : AddFits (txInSerializeSize lib txin * (WITNESS_SCALE_FACTOR - 1) +
    txInSerializeSize lib txin) (witnessSerializeSize lib txin.witness)
  virtualSize : AddFits (getTransactionInputWeight lib txin) WITNESS_SCALE_FACTOR

theorem outputFits (hstd : Standard lib) {txOut : TxOut}
    (h : txOut.scriptPubkey.length < 2 ^ 63) : OutputFits lib txOut := by
  have hle := compactLen_le txOut.scriptPubkey.length
  have hcount := toNat_lengthSize hstd txOut.scriptPubkey
  have hlength : (txOut.scriptPubkey.length.toUInt64).toNat = txOut.scriptPubkey.length :=
    Nat.mod_eq_of_lt (by omega)
  have h8 : (8 : UInt64).toNat = 8 := rfl
  constructor
  · rw [AddFits, hcount, h8]
    omega
  · rw [AddFits, UInt64.toNat_add, hcount, hlength, h8]
    omega

theorem inputFits (hstd : Standard lib) {outpoint : OutPoint} {publicKey : PublicKey}
    (hlength : publicKey.length = 33) :
    InputFits lib (dummySignInput (TxIn.ofOutPoint outpoint) publicKey) := by
  have hsize :
      txInSerializeSize lib (dummySignInput (TxIn.ofOutPoint outpoint) publicKey) = 41 := by
    simp only [txInSerializeSize, lengthSize, hstd.varIntLen]
    rfl
  have hwitness : witnessSerializeSize lib [dummySignature, publicKey] = 108 := by
    simp only [witnessSerializeSize, lengthSize, hstd.varIntLen, List.foldl_cons, List.foldl_nil,
      List.length_cons, List.length_nil, hlength]
    decide +kernel
  have hweight : getTransactionInputWeight lib
      (dummySignInput (TxIn.ofOutPoint outpoint) publicKey) = 272 := by
    rw [getTransactionInputWeight, hsize]
    show _ + witnessSerializeSize lib [dummySignature, publicKey] = _
    rw [hwitness]
    rfl
  have hscript : (dummySignInput (TxIn.ofOutPoint outpoint) publicKey).scriptSig = [] := rfl
  have hsigned : (dummySignInput (TxIn.ofOutPoint outpoint) publicKey).witness =
    [dummySignature, publicKey] := rfl
  constructor
  · rw [AddFits, hscript, toNat_lengthSize hstd]
    decide
  · rw [AddFits, hscript, UInt64.toNat_add, toNat_lengthSize hstd]
    decide
  · rw [hsigned, toNat_lengthSize hstd]
    simp only [List.map_cons, List.map_nil, toNat_lengthSize hstd, List.length_cons,
      List.length_nil, hlength]
    decide +kernel
  · rw [hsize]
    decide
  · rw [hsize]
    decide
  · rw [hsize, hsigned, hwitness]
    decide
  · rw [hweight]
    decide

/-! ### The funded transaction -/

/-- All bitcoin there will be. -/
def MAX_MONEY : Nat := 21 * 10 ^ 14

/-- What the coins of a stream are worth. -/
def streamValue (stream : List (Except (Error E) Utxo)) : Nat :=
  totalValue (stream.filterMap Except.toOption)

section Selected

variable {answer : Answers E} {wallet : Wallet} {tx : Transaction} {changeAddress : Address}
  {rate : FeeRate} {prevTxid : Option Txid}
  (sel : Selection lib answer wallet tx changeAddress rate prevTxid)

/-- No operation of the funding wraps around. -/
structure NoWrap (nBytes : UInt64) : Prop where
  recipientsSum : SumFits (tx.output.map TxOut.value)
  changeOutput : OutputFits lib (changePrototypeTxout lib changeAddress)
  dust : AddFits (txOutSerializeSize lib (changePrototypeTxout lib changeAddress))
    (32 + 4 + 1 + 107 + 4)
  changeInput : InputFits lib (dummySignInput (TxIn.ofOutPoint ⟨0, 0⟩) sel.changePublicKey)
  changeSpendFee : AddFits (changeSpendFee lib sel.changePublicKey) 1
  outputs : ∀ txOut ∈ tx.output, OutputFits lib txOut
  outputCount : AddFits 10 (lengthSize lib tx.output)
  outputSizes : SumFits (tx.output.map (txOutSerializeSize lib))
  txNoinputsSize : AddFits (10 + lengthSize lib tx.output)
    (tx.output.map (txOutSerializeSize lib)).sum
  selectionTarget : AddFits (Light.recipientsSum tx) (notInputFees lib tx rate)
  inputs : ∀ coin ∈ sel.coins,
    InputFits lib (dummySignInput (TxIn.ofOutPoint coin.utxo.outpoint) coin.publicKey)
  selectedEffectiveValue :
    SumFits (sel.funding.selectCoins.presetInputs.map CoinOutput.getEffectiveValue)
  selectedValue : SumFits (sel.funding.selectCoins.presetInputs.map CoinOutput.value)
  recipients : Light.recipientsSum tx ≤ sel.funding.selectCoins.getSelectedValue
  changeAmount :
    sel.changeAmount ≤ sel.funding.selectCoins.getSelectedValue - Light.recipientsSum tx
  size : AddFits (lib.weight (signedTx sel.coins (withOutput sel.funding.psbt
    (tx.output ++ sel.change sel.changeAmount)).unsignedTx)) 3
  finalChange : rate.getFee nBytes < sel.nFeeRet →
    AddFits sel.changeAmount (sel.nFeeRet - rate.getFee nBytes)

/-- What the funding makes of the coins that it selects. -/
structure Economical (psbt : PartiallySignedTransaction) : Prop where
  noWrap : ∃ nBytes, calculateMaximumSignedTxSize lib psbt wallet = .ok nBytes ∧ NoWrap sel nBytes
  selected : ShortestCover (effectiveValue lib rate)
    (outputsTotal tx.output + (notInputFees lib tx rate).toNat)
    (usableCoins prevTxid (coinStream answer wallet tx)) sel.utxos
  input : psbt.unsignedTx.input = sel.coins.map Coin.txIn
  inputs : psbt.inputs = sel.coins.map Coin.psbtInput
  output : ∃ change, psbt.unsignedTx.output = tx.output ++ change ∧ change.length ≤ 1 ∧
    ∀ txOut ∈ change, txOut.scriptPubkey = lib.scriptPubkey changeAddress ∧
      minViableChange lib changeAddress sel.changePublicKey ≤ txOut.value ∧
      getDustThreshold lib txOut DUST_RELAY_TX_FEE ≤ txOut.value
  paid : outputsTotal psbt.unsignedTx.output ≤ totalValue sel.utxos
  fees : totalValue sel.utxos - outputsTotal psbt.unsignedTx.output ≤
    inputFeesPaid lib rate sel.utxos + (notInputFees lib tx rate).toNat +
      (changeFee lib changeAddress rate).toNat +
      (minViableChange lib changeAddress sel.changePublicKey).toNat

/-- The selected coins are worth no more than all of the stream. -/
theorem totalValue_selected_le :
    totalValue sel.utxos ≤ streamValue (coinStream answer wallet tx) :=
  totalValue_mono sel.utxos_sublist

section Bounds

variable (hstd : Standard lib) (hmemory : InMemory lib answer wallet tx changeAddress)
  (hcoins : streamValue (coinStream answer wallet tx) ≤ MAX_MONEY)
  (houtputs : outputsTotal tx.output ≤ MAX_MONEY)

theorem toNat_getFee_lt (numBytes : UInt64) : (rate.getFee numBytes).toNat < 2 ^ 55 := by
  rw [toNat_getFee]
  exact exactFee_lt _ _

variable (lib rate) in
include houtputs in
theorem outputs_fit :
    outputsTotal tx.output + (notInputFees lib tx rate).toNat < 2 ^ 64 := by
  have hfees : (notInputFees lib tx rate).toNat < 2 ^ 55 := toNat_getFee_lt _
  unfold MAX_MONEY at houtputs
  omega

include hstd hcoins houtputs in
/-- The fee that is not needed is added to the change. -/
theorem finalChange_bounds (nBytes : UInt64) (hchange : sel.changeAmount ≠ 0) :
    sel.changeAmount ≤ sel.finalChange nBytes ∧
    outputsTotal tx.output + (sel.finalChange nBytes).toNat ≤ totalValue sel.utxos ∧
    (rate.getFee nBytes < sel.nFeeRet →
      AddFits sel.changeAmount (sel.nFeeRet - rate.getFee nBytes)) := by
  have hfits := outputs_fit lib rate houtputs
  have hworth := sel.totalValue_of_change hstd hfits hchange
  have hreturned := sel.toNat_nFeeRet hstd hfits hchange
  have htotal := (totalValue_selected_le sel).trans hcoins
  unfold MAX_MONEY at htotal
  rw [Selection.finalChange]
  by_cases hneeded : rate.getFee nBytes < sel.nFeeRet
  · have hless := UInt64.lt_iff_toNat_lt.mp hneeded
    rw [if_pos hneeded, UInt64.le_iff_toNat_le, AddFits, UInt64.toNat_add,
      UInt64.toNat_sub_of_le _ _ (UInt64.le_of_lt hneeded)]
    omega
  · rw [if_neg hneeded]
    refine ⟨UInt64.le_refl _, by omega, fun h => absurd h hneeded⟩

include hstd hcoins houtputs in
theorem minViableChange_le_finalChange (nBytes : UInt64) (hchange : sel.changeAmount ≠ 0) :
    minViableChange lib changeAddress sel.changePublicKey ≤ sel.finalChange nBytes := by
  have hbounds := (finalChange_bounds sel hstd hcoins houtputs nBytes hchange).1
  rcases sel.change_cases hstd with ⟨hzero, -⟩ | ⟨-, -, hle⟩
  · exact absurd hzero hchange
  · exact UInt64.le_trans (UInt64.le_iff_toNat_le.mpr hle) hbounds

include hstd hmemory hcoins houtputs in
theorem noWrap_of_selection (nBytes : UInt64) : NoWrap sel nBytes := by
  have hfits := outputs_fit lib rate houtputs
  have htarget := toNat_selectionTarget hfits
  have hcovers := sel.target_le_totalEffective
  have htotal := totalValue_eq lib rate sel.utxos
  have hmoney := (totalValue_selected_le sel).trans hcoins
  have hsum : (recipientsSum tx).toNat = outputsTotal tx.output := toNat_recipientsSum (by omega)
  have hselected := sel.toNat_getSelectedValue
  have hkey := length_getPubKey hstd.publicKey sel.changeKey
  unfold InMemory at hmemory
  unfold MAX_MONEY at hmoney
  have hscript : (changePrototypeTxout lib changeAddress).scriptPubkey.length < 2 ^ 57 :=
    show (lib.scriptPubkey changeAddress).length < _ by omega
  have hcount := compactLen_le tx.output.length
  have hcountSize := toNat_lengthSize hstd tx.output
  have hsize := outputsSize_le tx.output
  have hsizes := sum_txOutSerializeSize hstd (show memorySize tx.output < 2 ^ 63 by omega)
  have hrecipients : recipientsSum tx ≤ sel.funding.selectCoins.getSelectedValue := by
    rw [UInt64.le_iff_toNat_le]
    omega
  have h10 : (10 : UInt64).toNat = 10 := rfl
  constructor
  case recipientsSum =>
    show ((tx.output.map TxOut.value).map UInt64.toNat).sum < 2 ^ 64
    rw [List.map_map]
    exact Nat.lt_of_le_of_lt (Nat.le_add_right _ _) hfits
  case changeOutput => exact outputFits hstd (by omega)
  case dust =>
    have hle := compactLen_le (changePrototypeTxout lib changeAddress).scriptPubkey.length
    rw [AddFits, toNat_txOutSerializeSize hstd (by omega), txOutSize, bytesSize]
    show _ + 148 < 2 ^ 64
    omega
  case changeInput => exact inputFits hstd hkey
  case changeSpendFee =>
    rw [changeSpendFee_eq hstd hkey]
    decide
  case outputs =>
    intro txOut htxOut
    have hle := le_memorySize htxOut
    exact outputFits hstd (by omega)
  case outputCount =>
    rw [AddFits, hcountSize, h10]
    omega
  case outputSizes =>
    rw [SumFits, hsizes]
    omega
  case txNoinputsSize =>
    rw [AddFits, UInt64.toNat_add, hcountSize, h10, toNat_sum, hsizes]
    omega
  case selectionTarget =>
    rw [AddFits, hsum]
    exact hfits
  case inputs => exact fun coin hcoin => inputFits hstd (sel.getPubKey_coins hstd hcoin).2
  case selectedEffectiveValue =>
    rw [SumFits, sel.sum_getEffectiveValue hstd]
    omega
  case selectedValue =>
    rw [SumFits, sel.sum_value]
    omega
  case recipients => exact hrecipients
  case changeAmount =>
    rw [UInt64.le_iff_toNat_le, UInt64.toNat_sub_of_le _ _ hrecipients]
    by_cases hchange : sel.changeAmount = 0
    · rw [hchange, UInt64.toNat_zero]
      omega
    · have hworth := sel.totalValue_of_change hstd hfits hchange
      omega
  case size =>
    have hcoinsLength := sel.length_coins_le
    have hmore := sel.memorySize_change_le sel.changeAmount
    exact (toNat_weight_signedTx hstd sel.nonempty_coins (fun coin hcoin =>
      (sel.getPubKey_coins hstd hcoin).2)
      (show memorySize (tx.output ++ sel.change sel.changeAmount) + _ < _ by omega)).2
  case finalChange =>
    intro hneeded
    by_cases hchange : sel.changeAmount = 0
    · have hlt := (sel.nFeeRet - rate.getFee nBytes).toNat_lt
      rw [AddFits, hchange, UInt64.toNat_zero]
      omega
    · exact (finalChange_bounds sel hstd hcoins houtputs nBytes hchange).2.2 hneeded

include hstd hmemory hcoins houtputs in
theorem economical_of_addChange {psbt : PartiallySignedTransaction}
    (h : addChange lib sel.params wallet sel.funding = .ok psbt) : Economical sel psbt := by
  obtain ⟨nBytes, hfunds⟩ := sel.funds_of_addChange hstd hmemory h
  have hfits := outputs_fit lib rate houtputs
  have htarget := toNat_selectionTarget hfits
  have hcovers := sel.target_le_totalEffective
  have htotal := totalValue_eq lib rate sel.utxos
  have hmoney := (totalValue_selected_le sel).trans hcoins
  unfold MAX_MONEY at hmoney
  have hsum := sel.outputsTotal_change (sel.finalChange nBytes)
  rw [← hfunds.output] at hsum
  constructor
  case noWrap =>
    exact ⟨nBytes, hfunds.measured, noWrap_of_selection sel hstd hmemory hcoins houtputs nBytes⟩
  case selected => exact htarget ▸ sel.chosen.shortest
  case input => exact hfunds.input
  case inputs => exact hfunds.inputs
  case output =>
    refine ⟨_, hfunds.output, ?_⟩
    unfold Selection.change
    by_cases hchange : sel.changeAmount = 0
    · rw [if_pos hchange]
      exact ⟨Nat.zero_le 1, List.forall_mem_nil _⟩
    · rw [if_neg hchange]
      refine ⟨Nat.le_refl 1, fun txOut htxOut => ?_⟩
      rw [List.mem_singleton.mp htxOut]
      have hviable := minViableChange_le_finalChange sel hstd hcoins houtputs nBytes hchange
      exact ⟨rfl, hviable, UInt64.le_trans dust_le_minViableChange hviable⟩
  case paid =>
    rw [hsum]
    by_cases hchange : sel.changeAmount = 0
    · rw [if_pos hchange]
      omega
    · rw [if_neg hchange]
      exact (finalChange_bounds sel hstd hcoins houtputs nBytes hchange).2.1
  case fees =>
    rw [hsum]
    by_cases hchange : sel.changeAmount = 0
    · have hnone : sel.changeAmount.toNat = 0 := congrArg UInt64.toNat hchange
      rw [if_pos hchange]
      rcases sel.change_cases hstd with ⟨-, hcase⟩ | ⟨-, hsome, -⟩
      · omega
      · omega
    · rw [if_neg hchange]
      have hworth := sel.totalValue_of_change hstd hfits hchange
      have hbounds := (finalChange_bounds sel hstd hcoins houtputs nBytes hchange).1
      rw [UInt64.le_iff_toNat_le] at hbounds
      omega

end Bounds

end Selected

/-- A transaction that is funded with coins and outputs of amounts that exist. -/
theorem fundTransaction_economical {answer : Answers E} {wallet : Wallet} {tx : Transaction}
    {changeAddress : Address} {nSatoshisPerK : UInt64} {prevTxid : Option Txid}
    {psbt : PartiallySignedTransaction} (hstd : Standard lib)
    (hmemory : InMemory lib answer wallet tx changeAddress)
    (hcoins : streamValue (coinStream answer wallet tx) ≤ MAX_MONEY)
    (houtputs : outputsTotal tx.output ≤ MAX_MONEY)
    (h : (fundTransaction lib wallet tx changeAddress nSatoshisPerK prevTxid).run.eval answer =
      .ok psbt) :
    ∃ sel : Selection lib answer wallet tx changeAddress ⟨nSatoshisPerK⟩ prevTxid,
      Economical sel psbt := by
  obtain ⟨sel, hadd⟩ := exists_selection hstd.publicKey h
  exact ⟨sel, economical_of_addChange sel hstd hmemory hcoins houtputs hadd⟩

/-- A payment with two coins, the first of them too small. -/
theorem fundTransaction_economical_twoCoins :
    ∃ sel : Selection (threeKeys [] []) (coinsWorth [30000, 100000]) keyWallet paymentTx keyAddress
      ⟨10000⟩ none, Economical sel (paymentPsbt [30000, 100000] 77910) := by
  have h : (fundTransaction (threeKeys [] []) keyWallet paymentTx keyAddress 10000 none).run.eval
    (coinsWorth [30000, 100000]) = .ok (paymentPsbt [30000, 100000] 77910) := rfl
  refine fundTransaction_economical (standard_threeKeys [] []) ?_ ?_ ?_ h
  · unfold InMemory
    decide +kernel
  · decide +kernel
  · decide +kernel

end InterBtcClients.Bitcoin.Light
