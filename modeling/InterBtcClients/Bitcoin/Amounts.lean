import InterBtcClients.Bitcoin.Sizes
import Mathlib.Algebra.Order.BigOperators.Group.List
import Mathlib.Algebra.Order.Ring.Nat

/-! The amounts of a funded transaction as natural numbers: what the selected coins are worth goes
to the recipients, to the change and to the fee, and what each part of the fee is for. -/

namespace InterBtcClients.Bitcoin.Light

open Library Electrs Wallet InterBtcClients.Runtime

variable {E : Type} {lib : Lib E}

/-! ### Totals -/

def totalValue (utxos : List Utxo) : Nat := (utxos.map fun utxo => utxo.value.toNat).sum

def outputsTotal (output : List TxOut) : Nat := (output.map fun txOut => txOut.value.toNat).sum

def totalEffective (lib : Lib E) (rate : FeeRate) (utxos : List Utxo) : Nat :=
  (utxos.map (effectiveValue lib rate)).sum

/-- What the coins pay for their own inputs: the fee, or all that a coin is worth. -/
def inputFeesPaid (lib : Lib E) (rate : FeeRate) (utxos : List Utxo) : Nat :=
  (utxos.map fun utxo => min utxo.value.toNat (inputFee lib rate).toNat).sum

variable (lib) in
theorem totalValue_eq (rate : FeeRate) (utxos : List Utxo) :
    totalValue utxos = totalEffective lib rate utxos + inputFeesPaid lib rate utxos := by
  induction utxos with
  | nil => rfl
  | cons utxo utxos ih =>
    simp only [totalValue, totalEffective, inputFeesPaid, List.map_cons, List.sum_cons,
      effectiveValue] at ih ⊢
    omega

theorem totalValue_mono {utxos utxos' : List Utxo} (h : utxos.Sublist utxos') :
    totalValue utxos ≤ totalValue utxos' :=
  (h.map _).sum_le_sum fun _ _ => Nat.zero_le _

theorem outputsTotal_append (output output' : List TxOut) :
    outputsTotal (output ++ output') = outputsTotal output + outputsTotal output' := by
  simp [outputsTotal]

theorem toNat_recipientsSum {tx : Transaction} (h : outputsTotal tx.output < 2 ^ 64) :
    (recipientsSum tx).toNat = outputsTotal tx.output := by
  rw [recipientsSum, toNat_sum, List.map_map]
  exact Nat.mod_eq_of_lt h

theorem toNat_selectionTarget {tx : Transaction} {rate : FeeRate}
    (h : outputsTotal tx.output + (notInputFees lib tx rate).toNat < 2 ^ 64) :
    (selectionTarget lib tx rate).toNat =
      outputsTotal tx.output + (notInputFees lib tx rate).toNat := by
  rw [selectionTarget, UInt64.toNat_add, toNat_recipientsSum (by omega)]
  exact Nat.mod_eq_of_lt h

theorem changeSpendFee_eq (hstd : Standard lib) {changePublicKey : PublicKey}
    (hlength : changePublicKey.length = 33) : changeSpendFee lib changePublicKey = 204 := by
  rw [changeSpendFee, calculateMaximumSignedInputSize_eq hstd hlength]
  rfl

theorem le_minViableChange (hstd : Standard lib) (changeAddress : Address)
    {changePublicKey : PublicKey} (hlength : changePublicKey.length = 33) :
    205 ≤ (minViableChange lib changeAddress changePublicKey).toNat := by
  rw [minViableChange, changeSpendFee_eq hstd hlength, UInt64.toNat_max]
  exact Nat.le_max_left _ _

theorem dust_le_minViableChange {changeAddress : Address} {changePublicKey : PublicKey} :
    dust lib changeAddress ≤ minViableChange lib changeAddress changePublicKey := by
  rw [UInt64.le_iff_toNat_le, minViableChange, UInt64.toNat_max]
  exact Nat.le_max_right _ _

theorem usableCoins_sublist (prevTxid : Option Txid) (stream : List (Except (Error E) Utxo)) :
    (usableCoins prevTxid stream).Sublist (stream.filterMap Except.toOption) := by
  induction stream with
  | nil => exact List.Sublist.refl []
  | cons item stream ih =>
    cases item with
    | error e => exact List.nil_sublist _
    | ok utxo =>
      have hcons : (Except.ok utxo :: stream).filterMap Except.toOption =
        utxo :: stream.filterMap Except.toOption := rfl
      by_cases h : prevTxid = some utxo.outpoint.txid
      · rw [usableCoins_skipped h, hcons]
        exact ih.cons utxo
      · rw [usableCoins_kept h, hcons]
        exact ih.cons_cons utxo

/-- The outputs, the change and an input for each coin fit in the memory of a computer. -/
def InMemory (lib : Lib E) (answer : Answers E) (wallet : Wallet) (tx : Transaction)
    (changeAddress : Address) : Prop :=
  memorySize tx.output + (32 + (lib.scriptPubkey changeAddress).length) +
    64 * (coinStream answer wallet tx).length < 2 ^ 57

/-! ### The change -/

namespace Selection

variable {answer : Answers E} {wallet : Wallet} {tx : Transaction} {changeAddress : Address}
  {rate : FeeRate} {prevTxid : Option Txid}
  (sel : Selection lib answer wallet tx changeAddress rate prevTxid)

def utxos : List Utxo := sel.coins.map Coin.utxo

def changeAmount : UInt64 :=
  sel.funding.selectCoins.getChange sel.params.minViableChange sel.params.changeFee

/-- The selected coins are among those of the stream. -/
theorem utxos_sublist :
    sel.utxos.Sublist ((coinStream answer wallet tx).filterMap Except.toOption) :=
  sel.chosen.shortest.initial.sublist.trans (usableCoins_sublist prevTxid _)

theorem target_le_totalEffective :
    (selectionTarget lib tx rate).toNat ≤ totalEffective lib rate sel.utxos :=
  sel.chosen.shortest.covers

theorem sum_value :
    ((sel.funding.selectCoins.presetInputs.map CoinOutput.value).map UInt64.toNat).sum =
      totalValue sel.utxos := by
  rw [selectCoins_funding, utxos, totalValue]
  simp [Function.comp_def, coinOutput]

theorem toNat_getSelectedValue :
    sel.funding.selectCoins.getSelectedValue.toNat = totalValue sel.utxos % 2 ^ 64 := by
  rw [SelectCoins.getSelectedValue, toNat_sum, sum_value]

theorem totalEffective_lt : totalEffective lib rate sel.utxos <
    (selectionTarget lib tx rate).toNat + 2 ^ 64 := by
  refine sel.chosen.shortest.sum_lt fun utxo _ => ?_
  have := utxo.value.toNat_lt
  unfold effectiveValue
  omega

variable (hstd : Standard lib)

include hstd

theorem getPubKey_coins {coin : Coin} (hcoin : coin ∈ sel.coins) :
    wallet.getPubKey lib coin.scriptPubkey = .ok coin.publicKey ∧ coin.publicKey.length = 33 := by
  have hkey := (findCoin_spec (sel.chosen.found coin hcoin)).2.2
  exact ⟨hkey, length_getPubKey hstd.publicKey hkey⟩

theorem sum_getEffectiveValue :
    ((sel.funding.selectCoins.presetInputs.map CoinOutput.getEffectiveValue).map
      UInt64.toNat).sum = totalEffective lib rate sel.utxos := by
  have heffective : ∀ coin ∈ sel.coins, (coinOutput lib rate coin).getEffectiveValue.toNat =
      effectiveValue lib rate coin.utxo := fun coin hcoin =>
    effectiveValue_coinOutput (sel.getPubKey_coins hstd hcoin).2
  rw [selectCoins_funding, utxos, totalEffective]
  simp only [List.map_map, Function.comp_def]
  rw [List.map_congr_left heffective]

theorem toNat_getSelectedEffectiveValue :
    sel.funding.selectCoins.getSelectedEffectiveValue.toNat =
      totalEffective lib rate sel.utxos % 2 ^ 64 := by
  rw [SelectCoins.getSelectedEffectiveValue, toNat_sum, sel.sum_getEffectiveValue hstd]

/-- There is no change, or it is the surplus less the fee for it. -/
theorem change_cases :
    (sel.changeAmount = 0 ∧ (2 ^ 64 ≤ totalEffective lib rate sel.utxos ∨
      totalEffective lib rate sel.utxos < (selectionTarget lib tx rate).toNat +
        (changeFee lib changeAddress rate).toNat +
        (minViableChange lib changeAddress sel.changePublicKey).toNat)) ∨
    (totalEffective lib rate sel.utxos < 2 ^ 64 ∧
      sel.changeAmount.toNat + (changeFee lib changeAddress rate).toNat +
        (selectionTarget lib tx rate).toNat = totalEffective lib rate sel.utxos ∧
      (minViableChange lib changeAddress sel.changePublicKey).toNat ≤ sel.changeAmount.toNat) := by
  have hviable := le_minViableChange hstd changeAddress
    (length_getPubKey hstd.publicKey sel.changeKey)
  have hbound := sel.totalEffective_lt
  have hcovers := sel.target_le_totalEffective
  have heffective := sel.toNat_getSelectedEffectiveValue hstd
  have hsurplus : (saturatingSub (saturatingSub sel.funding.selectCoins.getSelectedEffectiveValue
      (selectionTarget lib tx rate)) (changeFee lib changeAddress rate)).toNat =
      totalEffective lib rate sel.utxos % 2 ^ 64 - (selectionTarget lib tx rate).toNat -
        (changeFee lib changeAddress rate).toNat := by
    rw [toNat_saturatingSub, toNat_saturatingSub, heffective]
  have htarget : sel.funding.selectCoins.targetValue = selectionTarget lib tx rate := by
    rw [selectCoins_funding]
  have hchange : sel.changeAmount = if (saturatingSub (saturatingSub
      sel.funding.selectCoins.getSelectedEffectiveValue (selectionTarget lib tx rate))
        (changeFee lib changeAddress rate)) <
          minViableChange lib changeAddress sel.changePublicKey then 0
      else saturatingSub (saturatingSub sel.funding.selectCoins.getSelectedEffectiveValue
        (selectionTarget lib tx rate)) (changeFee lib changeAddress rate) := by
    rw [← htarget]
    rfl
  rw [hchange]
  by_cases hless : saturatingSub (saturatingSub
      sel.funding.selectCoins.getSelectedEffectiveValue (selectionTarget lib tx rate))
        (changeFee lib changeAddress rate) < minViableChange lib changeAddress sel.changePublicKey
  · rw [if_pos hless]
    rw [UInt64.lt_iff_toNat_lt, hsurplus] at hless
    left
    refine ⟨rfl, ?_⟩
    omega
  · rw [if_neg hless, hsurplus]
    rw [UInt64.lt_iff_toNat_lt, hsurplus] at hless
    right
    omega

omit hstd

/-- The outputs that are added: one to the change address, unless there is no change. -/
def change (amount : UInt64) : List TxOut :=
  if sel.changeAmount = 0 then [] else [⟨amount, lib.scriptPubkey changeAddress⟩]

/-- What the selected coins are worth beyond the outputs and the change. -/
def nFeeRet : UInt64 :=
  sel.funding.selectCoins.getSelectedValue - recipientsSum tx - sel.changeAmount

/-- The change with what the fee is too high by. -/
def finalChange (nBytes : UInt64) : UInt64 :=
  if rate.getFee nBytes < sel.nFeeRet then
    sel.changeAmount + (sel.nFeeRet - rate.getFee nBytes)
  else sel.changeAmount

theorem withOutput_funding :
    withOutput sel.funding.psbt (tx.output ++ []) = sel.funding.psbt := by
  rw [List.append_nil, ← sel.output_funding]
  rfl

/-- The transaction is measured with the change, and the fee that it does not need is added to the
change. -/
theorem addChange_eq {psbt : PartiallySignedTransaction}
    (h : addChange lib sel.params wallet sel.funding = .ok psbt) :
    ∃ nBytes, calculateMaximumSignedTxSize lib
        (withOutput sel.funding.psbt (tx.output ++ sel.change sel.changeAmount)) wallet =
          .ok nBytes ∧
      psbt = withOutput sel.funding.psbt (tx.output ++ sel.change (sel.finalChange nBytes)) := by
  obtain ⟨nBytes, hsize, h⟩ := Prog.bind_eq_ok h
  refine ⟨nBytes, ?_⟩
  have hamount : sel.funding.selectCoins.getChange sel.params.minViableChange
    sel.params.changeFee = sel.changeAmount := rfl
  rw [hamount, output_funding] at hsize
  dsimp only at h
  rw [hamount, output_funding] at h
  by_cases hchange : sel.changeAmount = 0
  · have hnone : ¬ sel.changeAmount > 0 := by simp [hchange]
    rw [if_neg hnone] at hsize
    rw [if_neg fun hboth => hnone hboth.1, if_neg hnone] at h
    cases h
    rw [change, change, if_pos hchange, if_pos hchange, withOutput_funding]
    exact ⟨hsize, rfl⟩
  · have hsome : sel.changeAmount > 0 := UInt64.pos_iff_ne_zero.mpr hchange
    rw [if_pos hsome] at hsize h
    rw [change, change, if_neg hchange, if_neg hchange]
    refine ⟨hsize, ?_⟩
    by_cases hneeded : rate.getFee nBytes < sel.nFeeRet
    · rw [if_pos ⟨hsome, hneeded⟩] at h
      cases h
      rw [finalChange, if_pos hneeded]
      rfl
    · rw [if_neg fun hboth => hneeded hboth.2] at h
      cases h
      rw [finalChange, if_neg hneeded]
      rfl

/-- The transaction that the selection leads to, which the wallet measured as `nBytes`. -/
structure Funds (psbt : PartiallySignedTransaction) (nBytes : UInt64) : Prop where
  input : psbt.unsignedTx.input = sel.coins.map Coin.txIn
  inputs : psbt.inputs = sel.coins.map Coin.psbtInput
  output : psbt.unsignedTx.output = tx.output ++ sel.change (sel.finalChange nBytes)
  size : nBytes.toNat = signedSize sel.coins.length (tx.output ++ sel.change sel.changeAmount)
  measured : calculateMaximumSignedTxSize lib psbt wallet = .ok nBytes

theorem nonempty_coins : sel.coins ≠ [] := by
  intro h
  apply sel.chosen.shortest.nonempty
  rw [h]
  rfl

theorem length_coins_le : sel.coins.length ≤ (coinStream answer wallet tx).length := by
  have hle := sel.utxos_sublist.length_le
  rw [utxos, List.length_map] at hle
  exact hle.trans (List.length_filterMap_le _ _)

theorem memorySize_change_le (amount : UInt64) :
    memorySize (tx.output ++ sel.change amount) ≤
      memorySize tx.output + (32 + (lib.scriptPubkey changeAddress).length) := by
  unfold change
  split
  · simp [memorySize]
  · simp [memorySize]

theorem outputsTotal_change (amount : UInt64) :
    outputsTotal (tx.output ++ sel.change amount) =
      outputsTotal tx.output + if sel.changeAmount = 0 then 0 else amount.toNat := by
  rw [outputsTotal_append, change]
  split
  · rfl
  · exact congrArg _ (Nat.add_zero _)

/-- The size does not depend on the amount of the change. -/
theorem signedSize_change (k : Nat) (amount amount' : UInt64) :
    signedSize k (tx.output ++ sel.change amount) =
      signedSize k (tx.output ++ sel.change amount') := by
  unfold change
  split
  · rfl
  · rw [signedSize, signedSize, List.length_append, List.length_append, outputsSize_concat,
      outputsSize_concat]
    rfl

include hstd

theorem funds_of_addChange {psbt : PartiallySignedTransaction}
    (hmemory : InMemory lib answer wallet tx changeAddress)
    (h : addChange lib sel.params wallet sel.funding = .ok psbt) :
    ∃ nBytes, sel.Funds psbt nBytes := by
  obtain ⟨nBytes, hmeasured, rfl⟩ := sel.addChange_eq h
  have hinputs : sel.funding.psbt.inputs = sel.coins.map Coin.psbtInput := by
    rw [funding, Funding.psbt_addAll]
    show sel.base.inputs ++ _ = _
    rw [hstd.inputs sel.unsigned]
    rfl
  have hsize (amount : UInt64) : ∃ n, calculateMaximumSignedTxSize lib
      (withOutput sel.funding.psbt (tx.output ++ sel.change amount)) wallet = .ok n ∧
      n.toNat = signedSize sel.coins.length (tx.output ++ sel.change amount) := by
    have hcoins := sel.length_coins_le
    have hchange := sel.memorySize_change_le amount
    unfold InMemory at hmemory
    exact calculateMaximumSignedTxSize_of_coins (withOutput sel.funding.psbt
      (tx.output ++ sel.change amount)) hstd sel.nonempty_coins sel.input_funding hinputs
      (fun coin hcoin => (sel.getPubKey_coins hstd hcoin).1)
      (show memorySize (tx.output ++ sel.change amount) + _ < _ by omega)
  obtain ⟨n, hn, hsizen⟩ := hsize sel.changeAmount
  obtain ⟨m, hm, hsizem⟩ := hsize (sel.finalChange nBytes)
  rw [hn] at hmeasured
  cases hmeasured
  rw [sel.signedSize_change _ _ sel.changeAmount, ← hsizen] at hsizem
  rw [UInt64.toNat_inj.mp hsizem] at hm
  exact ⟨nBytes, sel.input_funding, hinputs, rfl, hsizen, hm⟩

/-! ### What the fee is for -/

section Fits

variable (hfits : outputsTotal tx.output + (notInputFees lib tx rate).toNat < 2 ^ 64)

include hfits

/-- What is not paid out when there is change: the fees of the parts of the transaction. -/
theorem totalValue_of_change (hchange : sel.changeAmount ≠ 0) : totalValue sel.utxos =
    outputsTotal tx.output + sel.changeAmount.toNat + inputFeesPaid lib rate sel.utxos +
      (notInputFees lib tx rate).toNat + (changeFee lib changeAddress rate).toNat := by
  have htarget := toNat_selectionTarget hfits
  have htotal := totalValue_eq lib rate sel.utxos
  rcases sel.change_cases hstd with ⟨hzero, -⟩ | ⟨-, hsome, -⟩
  · exact absurd hzero hchange
  · omega

theorem toNat_nFeeRet (hchange : sel.changeAmount ≠ 0) : sel.nFeeRet.toNat =
    (inputFeesPaid lib rate sel.utxos + (notInputFees lib tx rate).toNat +
      (changeFee lib changeAddress rate).toNat) % 2 ^ 64 := by
  have htotal := sel.totalValue_of_change hstd hfits hchange
  have hlt := sel.changeAmount.toNat_lt
  rw [nFeeRet, UInt64.toNat_sub, UInt64.toNat_sub, sel.toNat_getSelectedValue,
    toNat_recipientsSum (by omega)]
  omega

end Fits

end Selection

/-! ### A payment of a wallet with one key -/

/-- The address of key 1. -/
def keyAddress : Address := regtestAddress 0x751e76e8199196d454941c45d1b3a323f1433bd6

def keyWallet : Wallet := ⟨.regtest, (∅ : KeyStore).insert keyAddress ⟨.regtest, 1⟩⟩

/-- A server on which the address has coins of these values, outputs of one transaction. -/
def coinsWorth (values : List UInt64) : Answers String
  | .addressUtxo _ => .ok (values.zipIdx.map fun (value, i) => ⟨1, i.toUInt32, value⟩)
  | .tx txid =>
    .ok ⟨txid, values.map fun value => ⟨(threeKeys [] []).scriptPubkey keyAddress, none, value⟩⟩
  | .txHex _ => .error "not found"
  | .scripthashTxsChain _ _ => .ok []
  | .addressTxsChain _ _ => .ok []
  | .postTx _ => .error "rejected"

/-- A payment of 50000 satoshi to key 2. -/
def paymentTx : Transaction :=
  ⟨2, 0, [], [⟨50000, witnessScript (toBytes 20 0x06afd46bcdfd22ef94ac122aa11f241244a37ecc)⟩]⟩

/-- The payment, funded with coins of these values. -/
def paymentPsbt (values : List UInt64) (change : UInt64) : PartiallySignedTransaction where
  unsignedTx := { paymentTx with
    input := values.zipIdx.map fun (_, i) => ⟨⟨1, i.toUInt32⟩, [], 0xFFFFFFFD, []⟩
    output := paymentTx.output ++ [⟨change, (threeKeys [] []).scriptPubkey keyAddress⟩] }
  inputs := values.map fun value =>
    ⟨some ⟨value, (threeKeys [] []).scriptPubkey keyAddress⟩, none, none⟩

end InterBtcClients.Bitcoin.Light
