import InterBtcClients.Bitcoin.Selection
import InterBtcClients.Bitcoin.ThreeKeys

/-! The sizes of transactions and the fees for them as natural numbers, and the conditions under
which the light client's wallet calculates them without overflow. -/

namespace InterBtcClients.Bitcoin.Light

open Library Electrs Wallet InterBtcClients.Runtime

variable {E : Type} {lib : Lib E}

/-! ### Fees -/

theorem toNat_sum (values : List UInt64) :
    values.sum.toNat = (values.map UInt64.toNat).sum % 2 ^ 64 := by
  induction values with
  | nil => rfl
  | cons value values ih =>
    rw [List.sum_cons, UInt64.toNat_add, ih, List.map_cons, List.sum_cons, Nat.add_mod_mod]

theorem toNat_saturatingMul (a b : UInt64) :
    (saturatingMul a b).toNat = min (a.toNat * b.toNat) (2 ^ 64 - 1) := by
  unfold saturatingMul
  by_cases h : a.toNat * b.toNat < 2 ^ 64
  · rw [if_pos h, UInt64.toNat_mul, Nat.mod_eq_of_lt h]
    omega
  · rw [if_neg h]
    have hmax : (-1 : UInt64).toNat = 2 ^ 64 - 1 := rfl
    omega

theorem toNat_divCeil_thousand (a : UInt64) : (divCeil a 1000).toNat = (a.toNat + 999) / 1000 := by
  have hlt := a.toNat_lt
  have h1000 : (1000 : UInt64).toNat = 1000 := rfl
  have h1 : (1 : UInt64).toNat = 1 := rfl
  have hmod : a % 1000 > 0 ↔ 0 < a.toNat % 1000 := UInt64.lt_iff_toNat_lt
  unfold divCeil
  by_cases h : a % 1000 > 0
  · have hpos := hmod.mp h
    rw [if_pos h, UInt64.toNat_add, UInt64.toNat_div, h1000, h1]
    omega
  · have hzero := mt hmod.mpr h
    rw [if_neg h, UInt64.toNat_div, h1000]
    omega

/-- The fee for `n` bytes at `r` satoshi for 1000 bytes, which saturates. -/
def exactFee (r n : Nat) : Nat := (min (r * n) (2 ^ 64 - 1) + 999) / 1000

theorem toNat_getFee (rate : FeeRate) (numBytes : UInt64) :
    (rate.getFee numBytes).toNat = exactFee rate.nSatoshisPerK.toNat numBytes.toNat := by
  rw [FeeRate.getFee, toNat_divCeil_thousand, toNat_saturatingMul, exactFee]

/-- Fees for parts add up to at least the fee for the whole. -/
theorem exactFee_add_le (r m n : Nat) : exactFee r (m + n) ≤ exactFee r m + exactFee r n := by
  unfold exactFee
  rw [Nat.mul_add]
  omega

theorem exactFee_mul_le (r n k : Nat) : exactFee r (n * k) ≤ k * exactFee r n := by
  induction k with
  | zero => simp [exactFee]
  | succ k ih =>
    have := exactFee_add_le r (n * k) n
    rw [Nat.mul_succ, Nat.succ_mul]
    omega

theorem exactFee_lt (r n : Nat) : exactFee r n < 2 ^ 55 := by
  unfold exactFee
  omega

/-! ### Sizes -/

/-- The length of a number in the compact form. -/
def compactLen (n : Nat) : Nat := (varIntLen n.toUInt64).toNat

/-- The length of a byte string with its length before it. -/
def bytesSize (bytes : List UInt8) : Nat := compactLen bytes.length + bytes.length

def txOutSize (txOut : TxOut) : Nat := 8 + bytesSize txOut.scriptPubkey

def outputsSize (output : List TxOut) : Nat := (output.map txOutSize).sum

def txInSize (txin : TxIn) : Nat := 32 + 4 + bytesSize txin.scriptSig + 4

def witnessSize (txin : TxIn) : Nat :=
  compactLen txin.witness.length + (txin.witness.map bytesSize).sum

/-- The size of a transaction without its witnesses. -/
def baseSize (tx : Transaction) : Nat :=
  4 + compactLen tx.input.length + (tx.input.map txInSize).sum + compactLen tx.output.length +
    outputsSize tx.output + 4

def txWeight (tx : Transaction) : Nat :=
  if tx.input.all fun txin => txin.witness.isEmpty then baseSize tx * 4
  else baseSize tx * 4 + 2 + (tx.input.map witnessSize).sum

/-- What the wallet relies on about the bitcoin library: keys are compressed, sizes are those of the
network, a partially signed transaction is made with empty inputs, and extracting it adds nothing
when there are no witnesses. -/
structure Standard (lib : Lib E) : Prop where
  publicKey : ∀ key, (lib.publicKey key).length = 33
  varIntLen : ∀ n, lib.varIntLen n = varIntLen n
  weight : ∀ tx, txWeight tx < 2 ^ 64 → (lib.weight tx).toNat = txWeight tx
  inputs : ∀ {tx psbt}, lib.fromUnsignedTx tx = .ok psbt →
    psbt.inputs = tx.input.map fun _ => ⟨none, none, none⟩
  extractTx : ∀ psbt, (∀ txin ∈ psbt.unsignedTx.input, txin.witness = []) →
    (∀ input ∈ psbt.inputs, input.finalScriptWitness = none) → lib.extractTx psbt = psbt.unsignedTx

theorem compactLen_le (n : Nat) : compactLen n ≤ 9 := by
  unfold compactLen Bitcoin.varIntLen
  split
  · decide
  split
  · decide
  split
  · decide
  · decide

theorem compactLen_of_lt {n : Nat} (h : n < 253) : compactLen n = 1 := by
  have hlt : n.toUInt64 < 0xFD := by
    rw [UInt64.lt_iff_toNat_lt]
    show n % 2 ^ 64 < 253
    omega
  rw [compactLen, Bitcoin.varIntLen, if_pos hlt]
  rfl

/-! ### The sizes that the wallet calculates -/

/-- The memory that the outputs take: a `TxOut` with its script. -/
def memorySize (output : List TxOut) : Nat :=
  (output.map fun txOut => 32 + txOut.scriptPubkey.length).sum

theorem outputsSize_concat (output : List TxOut) (txOut : TxOut) :
    outputsSize (output ++ [txOut]) = outputsSize output + txOutSize txOut := by
  simp [outputsSize]

theorem outputsSize_le (output : List TxOut) : outputsSize output ≤ memorySize output := by
  induction output with
  | nil => exact Nat.le_refl 0
  | cons txOut output ih =>
    have := compactLen_le txOut.scriptPubkey.length
    simp only [outputsSize, memorySize, List.map_cons, List.sum_cons, txOutSize, bytesSize] at ih ⊢
    omega

theorem le_memorySize {output : List TxOut} {txOut : TxOut} (h : txOut ∈ output) :
    32 + txOut.scriptPubkey.length ≤ memorySize output := by
  induction output with
  | nil => cases h
  | cons first output ih =>
    simp only [memorySize, List.map_cons, List.sum_cons] at ih ⊢
    rcases List.mem_cons.mp h with rfl | h
    · omega
    · have := ih h
      omega

section Standard

variable (hstd : Standard lib)

include hstd

theorem toNat_lengthSize {A : Type} (elements : List A) :
    (lengthSize lib elements).toNat = compactLen elements.length := by
  rw [lengthSize, hstd.varIntLen, compactLen]

theorem toNat_txOutSerializeSize {txOut : TxOut} (h : txOut.scriptPubkey.length < 2 ^ 63) :
    (txOutSerializeSize lib txOut).toNat = txOutSize txOut := by
  have hle := compactLen_le txOut.scriptPubkey.length
  have hlength : (txOut.scriptPubkey.length.toUInt64).toNat = txOut.scriptPubkey.length :=
    Nat.mod_eq_of_lt (by omega)
  have h8 : (8 : UInt64).toNat = 8 := rfl
  rw [txOutSerializeSize, UInt64.toNat_add, UInt64.toNat_add, toNat_lengthSize hstd, hlength, h8,
    txOutSize, bytesSize]
  omega

theorem sum_txOutSerializeSize {output : List TxOut} (h : memorySize output < 2 ^ 63) :
    ((output.map (txOutSerializeSize lib)).map UInt64.toNat).sum = outputsSize output := by
  induction output with
  | nil => rfl
  | cons txOut output ih =>
    simp only [memorySize, List.map_cons, List.sum_cons] at h ih ⊢
    rw [toNat_txOutSerializeSize hstd (by omega), ih (by omega)]
    rfl

theorem toNat_txNoinputsSize {tx : Transaction} (h : memorySize tx.output < 2 ^ 63) :
    (txNoinputsSize lib tx).toNat =
      10 + compactLen tx.output.length + outputsSize tx.output := by
  have hle := compactLen_le tx.output.length
  have hsize := outputsSize_le tx.output
  have h10 : (10 : UInt64).toNat = 10 := rfl
  rw [txNoinputsSize, UInt64.toNat_add, UInt64.toNat_add, toNat_lengthSize hstd, toNat_sum,
    sum_txOutSerializeSize hstd h, h10]
  omega

/-- An input takes 41 bytes and its witness 108, a fourth of which counts. -/
theorem calculateMaximumSignedInputSize_eq {outpoint : OutPoint} {publicKey : PublicKey}
    (hlength : publicKey.length = 33) :
    calculateMaximumSignedInputSize lib outpoint publicKey = 68 := by
  rw [calculateMaximumSignedInputSize_congr lib outpoint ⟨0, 0⟩
    (hlength.trans (List.length_replicate (a := (0 : UInt8))).symm)]
  simp only [calculateMaximumSignedInputSize, getTransactionInputWeight, txInSerializeSize,
    witnessSerializeSize, lengthSize, hstd.varIntLen]
  decide +kernel

theorem toNat_inputFee (rate : FeeRate) :
    (inputFee lib rate).toNat = exactFee rate.nSatoshisPerK.toNat 68 := by
  rw [inputFee, calculateMaximumSignedInputSize_eq hstd (by simp), toNat_getFee]
  rfl

end Standard

/-! ### The size of a funded transaction -/

theorem txInSize_dummySignInput (coin : Coin) (publicKey : PublicKey) :
    txInSize (dummySignInput coin.txIn publicKey) = 41 := rfl

theorem witnessSize_dummySignInput {txin : TxIn} {publicKey : PublicKey}
    (hlength : publicKey.length = 33) : witnessSize (dummySignInput txin publicKey) = 108 := by
  show compactLen 2 + ([dummySignature, publicKey].map bytesSize).sum = 108
  simp only [List.map_cons, List.map_nil, List.sum_cons, List.sum_nil, bytesSize, hlength]
  decide +kernel

/-- The signature that stands for the one of an input. -/
def signAt (lib : Lib E) (wallet : Wallet) (inputs : List PsbtInput) (input : TxIn × Nat) :
    Except (Failure (Error E)) TxIn := do
  let psbtInput ← expectSome "index out of bounds" inputs[input.2]?
  let txOut ← expectSome "psbt has witness utxo" psbtInput.witnessUtxo
  let publicKey ← expect "wallet has key" (wallet.getPubKey lib txOut.scriptPubkey)
  return dummySignInput input.1 publicKey

/-- A transaction with the inputs of the coins, each with a signature. -/
def signedTx (coins : List Coin) (tx : Transaction) : Transaction :=
  { tx with input := coins.map fun coin => dummySignInput coin.txIn coin.publicKey }

/-- The virtual size of a signed transaction with `k` inputs. -/
def signedSize (k : Nat) (output : List TxOut) : Nat :=
  9 + compactLen k + compactLen output.length + 68 * k + outputsSize output

section Signed

variable {wallet : Wallet} {coins : List Coin} {psbt : PartiallySignedTransaction}

theorem mapM_signAt {inputs : List PsbtInput} {start : Nat}
    (hkeys : ∀ coin ∈ coins, wallet.getPubKey lib coin.scriptPubkey = .ok coin.publicKey)
    (hinputs : ∀ i, inputs[start + i]? = (coins.map Coin.psbtInput)[i]?) :
    ((coins.map Coin.txIn).zipIdx start).mapM (signAt lib wallet inputs) =
      .ok (coins.map fun coin => dummySignInput coin.txIn coin.publicKey) := by
  induction coins generalizing start with
  | nil => rfl
  | cons coin coins ih =>
    have hfirst : inputs[start]? = some coin.psbtInput := hinputs 0
    have hsign : signAt lib wallet inputs (coin.txIn, start) =
        .ok (dummySignInput coin.txIn coin.publicKey) := by
      have hkey := hkeys coin List.mem_cons_self
      simp only [signAt, hfirst]
      show Except.bind (expect _ (wallet.getPubKey lib coin.scriptPubkey)) _ = _
      rw [hkey]
      rfl
    have hinputs (i : Nat) : inputs[start + 1 + i]? = (coins.map Coin.psbtInput)[i]? := by
      have := hinputs (i + 1)
      rwa [show start + (i + 1) = start + 1 + i by omega] at this
    have hrest := ih (fun c hc => hkeys c (List.mem_cons_of_mem _ hc)) hinputs
    rw [List.map_cons, List.zipIdx_cons, List.mapM_cons, hsign]
    show Except.bind (((coins.map Coin.txIn).zipIdx (start + 1)).mapM _) _ = _
    rw [hrest]
    rfl

theorem sum_map_const {A : Type} (xs : List A) (f : A → Nat) (n : Nat) (h : ∀ x ∈ xs, f x = n) :
    (xs.map f).sum = n * xs.length := by
  rw [List.map_congr_left h, List.map_const', List.sum_replicate_nat, Nat.mul_comm]

theorem txWeight_signedTx (tx : Transaction) (hnonempty : coins ≠ [])
    (hlength : ∀ coin ∈ coins, coin.publicKey.length = 33) :
    txWeight (signedTx coins tx) =
      4 * (8 + compactLen coins.length + compactLen tx.output.length + 41 * coins.length +
        outputsSize tx.output) + 2 + 108 * coins.length := by
  have hsizes : ((signedTx coins tx).input.map txInSize).sum = 41 * coins.length := by
    rw [signedTx, List.map_map]
    exact sum_map_const coins _ 41 fun coin _ => txInSize_dummySignInput coin coin.publicKey
  have hwitnesses : ((signedTx coins tx).input.map witnessSize).sum = 108 * coins.length := by
    rw [signedTx, List.map_map]
    exact sum_map_const coins _ 108 fun coin hcoin =>
      witnessSize_dummySignInput (hlength coin hcoin)
  have hcount : (signedTx coins tx).input.length = coins.length := by simp [signedTx]
  have hsigned : ((signedTx coins tx).input.all fun txin => txin.witness.isEmpty) = false := by
    cases coins with
    | nil => exact absurd rfl hnonempty
    | cons coin coins => rfl
  have houtput : (signedTx coins tx).output = tx.output := rfl
  rw [txWeight, hsigned, baseSize, hsizes, hwitnesses, hcount, houtput]
  simp only [Bool.false_eq_true, if_false]
  omega

theorem toNat_weight_signedTx (hstd : Standard lib) {tx : Transaction} (hnonempty : coins ≠ [])
    (hlength : ∀ coin ∈ coins, coin.publicKey.length = 33)
    (hmemory : memorySize tx.output + 64 * coins.length < 2 ^ 60) :
    (lib.weight (signedTx coins tx)).toNat =
        4 * (8 + compactLen coins.length + compactLen tx.output.length + 41 * coins.length +
          outputsSize tx.output) + 2 + 108 * coins.length ∧
      (lib.weight (signedTx coins tx)).toNat + 3 < 2 ^ 64 := by
  have hweight := txWeight_signedTx tx hnonempty hlength
  have hcount := compactLen_le coins.length
  have houtputs := compactLen_le tx.output.length
  have hoverhead := outputsSize_le tx.output
  have hexact := hstd.weight (signedTx coins tx) (by omega)
  omega

variable (psbt) in
/-- The size that the wallet finds for a transaction with the inputs of the coins. -/
theorem calculateMaximumSignedTxSize_of_coins (hstd : Standard lib) (hnonempty : coins ≠ [])
    (hinput : psbt.unsignedTx.input = coins.map Coin.txIn)
    (hinputs : psbt.inputs = coins.map Coin.psbtInput)
    (hkeys : ∀ coin ∈ coins, wallet.getPubKey lib coin.scriptPubkey = .ok coin.publicKey)
    (hmemory : memorySize psbt.unsignedTx.output + 64 * coins.length < 2 ^ 60) :
    ∃ n, calculateMaximumSignedTxSize lib psbt wallet = .ok n ∧
      n.toNat = signedSize coins.length psbt.unsignedTx.output := by
  have hextract : lib.extractTx psbt = psbt.unsignedTx := by
    apply hstd.extractTx
    · rw [hinput]
      intro txin htxin
      obtain ⟨coin, -, rfl⟩ := List.mem_map.mp htxin
      rfl
    · rw [hinputs]
      intro input hmem
      obtain ⟨coin, -, rfl⟩ := List.mem_map.mp hmem
      rfl
  have hsign : psbt.unsignedTx.input.zipIdx.mapM (signAt lib wallet psbt.inputs) =
      .ok (coins.map fun coin => dummySignInput coin.txIn coin.publicKey) := by
    rw [hinput]
    exact mapM_signAt hkeys fun i => by rw [hinputs, Nat.zero_add]
  have hsize : calculateMaximumSignedTxSize lib psbt wallet =
      .ok ((lib.weight (signedTx coins psbt.unsignedTx) + 3) / 4) := by
    show Except.bind ((lib.extractTx psbt).input.zipIdx.mapM (signAt lib wallet psbt.inputs)) _ = _
    rw [hextract, hsign]
    rfl
  obtain ⟨hexact, hfits⟩ := toNat_weight_signedTx hstd hnonempty (fun coin hcoin =>
    length_getPubKey hstd.publicKey (hkeys coin hcoin)) hmemory
  have h3 : (3 : UInt64).toNat = 3 := rfl
  have h4 : (4 : UInt64).toNat = 4 := rfl
  refine ⟨_, hsize, ?_⟩
  rw [UInt64.toNat_div, UInt64.toNat_add, h3, h4, signedSize]
  omega

end Signed

/-! ### The library on three keys -/

theorem toUInt64_sum {A : Type} (xs : List A) {f : A → UInt64} {g : A → Nat}
    (h : ∀ x, f x = (g x).toUInt64) : (xs.map f).sum = (xs.map g).sum.toUInt64 := by
  induction xs with
  | nil => rfl
  | cons x xs ih =>
    rw [List.map_cons, List.sum_cons, ih, h, List.map_cons, List.sum_cons]
    exact (UInt64.ofNat_add _ _).symm

theorem toUInt64_compactLen (n : Nat) : varIntLen n.toUInt64 = (compactLen n).toUInt64 :=
  UInt64.ofNat_toNat.symm

theorem toUInt64_bytesSize (bytes : List UInt8) :
    varIntLen bytes.length.toUInt64 + bytes.length.toUInt64 = (bytesSize bytes).toUInt64 := by
  rw [toUInt64_compactLen]
  exact (UInt64.ofNat_add _ _).symm

theorem weight_threeKeys {signed : List (Transaction × H256 × List UInt8)}
    {sent : List (Txid × Transaction)} (tx : Transaction) :
    (threeKeys signed sent).weight tx = (txWeight tx).toUInt64 := by
  have hinputs := toUInt64_sum tx.input (g := txInSize)
    (f := fun txin => 32 + 4 + (varIntLen txin.scriptSig.length.toUInt64 +
      txin.scriptSig.length.toUInt64) + 4) fun txin => by
    rw [toUInt64_bytesSize, txInSize]
    simp [UInt64.ofNat_add]
  have houtputs := toUInt64_sum tx.output (g := txOutSize)
    (f := fun txOut => 8 + (varIntLen txOut.scriptPubkey.length.toUInt64 +
      txOut.scriptPubkey.length.toUInt64)) fun txOut => by
    rw [toUInt64_bytesSize, txOutSize]
    simp [UInt64.ofNat_add]
  have hwitnesses := toUInt64_sum tx.input (g := witnessSize)
    (f := fun txin => varIntLen txin.witness.length.toUInt64 + (txin.witness.map fun elem =>
      varIntLen elem.length.toUInt64 + elem.length.toUInt64).sum) fun txin => by
    rw [toUInt64_compactLen, toUInt64_sum _ toUInt64_bytesSize, witnessSize]
    exact (UInt64.ofNat_add _ _).symm
  simp only [threeKeys]
  rw [hinputs, houtputs, hwitnesses, toUInt64_compactLen, toUInt64_compactLen, txWeight, baseSize,
    outputsSize]
  split
  · simp [UInt64.ofNat_add, UInt64.ofNat_mul]
  · simp [UInt64.ofNat_add, UInt64.ofNat_mul]

theorem standard_threeKeys (signed : List (Transaction × H256 × List UInt8))
    (sent : List (Txid × Transaction)) : Standard (threeKeys signed sent) where
  publicKey key := length_toBytes 33 _
  varIntLen n := rfl
  weight tx htx := by
    rw [weight_threeKeys]
    exact Nat.mod_eq_of_lt htx
  inputs h := by
    simp only [threeKeys] at h
    split at h <;> cases h
    rfl
  extractTx psbt hinput hinputs := by
    have hnone (i : Nat) : psbt.inputs[i]?.bind PsbtInput.finalScriptWitness = none := by
      cases hi : psbt.inputs[i]? with
      | none => rfl
      | some input => exact hinputs input (List.mem_of_getElem? hi)
    have hsame (f : TxIn × Nat → TxIn)
        (hf : ∀ txin i, (txin, i) ∈ psbt.unsignedTx.input.zipIdx → f (txin, i) = txin) :
        psbt.unsignedTx.input.zipIdx.map f = psbt.unsignedTx.input := by
      refine Eq.trans (List.map_congr_left (g := Prod.fst) ?_) (List.zipIdx_map_fst 0 _)
      intro input hmem
      exact hf input.1 input.2 hmem
    simp only [threeKeys]
    rw [hsame]
    intro txin i hmem
    dsimp only
    rw [hnone i, Option.getD_none, ← hinput txin (List.fst_mem_of_mem_zipIdx hmem)]

end InterBtcClients.Bitcoin.Light
