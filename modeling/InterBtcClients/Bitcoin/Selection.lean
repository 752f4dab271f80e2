import InterBtcClients.Bitcoin.Wallet
import InterBtcClients.Library.Covering

/-! The coins that the light client's funding selects when the server does not change: the shortest
prefix of the coins it may use that covers the outputs and the fee for everything but the inputs. -/

namespace InterBtcClients.Bitcoin.Light

open Library Electrs Wallet InterBtcClients.Runtime

variable {E : Type} {lib : Lib E}

/-- The answers of a server that does not change. -/
abbrev Answers (E : Type) := (c : Call) → (api E).Answer c

/-- A coin with what the funding finds out about it. -/
structure Coin where
  utxo : Utxo
  scriptPubkey : Script
  publicKey : PublicKey

def findCoin (lib : Lib E) (answer : Answers E) (wallet : Wallet) (utxo : Utxo) :
    Except (Failure (Error E)) Coin := do
  let scriptPubkey ←
    ((getScriptPubkey utxo.outpoint).run.eval answer).mapError fun e => .error (.electrsError e)
  let publicKey ← expect "wallet has key" (wallet.getPubKey lib scriptPubkey)
  return ⟨utxo, scriptPubkey, publicKey⟩

/-- The coins of the stream up to its first error that are not outputs of the replaced
transaction. -/
def usableCoins (prevTxid : Option Txid) : List (Except (Error E) Utxo) → List Utxo
  | .ok utxo :: coins =>
    if prevTxid = some utxo.outpoint.txid then usableCoins prevTxid coins
    else utxo :: usableCoins prevTxid coins
  | _ => []

/-! ### The fees -/

/-- The fee for an input with a compressed key. -/
def inputFee (lib : Lib E) (rate : FeeRate) : UInt64 :=
  rate.getFee (calculateMaximumSignedInputSize lib ⟨0, 0⟩ (List.replicate 33 0))

def effectiveValue (lib : Lib E) (rate : FeeRate) (utxo : Utxo) : Nat :=
  utxo.value.toNat - (inputFee lib rate).toNat

theorem toNat_saturatingSub (a b : UInt64) : (saturatingSub a b).toNat = a.toNat - b.toNat := by
  unfold saturatingSub
  by_cases h : b ≤ a
  · rw [if_pos h]
    exact UInt64.toNat_sub_of_le a b h
  · rw [if_neg h]
    have hlt : a.toNat < b.toNat := by simpa [UInt64.le_iff_toNat_le] using h
    simp only [UInt64.toNat_zero]
    omega

variable (lib) in
/-- The size of an input depends on the length of the key alone. -/
theorem calculateMaximumSignedInputSize_congr (outpoint outpoint' : OutPoint)
    {publicKey publicKey' : PublicKey} (h : publicKey.length = publicKey'.length) :
    calculateMaximumSignedInputSize lib outpoint publicKey =
      calculateMaximumSignedInputSize lib outpoint' publicKey' := by
  simp [calculateMaximumSignedInputSize, getTransactionInputWeight, dummySignInput,
    TxIn.ofOutPoint, txInSerializeSize, witnessSerializeSize, lengthSize, h]

/-- The keys of the wallet are compressed. -/
theorem length_getPubKey {wallet : Wallet} {scriptPubkey : Script} {publicKey : PublicKey}
    (hlength : ∀ key, (lib.publicKey key).length = 33)
    (h : wallet.getPubKey lib scriptPubkey = .ok publicKey) : publicKey.length = 33 := by
  simp only [getPubKey, bind, Except.bind, pure, Except.pure] at h
  split at h
  · cases h
  · cases h
    exact hlength _

theorem eq_ok_of_expect {X Y A : Type} {message : String} {x : Except X A} {a : A}
    (h : (expect message x : Except (Failure Y) A) = .ok a) : x = .ok a := by
  cases x with
  | ok b => exact congrArg _ (Except.ok.inj h)
  | error e => cases h

theorem panic_of_expect {X Y A : Type} {message : String} {x : Except X A} {e : Failure Y}
    (h : expect message x = .error e) : ∃ message, e = .panic message := by
  cases x with
  | ok b => cases h
  | error e' =>
    cases h
    exact ⟨message, rfl⟩

theorem panic_of_expectSome {Y A : Type} {message : String} {x : Option A} {e : Failure Y}
    (h : expectSome message x = .error e) : ∃ message, e = .panic message := by
  cases x with
  | some b => cases h
  | none =>
    cases h
    exact ⟨message, rfl⟩

theorem findCoin_spec {answer : Answers E} {wallet : Wallet} {utxo : Utxo} {coin : Coin}
    (h : findCoin lib answer wallet utxo = .ok coin) : coin.utxo = utxo ∧
      (getScriptPubkey utxo.outpoint).run.eval answer = .ok coin.scriptPubkey ∧
      wallet.getPubKey lib coin.scriptPubkey = .ok coin.publicKey := by
  obtain ⟨scriptPubkey, hscript, h⟩ := Prog.bind_eq_ok h
  obtain ⟨publicKey, hkey, h⟩ := Prog.bind_eq_ok h
  cases h
  exact ⟨rfl, Prog.mapError_eq_ok hscript, eq_ok_of_expect hkey⟩

/-! ### The rounds -/

def coinOutput (lib : Lib E) (rate : FeeRate) (coin : Coin) : CoinOutput :=
  ⟨coin.utxo.value,
    rate.getFee (calculateMaximumSignedInputSize lib coin.utxo.outpoint coin.publicKey)⟩

/-- The input that spends a coin. -/
def Coin.txIn (coin : Coin) : TxIn :=
  { TxIn.ofOutPoint coin.utxo.outpoint with sequence := 0xFFFFFFFD }

def Coin.psbtInput (coin : Coin) : PsbtInput :=
  ⟨some ⟨coin.utxo.value, coin.scriptPubkey⟩, none, none⟩

namespace Wallet.Funding

def add (lib : Lib E) (rate : FeeRate) (s : Funding) (coin : Coin) : Funding where
  psbt := addInput s.psbt coin.utxo coin.scriptPubkey
  selectCoins := s.selectCoins.add (coinOutput lib rate coin)
  valueToSelect := saturatingSub s.valueToSelect (coinOutput lib rate coin).getEffectiveValue

/-- The funding with all coins of a list added. -/
def addAll (lib : Lib E) (rate : FeeRate) (s : Funding) (coins : List Coin) : Funding :=
  coins.foldl (add lib rate) s

variable {rate : FeeRate} {s : Funding} {coins : List Coin}

theorem psbt_addAll : (s.addAll lib rate coins).psbt =
    { unsignedTx := { s.psbt.unsignedTx with
        input := s.psbt.unsignedTx.input ++ coins.map Coin.txIn }
      inputs := s.psbt.inputs ++ coins.map Coin.psbtInput } := by
  induction coins generalizing s with
  | nil => simp [addAll]
  | cons coin coins ih =>
    show ((s.add lib rate coin).addAll lib rate coins).psbt = _
    rw [ih]
    simp [add, addInput, Coin.txIn, Coin.psbtInput]

theorem selectCoins_addAll : (s.addAll lib rate coins).selectCoins =
    { s.selectCoins with
      presetInputs := s.selectCoins.presetInputs ++ coins.map (coinOutput lib rate) } := by
  induction coins generalizing s with
  | nil => simp [addAll]
  | cons coin coins ih =>
    show ((s.add lib rate coin).addAll lib rate coins).selectCoins = _
    rw [ih]
    simp [add, SelectCoins.add]

end Wallet.Funding

section Rounds

variable {answer : Answers E} {params : FundParams} {wallet : Wallet} {utxo : Utxo} {s : Funding}

theorem eval_fundRound_skipped (h : params.prevTxid = some utxo.outpoint.txid) :
    (fundRound lib params wallet (.ok utxo) s).run.eval answer = .ok (.inl s) := by
  rw [fundRound, if_pos h]
  rfl

theorem eval_roundEnd :
    (ExceptT.run (if s.valueToSelect = 0 then do
        return .inr (some (← Prog.ofExcept (addChange lib params wallet s)))
      else return .inl s : ExceptT (Failure (Error E)) (Prog (api E))
        (Funding ⊕ Option PartiallySignedTransaction))).eval answer =
      if s.valueToSelect = 0 then (addChange lib params wallet s).map fun psbt => .inr (some psbt)
      else .ok (.inl s) := by
  by_cases h : s.valueToSelect = 0
  · rw [if_pos h, if_pos h, Prog.eval_run_bind, Prog.eval_run_ofExcept]
    rfl
  · rw [if_neg h, if_neg h, Prog.eval_run_pure]

theorem eval_fundRound (h : params.prevTxid ≠ some utxo.outpoint.txid) :
    (fundRound lib params wallet (.ok utxo) s).run.eval answer =
      (findCoin lib answer wallet utxo).bind fun coin =>
        if (s.add lib params.mEffectiveFeerate coin).valueToSelect = 0 then
          (addChange lib params wallet (s.add lib params.mEffectiveFeerate coin)).map
            fun psbt => .inr (some psbt)
        else .ok (.inl (s.add lib params.mEffectiveFeerate coin)) := by
  rw [fundRound, if_neg h, Prog.eval_run_bind, Prog.eval_run_adapt, findCoin]
  cases ((getScriptPubkey utxo.outpoint).run.eval answer).mapError
    (fun e => (Failure.error (Error.electrsError e) : Failure (Error E))) with
  | error e => rfl
  | ok scriptPubkey =>
    rw [Prog.bind_ok, Prog.eval_run_bind, Prog.eval_run_ofExcept]
    show _ = (Except.bind (Except.bind (expect _ _) fun publicKey => _) _)
    cases (expect "wallet has key" (wallet.getPubKey lib scriptPubkey) :
      Except (Failure (Error E)) PublicKey) with
    | error e => rfl
    | ok publicKey =>
      have hcoin : (pure ⟨utxo, scriptPubkey, publicKey⟩ : Except (Failure (Error E)) Coin) =
        .ok ⟨utxo, scriptPubkey, publicKey⟩ := rfl
      rw [Prog.bind_ok, Prog.bind_ok, hcoin, Prog.bind_ok, ← eval_roundEnd]
      congr 1

theorem effectiveValue_coinOutput {rate : FeeRate} {coin : Coin}
    (hlength : coin.publicKey.length = 33) :
    (coinOutput lib rate coin).getEffectiveValue.toNat = effectiveValue lib rate coin.utxo := by
  have hsize := calculateMaximumSignedInputSize_congr lib coin.utxo.outpoint ⟨0, 0⟩
    (hlength.trans (List.length_replicate (a := (0 : UInt8))).symm)
  rw [CoinOutput.getEffectiveValue, toNat_saturatingSub, coinOutput, hsize]
  rfl

section Found

variable {rate : FeeRate} {coin : Coin} (hlength : ∀ key, (lib.publicKey key).length = 33)
  (hcoin : findCoin lib answer wallet utxo = .ok coin)

include hlength hcoin

variable (rate) in
theorem toNat_valueToSelect_add : (s.add lib rate coin).valueToSelect.toNat =
    s.valueToSelect.toNat - effectiveValue lib rate utxo := by
  obtain ⟨hutxo, -, hkey⟩ := findCoin_spec hcoin
  show (saturatingSub _ _).toNat = _
  rw [toNat_saturatingSub, effectiveValue_coinOutput (length_getPubKey hlength hkey), hutxo]

variable (rate) in
/-- A coin ends the selection when its effective value is what is left to select. -/
theorem valueToSelect_add_eq_zero_iff : (s.add lib rate coin).valueToSelect = 0 ↔
    s.valueToSelect.toNat ≤ effectiveValue lib rate utxo := by
  rw [← UInt64.toNat_inj, toNat_valueToSelect_add rate hlength hcoin, UInt64.toNat_zero]
  omega

end Found

end Rounds

/-! ### The loop -/

/-- The loop over the coins of a stream. -/
def selectFrom (lib : Lib E) (answer : Answers E) (params : FundParams) (wallet : Wallet)
    (coins : List (Except (Error E) Utxo)) (s : Funding) :
    Except (Failure (Error E)) (Funding ⊕ Option PartiallySignedTransaction) :=
  AsyncStream.listUntil (fun coin s => (fundRound lib params wallet coin s).run.eval answer) coins s

/-- The coins that the loop selects for `target` out of those that it may use. -/
structure Chosen (lib : Lib E) (answer : Answers E) (wallet : Wallet) (rate : FeeRate)
    (target : Nat) (usable : List Utxo) (coins : List Coin) : Prop where
  shortest : ShortestCover (effectiveValue lib rate) target usable (coins.map Coin.utxo)
  found : ∀ coin ∈ coins, findCoin lib answer wallet coin.utxo = .ok coin

section Loop

variable {answer : Answers E} {params : FundParams} {wallet : Wallet} {s : Funding}
  {utxo : Utxo} {stream : List (Except (Error E) Utxo)} {psbt : PartiallySignedTransaction}

theorem usableCoins_skipped {prevTxid : Option Txid} (h : prevTxid = some utxo.outpoint.txid) :
    usableCoins prevTxid (.ok utxo :: stream) = usableCoins prevTxid stream := by
  rw [usableCoins, if_pos h]

theorem usableCoins_kept {prevTxid : Option Txid} (h : prevTxid ≠ some utxo.outpoint.txid) :
    usableCoins prevTxid (.ok utxo :: stream) = utxo :: usableCoins prevTxid stream := by
  rw [usableCoins, if_neg h]

theorem selectFrom_skipped (h : params.prevTxid = some utxo.outpoint.txid) :
    selectFrom lib answer params wallet (.ok utxo :: stream) s =
      selectFrom lib answer params wallet stream s := by
  rw [selectFrom, AsyncStream.listUntil, eval_fundRound_skipped h]
  rfl

theorem selectFrom_kept (h : params.prevTxid ≠ some utxo.outpoint.txid) :
    selectFrom lib answer params wallet (.ok utxo :: stream) s =
      (findCoin lib answer wallet utxo).bind fun coin =>
        if (s.add lib params.mEffectiveFeerate coin).valueToSelect = 0 then
          (addChange lib params wallet (s.add lib params.mEffectiveFeerate coin)).map
            fun psbt => .inr (some psbt)
        else
          selectFrom lib answer params wallet stream (s.add lib params.mEffectiveFeerate coin) := by
  rw [selectFrom, AsyncStream.listUntil, eval_fundRound h]
  cases findCoin lib answer wallet utxo with
  | error e => rfl
  | ok coin =>
    rw [Prog.bind_ok, Prog.bind_ok]
    by_cases hselected : (s.add lib params.mEffectiveFeerate coin).valueToSelect = 0
    · rw [if_pos hselected, if_pos hselected]
      cases addChange lib params wallet (s.add lib params.mEffectiveFeerate coin) <;> rfl
    · rw [if_neg hselected, if_neg hselected]
      rfl

/-- What the funding of a transaction fails with when a request fails or a key is missing. -/
theorem error_of_findCoin {e : Failure (Error E)}
    (h : findCoin lib answer wallet utxo = .error e) : e ≠ .error .notEnoughInputs := by
  rcases Prog.bind_eq_error h with h | ⟨scriptPubkey, -, h⟩
  · obtain ⟨e', -, rfl⟩ := Prog.mapError_eq_error h
    simp
  rcases Prog.bind_eq_error h with h | ⟨publicKey, -, h⟩
  · obtain ⟨message, rfl⟩ := panic_of_expect h
    simp
  · cases h

/-- The size of a transaction is found, or the wallet panics. -/
theorem error_of_calculateMaximumSignedTxSize {e : Failure (Error E)}
    (h : calculateMaximumSignedTxSize lib psbt wallet = .error e) :
    ∃ message, e = .panic message := by
  rcases Prog.bind_eq_error h with h | ⟨input, -, h⟩
  · obtain ⟨⟨txin, i⟩, -, h⟩ := Prog.exists_of_mapM_eq_error h
    rcases Prog.bind_eq_error h with h | ⟨psbtInput, -, h⟩
    · exact panic_of_expectSome h
    rcases Prog.bind_eq_error h with h | ⟨txOut, -, h⟩
    · exact panic_of_expectSome h
    rcases Prog.bind_eq_error h with h | ⟨publicKey, -, h⟩
    · exact panic_of_expect h
    · cases h
  · cases h

/-- A selection that has been made is completed, or the wallet panics. -/
theorem error_of_addChange {e : Failure (Error E)} (h : addChange lib params wallet s = .error e) :
    e ≠ .error .notEnoughInputs := by
  have hpanic : ∃ message, e = .panic message := by
    rcases Prog.bind_eq_error h with h | ⟨nBytes, -, h⟩
    · exact error_of_calculateMaximumSignedTxSize h
    · dsimp only at h
      split at h <;> cases h
  obtain ⟨message, rfl⟩ := hpanic
  simp

section Selects

variable (hlength : ∀ key, (lib.publicKey key).length = 33)

include hlength

/-- A loop that funds the transaction has selected the shortest cover. -/
theorem chosen_of_selectFrom
    (h : selectFrom lib answer params wallet stream s = .ok (.inr (some psbt))) :
    ∃ coins, Chosen lib answer wallet params.mEffectiveFeerate s.valueToSelect.toNat
        (usableCoins params.prevTxid stream) coins ∧
      addChange lib params wallet (s.addAll lib params.mEffectiveFeerate coins) = .ok psbt := by
  induction stream generalizing s with
  | nil => cases h
  | cons item stream ih =>
    cases item with
    | error e => cases h
    | ok utxo =>
      by_cases hskipped : params.prevTxid = some utxo.outpoint.txid
      · rw [selectFrom_skipped hskipped] at h
        rw [usableCoins_skipped hskipped]
        exact ih h
      · rw [selectFrom_kept hskipped] at h
        obtain ⟨coin, hcoin, h⟩ := Prog.bind_eq_ok h
        have hutxo := (findCoin_spec hcoin).1
        have hselected := valueToSelect_add_eq_zero_iff (s := s) params.mEffectiveFeerate
          hlength hcoin
        rw [usableCoins_kept hskipped]
        by_cases hcovers : s.valueToSelect.toNat ≤
            effectiveValue lib params.mEffectiveFeerate utxo
        · rw [if_pos (hselected.mpr hcovers)] at h
          refine ⟨[coin], ⟨?_, ?_⟩, ?_⟩
          · rw [List.map_singleton, hutxo]
            exact .singleton hcovers
          · simpa [hutxo] using hcoin
          · obtain ⟨funded, hadd, heq⟩ := Prog.map_eq_ok h
            cases heq
            exact hadd
        · rw [if_neg (mt hselected.mp hcovers)] at h
          obtain ⟨coins, ⟨hshortest, hfound⟩, hadd⟩ := ih h
          rw [toNat_valueToSelect_add _ hlength hcoin] at hshortest
          refine ⟨coin :: coins, ⟨?_, ?_⟩, hadd⟩
          · rw [List.map_cons, hutxo]
            exact .cons (by omega) hshortest
          · intro c hc
            rcases List.mem_cons.mp hc with rfl | hc
            · rw [hutxo]
              exact hcoin
            · exact hfound c hc

/-- A loop that ends without a transaction has found that the coins are not enough. -/
theorem not_covered_of_selectFrom {result : Funding ⊕ Option PartiallySignedTransaction}
    (h : selectFrom lib answer params wallet stream s = .ok result)
    (hresult : ∀ psbt, result ≠ .inr (some psbt)) :
    usableCoins params.prevTxid stream = [] ∨ ((usableCoins params.prevTxid stream).map
      (effectiveValue lib params.mEffectiveFeerate)).sum < s.valueToSelect.toNat := by
  induction stream generalizing s with
  | nil => exact Or.inl rfl
  | cons item stream ih =>
    cases item with
    | error e => exact Or.inl rfl
    | ok utxo =>
      by_cases hskipped : params.prevTxid = some utxo.outpoint.txid
      · rw [selectFrom_skipped hskipped] at h
        rw [usableCoins_skipped hskipped]
        exact ih h
      · rw [selectFrom_kept hskipped] at h
        obtain ⟨coin, hcoin, h⟩ := Prog.bind_eq_ok h
        have hselected := valueToSelect_add_eq_zero_iff (s := s) params.mEffectiveFeerate
          hlength hcoin
        have hleft := toNat_valueToSelect_add (s := s) params.mEffectiveFeerate hlength hcoin
        rw [usableCoins_kept hskipped, List.map_cons, List.sum_cons]
        by_cases hcovers : s.valueToSelect.toNat ≤
            effectiveValue lib params.mEffectiveFeerate utxo
        · rw [if_pos (hselected.mpr hcovers)] at h
          obtain ⟨funded, -, heq⟩ := Prog.map_eq_ok h
          exact absurd heq.symm (hresult funded)
        · rw [if_neg (mt hselected.mp hcovers)] at h
          rcases ih h with hnone | hsum
          · rw [hnone, List.map_nil, List.sum_nil]
            exact Or.inr (by omega)
          · exact Or.inr (by omega)

end Selects

/-- Missing coins are not reported by a round. -/
theorem error_of_selectFrom {e : Failure (Error E)}
    (h : selectFrom lib answer params wallet stream s = .error e) :
    e ≠ .error .notEnoughInputs := by
  induction stream generalizing s with
  | nil => cases h
  | cons item stream ih =>
    cases item with
    | error e => cases h
    | ok utxo =>
      by_cases hskipped : params.prevTxid = some utxo.outpoint.txid
      · rw [selectFrom_skipped hskipped] at h
        exact ih h
      · rw [selectFrom_kept hskipped] at h
        rcases Prog.bind_eq_error h with hcoin | ⟨coin, -, h⟩
        · exact error_of_findCoin hcoin
        · by_cases hselected : (s.add lib params.mEffectiveFeerate coin).valueToSelect = 0
          · rw [if_pos hselected] at h
            exact error_of_addChange (Prog.map_eq_error h)
          · rw [if_neg hselected] at h
            exact ih h

end Loop

/-! ### What the funding works out first -/

section Amounts

variable (lib) (tx : Transaction) (changeAddress : Address) (rate : FeeRate)

def recipientsSum : UInt64 := (tx.output.map TxOut.value).sum

def changePrototypeTxout : TxOut := ⟨0, lib.scriptPubkey changeAddress⟩

def changeFee : UInt64 :=
  rate.getFee (txOutSerializeSize lib (changePrototypeTxout lib changeAddress))

def dust : UInt64 := getDustThreshold lib (changePrototypeTxout lib changeAddress) DUST_RELAY_TX_FEE

/-- The fee at the rate for dust that spending the change costs. -/
def changeSpendFee (changePublicKey : PublicKey) : UInt64 :=
  DUST_RELAY_TX_FEE.getFee (calculateMaximumSignedInputSize lib ⟨0, 0⟩ changePublicKey)

def minViableChange (changePublicKey : PublicKey) : UInt64 :=
  max (changeSpendFee lib changePublicKey + 1) (dust lib changeAddress)

def txNoinputsSize : UInt64 :=
  10 + lengthSize lib tx.output + (tx.output.map (txOutSerializeSize lib)).sum

def notInputFees : UInt64 := rate.getFee (txNoinputsSize lib tx)

def selectionTarget : UInt64 := recipientsSum tx + notInputFees lib tx rate

def fundParams (prevTxid : Option Txid) (changePublicKey : PublicKey) : FundParams where
  changeAddress := changeAddress
  prevTxid := prevTxid
  mEffectiveFeerate := rate
  recipientsSum := recipientsSum tx
  changeFee := changeFee lib changeAddress rate
  minViableChange := minViableChange lib changeAddress changePublicKey

end Amounts

/-- The amount to select depends on the outputs alone. -/
theorem selectionTarget_congr {tx tx' : Transaction} (h : tx.output = tx'.output)
    (rate : FeeRate) : selectionTarget lib tx rate = selectionTarget lib tx' rate := by
  simp only [selectionTarget, recipientsSum, notInputFees, txNoinputsSize, h]

/-! ### The result of the funding -/

/-- The coins that the wallet finds, with the errors of the requests that fail. -/
def coinStream (answer : Answers E) (wallet : Wallet) (tx : Transaction) :
    List (Except (Error E) Utxo) :=
  (availableCoins wallet.keyStore.keys tx.input).collect.eval answer

section Result

variable {answer : Answers E} {wallet : Wallet} {tx : Transaction} {changeAddress : Address}
  {nSatoshisPerK : UInt64} {prevTxid : Option Txid} {psbt : PartiallySignedTransaction}

/-- The funding before the loop. -/
def startFunding (lib : Lib E) (tx : Transaction) (rate : FeeRate)
    (base : PartiallySignedTransaction) : Funding :=
  ⟨base, ⟨[], selectionTarget lib tx rate⟩, selectionTarget lib tx rate⟩

theorem eval_fundTransaction :
    (fundTransaction lib wallet tx changeAddress nSatoshisPerK prevTxid).run.eval answer =
      (expect "wallet has key" (wallet.getPubKey lib (lib.scriptPubkey changeAddress))).bind
        fun changePublicKey =>
      ((lib.fromUnsignedTx { tx with input := [] }).mapError fun e => .error (.psbtError e)).bind
        fun base =>
      (selectFrom lib answer
        (fundParams lib tx changeAddress ⟨nSatoshisPerK⟩ prevTxid changePublicKey) wallet
        (coinStream answer wallet tx) (startFunding lib tx ⟨nSatoshisPerK⟩ base)).bind
        fun
        | .inr (some psbt) => .ok psbt
        | .inr none => .error (.error .notEnoughInputs)
        | .inl _ => .error (.error .notEnoughInputs) := by
  refine (Prog.eval_run_bind _ _).trans ?_
  rw [Prog.eval_run_ofExcept]
  congr
  funext changePublicKey
  refine (Prog.eval_run_bind _ _).trans ?_
  rw [Prog.eval_run_ofExcept]
  congr
  funext base
  refine (Prog.eval_run_bind _ _).trans ?_
  rw [AsyncStream.eval_run_forUntil]
  congr
  funext result
  rcases result with s | psbt | _ <;> rfl

/-- What the funding has worked out when it has selected enough coins. -/
structure Selection (lib : Lib E) (answer : Answers E) (wallet : Wallet) (tx : Transaction)
    (changeAddress : Address) (rate : FeeRate) (prevTxid : Option Txid) where
  changePublicKey : PublicKey
  base : PartiallySignedTransaction
  coins : List Coin
  changeKey : wallet.getPubKey lib (lib.scriptPubkey changeAddress) = .ok changePublicKey
  unsigned : lib.fromUnsignedTx { tx with input := [] } = .ok base
  chosen : Chosen lib answer wallet rate (selectionTarget lib tx rate).toNat
    (usableCoins prevTxid (coinStream answer wallet tx)) coins

namespace Selection

variable {rate : FeeRate} (sel : Selection lib answer wallet tx changeAddress rate prevTxid)

def params : FundParams := fundParams lib tx changeAddress rate prevTxid sel.changePublicKey

def funding : Funding := (startFunding lib tx rate sel.base).addAll lib rate sel.coins

theorem output_funding : sel.funding.psbt.unsignedTx.output = tx.output := by
  rw [funding, Funding.psbt_addAll]
  show sel.base.unsignedTx.output = tx.output
  rw [lib.unsignedTx_of_fromUnsignedTx sel.unsigned]

theorem input_funding : sel.funding.psbt.unsignedTx.input = sel.coins.map Coin.txIn := by
  rw [funding, Funding.psbt_addAll]
  show sel.base.unsignedTx.input ++ _ = _
  rw [lib.unsignedTx_of_fromUnsignedTx sel.unsigned]
  rfl

theorem selectCoins_funding : sel.funding.selectCoins =
    ⟨sel.coins.map (coinOutput lib rate), selectionTarget lib tx rate⟩ := by
  rw [funding, Funding.selectCoins_addAll]
  rfl

end Selection

variable (hlength : ∀ key, (lib.publicKey key).length = 33)

include hlength

theorem exists_selection
    (h : (fundTransaction lib wallet tx changeAddress nSatoshisPerK prevTxid).run.eval answer =
      .ok psbt) :
    ∃ sel : Selection lib answer wallet tx changeAddress ⟨nSatoshisPerK⟩ prevTxid,
      addChange lib sel.params wallet sel.funding = .ok psbt := by
  rw [eval_fundTransaction] at h
  obtain ⟨changePublicKey, hkey, h⟩ := Prog.bind_eq_ok h
  obtain ⟨base, hbase, h⟩ := Prog.bind_eq_ok h
  obtain ⟨result, hresult, h⟩ := Prog.bind_eq_ok h
  match result, h with
  | .inr (some funded), h =>
    cases h
    obtain ⟨coins, hchosen, hadd⟩ := chosen_of_selectFrom hlength hresult
    exact ⟨⟨changePublicKey, base, coins, eq_ok_of_expect hkey, Prog.mapError_eq_ok hbase, hchosen⟩,
      hadd⟩

/-- The wallet reports missing coins when those that it may use are too few. -/
theorem not_covered_of_notEnoughInputs
    (h : (fundTransaction lib wallet tx changeAddress nSatoshisPerK prevTxid).run.eval answer =
      .error (.error .notEnoughInputs)) :
    usableCoins prevTxid (coinStream answer wallet tx) = [] ∨
      ((usableCoins prevTxid (coinStream answer wallet tx)).map
        (effectiveValue lib ⟨nSatoshisPerK⟩)).sum <
          (selectionTarget lib tx ⟨nSatoshisPerK⟩).toNat := by
  rw [eval_fundTransaction] at h
  rcases Prog.bind_eq_error h with h | ⟨changePublicKey, -, h⟩
  · obtain ⟨message, hmessage⟩ := panic_of_expect h
    cases hmessage
  rcases Prog.bind_eq_error h with h | ⟨base, -, h⟩
  · obtain ⟨e, -, he⟩ := Prog.mapError_eq_error h
    cases he
  rcases Prog.bind_eq_error h with h | ⟨result, hresult, h⟩
  · exact absurd rfl (error_of_selectFrom h)
  · refine not_covered_of_selectFrom hlength hresult ?_
    rintro funded rfl
    cases h

end Result

end InterBtcClients.Bitcoin.Light
