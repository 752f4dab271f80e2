import InterBtcClients.Bitcoin.Light

/-! What the light client's funding adds to a transaction: coins that are not outputs of the
replaced transaction, the first of them the one that the transaction spent first, and at most one
output, to the change address. -/

namespace InterBtcClients.Bitcoin.Light

open Library Electrs Wallet InterBtcClients.Runtime

variable {E : Type} {lib : Lib E}

/-- `output` is `base` with the change, if there is one. -/
def PaysChange (lib : Lib E) (changeAddress : Address) (base output : List TxOut) : Prop :=
  ∃ change, output = base ++ change ∧ change.length ≤ 1 ∧
    ∀ txOut ∈ change, txOut.scriptPubkey = lib.scriptPubkey changeAddress

/-- The coins selected so far: none of the replaced transaction, and the first one is `first`. -/
structure Selects (prevTxid : Option Txid) (first : Option OutPoint) (spends : List OutPoint) :
    Prop where
  kept : ∀ outpoint ∈ spends, prevTxid ≠ some outpoint.txid
  first : ∀ outpoint, first = some outpoint → spends.head? = some outpoint

structure Funded (lib : Lib E) (changeAddress : Address) (prevTxid : Option Txid)
    (first : Option OutPoint) (base : List TxOut) (tx : Transaction) : Prop where
  selects : Selects prevTxid first tx.spends
  nonempty : tx.spends ≠ []
  change : PaysChange lib changeAddress base tx.output

structure Selecting (prevTxid : Option Txid) (first : Option OutPoint) (base : List TxOut)
    (s : Funding) : Prop where
  selects : Selects prevTxid first s.psbt.unsignedTx.spends
  output : s.psbt.unsignedTx.output = base

section Lemmas

variable {prevTxid : Option Txid} {first : Option OutPoint} {base : List TxOut}

theorem spends_addInput (psbt : PartiallySignedTransaction) (utxo : Utxo) (scriptPubkey : Script) :
    (addInput psbt utxo scriptPubkey).unsignedTx.spends =
      psbt.unsignedTx.spends ++ [utxo.outpoint] := by
  simp [addInput, Transaction.spends, TxIn.ofOutPoint]

theorem Selects.append {spends : List OutPoint} {outpoint : OutPoint}
    (h : Selects prevTxid first spends) (hkept : prevTxid ≠ some outpoint.txid) :
    Selects prevTxid first (spends ++ [outpoint]) where
  kept o ho := by
    rcases List.mem_append.mp ho with ho | ho
    · exact h.kept o ho
    · rw [List.mem_singleton.mp ho]
      exact hkept
  first o ho := by
    rw [List.head?_append, h.first o ho]
    rfl

theorem selects_singleton {outpoint : OutPoint} (hkept : prevTxid ≠ some outpoint.txid) :
    Selects prevTxid (some outpoint) [outpoint] where
  kept o ho := by
    rw [List.mem_singleton.mp ho]
    exact hkept
  first o ho := ho

theorem adds_addChange {params : FundParams} {wallet : Wallet} {s : Funding}
    {psbt : PartiallySignedTransaction} (hpsbt : addChange lib params wallet s = .ok psbt) :
    psbt.unsignedTx.spends = s.psbt.unsignedTx.spends ∧
      PaysChange lib params.changeAddress s.psbt.unsignedTx.output psbt.unsignedTx.output := by
  have hchange (amount : UInt64) : PaysChange lib params.changeAddress s.psbt.unsignedTx.output
      (s.psbt.unsignedTx.output ++ [⟨amount, lib.scriptPubkey params.changeAddress⟩]) :=
    ⟨_, rfl, Nat.le_refl 1, fun txOut htxOut => by rw [List.mem_singleton.mp htxOut]⟩
  simp only [addChange, bind, Except.bind] at hpsbt
  split at hpsbt
  · cases hpsbt
  · split at hpsbt
    · cases hpsbt
      split
      · exact ⟨rfl, hchange _⟩
      · exact ⟨rfl, hchange _⟩
    · cases hpsbt
      split
      · exact ⟨rfl, hchange _⟩
      · exact ⟨rfl, [], by simp, Nat.zero_le 1, nofun⟩

theorem Funded.congr {changeAddress : Address} {tx tx' : Transaction}
    (h : Funded lib changeAddress prevTxid first base tx) (hspends : tx'.spends = tx.spends)
    (houtput : tx'.output = tx.output) : Funded lib changeAddress prevTxid first base tx' where
  selects := hspends ▸ h.selects
  nonempty := hspends ▸ h.nonempty
  change := houtput ▸ h.change

theorem unsignedTx_of_signTransaction {wallet : Wallet} {psbt signed : PartiallySignedTransaction}
    (h : signTransaction lib wallet psbt = .ok signed) : signed.unsignedTx = psbt.unsignedTx := by
  simp only [signTransaction, bind, Except.bind] at h
  split at h
  · cases h
  · cases h
    rfl

end Lemmas

/-! ### The loop over the coins -/

section Only

variable {P : Call → Prop} (htx : ∀ txid, P (.tx txid))
  (hutxo : ∀ address, P (.addressUtxo address))

include hutxo

theorem only_addressCoins (addresses : List Address) :
    (addressCoins (E := E) addresses).Only P := by
  induction addresses with
  | nil => trivial
  | cons address addresses ih =>
    refine AsyncStream.only_after (only_getUtxosForAddress hutxo address) fun r => ?_
    match r with
    | .ok [] => trivial
    | .ok (utxo :: utxos) => exact AsyncStream.only_ofList ih _
    | .error e => exact ih

include htx

theorem only_availableCoins (addresses : List Address) (txInputs : List TxIn) :
    (availableCoins (E := E) addresses txInputs).Only P := by
  induction txInputs with
  | nil => exact only_addressCoins hutxo addresses
  | cons txin txInputs ih =>
    refine AsyncStream.only_after (only_getPrevValue htx txin.previousOutput) fun r => ?_
    cases r with
    | ok value => exact ih
    | error e => exact ih

end Only

section Run

variable {S : Type} {env : Prog.Env (api E) S} {I : S → Prop} {w : S}
variable {first : Option OutPoint} {base : List TxOut}

/-- What a round ends with: coins to go on with, or the funded transaction. -/
def Selected (lib : Lib E) (params : FundParams) (first : Option OutPoint) (base : List TxOut)
    (I : S → Prop) : Except (Failure (Error E)) (Funding ⊕ Option PartiallySignedTransaction) →
      S → Prop :=
  Prog.Outcome
    (Sum.elim (fun s w => I w ∧ Selecting params.prevTxid first base s) fun result _ =>
      ∀ psbt, result = some psbt →
        Funded lib params.changeAddress params.prevTxid first base psbt.unsignedTx)
    fun _ _ => True

/-- What a round adds for the coin `outpoint`: the coin, and the change when the round is the last.
-/
def Adds (lib : Lib E) (params : FundParams) (outpoint : OutPoint) (s : Funding) :
    Funding ⊕ Option PartiallySignedTransaction → Prop
  | .inl s' => params.prevTxid = some outpoint.txid ∧ s' = s ∨
    params.prevTxid ≠ some outpoint.txid ∧
      s'.psbt.unsignedTx.spends = s.psbt.unsignedTx.spends ++ [outpoint] ∧
      s'.psbt.unsignedTx.output = s.psbt.unsignedTx.output
  | .inr none => False
  | .inr (some psbt) => params.prevTxid ≠ some outpoint.txid ∧
    psbt.unsignedTx.spends = s.psbt.unsignedTx.spends ++ [outpoint] ∧
    PaysChange lib params.changeAddress s.psbt.unsignedTx.output psbt.unsignedTx.output

/-- The transaction is funded with the coins of the loop, which starts without inputs.  `R` is what
holds of the failures: all errors, and the panic if the wallet has no key for the change. -/
theorem keeps_fundTransaction_of_select {P : PartiallySignedTransaction → Prop}
    {R : Failure (Error E) → Prop} {wallet : Wallet} {tx : Transaction} {changeAddress : Address}
    {nSatoshisPerK : UInt64} {prevTxid : Option Txid} (hw : I w) (herror : ∀ e, R (.error e))
    (hkey : ∀ e, expect "wallet has key"
      (wallet.getPubKey lib (lib.scriptPubkey changeAddress)) = .error e → R e)
    (hselect : ∀ params s w, I w → params.changeAddress = changeAddress →
      params.prevTxid = prevTxid → lib.fromUnsignedTx { tx with input := [] } = .ok s.psbt →
      Prog.Keeps env I ((availableCoins wallet.keyStore.keys tx.input).forUntil
        (fundRound lib params wallet) s).run
        (Prog.Outcome (Sum.elim (fun _ _ => True) fun result _ =>
          ∀ psbt, result = some psbt → P psbt) fun e _ => R e) w) :
    Prog.Keeps env I (fundTransaction lib wallet tx changeAddress nSatoshisPerK prevTxid).run
      (Prog.Outcome (fun psbt _ => P psbt) fun e _ => R e) w := by
  refine Prog.keeps_run_seq (P := fun _ _ => True) (Prog.keeps_run_ofExcept.mpr
    ⟨hw, .intro (fun _ _ => trivial) hkey⟩) fun changePublicKey w hw _ => ?_
  refine Prog.keeps_run_seq
    (P := fun psbt _ => lib.fromUnsignedTx { tx with input := [] } = .ok psbt)
    (Prog.keeps_run_ofExcept.mpr ⟨hw, .intro (fun psbt hpsbt => Prog.mapError_eq_ok hpsbt)
      fun e he => ?_⟩) fun psbt w hw hpsbt => ?_
  · obtain ⟨e', -, rfl⟩ := Prog.mapError_eq_error he
    exact herror _
  refine Prog.keeps_run_seq (hselect _ _ w hw rfl rfl hpsbt) fun selected w hw hselected => ?_
  match selected, hselected with
  | .inl s, _ => exact ⟨hw, herror _⟩
  | .inr none, _ => exact ⟨hw, herror _⟩
  | .inr (some psbt), hselected => exact ⟨hw, hselected psbt rfl⟩

/-- Signing leaves the transaction as it is, or fails. -/
theorem keeps_fundAndSignTransaction_of_fund {P : PartiallySignedTransaction → Prop}
    {R : Failure (BitcoinError E) → Prop} {light : BitcoinLight} {recipient changeAddress : Address}
    {unsignedTx : Transaction} {feeRate : SatPerVbyte} {prevTxid : Option Txid}
    (hsign : ∀ psbt e, P psbt → signTransaction lib light.wallet psbt = .error e →
      R (e.map .lightClientError))
    (hfund : Prog.Keeps env I (fundTransaction lib light.wallet unsignedTx changeAddress
        (saturatingMul feeRate 1000) prevTxid).run
      (Prog.Outcome (fun psbt _ => P psbt) fun e _ => R (e.map .lightClientError)) w) :
    Prog.Keeps env I
      (light.fundAndSignTransaction lib recipient unsignedTx changeAddress feeRate prevTxid).run
      (Prog.Outcome (fun locked _ => ∃ psbt, P psbt ∧
        locked.transaction.spends = psbt.unsignedTx.spends ∧
        locked.transaction.output = psbt.unsignedTx.output) fun e _ => R e) w := by
  refine Prog.keeps_run_seq (P := fun psbt _ => P psbt) (Prog.keeps_run_adapt.mpr
    (hfund.mono fun r _ _ hr => ?_)) fun psbt w hw hpsbt => ?_
  · cases r with
    | ok psbt => exact hr
    | error e => exact hr
  refine Prog.keeps_run_bind.mpr (Prog.keeps_run_ofExcept.mpr ⟨hw, ?_⟩)
  cases hsigned : signTransaction lib light.wallet psbt with
  | error e => exact hsign psbt e hpsbt hsigned
  | ok signed =>
    have hunsigned := unsignedTx_of_signTransaction hsigned
    refine ⟨hw, psbt, hpsbt, ?_, ?_⟩
    · rw [lib.spends_extractTx, hunsigned]
    · rw [lib.output_extractTx, hunsigned]

variable (hquery : ∀ w c r w', I w → Call.IsQuery c → env w c r w' → I w')

include hquery

/-- A round skips the coin, if it is an output of the replaced transaction, or adds it. -/
theorem keeps_fundRound_adds {params : FundParams} {wallet : Wallet} (utxo : Utxo) (s : Funding)
    (hw : I w) :
    Prog.Keeps env I (fundRound lib params wallet (.ok utxo) s).run
      (Prog.Outcome (fun result w => I w ∧ Adds lib params utxo.outpoint s result) fun _ _ => True)
      w := by
  by_cases hkept : params.prevTxid = some utxo.outpoint.txid
  · rw [fundRound, if_pos hkept]
    exact ⟨hw, hw, .inl ⟨hkept, rfl⟩⟩
  · rw [fundRound, if_neg hkept]
    refine Prog.keeps_run_seq (P := fun _ _ => True) (Prog.keeps_run_adapt.mpr
      ((Prog.keeps_of_only hquery (only_getScriptPubkey (fun _ => trivial) utxo.outpoint) hw).mono
        fun r w hw _ => .intro (fun _ _ => trivial) fun _ _ => trivial))
      fun scriptPubkey w hw _ => ?_
    refine Prog.keeps_run_seq (P := fun _ _ => True) (Prog.keeps_run_ofExcept.mpr
      ⟨hw, .intro (fun _ _ => trivial) fun _ _ => trivial⟩) fun publicKey w hw _ => ?_
    have hspends := spends_addInput s.psbt utxo scriptPubkey
    dsimp only
    split
    · refine Prog.keeps_run_bind.mpr (Prog.keeps_run_ofExcept.mpr
        ⟨hw, .intro (fun psbt hpsbt => ?_) fun _ _ => trivial⟩)
      obtain ⟨hadded, hchange⟩ := adds_addChange hpsbt
      exact ⟨hw, hw, hkept, hadded.trans hspends, hchange⟩
    · exact ⟨hw, hw, .inr ⟨hkept, hspends, rfl⟩⟩

theorem keeps_fundRound_of_kept {params : FundParams} {wallet : Wallet} {utxo : Utxo} {s : Funding}
    (hw : I w) (hkept : params.prevTxid ≠ some utxo.outpoint.txid)
    (hselects : Selects params.prevTxid first (s.psbt.unsignedTx.spends ++ [utxo.outpoint]))
    (houtput : s.psbt.unsignedTx.output = base) :
    Prog.Keeps env I (fundRound lib params wallet (.ok utxo) s).run
      (Selected lib params first base I) w := by
  refine (keeps_fundRound_adds hquery utxo s hw).mono fun r w _ hr => hr.imp ?_ fun _ _ => trivial
  rintro (s' | result) ⟨hw, hadds⟩
  · rcases hadds with ⟨hskipped, -⟩ | ⟨-, hspends, houtput'⟩
    · exact absurd hskipped hkept
    · exact ⟨hw, hspends ▸ hselects, houtput'.trans houtput⟩
  · intro psbt hpsbt
    cases hpsbt
    obtain ⟨-, hspends, hchange⟩ := hadds
    refine ⟨hspends ▸ hselects, ?_, houtput ▸ hchange⟩
    rw [hspends]
    exact List.append_ne_nil_of_right_ne_nil _ (List.cons_ne_nil _ _)

theorem keeps_fundRound {params : FundParams} {wallet : Wallet} {s : Funding}
    (coin : Except (Error E) Utxo) (hw : I w) (hs : Selecting params.prevTxid first base s) :
    Prog.Keeps env I (fundRound lib params wallet coin s).run
      (Selected lib params first base I) w := by
  cases coin with
  | error e => exact ⟨hw, nofun⟩
  | ok utxo =>
    by_cases hkept : params.prevTxid = some utxo.outpoint.txid
    · rw [fundRound, if_pos hkept]
      exact ⟨hw, hw, hs⟩
    · exact keeps_fundRound_of_kept hquery hw hkept (hs.selects.append hkept) hs.output

theorem keeps_selectCoins {params : FundParams} {wallet : Wallet} {s : Funding}
    {coins : AsyncStream (api E) (Except (Error E) Utxo)} (hcoins : coins.Only Call.IsQuery)
    (hw : I w) (hs : Selecting params.prevTxid first base s) :
    Prog.Keeps env I (coins.forUntil (fundRound lib params wallet) s).run
      (Selected lib params first base I) w :=
  AsyncStream.keeps_run_forUntil
    (fun s w => I w ∧ Selecting params.prevTxid first base s)
    (fun _ w c r w' hw hc hr => ⟨hquery w c r w' hw.1 hc hr, hw.2⟩) (fun _ _ hw => hw.1)
    (fun _ _ hw => hw) (fun coin _ _ hw => keeps_fundRound hquery coin hw.1 hw.2) hcoins ⟨hw, hs⟩

/-- The coin of the first input is selected before all others. -/
theorem keeps_selectAvailable {params : FundParams} {wallet : Wallet} {s : Funding}
    (addresses : List Address) {txInputs : List TxIn} (hw : I w)
    (hkept : ∀ outpoint, (txInputs.map TxIn.previousOutput).head? = some outpoint →
      params.prevTxid ≠ some outpoint.txid)
    (hspends : s.psbt.unsignedTx.spends = []) (houtput : s.psbt.unsignedTx.output = base) :
    Prog.Keeps env I
      ((availableCoins addresses txInputs).forUntil (fundRound lib params wallet) s).run
      (Selected lib params (txInputs.map TxIn.previousOutput).head? base I) w := by
  cases txInputs with
  | nil =>
    exact keeps_selectCoins hquery (only_addressCoins (fun _ => trivial) addresses) hw
      ⟨⟨by simp [hspends], nofun⟩, houtput⟩
  | cons txin txInputs =>
    have hfirst := hkept txin.previousOutput rfl
    refine AsyncStream.keeps_run_forUntil_after ((Prog.keeps_of_only hquery
      (only_getPrevValue (fun _ => trivial) txin.previousOutput) hw).mono fun value w hw _ => ?_)
    cases value with
    | error e => exact AsyncStream.keeps_run_forUntil_yield ⟨hw, nofun⟩
    | ok value =>
      have hround : Prog.Keeps env I
          (fundRound lib params wallet (.ok ⟨txin.previousOutput, value⟩) s).run
          (Selected lib params (some txin.previousOutput) base I) w :=
        keeps_fundRound_of_kept hquery hw hfirst
          (by rw [hspends]; exact selects_singleton hfirst) houtput
      refine AsyncStream.keeps_run_forUntil_yield (hround.mono fun r w _ hr => ?_)
      match r, hr with
      | .ok (.inl s), hr =>
        exact keeps_selectCoins hquery
          (only_availableCoins (fun _ => trivial) (fun _ => trivial) addresses txInputs) hr.1 hr.2
      | .ok (.inr result), hr => exact hr
      | .error e, hr => trivial

/-- The first input of the transaction is funded before all other coins. -/
theorem keeps_fundTransaction (wallet : Wallet) {tx : Transaction} (changeAddress : Address)
    (nSatoshisPerK : UInt64) {prevTxid : Option Txid} (hw : I w)
    (hkept : ∀ outpoint, tx.spends.head? = some outpoint → prevTxid ≠ some outpoint.txid) :
    Prog.Keeps env I (fundTransaction lib wallet tx changeAddress nSatoshisPerK prevTxid).run
      (Prog.Outcome (fun psbt _ =>
        Funded lib changeAddress prevTxid tx.spends.head? tx.output psbt.unsignedTx)
        fun _ _ => True) w := by
  refine keeps_fundTransaction_of_select (R := fun _ => True)
    (P := fun psbt => Funded lib changeAddress prevTxid tx.spends.head? tx.output psbt.unsignedTx)
    hw (fun _ => trivial) (fun _ _ => trivial) fun params s w hw hchange hprev hunsigned => ?_
  subst hchange hprev
  have hpsbt := lib.unsignedTx_of_fromUnsignedTx hunsigned
  refine (keeps_selectAvailable hquery wallet.keyStore.keys hw hkept (by rw [hpsbt]; rfl)
    (by rw [hpsbt])).mono fun r _ _ hr => hr.imp ?_ fun _ _ => trivial
  rintro (s' | result) hselected
  · trivial
  · exact hselected

theorem keeps_fundAndSignTransaction (light : BitcoinLight) (recipient : Address)
    {unsignedTx : Transaction} (changeAddress : Address) (feeRate : SatPerVbyte)
    {prevTxid : Option Txid} (hw : I w) (hkept : ∀ outpoint,
      unsignedTx.spends.head? = some outpoint → prevTxid ≠ some outpoint.txid) :
    Prog.Keeps env I
      (light.fundAndSignTransaction lib recipient unsignedTx changeAddress feeRate prevTxid).run
      (Prog.Outcome (fun locked _ => Funded lib changeAddress prevTxid unsignedTx.spends.head?
        unsignedTx.output locked.transaction) fun _ _ => True) w := by
  refine (keeps_fundAndSignTransaction_of_fund (R := fun _ => True) (fun _ _ _ _ => trivial)
    (keeps_fundTransaction hquery light.wallet changeAddress (saturatingMul feeRate 1000) hw
      hkept)).mono fun r _ _ hr => hr.imp ?_ fun _ _ => trivial
  rintro locked ⟨psbt, hfunded, hspends, houtput⟩
  exact hfunded.congr hspends houtput

/-- A payment made from scratch may spend any coins of the wallet. -/
theorem keeps_createTransaction (light : BitcoinLight) (recipient : Address) (sat : UInt64)
    (feeRate : SatPerVbyte) (requestId : Option H256) (hw : I w) :
    Prog.Keeps env I (light.createTransaction lib recipient sat feeRate requestId).run
      (Prog.Outcome (fun locked _ => ∃ changeAddress,
        light.getChangeAddress (E := E) = .ok changeAddress ∧
          Funded lib changeAddress none none
            (Wallet.createTransaction lib recipient sat requestId).output locked.transaction)
        fun _ _ => True) w := by
  refine Prog.keeps_run_bind.mpr (Prog.keeps_run_ofExcept.mpr ⟨hw, ?_⟩)
  cases hchange : light.getChangeAddress (E := E) with
  | error e => trivial
  | ok changeAddress =>
    refine (keeps_fundAndSignTransaction hquery light recipient changeAddress feeRate hw
      fun _ hfirst => by cases hfirst).mono fun r _ _ hr => ?_
    cases r with
    | ok locked => exact ⟨changeAddress, rfl, hr⟩
    | error e => trivial

/-! ### The coins of the wallet -/

variable {Coin : OutPoint → Prop}

def SpendsOnly (Coin : OutPoint → Prop) (tx : Transaction) : Prop :=
  ∀ outpoint ∈ tx.spends, Coin outpoint

/-- What the loop over coins ends with, all of them in `Coin`. -/
def SelectedOf (Coin : OutPoint → Prop) (I : S → Prop) :
    Except (Failure (Error E)) (Funding ⊕ Option PartiallySignedTransaction) → S → Prop :=
  Prog.Outcome
    (Sum.elim (fun s w => I w ∧ SpendsOnly Coin s.psbt.unsignedTx)
      fun result _ => ∀ psbt, result = some psbt → SpendsOnly Coin psbt.unsignedTx)
    fun _ _ => True

/-- An element of a stream of coins that is in `Coin`, unless it is an error. -/
def IsCoin (Coin : OutPoint → Prop) (coin : Except (Error E) Utxo) : Prop :=
  ∀ utxo, coin = .ok utxo → Coin utxo.outpoint

theorem keeps_fundRound_of_coin {params : FundParams} {wallet : Wallet} {s : Funding}
    {coin : Except (Error E) Utxo} (hw : I w) (hcoin : IsCoin Coin coin)
    (hs : SpendsOnly Coin s.psbt.unsignedTx) :
    Prog.Keeps env I (fundRound lib params wallet coin s).run (SelectedOf Coin I) w := by
  cases coin with
  | error e => exact ⟨hw, nofun⟩
  | ok utxo =>
    have hadded {tx : Transaction}
        (htx : tx.spends = s.psbt.unsignedTx.spends ++ [utxo.outpoint]) : SpendsOnly Coin tx := by
      intro outpoint h
      rw [htx] at h
      rcases List.mem_append.mp h with h | h
      · exact hs outpoint h
      · rw [List.mem_singleton.mp h]
        exact hcoin utxo rfl
    refine (keeps_fundRound_adds hquery utxo s hw).mono fun r w _ hr =>
      hr.imp ?_ fun _ _ => trivial
    rintro (s' | result) ⟨hw, hadds⟩
    · rcases hadds with ⟨-, rfl⟩ | ⟨-, hspends, -⟩
      · exact ⟨hw, hs⟩
      · exact ⟨hw, hadded hspends⟩
    · intro psbt hpsbt
      cases hpsbt
      exact hadded hadds.2.1

/-- What the server lists for an address is in `Coin`. -/
def Lists (env : Prog.Env (api E) S) (I : S → Prop) (Coin : OutPoint → Prop) (address : Address) :
    Prop :=
  ∀ w utxos w', I w → env w (.addressUtxo address) (.ok utxos) w' →
    ∀ utxo ∈ utxos, Coin ⟨utxo.txid, utxo.vout⟩

theorem keeps_getUtxosForAddress {address : Address} (hlist : Lists env I Coin address) (hw : I w) :
    Prog.Keeps env I (getUtxosForAddress address).run
      (Prog.Outcome (fun utxos w => I w ∧ ∀ utxo ∈ utxos, Coin utxo.outpoint) fun _ => I) w := by
  refine Prog.keeps_run_seq (P := fun utxos w => I w ∧ ∀ utxo ∈ utxos, Coin ⟨utxo.txid, utxo.vout⟩)
    (Prog.keeps_map.mpr ⟨hw, fun r w' hr => ?_⟩) fun utxos w _ h => ?_
  · have hw' := hquery _ (.addressUtxo address) _ _ hw trivial hr
    cases r with
    | ok utxos => exact ⟨hw', hw', hlist _ _ _ hw hr⟩
    | error e => exact ⟨hw', hw'⟩
  · refine ⟨h.1, h.1, fun utxo hutxo => ?_⟩
    obtain ⟨value, hvalue, rfl⟩ := List.mem_map.mp hutxo
    exact h.2 value hvalue

theorem gives_addressCoins {addresses : List Address}
    (hlist : ∀ address ∈ addresses, Lists env I Coin address) (hw : I w) :
    (addressCoins addresses).Gives env I (IsCoin Coin) w := by
  induction addresses generalizing w with
  | nil => exact hw
  | cons address addresses ih =>
    obtain ⟨haddress, haddresses⟩ := List.forall_mem_cons.mp hlist
    refine AsyncStream.gives_after ((keeps_getUtxosForAddress hquery haddress hw).mono
      fun r w hw hr => ?_)
    match r, hr with
    | .ok [], _ => exact hw
    | .ok (utxo :: utxos), hr =>
      refine AsyncStream.gives_ofList (fun coin hcoin => ?_) (fun w hw => ih haddresses hw) hw
      obtain ⟨listed, hlisted, rfl⟩ := List.mem_map.mp hcoin
      rintro _ ⟨⟩
      exact hr.2 listed hlisted
    | .error e, _ => exact ⟨hw, nofun, fun w hw => ih haddresses hw⟩

theorem gives_availableCoins {addresses : List Address} {txInputs : List TxIn}
    (hinputs : ∀ txin ∈ txInputs, Coin txin.previousOutput)
    (hlist : ∀ address ∈ addresses, Lists env I Coin address) (hw : I w) :
    (availableCoins addresses txInputs).Gives env I (IsCoin Coin) w := by
  induction txInputs generalizing w with
  | nil => exact gives_addressCoins hquery hlist hw
  | cons txin txInputs ih =>
    obtain ⟨htxin, hinputs⟩ := List.forall_mem_cons.mp hinputs
    refine AsyncStream.gives_after ((Prog.keeps_of_only hquery
      (only_getPrevValue (fun _ => trivial) txin.previousOutput) hw).mono fun value w hw _ => ?_)
    cases value with
    | error e => exact ⟨hw, nofun, fun w hw => ih hinputs hw⟩
    | ok value =>
      refine ⟨hw, ?_, fun w hw => ih hinputs hw⟩
      rintro _ ⟨⟩
      exact htxin

/-- A transaction without inputs is funded with listed coins alone. -/
theorem keeps_fundAndSignTransaction_of_listed {light : BitcoinLight} {recipient : Address}
    {unsignedTx : Transaction} {changeAddress : Address} {feeRate : SatPerVbyte}
    {prevTxid : Option Txid}
    (hlist : ∀ address ∈ light.wallet.keyStore.keys, Lists env I Coin address)
    (hinput : unsignedTx.input = []) (hw : I w) :
    Prog.Keeps env I
      (light.fundAndSignTransaction lib recipient unsignedTx changeAddress feeRate prevTxid).run
      (Prog.Outcome (fun locked _ => SpendsOnly Coin locked.transaction) fun _ _ => True) w := by
  refine (keeps_fundAndSignTransaction_of_fund (P := fun psbt => SpendsOnly Coin psbt.unsignedTx)
    (R := fun _ => True) (fun _ _ _ _ => trivial) (keeps_fundTransaction_of_select hw
      (fun _ => trivial) (fun _ _ => trivial) fun params s w hw _ _ hunsigned => ?_)).mono
    fun r _ _ hr => hr.imp ?_ fun _ _ => trivial
  · rw [hinput]
    refine AsyncStream.keeps_run_forUntil_of_gives (J := fun s => SpendsOnly Coin s.psbt.unsignedTx)
      (fun _ _ _ _ => trivial) (fun coin s w hw hcoin hs => ?_)
      (gives_addressCoins hquery hlist hw) ?_
    · refine (keeps_fundRound_of_coin hquery hw hcoin hs).mono fun r w _ hr => hr.imp ?_
        fun _ _ => trivial
      rintro (s' | result) hselected
      · exact hselected.2
      · exact hselected
    · rw [SpendsOnly, lib.unsignedTx_of_fromUnsignedTx hunsigned]
      exact nofun
  · rintro locked ⟨psbt, hpsbt, hspends, -⟩
    rwa [SpendsOnly, hspends]

end Run

end InterBtcClients.Bitcoin.Light
