import InterBtcClients.Bitcoin.Selection
import InterBtcClients.Bitcoin.ThreeKeys

/-! The coins that the stream of the light client's wallet enumerates: those of the inputs and those
of the addresses up to the first one that has none. -/

namespace InterBtcClients.Bitcoin.Light

open Library Electrs Wallet InterBtcClients.Runtime

variable {E : Type}

section Lists

variable {α β : Type} (f : α → List β)

/-- Nothing is lost at the first element without images when the later ones have none either. -/
theorem flatMap_takeWhile_eq_iff (xs : List α) :
    (xs.takeWhile fun x => !(f x).isEmpty).flatMap f = xs.flatMap f ↔
      xs.Pairwise fun x y => f x = [] → f y = [] := by
  induction xs with
  | nil => simp
  | cons x xs ih =>
    rw [List.pairwise_cons, List.flatMap_cons]
    cases hx : f x with
    | nil =>
      rw [List.takeWhile_cons_of_neg (by simp [hx]), List.flatMap_nil, List.nil_append, eq_comm,
        List.flatMap_eq_nil_iff]
      constructor
      · intro h
        exact ⟨fun y hy _ => h y hy,
          List.pairwise_of_forall_mem_list fun y hy z hz _ => h z hz⟩
      · intro h y hy
        exact h.1 y hy rfl
    | cons b bs =>
      rw [List.takeWhile_cons_of_pos (by simp [hx]), List.flatMap_cons, hx,
        List.append_cancel_left_eq, ih]
      simp

end Lists

/-! ### The coins of a wallet -/

section Coins

variable (answer : Answers E)

/-- The output that an input spends. -/
def inputCoin (txin : TxIn) : Utxo :=
  ⟨txin.previousOutput, ((getPrevValue txin.previousOutput).run.eval answer).toOption.getD 0⟩

/-- The unspent outputs of an address. -/
def addressUtxos (address : Address) : List Utxo :=
  ((getUtxosForAddress address).run.eval answer).toOption.getD []

def walletCoins (txInputs : List TxIn) (addresses : List Address) : List Utxo :=
  txInputs.map (inputCoin answer) ++ addresses.flatMap (addressUtxos answer)

/-- No request for an input or an address fails. -/
structure Responds (txInputs : List TxIn) (addresses : List Address) : Prop where
  inputs : ∀ txin ∈ txInputs,
    (getPrevValue txin.previousOutput).run.eval answer = .ok (inputCoin answer txin).value
  utxos : ∀ address ∈ addresses,
    (getUtxosForAddress address).run.eval answer = .ok (addressUtxos answer address)

end Coins

variable {answer : Answers E} {txInputs : List TxIn} {addresses : List Address}

theorem eval_addressCoins (h : ∀ address ∈ addresses,
      (getUtxosForAddress address).run.eval answer = .ok (addressUtxos answer address)) :
    (addressCoins addresses).collect.eval answer =
      ((addresses.takeWhile fun address => !(addressUtxos answer address).isEmpty).flatMap
        (addressUtxos answer)).map .ok := by
  induction addresses with
  | nil => rfl
  | cons address addresses ih =>
    have haddress := h address List.mem_cons_self
    have hrest := ih fun a ha => h a (List.mem_cons_of_mem _ ha)
    rw [addressCoins, AsyncStream.collect_after, Prog.eval_bind, haddress]
    cases hutxos : addressUtxos answer address with
    | nil =>
      rw [List.takeWhile_cons_of_neg (by simp [hutxos])]
      rfl
    | cons utxo utxos =>
      rw [List.takeWhile_cons_of_pos (by simp [hutxos]), List.flatMap_cons, List.map_append, hutxos,
        ← hrest]
      dsimp only
      rw [AsyncStream.collect_ofList, Prog.eval_map]

theorem eval_availableCoins (h : Responds answer txInputs addresses) :
    (availableCoins addresses txInputs).collect.eval answer =
      (txInputs.map (inputCoin answer) ++
        (addresses.takeWhile fun address => !(addressUtxos answer address).isEmpty).flatMap
          (addressUtxos answer)).map .ok := by
  obtain ⟨hinputs, hutxos⟩ := h
  induction txInputs with
  | nil => exact eval_addressCoins hutxos
  | cons txin txInputs ih =>
    have htxin := hinputs txin List.mem_cons_self
    have hrest := ih fun a ha => hinputs a (List.mem_cons_of_mem _ ha)
    rw [availableCoins, AsyncStream.collect_after, Prog.eval_bind, htxin]
    rw [List.map_cons, List.cons_append, List.map_cons, ← hrest]
    exact Prog.eval_map _ _

/-! ### Complete enumerations -/

/-- The stream has every coin of the inputs and of the addresses, in order, and coins are missing
for a transaction only if those that it may spend do not cover what it pays. -/
structure Enumerates (lib : Lib E) (answer : Answers E) (txInputs : List TxIn)
    (addresses : List Address) : Prop where
  stream : (availableCoins addresses txInputs).collect.eval answer =
    (walletCoins answer txInputs addresses).map .ok
  missing : ∀ (wallet : Wallet) (tx : Transaction) (changeAddress : Address)
    (nSatoshisPerK : UInt64) (prevTxid : Option Txid), wallet.keyStore.keys = addresses →
    tx.input = txInputs →
    (fundTransaction lib wallet tx changeAddress nSatoshisPerK prevTxid).run.eval answer =
      .error (.error .notEnoughInputs) →
    let spendable := (walletCoins answer txInputs addresses).filter fun utxo =>
      prevTxid ≠ some utxo.outpoint.txid
    spendable = [] ∨ (spendable.map (effectiveValue lib ⟨nSatoshisPerK⟩)).sum <
      (selectionTarget lib tx ⟨nSatoshisPerK⟩).toNat

theorem usableCoins_map_ok (prevTxid : Option Txid) (utxos : List Utxo) :
    usableCoins (E := E) prevTxid (utxos.map .ok) =
      utxos.filter fun utxo => prevTxid ≠ some utxo.outpoint.txid := by
  induction utxos with
  | nil => rfl
  | cons utxo utxos ih =>
    by_cases h : prevTxid = some utxo.outpoint.txid
    · rw [List.map_cons, usableCoins_skipped h, ih]
      simp [h]
    · rw [List.map_cons, usableCoins_kept h, ih]
      simp [h]

/-- The enumeration is complete if no address without coins comes before one that has some. -/
theorem enumerates_iff {lib : Lib E} (hlength : ∀ key, (lib.publicKey key).length = 33)
    (hresponds : Responds answer txInputs addresses) :
    Enumerates lib answer txInputs addresses ↔
      addresses.Pairwise fun address later =>
        addressUtxos answer address = [] → addressUtxos answer later = [] := by
  rw [← flatMap_takeWhile_eq_iff]
  have hstream := eval_availableCoins hresponds
  constructor
  · intro h
    have hcoins := h.stream
    rw [hstream, walletCoins] at hcoins
    have hinj : Function.Injective (Except.ok : Utxo → Except (Error E) Utxo) :=
      fun _ _ => Except.ok.inj
    exact List.append_cancel_left (List.map_injective_iff.mpr hinj hcoins)
  · intro h
    rw [h] at hstream
    refine ⟨hstream, ?_⟩
    rintro wallet tx changeAddress nSatoshisPerK prevTxid rfl rfl hfund
    have hmissing := not_covered_of_notEnoughInputs hlength hfund
    rwa [coinStream, hstream, usableCoins_map_ok] at hmissing

/-! ### An address without coins -/

def firstAddress : Address := regtestAddress 0x06afd46bcdfd22ef94ac122aa11f241244a37ecc

def secondAddress : Address := regtestAddress 0x751e76e8199196d454941c45d1b3a323f1433bd6

/-- Only `address` has coins: one of 100000 satoshi. -/
def answerFor (address : Address) : Answers String
  | .addressUtxo a => .ok (if a = address then [⟨1, 0, 100000⟩] else [])
  | .tx txid => .ok ⟨txid, [⟨(threeKeys [] []).scriptPubkey address, none, 100000⟩]⟩
  | .txHex _ => .error "not found"
  | .scripthashTxsChain _ _ => .ok []
  | .addressTxsChain _ _ => .ok []
  | .postTx _ => .error "rejected"

theorem length_publicKey_threeKeys (key : PrivateKey) :
    ((threeKeys [] []).publicKey key).length = 33 :=
  length_toBytes 33 _

theorem responds_answerFor (address : Address) :
    Responds (answerFor address) [] [firstAddress, secondAddress] :=
  ⟨nofun, fun _ _ => rfl⟩

/-- The address with the coin comes first. -/
theorem enumerates_iff_firstAddress :
    Enumerates (threeKeys [] []) (answerFor firstAddress) [] [firstAddress, secondAddress] :=
  (enumerates_iff length_publicKey_threeKeys (responds_answerFor firstAddress)).mpr
    (by decide +kernel)

/-- The address with the coin comes second, and the stream ends before it. -/
theorem not_enumerates_secondAddress :
    Responds (answerFor secondAddress) [] [firstAddress, secondAddress] ∧
    ¬ Enumerates (threeKeys [] []) (answerFor secondAddress) [] [firstAddress, secondAddress] := by
  refine ⟨responds_answerFor secondAddress, ?_⟩
  intro h
  have hlength := congrArg List.length h.stream
  revert hlength
  decide +kernel

end InterBtcClients.Bitcoin.Light
