/-! The parachain's data that the clients read: identifiers, addresses, currencies and the requests
of the bridge.  Block heights and periods, which the source holds as `u32`, are natural numbers; the
functions that check for overflow do so explicitly. -/

namespace InterBtcClients.Runtime

abbrev H160 := BitVec 160

abbrev H256 := BitVec 256

instance : LawfulBEq H256 := inferInstance

abbrev AccountId := BitVec 256

/-- A compressed public key: 33 bytes. -/
abbrev BtcPublicKey := BitVec 264

/-- Milliseconds per parachain block. -/
def MILLISECS_PER_BLOCK : Nat := 12000

inductive BtcAddress
  | P2PKH (hash : H160)
  | P2SH (hash : H160)
  | P2WPKHv0 (hash : H160)
  | P2WSHv0 (hash : H256)
  deriving DecidableEq, Repr

instance : Inhabited BtcAddress := ⟨.P2PKH 0⟩

inductive TokenSymbol
  | DOT | GGX | GGXT | IBTC | INTR | KBTC | KINT | KSM
  deriving DecidableEq, Repr, Inhabited

/-- `other` stands for the variants that the clients neither build nor look into. -/
inductive CurrencyId
  | token (symbol : TokenSymbol)
  | foreignAsset (id : Nat)
  | lendToken (id : Nat)
  | other (code : Nat)
  deriving DecidableEq, Repr, Inhabited

structure VaultCurrencyPair where
  collateral : CurrencyId
  wrapped : CurrencyId
  deriving DecidableEq, Repr, Inhabited

structure VaultId where
  accountId : AccountId
  currencies : VaultCurrencyPair
  deriving DecidableEq, Repr, Inhabited

inductive IssueRequestStatus
  | pending | completed | cancelled
  deriving DecidableEq, Repr, Inhabited

inductive ReplaceRequestStatus
  | pending | completed | cancelled
  deriving DecidableEq, Repr, Inhabited

inductive RedeemRequestStatus
  | pending | completed | reimbursed (minted : Bool) | retried
  deriving DecidableEq, Repr, Inhabited

structure InterBtcIssueRequest where
  vault : VaultId
  opentime : Nat
  period : Nat
  btcHeight : Nat
  btcAddress : BtcAddress
  btcPublicKey : BtcPublicKey
  status : IssueRequestStatus
  deriving DecidableEq, Inhabited

structure InterBtcReplaceRequest where
  oldVault : VaultId
  newVault : VaultId
  amount : Nat
  acceptTime : Nat
  period : Nat
  btcHeight : Nat
  btcAddress : BtcAddress
  status : ReplaceRequestStatus
  deriving DecidableEq, Inhabited

structure InterBtcRedeemRequest where
  vault : VaultId
  opentime : Nat
  period : Nat
  amountBtc : Nat
  transferFeeBtc : Nat
  btcHeight : Nat
  btcAddress : BtcAddress
  status : RedeemRequestStatus
  deriving DecidableEq, Inhabited

end InterBtcClients.Runtime
