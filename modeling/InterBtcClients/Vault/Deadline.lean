import InterBtcClients.Library.Prog
import InterBtcClients.Runtime.Types
import Mathlib.Algebra.Group.Nat.Defs

/-! Deadlines of the bridge's requests: the arithmetic, with its overflow checks, that turns periods
of parachain blocks into heights of the two chains. -/

namespace InterBtcClients.Vault

open Library InterBtcClients.Runtime

/-- The vault's errors that the functions below return; `rpc` wraps those of the chains' clients. -/
inductive Error (R : Type)
  | arithmeticOverflow
  | arithmeticUnderflow
  | tryIntoIntError
  | deadlineExpired
  | rpc (e : R)
  deriving DecidableEq, Repr

variable {R : Type}

def okOr {A : Type} (e : Error R) : Option A → Except (Error R) A
  | some a => .ok a
  | none => .error e

/-- `checked_add` of `bits` wide unsigned integers. -/
def checkedAdd (bits a b : Nat) : Option Nat := if a + b < 2 ^ bits then some (a + b) else none

def checkedMul (bits a b : Nat) : Option Nat := if a * b < 2 ^ bits then some (a * b) else none

def checkedSub (a b : Nat) : Option Nat := if b ≤ a then some (a - b) else none

def checkedDiv (a b : Nat) : Option Nat := if b = 0 then none else some (a / b)

def tryIntoU32 (a : Nat) : Except (Error R) Nat :=
  if a < 2 ^ 32 then .ok a else .error .tryIntoIntError

/-- Milliseconds between bitcoin blocks. -/
def BITCOIN_BLOCK_INTERVAL : Nat := 600000

def parachainBlocksToBitcoinBlocksRoundedUp (parachainBlocks : Nat) : Except (Error R) Nat := do
  let millis ← okOr .arithmeticOverflow (checkedMul 64 parachainBlocks MILLISECS_PER_BLOCK)
  let denominator := BITCOIN_BLOCK_INTERVAL
  let sum ← okOr .arithmeticOverflow (checkedAdd 128 millis denominator)
  let numerator ← okOr .arithmeticUnderflow (checkedSub sum 1)
  let numBitcoinBlocks ← okOr .arithmeticUnderflow (checkedDiv numerator denominator)
  tryIntoU32 numBitcoinBlocks

theorem okOr_some {A : Type} (e : Error R) (a : A) : okOr e (some a) = .ok a := rfl

theorem okOr_eq_ok {A : Type} {e : Error R} {x : Option A} {a : A} (h : okOr e x = .ok a) :
    x = some a := by
  cases x with
  | none => cases h
  | some b =>
    cases h
    rfl

theorem checkedAdd_eq_some {bits a b c : Nat} (h : checkedAdd bits a b = some c) : c = a + b :=
  (Option.some.inj (Option.ite_none_right_eq_some.mp h).2).symm

theorem bitcoinBlocks_eq {parachainBlocks bitcoinBlocks : Nat}
    (h : parachainBlocksToBitcoinBlocksRoundedUp (R := R) parachainBlocks = .ok bitcoinBlocks) :
    bitcoinBlocks = (parachainBlocks * MILLISECS_PER_BLOCK + BITCOIN_BLOCK_INTERVAL - 1) /
      BITCOIN_BLOCK_INTERVAL := by
  obtain ⟨millis, hmillis, h⟩ := Prog.bind_eq_ok h
  obtain ⟨sum, hsum, h⟩ := Prog.bind_eq_ok h
  obtain ⟨numerator, hnumerator, h⟩ := Prog.bind_eq_ok h
  obtain ⟨quotient, hquotient, h⟩ := Prog.bind_eq_ok h
  obtain ⟨-, hmillis⟩ := Option.ite_none_right_eq_some.mp (okOr_eq_ok hmillis)
  obtain ⟨-, hnumerator⟩ := Option.ite_none_right_eq_some.mp (okOr_eq_ok hnumerator)
  obtain ⟨-, hquotient⟩ := Option.ite_none_left_eq_some.mp (okOr_eq_ok hquotient)
  have hsum := checkedAdd_eq_some (okOr_eq_ok hsum)
  rw [tryIntoU32] at h
  split at h
  · rw [← Except.ok.inj h, ← Option.some.inj hquotient, ← Option.some.inj hnumerator, hsum,
      ← Option.some.inj hmillis]
  · cases h

structure Deadline where
  parachain : Nat
  bitcoin : Nat
  deriving DecidableEq, Repr

/-- The blocks of a duration, which is in milliseconds. -/
def durationToParachainBlocks (duration : Nat) : Except (Error R) Nat :=
  tryIntoU32 (duration / MILLISECS_PER_BLOCK)

def calculateDeadline (opentime btcStartHeight period paymentMargin : Nat) :
    Except (Error R) Deadline := do
  let marginParachainBlocks ← durationToParachainBlocks paymentMargin
  let sum ← okOr .arithmeticOverflow (checkedAdd 32 opentime period)
  let parachain ← okOr .arithmeticUnderflow (checkedSub sum marginParachainBlocks)
  let bitcoinPeriod ← parachainBlocksToBitcoinBlocksRoundedUp period
  let sum ← okOr .arithmeticOverflow (checkedAdd 32 btcStartHeight bitcoinPeriod)
  let bitcoinMargin ← parachainBlocksToBitcoinBlocksRoundedUp marginParachainBlocks
  let bitcoin ← okOr .arithmeticUnderflow (checkedSub sum bitcoinMargin)
  return { parachain, bitcoin }

/-- Bitcoin blocks in the time of the parachain blocks, rounded up. -/
def bitcoinBlocks (parachainBlocks : Nat) : Nat :=
  (parachainBlocks * MILLISECS_PER_BLOCK + BITCOIN_BLOCK_INTERVAL - 1) / BITCOIN_BLOCK_INTERVAL

theorem bitcoinBlocks_mono {blocks blocks' : Nat} (h : blocks ≤ blocks') :
    bitcoinBlocks blocks ≤ bitcoinBlocks blocks' := by
  unfold bitcoinBlocks MILLISECS_PER_BLOCK BITCOIN_BLOCK_INTERVAL
  omega

theorem checkedAdd_of_lt {bits a b : Nat} (h : a + b < 2 ^ bits) :
    checkedAdd bits a b = some (a + b) :=
  if_pos h

theorem checkedSub_eq_some {a b c : Nat} (h : checkedSub a b = some c) : c + b = a := by
  obtain ⟨hle, hsub⟩ := Option.ite_none_right_eq_some.mp h
  rw [← Option.some.inj hsub]
  exact Nat.sub_add_cancel hle

theorem tryIntoU32_eq_ok {a b : Nat} (h : tryIntoU32 (R := R) a = .ok b) : b = a := by
  unfold tryIntoU32 at h
  split at h
  · exact (Except.ok.inj h).symm
  · cases h

theorem bitcoinBlocks_of_u32 {parachainBlocks : Nat} (h : parachainBlocks < 2 ^ 32) :
    parachainBlocksToBitcoinBlocksRoundedUp (R := R) parachainBlocks =
      .ok (bitcoinBlocks parachainBlocks) := by
  have hmillis : parachainBlocks * MILLISECS_PER_BLOCK < 2 ^ 64 := by
    unfold MILLISECS_PER_BLOCK
    omega
  have hsum : parachainBlocks * MILLISECS_PER_BLOCK + BITCOIN_BLOCK_INTERVAL < 2 ^ 128 := by
    unfold BITCOIN_BLOCK_INTERVAL
    omega
  have hnumerator : 1 ≤ parachainBlocks * MILLISECS_PER_BLOCK + BITCOIN_BLOCK_INTERVAL := by
    unfold BITCOIN_BLOCK_INTERVAL
    omega
  have hdenominator : BITCOIN_BLOCK_INTERVAL ≠ 0 := by
    unfold BITCOIN_BLOCK_INTERVAL
    omega
  have hblocks : bitcoinBlocks parachainBlocks < 2 ^ 32 := by
    unfold bitcoinBlocks MILLISECS_PER_BLOCK BITCOIN_BLOCK_INTERVAL
    omega
  unfold parachainBlocksToBitcoinBlocksRoundedUp
  dsimp only
  rw [checkedMul, if_pos hmillis, okOr_some, Prog.ok_bind, checkedAdd_of_lt hsum, okOr_some,
    Prog.ok_bind, checkedSub, if_pos hnumerator, okOr_some, Prog.ok_bind, checkedDiv,
    if_neg hdenominator, okOr_some, Prog.ok_bind, ← bitcoinBlocks, tryIntoU32, if_pos hblocks]

/-- What the margin takes off the two deadlines. -/
theorem deadline_add_margin {opentime btcStartHeight period paymentMargin : Nat}
    {deadline : Deadline}
    (h : calculateDeadline (R := R) opentime btcStartHeight period paymentMargin = .ok deadline) :
    deadline.parachain + paymentMargin / MILLISECS_PER_BLOCK = opentime + period ∧
      deadline.bitcoin + bitcoinBlocks (paymentMargin / MILLISECS_PER_BLOCK) =
        btcStartHeight + bitcoinBlocks period := by
  obtain ⟨margin, hmargin, h⟩ := Prog.bind_eq_ok h
  obtain ⟨sum, hsum, h⟩ := Prog.bind_eq_ok h
  obtain ⟨parachain, hparachain, h⟩ := Prog.bind_eq_ok h
  obtain ⟨bitcoinPeriod, hperiod, h⟩ := Prog.bind_eq_ok h
  obtain ⟨bitcoinSum, hbitcoinSum, h⟩ := Prog.bind_eq_ok h
  obtain ⟨bitcoinMargin, hbitcoinMargin, h⟩ := Prog.bind_eq_ok h
  obtain ⟨bitcoin, hbitcoin, h⟩ := Prog.bind_eq_ok h
  cases h
  have hmargin : margin = paymentMargin / MILLISECS_PER_BLOCK := tryIntoU32_eq_ok hmargin
  have hbitcoinPeriod : bitcoinPeriod = bitcoinBlocks period := bitcoinBlocks_eq hperiod
  have hbitcoinMargin : bitcoinMargin = bitcoinBlocks margin := bitcoinBlocks_eq hbitcoinMargin
  rw [← hmargin, ← hbitcoinMargin, ← hbitcoinPeriod, ← checkedAdd_eq_some (okOr_eq_ok hsum),
    ← checkedAdd_eq_some (okOr_eq_ok hbitcoinSum)]
  exact ⟨checkedSub_eq_some (okOr_eq_ok hparachain), checkedSub_eq_some (okOr_eq_ok hbitcoin)⟩

end InterBtcClients.Vault
