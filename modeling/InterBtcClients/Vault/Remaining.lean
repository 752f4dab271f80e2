import InterBtcClients.Vault.Payment
import Mathlib.Order.Monotone.Defs

/-! The time that is left to redeem, which the metrics publish: the deadline that it is counted to
is that of the payment and of the canceller, though each of the three works it out for itself. -/

namespace InterBtcClients.Vault.Remaining

open Library InterBtcClients.Runtime Cancellation Payment

variable {R M : Type}

/-! ### The program -/

/-- `saturating_add` of `bits` wide unsigned integers. -/
def saturatingAdd (bits a b : Nat) : Nat := min (a + b) (2 ^ bits - 1)

def saturatingSub (a b : Nat) : Nat := a - b

/-- In milliseconds. -/
def timeToParachainDeadline (opentime periodParachainBlocks paraHeight : Nat) : Nat :=
  let deadlineBlock := saturatingAdd 32 opentime periodParachainBlocks
  let remainingBlocks := saturatingSub deadlineBlock paraHeight
  MILLISECS_PER_BLOCK * remainingBlocks

def timeToBitcoinDeadline (btcHeight periodParachainBlocks bitcoinHeight : Nat) : Option Nat := do
  let periodBitcoinBlocks ←
    (parachainBlocksToBitcoinBlocksRoundedUp (R := Unit) periodParachainBlocks).toOption
  let deadlineBitcoinBlock := saturatingAdd 64 periodBitcoinBlocks btcHeight
  let remainingBlocks ←
    (tryIntoU32 (R := Unit) (saturatingSub deadlineBitcoinBlock bitcoinHeight)).toOption
  return BITCOIN_BLOCK_INTERVAL * remainingBlocks

def calculateRemainingTime (redeemPeriod : Nat) (redeem : InterBtcRedeemRequest)
    (paraHeight bitcoinHeight : Nat) : Option Nat := do
  let periodParachainBlocks := max redeemPeriod redeem.period
  let timeToBitcoinDeadline ←
    timeToBitcoinDeadline redeem.btcHeight periodParachainBlocks bitcoinHeight
  return max (timeToParachainDeadline redeem.opentime periodParachainBlocks paraHeight)
    timeToBitcoinDeadline

/-! ### The deadline -/

theorem saturatingAdd_of_lt {bits a b : Nat} (h : a + b < 2 ^ bits) :
    saturatingAdd bits a b = a + b := by
  unfold saturatingAdd
  omega

/-- Milliseconds to the later of the two deadlines. -/
def remainingTime (deadline : Deadline) (parachainHeight bitcoinHeight : Nat) : Nat :=
  max (MILLISECS_PER_BLOCK * (deadline.parachain - parachainHeight))
    (BITCOIN_BLOCK_INTERVAL * (deadline.bitcoin - bitcoinHeight))

theorem remainingTime_eq_zero_iff {deadline : Deadline} {parachainHeight bitcoinHeight : Nat} :
    remainingTime deadline parachainHeight bitcoinHeight = 0 ↔
      deadline.parachain ≤ parachainHeight ∧ deadline.bitcoin ≤ bitcoinHeight := by
  unfold remainingTime MILLISECS_PER_BLOCK BITCOIN_BLOCK_INTERVAL
  omega

theorem remainingTime_antitone {deadline : Deadline} {parachainHeight parachainHeight' : Nat}
    {bitcoinHeight bitcoinHeight' : Nat} (hparachain : parachainHeight ≤ parachainHeight')
    (hbitcoin : bitcoinHeight ≤ bitcoinHeight') :
    remainingTime deadline parachainHeight' bitcoinHeight' ≤
      remainingTime deadline parachainHeight bitcoinHeight := by
  unfold remainingTime MILLISECS_PER_BLOCK BITCOIN_BLOCK_INTERVAL
  omega

section Deadline

variable {redeem : InterBtcRedeemRequest} {globalPeriod : Nat}

/-- The deadline without a margin. -/
def deadlineOf (globalPeriod : Nat) (redeem : InterBtcRedeemRequest) : Deadline where
  parachain := redeem.opentime + max globalPeriod redeem.period
  bitcoin := redeem.btcHeight + bitcoinBlocks (max globalPeriod redeem.period)

/-- No addition or conversion of 32 bit integers overflows. -/
structure InRange (globalPeriod : Nat) (redeem : InterBtcRedeemRequest) : Prop where
  parachain : (deadlineOf globalPeriod redeem).parachain < 2 ^ 32
  bitcoin : (deadlineOf globalPeriod redeem).bitcoin < 2 ^ 32

theorem InRange.period (h : InRange globalPeriod redeem) :
    max globalPeriod redeem.period < 2 ^ 32 :=
  Nat.lt_of_le_of_lt (Nat.le_add_left _ _) h.parachain

theorem calculateDeadline_of_inRange (h : InRange globalPeriod redeem) :
    calculateDeadline (R := R) redeem.opentime redeem.btcHeight (max globalPeriod redeem.period) 0 =
      .ok (deadlineOf globalPeriod redeem) := by
  have hmargin : durationToParachainBlocks (R := R) 0 = .ok 0 := rfl
  have hblocks : bitcoinBlocks 0 = 0 := rfl
  unfold calculateDeadline
  rw [hmargin, Prog.ok_bind, checkedAdd_of_lt h.parachain, okOr_some, Prog.ok_bind, checkedSub,
    if_pos (Nat.zero_le _), okOr_some, Prog.ok_bind, bitcoinBlocks_of_u32 h.period, Prog.ok_bind,
    checkedAdd_of_lt h.bitcoin, okOr_some, Prog.ok_bind, bitcoinBlocks_of_u32 (by decide),
    Prog.ok_bind, hblocks, checkedSub, if_pos (Nat.zero_le _), okOr_some, Prog.ok_bind]
  rfl

theorem convert_of_inRange (id : H256) (h : InRange globalPeriod redeem) :
    convert (R := R) globalPeriod ⟨id, redeem.opentime, redeem.btcHeight, redeem.period⟩ =
      .ok ⟨id, (deadlineOf globalPeriod redeem).parachain,
        (deadlineOf globalPeriod redeem).bitcoin⟩ := by
  unfold convert
  dsimp only
  rw [checkedAdd_of_lt h.parachain, okOr_some, Prog.ok_bind, bitcoinBlocks_of_u32 h.period,
    Prog.ok_bind, checkedAdd_of_lt h.bitcoin, okOr_some, Prog.ok_bind]
  rfl

theorem timeToParachainDeadline_of_inRange (h : InRange globalPeriod redeem) (paraHeight : Nat) :
    timeToParachainDeadline redeem.opentime (max globalPeriod redeem.period) paraHeight =
      MILLISECS_PER_BLOCK * ((deadlineOf globalPeriod redeem).parachain - paraHeight) := by
  unfold timeToParachainDeadline
  rw [saturatingAdd_of_lt h.parachain]
  rfl

/-- The period is taken as a number of bitcoin blocks, whatever it comes to. -/
theorem timeToBitcoinDeadline_of_blocks {btcHeight period blocks : Nat}
    (hblocks : parachainBlocksToBitcoinBlocksRoundedUp (R := Unit) period = .ok blocks)
    (h : btcHeight + blocks < 2 ^ 32) (bitcoinHeight : Nat) :
    timeToBitcoinDeadline btcHeight period bitcoinHeight =
      some (BITCOIN_BLOCK_INTERVAL * (btcHeight + blocks - bitcoinHeight)) := by
  have hsum : blocks + btcHeight < 2 ^ 64 := by omega
  have hremaining : saturatingSub (blocks + btcHeight) bitcoinHeight < 2 ^ 32 := by
    unfold saturatingSub
    omega
  unfold timeToBitcoinDeadline
  rw [hblocks]
  simp only [Except.toOption, Option.bind_eq_bind, Option.bind_some, saturatingAdd_of_lt hsum,
    tryIntoU32, if_pos hremaining]
  rw [Nat.add_comm btcHeight]
  rfl

theorem calculateRemainingTime_of_inRange (h : InRange globalPeriod redeem)
    (paraHeight bitcoinHeight : Nat) :
    calculateRemainingTime globalPeriod redeem paraHeight bitcoinHeight =
      some (remainingTime (deadlineOf globalPeriod redeem) paraHeight bitcoinHeight) := by
  have hbitcoin :=
    timeToBitcoinDeadline_of_blocks (bitcoinBlocks_of_u32 h.period) h.bitcoin bitcoinHeight
  unfold calculateRemainingTime
  dsimp only
  rw [hbitcoin, timeToParachainDeadline_of_inRange h]
  rfl

/-- The metric counts down to the deadline on both chains. -/
structure CountsDown (globalPeriod : Nat) (redeem : InterBtcRedeemRequest) (deadline : Deadline) :
    Prop where
  zero_iff : ∀ paraHeight bitcoinHeight,
    calculateRemainingTime globalPeriod redeem paraHeight bitcoinHeight = some 0 ↔
      deadline.parachain ≤ paraHeight ∧ deadline.bitcoin ≤ bitcoinHeight
  positive : ∀ paraHeight bitcoinHeight,
    ¬(deadline.parachain ≤ paraHeight ∧ deadline.bitcoin ≤ bitcoinHeight) →
      ∃ time, calculateRemainingTime globalPeriod redeem paraHeight bitcoinHeight = some time ∧
        0 < time
  antitone : ∀ paraHeight paraHeight' bitcoinHeight bitcoinHeight',
    paraHeight ≤ paraHeight' → bitcoinHeight ≤ bitcoinHeight' → ∃ time time',
      calculateRemainingTime globalPeriod redeem paraHeight bitcoinHeight = some time ∧
        calculateRemainingTime globalPeriod redeem paraHeight' bitcoinHeight' = some time' ∧
          time' ≤ time

theorem countsDown_of_inRange (h : InRange globalPeriod redeem) :
    CountsDown globalPeriod redeem (deadlineOf globalPeriod redeem) where
  zero_iff paraHeight bitcoinHeight := by
    rw [calculateRemainingTime_of_inRange h, Option.some.injEq]
    exact remainingTime_eq_zero_iff
  positive paraHeight bitcoinHeight hreached :=
    ⟨_, calculateRemainingTime_of_inRange h paraHeight bitcoinHeight,
      Nat.pos_of_ne_zero fun hzero => hreached (remainingTime_eq_zero_iff.mp hzero)⟩
  antitone paraHeight paraHeight' bitcoinHeight bitcoinHeight' hparachain hbitcoin :=
    ⟨_, _, calculateRemainingTime_of_inRange h paraHeight bitcoinHeight,
      calculateRemainingTime_of_inRange h paraHeight' bitcoinHeight',
      remainingTime_antitone hparachain hbitcoin⟩

/-- What the canceller drains has reached its deadline. -/
theorem reached_of_mem_drainExpired {active : ActiveRequest} {requests : List ActiveRequest}
    {paraHeight bitcoinHeight : Nat}
    (h : active ∈ (drainExpired paraHeight bitcoinHeight requests).1) :
    active.parachainDeadlineHeight < paraHeight ∧ active.bitcoinDeadlineHeight < bitcoinHeight := by
  rw [drainExpired_eq] at h
  have hexpired := (List.mem_filter.mp h).2
  simpa [hasExpired] using hexpired

variable (R M) in
/-- The payment, the canceller and the metric agree on the deadline. -/
theorem deadlines_agree (id : H256) (h : InRange globalPeriod redeem) :
    ∃ deadline,
      calculateDeadline (R := R) redeem.opentime redeem.btcHeight
        (max globalPeriod redeem.period) 0 = .ok deadline ∧
      convert (R := R) globalPeriod ⟨id, redeem.opentime, redeem.btcHeight, redeem.period⟩ =
        .ok ⟨id, deadline.parachain, deadline.bitcoin⟩ ∧
      CountsDown globalPeriod redeem deadline ∧
      (∀ payment : Execution.Request, payment.deadline = some deadline → ∀ now : Now R M,
        now.Refuses payment ↔
          calculateRemainingTime globalPeriod redeem now.parachain now.bitcoin = some 0) ∧
      ∀ requests paraHeight bitcoinHeight,
        ⟨id, deadline.parachain, deadline.bitcoin⟩ ∈
            (drainExpired paraHeight bitcoinHeight requests).1 →
          calculateRemainingTime globalPeriod redeem paraHeight bitcoinHeight = some 0 := by
  have hcounts := countsDown_of_inRange h
  refine ⟨deadlineOf globalPeriod redeem, calculateDeadline_of_inRange h, convert_of_inRange id h,
    hcounts, ?_, ?_⟩
  · intro payment hpayment now
    exact (refuses_iff_reached hpayment).trans (hcounts.zero_iff now.parachain now.bitcoin).symm
  · intro requests paraHeight bitcoinHeight hdrained
    obtain ⟨hparachain, hbitcoin⟩ := reached_of_mem_drainExpired hdrained
    exact (hcounts.zero_iff paraHeight bitcoinHeight).mpr
      ⟨Nat.le_of_lt hparachain, Nat.le_of_lt hbitcoin⟩

/-- Half of the global period of a day, which is the longer one. -/
def halfDayRedeem : InterBtcRedeemRequest :=
  { (default : InterBtcRedeemRequest) with opentime := 12345, btcHeight := 56789, period := 3600 }

theorem deadlines_agree_halfDay :
    ∃ deadline, calculateDeadline (R := Unit) 12345 56789 7200 0 = .ok deadline ∧
      convert (R := Unit) 7200 ⟨1, 12345, 56789, 3600⟩ =
        .ok ⟨1, deadline.parachain, deadline.bitcoin⟩ ∧
      CountsDown 7200 halfDayRedeem deadline := by
  have hinRange : InRange 7200 halfDayRedeem := ⟨by decide, by decide⟩
  obtain ⟨deadline, hdeadline, hconvert, hcounts, -⟩ := deadlines_agree Unit Unit 1 hinRange
  exact ⟨deadline, hdeadline, hconvert, hcounts⟩

/-- Three quarters of the day are left. -/
example : calculateRemainingTime 7200 halfDayRedeem (12345 + 1800) (56789 + 144) =
    some 64800000 := by
  decide

end Deadline

end InterBtcClients.Vault.Remaining
