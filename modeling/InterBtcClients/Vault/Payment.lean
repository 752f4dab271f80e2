import InterBtcClients.Vault.CancellationStart
import InterBtcClients.Vault.Execution

/-! The check that a payment starts with: a payment that is made has its safety margin left, and
none is made for a request that may already be cancelled. -/

namespace InterBtcClients.Vault.Payment

open Library InterBtcClients.Runtime Cancellation CancellationStart Execution

variable {R M : Type}

/-! ### The program -/

/-- The calls of a payment, with `M` for the data of the transaction. -/
inductive Call (M : Type)
  | getCurrentActiveBlockNumber
  | getBlockCount
  | transferBtc
  | updateBitcoinMetrics (txMetadata : M)
  | execute (txMetadata : M)

variable (R M) in
@[reducible] def api : Interface where
  Call := Call M
  Answer
    | .getCurrentActiveBlockNumber => Except R Nat
    | .getBlockCount => Except R Nat
    | .transferBtc => Except (Error R) M
    | .updateBitcoinMetrics _ => Unit
    | .execute _ => Except (Error R) Unit

abbrev Rpc (R M : Type) := ExceptT (Error R) (Prog (api R M))

abbrev ask (call : Call M) : Prog (api R M) ((api R M).Answer call) := Prog.request (api R M) call

/-- The height of bitcoin is looked up when the deadline of the parachain has been reached. -/
def deadlineReached (deadline : Deadline) : Rpc R M Bool := do
  if (← ExceptT.mk (Except.mapError .rpc <$> ask .getCurrentActiveBlockNumber)) ≥
      deadline.parachain then
    return decide ((← ExceptT.mk (Except.mapError .rpc <$> ask .getBlockCount)) ≥ deadline.bitcoin)
  return false

def payAndExecute (request : Request) : Rpc R M Unit := do
  if let some deadline := request.deadline then
    if ← deadlineReached deadline then
      throw .deadlineExpired
  let txMetadata ← ExceptT.mk (ask .transferBtc)
  ExceptT.lift (ask (.updateBitcoinMetrics txMetadata))
  ExceptT.mk (ask (.execute txMetadata))

/-! ### The check -/

/-- The heights of the two chains, and what the rest of a payment comes to. -/
structure Now (R M : Type) where
  parachain : Nat
  bitcoin : Nat
  transferBtc : Except (Error R) M
  execute : M → Except (Error R) Unit

def Now.answer (now : Now R M) : (call : Call M) → (api R M).Answer call
  | .getCurrentActiveBlockNumber => .ok now.parachain
  | .getBlockCount => .ok now.bitcoin
  | .transferBtc => now.transferBtc
  | .updateBitcoinMetrics _ => ()
  | .execute txMetadata => now.execute txMetadata

def Now.handle (now : Now R M) : List (Call M) → (call : Call M) →
    (api R M).Answer call × List (Call M) :=
  Prog.record (F := api R M) fun _ => now.answer

/-- The result of a payment and its calls. -/
def Now.run (now : Now R M) (request : Request) : Except (Error R) Unit × List (Call M) :=
  (payAndExecute request).run.exec now.handle []

/-- The check lets the payment go on. -/
def Now.Pays (now : Now R M) (request : Request) : Prop := .transferBtc ∈ (now.run request).2

structure Now.Refuses (now : Now R M) (request : Request) : Prop where
  expired : (now.run request).1 = .error .deadlineExpired
  not_pays : ¬now.Pays request

variable {now : Now R M} {request : Request} {deadline : Deadline}

/-- Both chains have reached the deadline. -/
def Reached (deadline : Deadline) (now : Now R M) : Prop :=
  deadline.parachain ≤ now.parachain ∧ deadline.bitcoin ≤ now.bitcoin

instance : Decidable (Reached deadline now) := inferInstanceAs (Decidable (_ ∧ _))

/-- The check makes no call but for the two heights. -/
theorem run_deadlineReached (deadline : Deadline) (now : Now R M) (calls : List (Call M)) :
    ∃ heights : List (Call M), (deadlineReached deadline).run.exec now.handle calls =
      (.ok (decide (Reached deadline now)), calls ++ heights) ∧ .transferBtc ∉ heights := by
  by_cases hparachain : deadline.parachain ≤ now.parachain
  · refine ⟨[.getCurrentActiveBlockNumber, .getBlockCount], ?_, by simp⟩
    have hreached : Reached deadline now ↔ deadline.bitcoin ≤ now.bitcoin :=
      and_iff_right hparachain
    rw [decide_eq_decide.mpr hreached]
    refine (Prog.exec_run_bind_ok rfl).trans ?_
    rw [if_pos hparachain, List.append_cons]
    rfl
  · refine ⟨[.getCurrentActiveBlockNumber], ?_, by simp⟩
    rw [decide_eq_false fun h => hparachain h.1]
    refine (Prog.exec_run_bind_ok rfl).trans ?_
    rw [if_neg hparachain]
    rfl

theorem refuses_of_reached (hdeadline : request.deadline = some deadline)
    (hreached : Reached deadline now) : now.Refuses request := by
  obtain ⟨heights, hcheck, hheights⟩ := run_deadlineReached deadline now []
  rw [decide_eq_true hreached] at hcheck
  have hrun : now.run request = (.error .deadlineExpired, heights) := by
    unfold Now.run payAndExecute
    rw [hdeadline]
    exact Prog.exec_run_bind_ok hcheck
  refine ⟨congrArg Prod.fst hrun, ?_⟩
  unfold Now.Pays
  rw [hrun]
  exact hheights

theorem pays_of_not_reached (hdeadline : request.deadline = some deadline)
    (hreached : ¬Reached deadline now) : now.Pays request := by
  obtain ⟨heights, hcheck, -⟩ := run_deadlineReached deadline now []
  rw [decide_eq_false hreached] at hcheck
  unfold Now.Pays Now.run payAndExecute
  rw [hdeadline, Prog.exec_run_bind_ok hcheck]
  exact Prog.mem_exec_record _ _ _ _

/-- A payment is made unless its deadline has been reached. -/
theorem refuses_iff_reached (hdeadline : request.deadline = some deadline) :
    now.Refuses request ↔ Reached deadline now := by
  refine ⟨fun hrefuses => ?_, refuses_of_reached hdeadline⟩
  by_contra hreached
  exact hrefuses.not_pays (pays_of_not_reached hdeadline hreached)

theorem pays_iff_not_reached (hdeadline : request.deadline = some deadline) :
    now.Pays request ↔ ¬Reached deadline now :=
  ⟨fun hpays hreached => (refuses_of_reached hdeadline hreached).not_pays hpays,
    pays_of_not_reached hdeadline⟩

/-! ### The margin -/

/-- `Duration::as_millis`, of a duration that is kept in nanoseconds. -/
def asMillis (duration : Nat) : Nat := duration / 1000000

/-- The nominal time, in nanoseconds, of the blocks that are left. -/
def timeLeft (blocks millis : Nat) : Nat := blocks * millis * 1000000

section Margin

variable {opentime btcHeight period margin globalPeriod : Nat}

/-- The margin is less than a block more than the blocks that fit in it. -/
theorem margin_lt_parachain (hdeadline : calculateDeadline (R := R) opentime btcHeight period
      (asMillis margin) = .ok deadline) (h : now.parachain < deadline.parachain) :
    margin < timeLeft (opentime + period - now.parachain) MILLISECS_PER_BLOCK := by
  obtain ⟨hparachain, -⟩ := deadline_add_margin hdeadline
  unfold asMillis MILLISECS_PER_BLOCK at *
  unfold timeLeft
  omega

/-- What is rounded off the margin in parachain blocks is less than the bitcoin block that is left
above it. -/
theorem margin_lt_bitcoin (hdeadline : calculateDeadline (R := R) opentime btcHeight period
      (asMillis margin) = .ok deadline) (h : now.bitcoin < deadline.bitcoin) :
    margin < timeLeft (btcHeight + bitcoinBlocks period - now.bitcoin) BITCOIN_BLOCK_INTERVAL := by
  obtain ⟨-, hbitcoin⟩ := deadline_add_margin hdeadline
  have hmargin : asMillis margin / MILLISECS_PER_BLOCK * MILLISECS_PER_BLOCK ≤
      bitcoinBlocks (asMillis margin / MILLISECS_PER_BLOCK) * BITCOIN_BLOCK_INTERVAL := by
    unfold bitcoinBlocks MILLISECS_PER_BLOCK BITCOIN_BLOCK_INTERVAL
    omega
  generalize bitcoinBlocks (asMillis margin / MILLISECS_PER_BLOCK) = marginBlocks at *
  generalize bitcoinBlocks period = periodBlocks at *
  unfold asMillis MILLISECS_PER_BLOCK BITCOIN_BLOCK_INTERVAL at *
  unfold timeLeft
  omega

/-- The deadlines of a payment are not after those of the canceller, whose period may be longer. -/
theorem reached_of_expired (hdeadline : calculateDeadline (R := R) opentime btcHeight period
      (asMillis margin) = .ok deadline)
    (hparachain :
      parachainDeadline globalPeriod ⟨request.hash, opentime, btcHeight, period⟩ < now.parachain)
    (hbitcoin :
      bitcoinDeadline globalPeriod ⟨request.hash, opentime, btcHeight, period⟩ < now.bitcoin) :
    Reached deadline now := by
  obtain ⟨hparachain', hbitcoin'⟩ := deadline_add_margin hdeadline
  have hparachain : opentime + max globalPeriod period < now.parachain := hparachain
  have hbitcoin : btcHeight + bitcoinBlocks (max globalPeriod period) < now.bitcoin := hbitcoin
  have hperiod : period ≤ max globalPeriod period := Nat.le_max_right globalPeriod period
  have hblocks := bitcoinBlocks_mono hperiod
  have hdeadline := Nat.le.intro hparachain'
  exact ⟨by omega, by omega⟩

/-- A redeem request with a period of a day, 7200 parachain blocks or 144 bitcoin blocks, from 1000
parachain blocks and bitcoin height 50. -/
def dayRequest : Request where
  hash := 1
  btcHeight := some 50
  deadline := some ⟨7900, 188⟩
  amount := 1000
  btcAddress := .P2WPKHv0 0x06afd46bcdfd22ef94ac122aa11f241244a37ecc
  requestType := .redeem
  vaultId := default
  feeBudget := some 10

def atHeights (parachain bitcoin : Nat) : Now Unit Unit :=
  ⟨parachain, bitcoin, .ok (), fun _ => .ok ()⟩

variable (now globalPeriod) in
/-- A payment that goes on has its margin left on one of the chains, and one whose request may be
cancelled is refused. -/
theorem payAndExecute_margin (hdeadline : calculateDeadline (R := R) opentime btcHeight period
      (asMillis margin) = .ok deadline) (hrequest : request.deadline = some deadline) :
    (now.Pays request →
      margin < timeLeft (opentime + period - now.parachain) MILLISECS_PER_BLOCK ∨
      margin < timeLeft (btcHeight + bitcoinBlocks period - now.bitcoin) BITCOIN_BLOCK_INTERVAL) ∧
    (parachainDeadline globalPeriod ⟨request.hash, opentime, btcHeight, period⟩ < now.parachain →
      bitcoinDeadline globalPeriod ⟨request.hash, opentime, btcHeight, period⟩ < now.bitcoin →
      now.Refuses request) := by
  constructor
  · intro hpays
    have hreached := (pays_iff_not_reached hrequest).mp hpays
    by_cases hparachain : now.parachain < deadline.parachain
    · exact Or.inl (margin_lt_parachain hdeadline hparachain)
    · refine Or.inr (margin_lt_bitcoin hdeadline (Nat.lt_of_not_le fun hbitcoin => hreached ?_))
      exact ⟨Nat.le_of_not_lt hparachain, hbitcoin⟩
  · intro hparachain hbitcoin
    exact (refuses_iff_reached hrequest).mpr (reached_of_expired hdeadline hparachain hbitcoin)

theorem payAndExecute_margin_day :
    (3600000000000 < timeLeft (1000 + 7200 - 7899) MILLISECS_PER_BLOCK ∨
      3600000000000 < timeLeft (50 + bitcoinBlocks 7200 - 200) BITCOIN_BLOCK_INTERVAL) ∧
    (atHeights 8301 197).Refuses dayRequest := by
  have hdeadline : calculateDeadline (R := Unit) 1000 50 7200 (asMillis 3600000000000) =
      .ok ⟨7900, 188⟩ := rfl
  have hrequest : dayRequest.deadline = some ⟨7900, 188⟩ := rfl
  exact ⟨(payAndExecute_margin (atHeights 7899 200) 7300 hdeadline hrequest).1
      ((pays_iff_not_reached hrequest).mpr (by decide)),
    (payAndExecute_margin (atHeights 8301 197) 7300 hdeadline hrequest).2 (by decide) (by decide)⟩

end Margin

end InterBtcClients.Vault.Payment
