import InterBtcClients.Library.Prog
import InterBtcClients.Library.Ranking
import InterBtcClients.Runtime.Types
import Mathlib.Algebra.BigOperators.Group.Finset.Basic

/-! The delay that spreads the submissions of the vaults: each vault client waits for a number of
parachain blocks that grows with the logarithm of its place among the hashes of all vaults. -/

namespace InterBtcClients.Vault.Delay

open Library InterBtcClients.Runtime

variable {E : Type}

inductive Error (E : Type)
  | channelClosed
  | rpc (e : E)
  deriving DecidableEq, Repr

inductive Call
  | subscribeFinalized
  | getCurrentChainHeight
  /-- The number of the next block of the subscription, or `none` when it is closed. -/
  | nextBlock

def api (E : Type) : Interface where
  Call := Call
  Answer
    | .subscribeFinalized => Except E Unit
    | .getCurrentChainHeight => Except E Nat
    | .nextBlock => Option (Except E Nat)

abbrev Rpc (E : Type) := ExceptT (Error E) (Prog (api E))

abbrev ask (call : Call) : Prog (api E) ((api E).Answer call) := Prog.request (api E) call

def waitForBlockRound (height : Nat) : Rpc E (Unit ⊕ Unit) := do
  match ← ExceptT.lift (ask .nextBlock) with
  | none => throw .channelClosed
  | some block =>
    let number ← Prog.ofExcept (block.mapError .rpc)
    if height ≤ number then return .inr () else return .inl ()

/-- `none` is a wait that has not ended after `fuel` blocks. -/
def waitForBlock (fuel : Nat) (height : Nat) : Rpc E (Option Unit) := do
  ExceptT.mk (Except.mapError .rpc <$> ask .subscribeFinalized)
  Prog.iterate (fun _ => waitForBlockRound height) fuel ()

def delayForBlocks (fuel : Nat) (delay : Nat) : Rpc E (Option Unit) := do
  if delay = 0 then return some ()
  let startingParachainHeight ← ExceptT.mk (Except.mapError .rpc <$> ask .getCurrentChainHeight)
  waitForBlock fuel (startingParachainHeight + delay)

/-- `accountId` is the account of the client. -/
structure OrderedVaultsDelay where
  accountId : AccountId
  vaults : List AccountId

namespace OrderedVaultsDelay

/-- `allVaults` are the ids of the vaults that `get_all_vaults` returns. -/
def new (accountId : AccountId) (allVaults : List VaultId) : OrderedVaultsDelay :=
  ⟨accountId, allVaults.map (·.accountId)⟩

variable (sha256 : H256 → H256)

/-- Hashes are ordered like the numbers that their bytes stand for. -/
def hashVault (data : H256) (accountId : AccountId) : H256 := sha256 (data ^^^ accountId)

def randomOrdering (d : OrderedVaultsDelay) (seedData : H256) : Nat :=
  (d.vaults.filter fun accountId =>
    hashVault sha256 seedData accountId < hashVault sha256 seedData d.accountId).length

def delay (fuel : Nat) (d : OrderedVaultsDelay) (seedData : H256) : Rpc E (Option Unit) :=
  delayForBlocks fuel (Nat.log2 (d.randomOrdering sha256 seedData + 1))

end OrderedVaultsDelay

/-! ### The chain -/

/-- A parachain at the given height, whose next block comes when it is waited for. -/
def chain (height : Nat) : (call : Call) → (api E).Answer call × Nat
  | .subscribeFinalized => (.ok (), height)
  | .getCurrentChainHeight => (.ok height, height)
  | .nextBlock => (some (.ok (height + 1)), height + 1)

theorem exec_waitForBlockRound (target height : Nat) :
    (ExceptT.run (waitForBlockRound (E := E) target)).exec chain height =
      (.ok (if target ≤ height + 1 then .inr () else .inl ()), height + 1) := by
  refine (Prog.exec_run_bind_ok (a := some (.ok (height + 1))) rfl).trans ?_
  refine (Prog.exec_run_bind_ok (a := height + 1) rfl).trans ?_
  split <;> rfl

/-- The loop stops at its target, or where the fuel ends. -/
theorem exec_waitForBlock {target height : Nat} (h : height < target) (fuel : Nat) :
    (ExceptT.run (waitForBlock (E := E) fuel target)).exec chain height =
      if target ≤ height + fuel then (.ok (some ()), target) else (.ok none, height + fuel) := by
  refine (Prog.exec_run_bind_ok (a := ()) rfl).trans ?_
  induction fuel generalizing height with
  | zero =>
    rw [if_neg (by omega)]
    rfl
  | succ fuel ih =>
    have hround := exec_waitForBlockRound (E := E) target height
    refine (Prog.exec_run_bind_ok hround).trans ?_
    by_cases hle : target ≤ height + 1
    · have : target = height + 1 := by omega
      subst this
      rw [if_pos (Nat.le_refl _), if_pos (by omega)]
      rfl
    · rw [if_neg hle]
      refine (ih (by omega)).trans ?_
      rw [Nat.add_right_comm, Nat.add_assoc]

theorem exec_delayForBlocks (fuel delay height : Nat) :
    (ExceptT.run (delayForBlocks (E := E) fuel delay)).exec chain height =
      if delay ≤ fuel then (.ok (some ()), height + delay) else (.ok none, height + fuel) := by
  rw [delayForBlocks]
  by_cases hzero : delay = 0
  · subst hzero
    rfl
  · rw [if_neg hzero]
    refine (Prog.exec_run_bind_ok (show _ = (Except.ok height, height) from rfl)).trans ?_
    refine (exec_waitForBlock (by omega) fuel).trans ?_
    simp only [Nat.add_le_add_iff_left]

/-! ### How long an account waits -/

section Waits

variable (sha256 : H256 → H256) (allVaults : List VaultId) (seedData : H256)

variable (E) in
/-- The delay of the account's client ends `blocks` blocks later, whenever it begins. -/
def Waits (accountId : AccountId) (blocks : Nat) : Prop :=
  ∀ height, ∃ fuel, (ExceptT.run (OrderedVaultsDelay.delay (E := E) sha256 fuel
    (.new accountId allVaults) seedData)).exec chain height = (.ok (some ()), height + blocks)

/-- The accounts of the vaults. -/
def accounts : Finset AccountId := (allVaults.map (·.accountId)).toFinset

def hash (accountId : AccountId) : H256 :=
  OrderedVaultsDelay.hashVault sha256 seedData accountId

/-- The place of the account in the order of the hashes, from 1 on. -/
def position (accountId : AccountId) : Nat :=
  (Finset.filter (fun other => hash sha256 seedData other < hash sha256 seedData accountId)
    (accounts allVaults)).card + 1

/-- How many vaults the accounts before this one have beyond the first of each. -/
def surplus (accountId : AccountId) : Nat :=
  ∑ other ∈ (accounts allVaults).filter fun other =>
    hash sha256 seedData other < hash sha256 seedData accountId,
    ((allVaults.map (·.accountId)).count other - 1)

variable {sha256 allVaults seedData} {accountId : AccountId} {blocks : Nat}

theorem waits_iff : Waits E sha256 allVaults seedData accountId blocks ↔
    blocks = Nat.log2 ((OrderedVaultsDelay.new accountId allVaults).randomOrdering sha256 seedData
      + 1) := by
  generalize hdelay : Nat.log2 _ = delay
  have hexec : ∀ fuel height, (ExceptT.run (OrderedVaultsDelay.delay (E := E) sha256 fuel
      (.new accountId allVaults) seedData)).exec chain height =
      if delay ≤ fuel then (.ok (some ()), height + delay) else (.ok none, height + fuel) :=
    fun fuel height => hdelay ▸ exec_delayForBlocks fuel _ height
  constructor
  · intro h
    obtain ⟨fuel, hfuel⟩ := h 0
    rw [hexec] at hfuel
    split at hfuel
    · have := congrArg Prod.snd hfuel
      simp only at this
      omega
    · cases congrArg Prod.fst hfuel
  · rintro rfl height
    exact ⟨blocks, by rw [hexec, if_pos (Nat.le_refl _)]⟩

/-- Every vault of an account is counted. -/
theorem randomOrdering_add_one :
    (OrderedVaultsDelay.new accountId allVaults).randomOrdering sha256 seedData + 1 =
      position sha256 allVaults seedData accountId +
        surplus sha256 allVaults seedData accountId := by
  have hlength := length_filter_eq_card_add (allVaults.map (·.accountId)) fun other =>
    hash sha256 seedData other < hash sha256 seedData accountId
  simp only [OrderedVaultsDelay.randomOrdering, OrderedVaultsDelay.new, position, surplus, accounts]
  rw [Nat.add_right_comm, ← hlength]
  rfl

/-! ### The order of the accounts -/

theorem position_eq_rank
    (hinj : ∀ a ∈ accounts allVaults, ∀ b ∈ accounts allVaults,
      hash sha256 seedData a = hash sha256 seedData b → a = b) (accountId : AccountId) :
    position sha256 allVaults seedData accountId =
      rank ((accounts allVaults).image fun a => (hash sha256 seedData a).toNat)
        (hash sha256 seedData accountId).toNat + 1 := by
  rw [position, rank, Finset.filter_image, Finset.card_image_of_injOn]
  · rfl
  · intro a ha b hb hab
    exact hinj a (Finset.mem_filter.mp ha).1 b (Finset.mem_filter.mp hb).1
      (BitVec.eq_of_toNat_eq hab)

/-- As many accounts have a place up to `m` as there are such places, or all of them. -/
theorem card_position_le
    (hinj : ∀ a ∈ accounts allVaults, ∀ b ∈ accounts allVaults,
      hash sha256 seedData a = hash sha256 seedData b → a = b) (m : Nat) :
    ((accounts allVaults).filter fun a => position sha256 allVaults seedData a ≤ m).card =
      min (accounts allVaults).card m := by
  have hinjOn : Set.InjOn (fun a => (hash sha256 seedData a).toNat) (accounts allVaults) :=
    fun a ha b hb hab => hinj a ha b hb (BitVec.eq_of_toNat_eq hab)
  have hcard := card_rank_lt ((accounts allVaults).image fun a => (hash sha256 seedData a).toNat) m
  rw [Finset.card_image_of_injOn hinjOn, Finset.filter_image, Finset.card_image_of_injOn] at hcard
  · simpa only [position_eq_rank hinj, Nat.succ_le_iff] using hcard
  · exact hinjOn.mono (Finset.coe_subset.mpr (Finset.filter_subset _ _))

/-- The logarithm of the place changes when the surplus reaches the next power of two. -/
theorem log2_add_eq_iff {p n : Nat} (hp : p ≠ 0) :
    Nat.log2 (p + n) = Nat.log2 p ↔ p + n < 2 ^ (Nat.log2 p + 1) := by
  have hle : 2 ^ Nat.log2 p ≤ p := (Nat.le_log2 hp).mp (Nat.le_refl _)
  have hsum : p + n ≠ 0 := by omega
  rw [← Nat.log2_lt hsum, Nat.lt_succ_iff]
  have hge : Nat.log2 p ≤ Nat.log2 (p + n) := (Nat.le_log2 hsum).mpr (by omega)
  omega

theorem waits_log2_iff : Waits E sha256 allVaults seedData accountId
      (Nat.log2 (position sha256 allVaults seedData accountId)) ↔
    position sha256 allVaults seedData accountId + surplus sha256 allVaults seedData accountId <
      2 ^ (Nat.log2 (position sha256 allVaults seedData accountId) + 1) := by
  rw [waits_iff, randomOrdering_add_one, eq_comm]
  exact log2_add_eq_iff (Nat.succ_ne_zero _)

/-- The accounts whose place has a logarithm up to `d`. -/
theorem exists_early
    (hinj : ∀ a ∈ accounts allVaults, ∀ b ∈ accounts allVaults,
      hash sha256 seedData a = hash sha256 seedData b → a = b)
    (hwaits : ∀ a ∈ accounts allVaults,
      Waits E sha256 allVaults seedData a (Nat.log2 (position sha256 allVaults seedData a)))
    (d : Nat) : ∃ early ⊆ accounts allVaults,
      min (accounts allVaults).card (2 ^ (d + 1) - 1) ≤ early.card ∧
        ∀ a ∈ early, ∃ blocks ≤ d, Waits E sha256 allVaults seedData a blocks := by
  refine ⟨(accounts allVaults).filter fun a =>
    position sha256 allVaults seedData a ≤ 2 ^ (d + 1) - 1, Finset.filter_subset _ _,
    (card_position_le hinj _).ge, fun a ha => ?_⟩
  obtain ⟨hmem, hle⟩ := Finset.mem_filter.mp ha
  refine ⟨_, ?_, hwaits a hmem⟩
  have hpos : position sha256 allVaults seedData a ≠ 0 := Nat.succ_ne_zero _
  have hpow : 0 < 2 ^ (d + 1) := Nat.two_pow_pos _
  rw [← Nat.lt_succ_iff, Nat.log2_lt hpos]
  omega

/-- The account in the first place. -/
theorem existsUnique_first
    (hinj : ∀ a ∈ accounts allVaults, ∀ b ∈ accounts allVaults,
      hash sha256 seedData a = hash sha256 seedData b → a = b)
    (hwaits : ∀ a ∈ accounts allVaults,
      Waits E sha256 allVaults seedData a (Nat.log2 (position sha256 allVaults seedData a)))
    (hne : allVaults ≠ []) :
    ∃! a, a ∈ accounts allVaults ∧ Waits E sha256 allVaults seedData a 0 := by
  have hfirst : ∀ a ∈ accounts allVaults, Waits E sha256 allVaults seedData a 0 ↔
      position sha256 allVaults seedData a ≤ 1 := by
    intro a ha
    have hpos : position sha256 allVaults seedData a ≠ 0 := Nat.succ_ne_zero _
    rw [waits_iff, ← waits_iff.mp (hwaits a ha), eq_comm, ← Nat.lt_one_iff, Nat.log2_lt hpos]
    omega
  have hcard : (accounts allVaults).card ≠ 0 := by
    simpa [accounts, Finset.card_eq_zero, List.toFinset_eq_empty_iff] using hne
  have hone : ((accounts allVaults).filter fun a =>
      position sha256 allVaults seedData a ≤ 1).card = 1 := by
    rw [card_position_le hinj]
    omega
  obtain ⟨a, ha⟩ := Finset.card_eq_one.mp hone
  have hmem : ∀ b, b ∈ accounts allVaults ∧ Waits E sha256 allVaults seedData b 0 ↔ b = a := by
    intro b
    rw [← Finset.mem_singleton, ← ha, Finset.mem_filter]
    exact and_congr_right fun hb => hfirst b hb
  exact ⟨a, (hmem a).mpr rfl, fun b hb => (hmem b).mp hb⟩

end Waits

/-- The clients wait by the places of their accounts exactly when the vaults that accounts have
beyond their first never fill the places up to the next power of two. -/
theorem delay_spreads_iff (sha256 : H256 → H256) (allVaults : List VaultId) (seedData : H256)
    (hinj : ∀ a ∈ accounts allVaults, ∀ b ∈ accounts allVaults,
      hash sha256 seedData a = hash sha256 seedData b → a = b) :
    ((∀ a ∈ accounts allVaults, Waits E sha256 allVaults seedData a
        (Nat.log2 (position sha256 allVaults seedData a))) ∧
      (∀ d, ∃ early ⊆ accounts allVaults,
        min (accounts allVaults).card (2 ^ (d + 1) - 1) ≤ early.card ∧
          ∀ a ∈ early, ∃ blocks ≤ d, Waits E sha256 allVaults seedData a blocks) ∧
      (allVaults ≠ [] →
        ∃! a, a ∈ accounts allVaults ∧ Waits E sha256 allVaults seedData a 0)) ↔
    ∀ a ∈ accounts allVaults,
      position sha256 allVaults seedData a + surplus sha256 allVaults seedData a <
        2 ^ (Nat.log2 (position sha256 allVaults seedData a) + 1) := by
  constructor
  · rintro ⟨hwaits, -⟩ a ha
    exact waits_log2_iff.mp (hwaits a ha)
  · intro h
    have hwaits : ∀ a ∈ accounts allVaults, Waits E sha256 allVaults seedData a
        (Nat.log2 (position sha256 allVaults seedData a)) :=
      fun a ha => waits_log2_iff.mpr (h a ha)
    exact ⟨hwaits, exists_early hinj hwaits, existsUnique_first hinj hwaits⟩

/-! ### Three accounts -/

/-- The hashes of the numbers 1, 2 and 3. -/
def threeHashes (data : H256) : H256 :=
  if data = 1 then 0xec4916dd28fc4c10d78e287ca5d9cc51ee1ae73cbfde08c6b37324cbfaac8bc5
  else if data = 2 then 0x9267d3dbed802941483f1afa2a6bc68de5f653128aca9bf1461c5d0a3ad36ed2
  else if data = 3 then 0xd9147961436944f43cd99d28b2bbddbf452ef872b30c8279e255e7daafc7f946
  else 0

def vaultOf (accountId : AccountId) (collateral : TokenSymbol) : VaultId :=
  ⟨accountId, ⟨.token collateral, .token .IBTC⟩⟩

/-- One vault each. -/
def threeVaults : List VaultId := [vaultOf 1 .DOT, vaultOf 2 .DOT, vaultOf 3 .DOT]

theorem forall_accounts_threeVaults {P : AccountId → Prop} :
    (∀ a ∈ accounts threeVaults, P a) ↔ P 1 ∧ P 2 ∧ P 3 := by
  simp [accounts, threeVaults, vaultOf]

/-- The accounts 2, 3 and 1 wait 0, 1 and 1 blocks. -/
theorem delay_spreads_three :
    (∀ a ∈ accounts threeVaults, Waits String threeHashes threeVaults 0 a
        (Nat.log2 (position threeHashes threeVaults 0 a))) ∧
      ∃! a, a ∈ accounts threeVaults ∧ Waits String threeHashes threeVaults 0 a 0 := by
  have hinj : ∀ a ∈ accounts threeVaults, ∀ b ∈ accounts threeVaults,
      hash threeHashes 0 a = hash threeHashes 0 b → a = b := by
    simp only [forall_accounts_threeVaults]
    decide +kernel
  obtain ⟨hwaits, -, hfirst⟩ := (delay_spreads_iff threeHashes threeVaults 0 hinj).mpr
    (forall_accounts_threeVaults.mpr (by decide +kernel))
  exact ⟨hwaits, hfirst (List.cons_ne_nil _ _)⟩

/-- Three vaults of the account 2, and one of the account 3. -/
def fourVaults : List VaultId :=
  [vaultOf 2 .DOT, vaultOf 2 .KSM, vaultOf 2 .GGX, vaultOf 3 .DOT]

/-- The account 3 is in the second place of two, and waits 2 blocks. -/
theorem not_delay_spreads :
    position threeHashes fourVaults 0 3 = 2 ∧ Waits String threeHashes fourVaults 0 3 2 ∧
      ¬∀ a ∈ accounts fourVaults, Waits String threeHashes fourVaults 0 a
        (Nat.log2 (position threeHashes fourVaults 0 a)) := by
  refine ⟨by decide +kernel, waits_iff.mpr (by decide +kernel), fun h => ?_⟩
  have hwaits := waits_iff.mp (h 3 (by decide +kernel))
  revert hwaits
  decide +kernel

end InterBtcClients.Vault.Delay
