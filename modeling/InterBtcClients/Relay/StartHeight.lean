import InterBtcClients.Relay.Chains
import Mathlib.Order.Lattice.Nat

/-! The search of the relay for the first header that the parachain does not have: down to the
highest header that the main chain has in common with the chain of the node, and up from there past
those that are stored.  A header is taken for stored by its height, which is 0 for the first block
as it is for a header that is not there. -/

namespace InterBtcClients.Relay

open Library
open Bitcoin (BlockHash)

variable {E A : Type} {lib : Lib} {blocks : Blocks}

/-- Headers that are stored, and among them a main chain from an initial height on, which may be 0.
-/
structure HeaderStore (blocks : Blocks) where
  initialHeight : Nat
  stored : List BlockHash
  main : List BlockHash
  main_ne_nil : main ≠ []
  main_subset : main ⊆ stored
  main_height : ∀ i : Fin main.length, blocks.height (main.get i) = initialHeight + i

def BtcRelay.toHeaderStore (relay : BtcRelay blocks) : HeaderStore blocks :=
  { relay with }

namespace HeaderStore

variable (store : HeaderStore blocks) (backing : BackingChain lib blocks)

def bestHeight : Nat := store.initialHeight + store.main.length - 1

/-- The header of the main chain at a height. -/
def mainAt (height : Nat) : Option BlockHash :=
  if store.initialHeight ≤ height then store.main[height - store.initialHeight]? else none

/-- A height without a block, or a hash without a header, is answered with the default. -/
def answer : (query : Query) → (queries E).Answer query
  | .getBlockCount => .ok backing.blockCount
  | .getBlockHash height => backing.chain[height]?.elim (.error .invalidBitcoinHeight) .ok
  | .getBlockHeader hash => .ok (blocks.rawHeader hash)
  | .getBestBlock => .ok (store.main.getLast store.main_ne_nil)
  | .getBestBlockHeight => .ok store.bestHeight
  | .getRelayBlockHash height => .ok ((store.mainAt height).getD 0)
  | .getRelayBlockHeader hash => .ok ⟨if hash ∈ store.stored then blocks.height hash else 0⟩
  | .delay _ => .ok ()
  | .sleep => ()

/-- The two chains have the same header at the height. -/
def Common (height : Nat) : Prop :=
  ∃ hash, store.mainAt height = some hash ∧ backing.chain[height]? = some hash

/-- The height of the first header, above the initial height, that the relay does not have of the
chain of the node. -/
structure FirstMissing (height : Nat) : Prop where
  initialHeight_lt : store.initialHeight < height
  stored : ∀ {common i}, IsGreatest {i | store.Common backing i} common → common ≤ i → i < height →
    ∃ hash, backing.chain[i]? = some hash ∧ hash ∈ store.stored
  missing : ∀ {hash}, backing.chain[height]? = some hash → hash ∉ store.stored

variable (E) in
/-- The search ends, with the height of the first missing header. -/
def ResumesAtFirstMissing : Prop :=
  ∃ height enough, store.FirstMissing backing height ∧ ∀ fuel, enough ≤ fuel →
    (computeStartHeight fuel : Rpc E (Option Nat)).run.eval (store.answer backing) =
      .ok (some height)

end HeaderStore

theorem answer_eq (backing : BackingChain lib blocks) (relay : BtcRelay blocks) :
    answer (E := E) backing relay = relay.toHeaderStore.answer backing := by
  funext query
  cases query <;> rfl

/-! ### What is read -/

section Read

variable {store : HeaderStore blocks} {backing : BackingChain lib blocks} {hash : BlockHash}
variable {height n : Nat}

@[simp] theorem eval_bitcoin (request : Prog (queries E) (Except (Bitcoin.Core.Error E) A)) :
    (bitcoin request).run.eval (store.answer backing) =
      (request.eval (store.answer backing)).mapError .bitcoinError := by
  simp [bitcoin]

@[simp] theorem eval_runtime (request : Prog (queries E) (Except E A)) :
    (runtime request).run.eval (store.answer backing) =
      (request.eval (store.answer backing)).mapError .runtimeError := by
  simp [runtime]

theorem eval_isBlockStored (hash : BlockHash) :
    (Issuing.isBlockStored hash : Rpc E Bool).run.eval (store.answer backing) =
      .ok (decide (hash ∈ store.stored ∧ 0 < blocks.height hash)) := by
  by_cases hstored : hash ∈ store.stored
  · simp [Issuing.isBlockStored, Prog.request, Prog.eval, HeaderStore.answer, Except.map, hstored]
  · simp [Issuing.isBlockStored, Prog.request, Prog.eval, HeaderStore.answer, Except.map, hstored]

theorem eval_getBlockHash (hhash : backing.chain[height]? = some hash) :
    (Backing.getBlockHash height : Rpc E BlockHash).run.eval (store.answer backing) =
      .ok hash := by
  simp [Backing.getBlockHash, Prog.request, Prog.eval, HeaderStore.answer, hhash]

theorem eval_getBlockHash_none (h : backing.chain.length ≤ height) :
    (Backing.getBlockHash height : Rpc E BlockHash).run.eval (store.answer backing) =
      .error (.bitcoinError .invalidBitcoinHeight) := by
  simp [Backing.getBlockHash, Prog.request, Prog.eval, HeaderStore.answer,
    List.getElem?_eq_none h]

theorem eval_getRelayBlockHash (height : Nat) :
    (Issuing.getBlockHash height : Rpc E BlockHash).run.eval (store.answer backing) =
      .ok ((store.mainAt height).getD 0) := by
  simp [Issuing.getBlockHash, Prog.request, Prog.eval, HeaderStore.answer]

theorem eval_getBestHeight :
    (Issuing.getBestHeight : Rpc E Nat).run.eval (store.answer backing) = .ok store.bestHeight := by
  simp [Issuing.getBestHeight, Prog.request, Prog.eval, HeaderStore.answer]

theorem eval_getBlockHeader (hhash : backing.chain[height]? = some hash) :
    (Backing.getBlockHeader height : Rpc E (Option RawBlockHeader)).run.eval
      (store.answer backing) = .ok (some (blocks.rawHeader hash)) := by
  simp [Backing.getBlockHeader, Prog.request, Prog.eval, HeaderStore.answer, Except.map, hhash]

theorem eval_getNumConfirmedBlocks (runner : Runner) :
    (runner.getNumConfirmedBlocks : Rpc E Nat).run.eval (store.answer backing) =
      .ok (backing.blockCount - runner.btcConfirmations) := by
  have hlt : backing.blockCount < 2 ^ 32 := by
    have hbounded := backing.bounded
    unfold BackingChain.blockCount
    omega
  simp [Runner.getNumConfirmedBlocks, Backing.getBlockCount, Prog.request, Prog.eval,
    HeaderStore.answer, Except.map]
  omega

theorem eval_getBlockHeader_some {fuel : Nat} (hhash : backing.chain[height]? = some hash)
    (hfuel : 0 < fuel) :
    (Runner.getBlockHeader fuel height : Rpc E (Option RawBlockHeader)).run.eval
      (store.answer backing) = .ok (some (blocks.rawHeader hash)) := by
  obtain ⟨fuel, rfl⟩ := Nat.exists_eq_succ_of_ne_zero (Nat.ne_of_gt hfuel)
  refine Prog.eval_iterate_some ?_ fuel
  rw [Runner.getBlockHeaderRound, Prog.eval_run_bind, eval_getBlockHeader hhash]
  rfl

theorem eval_collectHeaders (hle : height + n ≤ backing.chain.length) :
    (collectHeaders height n : Rpc E (List RawBlockHeader)).run.eval (store.answer backing) =
      .ok (((backing.chain.drop height).take n).map blocks.rawHeader) := by
  have hwrap : (height + n) % 2 ^ 32 - height = n := by
    have hbounded := backing.bounded
    omega
  have hheader : ∀ h ∈ List.range' height n,
      (collectHeader h : Rpc E RawBlockHeader).run.eval (store.answer backing) =
        .ok (blocks.rawHeader (backing.chain[h]?.getD 0)) := by
    intro h hh
    obtain ⟨-, hlt⟩ := List.mem_range'_1.mp hh
    have hhash : backing.chain[h]? = some backing.chain[h] := List.getElem?_eq_getElem (by omega)
    rw [collectHeader, Prog.eval_run_bind, eval_getBlockHeader hhash, hhash]
    rfl
  rw [collectHeaders, hwrap]
  refine (Prog.eval_run_mapM hheader).trans
    (congrArg Except.ok (List.ext_getElem ?_ fun i hi hi' => ?_))
  · simp only [List.length_map, List.length_range', List.length_take, List.length_drop]
    omega
  · have hlen : height + i < backing.chain.length := by
      simp only [List.length_map, List.length_range'] at hi
      omega
    simp [hlen]

/-! ### The search -/

theorem common_iff (hhash : backing.chain[height]? = some hash) :
    store.Common backing height ↔ (store.mainAt height).getD 0 = hash := by
  rw [HeaderStore.Common, hhash]
  constructor
  · rintro ⟨found, hmain, hfound⟩
    rw [hmain]
    exact (Option.some.inj hfound).symm
  · intro hagree
    cases hmain : store.mainAt height with
    | none =>
      rw [hmain, Option.getD_none] at hagree
      exact absurd (List.mem_of_getElem? (hagree ▸ hhash)) backing.zero_notMem
    | some found =>
      rw [hmain] at hagree
      exact ⟨found, rfl, congrArg some hagree.symm⟩

/-- The pass down ends at the highest header that the two chains have in common. -/
theorem eval_backwardPass {common : Nat} (hcommon : store.Common backing common) (hle : common ≤ n)
    (hmax : ∀ i, common < i → i ≤ n → ¬store.Common backing i)
    (hhash : backing.chain[n]? = some hash) :
    (backwardPass n ((store.mainAt n).getD 0) hash : Rpc E Nat).run.eval (store.answer backing) =
      .ok common := by
  induction n generalizing hash with
  | zero =>
    obtain rfl := Nat.le_zero.mp hle
    rw [backwardPass.eq_def, if_pos ((common_iff hhash).mp hcommon), Prog.eval_run_pure]
  | succ n ih =>
    rcases Nat.lt_or_eq_of_le hle with hlt | rfl
    · have hdiffer := mt (common_iff hhash).mpr (hmax (n + 1) hlt (Nat.le_refl _))
      obtain ⟨hlen, -⟩ := List.getElem?_eq_some_iff.mp hhash
      have hnext : backing.chain[n]? = some backing.chain[n] :=
        List.getElem?_eq_getElem (Nat.lt_of_succ_lt hlen)
      rw [backwardPass.eq_def, if_neg hdiffer]
      simp only [Prog.eval_run_bind, eval_getBlockHash hnext, eval_getRelayBlockHash, Prog.bind_ok]
      exact ih (Nat.le_of_lt_succ hlt) (fun i hi hin => hmax i hi (Nat.le_succ_of_le hin)) hnext
    · rw [backwardPass.eq_def, if_pos ((common_iff hhash).mp hcommon), Prog.eval_run_pure]

variable (store backing) in
/-- The header at the height is stored and is not that of the first block, so that the search goes
on. -/
def Passed (height : Nat) : Prop :=
  0 < height ∧ ∃ hash, backing.chain[height]? = some hash ∧ hash ∈ store.stored

theorem eval_forwardRound_of_passed (h : Passed store backing height) :
    (forwardRound height : Rpc E (Nat ⊕ Nat)).run.eval (store.answer backing) =
      .ok (.inl (height + 1)) := by
  obtain ⟨hpos, hash, hhash, hstored⟩ := h
  have hlt : height + 1 ≤ 2 ^ 32 - 1 := by
    have hbounded := backing.bounded
    obtain ⟨hlen, -⟩ := List.getElem?_eq_some_iff.mp hhash
    omega
  rw [← backing.isChain.height hhash] at hpos
  rw [forwardRound, Prog.eval_run_bind, Prog.eval_run_lift, eval_getBlockHash hhash, Prog.bind_ok,
    Prog.eval_run_bind, eval_isBlockStored, decide_eq_true ⟨hstored, hpos⟩]
  simp only [Prog.bind_ok, if_pos, Prog.eval_run_pure, saturatingAdd, Nat.min_eq_left hlt]

theorem eval_forwardRound_of_not_passed (h : ¬Passed store backing height) :
    (forwardRound height : Rpc E (Nat ⊕ Nat)).run.eval (store.answer backing) =
      .ok (.inr height) := by
  rw [forwardRound, Prog.eval_run_bind, Prog.eval_run_lift]
  cases hhash : backing.chain[height]? with
  | none =>
    rw [eval_getBlockHash_none (List.getElem?_eq_none_iff.mp hhash)]
    rfl
  | some hash =>
    have hnot : ¬(hash ∈ store.stored ∧ 0 < blocks.height hash) := by
      rintro ⟨hstored, hpos⟩
      exact h ⟨backing.isChain.height hhash ▸ hpos, hash, hhash, hstored⟩
    rw [eval_getBlockHash hhash, Prog.bind_ok, Prog.eval_run_bind, eval_isBlockStored,
      decide_eq_false hnot]
    rfl

theorem eval_forwardPass {fuel start : Nat} (hle : start ≤ height)
    (hbelow : ∀ i, start ≤ i → i < height → Passed store backing i)
    (hheight : ¬Passed store backing height) (hfuel : height - start < fuel) :
    (Prog.iterate forwardRound fuel start : Rpc E (Option Nat)).run.eval (store.answer backing) =
      .ok (some height) := by
  induction fuel generalizing start with
  | zero => exact absurd hfuel (Nat.not_lt_zero _)
  | succ fuel ih =>
    rcases Nat.lt_or_eq_of_le hle with hlt | rfl
    · rw [Prog.eval_iterate_succ (eval_forwardRound_of_passed (hbelow start le_rfl hlt))]
      exact ih hlt (fun i hi => hbelow i (Nat.le_of_succ_le hi)) (by omega)
    · exact Prog.eval_iterate_some (eval_forwardRound_of_not_passed hheight) fuel

theorem not_passed_length : ¬Passed store backing backing.chain.length := by
  rintro ⟨-, hash, hhash, -⟩
  exact absurd (List.getElem?_eq_some_iff.mp hhash).1 (Nat.lt_irrefl _)

variable (store) in
theorem exists_not_passed {start : Nat} (hstart : start ≤ backing.chain.length) :
    ∃ height, start ≤ height ∧ height ≤ backing.chain.length ∧
      (∀ i, start ≤ i → i < height → Passed store backing i) ∧ ¬Passed store backing height := by
  classical
  have hend : ∃ height, start ≤ height ∧ ¬Passed store backing height :=
    ⟨backing.chain.length, hstart, not_passed_length⟩
  obtain ⟨hle, hnot⟩ := Nat.find_spec hend
  refine ⟨Nat.find hend, hle, Nat.find_min' hend ⟨hstart, not_passed_length⟩, fun i hi hlt => ?_,
    hnot⟩
  exact of_not_not fun hi' => Nat.find_min hend hlt ⟨hi, hi'⟩

/-- The search from the highest common header ends where the pass up does. -/
theorem eval_computeStartHeight {common fuel : Nat}
    (hcommon : IsGreatest {i | store.Common backing i} common)
    (hbest : store.bestHeight < backing.chain.length) (hbestHeight : common ≤ store.bestHeight)
    (hle : common ≤ height) (hbelow : ∀ i, common ≤ i → i < height → Passed store backing i)
    (hheight : ¬Passed store backing height) (hfuel : height - common < fuel) :
    (computeStartHeight fuel : Rpc E (Option Nat)).run.eval (store.answer backing) =
      .ok (some height) := by
  have hbtc := List.getElem?_eq_getElem hbest
  have hmax (i : Nat) (hi : common < i) (_ : i ≤ store.bestHeight) : ¬store.Common backing i :=
    fun h => Nat.not_lt.mpr (hcommon.2 h) hi
  simp only [computeStartHeight, Prog.eval_run_bind, eval_getBestHeight, eval_getRelayBlockHash,
    eval_getBlockHash hbtc, Prog.bind_ok, eval_backwardPass hcommon.1 hbestHeight hmax hbtc,
    eval_forwardPass hle hbelow hheight hfuel]

/-- It fails on a chain that is not as high as the main chain. -/
theorem eval_computeStartHeight_of_short (fuel : Nat)
    (hbest : backing.chain.length ≤ store.bestHeight) :
    (computeStartHeight fuel : Rpc E (Option Nat)).run.eval (store.answer backing) =
      .error (.bitcoinError .invalidBitcoinHeight) := by
  simp only [computeStartHeight, Prog.eval_run_bind, eval_getBestHeight, eval_getRelayBlockHash,
    eval_getBlockHash_none hbest, Prog.bind_ok, Prog.bind_error]

/-! ### The highest common header -/

theorem mainAt_spec (hmain : store.mainAt height = some hash) :
    hash ∈ store.main ∧ store.initialHeight ≤ height ∧ height ≤ store.bestHeight := by
  unfold HeaderStore.mainAt at hmain
  split at hmain
  next hle =>
    have hlt := (List.getElem?_eq_some_iff.mp hmain).1
    refine ⟨List.mem_of_getElem? hmain, hle, ?_⟩
    unfold HeaderStore.bestHeight
    omega
  next => cases hmain

theorem exists_isGreatest (hagree : store.Common backing height) :
    ∃ common, IsGreatest {i | store.Common backing i} common := by
  have hbounded : BddAbove {i | store.Common backing i} :=
    ⟨store.bestHeight, fun i ⟨hash, hmain, _⟩ => (mainAt_spec hmain).2.2⟩
  exact ⟨_, Nat.sSup_mem ⟨_, hagree⟩ hbounded, fun i hi => le_csSup hbounded hi⟩

theorem lt_length_of_le_blockCount (hagree : store.Common backing store.initialHeight)
    (hhigh : store.bestHeight ≤ backing.blockCount) : store.bestHeight < backing.chain.length := by
  obtain ⟨hash, -, hhash⟩ := hagree
  have hlt := (List.getElem?_eq_some_iff.mp hhash).1
  unfold BackingChain.blockCount at hhigh
  omega

theorem not_passed_zero : ¬Passed store backing 0 := fun h => Nat.lt_irrefl 0 h.1

theorem resumes_of_ne_zero {common : Nat}
    (hcommon : IsGreatest {i | store.Common backing i} common)
    (hbest : store.bestHeight < backing.chain.length) (hne : common ≠ 0) :
    store.ResumesAtFirstMissing E backing := by
  obtain ⟨hash, hmain, hhash⟩ := hcommon.1
  obtain ⟨hmem, hinitial, hle⟩ := mainAt_spec hmain
  have hpassed : Passed store backing common :=
    ⟨Nat.pos_of_ne_zero hne, hash, hhash, store.main_subset hmem⟩
  obtain ⟨height, hheight, -, hbelow, hnot⟩ :=
    exists_not_passed store (Nat.le_of_lt (List.getElem?_eq_some_iff.mp hhash).1)
  have hlt : common < height := Nat.lt_of_le_of_ne hheight fun heq => hnot (heq ▸ hpassed)
  refine ⟨height, height - common + 1, ⟨hinitial.trans_lt hlt, fun hgreatest hi hilt => ?_,
    fun htop hstored => hnot ⟨Nat.zero_lt_of_lt hlt, _, htop, hstored⟩⟩, fun fuel hfuel => ?_⟩
  · obtain rfl := hgreatest.unique hcommon
    exact (hbelow _ hi hilt).2
  · exact eval_computeStartHeight hcommon hbest hle hheight hbelow hnot hfuel

/-- The first block is found again, which the parachain has. -/
theorem not_resumes_of_zero (hcommon : IsGreatest {i | store.Common backing i} 0)
    (hbest : store.bestHeight < backing.chain.length) :
    ¬store.ResumesAtFirstMissing E backing := by
  rintro ⟨height, enough, hheight, heval⟩
  have hzero := eval_computeStartHeight (E := E) hcommon hbest (Nat.zero_le _) le_rfl
    (fun i _ hi => absurd hi (Nat.not_lt_zero i)) not_passed_zero (Nat.succ_pos enough)
  obtain rfl := Option.some.inj (Except.ok.inj ((heval _ (Nat.le_succ _)).symm.trans hzero))
  exact Nat.not_lt_zero _ hheight.initialHeight_lt

end Read

/-- On a chain that has the first header of the relay and is as high as its main chain, the search
ends at the first header that is missing if and only if the first block is not the only one that the
two chains have in common. -/
theorem resumesAtFirstMissing_iff (store : HeaderStore blocks) (backing : BackingChain lib blocks)
    (hagree : store.Common backing store.initialHeight)
    (hhigh : store.bestHeight ≤ backing.blockCount) :
    store.ResumesAtFirstMissing E backing ↔ ¬IsGreatest {i | store.Common backing i} 0 := by
  have hbest := lt_length_of_le_blockCount hagree hhigh
  obtain ⟨common, hcommon⟩ := exists_isGreatest hagree
  refine ⟨fun h hzero => not_resumes_of_zero hzero hbest h, fun hzero => ?_⟩
  exact resumes_of_ne_zero hcommon hbest fun heq => hzero (heq ▸ hcommon)

/-- The first two headers of the test network, with the fork after them stored as well. -/
def twoHeaders : HeaderStore testNet where
  initialHeight := 0
  stored := [genesis.hash, firstBlock.hash, forkBlock.hash]
  main := [genesis.hash, firstBlock.hash]
  main_ne_nil := by decide
  main_subset := by decide +kernel
  main_height := by decide +kernel

theorem resumesAtFirstMissing_twoHeaders :
    twoHeaders.ResumesAtFirstMissing String forkChain := by
  refine (resumesAtFirstMissing_iff twoHeaders forkChain ⟨genesis.hash, by decide, by decide⟩
    (by decide)).mpr fun hzero => ?_
  have hfirst : twoHeaders.Common forkChain 1 := ⟨firstBlock.hash, by decide, by decide⟩
  exact absurd (hzero.2 hfirst) (by decide)

/-- A relay that has been initialised with the first block. -/
def oneHeader : HeaderStore testNet where
  initialHeight := 0
  stored := [genesis.hash]
  main := [genesis.hash]
  main_ne_nil := by decide
  main_subset := by decide +kernel
  main_height := by decide +kernel

/-- The relay is to go on with the first block, which it has. -/
theorem not_resumesAtFirstMissing : oneHeader.Common highChain oneHeader.initialHeight ∧
    oneHeader.bestHeight ≤ highChain.blockCount ∧
    ¬oneHeader.ResumesAtFirstMissing String highChain := by
  have hcommon : oneHeader.Common highChain 0 := ⟨genesis.hash, by decide, by decide⟩
  refine ⟨hcommon, by decide, not_resumes_of_zero ⟨hcommon, ?_⟩ (by decide)⟩
  rintro i ⟨hash, hmain, -⟩
  exact (mainAt_spec hmain).2.2

end InterBtcClients.Relay
