import InterBtcClients.Relay.StartHeight

/-! The runner of the relay catches up with the chain of the node: a call submits the headers that
follow those that the relay has stored of this chain, and nothing else. -/

namespace InterBtcClients.Relay

open Library
open Bitcoin (BlockHash)
open Bitcoin.Light (Failure)

variable {E : Type} {lib : Lib} {blocks : Blocks} {backing : BackingChain lib blocks}
variable {relay relay' : BtcRelay blocks} {hash : BlockHash} {height i n : Nat}

theorem cons_prefix_drop {chain hashes : List BlockHash} :
    hash :: hashes <+: chain.drop height ↔
      chain[height]? = some hash ∧ hashes <+: chain.drop (height + 1) := by
  rw [← List.head?_drop, ← List.tail_drop]
  cases chain.drop height with
  | nil => simp
  | cons first rest => simp [List.cons_prefix_cons, eq_comm]

/-! ### The headers that are stored -/

/-- Of the headers of the chain from the initial height on, those below `height` are stored. -/
structure StoredUpTo (backing : BackingChain lib blocks) (relay : BtcRelay blocks)
    (height : Nat) : Prop where
  initialHeight_lt : relay.initialHeight < height
  le_length : height ≤ backing.chain.length
  mem_iff : ∀ {i hash}, backing.chain[i]? = some hash →
    (hash ∈ relay.stored ↔ relay.initialHeight ≤ i ∧ i < height)

theorem stored_of_le {j : Nat} {top : BlockHash} (hi : relay.initialHeight ≤ i) (hij : i ≤ j)
    (hhash : backing.chain[i]? = some hash) (htop : backing.chain[j]? = some top)
    (hstored : top ∈ relay.stored) : hash ∈ relay.stored := by
  induction j generalizing top with
  | zero =>
    obtain rfl := Nat.le_zero.mp hij
    rw [hhash] at htop
    exact Option.some.inj htop ▸ hstored
  | succ j ih =>
    rcases Nat.lt_or_eq_of_le hij with hlt | rfl
    · refine ih (Nat.le_of_lt_succ hlt) (backing.isChain.parent htop) ?_
      refine relay.parent_mem top hstored ?_
      rw [backing.isChain.height htop]
      omega
    · rw [hhash] at htop
      exact Option.some.inj htop ▸ hstored

theorem StoredUpTo.of_search {start : Nat} (hstart : relay.initialHeight ≤ start)
    (hlt : start < height) (hlen : height ≤ backing.chain.length)
    (hbelow : ∀ {i hash}, start ≤ i → i < height → backing.chain[i]? = some hash →
      hash ∈ relay.stored)
    (hfresh : ∀ {hash}, backing.chain[height]? = some hash → hash ∉ relay.stored) :
    StoredUpTo backing relay height := by
  refine ⟨by omega, hlen, fun {i hash} hhash => ?_⟩
  have hheight := backing.isChain.height hhash
  constructor
  · refine fun hstored => ⟨hheight ▸ relay.initialHeight_le hash hstored, ?_⟩
    by_contra hge
    obtain ⟨hi, -⟩ := List.getElem?_eq_some_iff.mp hhash
    have hnext : backing.chain[height]? = some backing.chain[height] :=
      List.getElem?_eq_getElem (by omega)
    exact hfresh hnext (stored_of_le (by omega) (by omega) hnext hhash hstored)
  · rintro ⟨hinitial, hi⟩
    have htop : backing.chain[height - 1]? = some backing.chain[height - 1] :=
      List.getElem?_eq_getElem (by omega)
    exact stored_of_le hinitial (by omega) hhash htop (hbelow (by omega) (by omega) htop)

theorem StoredUpTo.fresh (h : StoredUpTo backing relay height)
    (hhash : backing.chain[height]? = some hash) : hash ∉ relay.stored :=
  fun hstored => absurd ((h.mem_iff hhash).mp hstored).2 (Nat.lt_irrefl _)

theorem StoredUpTo.parent_mem (h : StoredUpTo backing relay height)
    (hhash : backing.chain[height]? = some hash) :
    (blocks.block hash).prevBlockhash ∈ relay.stored := by
  obtain ⟨height, rfl⟩ := Nat.exists_eq_succ_of_ne_zero (Nat.ne_zero_of_lt h.initialHeight_lt)
  have hlt := h.initialHeight_lt
  exact (h.mem_iff (backing.isChain.parent hhash)).mpr ⟨by omega, by omega⟩

/-- The next header can be stored, for example on a fork. -/
theorem StoredUpTo.exists_stores (h : StoredUpTo backing relay height)
    (hhash : backing.chain[height]? = some hash) : ∃ relay', relay.Stores hash relay' := by
  have hheight := backing.isChain.height hhash
  have hlt := h.initialHeight_lt
  have hmem := List.mem_of_getElem? hhash
  refine ⟨{ relay with
    stored := hash :: relay.stored
    main_subset := List.subset_cons_of_subset _ relay.main_subset
    initialHeight_le := List.forall_mem_cons.mpr ⟨by omega, relay.initialHeight_le⟩
    parent_mem := List.forall_mem_cons.mpr
      ⟨fun _ => List.mem_cons_of_mem _ (h.parent_mem hhash),
        fun hash hstored hlt => List.mem_cons_of_mem _ (relay.parent_mem hash hstored hlt)⟩
    zero_notMem := fun hzero => ?_ }, h.fresh hhash, h.parent_mem hhash, rfl, rfl, .inl rfl⟩
  rcases List.mem_cons.mp hzero with rfl | hzero
  · exact backing.zero_notMem hmem
  · exact relay.zero_notMem hzero

theorem StoredUpTo.stores (h : StoredUpTo backing relay height)
    (hhash : backing.chain[height]? = some hash) (hstores : relay.Stores hash relay') :
    StoredUpTo backing relay' (height + 1) := by
  have hheight := backing.isChain.height hhash
  have hlt := h.initialHeight_lt
  obtain ⟨hlen, -⟩ := List.getElem?_eq_some_iff.mp hhash
  refine ⟨by rw [hstores.initialHeight]; omega, hlen, fun {i found} hfound => ?_⟩
  rw [hstores.stored, hstores.initialHeight, List.mem_cons, h.mem_iff hfound]
  have hi := backing.isChain.height hfound
  constructor
  · rintro (rfl | ⟨hinitial, hi⟩)
    · omega
    · omega
  · rintro ⟨hinitial, hle⟩
    rcases Nat.lt_or_eq_of_le (Nat.le_of_lt_succ hle) with hi | rfl
    · exact .inr ⟨hinitial, hi⟩
    · rw [hhash] at hfound
      exact .inl (Option.some.inj hfound).symm

/-! ### A batch that is stored -/

/-- What a relay that has stored all of the headers has become. -/
structure BtcRelay.Extends (relay : BtcRelay blocks) (hashes : List BlockHash)
    (relay' : BtcRelay blocks) : Prop where
  initialHeight : relay'.initialHeight = relay.initialHeight
  stored : relay'.stored = hashes.reverse ++ relay.stored
  main : relay'.main = relay.main ∨ relay'.bestBlock ∈ hashes

theorem BtcRelay.Extends.refl (relay : BtcRelay blocks) : relay.Extends [] relay :=
  ⟨rfl, rfl, .inl rfl⟩

theorem BtcRelay.Stores.extends_cons {relay₁ : BtcRelay blocks} {hashes : List BlockHash}
    (hstores : relay.Stores hash relay₁) (h : relay₁.Extends hashes relay') :
    relay.Extends (hash :: hashes) relay' := by
  refine ⟨h.initialHeight.trans hstores.initialHeight, ?_, ?_⟩
  · rw [h.stored, hstores.stored, List.reverse_cons, List.append_assoc, List.singleton_append]
  · rcases h.main with hmain | hbest
    · rcases hstores.main with hmain₁ | hbest₁
      · exact .inl (hmain.trans hmain₁)
      · refine .inr (List.mem_cons.mpr (.inl ?_))
        rw [← hbest₁]
        simp only [BtcRelay.bestBlock, hmain]
    · exact .inr (List.mem_cons_of_mem _ hbest)

/-- The headers that follow in the chain are all stored, in one batch. -/
theorem StoredUpTo.storesAll {hashes : List BlockHash} (hall : relay.StoresAll hashes relay')
    (h : StoredUpTo backing relay height) (hhashes : hashes <+: backing.chain.drop height) :
    StoredUpTo backing relay' (height + hashes.length) ∧ relay.Extends hashes relay' := by
  induction hall generalizing height with
  | nil relay => exact ⟨h, .refl relay⟩
  | @cons relay relay₁ relay' hash hashes hstores _ ih =>
    obtain ⟨hhash, hrest⟩ := cons_prefix_drop.mp hhashes
    obtain ⟨hnext, hextends⟩ := ih (h.stores hhash hstores) hrest
    refine ⟨?_, hstores.extends_cons hextends⟩
    rw [List.length_cons, Nat.add_comm hashes.length, ← Nat.add_assoc]
    exact hnext
  | refused hrefused =>
    obtain ⟨hhash, -⟩ := cons_prefix_drop.mp hhashes
    obtain ⟨relay', hstores⟩ := h.exists_stores hhash
    exact absurd hstores (hrefused relay')

theorem BtcRelay.exists_storesAll (relay : BtcRelay blocks) (hashes : List BlockHash) :
    ∃ relay', relay.StoresAll hashes relay' := by
  induction hashes generalizing relay with
  | nil => exact ⟨relay, .nil relay⟩
  | cons hash hashes ih =>
    by_cases hstores : ∃ relay₁, relay.Stores hash relay₁
    · obtain ⟨relay₁, hstores⟩ := hstores
      obtain ⟨relay', hall⟩ := ih relay₁
      exact ⟨relay', .cons hstores hall⟩
    · exact ⟨relay, .refused (not_exists.mp hstores)⟩

/-! ### What is read -/

section Read

theorem eval_isInitialized : (Issuing.isInitialized : Rpc E Bool).run.eval
    (relay.toHeaderStore.answer backing) = .ok true := by
  simp [Issuing.isInitialized, Prog.request, Prog.eval, HeaderStore.answer, Except.map]
  exact relay.bestBlock_ne_zero

/-- The search ends at the first header from the initial height on that is not stored. -/
theorem exists_eval_computeStartHeight {fuel : Nat} (hshares : backing.Shares relay)
    (hbest : relay.bestHeight < backing.chain.length) (hfuel : backing.chain.length < fuel) :
    ∃ height, StoredUpTo backing relay height ∧
      (computeStartHeight fuel : Rpc E (Option Nat)).run.eval
        (relay.toHeaderStore.answer backing) = .ok (some height) := by
  obtain ⟨hash, hmain, hchain⟩ := hshares
  obtain ⟨i, hi⟩ := List.getElem?_of_mem hchain
  have hshared : relay.toHeaderStore.Common backing i := by
    refine ⟨hash, ?_, hi⟩
    rw [← backing.isChain.height hi]
    exact (BtcRelay.mainAt_height hmain).1
  obtain ⟨common, hcommon⟩ := exists_isGreatest hshared
  obtain ⟨top, htopMain, htop⟩ := hcommon.1
  obtain ⟨hmem, hinitial, hle⟩ := mainAt_spec htopMain
  have hpassed : Passed relay.toHeaderStore backing common :=
    ⟨relay.initialHeight_pos.trans_le hinitial, top, htop, relay.main_subset hmem⟩
  obtain ⟨height, hheight, hlen, hbelow, hnot⟩ := exists_not_passed relay.toHeaderStore
    (Nat.le_of_lt (List.getElem?_eq_some_iff.mp htop).1)
  have hlt : common < height := Nat.lt_of_le_of_ne hheight fun heq => hnot (heq ▸ hpassed)
  refine ⟨height, .of_search hinitial hlt hlen (fun hi hilt hhash => ?_) fun hhash hstored => ?_,
    eval_computeStartHeight hcommon hbest hle hheight hbelow hnot (by omega)⟩
  · obtain ⟨-, found, hfound, hstored⟩ := hbelow _ hi hilt
    rw [hhash] at hfound
    exact Option.some.inj hfound ▸ hstored
  · exact hnot ⟨Nat.zero_lt_of_lt hlt, _, hhash, hstored⟩

end Read

/-! ### A call -/

/-- The height up to which blocks have enough confirmations. -/
def BackingChain.confirmed (backing : BackingChain lib blocks) (runner : Runner) : Nat :=
  backing.blockCount - runner.btcConfirmations

/-- A call submits `hashes`, which follow the headers that are stored up to `height`. -/
structure Submits (runner : Runner) (backing : BackingChain lib blocks) (s : State blocks)
    (height : Nat) (hashes : List BlockHash) (s' : State blocks) : Prop where
  storedUpTo : StoredUpTo backing s.relay height
  hashes_eq : hashes = (backing.chain.drop height).take
    (min runner.maxBatchSize (backing.confirmed runner + 1 - height))
  submitted : s'.submitted = s.submitted ++ hashes.map blocks.rawHeader
  storesAll : s.relay.StoresAll hashes s'.relay

/-- The search fails on a chain that is not as high as the main chain, and a call that fails there
submits nothing. -/
def Called (runner : Runner) (backing : BackingChain lib blocks) (s : State blocks)
    (r : Except (Failure (Error E)) (Option Unit)) (s' : State blocks) : Prop :=
  (s.relay.bestHeight < backing.chain.length ∧ r = .ok (some ()) ∧
    ∃ height hashes, Submits runner backing s height hashes s') ∨
  (backing.chain.length ≤ s.relay.bestHeight ∧
    r = .error (.error (.bitcoinError .invalidBitcoinHeight)) ∧ s' = s)

section Call

variable {A B : Type} {s s' : State blocks} {runner : Runner}

theorem batchSize_eq {maxHeight : Nat} (hmax : maxHeight < 2 ^ 32 - 1) :
    runner.batchSize height maxHeight = min runner.maxBatchSize (maxHeight + 1 - height) := by
  have hsucc : saturatingAdd maxHeight 1 = maxHeight + 1 := Nat.min_eq_left hmax
  unfold Runner.batchSize
  rw [hsucc]
  unfold saturatingAdd
  split
  · omega
  · omega

theorem keeps_query (p : Rpc E A) :
    Prog.Keeps (serving backing) (fun _ => True) (query p).run
      (fun r s' => r = (p.run.eval (s.relay.toHeaderStore.answer backing)).mapError Failure.error ∧
        s' = s) s := by
  have hread : Prog.Keeps (serving backing) (fun _ => True)
      (p.run.embed Call.query fun _ r => r)
      (fun r s' => r = p.run.eval (answer backing s.relay) ∧ s' = s) s :=
    Prog.keeps_embed_eval (fun _ _ _ hr => hr) trivial p.run
  refine Prog.keeps_map.mpr (hread.mono fun r s' _ hr => ?_)
  rw [← answer_eq]
  exact ⟨congrArg _ hr.1, hr.2⟩

theorem keeps_query_ok {p : Rpc E A} {f : A → Service E B} {a : A}
    {Q : Except (Failure (Error E)) B → State blocks → Prop}
    (heval : p.run.eval (s.relay.toHeaderStore.answer backing) = .ok a)
    (h : Prog.Keeps (serving backing) (fun _ => True) (f a).run Q s) :
    Prog.Keeps (serving backing) (fun _ => True) (query p >>= f).run Q s := by
  refine Prog.keeps_run_bind.mpr ((keeps_query p).mono fun r s' _ hr => ?_)
  obtain ⟨rfl, rfl⟩ := hr
  rw [heval]
  exact h

theorem keeps_query_error {p : Rpc E A} {f : A → Service E B} {e : Error E}
    {Q : Except (Failure (Error E)) B → State blocks → Prop}
    (heval : p.run.eval (s.relay.toHeaderStore.answer backing) = .error e)
    (h : Q (.error (.error e)) s) :
    Prog.Keeps (serving backing) (fun _ => True) (query p >>= f).run Q s := by
  refine Prog.keeps_run_bind.mpr ((keeps_query p).mono fun r s' _ hr => ?_)
  obtain ⟨rfl, rfl⟩ := hr
  rw [heval]
  exact h

theorem map_hash_rawHeader {hashes : List BlockHash} (hsub : hashes ⊆ backing.chain) :
    (hashes.map blocks.rawHeader).map lib.hash = hashes := by
  rw [List.map_map]
  refine (List.map_congr_left fun hash hmem => ?_).trans (List.map_id hashes)
  exact backing.hash_rawHeader hash (hsub hmem)

theorem keeps_submitBlockHeaderBatch {hashes : List BlockHash} (hsub : hashes ⊆ backing.chain) :
    Prog.Keeps (serving backing) (fun _ => True)
      (Issuing.submitBlockHeaderBatch (hashes.map blocks.rawHeader) : Service E Unit).run
      (fun r s' => r = .ok () ∧ s'.submitted = s.submitted ++ hashes.map blocks.rawHeader ∧
        s.relay.StoresAll hashes s'.relay) s := by
  refine Prog.keeps_map.mpr ⟨trivial, fun r s' hr => ?_⟩
  obtain ⟨rfl, hall, hsubmitted⟩ := hr
  rw [map_hash_rawHeader hsub] at hall
  exact ⟨trivial, rfl, hsubmitted, hall⟩

theorem keeps_submitBlockHeader (hhash : backing.chain[height]? = some hash)
    (h : StoredUpTo backing s.relay height) :
    Prog.Keeps (serving backing) (fun _ => True)
      (Issuing.submitBlockHeader lib (blocks.rawHeader hash) : Service E Unit).run
      (fun r s' => r = .ok () ∧ s'.submitted = s.submitted ++ [blocks.rawHeader hash] ∧
        s.relay.StoresAll [hash] s'.relay) s := by
  have hlib := backing.hash_rawHeader hash (List.mem_of_getElem? hhash)
  have hdelay : (runtime (ask (.delay (lib.sha256 (blocks.rawHeader hash)))) : Rpc E Unit).run.eval
      (s.relay.toHeaderStore.answer backing) = .ok () := by
    simp [Prog.request, Prog.eval, HeaderStore.answer]
  have hstored : (Issuing.isBlockStored (lib.hash (blocks.rawHeader hash)) : Rpc E Bool).run.eval
      (s.relay.toHeaderStore.answer backing) = .ok false := by
    rw [hlib, eval_isBlockStored, decide_eq_false fun hstored => h.fresh hhash hstored.1]
  refine keeps_query_ok hdelay (keeps_query_ok hstored ?_)
  refine Prog.keeps_map.mpr ⟨trivial, fun r s' hr => ?_⟩
  obtain ⟨⟨rfl, hstores⟩ | ⟨-, hrefused, -⟩, hsubmitted⟩ := hr
  · rw [hlib] at hstores
    exact ⟨trivial, rfl, hsubmitted, .cons hstores (.nil _)⟩
  · rw [hlib] at hrefused
    obtain ⟨relay', hstores⟩ := h.exists_stores hhash
    exact absurd hstores (hrefused relay')

theorem keeps_ensureInitialized :
    Prog.Keeps (serving backing) (fun _ => True) (runner.ensureInitialized : Service E Unit).run
      (fun r s' => r = .ok () ∧ s' = s) s :=
  keeps_query_ok eval_isInitialized ⟨trivial, rfl, rfl⟩

theorem BackingChain.confirmed_lt (backing : BackingChain lib blocks) (runner : Runner) :
    backing.confirmed runner < 2 ^ 31 := by
  have hbounded := backing.bounded
  unfold BackingChain.confirmed BackingChain.blockCount
  omega

theorem StoredUpTo.add_batchSize_le (h : StoredUpTo backing relay height) (runner : Runner)
    (hpos : 0 < min runner.maxBatchSize (backing.confirmed runner + 1 - height)) :
    height + min runner.maxBatchSize (backing.confirmed runner + 1 - height) ≤
      backing.chain.length := by
  have hlt := h.initialHeight_lt
  have hlen := h.le_length
  unfold BackingChain.confirmed BackingChain.blockCount at *
  omega

variable (runner) in
theorem keeps_submitNext {fuel : Nat} (hshares : backing.Shares s.relay)
    (hfuel : backing.chain.length < fuel) :
    Prog.Keeps (serving backing) (fun _ => True)
      (runner.submitNext lib fuel : Service E (Option Unit)).run (Called runner backing s) s := by
  refine Prog.keeps_run_bind.mpr (keeps_ensureInitialized.mono fun r s₁ _ hr => ?_)
  obtain ⟨rfl, rfl⟩ := hr
  refine keeps_query_ok (eval_getNumConfirmedBlocks runner) ?_
  rcases Nat.lt_or_ge s₁.relay.bestHeight backing.chain.length with hbest | hbest
  · obtain ⟨height, hheight, heval⟩ :=
      exists_eval_computeStartHeight (E := E) hshares hbest hfuel
    refine keeps_query_ok heval ?_
    dsimp only
    have hsize : runner.batchSize height (backing.blockCount - runner.btcConfirmations) = _ :=
      batchSize_eq (Nat.lt_of_lt_of_le (backing.confirmed_lt runner) (by decide))
    have hle := hheight.add_batchSize_le runner
    have hcalled {hashes : List BlockHash} {s' : State blocks}
        (hhashes : hashes = (backing.chain.drop height).take
          (min runner.maxBatchSize (backing.confirmed runner + 1 - height)))
        (hsubmitted : s'.submitted = s₁.submitted ++ hashes.map blocks.rawHeader)
        (hall : s₁.relay.StoresAll hashes s'.relay) :
        Called (E := E) runner backing s₁ (.ok (some ())) s' :=
      .inl ⟨hbest, rfl, height, hashes, hheight, hhashes, hsubmitted, hall⟩
    change _ = min runner.maxBatchSize (backing.confirmed runner + 1 - height) at hsize
    rw [← hsize] at hle hcalled
    generalize runner.batchSize height (backing.blockCount - runner.btcConfirmations) = n at *
    rcases n with _ | _ | n
    · refine (keeps_query _).mono fun r s' _ hr => ?_
      obtain ⟨rfl, rfl⟩ := hr
      exact hcalled rfl (List.append_nil _).symm (.nil _)
    · have hlt : height < backing.chain.length := hle Nat.one_pos
      have hhash := List.getElem?_eq_getElem hlt
      refine keeps_query_ok (eval_getBlockHeader_some hhash (Nat.zero_lt_of_lt hfuel)) ?_
      refine Prog.keeps_run_map.mpr
        ((keeps_submitBlockHeader hhash hheight).mono fun r s' _ hr => ?_)
      obtain ⟨rfl, hsubmitted, hall⟩ := hr
      have hhashes : [backing.chain[height]] = (backing.chain.drop height).take 1 := by
        rw [List.take_one, List.head?_drop, hhash]
        rfl
      exact hcalled hhashes hsubmitted hall
    · refine keeps_query_ok (eval_collectHeaders (hle (Nat.succ_pos _))) ?_
      have hsub : (backing.chain.drop height).take (n + 2) ⊆ backing.chain :=
        fun _ hmem => List.mem_of_mem_drop (List.mem_of_mem_take hmem)
      refine Prog.keeps_run_map.mpr ((keeps_submitBlockHeaderBatch hsub).mono fun r s' _ hr => ?_)
      obtain ⟨rfl, hsubmitted, hall⟩ := hr
      exact hcalled rfl hsubmitted hall
  · exact keeps_query_error (eval_computeStartHeight_of_short fuel hbest)
      (.inr ⟨hbest, rfl, rfl⟩)

end Call

/-! ### What a call submits -/

section Submission

variable {s s' : State blocks} {runner : Runner} {hashes : List BlockHash}

/-- The headers follow one another in the chain and fit in a batch.  None has been stored before,
but the parent of the first has, and all have enough confirmations. -/
structure Submission (runner : Runner) (backing : BackingChain lib blocks) (s : State blocks)
    (hashes : List BlockHash) (s' : State blocks) : Prop where
  submitted : s'.submitted = s.submitted ++ hashes.map blocks.rawHeader
  stored : s'.relay.stored = hashes.reverse ++ s.relay.stored
  consecutive : hashes <:+: backing.chain
  fresh : ∀ hash ∈ hashes, hash ∉ s.relay.stored
  parent_mem : ∀ hash ∈ hashes.head?, (blocks.block hash).prevBlockhash ∈ s.relay.stored
  length_le : hashes.length ≤ runner.maxBatchSize
  height_le : ∀ hash ∈ hashes, blocks.height hash ≤ backing.confirmed runner

/-- A header that the relay should have by now. -/
structure Missing (runner : Runner) (backing : BackingChain lib blocks) (relay : BtcRelay blocks)
    (hash : BlockHash) : Prop where
  mem : hash ∈ backing.chain
  initialHeight_le : relay.initialHeight ≤ blocks.height hash
  height_le : blocks.height hash ≤ backing.confirmed runner
  not_stored : hash ∉ relay.stored

theorem submission_nil (runner : Runner) (backing : BackingChain lib blocks) (s : State blocks) :
    Submission runner backing s [] s where
  submitted := (List.append_nil _).symm
  stored := rfl
  consecutive := List.nil_infix
  fresh := List.forall_mem_nil _
  parent_mem := fun _ hmem => absurd hmem (Option.not_mem_none _)
  length_le := Nat.zero_le _
  height_le := List.forall_mem_nil _

theorem StoredUpTo.height_le_of_missing (h : StoredUpTo backing relay height)
    (hmissing : Missing runner backing relay hash) : height ≤ blocks.height hash := by
  obtain ⟨i, hi⟩ := List.getElem?_of_mem hmissing.mem
  obtain rfl := backing.isChain.height hi
  by_contra hlt
  refine hmissing.not_stored ((h.mem_iff hi).mpr ⟨hmissing.initialHeight_le, ?_⟩)
  omega

theorem StoredUpTo.unique {height' : Nat} (h : StoredUpTo backing relay height)
    (h' : StoredUpTo backing relay height') : height = height' := by
  have hle {a b : Nat} (ha : StoredUpTo backing relay a) (hb : StoredUpTo backing relay b) :
      b ≤ a := by
    by_contra hlt
    have hinitial := ha.initialHeight_lt
    have hlen := hb.le_length
    have hhash : backing.chain[a]? = some backing.chain[a] := List.getElem?_eq_getElem (by omega)
    exact ha.fresh hhash ((hb.mem_iff hhash).mpr ⟨by omega, by omega⟩)
  exact Nat.le_antisymm (hle h' h) (hle h h')

namespace Submits

variable (h : Submits runner backing s height hashes s')

include h

theorem length_eq :
    hashes.length = min runner.maxBatchSize (backing.confirmed runner + 1 - height) := by
  have hle := h.storedUpTo.add_batchSize_le runner
  rw [h.hashes_eq, List.length_take, List.length_drop]
  omega

theorem getElem?_hashes {i : Nat} (hhash : hashes[i]? = some hash) :
    backing.chain[height + i]? = some hash := by
  rw [h.hashes_eq, List.getElem?_take] at hhash
  split at hhash
  next => rwa [List.getElem?_drop] at hhash
  next => cases hhash

theorem advance : StoredUpTo backing s'.relay (height + hashes.length) ∧
    s.relay.Extends hashes s'.relay := by
  refine h.storedUpTo.storesAll h.storesAll ?_
  rw [h.hashes_eq]
  exact List.take_prefix _ _

theorem submission : Submission runner backing s hashes s' where
  submitted := h.submitted
  stored := h.advance.2.stored
  consecutive := by
    rw [h.hashes_eq]
    exact (List.take_prefix _ _).isInfix.trans (List.drop_suffix _ _).isInfix
  fresh hash hmem hstored := by
    obtain ⟨i, hi⟩ := List.getElem?_of_mem hmem
    have hlt := ((h.storedUpTo.mem_iff (h.getElem?_hashes hi)).mp hstored).2
    omega
  parent_mem hash hmem := by
    rw [List.head?_eq_getElem?] at hmem
    exact h.storedUpTo.parent_mem (h.getElem?_hashes hmem)
  length_le := h.length_eq ▸ Nat.min_le_left _ _
  height_le hash hmem := by
    obtain ⟨i, hi⟩ := List.getElem?_of_mem hmem
    obtain ⟨hlt, -⟩ := List.getElem?_eq_some_iff.mp hi
    rw [h.length_eq] at hlt
    rw [backing.isChain.height (h.getElem?_hashes hi)]
    omega

/-- On the same chain the next call can go on. -/
theorem shares (hshares : backing.Shares s.relay)
    (hbest : s.relay.bestHeight < backing.chain.length) :
    backing.Shares s'.relay ∧ s'.relay.bestHeight < backing.chain.length := by
  obtain ⟨-, hextends⟩ := h.advance
  rcases hextends.main with hmain | hmem
  · obtain ⟨hash, hhash, hchain⟩ := hshares
    refine ⟨⟨hash, hmain ▸ hhash, hchain⟩, ?_⟩
    rw [BtcRelay.bestHeight, hmain, hextends.initialHeight]
    exact hbest
  · obtain ⟨i, hi⟩ := List.getElem?_of_mem hmem
    have hchain := h.getElem?_hashes hi
    obtain ⟨hlt, -⟩ := List.getElem?_eq_some_iff.mp hchain
    refine ⟨.bestBlock (List.mem_of_getElem? hchain), ?_⟩
    rw [← BtcRelay.height_bestBlock, backing.isChain.height hchain]
    exact hlt

theorem ne_nil_of_missing (hbatch : 1 ≤ runner.maxBatchSize)
    (hmissing : Missing runner backing s.relay hash) : hashes ≠ [] := by
  have hle := h.storedUpTo.height_le_of_missing hmissing
  have hconfirmed := hmissing.height_le
  refine List.ne_nil_of_length_pos ?_
  rw [h.length_eq]
  omega

end Submits

end Submission

/-! ### Runs -/

section Runs

/-- A call with the chain during it, the states around it and its result. -/
structure Step (E : Type) (lib : Lib) (blocks : Blocks) where
  backing : BackingChain lib blocks
  before : State blocks
  result : Except (Failure (Error E)) (Option Unit)
  after : State blocks

/-- Calls one after the other.  In between the node may change to any chain that has a header in
common with the main chain of the relay. -/
inductive Calls (E : Type) {lib : Lib} {blocks : Blocks} (runner : Runner) :
    State blocks → List (Step E lib blocks) → State blocks → Prop
  | nil (s : State blocks) : Calls E runner s [] s
  | cons {backing : BackingChain lib blocks} {s s₁ s' : State blocks} {fuel : Nat}
      {r : Except (Failure (Error E)) (Option Unit)} {steps : List (Step E lib blocks)} :
      backing.Shares s.relay → backing.chain.length < fuel →
      Prog.Runs (serving backing) (runner.submitNext lib fuel).run s (.pure r) s₁ →
      Calls E runner s₁ steps s' → Calls E runner s (⟨backing, s, r, s₁⟩ :: steps) s'

variable {s s' : State blocks} {runner : Runner} {steps : List (Step E lib blocks)}

theorem Calls.append {s₁ : State blocks} {steps' : List (Step E lib blocks)}
    (h : Calls E runner s steps s₁) (h' : Calls E runner s₁ steps' s') :
    Calls E runner s (steps ++ steps') s' := by
  induction h with
  | nil s => exact h'
  | cons hshares hfuel hruns _ ih => exact .cons hshares hfuel hruns (ih h')

theorem Calls.called (h : Calls E runner s steps s') :
    ∀ step ∈ steps, Called runner step.backing step.before step.result step.after := by
  induction h with
  | nil s => exact List.forall_mem_nil _
  | cons hshares hfuel hruns _ ih =>
    exact List.forall_mem_cons.mpr ⟨(keeps_submitNext runner hshares hfuel).returns hruns, ih⟩

/-- Where the chain stays the same, every call gets as far as its batch allows. -/
theorem Calls.storedUpTo (hbatch : 1 ≤ runner.maxBatchSize) (h : Calls E runner s steps s')
    (hsame : ∀ step ∈ steps, step.backing = backing)
    (hbest : s.relay.bestHeight < backing.chain.length)
    (hheight : StoredUpTo backing s.relay height) :
    s'.relay.initialHeight = s.relay.initialHeight ∧
      ∃ height', StoredUpTo backing s'.relay height' ∧
        min (height + steps.length) (backing.confirmed runner + 1) ≤ height' := by
  induction h generalizing height with
  | nil s => exact ⟨rfl, height, hheight, Nat.min_le_left _ _⟩
  | @cons backing₁ s s₁ s' fuel r steps hshares hfuel hruns _ ih =>
    obtain ⟨hhead, hsame⟩ := List.forall_mem_cons.mp hsame
    change backing₁ = backing at hhead
    subst hhead
    rcases (keeps_submitNext runner hshares hfuel).returns hruns with
      ⟨-, -, height₁, hashes, hsubmits⟩ | ⟨hshort, -⟩
    · obtain rfl := hheight.unique hsubmits.storedUpTo
      obtain ⟨hnext, hextends⟩ := hsubmits.advance
      obtain ⟨hinitial, height', hheight', hle⟩ :=
        ih hsame (hsubmits.shares hshares hbest).2 hnext
      refine ⟨hinitial.trans hextends.initialHeight, height', hheight', ?_⟩
      have hlength := hsubmits.length_eq
      rw [List.length_cons]
      omega
    · exact absurd hshort (Nat.not_le_of_lt hbest)

theorem exists_serving [Inhabited E] (backing : BackingChain lib blocks) (s : State blocks)
    (c : Call) : ∃ (r : (api E).Answer c) (s' : State blocks), serving backing s c r s' := by
  cases c with
  | query query => exact ⟨answer backing s.relay query, s, rfl, rfl⟩
  | initializeBtcRelay header height => exact ⟨.error default, s, ⟨default, rfl⟩, rfl⟩
  | storeBlockHeader header =>
    by_cases hstores : ∃ relay', s.relay.Stores (lib.hash header) relay'
    · obtain ⟨relay', hstores⟩ := hstores
      exact ⟨.ok (), ⟨relay', s.submitted ++ [header]⟩, .inl ⟨rfl, hstores⟩, rfl⟩
    · exact ⟨.error default, ⟨s.relay, s.submitted ++ [header]⟩,
        .inr ⟨⟨default, rfl⟩, not_exists.mp hstores, rfl⟩, rfl⟩
  | storeBlockHeaders headers =>
    obtain ⟨relay', hall⟩ := s.relay.exists_storesAll (headers.map lib.hash)
    exact ⟨.ok (), ⟨relay', s.submitted ++ headers⟩, rfl, hall, rfl⟩

theorem exists_call [Inhabited E] (runner : Runner) (hshares : backing.Shares s.relay) :
    ∃ (r : Except (Failure (Error E)) (Option Unit)) (s' : State blocks),
      Calls E runner s [⟨backing, s, r, s'⟩] s' ∧ Called runner backing s r s' := by
  obtain ⟨r, s', hruns, hcalled⟩ :=
    (keeps_submitNext (E := E) runner hshares (Nat.lt_succ_self _)).exists_returns
      fun s c _ => exists_serving backing s c
  exact ⟨r, s', .cons hshares (Nat.lt_succ_self _) hruns (.nil s'), hcalled⟩

/-- Any number of calls on one chain can be made, all of which succeed. -/
theorem exists_calls [Inhabited E] (n : Nat) (hshares : backing.Shares s.relay)
    (hbest : s.relay.bestHeight < backing.chain.length) :
    ∃ (steps : List (Step E lib blocks)) (s' : State blocks), Calls E runner s steps s' ∧
      steps.length = n ∧
      ∀ step ∈ steps, step.backing = backing ∧ step.result = .ok (some ()) := by
  induction n generalizing s with
  | zero => exact ⟨[], s, .nil s, rfl, List.forall_mem_nil _⟩
  | succ n ih =>
    obtain ⟨r, s₁, hcall, hcalled⟩ := exists_call (E := E) runner hshares
    rcases hcalled with ⟨-, rfl, height, hashes, hsubmits⟩ | ⟨hshort, -⟩
    · obtain ⟨hshares₁, hbest₁⟩ := hsubmits.shares hshares hbest
      obtain ⟨steps, s', hcalls, rfl, hsteps⟩ := ih hshares₁ hbest₁
      exact ⟨_, s', hcall.append hcalls, rfl, List.forall_mem_cons.mpr ⟨⟨rfl, rfl⟩, hsteps⟩⟩
    · exact absurd hshort (Nat.not_le_of_lt hbest)

theorem exists_storedUpTo (hshares : backing.Shares relay)
    (hbest : relay.bestHeight < backing.chain.length) :
    ∃ height, StoredUpTo backing relay height := by
  obtain ⟨height, hheight, -⟩ :=
    exists_eval_computeStartHeight (E := Empty) hshares hbest (Nat.lt_succ_self _)
  exact ⟨height, hheight⟩

theorem bestHeight_lt_length (hbest : relay.bestHeight ≤ backing.blockCount) :
    relay.bestHeight < backing.chain.length := by
  have hpos := relay.initialHeight_pos
  have hmain := List.length_pos_of_ne_nil relay.main_ne_nil
  unfold BackingChain.blockCount BtcRelay.bestHeight at *
  omega

theorem Called.submission {backing : BackingChain lib blocks}
    {r : Except (Failure (Error E)) (Option Unit)} (h : Called runner backing s r s')
    (hbatch : 1 ≤ runner.maxBatchSize) : ∃ hashes, Submission runner backing s hashes s' ∧
      (s.relay.bestHeight ≤ backing.blockCount → r = .ok (some ()) ∧
        ((∃ hash, Missing runner backing s.relay hash) → hashes ≠ [])) := by
  rcases h with ⟨-, rfl, height, hashes, hsubmits⟩ | ⟨hshort, rfl, rfl⟩
  · refine ⟨hashes, hsubmits.submission, fun _ => ⟨rfl, ?_⟩⟩
    rintro ⟨hash, hmissing⟩
    exact hsubmits.ne_nil_of_missing hbatch hmissing
  · refine ⟨[], submission_nil runner backing s', fun hbest => ?_⟩
    exact absurd (bestHeight_lt_length hbest) (Nat.not_lt_of_le hshort)

theorem Calls.not_missing (hbatch : 1 ≤ runner.maxBatchSize) (h : Calls E runner s steps s')
    (hsame : ∀ step ∈ steps, step.backing = backing) (hshares : backing.Shares s.relay)
    (hbest : s.relay.bestHeight < backing.chain.length)
    (hlong : backing.confirmed runner ≤ s.relay.initialHeight + steps.length) :
    s'.relay.initialHeight = s.relay.initialHeight ∧
      ∀ hash, ¬Missing runner backing s'.relay hash := by
  obtain ⟨height, hheight⟩ := exists_storedUpTo hshares hbest
  obtain ⟨hinitial, height', hheight', hle⟩ := h.storedUpTo hbatch hsame hbest hheight
  refine ⟨hinitial, fun hash hmissing => ?_⟩
  have hlt := hheight.initialHeight_lt
  have hmin := hheight'.height_le_of_missing hmissing
  have hmax := hmissing.height_le
  omega

end Runs

/-! ### Relays of a test network -/

def newRelay : BtcRelay testNet where
  initialHeight := 1
  stored := [firstBlock.hash]
  main := [firstBlock.hash]
  initialHeight_pos := by decide
  main_ne_nil := by decide
  main_subset := by decide +kernel
  main_height := by decide +kernel
  main_isChain := by decide +kernel
  initialHeight_le := forall_mem_of_all (by decide +kernel)
  parent_mem := forall_mem_of_all (by decide +kernel)
  zero_notMem := by decide +kernel

def highRelay : BtcRelay testNet where
  initialHeight := 1
  stored := [thirdBlock.hash, secondBlock.hash, firstBlock.hash]
  main := [firstBlock.hash, secondBlock.hash, thirdBlock.hash]
  initialHeight_pos := by decide
  main_ne_nil := by decide
  main_subset := by decide +kernel
  main_height := by decide +kernel
  main_isChain := by decide +kernel
  initialHeight_le := forall_mem_of_all (by decide +kernel)
  parent_mem := forall_mem_of_all (by decide +kernel)
  zero_notMem := by decide +kernel

/-! ### The runner catches up -/

/-- In every run each call submits headers that the relay can store, and some if one is missing and
the chain is as high as the main chain.  On a chain that stays the same none is missing in the end.
-/
theorem submitNext_catches_up [Inhabited E] (lib : Lib) (blocks : Blocks) (runner : Runner)
    (hbatch : 1 ≤ runner.maxBatchSize) :
    (∀ (s s' : State blocks) (steps : List (Step E lib blocks)), Calls E runner s steps s' →
      ∀ step ∈ steps, ∃ hashes,
        Submission runner step.backing step.before hashes step.after ∧
        (step.before.relay.bestHeight ≤ step.backing.blockCount →
          step.result = .ok (some ()) ∧
          ((∃ hash, Missing runner step.backing step.before.relay hash) → hashes ≠ []))) ∧
    (∀ (backing : BackingChain lib blocks) (s : State blocks), backing.Shares s.relay →
      s.relay.bestHeight ≤ backing.blockCount →
      (∀ n, ∃ (steps : List (Step E lib blocks)) (s' : State blocks), Calls E runner s steps s' ∧
        steps.length = n ∧
        ∀ step ∈ steps, step.backing = backing ∧ step.result = .ok (some ())) ∧
      ∀ (s' : State blocks) (steps : List (Step E lib blocks)), Calls E runner s steps s' →
        (∀ step ∈ steps, step.backing = backing) →
        backing.confirmed runner ≤ s.relay.initialHeight + steps.length →
        s'.relay.initialHeight = s.relay.initialHeight ∧
          ∀ hash, ¬Missing runner backing s'.relay hash) := by
  refine ⟨fun s s' steps hcalls step hmem => ?_, fun backing s hshares hbest => ⟨fun n => ?_, ?_⟩⟩
  · exact (hcalls.called step hmem).submission hbatch
  · exact exists_calls n hshares (bestHeight_lt_length hbest)
  · intro s' steps hcalls hsame hlong
    exact hcalls.not_missing hbatch hsame hshares (bestHeight_lt_length hbest) hlong

/-- One call is enough for the one header that is missing. -/
theorem exists_calls_highChain : ∃ (steps : List (Step String testLib testNet))
    (s' : State testNet), Calls String ⟨none, 1, 1⟩ ⟨newRelay, []⟩ steps s' ∧ steps.length = 1 ∧
      secondBlock.hash ∈ s'.relay.stored := by
  obtain ⟨-, hcatch⟩ := submitNext_catches_up (E := String) testLib testNet ⟨none, 1, 1⟩ (by decide)
  obtain ⟨hexists, hstored⟩ := hcatch highChain ⟨newRelay, []⟩
    ⟨firstBlock.hash, List.mem_cons_self, by decide +kernel⟩ (by decide)
  obtain ⟨steps, s', hcalls, hlength, hsteps⟩ := hexists 1
  refine ⟨steps, s', hcalls, hlength, ?_⟩
  obtain ⟨hinitial, hmissing⟩ := hstored s' steps hcalls (fun step hmem => (hsteps step hmem).1)
    (by rw [hlength]; decide)
  by_contra hmem
  refine hmissing secondBlock.hash ⟨by decide +kernel, ?_, by decide +kernel, hmem⟩
  rw [hinitial]
  decide +kernel

/-- Headers below the initial height are never submitted, nor is any while the main chain of the
relay is higher than the chain of the node. -/
theorem not_always_submits :
    (¬∀ (s s' : State testNet) (steps : List (Step String testLib testNet)),
      Calls String ⟨none, 16, 0⟩ s steps s' → ∀ step ∈ steps,
        step.before.relay.bestHeight ≤ step.backing.blockCount →
        (∃ hash ∈ step.backing.chain, testNet.height hash ≤ step.backing.confirmed ⟨none, 16, 0⟩ ∧
          hash ∉ step.before.relay.stored) →
        step.after.submitted ≠ step.before.submitted) ∧
    ¬∀ (s s' : State testNet) (steps : List (Step String testLib testNet)),
      Calls String ⟨none, 16, 0⟩ s steps s' → ∀ step ∈ steps,
        (∃ hash, Missing ⟨none, 16, 0⟩ step.backing step.before.relay hash) →
        step.after.submitted ≠ step.before.submitted := by
  constructor
  · intro hclaim
    have hshares : highChain.Shares highRelay :=
      ⟨firstBlock.hash, by decide +kernel, by decide +kernel⟩
    obtain ⟨r, s', hcall, hcalled⟩ :=
      exists_call (E := String) (s := ⟨highRelay, []⟩) ⟨none, 16, 0⟩ hshares
    obtain ⟨hashes, hsubmission, -⟩ := hcalled.submission (by decide)
    have hbest : highRelay.bestHeight ≤ highChain.blockCount := by decide
    have hgenesis : genesis.hash ∈ highChain.chain ∧
        testNet.height genesis.hash ≤ highChain.confirmed ⟨none, 16, 0⟩ ∧
        genesis.hash ∉ highRelay.stored := by decide +kernel
    refine hclaim _ _ _ hcall _ List.mem_cons_self hbest ⟨genesis.hash, hgenesis⟩ ?_
    rcases hashes with _ | ⟨hash, hashes⟩
    · exact hsubmission.submitted.trans (List.append_nil _)
    -- the only header that is not stored is the genesis block's, which has no parent
    have hchain := hsubmission.consecutive.subset List.mem_cons_self
    have hfresh := hsubmission.fresh hash List.mem_cons_self
    have hparent := hsubmission.parent_mem hash rfl
    have hstored : ∀ hash ∈ highChain.chain, hash ∉ highRelay.stored →
        (testNet.block hash).prevBlockhash ∉ highRelay.stored :=
      forall_mem_of_all (by decide +kernel)
    exact absurd hparent (hstored hash hchain hfresh)
  · intro hclaim
    have hshares : forkChain.Shares highRelay :=
      ⟨firstBlock.hash, by decide +kernel, by decide +kernel⟩
    obtain ⟨r, s', hcall, hcalled⟩ :=
      exists_call (E := String) (s := ⟨highRelay, []⟩) ⟨none, 16, 0⟩ hshares
    have hmissing : Missing ⟨none, 16, 0⟩ forkChain highRelay forkBlock.hash :=
      ⟨by decide +kernel, by decide +kernel, by decide +kernel, by decide +kernel⟩
    refine hclaim _ _ _ hcall _ List.mem_cons_self ⟨forkBlock.hash, hmissing⟩ ?_
    rcases hcalled with ⟨hbest, -⟩ | ⟨-, -, rfl⟩
    · exact absurd hbest (by decide)
    · rfl

end InterBtcClients.Relay
