import InterBtcClients.Relay.StartHeight

/-! The call of the runner that initialises the relay: the headers that it initialises the relay
with and those that it submits, on a chain of any height.  The number of confirmations is checked
when the start height is worked out, but not when it is configured. -/

namespace InterBtcClients.Relay.Initialization

open Library
open Bitcoin (BlockHash)
open Bitcoin.Light (Failure expectSome)

variable {E A B : Type} {lib : Lib}

/-! ### The surroundings -/

/-- A chain that the node stays on while the runner is called, with the headers of its blocks. -/
structure NodeChain where
  chain : List BlockHash
  rawHeader : BlockHash → RawBlockHeader
  ne_nil : chain ≠ []
  length_le : chain.length ≤ 2 ^ 32

namespace NodeChain

variable (node : NodeChain)

/-- The height of its last block. -/
def blockCount : Nat := node.chain.length - 1

/-- The header is that of the chain at the height. -/
def HeaderAt (header : RawBlockHeader) (height : Nat) : Prop :=
  ∃ hash, node.chain[height]? = some hash ∧ header = node.rawHeader hash

/-- The node answers from its chain.  Of the parachain only the hash of the best block matters,
which is 0 as long as the relay is not initialised.  Any request may fail. -/
def Answers (isInitialized : Bool) : (query : Query) → (queries E).Answer query → Prop
  | .getBlockCount, r => ∀ count, r = .ok count → count = node.blockCount
  | .getBlockHash height, r => (∀ hash, r = .ok hash → node.chain[height]? = some hash) ∧
    (r = .error .invalidBitcoinHeight → node.chain.length ≤ height)
  | .getBlockHeader hash, r => ∀ header, r = .ok header → header = node.rawHeader hash
  | .getBestBlock, r => ∀ hash, r = .ok hash → (hash = 0 ↔ isInitialized = false)
  | _, _ => True

end NodeChain

/-- Whether the relay is initialised, the headers that it was to be initialised with, each with the
height that was passed with it, and the headers that were submitted. -/
structure World where
  isInitialized : Bool
  initialized : List (RawBlockHeader × Nat)
  submitted : List RawBlockHeader

def World.start : World := ⟨false, [], []⟩

/-- The parachain accepts what it is sent or not, and anyone may initialise the relay. -/
def opening (node : NodeChain) : Prog.Env (api E) World
  | w, .query query, r, w' => node.Answers w.isInitialized query r ∧
    w'.initialized = w.initialized ∧ w'.submitted = w.submitted
  | w, .initializeBtcRelay header height, _, w' =>
    w'.initialized = w.initialized ++ [(header, height)] ∧ w'.submitted = w.submitted
  | w, .storeBlockHeader header, _, w' => w'.initialized = w.initialized ∧
    w'.submitted = w.submitted ++ [header]
  | w, .storeBlockHeaders headers, _, w' => w'.initialized = w.initialized ∧
    w'.submitted = w.submitted ++ headers

/-- A header of the chain with enough confirmations. -/
def ConfirmedHeader (runner : Runner) (node : NodeChain) (header : RawBlockHeader) : Prop :=
  ∃ height, node.HeaderAt header height ∧ height + runner.btcConfirmations ≤ node.blockCount

/-- Every header that the relay is initialised with is that of the chain at the height that is
passed with it, and has enough confirmations, as has every header that is submitted. -/
structure Confirmed (runner : Runner) (node : NodeChain) (w : World) : Prop where
  initialized : ∀ header height, (header, height) ∈ w.initialized →
    node.HeaderAt header height ∧ height + runner.btcConfirmations ≤ node.blockCount
  submitted : ∀ header ∈ w.submitted, ConfirmedHeader runner node header

/-- The height that the relay is to be initialised at. -/
def NodeChain.initialHeight (node : NodeChain) (runner : Runner) : Nat :=
  runner.startHeight.getD (node.blockCount - runner.btcConfirmations)

variable (E) in
/-- Wherever a call on a relay that is not initialised has got to, all headers that it has sent are
confirmed, and it does not panic. -/
def Safe (lib : Lib) (runner : Runner) (node : NodeChain) : Prop :=
  ∀ fuel p w, Prog.Runs (opening (E := E) node) (runner.submitNext lib fuel).run .start p w →
    Confirmed runner node w ∧ ∀ message, p ≠ .pure (.error (.panic message))

/-! ### What is read -/

section Reads

variable {node : NodeChain} {height : Nat}

/-- The surroundings of a part that only reads. -/
def reading (node : NodeChain) : Prog.Env (queries E) Unit :=
  fun _ query r _ => ∃ isInitialized, node.Answers isInitialized query r

/-- Every result of the program meets `P`. -/
def Reads (node : NodeChain) (p : Rpc E A) (P : A → Prop) : Prop :=
  Prog.Keeps (reading node) (fun _ => True) p.run
    (fun r _ => ∀ a, r = .ok a → P a) ()

theorem reads_pure {a : A} {P : A → Prop} (h : P a) :
    Reads node (pure a : Rpc E A) P :=
  ⟨trivial, fun _ ha => Except.ok.inj ha ▸ h⟩

theorem Reads.bind {p : Rpc E A} {f : A → Rpc E B} {P : A → Prop} {Q : B → Prop}
    (hp : Reads node p P) (hf : ∀ a, P a → Reads node (f a) Q) :
    Reads node (p >>= f) Q := by
  refine Prog.keeps_run_bind.mpr (Prog.Keeps.mono hp fun r _ _ hr => ?_)
  cases r with
  | ok a => exact hf a (hr a rfl)
  | error e => exact nofun

theorem Reads.map {p : Rpc E A} {P : B → Prop} (f : A → B)
    (hp : Reads node p fun a => P (f a)) :
    Reads node (f <$> p) P := by
  rw [← bind_pure_comp]
  exact hp.bind fun a ha => reads_pure ha

theorem reads_any (p : Rpc E A) : Reads node p fun _ => True :=
  Prog.keeps_of_forall (fun _ => trivial) (fun _ _ _ _ => trivial) p.run

theorem reads_bitcoin {request : Prog (queries E) (Except (Bitcoin.Core.Error E) A)} {P : A → Prop}
    (h : Prog.Keeps (reading node) (fun _ => True) request
      (fun r _ => ∀ a, r = .ok a → P a) ()) :
    Reads node (bitcoin request) P :=
  Prog.keeps_map.mpr (h.mono fun _ _ _ hr a ha => hr a (Prog.mapError_eq_ok ha))

theorem reads_getNumConfirmedBlocks (runner : Runner) :
    Reads node (runner.getNumConfirmedBlocks : Rpc E Nat)
      fun confirmed => confirmed = node.blockCount - runner.btcConfirmations := by
  have hrequest : Reads node (bitcoin (ask .getBlockCount) : Rpc E Nat)
      fun count => count = node.blockCount :=
    reads_bitcoin ⟨trivial, fun _ _ ⟨_, hr⟩ => ⟨trivial, hr⟩⟩
  have hcount : Reads node (Backing.getBlockCount : Rpc E Nat)
      fun count => count = node.blockCount := by
    refine hrequest.bind fun count hcount => reads_pure ?_
    have hlength := node.length_le
    unfold NodeChain.blockCount at hcount ⊢
    omega
  exact hcount.bind fun count hcount => reads_pure (congrArg (· - _) hcount)

/-- No header is found only above the last block. -/
theorem reads_getBlockHeader (height : Nat) :
    Reads node (Backing.getBlockHeader height : Rpc E (Option RawBlockHeader))
      fun header => (∀ found, header = some found → node.HeaderAt found height) ∧
        (header = none → node.chain.length ≤ height) := by
  refine Reads.bind (P := fun r => (∀ hash, r = .ok hash → node.chain[height]? = some hash) ∧
    (r = .error .invalidBitcoinHeight → node.chain.length ≤ height)) ?_ fun r hr => ?_
  · exact Prog.keeps_run_lift.mpr
      ⟨trivial, fun r _ ⟨_, hr⟩ => ⟨trivial, fun _ heq => Except.ok.inj heq ▸ hr⟩⟩
  · match r, hr with
    | .ok hash, hr =>
      refine Reads.map some (reads_bitcoin ⟨trivial, fun r _ ⟨_, hheader⟩ => ⟨trivial, ?_⟩⟩)
      rintro header rfl
      refine ⟨fun found hfound => ⟨hash, hr.1 hash rfl, ?_⟩, nofun⟩
      rw [← Option.some.inj hfound]
      exact hheader header rfl
    | .error e, hr =>
      cases e with
      | invalidBitcoinHeight => exact reads_pure ⟨nofun, fun _ => hr.2 rfl⟩
      | _ => exact ⟨trivial, nofun⟩

theorem reads_getBlockHeader_wait (fuel height : Nat) :
    Reads node (Runner.getBlockHeader fuel height : Rpc E (Option RawBlockHeader))
      fun header => ∀ found, header = some found → node.HeaderAt found height := by
  have hround : Reads node
      (Runner.getBlockHeaderRound height : Rpc E (Unit ⊕ RawBlockHeader))
      fun r => ∀ found, r = .inr found → node.HeaderAt found height := by
    refine (reads_getBlockHeader height).bind fun header hheader => ?_
    cases header with
    | some header =>
      exact reads_pure fun found hfound => hheader.1 found (congrArg some (Sum.inr.inj hfound))
    | none => exact (reads_any (ExceptT.lift (ask .sleep))).bind fun _ _ => reads_pure nofun
  refine Prog.keeps_run_iterate (fun _ _ => True) (fun _ _ _ => ?_) ?_ fuel trivial
  · refine Prog.Keeps.mono hround fun r _ _ hr => ?_
    match r, hr with
    | .ok (.inl ()), _ => trivial
    | .ok (.inr header), hr =>
      intro result hresult found hfound
      cases hresult
      exact hr _ rfl found (congrArg Sum.inr (Option.some.inj hfound))
    | .error e, _ => exact nofun
  · rintro _ _ _ _ ⟨⟩
    exact nofun

theorem reads_mapM {X : Type} {f : X → Rpc E A} {P : A → Prop} {xs : List X}
    (hf : ∀ x ∈ xs, Reads node (f x) P) :
    Reads node (xs.mapM f) fun as => ∀ a ∈ as, P a := by
  induction xs with
  | nil => exact reads_pure (List.forall_mem_nil _)
  | cons x xs ih =>
    rw [List.forall_mem_cons] at hf
    rw [List.mapM_cons]
    exact hf.1.bind fun a ha => (ih hf.2).bind fun as has =>
      reads_pure (List.forall_mem_cons.mpr ⟨ha, has⟩)

theorem reads_collectHeaders (height batch : Nat) :
    Reads node (collectHeaders height batch : Rpc E (List RawBlockHeader))
      fun headers => ∀ header ∈ headers, ∃ h, height ≤ h ∧ h < height + batch ∧
        node.HeaderAt header h := by
  refine reads_mapM fun h hh => ?_
  obtain ⟨hle, hlt⟩ := List.mem_range'_1.mp hh
  have hmod := Nat.mod_le (height + batch) (2 ^ 32)
  refine (reads_getBlockHeader h).bind fun header hheader => ?_
  cases header with
  | some header => exact reads_pure ⟨h, hle, by omega, hheader.1 header rfl⟩
  | none => exact ⟨trivial, nofun⟩

end Reads

/-! ### The call -/

section Call

variable {node : NodeChain} {runner : Runner} {w : World} {header : RawBlockHeader} {height : Nat}

def NoPanic (r : Except (Failure (Error E)) A) : Prop := ∀ message, r ≠ .error (.panic message)

theorem noPanic_mapError (r : Except (Error E) A) : NoPanic (r.mapError Failure.error) := by
  cases r with
  | ok a => exact nofun
  | error e => exact nofun

theorem confirmed_start : Confirmed runner node .start :=
  ⟨fun _ _ => nofun, fun _ => nofun⟩

theorem Confirmed.congr {w' : World} (h : Confirmed runner node w)
    (hinitialized : w'.initialized = w.initialized) (hsubmitted : w'.submitted = w.submitted) :
    Confirmed runner node w' :=
  ⟨by rw [hinitialized]; exact h.initialized, by rw [hsubmitted]; exact h.submitted⟩

/-- Reading changes nothing that counts. -/
theorem keeps_read {p : Prog (queries E) A} {P : A → Prop}
    (hp : Prog.Keeps (reading node) (fun _ => True) p (fun a _ => P a) ())
    (hw : Confirmed runner node w) :
    Prog.Keeps (opening node) (Confirmed runner node) (p.embed Call.query fun _ r => r)
      (fun a w' => P a ∧ Confirmed runner node w') w := by
  induction p generalizing w with
  | pure a => exact ⟨hw, hp.2, hw⟩
  | call query next ih =>
    refine ⟨hw, fun r w' hr => ?_⟩
    obtain ⟨hanswer, hinitialized, hsubmitted⟩ := hr
    exact ih r (hp.2 r () ⟨_, hanswer⟩) (hw.congr hinitialized hsubmitted)

theorem keeps_query_bind {p : Rpc E A} {P : A → Prop} {f : A → Service E B}
    (hp : Reads node p P) (hw : Confirmed runner node w)
    (hf : ∀ a w, P a → Confirmed runner node w →
      Prog.Keeps (opening node) (Confirmed runner node) (f a).run (fun r _ => NoPanic r) w) :
    Prog.Keeps (opening node) (Confirmed runner node) (query p >>= f).run
      (fun r _ => NoPanic r) w := by
  refine Prog.keeps_run_bind.mpr (Prog.keeps_map.mpr ((keeps_read hp hw).mono fun r w' _ hr => ?_))
  cases r with
  | ok a => exact hf a w' (hr.1 a rfl) hr.2
  | error e => exact nofun

theorem keeps_query {p : Rpc E A} {P : A → Prop} (hp : Reads node p P)
    (hw : Confirmed runner node w) :
    Prog.Keeps (opening node) (Confirmed runner node) (query p).run (fun r _ => NoPanic r) w :=
  Prog.keeps_map.mpr ((keeps_read hp hw).mono fun r _ _ _ => noPanic_mapError r)

theorem keeps_some {p : Service E A}
    (h : Prog.Keeps (opening node) (Confirmed runner node) p.run (fun r _ => NoPanic r) w) :
    Prog.Keeps (opening node) (Confirmed runner node) (some <$> p).run
      (fun r _ => NoPanic r) w := by
  refine Prog.keeps_run_map.mpr (h.mono fun r _ _ hr message hpanic => ?_)
  exact hr message (Prog.map_eq_error hpanic)

theorem keeps_tell {request : Prog (api E) (Except E Unit)}
    (h : Prog.Keeps (opening node) (Confirmed runner node) request (fun _ _ => True) w) :
    Prog.Keeps (opening node) (Confirmed runner node) (tell request).run
      (fun r _ => NoPanic r) w := by
  refine Prog.keeps_map.mpr (h.mono fun r _ _ _ => ?_)
  cases r with
  | ok a => exact nofun
  | error e => exact nofun

theorem Confirmed.submit {w' : World} {headers : List RawBlockHeader} (h : Confirmed runner node w)
    (hinitialized : w'.initialized = w.initialized)
    (hsubmitted : w'.submitted = w.submitted ++ headers)
    (hheaders : ∀ header ∈ headers, ConfirmedHeader runner node header) :
    Confirmed runner node w' := by
  refine ⟨by rw [hinitialized]; exact h.initialized, ?_⟩
  rw [hsubmitted]
  exact List.forall_mem_append.mpr ⟨h.submitted, hheaders⟩

theorem NodeChain.HeaderAt.lt (h : node.HeaderAt header height) : height ≤ node.blockCount := by
  obtain ⟨hash, hhash, -⟩ := h
  have hlt := (List.getElem?_eq_some_iff.mp hhash).1
  unfold NodeChain.blockCount
  omega

/-- No header of a batch is above the height up to which headers are confirmed. -/
theorem confirmed_of_lt_batch {current h : Nat}
    (hconfirmations : runner.btcConfirmations ≤ node.blockCount)
    (hlt : h < current + runner.batchSize current (node.blockCount - runner.btcConfirmations))
    (hle : current ≤ h) (hheader : node.HeaderAt header h) :
    h + runner.btcConfirmations ≤ node.blockCount := by
  have hh := hheader.lt
  have hlength := node.length_le
  have hcount : node.blockCount ≤ 2 ^ 32 - 1 := Nat.sub_le_sub_right hlength 1
  unfold Runner.batchSize saturatingAdd at hlt
  split at hlt
  · omega
  · omega

theorem keeps_ensureInitialized_of_confirmed
    (hconfirmed : node.initialHeight runner + runner.btcConfirmations ≤ node.blockCount)
    (hw : Confirmed runner node w) :
    Prog.Keeps (opening node) (Confirmed runner node)
      (runner.ensureInitialized : Service E Unit).run (fun r _ => NoPanic r) w := by
  refine keeps_query_bind (reads_any _) hw fun found w _ hw => ?_
  cases found with
  | true => exact ⟨hw, nofun⟩
  | false =>
    refine keeps_query_bind (reads_getNumConfirmedBlocks runner) hw fun _ w hcount hw => ?_
    subst hcount
    refine keeps_query_bind (reads_getBlockHeader _) hw fun header w hheader hw => ?_
    cases header with
    | none =>
      have hlength := hheader.2 rfl
      have hpos := List.length_pos_of_ne_nil node.ne_nil
      change node.chain.length ≤ node.initialHeight runner at hlength
      unfold NodeChain.blockCount at hconfirmed
      omega
    | some header =>
      refine keeps_tell ⟨hw, fun r w' ⟨hinitialized, hsubmitted⟩ => ?_⟩
      refine ⟨⟨fun found height hmem => ?_, by rw [hsubmitted]; exact hw.submitted⟩, trivial⟩
      rw [hinitialized, List.mem_append, List.mem_singleton] at hmem
      rcases hmem with hmem | hmem
      · exact hw.initialized found height hmem
      · cases hmem
        exact ⟨hheader.1 header rfl, hconfirmed⟩

theorem keeps_submitBlockHeader_of_confirmed (hw : Confirmed runner node w)
    (hheader : ConfirmedHeader runner node header) :
    Prog.Keeps (opening node) (Confirmed runner node)
      (Issuing.submitBlockHeader lib header : Service E Unit).run (fun r _ => NoPanic r) w := by
  refine keeps_query_bind (reads_any _) hw fun _ w _ hw => ?_
  refine keeps_query_bind (reads_any _) hw fun stored w _ hw => ?_
  cases stored with
  | true => exact ⟨hw, nofun⟩
  | false =>
    refine keeps_tell ⟨hw, fun r w' ⟨hinitialized, hsubmitted⟩ => ⟨?_, trivial⟩⟩
    exact hw.submit hinitialized hsubmitted (List.forall_mem_singleton.mpr hheader)

theorem keeps_submitBlockHeaderBatch_of_confirmed {headers : List RawBlockHeader}
    (hw : Confirmed runner node w)
    (hheaders : ∀ header ∈ headers, ConfirmedHeader runner node header) :
    Prog.Keeps (opening node) (Confirmed runner node)
      (Issuing.submitBlockHeaderBatch headers : Service E Unit).run (fun r _ => NoPanic r) w :=
  keeps_tell ⟨hw, fun _ _ ⟨hinitialized, hsubmitted⟩ =>
    ⟨hw.submit hinitialized hsubmitted hheaders, trivial⟩⟩

variable (lib) in
theorem keeps_submitNext_of_confirmed
    (hconfirmed : node.initialHeight runner + runner.btcConfirmations ≤ node.blockCount)
    (fuel : Nat)
    (hw : Confirmed runner node w) :
    Prog.Keeps (opening node) (Confirmed runner node)
      (runner.submitNext lib fuel : Service E (Option Unit)).run (fun r _ => NoPanic r) w := by
  have hconfirmations : runner.btcConfirmations ≤ node.blockCount := by omega
  refine Prog.keeps_run_bind.mpr
    ((keeps_ensureInitialized_of_confirmed hconfirmed hw).mono fun r w hw hr => ?_)
  cases r with
  | error e =>
    exact fun message hpanic => hr message (congrArg Except.error (Except.error.inj hpanic))
  | ok _ =>
    refine keeps_query_bind (reads_getNumConfirmedBlocks runner) hw fun _ w hcount hw => ?_
    subst hcount
    refine keeps_query_bind (reads_any _) hw fun current w _ hw => ?_
    cases current with
    | none => exact ⟨hw, nofun⟩
    | some current =>
      have hbatch {header : RawBlockHeader} {h : Nat} (hlt : h < current +
          runner.batchSize current (node.blockCount - runner.btcConfirmations)) (hle : current ≤ h)
          (hheader : node.HeaderAt header h) : h + runner.btcConfirmations ≤ node.blockCount :=
        confirmed_of_lt_batch hconfirmations hlt hle hheader
      dsimp only
      generalize runner.batchSize current (node.blockCount - runner.btcConfirmations) = n at hbatch
      match n with
      | 0 => exact keeps_query (reads_any _) hw
      | 1 =>
        refine keeps_query_bind (reads_getBlockHeader_wait fuel current) hw
          fun header w hheader hw => ?_
        cases header with
        | none => exact ⟨hw, nofun⟩
        | some header =>
          have hheader := hheader header rfl
          exact keeps_some (keeps_submitBlockHeader_of_confirmed hw
            ⟨current, hheader, hbatch (Nat.lt_succ_self _) le_rfl hheader⟩)
      | n + 2 =>
        refine keeps_query_bind (reads_collectHeaders current (n + 2)) hw
          fun headers w hheaders hw => ?_
        refine keeps_some (keeps_submitBlockHeaderBatch_of_confirmed hw fun header hmem => ?_)
        obtain ⟨h, hle, hlt, hheader⟩ := hheaders header hmem
        exact ⟨h, hheader, hbatch hlt hle hheader⟩

/-- Where every height is confirmed that the relay can be initialised at, all headers are. -/
theorem safe_of_confirmed
    (hconfirmed : node.initialHeight runner + runner.btcConfirmations ≤ node.blockCount) :
    Safe E lib runner node := by
  intro fuel p w hruns
  have hkeeps := (keeps_submitNext_of_confirmed (E := E) lib hconfirmed fuel
    confirmed_start).runs hruns
  refine ⟨hkeeps.inv, ?_⟩
  rintro message rfl
  exact hkeeps.2 message rfl

end Call

/-! ### A call in which every request succeeds -/

section Respond

variable {node : NodeChain} {runner : Runner} {w : World} {header : RawBlockHeader} {height : Nat}

/-- The parachain has no headers but accepts all. -/
def respond (node : NodeChain) (w : World) : (call : Call) → (api E).Answer call × World
  | .query .getBlockCount => (.ok node.blockCount, w)
  | .query (.getBlockHash height) =>
    (node.chain[height]?.elim (.error .invalidBitcoinHeight) .ok, w)
  | .query (.getBlockHeader hash) => (.ok (node.rawHeader hash), w)
  | .query .getBestBlock => (.ok (if w.isInitialized then 1 else 0), w)
  | .query .getBestBlockHeight => (.ok 0, w)
  | .query (.getRelayBlockHash _) => (.ok 0, w)
  | .query (.getRelayBlockHeader _) => (.ok ⟨0⟩, w)
  | .query (.delay _) => (.ok (), w)
  | .query .sleep => ((), w)
  | .initializeBtcRelay header height =>
    (.ok (), ⟨true, w.initialized ++ [(header, height)], w.submitted⟩)
  | .storeBlockHeader header => (.ok (), { w with submitted := w.submitted ++ [header] })
  | .storeBlockHeaders headers => (.ok (), { w with submitted := w.submitted ++ headers })

theorem opening_respond (node : NodeChain) (w : World) (call : Call) :
    opening node w call (respond (E := E) node w call).1 (respond (E := E) node w call).2 := by
  cases call with
  | query query =>
    cases query with
    | getBlockCount => exact ⟨fun _ h => (Except.ok.inj h).symm, rfl, rfl⟩
    | getBlockHash height =>
      refine ⟨⟨fun hash h => ?_, fun h => ?_⟩, rfl, rfl⟩
      · dsimp only [respond] at h
        cases hhash : node.chain[height]? with
        | none =>
          rw [hhash] at h
          cases h
        | some found =>
          rw [hhash] at h
          exact congrArg some (Except.ok.inj h)
      · dsimp only [respond] at h
        cases hhash : node.chain[height]? with
        | none => exact List.getElem?_eq_none_iff.mp hhash
        | some found =>
          rw [hhash] at h
          cases h
    | getBlockHeader hash => exact ⟨fun _ h => (Except.ok.inj h).symm, rfl, rfl⟩
    | getBestBlock =>
      refine ⟨fun hash h => ?_, rfl, rfl⟩
      rw [← Except.ok.inj h]
      cases w.isInitialized with
      | false => exact iff_of_true rfl rfl
      | true => exact iff_of_false (by decide) Bool.noConfusion
    | _ => exact ⟨trivial, rfl, rfl⟩
  | _ => exact ⟨rfl, rfl⟩

/-- The answers to what is read. -/
def told (node : NodeChain) (w : World) (query : Query) : (queries E).Answer query :=
  (respond node w (.query query)).1

theorem exec_query (p : Rpc E A) : (query p).run.exec (respond node) w =
    ((p.run.eval (told node w)).mapError Failure.error, w) := by
  have hread (p : Prog (queries E) (Except (Error E) A)) :
      Prog.exec (F := api E) (respond node) (p.embed Call.query fun _ r => r) w =
        (p.eval (told node w), w) := by
    induction p with
    | pure a => rfl
    | call query next ih =>
      cases query <;> exact ih _
  rw [query, ExceptT.run_mk, ← bind_pure_comp, Prog.exec_bind, hread]
  rfl

theorem eval_getBlockHeader_told (height : Nat) :
    (Backing.getBlockHeader height : Rpc E (Option RawBlockHeader)).run.eval (told node w) =
      .ok (node.chain[height]?.map node.rawHeader) := by
  cases hhash : node.chain[height]? with
  | none => simp [Backing.getBlockHeader, Prog.request, Prog.eval, told, respond, hhash]
  | some hash =>
    simp [Backing.getBlockHeader, bitcoin, Prog.request, Prog.eval, told, respond, hhash]

theorem eval_getNumConfirmedBlocks_told (runner : Runner) :
    (runner.getNumConfirmedBlocks : Rpc E Nat).run.eval (told node w) =
      .ok (node.blockCount - runner.btcConfirmations) := by
  have hlt : node.blockCount < 2 ^ 32 := by
    have hlength := node.length_le
    unfold NodeChain.blockCount
    omega
  simp [Runner.getNumConfirmedBlocks, Backing.getBlockCount, bitcoin, Prog.request, Prog.eval, told,
    respond]
  omega

/-- The first part of the call panics if there is no block at the height, and initialises the relay
otherwise. -/
theorem exec_ensureInitialized :
    (runner.ensureInitialized : Service E Unit).run.exec (respond node) .start =
      match node.chain[node.initialHeight runner]? with
      | some hash => (.ok (), ⟨true, [(node.rawHeader hash, node.initialHeight runner)], []⟩)
      | none => (.error (.panic "called `Option::unwrap()` on a `None` value"), .start) := by
  have hfound : (query Issuing.isInitialized : Service E Bool).run.exec (respond node) .start =
      (.ok false, .start) := exec_query _
  have hcount :
      (query runner.getNumConfirmedBlocks : Service E Nat).run.exec (respond node) .start =
      (.ok (node.blockCount - runner.btcConfirmations), .start) := by
    rw [exec_query, eval_getNumConfirmedBlocks_told]
    rfl
  have hheader : (query (Backing.getBlockHeader (node.initialHeight runner)) :
      Service E (Option RawBlockHeader)).run.exec (respond node) .start =
      (.ok (node.chain[node.initialHeight runner]?.map node.rawHeader), .start) := by
    rw [exec_query, eval_getBlockHeader_told]
    rfl
  rw [Runner.ensureInitialized, Prog.exec_run_bind_ok hfound, if_neg Bool.false_ne_true,
    Prog.exec_run_bind_ok hcount]
  refine (Prog.exec_run_bind_ok hheader).trans ?_
  cases node.chain[node.initialHeight runner]? with
  | some hash => rfl
  | none => rfl

theorem mem_initialized_exec {entry : RawBlockHeader × Nat} (p : Prog (api E) A)
    (h : entry ∈ w.initialized) : entry ∈ (p.exec (respond node) w).2.initialized := by
  refine Prog.exec_inv (I := fun w : World => entry ∈ w.initialized) (fun w call h => ?_) p h
  cases call with
  | query query => cases query <;> exact h
  | initializeBtcRelay header height => exact List.mem_append_left _ h
  | _ => exact h

/-- A call that is safe even if every request succeeds initialises the relay at a confirmed height.
-/
theorem confirmed_of_safe (h : Safe E lib runner node) :
    node.initialHeight runner + runner.btcConfirmations ≤ node.blockCount := by
  have hruns := Prog.runs_exec (opening_respond (E := E) node) (runner.submitNext lib 0).run .start
  obtain ⟨hconfirmed, hpanic⟩ := h 0 _ _ hruns
  have hfirst : (runner.ensureInitialized : Service E Unit).run.exec (respond node) .start = _ :=
    exec_ensureInitialized
  cases hhash : node.chain[node.initialHeight runner]? with
  | some hash =>
    rw [hhash] at hfirst
    rw [Runner.submitNext, Prog.exec_run_bind_ok hfirst] at hconfirmed
    exact (hconfirmed.initialized _ _ (mem_initialized_exec _ (List.mem_singleton_self _))).2
  | none =>
    rw [hhash] at hfirst
    rw [Runner.submitNext, Prog.exec_run_bind_error hfirst] at hpanic
    exact absurd rfl (hpanic _)

end Respond

/-- Initialising the relay is safe if and only if the height that is configured, or worked out, has
enough confirmations. -/
theorem submitNext_safe_iff (lib : Lib) (runner : Runner) (node : NodeChain) :
    Safe E lib runner node ↔
    runner.startHeight.getD (node.blockCount - runner.btcConfirmations) + runner.btcConfirmations ≤
      node.blockCount :=
  ⟨confirmed_of_safe, safe_of_confirmed⟩

/-- A chain of the blocks 1 and 2. -/
def twoBlocks : NodeChain where
  chain := [1, 2]
  rawHeader hash := Bitcoin.toBytes 32 hash.toNat
  ne_nil := List.cons_ne_nil 1 [2]
  length_le := Nat.le_of_ble_eq_true rfl

/-- A start height above the last block makes the runner panic.  One with too few confirmations is
taken as it is, and so is the first block when no other has enough. -/
theorem not_submitNext_safe : ¬Safe String testLib ⟨some 2, 16, 0⟩ twoBlocks ∧
    ¬Safe String testLib ⟨some 1, 16, 1⟩ twoBlocks ∧ ¬Safe String testLib ⟨none, 16, 6⟩ twoBlocks :=
  ⟨fun h => absurd (confirmed_of_safe h) (by decide),
    fun h => absurd (confirmed_of_safe h) (by decide),
    fun h => absurd (confirmed_of_safe h) (by decide)⟩

end InterBtcClients.Relay.Initialization
