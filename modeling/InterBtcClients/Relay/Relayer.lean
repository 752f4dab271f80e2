import InterBtcClients.Library.Phase
import InterBtcClients.Relay.Runner

/-! The task of the relay, which calls the runner again and again.  Any request may fail, and the
node may change its chain at any time: what the task sends to the parachain is what it has been told
since it last sent something. -/

namespace InterBtcClients.Relay.Relayer

open Library
open Bitcoin (BlockHash)
open Bitcoin.Light (Failure)

/-! ### The program -/

/-- The errors that the task looks for. -/
structure ErrorKinds (E : Type) where
  isDuplicateBlock : E → Bool
  isRpcDisconnectError : E → Bool
  isTransportError : Bitcoin.Core.Error E → Bool

inductive Ending
  | clientShutdown
  | panicked (message : String)
  /-- A call of the runner with a loop that has not ended. -/
  | unfinished

section Program

variable {E : Type} (kinds : ErrorKinds E)

def handle : Except (Failure (Error E)) (Option Unit) → Unit ⊕ Ending
  | .ok (some ()) => .inl ()
  | .ok none => .inr .unfinished
  | .error (.panic message) => .inr (.panicked message)
  | .error (.error (.runtimeError err)) =>
    if kinds.isDuplicateBlock err then .inl ()
    else if kinds.isRpcDisconnectError err then .inr .clientShutdown
    else .inl ()
  | .error (.error (.bitcoinError err)) =>
    if kinds.isTransportError err then .inr .clientShutdown else .inl ()
  | .error (.error _) => .inl ()

/-- A round of its loop. -/
def runRelayer (runner : Runner) (lib : Lib) (fuel : Nat) (_ : Unit) :
    Prog (api E) (Unit ⊕ Ending) :=
  handle kinds <$> (runner.submitNext lib fuel).run

end Program

/-! ### What the task is held to -/

section Policy

variable {E : Type}

def isQuery (e : Prog.Event (api E)) : Bool :=
  match e.call with
  | .query _ => true
  | _ => false

/-- The query has been answered so since anything was sent. -/
def Answered (log : List (Prog.Event (api E))) (query : Query) (r : (queries E).Answer query) :
    Prop :=
  Prog.AnsweredSince isQuery log (.query query) r

/-- The node has told that the header is the one at the height. -/
def Told (log : List (Prog.Event (api E))) (height : Nat) (header : RawBlockHeader) : Prop :=
  ∃ hash, Answered log (.getBlockHash height) (.ok hash) ∧
    Answered log (.getBlockHeader hash) (.ok header)

/-- The number of blocks that have enough confirmations. -/
def Counted (runner : Runner) (log : List (Prog.Event (api E))) (maxHeight : Nat) : Prop :=
  ∃ count, Answered log .getBlockCount (.ok count) ∧
    maxHeight = count % 2 ^ 32 - runner.btcConfirmations

/-- The parachain has not stored the header. -/
def Lacks (log : List (Prog.Event (api E))) (hash : BlockHash) : Prop :=
  ∃ head, Answered log (.getRelayBlockHeader hash) (.ok head) ∧ head.blockHeight = 0

/-- The parachain has not stored the block that the node has at the height, if it has one. -/
def Next (log : List (Prog.Event (api E))) (height : Nat) : Prop :=
  (∃ hash, Answered log (.getBlockHash height) (.ok hash) ∧ Lacks log hash) ∨
  ∃ err, Answered log (.getBlockHash height) (.error err)

/-- The headers are those of the blocks from the next height on, all of them confirmed.  The largest
height is that of no block. -/
def MaySubmit (runner : Runner) (log : List (Prog.Event (api E))) (headers : List RawBlockHeader) :
    Prop :=
  headers.length ≤ runner.maxBatchSize ∧ ∃ height maxHeight, Next log height ∧
    Counted runner log maxHeight ∧
    List.Forall₂ (fun h header => Told log h header ∧ (maxHeight < 2 ^ 32 - 1 → h ≤ maxHeight))
      (List.range' height headers.length) headers

/-- The relay has no block yet, and the header is that of the height at which it is to start. -/
def MayInitialize (runner : Runner) (log : List (Prog.Event (api E))) (header : RawBlockHeader)
    (height : Nat) : Prop :=
  Answered log .getBestBlock (.ok 0) ∧ Told log height header ∧
  ∃ confirmed, Counted runner log confirmed ∧ height = runner.startHeight.getD confirmed

/-- What may be sent after the events so far. -/
def policy (runner : Runner) (lib : Lib) (log : List (Prog.Event (api E))) : Call → Prop
  | .query _ => True
  | .initializeBtcRelay header height => MayInitialize runner log header height
  | .storeBlockHeader header => MaySubmit runner log [header] ∧ Lacks log (lib.hash header)
  | .storeBlockHeaders headers => MaySubmit runner log headers

/-- What is asked before something is sent. -/
def phase (E : Type) : Prog.Phase (queries E) (api E) where
  on := Call.query
  answer _ r := r
  kind := isQuery
  kind_on _ _ := rfl

end Policy

section Queries

open Prog.Phase (ensures_pure ensures_throw ensures_bind ensures_map ensures_lift ensures_mapError
  ensures_mono ensures_of_free ensures_iterate ensures_mapM)

variable {E A B : Type} {runner : Runner} {lib : Lib} {log log' : List (Prog.Event (api E))}
variable {height : Nat}

abbrev Grows (runner : Runner) (lib : Lib) (log log' : List (Prog.Event (api E))) : Prop :=
  (phase E).Grows (policy runner lib) log log'

/-- A program that only asks leads to `P`, if it does not fail. -/
abbrev Ensures (runner : Runner) (lib : Lib) (p : Rpc E A)
    (P : A → List (Prog.Event (api E)) → Prop) (log : List (Prog.Event (api E))) : Prop :=
  (phase E).Ensures (policy runner lib) (fun _ _ => True) p P log

theorem Answered.grows {query : Query} {r : (queries E).Answer query} (h : Answered log query r)
    (hgrows : Grows runner lib log log') : Answered log' query r :=
  Prog.Phase.Grows.answered hgrows h

theorem Told.grows {header : RawBlockHeader} (h : Told log height header)
    (hgrows : Grows runner lib log log') : Told log' height header := by
  obtain ⟨hash, hhash, hheader⟩ := h
  exact ⟨hash, hhash.grows hgrows, hheader.grows hgrows⟩

theorem Counted.grows {maxHeight : Nat} (h : Counted runner log maxHeight)
    (hgrows : Grows runner lib log log') : Counted runner log' maxHeight := by
  obtain ⟨count, hcount, heq⟩ := h
  exact ⟨count, hcount.grows hgrows, heq⟩

theorem Lacks.grows {hash : BlockHash} (h : Lacks log hash) (hgrows : Grows runner lib log log') :
    Lacks log' hash := by
  obtain ⟨head, hhead, hzero⟩ := h
  exact ⟨head, hhead.grows hgrows, hzero⟩

theorem Next.grows (h : Next log height) (hgrows : Grows runner lib log log') :
    Next log' height := by
  rcases h with ⟨hash, hhash, hlacks⟩ | ⟨err, herr⟩
  · exact .inl ⟨hash, hhash.grows hgrows, hlacks.grows hgrows⟩
  · exact .inr ⟨err, herr.grows hgrows⟩

theorem meets_ask {query : Query} {Q : (queries E).Answer query → List (Prog.Event (api E)) → Prop}
    (hlog : Prog.Obeys (policy runner lib) log) (hQ : ∀ r log', Answered log' query r → Q r log') :
    (phase E).Meets (policy runner lib) (fun _ _ => True) (ask query) Q log :=
  Prog.Phase.meets_request hlog (fun _ _ => trivial) fun _ log' r _ _ _ _ h => hQ r log' h

theorem ensures_getNumConfirmedBlocks (hlog : Prog.Obeys (policy runner lib) log) :
    Ensures runner lib runner.getNumConfirmedBlocks (fun n log => Counted runner log n) log := by
  have hcount : Ensures runner lib (bitcoin (ask .getBlockCount))
      (fun count log => Answered log .getBlockCount (.ok count)) log :=
    ensures_mapError (meets_ask hlog fun r log' h a ha => by
      cases ha
      exact h)
  refine ensures_bind (ensures_bind hcount fun count log₁ hlog₁ _ h => ensures_pure hlog₁
    (P := fun n log => ∃ count, Answered log .getBlockCount (.ok count) ∧ n = count % 2 ^ 32)
    ⟨count, h, rfl⟩) fun n log₁ hlog₁ _ h => ?_
  obtain ⟨count, hanswered, rfl⟩ := h
  exact ensures_pure hlog₁ ⟨count, hanswered, rfl⟩

/-! ### Headers -/

theorem ensures_getBlockHeader (hlog : Prog.Obeys (policy runner lib) log) :
    Ensures runner lib (Backing.getBlockHeader height)
      (fun found log => ∀ header, found = some header → Told log height header) log := by
  refine ensures_bind (P := fun r log => Answered log (.getBlockHash height) r)
    (ensures_lift (meets_ask hlog fun _ _ h => h)) fun r log₁ hlog₁ _ hhash => ?_
  split
  next hash =>
    have hheader : Ensures runner lib (bitcoin (ask (.getBlockHeader hash)))
        (fun header log => Answered log (.getBlockHeader hash) (.ok header)) log₁ :=
      ensures_mapError (meets_ask hlog₁ fun r log' h a ha => by
        cases ha
        exact h)
    refine ensures_map (ensures_mono hheader.grows fun header log₂ h found hfound => ?_)
    cases hfound
    exact ⟨hash, hhash.grows h.2, h.1⟩
  next => exact ensures_pure hlog₁ fun _ h => by cases h
  next => exact ensures_throw hlog₁

theorem ensures_collectHeaders {batch : Nat} (hlog : Prog.Obeys (policy runner lib) log) :
    Ensures runner lib (collectHeaders height batch) (fun headers log =>
      List.Forall₂ (fun h header => Told log h header)
        (List.range' height ((height + batch) % 2 ^ 32 - height)) headers) log := by
  refine ensures_mapM (P := fun h header log => Told log h header)
    (fun _ _ _ _ hgrows h => h.grows hgrows) hlog fun h log₁ hlog₁ _ => ?_
  refine ensures_bind (ensures_getBlockHeader hlog₁) fun found log₂ hlog₂ _ hfound => ?_
  cases found with
  | none => exact ensures_throw hlog₂
  | some header => exact ensures_pure hlog₂ (hfound header rfl)

/-- The wait for the block of a height. -/
theorem ensures_getBlockHeader_wait (fuel : Nat) (hlog : Prog.Obeys (policy runner lib) log) :
    Ensures runner lib (Runner.getBlockHeader fuel height)
      (fun found log => ∀ header, found = some header → Told log height header) log := by
  refine ensures_iterate (P := fun header log => Told log height header)
    (fun _ log₁ hlog₁ _ => ?_) hlog fuel ()
  refine ensures_bind (ensures_getBlockHeader hlog₁) fun found log₂ hlog₂ _ hfound => ?_
  cases found with
  | none =>
    refine ensures_bind (P := fun _ _ => True) (ensures_of_free (fun _ _ => trivial) hlog₂)
      fun _ log₃ hlog₃ _ _ => ensures_pure hlog₃ fun _ h => by cases h
  | some header =>
    refine ensures_pure hlog₂ fun header' h => ?_
    cases h
    exact hfound header rfl

/-! ### The search -/

theorem ensures_isBlockStored {hash : BlockHash} (hlog : Prog.Obeys (policy runner lib) log) :
    Ensures runner lib (Issuing.isBlockStored hash)
      (fun stored log => stored = false → Lacks log hash) log := by
  have hhead : Ensures runner lib (runtime (ask (.getRelayBlockHeader hash)))
      (fun head log => Answered log (.getRelayBlockHeader hash) (.ok head)) log :=
    ensures_mapError (meets_ask hlog fun r log' h a ha => by
      cases ha
      exact h)
  refine ensures_bind hhead fun head log₁ hlog₁ _ h => ensures_pure hlog₁ fun hnot => ?_
  exact ⟨head, h, by simpa using hnot⟩

theorem ensures_forwardRound (hlog : Prog.Obeys (policy runner lib) log) :
    Ensures runner lib (forwardRound height)
      (fun r log => ∀ found, r = .inr found → Next log found) log := by
  have hhash : Ensures runner lib (ExceptT.lift (Backing.getBlockHash (E := E) height).run)
      (fun r log => Next log height ∨ ∃ hash, r = .ok hash ∧
        Answered log (.getBlockHash height) (.ok hash)) log := by
    refine ensures_lift (Prog.keeps_map.mpr ((meets_ask hlog fun r log' h => h).mono
      fun r log₁ _ h => ?_))
    cases r with
    | ok hash => exact .inr ⟨hash, rfl, h⟩
    | error err => exact .inl (.inr ⟨err, h⟩)
  refine ensures_bind hhash fun r log₁ hlog₁ _ hr => ?_
  split
  next hash =>
    refine ensures_bind (ensures_isBlockStored hlog₁).grows fun stored log₂ hlog₂ _ h => ?_
    obtain ⟨hlacks, hgrows⟩ := h
    cases stored with
    | true => exact ensures_pure hlog₂ fun _ h => by cases h
    | false =>
      refine ensures_pure hlog₂ fun found h => ?_
      cases h
      rcases hr with hnext | ⟨hash', heq, hanswered⟩
      · exact hnext.grows hgrows
      · cases heq
        exact .inl ⟨hash, hanswered.grows hgrows, hlacks rfl⟩
  next =>
    refine ensures_pure hlog₁ fun found h => ?_
    cases h
    rcases hr with hnext | ⟨hash, heq, -⟩
    · exact hnext
    · cases heq

theorem ensures_computeStartHeight (fuel : Nat) (hlog : Prog.Obeys (policy runner lib) log) :
    Ensures runner lib (computeStartHeight fuel)
      (fun found log => ∀ height, found = some height → Next log height) log := by
  have hfree {X : Type} (p : Rpc E X) {log : List (Prog.Event (api E))}
      (hlog : Prog.Obeys (policy runner lib) log) : Ensures runner lib p (fun _ _ => True) log :=
    ensures_of_free (fun _ _ => trivial) hlog
  refine ensures_bind (hfree _ hlog) fun bestHeight log₁ hlog₁ _ _ => ?_
  refine ensures_bind (hfree _ hlog₁) fun relayHash log₂ hlog₂ _ _ => ?_
  refine ensures_bind (hfree _ hlog₂) fun btcHash log₃ hlog₃ _ _ => ?_
  refine ensures_bind (hfree _ hlog₃) fun startHeight log₄ hlog₄ _ _ => ?_
  exact ensures_iterate (P := fun height log => Next log height)
    (fun _ _ hlog' _ => ensures_forwardRound hlog') hlog₄ fuel startHeight

end Queries

/-! ### What is sent -/

section Service

open Prog.Phase (ensures_pure ensures_bind ensures_mapError ensures_of_free)

variable {E A B : Type} {runner : Runner} {lib : Lib} {log : List (Prog.Event (api E))}
variable {height : Nat} {P : A → List (Prog.Event (api E)) → Prop}
variable {Q : B → List (Prog.Event (api E)) → Prop}

/-- Whatever it is answered, the program keeps to the policy, and it leads to `P` if it does not
fail. -/
def Sends (runner : Runner) (lib : Lib) (p : Service E A)
    (P : A → List (Prog.Event (api E)) → Prop) (log : List (Prog.Event (api E))) : Prop :=
  Prog.Keeps (Prog.logged fun _ => True) (Prog.Obeys (policy runner lib)) p.run
    (fun r log => ∀ a, r = .ok a → P a log) log

theorem sends_pure {a : A} (hlog : Prog.Obeys (policy runner lib) log) (h : P a log) :
    Sends runner lib (Pure.pure a : Service E A) P log :=
  ⟨hlog, fun a' ha => by
    cases ha
    exact h⟩

theorem sends_bind {p : Service E A} {f : A → Service E B} (hp : Sends runner lib p P log)
    (hf : ∀ a log', Prog.Obeys (policy runner lib) log' → P a log' →
      Sends runner lib (f a) Q log') : Sends runner lib (p >>= f) Q log := by
  refine Prog.keeps_run_bind.mpr (Prog.Keeps.mono hp fun r log' hlog' hr => ?_)
  cases r with
  | ok a => exact hf a log' hlog' (hr a rfl)
  | error e => exact fun _ h => by cases h

theorem sends_query {p : Rpc E A} (h : Ensures runner lib p P log) :
    Sends runner lib (query p) (fun a log' => P a log' ∧ Grows runner lib log log') log :=
  Prog.keeps_map.mpr ((Prog.keeps_embed_of_part (h.grows.alone Prog.Phase.Grows.refl)).mono
    fun _ _ _ hr a ha => hr a (Prog.mapError_eq_ok ha))

theorem sends_tell {request : Prog (api E) (Except E Unit)}
    (h : Prog.Keeps (Prog.logged fun _ => True) (Prog.Obeys (policy runner lib)) request
      (fun _ _ => True) log) : Sends runner lib (tell request) (fun _ _ => True) log :=
  Prog.keeps_map.mpr (h.mono fun _ _ _ _ _ _ => trivial)

theorem sends_map {p : Service E A} {f : A → B} (h : Sends runner lib p (fun _ _ => True) log) :
    Sends runner lib (f <$> p) (fun _ _ => True) log :=
  Prog.keeps_run_map.mpr (Prog.Keeps.mono h fun _ _ _ _ _ _ => trivial)

theorem sends_any {p : Rpc E A} (hlog : Prog.Obeys (policy runner lib) log) :
    Sends runner lib (query p) (fun _ _ => True) log :=
  Prog.Keeps.mono (sends_query (ensures_of_free (fun _ _ => trivial) hlog))
    fun _ _ _ _ _ _ => trivial

theorem ensures_isInitialized (hlog : Prog.Obeys (policy runner lib) log) :
    Ensures runner lib Issuing.isInitialized
      (fun found log => found = false → Answered log .getBestBlock (.ok 0)) log := by
  have hbest : Ensures runner lib (runtime (ask .getBestBlock))
      (fun hash log => Answered log .getBestBlock (.ok hash)) log :=
    ensures_mapError (meets_ask hlog fun r log' h a ha => by
      cases ha
      exact h)
  refine ensures_bind hbest fun hash log₁ hlog₁ _ h => ensures_pure hlog₁ fun hnot => ?_
  obtain rfl : hash = 0 := by simpa using hnot
  exact h

theorem sends_ensureInitialized (hlog : Prog.Obeys (policy runner lib) log) :
    Sends (E := E) runner lib runner.ensureInitialized (fun _ _ => True) log := by
  refine sends_bind (sends_query (ensures_isInitialized hlog)) fun found log₁ hlog₁ hbest => ?_
  cases found with
  | true => exact sends_pure hlog₁ trivial
  | false =>
    have hbest := hbest.1 rfl
    refine sends_bind (sends_query (ensures_getNumConfirmedBlocks hlog₁))
      fun confirmed log₂ hlog₂ hcounted => ?_
    refine sends_bind (sends_query (ensures_getBlockHeader hlog₂)) fun header log₃ hlog₃ htold => ?_
    cases header with
    | none => exact ⟨hlog₃, fun _ h => by cases h⟩
    | some header =>
      refine sends_tell (Prog.keeps_logged_request hlog₃ ⟨?_, ?_, confirmed, ?_, rfl⟩
        fun _ _ => trivial)
      · exact hbest.grows (hcounted.2.trans htold.2)
      · exact htold.1 header rfl
      · exact hcounted.1.grows htold.2

theorem batchSize_le (runner : Runner) (current maxHeight : Nat) :
    runner.batchSize current maxHeight ≤ runner.maxBatchSize := by
  unfold Runner.batchSize saturatingAdd
  split <;> omega

theorem le_of_lt_batch {current maxHeight h : Nat} (hmax : maxHeight < 2 ^ 32 - 1)
    (hlt : h < current + runner.batchSize current maxHeight) (hle : current ≤ h) :
    h ≤ maxHeight := by
  unfold Runner.batchSize saturatingAdd at hlt
  split at hlt <;> omega

theorem sends_submitBlockHeader {header : RawBlockHeader}
    (hlog : Prog.Obeys (policy runner lib) log) (hmay : ∀ log', Grows runner lib log log' →
      MaySubmit runner log' [header]) :
    Sends (E := E) runner lib (Issuing.submitBlockHeader lib header) (fun _ _ => True) log := by
  refine sends_bind (sends_query (P := fun _ _ => True) (ensures_of_free (fun _ _ => trivial) hlog))
    fun _ log₁ hlog₁ hdelay => ?_
  refine sends_bind (sends_query (ensures_isBlockStored hlog₁)) fun stored log₂ hlog₂ hlacks => ?_
  cases stored with
  | true => exact sends_pure hlog₂ trivial
  | false =>
    exact sends_tell (Prog.keeps_logged_request hlog₂
      ⟨hmay log₂ (hdelay.2.trans hlacks.2), hlacks.1 rfl⟩ fun _ _ => trivial)

theorem sends_submitNext (fuel : Nat) (hlog : Prog.Obeys (policy runner lib) log) :
    Sends (E := E) runner lib (runner.submitNext lib fuel) (fun _ _ => True) log := by
  refine sends_bind (sends_ensureInitialized hlog) fun _ log₁ hlog₁ _ => ?_
  refine sends_bind (sends_query (ensures_getNumConfirmedBlocks hlog₁))
    fun maxHeight log₂ hlog₂ hcounted => ?_
  refine sends_bind (sends_query (ensures_computeStartHeight fuel hlog₂))
    fun found log₃ hlog₃ hfound => ?_
  cases found with
  | none => exact sends_pure hlog₃ trivial
  | some height =>
    have hnext : Next log₃ height := hfound.1 height rfl
    have hcounted : Counted runner log₃ maxHeight := hcounted.1.grows hfound.2
    have hsize := batchSize_le runner height maxHeight
    have hconfirmed {h : Nat} (hlt : h < height + runner.batchSize height maxHeight)
        (hle : height ≤ h) : maxHeight < 2 ^ 32 - 1 → h ≤ maxHeight :=
      fun hmax => le_of_lt_batch hmax hlt hle
    dsimp only
    generalize runner.batchSize height maxHeight = n at hsize hconfirmed
    rcases n with _ | _ | n
    · exact sends_any hlog₃
    · refine sends_bind (sends_query (ensures_getBlockHeader_wait fuel hlog₃))
        fun header log₄ hlog₄ htold => ?_
      cases header with
      | none => exact sends_pure hlog₄ trivial
      | some header =>
        refine sends_map (sends_submitBlockHeader hlog₄ fun log₅ hgrows => ?_)
        have hgrows' := htold.2.trans hgrows
        refine ⟨hsize, height, maxHeight, hnext.grows hgrows', hcounted.grows hgrows', ?_⟩
        exact .cons ⟨(htold.1 header rfl).grows hgrows, hconfirmed (Nat.lt_succ_self height) le_rfl⟩
          .nil
    · refine sends_bind (sends_query (ensures_collectHeaders hlog₃))
        fun headers log₄ hlog₄ hheaders => ?_
      obtain ⟨htold, hgrows⟩ := hheaders
      have hlength := htold.length_eq
      rw [List.length_range'] at hlength
      refine sends_map (sends_tell (Prog.keeps_logged_request hlog₄ ?_ fun _ _ => trivial))
      refine ⟨by omega, height, maxHeight, hnext.grows hgrows, hcounted.grows hgrows, ?_⟩
      rw [← hlength]
      refine ((List.forall₂_and_left _ _).mpr ⟨fun h hmem => hconfirmed ?_ ?_, htold⟩).imp
        fun _ _ h => ⟨h.2, h.1⟩
      · have hlt := (List.mem_range'_1.mp hmem).2
        omega
      · exact (List.mem_range'_1.mp hmem).1

/-- In every run of the task, whatever it is answered, it sends only what it has been told since it
last sent something: to a relay without a block the header of its start height, and afterwards the
confirmed headers of its node from the first one on that the parachain lacks. -/
theorem submits_of_loopRuns {kinds : ErrorKinds E} {fuel : Nat} {p : Prog (api E) (Unit ⊕ Ending)}
    (h : Prog.LoopRuns (Prog.logged fun _ => True) (runRelayer kinds runner lib fuel)
      (runRelayer kinds runner lib fuel ()) [] p log) : Prog.Obeys (policy runner lib) log := by
  have hround (log : List (Prog.Event (api E))) (hlog : Prog.Obeys (policy runner lib) log) :
      Prog.Keeps (Prog.logged fun _ => True) (Prog.Obeys (policy runner lib))
        (runRelayer kinds runner lib fuel ())
        (Sum.elim (fun _ _ => True) fun _ _ => True) log := by
    refine Prog.keeps_map.mpr (Prog.Keeps.mono (sends_submitNext fuel hlog) fun r _ _ _ => ?_)
    cases handle kinds r <;> trivial
  exact (Prog.Keeps.loopRuns (fun _ log hlog _ => hround log hlog)
    (hround [] Prog.obeys_nil) h).inv

end Service

/-! ### A relay that is initialised and given a batch -/

def testKinds : ErrorKinds Unit where
  isDuplicateBlock _ := false
  isRpcDisconnectError _ := false
  isTransportError _ := false

def testLib : Lib where
  sha256 _ := 0
  hash header := BitVec.ofNat 256 (header.headD 0).toNat

def testRunner : Runner where
  startHeight := some 0
  maxBatchSize := 16
  btcConfirmations := 0

/-- The node has three blocks, of which the parachain stores the first one. -/
def reply : (call : Call) → (api Unit).Answer call
  | .query .getBlockCount => .ok 2
  | .query (.getBlockHash height) =>
    if height < 3 then .ok (BitVec.ofNat 256 (height + 1)) else .error .invalidBitcoinHeight
  | .query (.getBlockHeader hash) => .ok [UInt8.ofNat hash.toNat]
  | .query .getBestBlock => .ok 0
  | .query .getBestBlockHeight => .ok 0
  | .query (.getRelayBlockHash _) => .ok 1
  | .query (.getRelayBlockHeader hash) => .ok ⟨if hash = 1 then 1 else 0⟩
  | .query (.delay _) => .ok ()
  | .query .sleep => ()
  | .initializeBtcRelay _ _ => .ok ()
  | .storeBlockHeader _ => .ok ()
  | .storeBlockHeaders _ => .ok ()

def answer (log : List (Prog.Event (api Unit))) (call : Call) :
    (api Unit).Answer call × List (Prog.Event (api Unit)) :=
  (reply call, log ++ [⟨call, reply call⟩])

/-- The events of a round. -/
def firstRound : List (Prog.Event (api Unit)) :=
  ((runRelayer testKinds testRunner testLib 8 ()).exec answer []).2

def isBatch (headers : List RawBlockHeader) (e : Prog.Event (api Unit)) : Bool :=
  match e.call with
  | .storeBlockHeaders headers' => headers' = headers
  | _ => false

def isStart (header : RawBlockHeader) (e : Prog.Event (api Unit)) : Bool :=
  match e.call with
  | .initializeBtcRelay header' height => header' = header ∧ height = 0
  | _ => false

theorem submits_of_loopRuns_firstRound : Prog.Obeys (policy testRunner testLib) firstRound ∧
    firstRound.any (isStart [1]) = true ∧ firstRound.any (isBatch [[2], [3]]) = true := by
  have hanswer (log : List (Prog.Event (api Unit))) (call : Call) :
      Prog.logged (fun _ => True) log call (answer log call).1 (answer log call).2 :=
    ⟨trivial, rfl⟩
  have hruns := Prog.runs_exec hanswer (runRelayer testKinds testRunner testLib 8 ()) []
  exact ⟨submits_of_loopRuns hruns.loopRuns, by decide +kernel, by decide +kernel⟩

end InterBtcClients.Relay.Relayer
