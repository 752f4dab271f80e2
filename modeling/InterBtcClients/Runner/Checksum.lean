import InterBtcClients.Runner.Runner

/-! The binaries that the runner spawns, and the checksums of the releases that it records for
them. -/

namespace InterBtcClients.Runner

open Library InterBtcClients.Runtime

/-- A child that was spawned, with the content of its file and the release recorded at the time. -/
structure Spawned where
  child : Child
  content : Bytes
  recorded : Option DownloadedRelease

/-- The fields of the runner, the files, the children that have not exited, with a history: all that
were spawned and the release that was last read from the parachain. -/
structure World where
  childProc : Option Child
  downloadedRelease : Option DownloadedRelease
  release : Option ClientRelease
  files : PathBuf → Option Bytes
  alive : List Child
  spawned : List Spawned

namespace World

/-- A new runner, with the files that it finds. -/
def start (files : PathBuf → Option Bytes) : World := ⟨none, none, none, files, [], []⟩

def setFile (w : World) (path : PathBuf) (content : Option Bytes) : World :=
  { w with files := fun p => if p = path then content else w.files p }

def spawn (w : World) (child : Child) (content : Bytes) : World :=
  { w with
    alive := child :: w.alive
    spawned := ⟨child, content, w.downloadedRelease⟩ :: w.spawned }

end World

/-- What a file holds after `bytes` are written at its start. -/
def overwrite (old bytes : Bytes) : Bytes := bytes ++ old.drop bytes.length

section Env

variable {E : Type}

/-- Children may exit before any call, and every call may fail; a failed write may have written a
part. -/
def env : Prog.Env (api E) World := fun w call r w' => ∃ alive, alive ⊆ w.alive ∧
  let w := { w with alive }
  match call, r with
  | .childProc, r => r = w.childProc ∧ w' = w
  | .setChildProc child, _ => w' = { w with childProc := child }
  | .downloadedRelease, r => r = w.downloadedRelease ∧ w' = w
  | .setDownloadedRelease release, _ => w' = { w with downloadedRelease := release }
  | .readChainStorage, .ok (some release) => w' = { w with release := some release }
  | .readFile path, .ok content => w.files path = some content ∧ w' = w
  | .openFile path, .ok _ => w' = w.setFile path (some ((w.files path).getD []))
  | .writeAll path bytes, .ok _ =>
      w' = w.setFile path (some (overwrite ((w.files path).getD []) bytes))
  | .writeAll path bytes, .error _ => ∃ written,
      w' = w.setFile path (some (overwrite ((w.files path).getD []) (bytes.take written)))
  | .removeFile path, .ok _ => w' = w.setFile path none
  | .spawn path _, .ok child => child ∉ w.alive ∧
      ∃ content, w.files path = some content ∧ w' = w.spawn child content
  | .wait child, .ok _ => child ∉ w.alive ∧ w' = w
  | .tryWait child, .ok exited => (exited = true → child ∉ w.alive) ∧ w' = w
  | _, _ => w' = w

/-- What is served for a release, written over the file that its path had before, has the checksum
of the release. -/
def Genuine (setup : Setup E) (w : World) : (call : Call) → (api E).Answer call → Prop
  | .writeAll path bytes, .ok _ => ∀ release, w.release = some release →
      setup.sha256 (overwrite ((w.files path).getD []) bytes) = release.checksum
  | _, _ => True

/-- The surroundings in which all downloads are genuine. -/
def genuineEnv (setup : Setup E) : Prog.Env (api E) World := fun w call r w' =>
  env w call r w' ∧ Genuine setup w call r

/-- Every child that was spawned has the checksum of the release recorded for it. -/
def Verified (setup : Setup E) (w : World) : Prop :=
  ∀ spawned ∈ w.spawned, ∃ release,
    spawned.recorded = some release ∧ setup.sha256 spawned.content = release.checksum

/-- The recorded release is on disk, with its checksum. -/
def Recorded (setup : Setup E) (w : World) : Prop :=
  ∃ release content, w.downloadedRelease = some release ∧ w.files release.path = some content ∧
    setup.sha256 content = release.checksum

end Env

/-! ### What the functions of the runner keep -/

section Invariant

variable {E A : Type} {setup : Setup E} {w w' : World}

/-- All but the child of the runner and those that are alive are the same. -/
structure Kept (w w' : World) : Prop where
  downloadedRelease : w'.downloadedRelease = w.downloadedRelease
  release : w'.release = w.release
  files : w'.files = w.files
  spawned : w'.spawned = w.spawned

theorem Verified.kept (h : Verified setup w) (hkept : Kept w w') : Verified setup w' := by
  rwa [Verified, hkept.spawned]

theorem keeps_ask {call : Call} {Q : Except (Error E) ((api E).Answer call) → World → Prop} :
    Prog.Keeps (genuineEnv setup) (Verified setup) (ask call).run Q w ↔
      Verified setup w ∧ ∀ r w', genuineEnv setup w call r w' →
        Verified setup w' ∧ Q (.ok r) w' :=
  Prog.keeps_run_lift

theorem keeps_tryAsk {p : Prog (api E) (Except E A)} {Q : Except (Error E) A → World → Prop} :
    Prog.Keeps (genuineEnv setup) (Verified setup) (tryAsk p).run Q w ↔
      Prog.Keeps (genuineEnv setup) (Verified setup) p
        (fun r => Q (r.mapError Error.system)) w :=
  Prog.keeps_map

theorem only_tryAsk {P : Call → Prop} {p : Prog (api E) (Except E A)} (hp : p.Only P) :
    (tryAsk p).run.Only P :=
  Prog.only_bind hp fun _ => trivial

theorem only_retryWithLog {P : Call → Prop} (hretries : P .retries) {f : Rpc E A}
    (hf : f.run.Only P) : (retryWithLog f).run.Only P :=
  Prog.only_run_bind ⟨hretries, fun _ => trivial⟩ fun retries => Prog.only_run_retry hf retries

theorem only_killChild {P : Call → Prop} (hkill : ∀ pid, P (.kill pid)) (child : Child) :
    (killChild (E := E) child).run.Only P := by
  unfold killChild
  refine Prog.only_run_bind trivial fun pid => ?_
  exact ⟨hkill pid, fun _ => trivial⟩

/-- `f` from `w` returns with `Q`, or it fails. -/
abbrev Ensures (setup : Setup E) (f : Rpc E A) (Q : A → World → Prop) (w : World) : Prop :=
  Prog.Keeps (genuineEnv setup) (Verified setup) f.run (Prog.Outcome Q fun _ _ => True) w

theorem ensures_of_keeps {f : Rpc E A} {Q : A → World → Prop} {R : Error E → World → Prop}
    (h : Prog.Keeps (genuineEnv setup) (Verified setup) f.run (Prog.Outcome Q R) w) :
    Ensures setup f Q w := by
  refine h.mono fun r _ _ hr => ?_
  cases r with
  | ok a => exact hr
  | error e => trivial

/-- The calls that change neither the record of the release nor the files, nor spawn a child. -/
def Quiet : Call → Prop
  | .setDownloadedRelease _ | .readChainStorage | .openFile _ | .writeAll _ _ | .removeFile _
  | .spawn _ _ => False
  | _ => True

theorem kept_of_quiet {call : Call} {r : (api E).Answer call} (hcall : Quiet call)
    (h : env w call r w') : Kept w w' := by
  obtain ⟨alive, -, h⟩ := h
  cases call with
  | childProc | downloadedRelease =>
    obtain ⟨-, rfl⟩ := h
    exact ⟨rfl, rfl, rfl, rfl⟩
  | readFile path | wait child | tryWait child =>
    cases r with
    | ok a =>
      obtain ⟨-, rfl⟩ := h
      exact ⟨rfl, rfl, rfl, rfl⟩
    | error e =>
      cases h
      exact ⟨rfl, rfl, rfl, rfl⟩
  | setChildProc child | getRequestBytes uri | createDirAll path | syncAll path | kill child
  | retries | sleep =>
    cases h
    exact ⟨rfl, rfl, rfl, rfl⟩
  | setDownloadedRelease release | readChainStorage | openFile path | writeAll path bytes
  | removeFile path | spawn path args => exact hcall.elim

/-- Quiet calls keep what does not depend on the children, also when they fail. -/
theorem keeps_of_quiet {f : Rpc E A} {P : World → Prop} (hP : ∀ w w', Kept w w' → P w → P w')
    (hf : f.run.Only Quiet) (hw : Verified setup w) (h : P w) :
    Prog.Keeps (genuineEnv setup) (Verified setup) f.run
      (Prog.Outcome (fun _ => P) fun _ => P) w := by
  have hkeeps : Prog.Keeps (genuineEnv setup) (fun w => Verified setup w ∧ P w) f.run
      (fun _ w => Verified setup w ∧ P w) w :=
    Prog.keeps_of_only (fun w call r w' h hquiet hr =>
      have hkept := kept_of_quiet hquiet hr.1
      ⟨h.1.kept hkept, hP w w' hkept h.2⟩) hf ⟨hw, h⟩
  exact (hkeeps.weaken fun _ h => h.1).mono fun r w _ h =>
    .intro (fun _ _ => h.1.2) fun _ _ => h.1.2

theorem ensures_ask {call : Call} {P : World → Prop} (hP : ∀ w w', Kept w w' → P w → P w')
    (hcall : Quiet call) (hw : Verified setup w) (h : P w) :
    Ensures setup (ask call) (fun _ => P) w :=
  ensures_of_keeps (keeps_of_quiet hP ⟨hcall, fun _ => trivial⟩ hw h)

theorem ensures_retryWithLog {f : Rpc E A} {P : World → Prop} {Q : A → World → Prop}
    (hP : ∀ w w', Kept w w' → P w → P w')
    (hf : ∀ w, Verified setup w → P w → Prog.Keeps (genuineEnv setup) (Verified setup) f.run
      (Prog.Outcome Q fun _ => P) w) (hw : Verified setup w) (h : P w) :
    Ensures setup (retryWithLog f) Q w := by
  exact Prog.keeps_run_seq (ensures_ask hP (show Quiet .retries from trivial) hw h)
    fun retries w hw h => ensures_of_keeps (Prog.keeps_run_retry hf retries hw h)

/-! ### Downloading -/

theorem keeps_getBinPath {uri : String} {P : World → Prop} (hw : Verified setup w) (h : P w) :
    Prog.Keeps (genuineEnv setup) (Verified setup) (getBinPath setup uri).run
      (Prog.Outcome (fun _ => P) fun _ => P) w := by
  refine Prog.keeps_run_bind.mpr (keeps_tryAsk.mpr ⟨hw, ?_⟩)
  cases setup.urlPathSegments (trimEndSlashes uri) with
  | error e => exact h
  | ok segments =>
    dsimp only [Prog.mapError_ok, Prog.Outcome]
    split
    · split <;> exact ⟨hw, h⟩
    · exact ⟨hw, h⟩

/-- The release that was read last is `release`. -/
def Latest (release : ClientRelease) (w : World) : Prop := w.release = some release

theorem Latest.kept {release : ClientRelease} (h : Latest release w) (hkept : Kept w w') :
    Latest release w' :=
  hkept.release.trans h

/-- The file at `path` has the checksum `checksum`. -/
def OnDisk (setup : Setup E) (path : PathBuf) (checksum : H256) (w : World) : Prop :=
  ∃ content, w.files path = some content ∧ setup.sha256 content = checksum

theorem ensures_openFile {path : PathBuf} {release : ClientRelease} (hw : Verified setup w)
    (h : Latest release w) :
    Ensures setup (tryAsk (Prog.request (api E) (.openFile path))) (fun _ => Latest release) w := by
  refine keeps_tryAsk.mpr (Prog.keeps_request.mpr ⟨hw, fun r w' hr => ?_⟩)
  obtain ⟨⟨alive, -, hr⟩, -⟩ := hr
  cases r with
  | ok _ =>
    cases hr
    exact ⟨hw, h⟩
  | error e =>
    cases hr
    exact ⟨hw, trivial⟩

theorem keeps_getRequestBytes {uri : String} {release : ClientRelease} (hw : Verified setup w)
    (h : Latest release w) :
    Prog.Keeps (genuineEnv setup) (Verified setup)
      (tryAsk (Prog.request (api E) (.getRequestBytes uri))).run
      (Prog.Outcome (fun _ => Latest release) fun _ => Latest release) w :=
  keeps_of_quiet (fun _ _ hkept h => Latest.kept h hkept)
    (only_tryAsk ⟨trivial, fun _ => trivial⟩) hw h

/-- This is where a download has to be genuine. -/
theorem ensures_writeAll {path : PathBuf} {bytes : Bytes} {release : ClientRelease}
    (hw : Verified setup w) (h : Latest release w) :
    Ensures setup (tryAsk (Prog.request (api E) (.writeAll path bytes)))
      (fun _ => OnDisk setup path release.checksum) w := by
  refine keeps_tryAsk.mpr (Prog.keeps_request.mpr ⟨hw, fun r w' hr => ?_⟩)
  obtain ⟨⟨alive, -, hr⟩, hgenuine⟩ := hr
  cases r with
  | ok _ =>
    cases hr
    exact ⟨hw, _, if_pos rfl, hgenuine release h⟩
  | error e =>
    obtain ⟨written, rfl⟩ := hr
    exact ⟨hw, trivial⟩

theorem ensures_syncAll {path file : PathBuf} {checksum : H256} (hw : Verified setup w)
    (h : OnDisk setup file checksum w) :
    Ensures setup (tryAsk (Prog.request (api E) (.syncAll path)))
      (fun _ => OnDisk setup file checksum) w := by
  refine ensures_of_keeps (keeps_of_quiet (fun w w' hkept h => ?_)
    (only_tryAsk ⟨trivial, fun _ => trivial⟩) hw h)
  rwa [OnDisk, hkept.files]

theorem ensures_setDownloadedRelease {path : PathBuf} {binName : String} {checksum : H256}
    (hw : Verified setup w) (h : OnDisk setup path checksum w) :
    Ensures setup (ask (.setDownloadedRelease (some ⟨checksum, path, binName⟩)))
      (fun _ => Recorded setup) w := by
  refine keeps_ask.mpr ⟨hw, fun r w' hr => ?_⟩
  obtain ⟨⟨alive, -, hr⟩, -⟩ := hr
  cases hr
  obtain ⟨content, hfile, hsum⟩ := h
  exact ⟨hw, _, content, rfl, hfile, hsum⟩

theorem ensures_fetchBinary {release : ClientRelease} (hw : Verified setup w)
    (h : Latest release w) :
    Ensures setup (fetchBinary setup release) (fun _ => Recorded setup) w := by
  refine Prog.keeps_run_seq (ensures_of_keeps (keeps_getBinPath hw h))
    fun (binName, binPath) w hw h => ?_
  refine Prog.keeps_run_seq (ensures_openFile hw h) fun _ w hw h => ?_
  refine Prog.keeps_run_seq (ensures_retryWithLog (fun _ _ hkept h => Latest.kept h hkept)
    (fun _ => keeps_getRequestBytes) hw h) fun bytes w hw h => ?_
  refine Prog.keeps_run_seq (ensures_writeAll hw h) fun _ w hw h => ?_
  refine Prog.keeps_run_seq (ensures_syncAll hw h) fun _ w hw h => ?_
  exact Prog.keeps_run_seq (ensures_setDownloadedRelease hw h) fun _ w hw h => ⟨hw, h⟩

/-- Nothing has been recorded, and the release that was read last is `release`. -/
def Unrecorded (release : ClientRelease) (w : World) : Prop :=
  w.downloadedRelease = none ∧ Latest release w

theorem Unrecorded.kept {release : ClientRelease} (h : Unrecorded release w) (hkept : Kept w w') :
    Unrecorded release w' :=
  ⟨hkept.downloadedRelease.trans h.1, h.2.kept hkept⟩

/-- Asking for the recorded release. -/
theorem ensures_downloadedRelease {P : World → Prop} (hP : ∀ w w', Kept w w' → P w → P w')
    (hw : Verified setup w) (h : P w) :
    Ensures setup (ask .downloadedRelease) (fun r w' => r = w'.downloadedRelease ∧ P w') w := by
  refine keeps_ask.mpr ⟨hw, fun r w' hr => ?_⟩
  have hkept := kept_of_quiet (show Quiet .downloadedRelease from trivial) hr.1
  obtain ⟨⟨alive, -, rfl, rfl⟩, -⟩ := hr
  exact ⟨hw.kept hkept, rfl, hP w _ hkept h⟩

theorem ensures_downloadBinary {release : ClientRelease} (hw : Verified setup w)
    (h : Unrecorded release w) :
    Ensures setup (downloadBinary setup release) (fun _ => Recorded setup) w := by
  refine Prog.keeps_run_seq (ensures_downloadedRelease (fun _ _ hkept h => Unrecorded.kept h hkept)
    hw h) fun r w hw h => ?_
  obtain ⟨rfl, hnone, hlatest⟩ := h
  rw [hnone]
  exact ensures_fetchBinary hw hlatest

/-- A binary that is loaded from disk has the checksum of the release; one that is not loaded leaves
nothing recorded. -/
theorem keeps_tryLoadDownloadedBinary {release : ClientRelease} (hw : Verified setup w)
    (h : Unrecorded release w) :
    Prog.Keeps (genuineEnv setup) (Verified setup) (tryLoadDownloadedBinary setup release).run
      (Prog.Outcome (fun _ => Recorded setup) fun _ => Unrecorded release) w := by
  refine Prog.keeps_run_seq (keeps_getBinPath hw h) fun (binName, binPath) w hw h => ?_
  have hread : Prog.Keeps (genuineEnv setup) (Verified setup)
      (ExceptT.run (tryCatch (tryAsk (Prog.request (api E) (.readFile binPath)))
        fun _ => throw .noDownloadedRelease))
      (Prog.Outcome (fun content w => w.files binPath = some content ∧ Unrecorded release w)
        fun _ => Unrecorded release) w := by
    refine Prog.keeps_run_tryCatch.mpr (keeps_tryAsk.mpr
      (Prog.keeps_request.mpr ⟨hw, fun r w' hr => ?_⟩))
    have hkept := kept_of_quiet (show Quiet (.readFile binPath) from trivial) hr.1
    refine ⟨hw.kept hkept, ?_⟩
    cases r with
    | ok content =>
      obtain ⟨⟨alive, -, hfile, rfl⟩, -⟩ := hr
      exact ⟨hfile, h.kept hkept⟩
    | error e => exact ⟨hw.kept hkept, h.kept hkept⟩
  refine Prog.keeps_run_seq hread fun content w hw h => ?_
  obtain ⟨hfile, hunrecorded⟩ := h
  dsimp only
  split
  · exact ⟨hw, hunrecorded⟩
  · refine keeps_ask.mpr ⟨hw, fun r w' hr => ?_⟩
    obtain ⟨⟨alive, -, hr⟩, -⟩ := hr
    cases hr
    exact ⟨hw, _, content, rfl, hfile, rfl⟩

/-! ### Updating -/

/-- `P` is about the record of the release and the files. -/
def Durable (P : World → Prop) : Prop :=
  ∀ w w', w'.downloadedRelease = w.downloadedRelease → w'.files = w.files → P w → P w'

theorem Durable.kept {P : World → Prop} (hP : Durable P) (w w' : World) (hkept : Kept w w')
    (h : P w) : P w' :=
  hP w w' hkept.downloadedRelease hkept.files h

theorem durable_recorded : Durable (Recorded setup) := by
  intro w w' hrelease hfiles h
  rwa [Recorded, hrelease, hfiles]

theorem ensures_tryGetRelease {P : World → Prop} (hP : Durable P) (hw : Verified setup w)
    (h : P w) :
    Ensures setup tryGetRelease
      (fun r w => P w ∧ ∀ release, r = some release → Latest release w) w := by
  refine ensures_retryWithLog hP.kept (fun w hw h => ?_) hw h
  refine keeps_tryAsk.mpr (Prog.keeps_request.mpr ⟨hw, fun r w' hr => ?_⟩)
  obtain ⟨⟨alive, -, hr⟩, -⟩ := hr
  match r, hr with
  | .ok (some release), hr =>
    cases hr
    exact ⟨hw, hP w _ rfl rfl h, fun _ hsome => hsome⟩
  | .ok none, hr =>
    cases hr
    exact ⟨hw, hP w _ rfl rfl h, nofun⟩
  | .error e, hr =>
    cases hr
    exact ⟨hw, hP w _ rfl rfl h⟩

theorem ensures_setChildProc {child : Option Child} {P : World → Prop}
    (hP : ∀ w w', Kept w w' → P w → P w') (hw : Verified setup w) (h : P w) :
    Ensures setup (ask (.setChildProc child)) (fun _ => P) w :=
  ensures_ask hP (show Quiet (.setChildProc child) from trivial) hw h

theorem only_terminateProcAndWait : (terminateProcAndWait (E := E)).run.Only Quiet := by
  refine Prog.only_run_bind ⟨trivial, fun _ => trivial⟩ fun r => ?_
  cases r with
  | none => trivial
  | some child =>
    refine Prog.only_run_bind (Prog.only_run_tryCatch
      (only_retryWithLog trivial (only_killChild (fun _ => trivial) child)) fun _ => trivial)
      fun _ => ?_
    refine Prog.only_run_bind ⟨trivial, fun _ => trivial⟩ fun _ => ?_
    exact Prog.only_run_bind ⟨trivial, fun _ => trivial⟩ fun _ => trivial

theorem ensures_terminateProcAndWait {P : World → Prop} (hP : ∀ w w', Kept w w' → P w → P w')
    (hw : Verified setup w) (h : P w) :
    Ensures setup terminateProcAndWait (fun _ => P) w :=
  ensures_of_keeps (keeps_of_quiet hP only_terminateProcAndWait hw h)

theorem ensures_deleteDownloadedRelease {release : ClientRelease} (hw : Verified setup w)
    (h : Latest release w) :
    Ensures setup deleteDownloadedRelease (fun _ => Unrecorded release) w := by
  refine Prog.keeps_run_seq (ensures_downloadedRelease (fun _ _ hkept h => Latest.kept h hkept)
    hw h) fun r w hw h => ?_
  obtain ⟨-, h⟩ := h
  cases r with
  | none => exact ⟨hw, trivial⟩
  | some downloaded =>
    have hremove : ∀ w, Verified setup w → Latest release w →
        Prog.Keeps (genuineEnv setup) (Verified setup)
          (tryAsk (Prog.request (api E) (.removeFile downloaded.path))).run
          (Prog.Outcome (fun _ => Latest release) fun _ => Latest release) w := by
      intro w hw h
      refine keeps_tryAsk.mpr (Prog.keeps_request.mpr ⟨hw, fun r w' hr => ?_⟩)
      obtain ⟨⟨alive, -, hr⟩, -⟩ := hr
      cases r with
      | ok _ | error e =>
        cases hr
        exact ⟨hw, h⟩
    refine Prog.keeps_run_seq (ensures_retryWithLog (fun _ _ hkept h => Latest.kept h hkept)
      hremove hw h) fun _ w hw h => keeps_ask.mpr ⟨hw, fun r w' hr => ?_⟩
    obtain ⟨⟨alive, -, hr⟩, -⟩ := hr
    cases hr
    exact ⟨hw, rfl, h⟩

/-- The child that is spawned is verified when the recorded release is the one on disk. -/
theorem keeps_spawn {release : DownloadedRelease} {args : List String} (hw : Verified setup w)
    (h : w.downloadedRelease = some release ∧ Recorded setup w) :
    Prog.Keeps (genuineEnv setup) (Verified setup)
      (tryAsk (Prog.request (api E) (.spawn release.path args))).run
      (Prog.Outcome (fun _ => Recorded setup)
        fun _ w => w.downloadedRelease = some release ∧ Recorded setup w) w := by
  refine keeps_tryAsk.mpr (Prog.keeps_request.mpr ⟨hw, fun r w' hr => ?_⟩)
  obtain ⟨⟨alive, -, hr⟩, -⟩ := hr
  cases r with
  | error e =>
    cases hr
    exact ⟨hw, h⟩
  | ok child =>
    obtain ⟨-, content, hfile, rfl⟩ := hr
    obtain ⟨hrelease, recorded, content', hrecorded, hfile', hsum⟩ := h
    cases hrecorded.symm.trans hrelease
    cases hfile'.symm.trans hfile
    refine ⟨fun spawned hspawned => ?_, release, content, hrelease, hfile, hsum⟩
    rcases List.mem_cons.mp hspawned with rfl | hold
    · exact ⟨release, hrelease, hsum⟩
    · exact hw spawned hold

theorem ensures_runBinary (hw : Verified setup w) (h : Recorded setup w) :
    Ensures setup (runBinary setup) (fun _ => Recorded setup) w := by
  refine Prog.keeps_run_seq (ensures_ask durable_recorded.kept
    (show Quiet .childProc from trivial) hw h) fun r w hw h => ?_
  cases r with
  | some child => exact ⟨hw, trivial⟩
  | none =>
    refine Prog.keeps_run_seq (ensures_downloadedRelease durable_recorded.kept hw h)
      fun r w hw h => ?_
    cases r with
    | none => exact ⟨hw, trivial⟩
    | some release =>
      refine Prog.keeps_run_seq (ensures_retryWithLog (fun w w' hkept h =>
        ⟨hkept.downloadedRelease.trans h.1, durable_recorded.kept w w' hkept h.2⟩)
        (fun _ => keeps_spawn) hw ⟨h.1.symm, h.2⟩) fun child w hw h => ?_
      exact ensures_setChildProc durable_recorded.kept hw h

theorem only_checkChildProcAlive : (checkChildProcAlive (E := E)).run.Only Quiet := by
  refine Prog.only_run_bind ⟨trivial, fun _ => trivial⟩ fun r => ?_
  cases r with
  | none => trivial
  | some child =>
    refine Prog.only_run_bind (only_tryAsk ⟨trivial, fun _ => trivial⟩) fun exited => ?_
    cases exited with
    | false => trivial
    | true => exact Prog.only_run_bind ⟨trivial, fun _ => trivial⟩ fun _ => trivial

theorem ensures_maybeRestartClient (hw : Verified setup w) (h : Recorded setup w) :
    Ensures setup (maybeRestartClient setup) (fun _ => Recorded setup) w := by
  have hcheck : Ensures setup checkChildProcAlive (fun _ => Recorded setup) w :=
    ensures_of_keeps (keeps_of_quiet durable_recorded.kept only_checkChildProcAlive hw h)
  refine Prog.keeps_run_seq hcheck fun alive w hw h => ?_
  cases alive with
  | true => exact ⟨hw, h⟩
  | false => exact ensures_runBinary hw h

theorem ensures_sleep (hw : Verified setup w) (h : Recorded setup w) :
    Ensures setup (ask .sleep) (fun _ => Recorded setup) w :=
  ensures_ask durable_recorded.kept (show Quiet .sleep from trivial) hw h

theorem ensures_update (hw : Verified setup w) (h : Recorded setup w) :
    Ensures setup (update setup) (fun _ => Recorded setup) w := by
  refine Prog.keeps_run_seq (ensures_maybeRestartClient hw h) fun _ w hw h => ?_
  refine Prog.keeps_run_seq (ensures_tryGetRelease durable_recorded hw h) fun r w hw h => ?_
  cases r with
  | none => exact ensures_sleep hw h.1
  | some newRelease =>
    have hlatest := h.2 newRelease rfl
    refine Prog.keeps_run_seq (ensures_downloadedRelease (P := fun w =>
      Recorded setup w ∧ Latest newRelease w) (fun w w' hkept h =>
        ⟨durable_recorded.kept w w' hkept h.1, h.2.kept hkept⟩) hw ⟨h.1, hlatest⟩)
      fun r w hw h => ?_
    cases r with
    | none => exact ⟨hw, trivial⟩
    | some downloaded =>
      dsimp only
      split
      · refine Prog.keeps_run_seq (ensures_terminateProcAndWait
          (fun _ _ hkept h => Latest.kept h hkept) hw h.2.2) fun _ w hw h => ?_
        refine Prog.keeps_run_seq (ensures_deleteDownloadedRelease hw h) fun _ w hw h => ?_
        refine Prog.keeps_run_seq (ensures_downloadBinary hw h) fun _ w hw h => ?_
        exact Prog.keeps_run_seq (ensures_runBinary hw h) fun _ w hw h => ensures_sleep hw h
      · exact ensures_sleep hw h.2.1

theorem ensures_updates (rounds : Nat) (hw : Verified setup w) (h : Recorded setup w) :
    Ensures setup (updates setup rounds) (fun _ => Recorded setup) w := by
  induction rounds generalizing w with
  | zero => exact ⟨hw, h⟩
  | succ rounds ih => exact Prog.keeps_run_seq (ensures_update hw h) fun _ w hw h => ih hw h

theorem ensures_autoUpdate (rounds : Nat) (hw : Verified setup w)
    (h : w.downloadedRelease = none) :
    Ensures setup (autoUpdate setup rounds) (fun _ => Recorded setup) w := by
  have hP : Durable fun w => w.downloadedRelease = none := fun _ _ hr _ h => hr.trans h
  have hdir : Ensures setup (tryAsk (Prog.request (api E) (.createDirAll setup.downloadPath)))
      (fun _ w => w.downloadedRelease = none) w :=
    ensures_of_keeps (keeps_of_quiet hP.kept (only_tryAsk ⟨trivial, fun _ => trivial⟩) hw h)
  refine Prog.keeps_run_seq hdir fun _ w hw h => ?_
  refine Prog.keeps_run_seq (ensures_tryGetRelease hP hw h) fun r w hw h => ?_
  cases r with
  | none => exact ⟨hw, trivial⟩
  | some release =>
    have hload : Ensures setup (tryCatch (tryLoadDownloadedBinary setup release) fun _ => do
        let _ ← downloadBinary setup release) (fun _ => Recorded setup) w := by
      refine Prog.keeps_run_tryCatch.mpr ((keeps_tryLoadDownloadedBinary hw
        ⟨h.1, h.2 release rfl⟩).mono fun r w hw hr => ?_)
      cases r with
      | ok _ => exact hr
      | error e =>
        exact Prog.keeps_run_seq (ensures_downloadBinary hw hr) fun _ w hw h => ⟨hw, h⟩
    refine Prog.keeps_run_seq hload fun _ w hw h => ?_
    exact Prog.keeps_run_seq (ensures_runBinary hw h) fun _ w hw h => ensures_updates rounds hw h

variable (setup) in
/-- Wherever a run of `auto_update` has got to, every child that was spawned has the checksum of the
release that was recorded, if every download was genuine. -/
theorem verified_of_runs (rounds : Nat) (files : PathBuf → Option Bytes)
    {p : Prog (api E) (Except (Error E) Unit)}
    (hruns : Prog.Runs (genuineEnv setup) (autoUpdate setup rounds).run (World.start files) p w) :
    Verified setup w :=
  ((ensures_autoUpdate rounds (w := World.start files) nofun rfl).runs hruns).inv

end Invariant

/-! ### A download that is not genuine -/

/-- SHA-256 on the two files of the example. -/
def digest (bytes : Bytes) : H256 :=
  if bytes = [1] then 0x4bf5122f344554c53bde2ebb8cd2b7e3d1600ad631c385a5d7cce23c7785459a
  else if bytes = [2] then 0xdbc1b4c900ffe48d575b5da5c638040125f65db0fe3e24494b76ea986457d986
  else 0

def vaultSetup : Setup Unit where
  downloadPath := "/opt"
  clientArgs := []
  sha256 := digest
  urlPathSegments uri :=
    if uri = "https://github.com/interlay/interbtc-clients/releases/download/1.16.0/vault" then
      .ok (some ["interlay", "interbtc-clients", "releases", "download", "1.16.0", "vault"])
    else .error ()

def vaultRelease : ClientRelease where
  uri := "https://github.com/interlay/interbtc-clients/releases/download/1.16.0/vault"
  checksum := digest [2]

/-- Surroundings with that release on chain, which serve `bytes` for it.  Files can be missing, one
child can be spawned, and only files that meet `accepts` can be written. -/
def answer (bytes : Bytes) (accepts : Bytes → Bool) (w : World) :
    (call : Call) → (api Unit).Answer call × World
  | .childProc => (w.childProc, w)
  | .setChildProc child => ((), { w with childProc := child })
  | .downloadedRelease => (w.downloadedRelease, w)
  | .setDownloadedRelease release => ((), { w with downloadedRelease := release })
  | .readChainStorage => (.ok (some vaultRelease), { w with release := some vaultRelease })
  | .getRequestBytes _ => (.ok bytes, w)
  | .createDirAll _ => (.ok (), w)
  | .readFile path => match w.files path with
    | some content => (.ok content, w)
    | none => (.error (), w)
  | .openFile path => (.ok (), w.setFile path (some ((w.files path).getD [])))
  | .writeAll path bytes =>
    let old := (w.files path).getD []
    if accepts (overwrite old bytes) then (.ok (), w.setFile path (some (overwrite old bytes)))
    else (.error (), w.setFile path (some (overwrite old (bytes.take 0))))
  | .syncAll _ => (.ok (), w)
  | .removeFile path => (.ok (), w.setFile path none)
  | .spawn path _ => match w.files path with
    | some content =>
      if w.alive = [] then (.ok 1, w.spawn 1 content) else (.error (), w)
    | none => (.error (), w)
  | .kill _ => (.ok (), w)
  | .wait _ => (.error (), w)
  | .tryWait _ => (.ok false, w)
  | .retries => (0, w)
  | .sleep => ((), w)

theorem env_answer (bytes : Bytes) (accepts : Bytes → Bool) (w : World) (call : Call) :
    env w call (answer bytes accepts w call).1 (answer bytes accepts w call).2 := by
  refine ⟨w.alive, fun _ h => h, ?_⟩
  cases call with
  | readFile path =>
    cases hfile : w.files path with
    | none => simp only [answer, hfile]
    | some content =>
      simp only [answer, hfile]
      exact ⟨trivial, trivial⟩
  | writeAll path written =>
    by_cases haccepts : accepts (overwrite ((w.files path).getD []) written) = true
    · simp only [answer, if_pos haccepts]
    · simp only [answer, if_neg haccepts]
      exact ⟨0, rfl⟩
  | spawn path args =>
    cases hfile : w.files path with
    | none => simp only [answer, hfile]
    | some content =>
      by_cases halive : w.alive = []
      · simp only [answer, hfile, if_pos halive]
        exact ⟨by simp [halive], content, rfl, rfl⟩
      · simp only [answer, hfile, if_neg halive]
  | childProc | downloadedRelease => exact ⟨rfl, rfl⟩
  | tryWait child => exact ⟨nofun, rfl⟩
  | setChildProc child | setDownloadedRelease release | readChainStorage | getRequestBytes uri
  | createDirAll path | openFile path | syncAll path | removeFile path | kill child | wait child
  | retries | sleep => rfl

theorem release_answer (bytes : Bytes) (accepts : Bytes → Bool) (w : World) (call : Call) :
    (answer bytes accepts w call).2.release = w.release ∨
      (answer bytes accepts w call).2.release = some vaultRelease := by
  cases call with
  | readChainStorage => exact .inr rfl
  | readFile path =>
    left
    cases hfile : w.files path <;> simp only [answer, hfile]
  | writeAll path written =>
    left
    by_cases haccepts : accepts (overwrite ((w.files path).getD []) written) = true
    · simp only [answer, if_pos haccepts, World.setFile]
    · simp only [answer, if_neg haccepts, World.setFile]
  | spawn path args =>
    left
    cases hfile : w.files path with
    | none => simp only [answer, hfile]
    | some content => by_cases halive : w.alive = [] <;> simp [answer, hfile, halive, World.spawn]
  | _ => exact .inl rfl

theorem genuine_answer {w : World} (hw : w.release = none ∨ w.release = some vaultRelease)
    (call : Call) :
    Genuine vaultSetup w call (answer [2] (fun content => content = [2]) w call).1 := by
  cases call with
  | writeAll path written =>
    by_cases haccepts : overwrite ((w.files path).getD []) written = [2]
    · simp only [answer, haccepts, decide_true, if_true]
      intro release hrelease
      rw [haccepts]
      rcases hw with hw | hw
      · rw [hw] at hrelease
        cases hrelease
      · cases hw.symm.trans hrelease
        rfl
    · simp only [answer, haccepts, decide_false, Bool.false_eq_true, if_false]
      trivial
  | _ => trivial

/-- What `auto_update` has done when it reaches its loop, starting without any file. -/
def afterStart (bytes : Bytes) (accepts : Bytes → Bool) : Except (Error Unit) Unit × World :=
  (autoUpdate vaultSetup 0).run.exec (answer bytes accepts) (World.start fun _ => none)

/-- The bytes of the release are served: the child that is spawned is verified. -/
theorem verified_of_runs_genuine :
    Verified vaultSetup (afterStart [2] fun content => content = [2]).2 ∧
      (afterStart [2] fun content => content = [2]).2.spawned =
        [⟨1, [2], some ⟨digest [2], "/opt/vault", "vault"⟩⟩] := by
  have hruns : Prog.Runs (genuineEnv vaultSetup) (autoUpdate vaultSetup 0).run
      (World.start fun _ => none) (.pure (afterStart [2] fun content => content = [2]).1)
      (afterStart [2] fun content => content = [2]).2 := by
    refine Prog.runs_exec_of_inv (I := fun w => w.release = none ∨ w.release = some vaultRelease)
      (fun w call hw => ⟨⟨env_answer _ _ w call, genuine_answer hw call⟩, ?_⟩) _ (.inl rfl)
    rcases release_answer [2] (fun content => content = [2]) w call with hsame | hread
    · rwa [hsame]
    · exact .inr hread
  exact ⟨verified_of_runs vaultSetup 0 (fun _ => none) hruns, rfl⟩

/-- Other bytes are served: they are spawned, with the checksum of the release recorded. -/
theorem not_verified_of_runs :
    Prog.Runs env (autoUpdate vaultSetup 0).run (World.start fun _ => none)
        (.pure (.ok ())) (afterStart [1] fun _ => true).2 ∧
      ¬Verified vaultSetup (afterStart [1] fun _ => true).2 := by
  have hruns : Prog.Runs env (autoUpdate vaultSetup 0).run (World.start fun _ => none)
      (.pure (afterStart [1] fun _ => true).1) (afterStart [1] fun _ => true).2 :=
    Prog.runs_exec (env_answer [1] fun _ => true) _ _
  refine ⟨hruns, fun h => ?_⟩
  obtain ⟨release, hrecorded, hsum⟩ := h
    ⟨1, [1], some ⟨digest [2], "/opt/vault", "vault"⟩⟩ List.mem_cons_self
  cases hrecorded
  exact absurd hsum (by decide)

end InterBtcClients.Runner
