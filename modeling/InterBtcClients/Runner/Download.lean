import InterBtcClients.Runner.Checksum

/-! What a download leaves in the file of a binary, whatever the file has held before.  The file is
not truncated when it is opened, so what is served replaces only as many bytes of it. -/

namespace InterBtcClients.Runner.Download

open Library

variable {E A : Type} {setup : Setup E} {release : ClientRelease} {bytes : Bytes} {w : World}

/-- A request for the release that succeeds gets `bytes`, and a file that is there can be read. -/
def Serves (release : ClientRelease) (bytes : Bytes) (w : World) :
    (call : Call) → (api E).Answer call → Prop
  | .getRequestBytes uri, .ok served => uri = release.uri → served = bytes
  | .readFile path, .error _ => w.files path = none
  | _, _ => True

def servingEnv (release : ClientRelease) (bytes : Bytes) : Prog.Env (api E) World :=
  fun w call r w' => env w call r w' ∧ Serves release bytes w call r

/-- The file at `path` has what was served, and as long as it has, it is loaded if and only if that
has the checksum of the release. -/
structure LeavesServed (setup : Setup E) (release : ClientRelease) (bytes : Bytes) (path : PathBuf)
    (w : World) : Prop where
  content : w.files path = some bytes
  loaded : ∀ (later w' : World) (r : Except (Error E) Unit), later.files path = w.files path →
    Prog.Runs (servingEnv release bytes) (tryLoadDownloadedBinary setup release).run later (.pure r)
      w' →
    (r = .ok () ↔ setup.sha256 bytes = release.checksum)

/-! ### Calls that leave the files alone -/

/-- `f` from `w` returns with `Q`, or it fails. -/
abbrev Ensures (release : ClientRelease) (bytes : Bytes) (f : Rpc E A) (Q : A → World → Prop)
    (w : World) : Prop :=
  Prog.Keeps (servingEnv release bytes) (fun _ => True) f.run (Prog.Outcome Q fun _ _ => True) w

/-- The file at `path`. -/
def Holds (path : PathBuf) (content : Option Bytes) (w : World) : Prop := w.files path = content

variable {path : PathBuf} {content : Option Bytes}

theorem Holds.kept {w' : World} (h : Holds path content w) (hkept : Kept w w') :
    Holds path content w' := by
  rwa [Holds, hkept.files]

theorem keeps_tryAsk {p : Prog (api E) (Except E A)} {Q : Except (Error E) A → World → Prop} :
    Prog.Keeps (servingEnv release bytes) (fun _ => True) (tryAsk p).run Q w ↔
      Prog.Keeps (servingEnv release bytes) (fun _ => True) p
        (fun r => Q (r.mapError Error.system)) w :=
  Prog.keeps_map

theorem ensures_ask {call : Call} (hcall : Quiet call) (h : Holds path content w) :
    Ensures (E := E) release bytes (ask call) (fun _ => Holds path content) w :=
  Prog.keeps_run_lift.mpr ⟨trivial, fun _ _ hr => ⟨trivial, h.kept (kept_of_quiet hcall hr.1)⟩⟩

theorem ensures_setDownloadedRelease {recorded : Option DownloadedRelease}
    (h : Holds path content w) :
    Ensures (E := E) release bytes (ask (.setDownloadedRelease recorded))
      (fun _ => Holds path content) w := by
  refine Prog.keeps_run_lift.mpr (Prog.keeps_request.mpr ⟨trivial, fun r w' hr => ⟨trivial, ?_⟩⟩)
  obtain ⟨⟨alive, -, rfl⟩, -⟩ := hr
  exact h

theorem ensures_syncAll (h : Holds path content w) :
    Ensures (E := E) release bytes (tryAsk (Prog.request (api E) (.syncAll path)))
      (fun _ => Holds path content) w := by
  refine keeps_tryAsk.mpr (Prog.keeps_request.mpr ⟨trivial, fun r w' hr => ⟨trivial, ?_⟩⟩)
  cases r with
  | ok _ => exact h.kept (kept_of_quiet (show Quiet (.syncAll path) from trivial) hr.1)
  | error e => trivial

/-! ### Downloading -/

theorem ensures_openFile (h : Holds path content w) :
    Ensures (E := E) release bytes (tryAsk (Prog.request (api E) (.openFile path)))
      (fun _ => Holds path (some (content.getD []))) w := by
  refine keeps_tryAsk.mpr (Prog.keeps_request.mpr ⟨trivial, fun r w' hr => ⟨trivial, ?_⟩⟩)
  obtain ⟨⟨alive, -, hr⟩, -⟩ := hr
  cases r with
  | ok _ =>
    cases hr
    rw [← h]
    exact if_pos rfl
  | error e => trivial

/-- The first request that succeeds is the last one. -/
theorem ensures_getRequestBytes (h : Holds path content w) :
    Ensures (E := E) release bytes
      (retryWithLog (tryAsk (Prog.request (api E) (.getRequestBytes release.uri))))
      (fun served w => served = bytes ∧ Holds path content w) w := by
  refine Prog.keeps_run_seq (ensures_ask (show Quiet .retries from trivial) h)
    fun retries w _ h => ?_
  refine (Prog.keeps_run_retry (fun w _ h => keeps_tryAsk.mpr (Prog.keeps_request.mpr
    ⟨trivial, fun r w' hr => ⟨trivial, ?_⟩⟩)) retries trivial h).mono
      fun r w _ hr => hr.imp (fun _ h => h) fun _ _ => trivial
  have hkept := h.kept (kept_of_quiet (show Quiet (.getRequestBytes release.uri) from trivial) hr.1)
  cases r with
  | ok served => exact ⟨hr.2 rfl, hkept⟩
  | error e => exact hkept

theorem ensures_writeAll {old : Bytes} (h : Holds path (some old) w) :
    Ensures (E := E) release bytes (tryAsk (Prog.request (api E) (.writeAll path bytes)))
      (fun _ => Holds path (some (overwrite old bytes))) w := by
  refine keeps_tryAsk.mpr (Prog.keeps_request.mpr ⟨trivial, fun r w' hr => ⟨trivial, ?_⟩⟩)
  obtain ⟨⟨alive, -, hr⟩, -⟩ := hr
  cases r with
  | ok _ =>
    cases hr
    have hold : (w.files path).getD [] = old := by rw [show w.files path = some old from h]; rfl
    rw [← hold]
    exact if_pos rfl
  | error e => trivial

variable {binName : String}

theorem ensures_fetchBinary
    (hbin : (getBinPath setup release.uri).run = .pure (.ok (binName, path)))
    (h : Holds path content w) :
    Ensures release bytes (fetchBinary setup release)
      (fun _ => Holds path (some (overwrite (content.getD []) bytes))) w := by
  refine Prog.keeps_run_bind.mpr ?_
  rw [hbin]
  refine ⟨trivial, Prog.keeps_run_seq (ensures_openFile h) fun _ w _ h => ?_⟩
  refine Prog.keeps_run_seq (ensures_getRequestBytes h) fun served w _ h => ?_
  obtain ⟨rfl, h⟩ := h
  refine Prog.keeps_run_seq (ensures_writeAll h) fun _ w _ h => ?_
  refine Prog.keeps_run_seq (ensures_syncAll h) fun _ w _ h => ?_
  exact Prog.keeps_run_seq (ensures_setDownloadedRelease h) fun _ w _ h => ⟨trivial, h⟩

theorem ensures_downloadBinary
    (hbin : (getBinPath setup release.uri).run = .pure (.ok (binName, path)))
    (hrecorded : ∀ recorded, w.downloadedRelease = some recorded →
      recorded.checksum ≠ release.checksum) :
    Ensures release bytes (downloadBinary setup release)
      (fun _ => Holds path (some (overwrite ((w.files path).getD []) bytes))) w := by
  refine Prog.keeps_run_bind.mpr (Prog.keeps_run_lift.mpr (Prog.keeps_request.mpr
    ⟨trivial, fun r w' hr => ⟨trivial, ?_⟩⟩))
  obtain ⟨⟨alive, -, rfl, rfl⟩, -⟩ := hr
  cases hsome : w.downloadedRelease with
  | none => exact ensures_fetchBinary hbin rfl
  | some recorded =>
    dsimp only [Prog.Outcome]
    rw [if_neg (hrecorded recorded hsome)]
    exact ensures_fetchBinary hbin rfl

/-! ### Loading -/

theorem keeps_tryLoadDownloadedBinary {file : Bytes}
    (hbin : (getBinPath setup release.uri).run = .pure (.ok (binName, path)))
    (h : Holds path (some file) w) :
    Prog.Keeps (servingEnv release bytes) (fun _ => True)
      (tryLoadDownloadedBinary setup release).run
      (fun r _ => r = .ok () ↔ setup.sha256 file = release.checksum) w := by
  refine Prog.keeps_run_bind.mpr ?_
  rw [hbin]
  refine ⟨trivial, Prog.keeps_run_bind.mpr (Prog.keeps_run_tryCatch.mpr (keeps_tryAsk.mpr
    (Prog.keeps_request.mpr ⟨trivial, fun r w' hr => ⟨trivial, ?_⟩⟩)))⟩
  obtain ⟨⟨alive, -, hr⟩, hserves⟩ := hr
  cases r with
  | error e =>
    -- the file is there
    cases (show w.files path = some file from h).symm.trans hserves
  | ok read =>
    obtain ⟨hread, rfl⟩ := hr
    cases (show w.files path = some file from h).symm.trans hread
    dsimp only [Prog.mapError_ok, Prog.Outcome]
    split
    next hdiffers => exact ⟨trivial, nofun, fun hsum => absurd hsum hdiffers⟩
    next hsame =>
      refine Prog.keeps_run_lift.mpr (Prog.keeps_request.mpr ⟨trivial, fun _ _ _ => ⟨trivial, ?_⟩⟩)
      exact ⟨fun _ => Decidable.not_not.mp hsame, fun _ => rfl⟩

/-! ### What was served -/

theorem overwrite_eq_iff (old bytes : Bytes) :
    overwrite old bytes = bytes ↔ old.length ≤ bytes.length := by
  rw [overwrite, List.append_right_eq_self, List.drop_eq_nil_iff]

/-- A download that has written its file leaves what was served exactly when the file was not longer
before, or not there. -/
theorem leavesServed_iff (setup : Setup E) (release : ClientRelease) (bytes : Bytes) {w w' : World}
    {binName : String} {path : PathBuf} {downloaded : DownloadedRelease}
    (hbin : (getBinPath setup release.uri).run = .pure (.ok (binName, path)))
    (hrecorded : ∀ recorded, w.downloadedRelease = some recorded →
      recorded.checksum ≠ release.checksum)
    (hruns : Prog.Runs (servingEnv release bytes) (downloadBinary setup release).run w
      (.pure (.ok downloaded)) w') :
    LeavesServed setup release bytes path w' ↔
      ∀ old, w.files path = some old → old.length ≤ bytes.length := by
  have hwritten : Holds path (some (overwrite ((w.files path).getD []) bytes)) w' :=
    (ensures_downloadBinary hbin hrecorded).returns hruns
  have hlength : ((w.files path).getD []).length ≤ bytes.length ↔
      ∀ old, w.files path = some old → old.length ≤ bytes.length := by
    cases w.files path with
    | none => simp
    | some old => simp
  rw [← hlength, ← overwrite_eq_iff]
  constructor
  · intro h
    exact Option.some.inj (hwritten.symm.trans h.content)
  · intro heq
    rw [heq] at hwritten
    refine ⟨hwritten, fun later w'' r hlater hload => ?_⟩
    exact (keeps_tryLoadDownloadedBinary hbin (hlater.trans hwritten)).returns hload

/-! ### A file of another release -/

theorem servingEnv_answer (served : Bytes) (accepts : Bytes → Bool) (w : World) (call : Call) :
    servingEnv vaultRelease served w call (answer served accepts w call).1
      (answer served accepts w call).2 := by
  refine ⟨env_answer served accepts w call, ?_⟩
  cases call with
  | readFile path =>
    cases hfile : w.files path with
    | none =>
      simp only [answer, hfile]
      exact hfile
    | some file =>
      simp only [answer, hfile]
      trivial
  | getRequestBytes uri => exact fun _ => rfl
  | _ => trivial

/-- The runner has just been started, and the path of the release has the given content. -/
def foundFile (content : Option Bytes) : World :=
  .start fun path => if path = "/opt/vault" then content else none

/-- The world after `[2]` has been served for the release. -/
def afterDownload (content : Option Bytes) : World :=
  ((downloadBinary vaultSetup vaultRelease).run.exec (answer [2] fun _ => true)
    (foundFile content)).2

theorem runs_downloadBinary (content : Option Bytes) :
    Prog.Runs (servingEnv vaultRelease [2]) (downloadBinary vaultSetup vaultRelease).run
      (foundFile content) (.pure (.ok ⟨digest [2], "/opt/vault", "vault"⟩))
      (afterDownload content) :=
  Prog.runs_exec (servingEnv_answer [2] fun _ => true) (downloadBinary vaultSetup vaultRelease).run
    (foundFile content)

theorem leavesServed_iff_sameLength :
    LeavesServed vaultSetup vaultRelease [2] "/opt/vault" (afterDownload (some [1])) := by
  have hbin : (getBinPath vaultSetup vaultRelease.uri).run = .pure (.ok ("vault", "/opt/vault")) :=
    rfl
  have hrecorded : ∀ recorded, (foundFile (some [1])).downloadedRelease = some recorded →
      recorded.checksum ≠ vaultRelease.checksum := nofun
  refine (leavesServed_iff vaultSetup vaultRelease [2] hbin hrecorded
    (runs_downloadBinary (some [1]))).mpr fun old hold => ?_
  cases hold
  exact Nat.le_refl 1

/-- Of a longer file the end is left. -/
theorem not_leavesServed :
    Prog.Runs (servingEnv vaultRelease [2]) (downloadBinary vaultSetup vaultRelease).run
        (foundFile (some [1, 1])) (.pure (.ok ⟨digest [2], "/opt/vault", "vault"⟩))
        (afterDownload (some [1, 1])) ∧
      ¬LeavesServed vaultSetup vaultRelease [2] "/opt/vault" (afterDownload (some [1, 1])) := by
  refine ⟨runs_downloadBinary (some [1, 1]), fun h => ?_⟩
  have hleft : (afterDownload (some [1, 1])).files "/opt/vault" = some [2, 1] := rfl
  cases h.content.symm.trans hleft

end InterBtcClients.Runner.Download
