import InterBtcClients.Library.Prog
import InterBtcClients.Runtime.Types
import Mathlib.Algebra.Group.Nat.Defs

/-! The runner: it downloads the client release that the parachain names, runs it as a child process
and replaces it when the parachain names another one. -/

namespace InterBtcClients.Runner

open Library InterBtcClients.Runtime

abbrev Bytes := List UInt8

abbrev PathBuf := String

/-- The process id of a child process. -/
abbrev Child := Nat

structure ClientRelease where
  uri : String
  checksum : H256
  deriving DecidableEq

structure DownloadedRelease where
  checksum : H256
  path : PathBuf
  binName : String
  deriving DecidableEq

/-- `system` wraps the errors of the operating system, of the network and of the parachain. -/
inductive Error (E : Type)
  | system (e : E)
  | integerConversionError
  | noDownloadedRelease
  | childProcessExists
  | processTerminationFailure
  | clientNameDerivationError
  | incorrectChecksum
  /-- The source's panic when no release is set on chain. -/
  | noCurrentClientRelease

/-- The options of the runner, and what it uses of other crates: SHA-256, and the path segments of a
URL, which is an error for a text that is none. -/
structure Setup (E : Type) where
  downloadPath : PathBuf
  clientArgs : List String
  sha256 : Bytes → H256
  urlPathSegments : String → Except E (Option (List String))

section Program

variable (E : Type)

inductive Call
  -- the fields of the runner
  | childProc
  | setChildProc (child : Option Child)
  | downloadedRelease
  | setDownloadedRelease (release : Option DownloadedRelease)
  -- the parachain and the network
  | readChainStorage
  | getRequestBytes (uri : String)
  -- the files
  | createDirAll (path : PathBuf)
  | readFile (path : PathBuf)
  | openFile (path : PathBuf)
  | writeAll (path : PathBuf) (bytes : Bytes)
  | syncAll (path : PathBuf)
  | removeFile (path : PathBuf)
  -- the processes
  | spawn (path : PathBuf) (args : List String)
  | kill (child : Child)
  | wait (child : Child)
  | tryWait (child : Child)
  -- the clock: how many more attempts the retry time allows, and a pause
  | retries
  | sleep

/-- `tryWait` has `true` for a child that has exited. -/
@[reducible] def api : Interface where
  Call := Call
  Answer
    | .childProc => Option Child
    | .setChildProc _ => Unit
    | .downloadedRelease => Option DownloadedRelease
    | .setDownloadedRelease _ => Unit
    | .readChainStorage => Except E (Option ClientRelease)
    | .getRequestBytes _ => Except E Bytes
    | .createDirAll _ => Except E Unit
    | .readFile _ => Except E Bytes
    | .openFile _ => Except E Unit
    | .writeAll _ _ => Except E Unit
    | .syncAll _ => Except E Unit
    | .removeFile _ => Except E Unit
    | .spawn _ _ => Except E Child
    | .kill _ => Except E Unit
    | .wait _ => Except E Unit
    | .tryWait _ => Except E Bool
    | .retries => Nat
    | .sleep => Unit

abbrev Rpc (A : Type) := ExceptT (Error E) (Prog (api E)) A

variable {E} {A : Type}

/-- A call that cannot fail. -/
def ask (call : Call) : Rpc E ((api E).Answer call) := ExceptT.lift (Prog.request (api E) call)

/-- The `?` after a call that can fail. -/
def tryAsk (call : Prog (api E) (Except E A)) : Rpc E A :=
  ExceptT.mk (Except.mapError Error.system <$> call)

def retryWithLog (f : Rpc E A) : Rpc E A := do
  let retries ← ask .retries
  Prog.retry f retries

variable (setup : Setup E)

/-- `Path::join` -/
def join (path name : String) : PathBuf :=
  if name.toList.head? = some '/' then name
  else if path.toList.getLast? = some '/' ∨ path.isEmpty then path ++ name
  else path ++ "/" ++ name

def trimEndSlashes (uri : String) : String :=
  String.ofList (uri.toList.reverse.dropWhile (· == '/')).reverse

def getBinPath (uri : String) : Rpc E (String × PathBuf) := do
  let segments ← tryAsk (pure (setup.urlPathSegments (trimEndSlashes uri)))
  match segments.bind List.getLast? with
  | some binName =>
    if binName.isEmpty then throw .clientNameDerivationError
    else return (binName, join setup.downloadPath binName)
  | none => throw .clientNameDerivationError

def tryLoadDownloadedBinary (release : ClientRelease) : Rpc E Unit := do
  let (binName, binPath) ← getBinPath setup release.uri
  let fileContent ← tryCatch (tryAsk (Prog.request (api E) (.readFile binPath)))
    fun _ => throw .noDownloadedRelease
  let checksum := setup.sha256 fileContent
  if checksum ≠ release.checksum then throw .incorrectChecksum
  else ask (.setDownloadedRelease (some ⟨checksum, binPath, binName⟩))

/-- The file is opened with neither `truncate` nor `append`. -/
def fetchBinary (release : ClientRelease) : Rpc E DownloadedRelease := do
  let (binName, binPath) ← getBinPath setup release.uri
  tryAsk (Prog.request (api E) (.openFile binPath))
  let bytes ← retryWithLog (tryAsk (Prog.request (api E) (.getRequestBytes release.uri)))
  tryAsk (Prog.request (api E) (.writeAll binPath bytes))
  tryAsk (Prog.request (api E) (.syncAll binPath))
  let downloadedRelease := ⟨release.checksum, binPath, binName⟩
  ask (.setDownloadedRelease (some downloadedRelease))
  return downloadedRelease

/-- The on-chain release is not downloaded again. -/
def downloadBinary (release : ClientRelease) : Rpc E DownloadedRelease := do
  match ← ask .downloadedRelease with
  | some downloadedRelease =>
    if downloadedRelease.checksum = release.checksum then return downloadedRelease
    else fetchBinary setup release
  | none => fetchBinary setup release

def deleteDownloadedRelease : Rpc E Unit := do
  match ← ask .downloadedRelease with
  | none => throw .noDownloadedRelease
  | some release =>
    retryWithLog (tryAsk (Prog.request (api E) (.removeFile release.path)))
    ask (.setDownloadedRelease none)

/-- `try_into` an `i32`. -/
def pidOfChild (child : Child) : Except (Error E) Nat :=
  if child < 2 ^ 31 then .ok child else .error .integerConversionError

/-- The result of `kill` is inside that of the closure, where the retries do not see it. -/
def killChild (child : Child) : Rpc E (Except E Unit) := do
  let pid ← ExceptT.mk (pure (pidOfChild child))
  ask (.kill pid)

def terminateProcAndWait : Rpc E Nat := do
  match ← ask .childProc with
  | none => return 0
  | some child =>
    let _ ← tryCatch (retryWithLog (killChild child)) fun _ => throw .processTerminationFailure
    let _ ← ask (.wait child)
    ask (.setChildProc none)
    return child

def tryGetRelease : Rpc E (Option ClientRelease) :=
  retryWithLog (tryAsk (Prog.request (api E) .readChainStorage))

def checkChildProcAlive : Rpc E Bool := do
  match ← ask .childProc with
  | none => return false
  | some child =>
    let exited ← tryAsk (Prog.request (api E) (.tryWait child))
    if exited then do
      ask (.setChildProc none)
      return false
    else return true

/-- The method of the trait, which also stores the child. -/
def runBinary : Rpc E Unit := do
  match ← ask .childProc with
  | some _ => throw .childProcessExists
  | none =>
    match ← ask .downloadedRelease with
    | none => throw .noDownloadedRelease
    | some release =>
      let child ← retryWithLog
        (tryAsk (Prog.request (api E) (.spawn release.path setup.clientArgs)))
      ask (.setChildProc (some child))

def maybeRestartClient : Rpc E Unit := do
  let alive ← checkChildProcAlive
  if alive then return () else runBinary setup

/-- One round of the loop in `auto_update`. -/
def update : Rpc E Unit := do
  maybeRestartClient setup
  match ← tryGetRelease with
  | none => ask .sleep
  | some newRelease =>
    match ← ask .downloadedRelease with
    | none => throw .noDownloadedRelease
    | some downloadedRelease =>
      if newRelease.checksum ≠ downloadedRelease.checksum then do
        let _ ← terminateProcAndWait
        deleteDownloadedRelease
        let _ ← downloadBinary setup newRelease
        runBinary setup
        ask .sleep
      else ask .sleep

def updates : Nat → Rpc E Unit
  | 0 => return ()
  | rounds + 1 => do
    update setup
    updates rounds

/-- `auto_update` up to the given round of its loop. -/
def autoUpdate (rounds : Nat) : Rpc E Unit := do
  tryAsk (Prog.request (api E) (.createDirAll setup.downloadPath))
  match ← tryGetRelease with
  | none => throw .noCurrentClientRelease
  | some release =>
    tryCatch (tryLoadDownloadedBinary setup release) fun _ => do
      let _ ← downloadBinary setup release
    runBinary setup
    updates setup rounds

end Program

end InterBtcClients.Runner
