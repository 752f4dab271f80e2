import InterBtcClients.Library.Pool

/-! The file with the process id of a running vault, which keeps a second vault of the account from
starting: never two of them run in the runs in which no two processes create the file at once. -/

namespace InterBtcClients.Vault.Process

open Library

/-- The `i32` of a process id. -/
abbrev Pid := Int

structure PathBuf where
  bytes : List UInt8
  deriving DecidableEq

/-- A name that starts with a slash is a path of its own. -/
def PathBuf.join (path : PathBuf) (name : String) : PathBuf :=
  if name.toList.head? = some '/' then ⟨name.toUTF8.toList⟩
  else if path.bytes.getLast? = some 47 ∨ path.bytes = [] then ⟨path.bytes ++ name.toUTF8.toList⟩
  else ⟨path.bytes ++ 47 :: name.toUTF8.toList⟩

def PathBuf.intoString (path : PathBuf) : Option String := String.fromUTF8? ⟨path.bytes.toArray⟩

/-- `io` wraps the errors of the operating system and of what is parsed. -/
inductive Error (E : Type)
  | io (e : E)
  | osStringError
  | processNotFound (pid : String)
  | serviceAlreadyRunning (pid : Nat)

/-- The directory for temporary files, and how a process id is read from a text. -/
structure Setup (E : Type) where
  tempDir : PathBuf
  fromStr : String → Except E Pid

structure PidFile where
  path : PathBuf
  createdPidfile : Bool

/-! ### The program -/

/-- `start`, `enter` and `leave` are no calls of the source: a process is started, and it calls
`create` and returns from it. -/
inductive Call
  | start
  | enter
  | leave
  | pathExists (path : PathBuf)
  | readToString (path : PathBuf)
  | refreshProcess (pid : Pid)
  | processName (pid : Pid)
  | createFile (path : PathBuf)
  | writeAll (path : PathBuf) (text : String)
  | syncAll (path : PathBuf)
  | removeFile (path : PathBuf)

@[reducible] def api (E : Type) : Interface where
  Call := Call
  Answer
    | .start => Unit
    | .enter => Unit
    | .leave => Unit
    | .pathExists _ => Bool
    | .readToString _ => Except E String
    | .refreshProcess _ => Bool
    | .processName _ => Except (Error E) String
    | .createFile _ => Except E Unit
    | .writeAll _ _ => Except E Unit
    | .syncAll _ => Except E Unit
    | .removeFile _ => Except E Unit

variable {E : Type}

abbrev Rpc (E A : Type) := ExceptT (Error E) (Prog (api E)) A

abbrev ask (call : Call) : Prog (api E) ((api E).Answer call) := Prog.request (api E) call

/-- The `?` after a call of the operating system. -/
def tryAsk {A : Type} (call : Prog (api E) (Except E A)) : Rpc E A :=
  ExceptT.mk (Except.mapError Error.io <$> call)

/-- `strip_suffix`, or the text itself. -/
def stripNewline (text : String) : String :=
  if text.toList.getLast? = some '\n' then String.ofList text.toList.dropLast else text

/-- What is written to the file. -/
def pidText (pid : Nat) : String := toString pid ++ "\n"

/-- `as_u32` -/
def asU32 (pid : Pid) : Nat := (pid % 4294967296).toNat

def pidNameMatchesExistingClient (processId : Nat) (pidfileValue : Pid) : Rpc E Bool := do
  let clientName ← ExceptT.mk (ask (.processName processId))
  let name ← ExceptT.mk (ask (.processName pidfileValue))
  return clientName = name

namespace PidFile

variable (setup : Setup E)

def computePath (specName accountId : String) : PathBuf :=
  setup.tempDir.join (specName ++ "_" ++ accountId ++ ".pid")

def new (specName accountId : String) : PidFile := ⟨computePath setup specName accountId, false⟩

def pid (pidFile : PidFile) : Rpc E Pid := do
  let content ← tryAsk (ask (.readToString pidFile.path))
  tryAsk (pure (setup.fromStr (stripNewline content)))

/-- The flag is set before the file is created. -/
def setPid (pidFile : PidFile) (pid : Nat) : Prog (api E) (PidFile × Except (Error E) Unit) := do
  let pidFile := { pidFile with createdPidfile := true }
  let file ← ExceptT.run do
    tryAsk (ask (.createFile pidFile.path))
    tryAsk (ask (.writeAll pidFile.path (pidText pid)))
    tryAsk (ask (.syncAll pidFile.path))
  return (pidFile, file)

def remove (pidFile : PidFile) : Rpc E Unit := do
  if pidFile.createdPidfile then
    match pidFile.path.intoString with
    | none => throw .osStringError
    | some _ => tryAsk (ask (.removeFile pidFile.path))
  else return ()

/-- A failure is only logged. -/
def drop (pidFile : PidFile) : Prog (api E) Unit := do
  let _ ← ExceptT.run pidFile.remove

/-- The path is logged. -/
def logPath (pidFile : PidFile) : Rpc E Unit :=
  match pidFile.path.intoString with
  | none => throw .osStringError
  | some _ => return ()

/-- The process of a file that exists is no client that is running. -/
def ensureNotRunning (pidFile : PidFile) (processId : Nat) : Rpc E Unit := do
  let pid ← pidFile.pid setup
  if ← ExceptT.lift (ask (.refreshProcess pid)) then
    match ← ExceptT.lift (ExceptT.run (pidNameMatchesExistingClient processId pid)) with
    | .ok true => throw (.serviceAlreadyRunning (asU32 pid))
    | .ok false => pidFile.logPath
    | .error (.processNotFound _) => pidFile.logPath
    | .error e => throw e
  else pidFile.logPath

/-- What `create` does before it sets the pid. -/
def check (pidFile : PidFile) (processId : Nat) : Rpc E Unit := do
  if ← ExceptT.lift (ask (.pathExists pidFile.path)) then pidFile.ensureNotRunning setup processId
  pidFile.logPath

/-- A `PidFile` is dropped when `create` fails. -/
def create (specName accountId : String) (processId : Nat) :
    Prog (api E) (Except (Error E) PidFile) := do
  let pidFile := new setup specName accountId
  match ← ExceptT.run (pidFile.check setup processId) with
  | .error e =>
    pidFile.drop
    return .error e
  | .ok _ =>
    let (pidFile, file) ← pidFile.setPid processId
    match file with
    | .error e =>
      pidFile.drop
      return .error e
    | .ok _ => return .ok pidFile

end PidFile

/-- A vault that drops its `PidFile` when it ends. -/
def vault (setup : Setup E) (specName accountId : String) (processId : Nat) :
    Prog (api E) (Except (Error E) Unit) := do
  ask .start
  ask .enter
  let pidFile ← PidFile.create setup specName accountId processId
  ask .leave
  match pidFile with
  | .error e => return .error e
  | .ok pidFile =>
    pidFile.drop
    return .ok ()

end InterBtcClients.Vault.Process
