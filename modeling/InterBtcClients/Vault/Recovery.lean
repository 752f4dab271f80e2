import InterBtcClients.Library.Session
import InterBtcClients.Vault.PidFile
import Mathlib.Algebra.Group.Nat.Defs

/-! The file that vaults leave which are cut off at any call, one after the other, and what the next
`create` makes of it.  It takes what it can read over from a process that is gone or is no client;
but an empty file, which is left between the creation and the write, is an error for ever. -/

namespace InterBtcClients.Vault.Process

open Library

variable {E : Type}

/-! ### The lives before -/

/-- The ids that the system gives to processes. -/
abbrev ProcessId := { n : Nat // n < 2 ^ 31 }

/-- The answers to a client that is the only one, where `file` is what its file holds: of the calls
of the file system any can fail, and of a write that fails some characters may be written. -/
def lifeEnv : Prog.Env (api E) (Option String)
  | file, .pathExists _, r, file' => r = file.isSome ∧ file' = file
  | file, .readToString _, .ok text, file' => file = some text ∧ file' = file
  | _, .createFile _, .ok _, file' => file' = some ""
  | file, .writeAll _ text, .ok _, file' => file' = file.map fun old => overwrite old text
  | file, .writeAll _ text, .error _, file' => ∃ written,
      file' = file.map fun old => overwrite old (String.ofList (text.toList.take written))
  | _, .removeFile _, .ok _, file' => file' = none
  | file, _, _, file' => file' = file

/-- What is left of the file after any number of vaults, each of them cut off at any call. -/
def Leaves (setup : Setup E) (specName accountId : String) : Option String → Prop :=
  Prog.Session lifeEnv (fun _ => True) (fun n : ProcessId => vault setup specName accountId n)
    (· = none)

/-! ### The next process -/

/-- The process that is started now, and what it may find under each id at any time; its own id is
that of a process with its name. -/
structure Machine where
  processId : ProcessId
  name : String
  finds : Pid → Option String → Prop
  exists_finds : ∀ pid, ∃ process, finds pid process
  own : ∀ process, finds processId process ↔ process = some name

/-- The name that is answered for a process. -/
def nameOf (pid : Pid) : Option String → Except (Error E) String
  | some name => .ok name
  | none => .error (.processNotFound (toString pid))

/-- The file system does not fail. -/
def recoveryEnv (machine : Machine) : Prog.Env (api E) (Option String)
  | file, .pathExists _, r, file' => r = file.isSome ∧ file' = file
  | file, .readToString _, r, file' => r.toOption = file ∧ file' = file
  | file, .refreshProcess pid, r, file' =>
      (∃ process, machine.finds pid process ∧ r = process.isSome) ∧ file' = file
  | file, .processName pid, r, file' =>
      (∃ process, machine.finds pid process ∧ r = nameOf pid process) ∧ file' = file
  | _, .createFile _, r, file' => r = .ok () ∧ file' = some ""
  | file, .writeAll _ text, r, file' => r = .ok () ∧ file' = file.map fun old => overwrite old text
  | file, .syncAll _, r, file' => r = .ok () ∧ file' = file
  | _, .removeFile _, r, file' => r = .ok () ∧ file' = none
  | file, _, _, file' => file' = file

/-- `create`, and then `pid`. -/
def createAndRead (setup : Setup E) (specName accountId : String) (processId : Nat) :
    Rpc E Pid := do
  let pidFile ← ExceptT.mk (PidFile.create setup specName accountId processId)
  pidFile.pid setup

/-- `create` succeeds, and the pid that is read is the creator's, whatever is found. -/
structure Recovers (setup : Setup E) (specName accountId : String) (machine : Machine)
    (file : Option String) : Prop where
  returns : ∃ r file', Prog.Runs (recoveryEnv machine)
    (ExceptT.run (createAndRead setup specName accountId machine.processId)) file (.pure r) file'
  own : ∀ r file', Prog.Runs (recoveryEnv machine)
    (ExceptT.run (createAndRead setup specName accountId machine.processId)) file (.pure r) file' →
    r = .ok (machine.processId : Pid)

/-- The pid that the file records. -/
def Records (setup : Setup E) (file : Option String) (pid : Pid) : Prop :=
  ∃ text, file = some text ∧ setup.fromStr (stripNewline text) = .ok pid

/-- How the text of a process id is read. -/
structure Setup.Parses (setup : Setup E) : Prop where
  decimal : ∀ n : Nat, n < 2 ^ 31 → setup.fromStr (toString n) = .ok (n : Pid)
  empty : ∃ e, setup.fromStr "" = .error e

/-! ### What is left -/

/-- The file holds a part of the text of a process id, from its start. -/
def Partial (file : Option String) : Prop :=
  ∀ text, file = some text → ∃ n : ProcessId, text.toList <+: (pidText n).toList

theorem partial_none : Partial none := fun _ h => by cases h

theorem partial_empty : Partial (some "") := by
  rintro text ⟨⟩
  exact ⟨⟨0, by decide⟩, List.nil_prefix⟩

theorem overwrite_empty (text : String) : overwrite "" text = text := by
  simp [overwrite]

theorem partial_take (n : ProcessId) (written : Nat) :
    Partial (some (String.ofList ((pidText n).toList.take written))) := by
  rintro text ⟨⟩
  rw [String.toList_ofList]
  exact ⟨n, List.take_prefix _ _⟩

theorem partial_pidText (n : ProcessId) : Partial (some (pidText n)) := by
  rintro text ⟨⟩
  exact ⟨n, List.prefix_refl _⟩

/-- A call that does not write. -/
def NoWrite : Call → Prop
  | .writeAll _ _ => False
  | _ => True

theorem partial_of_noWrite {file file' : Option String} {call : Call} {r : (api E).Answer call}
    (hfile : Partial file) (hcall : NoWrite call) (h : lifeEnv file call r file') :
    Partial file' := by
  cases call with
  | writeAll path text => cases hcall
  | createFile path =>
    cases r with
    | ok a =>
      cases h
      exact partial_empty
    | error e =>
      cases h
      exact hfile
  | removeFile path =>
    cases r with
    | ok a =>
      cases h
      exact partial_none
    | error e =>
      cases h
      exact hfile
  | readToString path =>
    cases r with
    | ok text =>
      cases h.2
      exact hfile
    | error e =>
      cases h
      exact hfile
  | pathExists path =>
    cases h.2
    exact hfile
  | _ =>
    cases h
    exact hfile

section NoWrite

variable {setup : Setup E} {pidFile : PidFile}

theorem only_tryAsk {A : Type} {p : Prog (api E) (Except E A)} (h : Prog.Only NoWrite p) :
    Prog.Only NoWrite (ExceptT.run (tryAsk p)) :=
  Prog.only_bind h fun _ => trivial

theorem only_logPath : Prog.Only NoWrite (ExceptT.run (pidFile.logPath : Rpc E Unit)) := by
  unfold PidFile.logPath
  split
  · trivial
  · trivial

theorem only_ensureNotRunning (processId : Nat) :
    Prog.Only NoWrite (ExceptT.run (pidFile.ensureNotRunning setup processId)) := by
  have hpid : Prog.Only NoWrite (ExceptT.run (pidFile.pid setup)) :=
    Prog.only_run_bind (only_tryAsk ⟨trivial, fun _ => trivial⟩) fun _ => trivial
  refine Prog.only_run_bind hpid fun pid => ?_
  refine Prog.only_run_bind (Prog.only_run_lift ⟨trivial, fun _ => trivial⟩) fun running => ?_
  cases running with
  | false => exact only_logPath
  | true =>
    have hname : Prog.Only NoWrite
        (ExceptT.run (pidNameMatchesExistingClient (E := E) processId pid)) :=
      Prog.only_run_bind ⟨trivial, fun _ => trivial⟩ fun _ =>
        Prog.only_run_bind ⟨trivial, fun _ => trivial⟩ fun _ => trivial
    refine Prog.only_run_bind (Prog.only_run_lift hname) fun matching => ?_
    rcases matching with e | matching
    · cases e with
      | processNotFound pid => exact only_logPath
      | _ => trivial
    · cases matching with
      | true => trivial
      | false => exact only_logPath

theorem only_check (processId : Nat) :
    Prog.Only NoWrite (ExceptT.run (pidFile.check setup processId)) := by
  refine Prog.only_run_bind (Prog.only_run_lift ⟨trivial, fun _ => trivial⟩) fun found => ?_
  cases found with
  | true => exact Prog.only_run_bind (only_ensureNotRunning processId) fun _ => only_logPath
  | false => exact only_logPath

theorem only_drop : Prog.Only NoWrite (pidFile.drop : Prog (api E) Unit) := by
  refine Prog.only_bind ?_ fun _ => trivial
  unfold PidFile.remove
  split
  · split
    · trivial
    · exact only_tryAsk ⟨trivial, fun _ => trivial⟩
  · trivial

end NoWrite

section Life

variable {setup : Setup E} {pidFile : PidFile} {file : Option String} {A : Type}

/-- The rule for all parts but the write. -/
theorem keeps_of_noWrite {p : Prog (api E) A} (hp : Prog.Only NoWrite p) (hfile : Partial file) :
    Prog.Keeps lifeEnv Partial p (fun _ => Partial) file :=
  Prog.keeps_of_only (fun _ _ _ _ hfile hcall h => partial_of_noWrite hfile hcall h) hp hfile

theorem keeps_ask (call : Call) (hcall : NoWrite call) (hfile : Partial file) :
    Prog.Keeps lifeEnv Partial (ask (E := E) call) (fun _ => Partial) file :=
  keeps_of_noWrite ⟨hcall, fun _ => trivial⟩ hfile

/-- The file that is written to has just been created. -/
theorem keeps_setPid (n : ProcessId) (hfile : Partial file) :
    Prog.Keeps (lifeEnv (E := E)) Partial (pidFile.setPid n) (fun _ => Partial) file := by
  refine Prog.keeps_map.mpr ?_
  refine (Prog.keeps_run_seq (P := fun _ file => file = some "") (R := fun _ => Partial)
    (Q := fun _ => Partial) ?_ fun _ file _ hcreated => ?_).mono fun r file _ hr => ?_
  · refine Prog.keeps_map.mpr ⟨hfile, fun r file' h => ?_⟩
    cases r with
    | ok a =>
      cases h
      exact ⟨partial_empty, rfl⟩
    | error e =>
      cases h
      exact ⟨hfile, hfile⟩
  · subst hcreated
    refine Prog.keeps_run_seq (P := fun _ => Partial) ?_ fun _ file _ hwritten => ?_
    · refine Prog.keeps_map.mpr ⟨partial_empty, fun r file' h => ?_⟩
      cases r with
      | ok a =>
        cases h
        rw [Option.map_some, overwrite_empty]
        exact ⟨partial_pidText n, partial_pidText n⟩
      | error e =>
        obtain ⟨written, rfl⟩ := h
        rw [Option.map_some, overwrite_empty]
        exact ⟨partial_take n written, partial_take n written⟩
    · refine Prog.keeps_map.mpr
        ((keeps_ask (.syncAll _) trivial hwritten).mono fun r file _ h => ?_)
      exact Prog.Outcome.intro (fun _ _ => h) fun _ _ => h
  · cases r with
    | ok a => exact hr
    | error e => exact hr

theorem keeps_create (specName accountId : String) (n : ProcessId) (hfile : Partial file) :
    Prog.Keeps lifeEnv Partial (PidFile.create setup specName accountId n) (fun _ => Partial)
      file := by
  refine Prog.keeps_bind.mpr ?_
  refine (keeps_of_noWrite (only_check _) hfile).mono fun r file _ hfile => ?_
  cases r with
  | error e =>
    refine Prog.keeps_bind.mpr ((keeps_of_noWrite only_drop hfile).mono fun _ file _ hfile => ?_)
    exact ⟨hfile, hfile⟩
  | ok a =>
    refine Prog.keeps_bind.mpr ((keeps_setPid n hfile).mono fun result file _ hfile => ?_)
    obtain ⟨pidFile, result⟩ := result
    cases result with
    | error e =>
      refine Prog.keeps_bind.mpr ((keeps_of_noWrite only_drop hfile).mono fun _ file _ hfile => ?_)
      exact ⟨hfile, hfile⟩
    | ok a => exact ⟨hfile, hfile⟩

theorem keeps_vault (specName accountId : String) (n : ProcessId) (hfile : Partial file) :
    Prog.Keeps lifeEnv Partial (vault setup specName accountId n) (fun _ => Partial) file := by
  refine Prog.keeps_bind.mpr ?_
  refine (keeps_ask .start trivial hfile).mono fun _ file _ hfile => ?_
  refine Prog.keeps_bind.mpr ?_
  refine (keeps_ask .enter trivial hfile).mono fun _ file _ hfile => ?_
  refine Prog.keeps_bind.mpr ?_
  refine (keeps_create specName accountId n hfile).mono fun created file _ hfile => ?_
  refine Prog.keeps_bind.mpr ?_
  refine (keeps_ask .leave trivial hfile).mono fun _ file _ hfile => ?_
  cases created with
  | error e => exact ⟨hfile, hfile⟩
  | ok pidFile =>
    refine Prog.keeps_bind.mpr ((keeps_of_noWrite only_drop hfile).mono fun _ file _ hfile => ?_)
    exact ⟨hfile, hfile⟩

/-- Wherever the vaults were cut off, the file holds a part of the text of an id, if there is one.
-/
theorem partial_of_leaves {specName accountId : String} (h : Leaves setup specName accountId file) :
    Partial file := by
  refine h.inv (fun n _ hfile => keeps_vault specName accountId n hfile) ?_
  rintro _ rfl
  exact partial_none

end Life

/-! ### The texts that are read -/

/-- A part of a decimal number, from its start, is a decimal number. -/
theorem exists_of_prefix_toDigits {digits : List Char} {n : Nat} (h : digits <+: Nat.toDigits 10 n)
    (hne : digits ≠ []) : ∃ m ≤ n, digits = Nat.toDigits 10 m := by
  induction n using Nat.strongRecOn with
  | ind n ih =>
    by_cases hn : n < 10
    · rw [Nat.toDigits_of_lt_base hn, ← List.nil_append [n.digitChar]] at h
      rcases List.prefix_concat_iff.mp h with rfl | h
      · exact ⟨n, Nat.le_refl n, (Nat.toDigits_of_lt_base hn).symm⟩
      · exact absurd (List.prefix_nil.mp h) hne
    · rw [Nat.toDigits_of_base_le (by decide) (by omega)] at h
      rcases List.prefix_concat_iff.mp h with rfl | h
      · exact ⟨n, Nat.le_refl n, (Nat.toDigits_of_base_le (by decide) (by omega)).symm⟩
      · obtain ⟨m, hm, rfl⟩ := ih (n / 10) (by omega) h
        exact ⟨m, by omega, rfl⟩

theorem stripNewline_toString (n : Nat) : stripNewline (toString n) = toString n := by
  rw [stripNewline, if_neg]
  intro hlast
  have hmem := List.mem_of_getLast? hlast
  rw [Nat.toString_eq_repr, Nat.toList_repr] at hmem
  have hdigit := Nat.isDigit_of_mem_toDigits (by decide) (by decide) hmem
  revert hdigit
  decide

/-- A part that is not empty is read as the id or as one with fewer digits. -/
theorem exists_pid_of_partial {setup : Setup E} {text : String} (hparses : setup.Parses)
    (hfile : Partial (some text)) (hne : text ≠ "") :
    ∃ pid, setup.fromStr (stripNewline text) = .ok pid := by
  obtain ⟨n, hprefix⟩ := hfile text rfl
  have hlist : (pidText n).toList = (toString n.1).toList ++ ['\n'] := String.toList_append
  rw [hlist] at hprefix
  rcases List.prefix_concat_iff.mp hprefix with heq | hprefix
  · rw [String.toList_inj.mp (heq.trans hlist.symm), stripNewline_pidText]
    exact ⟨n.1, hparses.decimal n n.2⟩
  · rw [Nat.toString_eq_repr, Nat.toList_repr] at hprefix
    obtain ⟨m, hm, hdigits⟩ := exists_of_prefix_toDigits hprefix
      fun hnil => hne (String.toList_eq_nil_iff.mp hnil)
    have htext : text = toString m := by
      rw [Nat.toString_eq_repr, ← String.toList_inj, Nat.toList_repr, hdigits]
    rw [htext, stripNewline_toString]
    exact ⟨m, hparses.decimal m (Nat.lt_of_le_of_lt hm n.2)⟩

/-! ### What `create` makes of it -/

section Create

variable {setup : Setup E} {machine : Machine} {pidFile : PidFile} {file : Option String} {A : Type}

/-- No run of `p` fails. -/
def Passes (machine : Machine) (p : Rpc E A) (file : Option String) : Prop :=
  Prog.Keeps (recoveryEnv machine) (fun _ => True) (ExceptT.run p)
    (Prog.Outcome (fun _ _ => True) fun _ _ => False) file

theorem passes_logPath :
    Passes machine (pidFile.logPath : Rpc E Unit) file ↔ pidFile.path.intoString ≠ none := by
  unfold PidFile.logPath
  split
  next h =>
    rw [h]
    exact ⟨fun hpasses => absurd hpasses.2 id, fun hne => absurd rfl hne⟩
  next h =>
    rw [h]
    exact ⟨fun _ => by simp, fun _ => ⟨trivial, trivial⟩⟩

/-- The rule for calls about a process. -/
theorem keeps_lookup {call : Call} {pid : Pid} {answer : Option String → (api E).Answer call}
    {Q : (api E).Answer call → Option String → Prop}
    (hcall : ∀ r file', recoveryEnv machine file call r file' ↔
      (∃ process, machine.finds pid process ∧ r = answer process) ∧ file' = file) :
    Prog.Keeps (recoveryEnv machine) (fun _ => True) (ask call) Q file ↔
      ∀ process, machine.finds pid process → Q (answer process) file := by
  constructor
  · intro h process hprocess
    exact (h.2 _ _ ((hcall _ _).mpr ⟨⟨process, hprocess, rfl⟩, rfl⟩)).2
  · intro h
    refine ⟨trivial, fun r file' hr => ?_⟩
    obtain ⟨⟨process, hprocess, rfl⟩, rfl⟩ := (hcall r file').mp hr
    exact ⟨trivial, h process hprocess⟩

theorem keeps_refreshProcess {pid : Pid} {Q : Bool → Option String → Prop} :
    Prog.Keeps (recoveryEnv (E := E) machine) (fun _ => True) (ask (.refreshProcess pid)) Q file ↔
      ∀ process, machine.finds pid process → Q process.isSome file :=
  keeps_lookup fun _ _ => Iff.rfl

theorem keeps_processName {pid : Pid} {Q : Except (Error E) String → Option String → Prop} :
    Prog.Keeps (recoveryEnv (E := E) machine) (fun _ => True) (ask (.processName pid)) Q file ↔
      ∀ process, machine.finds pid process → Q (nameOf pid process) file :=
  keeps_lookup fun _ _ => Iff.rfl

/-- The creator finds its own name, and that of the process that has the recorded pid, if any. -/
theorem keeps_pidNameMatchesExistingClient {pid : Pid}
    {Q : Except (Error E) Bool → Option String → Prop} :
    Prog.Keeps (recoveryEnv machine) (fun _ => True)
        (ExceptT.run (pidNameMatchesExistingClient machine.processId pid)) Q file ↔
      (machine.finds pid none → Q (.error (.processNotFound (toString pid))) file) ∧
        ∀ name, machine.finds pid (some name) → Q (.ok (decide (machine.name = name))) file := by
  refine Prog.keeps_run_bind.trans (keeps_processName.trans ?_)
  have hnext (clientName : String) : Prog.Keeps (recoveryEnv machine) (fun _ => True)
      (ExceptT.run (do
        let name ← ExceptT.mk (ask (.processName pid))
        return decide (clientName = name) : Rpc E Bool)) Q file ↔
      (machine.finds pid none → Q (.error (.processNotFound (toString pid))) file) ∧
        ∀ name, machine.finds pid (some name) → Q (.ok (decide (clientName = name))) file := by
    refine Prog.keeps_run_bind.trans (keeps_processName.trans (Option.forall.trans ?_))
    refine and_congr_right fun _ => forall_congr' fun name => imp_congr_right fun _ => ?_
    exact and_iff_right trivial
  constructor
  · intro h
    exact (hnext machine.name).mp (h _ ((machine.own _).mpr rfl))
  · intro h process hprocess
    rw [(machine.own process).mp hprocess]
    exact (hnext machine.name).mpr h

/-- The file is there, and its text is read. -/
theorem keeps_pid {text : String} {Q : Except (Error E) Pid → Option String → Prop} :
    Prog.Keeps (recoveryEnv machine) (fun _ => True) (ExceptT.run (pidFile.pid setup)) Q
        (some text) ↔
      Q ((setup.fromStr (stripNewline text)).mapError .io) (some text) := by
  refine Prog.keeps_run_bind.trans (Prog.keeps_map.trans ?_)
  constructor
  · intro h
    exact ((h.2 (.ok text) (some text) ⟨rfl, rfl⟩).2).2
  · intro h
    refine ⟨trivial, fun r file hr => ?_⟩
    obtain ⟨hr, rfl⟩ := hr
    rw [Prog.ok_of_toOption hr]
    exact ⟨trivial, trivial, h⟩

theorem passes_ensureNotRunning_of_ok {text : String} {pid : Pid}
    (hpid : setup.fromStr (stripNewline text) = .ok pid) :
    Passes machine (pidFile.ensureNotRunning setup machine.processId) (some text) ↔
      pidFile.path.intoString ≠ none ∧ ¬ machine.finds pid (some machine.name) := by
  refine (Prog.keeps_run_bind.trans keeps_pid).trans ?_
  rw [hpid]
  refine (Prog.keeps_run_bind.trans (Prog.keeps_run_lift.trans keeps_refreshProcess)).trans ?_
  constructor
  · intro h
    have hsome (name : String) (hname : machine.finds pid (some name)) :
        pidFile.path.intoString ≠ none ∧ machine.name ≠ name := by
      have hrunning := (keeps_pidNameMatchesExistingClient.mp
        (Prog.keeps_run_lift.mp (Prog.keeps_run_bind.mp (h _ hname)))).2 name hname
      by_cases hmatch : machine.name = name
      · rw [decide_eq_true hmatch] at hrunning
        exact absurd hrunning.2 id
      · rw [decide_eq_false hmatch] at hrunning
        exact ⟨passes_logPath.mp hrunning, hmatch⟩
    obtain ⟨process, hprocess⟩ := machine.exists_finds pid
    refine ⟨?_, fun hname => (hsome _ hname).2 rfl⟩
    cases process with
    | none => exact passes_logPath.mp (h _ hprocess)
    | some name => exact (hsome name hprocess).1
  · rintro ⟨hpath, hname⟩ process hprocess
    cases process with
    | none => exact passes_logPath.mpr hpath
    | some name =>
      refine Prog.keeps_run_bind.mpr (Prog.keeps_run_lift.mpr
        (keeps_pidNameMatchesExistingClient.mpr ⟨fun _ => passes_logPath.mpr hpath, ?_⟩))
      intro other hother
      have hmatch : machine.name ≠ other := fun heq => hname (heq ▸ hother)
      rw [decide_eq_false hmatch]
      exact passes_logPath.mpr hpath

theorem not_passes_ensureNotRunning {text : String} {e : E}
    (herror : setup.fromStr (stripNewline text) = .error e) :
    ¬ Passes machine (pidFile.ensureNotRunning setup machine.processId) (some text) := by
  intro h
  have hpid := keeps_pid.mp (Prog.keeps_run_bind.mp h)
  rw [herror] at hpid
  exact hpid

/-- The check passes a file that is not there, or whose pid is that of no process with the name of
the creator. -/
theorem passes_check : Passes machine (pidFile.check setup machine.processId) file ↔
    pidFile.path.intoString ≠ none ∧
      ∀ text, file = some text → ∃ pid, setup.fromStr (stripNewline text) = .ok pid ∧
        ¬ machine.finds pid (some machine.name) := by
  refine (Prog.keeps_run_bind.trans Prog.keeps_run_lift).trans ?_
  cases file with
  | none =>
    constructor
    · intro h
      exact ⟨passes_logPath.mp (h.2 false none ⟨rfl, rfl⟩).2, fun text htext => by cases htext⟩
    · rintro ⟨hpath, -⟩
      refine ⟨trivial, ?_⟩
      rintro _ _ ⟨rfl, rfl⟩
      exact ⟨trivial, passes_logPath.mpr hpath⟩
  | some text =>
    constructor
    · intro h
      have hpasses :
          Passes machine (pidFile.ensureNotRunning setup machine.processId) (some text) := by
        refine (Prog.keeps_run_bind.mp (h.2 true (some text) ⟨rfl, rfl⟩).2).mono
          fun r file _ hr => ?_
        cases r with
        | ok a => trivial
        | error e => exact hr
      cases hpid : setup.fromStr (stripNewline text) with
      | error e => exact absurd hpasses (not_passes_ensureNotRunning hpid)
      | ok pid =>
        obtain ⟨hpath, hname⟩ := (passes_ensureNotRunning_of_ok hpid).mp hpasses
        refine ⟨hpath, ?_⟩
        rintro _ ⟨⟩
        exact ⟨pid, hpid, hname⟩
    · rintro ⟨hpath, hfile⟩
      obtain ⟨pid, hpid, hname⟩ := hfile text rfl
      refine ⟨trivial, ?_⟩
      rintro _ _ ⟨rfl, rfl⟩
      refine ⟨trivial, Prog.keeps_run_bind.mpr ?_⟩
      refine ((passes_ensureNotRunning_of_ok hpid).mpr ⟨hpath, hname⟩).mono fun r file _ hr => ?_
      cases r with
      | ok a => exact passes_logPath.mpr hpath
      | error e => exact hr

theorem keeps_setPid_recovery (n : Nat) :
    Prog.Keeps (recoveryEnv (E := E) machine) (fun _ => True) (pidFile.setPid n)
      (fun r file => r = ({ pidFile with createdPidfile := true }, .ok ()) ∧
        file = some (pidText n)) file := by
  refine Prog.keeps_map.mpr (Prog.keeps_run_bind.mpr (Prog.keeps_map.mpr ⟨trivial, ?_⟩))
  rintro _ _ ⟨rfl, rfl⟩
  refine ⟨trivial, Prog.keeps_run_bind.mpr (Prog.keeps_map.mpr ⟨trivial, ?_⟩)⟩
  rintro _ _ ⟨rfl, rfl⟩
  refine ⟨trivial, Prog.keeps_map.mpr ⟨trivial, ?_⟩⟩
  rintro _ _ ⟨rfl, rfl⟩
  exact ⟨trivial, rfl, by rw [Option.map_some, overwrite_empty]⟩

/-- What is created after the check has the creator's own pid. -/
theorem keeps_createAndRead (hparses : setup.Parses) (specName accountId : String) :
    Prog.Keeps (recoveryEnv machine) (fun _ => True)
        (ExceptT.run (createAndRead setup specName accountId machine.processId))
        (fun r _ => r = .ok (machine.processId : Pid)) file ↔
      Passes machine ((PidFile.new setup specName accountId).check setup machine.processId)
        file := by
  refine Prog.keeps_run_bind.trans (Prog.keeps_bind.trans (Prog.keeps_congr fun r file _ => ?_))
  cases r with
  | error e =>
    constructor
    · intro h
      cases h.2
    · intro h
      cases h
  | ok a =>
    refine iff_of_true (Prog.keeps_bind.mpr ?_) trivial
    refine (keeps_setPid_recovery machine.processId).mono fun result file _ h => ?_
    obtain ⟨rfl, rfl⟩ := h
    refine ⟨trivial, keeps_pid.mpr ?_⟩
    rw [stripNewline_pidText, hparses.decimal _ machine.processId.2]
    rfl

/-- Every call is answered. -/
theorem exists_recoveryEnv (hparses : setup.Parses) (file : Option String) (call : Call) :
    ∃ r file', recoveryEnv (E := E) machine file call r file' := by
  cases call with
  | readToString path =>
    cases file with
    | none =>
      obtain ⟨e, -⟩ := hparses.empty
      exact ⟨.error e, none, rfl, rfl⟩
    | some text => exact ⟨.ok text, some text, rfl, rfl⟩
  | refreshProcess pid | processName pid =>
    obtain ⟨process, hprocess⟩ := machine.exists_finds pid
    exact ⟨_, file, ⟨process, hprocess, rfl⟩, rfl⟩
  | pathExists path | createFile path | writeAll path text | syncAll path | removeFile path =>
    exact ⟨_, _, rfl, rfl⟩
  | start | enter | leave => exact ⟨(), file, rfl⟩

/-- What a file has to hold for the next `create` to succeed. -/
theorem recovers_iff_readable (hparses : setup.Parses) (specName accountId : String) :
    Recovers setup specName accountId machine file ↔
      (PidFile.computePath setup specName accountId).intoString ≠ none ∧
        ∀ text, file = some text → ∃ pid, setup.fromStr (stripNewline text) = .ok pid ∧
          ¬ machine.finds pid (some machine.name) := by
  have hcheck := (@keeps_createAndRead E setup machine file hparses specName accountId).trans
    passes_check
  constructor
  · rintro ⟨-, hown⟩
    exact hcheck.mp (Prog.keeps_iff_returns.mpr hown)
  · intro h
    have hkeeps := hcheck.mpr h
    obtain ⟨r, file', hruns, -⟩ := hkeeps.exists_returns fun file call _ =>
      exists_recoveryEnv hparses file call
    exact ⟨⟨r, file', hruns⟩, fun r file' hruns => hkeeps.returns hruns⟩

/-- An empty file is an error for every process. -/
theorem not_recovers_empty (hparses : setup.Parses) (specName accountId : String) :
    ¬ Recovers setup specName accountId machine (some "") := by
  intro h
  obtain ⟨pid, hpid, -⟩ := ((recovers_iff_readable hparses specName accountId).mp h).2 "" rfl
  obtain ⟨e, he⟩ := hparses.empty
  cases he.symm.trans hpid

/-- A process takes itself for the one that has left a file with its id. -/
theorem not_recovers_own (hparses : setup.Parses) (specName accountId : String) :
    ¬ Recovers setup specName accountId machine (some (pidText machine.processId)) := by
  intro h
  obtain ⟨pid, hpid, hname⟩ := ((recovers_iff_readable hparses specName accountId).mp h).2 _ rfl
  rw [stripNewline_pidText, hparses.decimal _ machine.processId.2] at hpid
  cases hpid
  exact hname ((machine.own _).mpr rfl)

end Create

/-- The next `create` fails just on a file that is empty, or whose pid is that of a process with the
creator's name, as the creator itself is; and on every one if the path has no text. -/
theorem recovers_iff {setup : Setup E} (hparses : setup.Parses) (specName accountId : String)
    {file : Option String} (hleaves : Leaves setup specName accountId file) (machine : Machine) :
    Recovers setup specName accountId machine file ↔
      (PidFile.computePath setup specName accountId).intoString ≠ none ∧ file ≠ some "" ∧
        ∀ pid, Records setup file pid → ¬ machine.finds pid (some machine.name) := by
  rw [recovers_iff_readable hparses]
  constructor
  · rintro ⟨hpath, hread⟩
    refine ⟨hpath, ?_, ?_⟩
    · rintro rfl
      exact not_recovers_empty hparses specName accountId
        ((recovers_iff_readable hparses specName accountId).mpr ⟨hpath, hread⟩)
    · rintro pid ⟨text, htext, hpid⟩
      obtain ⟨pid', hpid', hname⟩ := hread text htext
      cases hpid.symm.trans hpid'
      exact hname
  · rintro ⟨hpath, hempty, hname⟩
    refine ⟨hpath, ?_⟩
    rintro text rfl
    obtain ⟨pid, hpid⟩ := exists_pid_of_partial hparses (partial_of_leaves hleaves)
      fun heq => hempty (congrArg some heq)
    exact ⟨pid, hpid, hname pid ⟨text, rfl, hpid⟩⟩

/-! ### Vaults that are killed -/

theorem parses_tmpSetup : tmpSetup.Parses where
  decimal n _ := by
    have hlist : (toString n).toList = Nat.toDigits 10 n := by
      rw [Nat.toString_eq_repr, Nat.toList_repr]
    have hdigits : (toString n).toList.all Char.isDigit = true := by
      rw [hlist, List.all_eq_true]
      exact fun c hc => Nat.isDigit_of_mem_toDigits (by decide) (by decide) hc
    have hne : toString n ≠ "" := by
      rw [Nat.toString_eq_repr]
      exact Nat.repr_ne_empty
    show decimal (toString n) = _
    rw [decimal, if_pos ⟨hne, hdigits⟩, hlist, Nat.ofDigitChars_ten_toDigits]
  empty := ⟨(), rfl⟩

/-- All calls succeed, and there is no other process. -/
def serveLife (file : Option String) : (call : Call) → (api Unit).Answer call × Option String
  | .pathExists _ => (file.isSome, file)
  | .readToString _ => (file.elim (.error ()) .ok, file)
  | .refreshProcess _ => (false, file)
  | .processName pid => (nameOf pid none, file)
  | .createFile _ => (.ok (), some "")
  | .writeAll _ text => (.ok (), file.map fun old => overwrite old text)
  | .syncAll _ => (.ok (), file)
  | .removeFile _ => (.ok (), none)
  | .start | .enter | .leave => ((), file)

theorem lifeEnv_serveLife (file : Option String) (call : Call) :
    lifeEnv file call (serveLife file call).1 (serveLife file call).2 := by
  cases call with
  | readToString path =>
    cases file with
    | none => rfl
    | some text => exact ⟨rfl, rfl⟩
  | pathExists path => exact ⟨rfl, rfl⟩
  | _ => rfl

/-- The vault with the id `n` is killed after some of its calls. -/
theorem leaves_cut (n : ProcessId) (calls : Nat) : Leaves tmpSetup "kintsugi" "5F"
    (Prog.cut serveLife calls (vault tmpSetup "kintsugi" "5F" n) none).2 := by
  refine .next (.start rfl) (Prog.runs_cut lifeEnv_serveLife calls _ _) ?_
  cases (Prog.cut serveLife calls (vault tmpSetup "kintsugi" "5F" n) none).1 <;> trivial

/-- The process 42, among others that are no clients. -/
def amongOthers : Machine where
  processId := ⟨42, by decide⟩
  name := "vault"
  finds pid process := if pid = 42 then process = some "vault" else process ≠ some "vault"
  exists_finds pid := by
    by_cases hpid : pid = 42
    · exact ⟨some "vault", by rw [if_pos hpid]⟩
    · exact ⟨none, by rw [if_neg hpid]; simp⟩
  own process := by simp

/-- The pid of a vault that was killed is taken over by other programs, or by none. -/
theorem recovers_iff_amongOthers :
    Recovers tmpSetup "kintsugi" "5F" amongOthers (some "41\n") := by
  have hleaves := leaves_cut ⟨41, by decide⟩ 6
  have hfile : (Prog.cut serveLife 6 (vault tmpSetup "kintsugi" "5F" 41) none).2 = some "41\n" := by
    decide +kernel
  rw [hfile] at hleaves
  refine (recovers_iff parses_tmpSetup "kintsugi" "5F" hleaves amongOthers).mpr ⟨?_, ?_, ?_⟩
  · decide +kernel
  · decide
  · rintro pid ⟨_, ⟨⟩, hpid⟩
    have hread : tmpSetup.fromStr (stripNewline "41\n") = .ok 41 := rfl
    obtain rfl := Except.ok.inj (hpid.symm.trans hread)
    simp [amongOthers]

/-- A vault that is killed before the write leaves an empty file. -/
theorem not_recovers :
    Leaves tmpSetup "kintsugi" "5F" (some "") ∧
      ¬ Recovers tmpSetup "kintsugi" "5F" amongOthers (some "") := by
  have hleaves := leaves_cut ⟨41, by decide⟩ 4
  have hfile : (Prog.cut serveLife 4 (vault tmpSetup "kintsugi" "5F" 41) none).2 = some "" := by
    decide +kernel
  rw [hfile] at hleaves
  exact ⟨hleaves, not_recovers_empty parses_tmpSetup "kintsugi" "5F"⟩

end InterBtcClients.Vault.Process
