import InterBtcClients.Vault.Process

/-! Any number of vaults of one account that start and end at once, with one file for their process
ids: never two of them hold it in the runs in which no two of them are in `create` at once. -/

namespace InterBtcClients.Vault.Process

open Library

variable {E ι : Type}

/-- The processes of a client. -/
structure Clients (ι : Type) where
  processId : ι → Nat
  name : String

/-- The file at the path of the account, the names of all processes by their ids, and of the clients
those that are alive, whose file is still the one at the path, that are in `create`, and that hold a
`PidFile` that `create` has returned. -/
structure World (ι : Type) where
  file : Option String
  processes : Pid → Option String
  alive : ι → Bool
  opened : ι → Bool
  creating : ι → Bool
  holds : ι → Bool

/-- What a file holds after `text` is written at its start. -/
def overwrite (old text : String) : String := text ++ String.ofList (old.toList.drop text.length)

namespace World

def start (file : Option String) (processes : Pid → Option String) : World ι :=
  ⟨file, processes, fun _ => false, fun _ => false, fun _ => false, fun _ => false⟩

variable [DecidableEq ι]

def spawn (w : World ι) (clients : Clients ι) (i : ι) : World ι :=
  { w with
    processes := Function.update w.processes (clients.processId i) (some clients.name)
    alive := Function.update w.alive i true }

def exit (w : World ι) (clients : Clients ι) (i : ι) : World ι :=
  { w with
    processes := Function.update w.processes (clients.processId i) none
    alive := Function.update w.alive i false
    creating := Function.update w.creating i false
    holds := Function.update w.holds i false }

def createFile (w : World ι) (i : ι) : World ι :=
  { w with file := some "", opened := Function.update w.opened i true }

/-- A file that has been removed is written to, but not seen. -/
def write (w : World ι) (i : ι) (text : String) : World ι :=
  if w.opened i then { w with file := w.file.map fun old => overwrite old text } else w

def hold (w : World ι) (i : ι) : World ι := { w with holds := Function.update w.holds i true }

def release (w : World ι) (i : ι) : World ι := { w with holds := Function.update w.holds i false }

def removeFile (w : World ι) : World ι := { w with file := none, opened := fun _ => false }

end World

variable [DecidableEq ι]

/-- The answers to a process that is alive. -/
def answerEnv (i : ι) : Prog.Env (api E) (World ι)
  | w, .enter, _, w' => w' = { w with creating := Function.update w.creating i true }
  | w, .leave, _, w' => w' = { w with creating := Function.update w.creating i false }
  | w, .pathExists _, r, w' => r = w.file.isSome ∧ w' = w
  | w, .readToString _, .ok text, w' => w.file = some text ∧ w' = w
  | w, .refreshProcess pid, r, w' => r = (w.processes pid).isSome ∧ w' = w
  | w, .processName pid, r, w' => (∀ name, w.processes pid = some name → r = .ok name) ∧ w' = w
  | w, .createFile _, .ok _, w' => w' = w.createFile i
  | w, .writeAll _ text, .ok _, w' => w' = w.write i text
  | w, .writeAll _ text, .error _, w' => ∃ written,
      w' = w.write i (String.ofList (text.toList.take written))
  | w, .syncAll _, .ok _, w' => w' = w.hold i
  | w, .removeFile _, .ok _, w' => w' = (w.release i).removeFile
  | w, .removeFile _, .error _, w' => w' = w.release i
  | w, _, _, w' => w' = w

/-- A process is started with an id that no other one has. -/
def processEnv (clients : Clients ι) (i : ι) : Prog.Env (api E) (World ι)
  | w, .start, _, w' => w.alive i = false ∧ w.processes (clients.processId i) = none ∧
      w' = w.spawn clients i
  | w, call, r, w' => w.alive i = true ∧ answerEnv i w call r w'

/-- A client ends at any time, and so do all other processes, which are also started. -/
inductive Happens (clients : Clients ι) : World ι → World ι → Prop
  | exit {w : World ι} {i : ι} (h : w.alive i = true) : Happens clients w (w.exit clients i)
  | processes {w : World ι} {processes : Pid → Option String}
      (h : ∀ i, w.alive i = true →
        processes (clients.processId i) = w.processes (clients.processId i)) :
      Happens clients w { w with processes }

/-- No other process is in `create`. -/
def Alone (w : World ι) : Call → Prop
  | .enter => ∀ j, w.creating j = false
  | _ => True

/-- The surroundings in which `create` is entered only then. -/
def serialEnv (clients : Clients ι) (i : ι) : Prog.Env (api E) (World ι) :=
  fun w call r w' => processEnv clients i w call r w' ∧ Alone w call

/-! ### What a process relies on and what it guarantees -/

structure Inv (clients : Clients ι) (w : World ι) : Prop where
  alive : ∀ i, w.alive i = true → w.processes (clients.processId i) = some clients.name
  distinct : ∀ i j, w.alive i = true → w.alive j = true →
    clients.processId i = clients.processId j → i = j
  creating : ∀ i j, w.creating i = true → w.creating j = true → i = j
  holder : ∀ i, w.holds i = true → w.alive i = true
  unique : ∀ i j, w.holds i = true → w.holds j = true → i = j
  file : ∀ i, w.holds i = true → w.file = some (pidText (clients.processId i))

/-- While a process is in `create`, no other one comes to hold the file, and when none does, none
changes it. -/
structure Relies (clients : Clients ι) (i : ι) (w w' : World ι) : Prop where
  inv : Inv clients w → Inv clients w'
  own : w'.alive i = true →
    w.alive i = true ∧ w'.creating i = w.creating i ∧ w'.holds i = w.holds i
  holds : Inv clients w → w.creating i = true → w'.alive i = true →
    ∀ j, w'.holds j = true → w.holds j = true
  file : Inv clients w → w.creating i = true → w'.alive i = true → (∀ j, w.holds j = false) →
    w'.file = w.file ∧ w'.opened i = w.opened i

structure Grants (clients : Clients ι) (i : ι) (w w' : World ι) : Prop where
  inv : Inv clients w → Inv clients w'
  others : ∀ j, j ≠ i →
    w'.alive j = w.alive j ∧ w'.creating j = w.creating j ∧ w'.holds j = w.holds j
  holds : w'.holds i = true → w.holds i = true ∨ w.creating i = true
  file : (w'.file = w.file ∧ ∀ j, j ≠ i → w'.opened j = w.opened j) ∨ w.holds i = true ∨
    w.creating i = true ∧ ∀ j, w.holds j = false

section Steps

variable {clients : Clients ι} {i : ι} {w w' : World ι}

omit [DecidableEq ι] in
theorem Grants.refl (clients : Clients ι) (i : ι) (w : World ι) : Grants clients i w w :=
  ⟨id, fun _ _ => ⟨rfl, rfl, rfl⟩, .inl, .inl ⟨rfl, fun _ _ => rfl⟩⟩

theorem Inv.exit (h : Inv clients w) (hi : w.alive i = true) : Inv clients (w.exit clients i) := by
  have halive {j : ι} (hj : (w.exit clients i).alive j = true) : j ≠ i ∧ w.alive j = true := by
    by_cases hji : j = i
    · subst hji
      simp [World.exit] at hj
    · simp only [World.exit, Function.update_of_ne hji] at hj
      exact ⟨hji, hj⟩
  have hcreating {j : ι} (hj : (w.exit clients i).creating j = true) : w.creating j = true := by
    by_cases hji : j = i
    · subst hji
      simp [World.exit] at hj
    · simpa only [World.exit, Function.update_of_ne hji] using hj
  have hholds {j : ι} (hj : (w.exit clients i).holds j = true) : j ≠ i ∧ w.holds j = true := by
    by_cases hji : j = i
    · subst hji
      simp [World.exit] at hj
    · simp only [World.exit, Function.update_of_ne hji] at hj
      exact ⟨hji, hj⟩
  refine ⟨fun j hj => ?_, fun j k hj hk => h.distinct j k (halive hj).2 (halive hk).2,
    fun j k hj hk => h.creating j k (hcreating hj) (hcreating hk), fun j hj => ?_,
    fun j k hj hk => h.unique j k (hholds hj).2 (hholds hk).2, fun j hj => h.file j (hholds hj).2⟩
  · obtain ⟨hji, hj⟩ := halive hj
    have hne : (clients.processId j : Pid) ≠ clients.processId i := by
      intro heq
      exact hji (h.distinct j i hj hi (Int.ofNat.inj heq))
    simp only [World.exit, Function.update_of_ne hne]
    exact h.alive j hj
  · obtain ⟨hji, hj⟩ := hholds hj
    simp only [World.exit, Function.update_of_ne hji]
    exact h.holder j hj

theorem Inv.happens (h : Inv clients w) (hhappens : Happens clients w w') : Inv clients w' := by
  cases hhappens with
  | exit hi => exact h.exit hi
  | processes hprocesses =>
    exact ⟨fun j hj => (hprocesses j hj).trans (h.alive j hj), h.distinct, h.creating, h.holder,
      h.unique, h.file⟩

theorem cooperates (clients : Clients ι) :
    Prog.Cooperates (Relies clients) (Grants clients) (Happens clients) where
  refl i w := ⟨id, fun h => ⟨h, rfl, rfl⟩, fun _ _ _ _ => id, fun _ _ _ _ => ⟨rfl, rfl⟩⟩
  trans {i w w' w''} h h' := by
    refine ⟨h'.inv ∘ h.inv, fun halive => ?_, fun hinv hcreating halive j hj => ?_,
      fun hinv hcreating halive hnone => ?_⟩
    · obtain ⟨halive', hcreating', hholds'⟩ := h'.own halive
      obtain ⟨halive'', hcreating'', hholds''⟩ := h.own halive'
      exact ⟨halive'', hcreating'.trans hcreating'', hholds'.trans hholds''⟩
    · obtain ⟨halive', -, -⟩ := h'.own halive
      have hcreating' := (h.own halive').2.1.trans hcreating
      exact h.holds hinv hcreating halive' j (h'.holds (h.inv hinv) hcreating' halive j hj)
    · obtain ⟨halive', -, -⟩ := h'.own halive
      have hcreating' := (h.own halive').2.1.trans hcreating
      have hnone' (j : ι) : w'.holds j = false := by
        refine Bool.eq_false_iff.mpr fun hj => ?_
        have := h.holds hinv hcreating halive' j hj
        rw [hnone j] at this
        cases this
      obtain ⟨hfile, hopened⟩ := h.file hinv hcreating halive' hnone
      obtain ⟨hfile', hopened'⟩ := h'.file (h.inv hinv) hcreating' halive hnone'
      exact ⟨hfile'.trans hfile, hopened'.trans hopened⟩
  idle := Grants.refl clients
  relies {i j w w'} hij h := by
    obtain ⟨halive, hcreating, hholds⟩ := h.others j hij.symm
    -- two processes are never in `create` at once
    have hnot (hinv : Inv clients w) (hj : w.creating j = true) : ¬w.creating i = true :=
      fun hi => hij (hinv.creating i j hi hj)
    refine ⟨h.inv, fun hj => ⟨halive ▸ hj, hcreating, hholds⟩, fun hinv hj _ k hk => ?_,
      fun hinv hj _ hnone => ?_⟩
    · by_cases hki : k = i
      · subst hki
        exact (h.holds hk).resolve_right (hnot hinv hj)
      · rwa [(h.others k hki).2.2] at hk
    · rcases h.file with ⟨hfile, hopened⟩ | hi | ⟨hi, -⟩
      · exact ⟨hfile, hopened j hij.symm⟩
      · rw [hnone i] at hi
        cases hi
      · exact absurd hi (hnot hinv hj)
  other {i w w'} h := by
    have hinv : Inv clients w → Inv clients w' := fun hinv => hinv.happens h
    cases h with
    | @exit k hk =>
      refine ⟨hinv, fun hi => ?_, fun _ _ _ j hj => ?_, fun _ _ _ _ => ⟨rfl, rfl⟩⟩
      · have hne : i ≠ k := by
          rintro rfl
          simp [World.exit] at hi
        simp only [World.exit, Function.update_of_ne hne] at hi ⊢
        exact ⟨hi, trivial, trivial⟩
      · by_cases hjk : j = k
        · subst hjk
          simp [World.exit] at hj
        · simpa only [World.exit, Function.update_of_ne hjk] using hj
    | processes hprocesses =>
      exact ⟨hinv, fun hi => ⟨hi, rfl, rfl⟩, fun _ _ _ _ => id, fun _ _ _ _ => ⟨rfl, rfl⟩⟩

/-! ### Assertions about a process -/

/-- `P` holds if the process is alive. -/
def Local (clients : Clients ι) (i : ι) (P : World ι → Prop) (w : World ι) : Prop :=
  Inv clients w ∧ (w.alive i = true → P w)

/-- The others leave `P` alone. -/
def Undisturbed (clients : Clients ι) (i : ι) (P : World ι → Prop) : Prop :=
  ∀ w w', Relies clients i w w' → Inv clients w → w'.alive i = true → P w → P w'

omit [DecidableEq ι] in
theorem stable_local {P : World ι → Prop} (hP : Undisturbed clients i P) :
    Prog.Stable (Relies clients i) (Local clients i P) := by
  rintro w w' hrelies ⟨hinv, h⟩
  exact ⟨hrelies.inv hinv, fun halive =>
    hP w w' hrelies hinv halive (h (hrelies.own halive).1)⟩

omit [DecidableEq ι] in
theorem Local.imp {P Q : World ι → Prop} (h : Local clients i P w) (hPQ : P w → Q w) :
    Local clients i Q w :=
  ⟨h.1, fun halive => hPQ (h.2 halive)⟩

/-- The process is in `create`, and only processes that meet `P` hold the file. -/
def Watched (i : ι) (P : ι → Prop) (w : World ι) : Prop :=
  w.creating i = true ∧ ∀ j, w.holds j = true → P j

/-- The process is in `create`, none holds the file, and the file and whether the process has
created it meet `P`. -/
def Cleared (i : ι) (P : Option String → Bool → Prop) (w : World ι) : Prop :=
  w.creating i = true ∧ (∀ j, w.holds j = false) ∧ P w.file (w.opened i)

def Holding (i : ι) (w : World ι) : Prop := w.holds i = true

omit [DecidableEq ι] in
theorem undisturbed_watched (P : ι → Prop) : Undisturbed clients i (Watched i P) := by
  rintro w w' hrelies hinv halive ⟨hcreating, hP⟩
  exact ⟨(hrelies.own halive).2.1.trans hcreating,
    fun j hj => hP j (hrelies.holds hinv hcreating halive j hj)⟩

omit [DecidableEq ι] in
theorem undisturbed_cleared (P : Option String → Bool → Prop) :
    Undisturbed clients i (Cleared i P) := by
  rintro w w' hrelies hinv halive ⟨hcreating, hnone, hP⟩
  obtain ⟨hfile, hopened⟩ := hrelies.file hinv hcreating halive hnone
  refine ⟨(hrelies.own halive).2.1.trans hcreating, fun j => ?_, ?_⟩
  · refine Bool.eq_false_iff.mpr fun hj => ?_
    have := hrelies.holds hinv hcreating halive j hj
    rw [hnone j] at this
    cases this
  · rw [hfile, hopened]
    exact hP

omit [DecidableEq ι] in
theorem undisturbed_holding : Undisturbed clients i (Holding i) := by
  intro w w' hrelies _ halive h
  exact (hrelies.own halive).2.2.trans h

omit [DecidableEq ι] in
theorem undisturbed_true : Undisturbed clients i fun _ => True := fun _ _ _ _ _ _ => trivial

omit [DecidableEq ι] in
theorem Watched.cleared (h : Watched i (fun _ => False) w) : Cleared i (fun _ _ => True) w :=
  ⟨h.1, fun j => Bool.eq_false_iff.mpr fun hj => h.2 j hj, trivial⟩

/-! ### What the calls guarantee -/

/-- The process relies on the others and guarantees what they rely on, and ends with `Q`. -/
abbrev Safe {A : Type} (clients : Clients ι) (i : ι) (p : Prog (api E) A) (Q : A → World ι → Prop)
    (w₁ w : World ι) : Prop :=
  Prog.Guarantees (serialEnv clients i) (Relies clients i) (Grants clients i) p Q w₁ w

theorem answer_of_processEnv {call : Call} {r : (api E).Answer call} (hcall : call ≠ .start)
    (hr : processEnv clients i w call r w') : w.alive i = true ∧ answerEnv i w call r w' := by
  cases call with
  | start => exact absurd rfl hcall
  | _ => exact hr

variable {w₁ : World ι} {call : Call} {P : World ι → Prop}

/-- What is left after an answer, where `P` holds before it. -/
theorem answered (hcall : call ≠ .start) (hP : Undisturbed clients i P) (hw : Local clients i P w)
    {Q : (api E).Answer call → World ι → Prop}
    (h : ∀ r w w', Inv clients w → w.alive i = true → P w → Alone w call →
      answerEnv i w call r w' → Grants clients i w w' ∧ Q r w')
    {w' w'' : World ι} {r : (api E).Answer call} (hrelies : Relies clients i w w')
    (hr : serialEnv clients i w' call r w'') :
    Grants clients i w' w'' ∧ Local clients i (Q r) w'' := by
  obtain ⟨hr, halone⟩ := hr
  obtain ⟨halive, hanswer⟩ := answer_of_processEnv hcall hr
  obtain ⟨hinv, hP'⟩ := stable_local hP w w' hrelies hw
  obtain ⟨hgrants, hQ⟩ := h r w' w'' hinv halive (hP' halive) halone hanswer
  exact ⟨hgrants, hgrants.inv hinv, fun _ => hQ⟩

theorem safe_ask (hcall : call ≠ .start) (hP : Undisturbed clients i P)
    {Q : (api E).Answer call → World ι → Prop}
    (h : ∀ r w w', Inv clients w → w.alive i = true → P w → Alone w call →
      answerEnv i w call r w' → Grants clients i w w' ∧ Q r w')
    (hG : Grants clients i w₁ w) (hw : Local clients i P w) :
    Safe clients i (ask call) (fun r => Local clients i (Q r)) w₁ w :=
  Prog.guarantees_request hG fun _ _ _ hrelies hr => answered hcall hP hw h hrelies hr

/-- A call that only reads. -/
theorem safe_read (hcall : call ≠ .start) (hP : Undisturbed clients i P)
    {Q : (api E).Answer call → World ι → Prop}
    (h : ∀ r w w', Inv clients w → w.alive i = true → P w → answerEnv i w call r w' →
      w' = w ∧ Q r w)
    (hG : Grants clients i w₁ w) (hw : Local clients i P w) :
    Safe clients i (ask call) (fun r => Local clients i (Q r)) w₁ w := by
  refine safe_ask hcall hP (fun r w w' hinv halive hPw _ hr => ?_) hG hw
  obtain ⟨rfl, hQ⟩ := h r w w' hinv halive hPw hr
  exact ⟨Grants.refl clients i _, hQ⟩

theorem safe_pathExists {path : PathBuf} (hG : Grants clients i w₁ w)
    (hw : Local clients i (Watched i fun _ => True) w) :
    Safe (E := E) clients i (ask (.pathExists path))
      (fun r => Local clients i (Watched i fun _ => r = true)) w₁ w := by
  refine safe_read (by simp) (undisturbed_watched _) (fun r w w' hinv _ hP hr => ?_) hG hw
  obtain ⟨rfl, rfl⟩ := hr
  refine ⟨rfl, hP.1, fun j hj => ?_⟩
  rw [hinv.file j hj]
  rfl

theorem safe_refreshProcess {pid : Pid} (hG : Grants clients i w₁ w)
    (hw : Local clients i (Watched i fun j => (clients.processId j : Pid) = pid) w) :
    Safe (E := E) clients i (ask (.refreshProcess pid))
      (fun r => Local clients i (Watched i fun j => (clients.processId j : Pid) = pid ∧ r = true))
      w₁ w := by
  refine safe_read (by simp) (undisturbed_watched _) (fun r w w' hinv _ hP hr => ?_) hG hw
  obtain ⟨rfl, rfl⟩ := hr
  refine ⟨rfl, hP.1, fun j hj => ⟨hP.2 j hj, ?_⟩⟩
  rw [← hP.2 j hj, hinv.alive j (hinv.holder j hj)]
  rfl

/-- The name of a process that is alive is found. -/
theorem safe_processName {pid : Pid} {P : ι → Prop} (hG : Grants clients i w₁ w)
    (hP : ∀ j, P j → (clients.processId j : Pid) = pid)
    (hw : Local clients i (Watched i P) w) :
    Safe (E := E) clients i (ask (.processName pid))
      (fun r => Local clients i (Watched i fun j => P j ∧ r = .ok clients.name)) w₁ w := by
  refine safe_read (by simp) (undisturbed_watched _) (fun r w w' hinv _ hPw hr => ?_) hG hw
  obtain ⟨hname, rfl⟩ := hr
  refine ⟨rfl, hPw.1, fun j hj => ⟨hPw.2 j hj, hname _ ?_⟩⟩
  rw [← hP j (hPw.2 j hj)]
  exact hinv.alive j (hinv.holder j hj)

/-- The own name, which is that of all clients. -/
theorem safe_ownName {P : ι → Prop} (hG : Grants clients i w₁ w)
    (hw : Local clients i (Watched i P) w) :
    Safe (E := E) clients i (ask (.processName (clients.processId i)))
      (fun r => Local clients i (Watched i fun j => P j ∧ r = .ok clients.name)) w₁ w := by
  refine safe_read (by simp) (undisturbed_watched _) (fun r w w' hinv halive hPw hr => ?_) hG hw
  obtain ⟨hname, rfl⟩ := hr
  exact ⟨rfl, hPw.1, fun j hj => ⟨hPw.2 j hj, hname _ (hinv.alive i halive)⟩⟩

/-- The names of the client and of a process that holds the file are the same. -/
theorem safe_pidNameMatchesExistingClient {pid : Pid} (hG : Grants clients i w₁ w)
    (hw : Local clients i (Watched i fun j => (clients.processId j : Pid) = pid) w) :
    Safe (E := E) clients i (ExceptT.run (pidNameMatchesExistingClient (clients.processId i) pid))
      (fun r => Local clients i (Watched i fun _ => r = .ok true)) w₁ w := by
  refine Prog.guarantees_bind (p := ask (.processName (clients.processId i)))
    (safe_ownName hG hw) fun own w₁ w hG hw => ?_
  cases own with
  | error e =>
    refine ⟨hG, hw.imp fun h => ⟨h.1, fun j hj => ?_⟩⟩
    cases (h.2 j hj).2
  | ok clientName =>
    refine Prog.guarantees_bind (p := ask (.processName pid)) (safe_processName hG
      (fun j hj => hj.1) hw) fun other w₁ w hG hw => ?_
    cases other with
    | error e =>
      refine ⟨hG, hw.imp fun h => ⟨h.1, fun j hj => ?_⟩⟩
      cases (h.2 j hj).2
    | ok name =>
      refine ⟨hG, hw.imp fun h => ⟨h.1, fun j hj => ?_⟩⟩
      obtain ⟨⟨-, hclient⟩, hname⟩ := h.2 j hj
      cases hclient
      cases hname
      simp

section Create

variable {setup : Setup E} {pidFile : PidFile}

/-- The postcondition of what can fail. -/
abbrev SafeRpc {A : Type} (clients : Clients ι) (i : ι) (f : Rpc E A) (P : A → World ι → Prop)
    (T : World ι → Prop) (w₁ w : World ι) : Prop :=
  Safe clients i (ExceptT.run f)
    (Prog.Outcome (fun a => Local clients i (P a)) fun _ => T) w₁ w

/-- What fails leaves `P`. -/
theorem safe_tryAsk {A : Type} {p : Prog (api E) (Except E A)} {Q : A → World ι → Prop}
    {P T : World ι → Prop}
    (hp : Safe clients i p (fun r => Local clients i (Prog.Outcome Q (fun _ => P) r)) w₁ w)
    (hT : ∀ w, Local clients i P w → T w) : SafeRpc clients i (tryAsk p) Q T w₁ w := by
  refine Prog.keeps_map.mpr (hp.mono fun r x _ hr => ?_)
  cases r with
  | ok a => exact hr
  | error e => exact hT x.2 hr

theorem safe_logPath {P : World ι → Prop} (hG : Grants clients i w₁ w) (hw : Local clients i P w) :
    SafeRpc (E := E) clients i pidFile.logPath (fun _ => P) (Inv clients) w₁ w := by
  unfold PidFile.logPath
  split
  · exact ⟨hG, hw.1⟩
  · exact ⟨hG, hw⟩

theorem stripNewline_pidText (pid : Nat) : stripNewline (pidText pid) = toString pid := by
  have hlist : (pidText pid).toList = (toString pid).toList ++ ['\n'] := String.toList_append
  rw [stripNewline, hlist, if_pos List.getLast?_concat, List.dropLast_concat, String.ofList_toList]

/-- The id that is read is that of the process that holds the file. -/
theorem safe_pid (hfromStr : ∀ j, setup.fromStr (toString (clients.processId j)) =
      .ok (clients.processId j : Pid))
    (hG : Grants clients i w₁ w) (hw : Local clients i (Watched i fun _ => True) w) :
    SafeRpc clients i (pidFile.pid setup)
      (fun pid => Watched i fun j => (clients.processId j : Pid) = pid) (Inv clients) w₁ w := by
  have hread : SafeRpc clients i (tryAsk (E := E) (ask (.readToString pidFile.path)))
      (fun content => Watched i fun j => content = pidText (clients.processId j))
      (Inv clients) w₁ w := by
    refine safe_tryAsk (P := fun _ => True)
      (safe_read (by simp) (undisturbed_watched _) ?_ hG hw) fun _ h => h.1
    rintro (e | content) w w' hinv - hP hr
    · cases hr
      exact ⟨rfl, trivial⟩
    · obtain ⟨hfile, rfl⟩ := hr
      exact ⟨rfl, hP.1, fun j hj => Option.some.inj (hfile.symm.trans (hinv.file j hj))⟩
  refine Prog.guarantees_run_seq hread fun content w₁ w hG hw => ?_
  refine ⟨hG, ?_⟩
  cases hpid : setup.fromStr (stripNewline content) with
  | error e => exact hw.1
  | ok pid =>
    refine hw.imp fun h => ⟨h.1, fun j hj => ?_⟩
    rw [h.2 j hj, stripNewline_pidText, hfromStr j] at hpid
    exact Except.ok.inj hpid

theorem safe_ensureNotRunning (hfromStr : ∀ j, setup.fromStr (toString (clients.processId j)) =
      .ok (clients.processId j : Pid))
    (hG : Grants clients i w₁ w) (hw : Local clients i (Watched i fun _ => True) w) :
    SafeRpc clients i (pidFile.ensureNotRunning setup (clients.processId i))
      (fun _ => Watched i fun _ => False) (Inv clients) w₁ w := by
  refine Prog.guarantees_run_seq (safe_pid hfromStr hG hw) fun pid w₁ w hG hw => ?_
  refine Prog.guarantees_run_seq (Prog.guarantees_run_lift (safe_refreshProcess hG hw))
    fun running w₁ w hG hw => ?_
  cases running with
  | false =>
    refine safe_logPath hG (hw.imp fun h => ⟨h.1, fun j hj => ?_⟩)
    cases (h.2 j hj).2
  | true =>
    have hw : Local clients i (Watched i fun j => (clients.processId j : Pid) = pid) w :=
      hw.imp fun h => ⟨h.1, fun j hj => (h.2 j hj).1⟩
    refine Prog.guarantees_run_seq (Prog.guarantees_run_lift
      (safe_pidNameMatchesExistingClient hG hw)) fun matching w₁ w hG hw => ?_
    have hother (hne : matching ≠ .ok true) : Local clients i (Watched i fun _ => False) w :=
      hw.imp fun h => ⟨h.1, fun j hj => hne (h.2 j hj)⟩
    rcases matching with e | matching
    · cases e with
      | processNotFound pid => exact safe_logPath hG (hother (by simp))
      | _ => exact ⟨hG, hw.1⟩
    · cases matching with
      | true => exact ⟨hG, hw.1⟩
      | false => exact safe_logPath hG (hother (by simp))

/-- A process that has passed the check has found no other one that holds the file. -/
theorem safe_check (hfromStr : ∀ j, setup.fromStr (toString (clients.processId j)) =
      .ok (clients.processId j : Pid))
    (hG : Grants clients i w₁ w) (hw : Local clients i (Watched i fun _ => True) w) :
    SafeRpc clients i (pidFile.check setup (clients.processId i))
      (fun _ => Watched i fun _ => False) (Inv clients) w₁ w := by
  refine Prog.guarantees_run_seq (Prog.guarantees_run_lift (safe_pathExists hG hw))
    fun found w₁ w hG hw => ?_
  cases found with
  | true =>
    refine Prog.guarantees_run_seq (safe_ensureNotRunning hfromStr hG
      (hw.imp fun h => ⟨h.1, fun _ _ => trivial⟩)) fun _ w₁ w hG hw => ?_
    exact safe_logPath hG hw
  | false =>
    refine safe_logPath hG (hw.imp fun h => ⟨h.1, fun j hj => ?_⟩)
    cases h.2 j hj

omit [DecidableEq ι] in
/-- When no process holds the file, it can be changed in `create`. -/
theorem grants_of_cleared {P : Option String → Bool → Prop} (hP : Cleared i P w)
    (file : Option String) (opened : ι → Bool) :
    Grants clients i w { w with file := file, opened := opened } := by
  refine ⟨fun hinv => ?_, fun _ _ => ⟨rfl, rfl, rfl⟩, .inl, .inr (.inr ⟨hP.1, hP.2.1⟩)⟩
  refine ⟨hinv.alive, hinv.distinct, hinv.creating, hinv.holder, hinv.unique, fun j hj => ?_⟩
  rw [show w.holds j = false from hP.2.1 j] at hj
  cases hj

theorem safe_createFile {path : PathBuf} (hG : Grants clients i w₁ w)
    (hw : Local clients i (Cleared i fun _ _ => True) w) :
    SafeRpc clients i (tryAsk (E := E) (ask (.createFile path)))
      (fun _ => Cleared i fun file opened => file = some "" ∧ opened = true)
      (Local clients i (Cleared i fun _ _ => True)) w₁ w := by
  refine safe_tryAsk (safe_ask (by simp) (undisturbed_cleared _) ?_ hG hw) fun _ h => h
  rintro (e | a) w w' - - hP - hr
  · cases hr
    exact ⟨Grants.refl clients i _, hP⟩
  · cases hr
    exact ⟨grants_of_cleared hP _ _, hP.1, hP.2.1, rfl, Function.update_self _ _ _⟩

omit [DecidableEq ι] in
theorem write_created {text : String} (hP : Cleared i (fun file opened => file = some "" ∧
    opened = true) w) : w.write i text = { w with file := some text } := by
  obtain ⟨-, -, hfile, hopened⟩ := hP
  simp [World.write, hopened, hfile, overwrite]

theorem safe_writeAll {path : PathBuf} {text : String} (hG : Grants clients i w₁ w)
    (hw : Local clients i (Cleared i fun file opened => file = some "" ∧ opened = true) w) :
    SafeRpc clients i (tryAsk (E := E) (ask (.writeAll path text)))
      (fun _ => Cleared i fun file _ => file = some text)
      (Local clients i (Cleared i fun _ _ => True)) w₁ w := by
  refine safe_tryAsk (safe_ask (by simp) (undisturbed_cleared _) ?_ hG hw) fun _ h => h
  rintro (e | a) w w' - - hP - hr
  · obtain ⟨written, rfl⟩ := hr
    rw [write_created hP]
    exact ⟨grants_of_cleared hP _ _, hP.1, hP.2.1, trivial⟩
  · cases hr
    rw [write_created hP]
    exact ⟨grants_of_cleared hP _ _, hP.1, hP.2.1, rfl⟩

/-- `create` returns when the file is synchronized. -/
theorem safe_syncAll {path : PathBuf} (hG : Grants clients i w₁ w)
    (hw : Local clients i (Cleared i fun file _ =>
      file = some (pidText (clients.processId i))) w) :
    SafeRpc clients i (tryAsk (E := E) (ask (.syncAll path))) (fun _ => Holding i)
      (Local clients i (Cleared i fun _ _ => True)) w₁ w := by
  refine safe_tryAsk (safe_ask (by simp) (undisturbed_cleared _) ?_ hG hw) fun _ h => h
  rintro (e | a) w w' - halive hP - hr
  · cases hr
    exact ⟨Grants.refl clients i _, hP.1, hP.2.1, trivial⟩
  · cases hr
    obtain ⟨hcreating, hnone, hfile⟩ := hP
    have honly (j : ι) (hj : (w.hold i).holds j = true) : j = i := by
      refine Classical.byContradiction fun hji => ?_
      simp only [World.hold, Function.update_of_ne hji, hnone j] at hj
      cases hj
    refine ⟨⟨fun hinv => ?_, fun j hj => ⟨rfl, rfl, Function.update_of_ne hj _ _⟩,
      fun _ => .inr hcreating, .inl ⟨rfl, fun _ _ => rfl⟩⟩, Function.update_self _ _ _⟩
    refine ⟨hinv.alive, hinv.distinct, hinv.creating, fun j hj => ?_, fun j k hj hk => ?_,
      fun j hj => ?_⟩
    · rw [honly j hj]
      exact halive
    · rw [honly j hj, honly k hk]
    · rw [honly j hj]
      exact hfile

/-- The file is removed by the process that holds it, or in `create` while none does. -/
theorem grants_of_release (hown : w.holds i = true ∨ w.creating i = true ∧ ∀ j, w.holds j = false)
    (file : Option String) (opened : ι → Bool) :
    Grants clients i w { w.release i with file := file, opened := opened } := by
  have hothers (j : ι) (hj : (w.release i).holds j = true) : j ≠ i ∧ w.holds j = true := by
    by_cases hji : j = i
    · subst hji
      simp [World.release] at hj
    · simp only [World.release, Function.update_of_ne hji] at hj
      exact ⟨hji, hj⟩
  refine ⟨fun hinv => ?_, fun j hj => ⟨rfl, rfl, Function.update_of_ne hj _ _⟩,
    fun hi => absurd rfl (hothers i hi).1, .inr hown⟩
  have hnone (j : ι) : ¬(w.release i).holds j = true := by
    intro hj
    obtain ⟨hji, hj⟩ := hothers j hj
    rcases hown with hi | ⟨-, hnone⟩
    · exact hji (hinv.unique j i hj hi)
    · rw [hnone j] at hj
      cases hj
  exact ⟨hinv.alive, hinv.distinct, hinv.creating, fun j hj => absurd hj (hnone j),
    fun j _ hj => absurd hj (hnone j), fun j hj => absurd hj (hnone j)⟩

theorem safe_drop (hP : Undisturbed clients i P)
    (hown : ∀ w, P w → w.holds i = true ∨ w.creating i = true ∧ ∀ j, w.holds j = false)
    (hG : Grants clients i w₁ w) (hw : Local clients i P w) :
    Safe (E := E) clients i pidFile.drop (fun _ => Inv clients) w₁ w := by
  have hremove :
      Safe (E := E) clients i (ExceptT.run pidFile.remove) (fun _ => Inv clients) w₁ w := by
    unfold PidFile.remove
    split
    · split
      · exact ⟨hG, hw.1⟩
      · have hcall : Safe (E := E) clients i (ask (.removeFile pidFile.path))
            (fun _ => Local clients i fun _ => True) w₁ w := by
          refine safe_ask (by simp) hP ?_ hG hw
          rintro (e | a) w w' - - hPw - hr
          · cases hr
            exact ⟨grants_of_release (hown w hPw) _ _, trivial⟩
          · cases hr
            exact ⟨grants_of_release (hown w hPw) _ _, trivial⟩
        exact Prog.keeps_map.mpr (hcall.mono fun r x _ hr => hr.1)
    · exact ⟨hG, hw.1⟩
  exact Prog.guarantees_bind hremove fun _ w₁ w hG hw => ⟨hG, hw⟩

/-- A process that has passed the check gets the file, or it leaves it to be removed. -/
theorem safe_setPid (hG : Grants clients i w₁ w)
    (hw : Local clients i (Watched i fun _ => False) w) :
    Safe (E := E) clients i (pidFile.setPid (clients.processId i))
      (fun r => Prog.Outcome (fun _ => Local clients i (Holding i))
        (fun _ => Local clients i (Cleared i fun _ _ => True)) r.2) w₁ w := by
  refine Prog.guarantees_bind (P := Prog.Outcome (fun _ => Local clients i (Holding i))
    fun _ => Local clients i (Cleared i fun _ _ => True)) ?_ fun r w₁ w hG hw => ⟨hG, hw⟩
  refine Prog.guarantees_run_seq (safe_createFile hG (hw.imp Watched.cleared))
    fun _ w₁ w hG hw => ?_
  refine Prog.guarantees_run_seq (safe_writeAll hG hw) fun _ w₁ w hG hw => ?_
  exact safe_syncAll hG hw

/-- What `create` returns is a `PidFile` that the process holds, or an error. -/
theorem safe_create (hfromStr : ∀ j, setup.fromStr (toString (clients.processId j)) =
      .ok (clients.processId j : Pid)) (specName accountId : String)
    (hG : Grants clients i w₁ w) (hw : Local clients i (Watched i fun _ => True) w) :
    Safe clients i (PidFile.create setup specName accountId (clients.processId i))
      (Prog.Outcome (fun _ => Local clients i (Holding i)) fun _ => Inv clients) w₁ w := by
  refine Prog.guarantees_bind (safe_check hfromStr hG hw) fun r w₁ w hG hw => ?_
  cases r with
  | error e =>
    -- nothing has been created
    exact Prog.guarantees_bind (p := PidFile.drop _) (P := fun _ => Inv clients) ⟨hG, hw⟩
      fun _ w₁ w hG hw => ⟨hG, hw⟩
  | ok _ =>
    refine Prog.guarantees_bind (safe_setPid hG hw) fun (pidFile, file) w₁ w hG hw => ?_
    cases file with
    | error e =>
      exact Prog.guarantees_bind (safe_drop (undisturbed_cleared _)
        (fun w h => .inr ⟨h.1, h.2.1⟩) hG hw) fun _ w₁ w hG hw => ⟨hG, hw⟩
    | ok _ => exact ⟨hG, hw⟩

end Create

/-! ### A process from its start to its end -/

theorem Grants.spawn (halive : w.alive i = false)
    (hfree : w.processes (clients.processId i) = none) :
    Grants clients i w (w.spawn clients i) := by
  refine ⟨fun hinv => ?_, fun j hj => ⟨Function.update_of_ne hj _ _, rfl, rfl⟩, .inl,
    .inl ⟨rfl, fun _ _ => rfl⟩⟩
  have hother {j : ι} (hji : j ≠ i) (hj : (w.spawn clients i).alive j = true) :
      w.alive j = true := by
    simpa only [World.spawn, Function.update_of_ne hji] using hj
  -- the id of the new process is not that of another one that is alive
  have hne {j : ι} (hj : w.alive j = true) : clients.processId j ≠ clients.processId i := by
    intro heq
    have := hinv.alive j hj
    rw [heq, hfree] at this
    cases this
  refine ⟨fun j hj => ?_, fun j k hj hk heq => ?_, hinv.creating, fun j hj => ?_, hinv.unique,
    hinv.file⟩
  · by_cases hji : j = i
    · subst hji
      exact Function.update_self _ _ _
    · have hpid : (clients.processId j : Pid) ≠ clients.processId i :=
        fun heq => hne (hother hji hj) (Int.ofNat.inj heq)
      exact (Function.update_of_ne hpid _ _).trans (hinv.alive j (hother hji hj))
  · by_cases hji : j = i
    · by_cases hki : k = i
      · rw [hji, hki]
      · exact absurd (hji ▸ heq).symm (hne (hother hki hk))
    · by_cases hki : k = i
      · exact absurd (hki ▸ heq) (hne (hother hji hj))
      · exact hinv.distinct j k (hother hji hj) (hother hki hk) heq
  · have hold := hinv.holder j hj
    by_cases hji : j = i
    · subst hji
      rw [halive] at hold
      cases hold
    · exact (Function.update_of_ne hji _ _).trans hold

theorem safe_enter (hG : Grants clients i w₁ w) (hw : Inv clients w) :
    Safe (E := E) clients i (ask .enter)
      (fun _ => Local clients i (Watched i fun _ => True)) w₁ w := by
  refine safe_ask (by simp) undisturbed_true (fun r w w' _ _ _ halone hr => ?_) hG
    ⟨hw, fun _ => trivial⟩
  cases hr
  have honly {j : ι} (hj : Function.update w.creating i true j = true) : j = i := by
    refine Classical.byContradiction fun hji => ?_
    rw [Function.update_of_ne hji, halone j] at hj
    cases hj
  refine ⟨⟨fun hinv => ?_, fun j hj => ⟨rfl, Function.update_of_ne hj _ _, rfl⟩, .inl,
    .inl ⟨rfl, fun _ _ => rfl⟩⟩, Function.update_self _ _ _, fun _ _ => trivial⟩
  exact ⟨hinv.alive, hinv.distinct, fun j k hj hk => (honly hj).trans (honly hk).symm, hinv.holder,
    hinv.unique, hinv.file⟩

theorem safe_leave {P : World ι → Prop} (hP : Undisturbed clients i P)
    (hcreating : ∀ w creating, P w → P { w with creating := creating })
    (hG : Grants clients i w₁ w) (hw : Local clients i P w) :
    Safe (E := E) clients i (ask .leave) (fun _ => Local clients i P) w₁ w := by
  refine safe_ask (by simp) hP (fun r w w' _ _ hPw _ hr => ?_) hG hw
  cases hr
  have hold {j : ι} (hj : Function.update w.creating i false j = true) : w.creating j = true := by
    by_cases hji : j = i
    · subst hji
      rw [Function.update_self] at hj
      cases hj
    · rwa [Function.update_of_ne hji] at hj
  refine ⟨⟨fun hinv => ?_, fun j hj => ⟨rfl, Function.update_of_ne hj _ _, rfl⟩, .inl,
    .inl ⟨rfl, fun _ _ => rfl⟩⟩, hcreating w _ hPw⟩
  exact ⟨hinv.alive, hinv.distinct, fun j k hj hk => hinv.creating j k (hold hj) (hold hk),
    hinv.holder, hinv.unique, hinv.file⟩

theorem safe_vault {setup : Setup E}
    (hfromStr : ∀ j, setup.fromStr (toString (clients.processId j)) =
      .ok (clients.processId j : Pid)) (specName accountId : String) (hinv : Inv clients w) :
    Safe clients i (vault setup specName accountId (clients.processId i)) (fun _ _ => True)
      w w := by
  have hstart : Safe (E := E) clients i (ask .start) (fun _ => Inv clients) w w := by
    refine Prog.guarantees_request (Grants.refl clients i w) fun w' r w'' hrelies hr => ?_
    obtain ⟨⟨halive, hfree, rfl⟩, -⟩ := hr
    have hgrants : Grants clients i w' (w'.spawn clients i) := Grants.spawn halive hfree
    exact ⟨hgrants, hgrants.inv (hrelies.inv hinv)⟩
  refine Prog.guarantees_bind hstart fun _ w₁ w hG hw => ?_
  refine Prog.guarantees_bind (safe_enter hG hw) fun _ w₁ w hG hw => ?_
  refine Prog.guarantees_bind (safe_create hfromStr specName accountId hG hw)
    fun pidFile w₁ w hG hw => ?_
  cases pidFile with
  | error e =>
    exact Prog.guarantees_bind (safe_leave undisturbed_true (fun _ _ h => h) hG
      ⟨hw, fun _ => trivial⟩) fun _ w₁ w hG hw => ⟨hG, trivial⟩
  | ok pidFile =>
    refine Prog.guarantees_bind (safe_leave undisturbed_holding (fun _ _ h => h) hG hw)
      fun _ w₁ w hG hw => ?_
    exact Prog.guarantees_bind (safe_drop undisturbed_holding (fun w h => .inl h) hG hw)
      fun _ w₁ w hG hw => ⟨hG, trivial⟩

end Steps

/-- At most one process that is alive holds a `PidFile`, and the file with its id is there: no other
process has removed it. -/
structure Exclusive (clients : Clients ι) (w : World ι) : Prop where
  unique : ∀ i j, w.holds i = true → w.holds j = true → i = j
  file : ∀ i, w.holds i = true →
    w.alive i = true ∧ w.file = some (pidText (clients.processId i))

/-- Whatever the file and the other processes, and whenever processes end: no two clients hold the
file, and none removes that of another one, if no two of them are in `create` at once. -/
theorem exclusive_of_serialRuns (setup : Setup E) (specName accountId : String)
    (clients : Clients ι)
    (hfromStr : ∀ i, setup.fromStr (toString (clients.processId i)) =
      .ok (clients.processId i : Pid))
    {file : Option String} {processes : Pid → Option String}
    {vaults : ι → Prog (api E) (Except (Error E) Unit)} {w : World ι}
    (hruns : Prog.PoolRuns (serialEnv clients) (Happens clients)
      (fun i => vault setup specName accountId (clients.processId i)) (World.start file processes)
      vaults w) : Exclusive clients w := by
  have hstart : Inv clients (World.start file processes : World ι) := by
    refine ⟨fun i h => ?_, fun i j h => ?_, fun i j h => ?_, fun i h => ?_, fun i j h => ?_,
      fun i h => ?_⟩ <;> cases h
  have hinv := (Prog.Guarantees.poolRuns (cooperates clients)
    (fun i a => show Prog.Stable _ (fun _ => True) from fun _ _ _ _ => trivial) (I := Inv clients)
    (fun hG => hG.inv) (fun hhappens hinv => hinv.happens hhappens)
    (fun i => safe_vault hfromStr specName accountId hstart) hstart hruns).1
  exact ⟨hinv.unique, fun i hi => ⟨hinv.holder i hi, hinv.file i hi⟩⟩

/-! ### Two vaults -/

def decimal (text : String) : Except Unit Pid :=
  if text ≠ "" ∧ text.toList.all Char.isDigit then .ok (Nat.ofDigitChars 10 text.toList 0)
  else .error ()

def tmpSetup : Setup Unit := ⟨⟨"/tmp".toUTF8.toList⟩, decimal⟩

def twoVaults : Clients Bool := ⟨fun i => if i then 42 else 41, "vault"⟩

/-- All calls succeed. -/
def serve (i : Bool) (w : World Bool) : (call : Call) → Option ((api Unit).Answer call × World Bool)
  | .start =>
    if w.alive i = false ∧ w.processes (twoVaults.processId i) = none then
      some ((), w.spawn twoVaults i)
    else none
  | call =>
    if w.alive i then
      match call with
      | .start => none
      | .enter => some ((), { w with creating := Function.update w.creating i true })
      | .leave => some ((), { w with creating := Function.update w.creating i false })
      | .pathExists _ => some (w.file.isSome, w)
      | .readToString _ => w.file.map fun text => (.ok text, w)
      | .refreshProcess pid => some ((w.processes pid).isSome, w)
      | .processName pid => match w.processes pid with
        | some name => some (.ok name, w)
        | none => some (.error (.processNotFound (toString pid)), w)
      | .createFile _ => some (.ok (), w.createFile i)
      | .writeAll _ text => some (.ok (), w.write i text)
      | .syncAll _ => some (.ok (), w.hold i)
      | .removeFile _ => some (.ok (), (w.release i).removeFile)
    else none

theorem processEnv_serve {i : Bool} {w w' : World Bool} {call : Call} {r : (api Unit).Answer call}
    (h : serve i w call = some (r, w')) : processEnv twoVaults i w call r w' := by
  cases call with
  | start =>
    dsimp only [serve] at h
    split at h
    next hfree =>
      cases h
      exact ⟨hfree.1, hfree.2, rfl⟩
    next => cases h
  | readToString path =>
    dsimp only [serve] at h
    split at h
    next halive =>
      rw [Option.map_eq_some_iff] at h
      obtain ⟨text, hfile, heq⟩ := h
      cases heq
      exact ⟨halive, hfile, rfl⟩
    next => cases h
  | processName pid =>
    dsimp only [serve] at h
    split at h
    next halive =>
      split at h
      next name hname =>
        cases h
        refine ⟨halive, fun name' h => ?_, rfl⟩
        rw [hname] at h
        cases h
        rfl
      next hname =>
        cases h
        refine ⟨halive, fun name' h => ?_, rfl⟩
        rw [hname] at h
        cases h
    next => cases h
  | pathExists path | refreshProcess pid =>
    dsimp only [serve] at h
    split at h
    next halive =>
      cases h
      exact ⟨halive, rfl, rfl⟩
    next => cases h
  | _ =>
    dsimp only [serve] at h
    split at h
    next halive =>
      cases h
      exact ⟨halive, rfl⟩
    next => cases h

/-- `create` is entered by one of the two at a time. -/
def serveSerial (i : Bool) (w : World Bool) (call : Call) :
    Option ((api Unit).Answer call × World Bool) :=
  if ∀ j, w.creating j = false then serve i w call
  else match call with
    | .enter => none
    | call => serve i w call

theorem serialEnv_serveSerial {i : Bool} {w w' : World Bool} {call : Call}
    {r : (api Unit).Answer call} (h : serveSerial i w call = some (r, w')) :
    serialEnv twoVaults i w call r w' := by
  unfold serveSerial at h
  split at h
  next hnone =>
    refine ⟨processEnv_serve h, ?_⟩
    cases call with
    | enter => exact hnone
    | _ => trivial
  next =>
    cases call with
    | enter => cases h
    | _ => exact ⟨processEnv_serve h, trivial⟩

def startVaults (i : Bool) : Prog (api Unit) (Except (Error Unit) Unit) :=
  vault tmpSetup "kintsugi" "5F" (twoVaults.processId i)

def startWorld (file : Option String) : World Bool := World.start file fun _ => none

/-- The first process gets the file that a killed vault has left, and the second one fails. -/
def serialTurns : List (Bool ⊕ (World Bool → World Bool)) :=
  List.replicate 9 (.inl false) ++ List.replicate 8 (.inl true)

def afterSerial : (Bool → Prog (api Unit) (Except (Error Unit) Unit)) × World Bool :=
  Prog.playPool serveSerial serialTurns (startVaults, startWorld (some "40\n"))

theorem exclusive_of_serialRuns_stale :
    Exclusive twoVaults afterSerial.2 ∧ afterSerial.2.holds false = true ∧
      afterSerial.2.alive true = true := by
  have hturns (move : World Bool → World Bool) (hmove : .inr move ∈ serialTurns) (w : World Bool) :
      Happens twoVaults w (move w) := by
    simp [serialTurns] at hmove
  have hruns : Prog.PoolRuns (serialEnv twoVaults) (Happens twoVaults) startVaults
      (startWorld (some "40\n")) afterSerial.1 afterSerial.2 :=
    Prog.poolRuns_play serialEnv_serveSerial hturns _ _
  have hfromStr (i : Bool) : tmpSetup.fromStr (toString (twoVaults.processId i)) =
      .ok (twoVaults.processId i : Pid) := by
    cases i with
    | false => rfl
    | true => rfl
  exact ⟨exclusive_of_serialRuns tmpSetup "kintsugi" "5F" twoVaults hfromStr hruns,
    by decide +kernel⟩

/-- Both processes find no file before one of them creates it. -/
def bothTurns : List (Bool ⊕ (World Bool → World Bool)) :=
  List.replicate 3 (.inl false) ++ List.replicate 6 (.inl true) ++ List.replicate 3 (.inl false)

/-- The first process ends. -/
def dropTurns : List (Bool ⊕ (World Bool → World Bool)) :=
  bothTurns ++ List.replicate 2 (.inl false)

/-- Both hold the file, and the first one removes it while the second one holds it. -/
theorem two_holders_of_bothTurns :
    (∃ vaults w, Prog.PoolRuns (processEnv twoVaults) (Happens twoVaults) startVaults
      (startWorld none) vaults w ∧ w.alive false = true ∧ w.alive true = true ∧
      w.holds false = true ∧ w.holds true = true) ∧
    ∃ vaults w, Prog.PoolRuns (processEnv twoVaults) (Happens twoVaults) startVaults
      (startWorld none) vaults w ∧ w.alive true = true ∧ w.holds true = true ∧ w.file = none := by
  have hruns (turns : List (Bool ⊕ (World Bool → World Bool)))
      (hturns : ∀ move, .inr move ∉ turns) :
      Prog.PoolRuns (processEnv twoVaults) (Happens twoVaults) startVaults (startWorld none)
        (Prog.playPool serve turns (startVaults, startWorld none)).1
        (Prog.playPool serve turns (startVaults, startWorld none)).2 :=
    Prog.poolRuns_play processEnv_serve (fun move hmove => absurd hmove (hturns move)) _ _
  refine ⟨⟨_, _, hruns bothTurns (by simp [bothTurns]), ?_⟩,
    ⟨_, _, hruns dropTurns (by simp [dropTurns, bothTurns]), ?_⟩⟩
  · decide +kernel
  · decide +kernel

end InterBtcClients.Vault.Process
