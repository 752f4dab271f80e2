import InterBtcClients.Runner.Checksum

/-! The termination of the child: what is sent to it and waited for, whatever the results of `kill`
and however many retries are left.  A `kill` that fails is not retried, and the child is waited for
as if it had been killed. -/

namespace InterBtcClients.Runner.Termination

open Library

variable {E : Type}

/-- What the operating system and the runner see of a termination. -/
inductive Event
  | kill (pid : Nat)
  | wait (child : Child)
  | setChildProc (child : Option Child)
  deriving DecidableEq

def Event.isKill : Event → Bool
  | .kill _ => true
  | _ => false

/-- The child of the runner, and the events so far, the first one first. -/
structure World where
  childProc : Option Child
  events : List Event

/-- The calls of `kill` among them. -/
def kills (events : List Event) : Nat := events.countP Event.isKill

/-- The surroundings in which the calls of `kill` have the given results, one after the other, and
the retry time is enough for `budget` more attempts. -/
def env (results : Nat → Except E Unit) (budget : Nat) : Prog.Env (api E) World
  | w, .childProc, r, w' => r = w.childProc ∧ w' = w
  | w, .setChildProc child, _, w' => w' = ⟨child, w.events ++ [.setChildProc child]⟩
  | w, .kill pid, r, w' =>
    r = results (kills w.events) ∧ w' = { w with events := w.events ++ [.kill pid] }
  | w, .wait child, _, w' => w' = { w with events := w.events ++ [.wait child] }
  | w, .retries, r, w' => r = budget ∧ w' = w
  | w, _, _, w' => w' = w

/-- The child is killed until `kill` succeeds or the retries are spent, then it is waited for and no
longer the child of the runner.  If every `kill` fails, the termination fails and leaves the child.
-/
structure AsDocumented (results : Nat → Except E Unit) (budget : Nat) (child : Child)
    (r : Except (Error E) Nat) (w : World) : Prop where
  repeats : ∀ i, i < kills w.events ↔
    child < 2 ^ 31 ∧ i ≤ budget ∧ ∀ j < i, results j ≠ .ok ()
  target : ∀ pid, .kill pid ∈ w.events → pid = child
  waits : ∀ before event later, w.events = before ++ event :: later → event.isKill = false →
    ∃ i < kills before, results i = .ok ()
  reports : (∀ i < kills w.events, results i ≠ .ok ()) →
    r = .error .processTerminationFailure ∧ w.childProc = some child

variable {results : Nat → Except E Unit} {budget : Nat} {child : Child}

theorem keeps_retryWithLog {Q : Except E Unit → World → Prop} {R : Error E → World → Prop}
    {w : World}
    (hattempt : Prog.Keeps (env results budget) (fun _ => True) (killChild child).run
      (Prog.Outcome Q R) w)
    (hfailed : ∀ e w', R e w' → w' = w) :
    Prog.Keeps (env results budget) (fun _ => True) (retryWithLog (killChild child)).run
      (Prog.Outcome Q R) w := by
  refine Prog.keeps_run_seq (P := fun _ w' => w' = w) ?_ fun retries w' _ hw' => ?_
  · refine Prog.keeps_run_lift.mpr (Prog.keeps_request.mpr ⟨trivial, ?_⟩)
    rintro r w' ⟨rfl, rfl⟩
    exact ⟨trivial, rfl⟩
  · refine Prog.keeps_run_retry_failed (P := fun w' => w' = w) (fun w' _ hw' => ?_) hfailed retries
      trivial hw'
    rw [hw']
    exact hattempt

/-- A process id that the system cannot have is not sent to, however often this is retried. -/
theorem keeps_kill_unfit (h : 2 ^ 31 ≤ child) (w : World) :
    Prog.Keeps (env results budget) (fun _ => True) (retryWithLog (killChild child)).run
      (Prog.Outcome (fun _ _ => False) fun _ w' => w' = w) w := by
  have hpid : pidOfChild (E := E) child = .error .integerConversionError :=
    if_neg (Nat.not_lt.mpr h)
  refine keeps_retryWithLog (Prog.keeps_run_bind.mpr ⟨trivial, ?_⟩) fun _ _ hw' => hw'
  rw [hpid]
  rfl

/-- The first `kill` is the only one, whatever its result is. -/
theorem keeps_kill_fit (h : child < 2 ^ 31) (w : World) :
    Prog.Keeps (env results budget) (fun _ => True) (retryWithLog (killChild child)).run
      (Prog.Outcome (fun _ w' => w' = { w with events := w.events ++ [.kill child] })
        fun _ _ => False) w := by
  have hpid : pidOfChild (E := E) child = .ok child := if_pos h
  refine keeps_retryWithLog (Prog.keeps_run_bind.mpr ⟨trivial, ?_⟩) nofun
  rw [hpid]
  refine Prog.keeps_run_lift.mpr (Prog.keeps_request.mpr ⟨trivial, ?_⟩)
  rintro r w' ⟨-, rfl⟩
  exact ⟨trivial, rfl⟩

/-- The events of a termination that goes on after the first `kill`. -/
def afterKill (child : Child) : List Event := [.kill child, .wait child, .setChildProc none]

/-- What is left when the termination returns. -/
def Terminated (child : Child) : Except (Error E) Nat → World → Prop
  | .ok pid, w => child < 2 ^ 31 ∧ pid = child ∧ w = ⟨none, afterKill child⟩
  | .error e, w => 2 ^ 31 ≤ child ∧ e = .processTerminationFailure ∧ w = ⟨some child, []⟩

theorem keeps_terminateProcAndWait (results : Nat → Except E Unit) (budget : Nat) (child : Child) :
    Prog.Keeps (env results budget) (fun _ => True) terminateProcAndWait.run (Terminated child)
      ⟨some child, []⟩ := by
  refine Prog.keeps_run_bind.mpr (Prog.keeps_run_lift.mpr (Prog.keeps_request.mpr ⟨trivial, ?_⟩))
  rintro r w ⟨rfl, rfl⟩
  refine ⟨trivial, Prog.keeps_run_bind.mpr (Prog.keeps_run_tryCatch.mpr ?_)⟩
  rcases Nat.lt_or_ge child (2 ^ 31) with hfit | hunfit
  · refine (keeps_kill_fit hfit _).mono fun r w _ hr => ?_
    cases r with
    | error e => exact hr.elim
    | ok result =>
      cases hr
      -- the child is waited for without a look at the result
      refine Prog.keeps_run_bind.mpr (Prog.keeps_run_lift.mpr
        (Prog.keeps_request.mpr ⟨trivial, ?_⟩))
      rintro waited w rfl
      refine ⟨trivial, Prog.keeps_run_bind.mpr (Prog.keeps_run_lift.mpr
        (Prog.keeps_request.mpr ⟨trivial, ?_⟩))⟩
      rintro _ w rfl
      exact ⟨trivial, trivial, hfit, rfl, rfl⟩
  · refine (keeps_kill_unfit hunfit _).mono fun r w _ hr => ?_
    cases r with
    | ok result => exact hr.elim
    | error e =>
      cases hr
      exact ⟨trivial, hunfit, rfl, rfl⟩

/-! ### What is documented -/

theorem asDocumented_unfit (h : 2 ^ 31 ≤ child) :
    AsDocumented results budget child (.error .processTerminationFailure) ⟨some child, []⟩ where
  repeats i := ⟨nofun, fun hi => absurd hi.1 (Nat.not_lt.mpr h)⟩
  target pid hpid := by cases hpid
  waits before event later heq := by
    have hlength := congrArg List.length heq
    simp at hlength
  reports _ := ⟨rfl, rfl⟩

/-- Before what comes after the first `kill`, there is that. -/
theorem kills_pos {before later : List Event} {event : Event}
    (heq : afterKill child = before ++ event :: later) (h : event.isKill = false) :
    0 < kills before := by
  cases before with
  | nil =>
    obtain ⟨rfl, -⟩ := List.cons.inj heq
    cases h
  | cons first rest =>
    obtain ⟨rfl, -⟩ := List.cons.inj heq
    simp [kills, Event.isKill]

theorem asDocumented_of_ok (hfit : child < 2 ^ 31) (h : results 0 = .ok ()) :
    AsDocumented results budget child (.ok child) ⟨none, afterKill child⟩ where
  repeats i := by
    have hkills : kills (afterKill child) = 1 := rfl
    rw [hkills]
    constructor
    · intro hi
      exact ⟨hfit, by omega, fun j hj => by omega⟩
    · rintro ⟨-, -, hfailed⟩
      exact Nat.lt_of_not_le fun hi => hfailed 0 hi h
  target pid hpid := by
    rcases List.mem_cons.mp hpid with heq | hpid
    · cases heq
      rfl
    · simp at hpid
  waits before event later heq hevent := ⟨0, kills_pos heq hevent, h⟩
  reports hfailed := absurd h (hfailed 0 Nat.one_pos)

/-- The child is waited for after the first `kill`. -/
theorem ok_of_asDocumented {r : Except (Error E) Nat} {childProc : Option Child}
    (h : AsDocumented results budget child r ⟨childProc, afterKill child⟩) :
    results 0 = .ok () := by
  obtain ⟨i, hi, hok⟩ := h.waits [.kill child] (.wait child) [.setChildProc none] rfl rfl
  have hfirst : i = 0 := Nat.lt_one_iff.mp hi
  rwa [hfirst] at hok

/-- The termination does what is documented exactly when the first `kill` succeeds, or there is no
process that could have the id of the child. -/
theorem asDocumented_iff (results : Nat → Except E Unit) (budget : Nat) (child : Child)
    {r : Except (Error E) Nat} {w : World}
    (hruns : Prog.Runs (env results budget) terminateProcAndWait.run ⟨some child, []⟩ (.pure r) w) :
    AsDocumented results budget child r w ↔ 2 ^ 31 ≤ child ∨ results 0 = .ok () := by
  have hend := (keeps_terminateProcAndWait results budget child).returns hruns
  cases r with
  | ok pid =>
    obtain ⟨hfit, rfl, rfl⟩ := hend
    refine ⟨fun h => .inr (ok_of_asDocumented h), fun h => ?_⟩
    exact asDocumented_of_ok hfit (h.resolve_left (Nat.not_le.mpr hfit))
  | error e =>
    obtain ⟨hunfit, rfl, rfl⟩ := hend
    exact ⟨fun _ => .inl hunfit, fun _ => asDocumented_unfit hunfit⟩

/-! ### A kill that fails once -/

/-- The answers with the given results, where `wait` succeeds. -/
def answer (results : Nat → Except Unit Unit) (budget : Nat) (w : World) :
    (call : Call) → (api Unit).Answer call × World
  | .childProc => (w.childProc, w)
  | .setChildProc child => ((), ⟨child, w.events ++ [.setChildProc child]⟩)
  | .kill pid => (results (kills w.events), { w with events := w.events ++ [.kill pid] })
  | .wait child => (.ok (), { w with events := w.events ++ [.wait child] })
  | .retries => (budget, w)
  | .downloadedRelease => (none, w)
  | .setDownloadedRelease _ => ((), w)
  | .readChainStorage => (.ok none, w)
  | .getRequestBytes _ => (.ok [], w)
  | .createDirAll _ => (.ok (), w)
  | .readFile _ => (.ok [], w)
  | .openFile _ => (.ok (), w)
  | .writeAll _ _ => (.ok (), w)
  | .syncAll _ => (.ok (), w)
  | .removeFile _ => (.ok (), w)
  | .spawn _ _ => (.error (), w)
  | .tryWait _ => (.ok false, w)
  | .sleep => ((), w)

theorem env_answer (results : Nat → Except Unit Unit) (budget : Nat) (w : World) (call : Call) :
    env results budget w call (answer results budget w call).1
      (answer results budget w call).2 := by
  cases call with
  | childProc | kill pid | retries => exact ⟨rfl, rfl⟩
  | _ => rfl

theorem runs_answer (results : Nat → Except Unit Unit) (budget : Nat) :
    Prog.Runs (env results budget) terminateProcAndWait.run ⟨some 7, []⟩
      (.pure (terminateProcAndWait.run.exec (answer results budget) ⟨some 7, []⟩).1)
      (terminateProcAndWait.run.exec (answer results budget) ⟨some 7, []⟩).2 :=
  Prog.runs_exec (env_answer results budget) _ _

def succeeds (_ : Nat) : Except Unit Unit := .ok ()

/-- Only the first call fails. -/
def failsOnce (attempt : Nat) : Except Unit Unit := if attempt = 0 then .error () else .ok ()

theorem asDocumented_iff_succeeds :
    AsDocumented succeeds 1 7 (.ok 7) ⟨none, afterKill 7⟩ :=
  (asDocumented_iff succeeds 1 7 (runs_answer succeeds 1)).mpr (.inr rfl)

/-- The child is waited for and forgotten, and `kill` is not called again. -/
theorem not_asDocumented_failsOnce :
    Prog.Runs (env failsOnce 1) terminateProcAndWait.run ⟨some 7, []⟩ (.pure (.ok 7))
        ⟨none, afterKill 7⟩ ∧
      ¬AsDocumented failsOnce 1 7 (.ok 7) ⟨none, afterKill 7⟩ := by
  refine ⟨runs_answer failsOnce 1, fun h => ?_⟩
  have hok : failsOnce 0 = .ok () := ok_of_asDocumented h
  cases hok

end InterBtcClients.Runner.Termination
