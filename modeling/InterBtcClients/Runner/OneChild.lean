import InterBtcClients.Library.Session
import InterBtcClients.Runner.Checksum

/-! The children of the runner that are alive, over any sequence of its operations: at most one in
the runs in which `wait` fails for no child that is alive. -/

namespace InterBtcClients.Runner.OneChild

open Library

variable {E : Type}

inductive Operation
  | autoUpdate (rounds : Nat)
  | maybeRestartClient
  | terminateProcAndWait

def Operation.run (setup : Setup E) : Operation → Prog (api E) (Except (Error E) Unit)
  | .autoUpdate rounds => ExceptT.run (Runner.autoUpdate setup rounds)
  | .maybeRestartClient => ExceptT.run (Runner.maybeRestartClient setup)
  | .terminateProcAndWait => ExceptT.run do
    let _ ← Runner.terminateProcAndWait

/-- Where `auto_update` can be dropped for a signal. -/
def Awaits : Call → Prop
  | .readChainStorage | .getRequestBytes _ | .sleep => True
  | _ => False

def Started (w : World) : Prop := ∃ files, w = World.start files

def AtMostOne (w : World) : Prop := ∀ child ∈ w.alive, ∀ other ∈ w.alive, child = other

/-- A `wait` that fails has been for a child that has exited. -/
def Waited (w' : World) : (call : Call) → (api E).Answer call → Prop
  | .wait child, .error _ => child ∉ w'.alive
  | _, _ => True

/-- The surroundings in which that is so of every `wait`. -/
def waitedEnv : Prog.Env (api E) World := fun w call r w' => env w call r w' ∧ Waited w' call r

/-! ### What the operations keep -/

/-- Only the child of the runner is alive. -/
def Owned (w : World) : Prop := ∀ child ∈ w.alive, w.childProc = some child

theorem Owned.atMostOne {w : World} (h : Owned w) : AtMostOne w := by
  intro child hchild other hother
  have heq := (h child hchild).symm.trans (h other hother)
  cases heq
  rfl

theorem owned_of_nil {w : World} (h : w.alive = []) : Owned w := by
  intro child hchild
  rw [h] at hchild
  cases hchild

/-- Children may have exited. -/
structure Fewer (w w' : World) : Prop where
  alive : w'.alive ⊆ w.alive
  childProc : w'.childProc = w.childProc

/-- The calls that neither spawn a child nor change the child of the runner. -/
def Calm : Call → Prop
  | .setChildProc _ | .spawn _ _ => False
  | _ => True

theorem fewer_of_calm {w w' : World} {call : Call} {r : (api E).Answer call} (hcall : Calm call)
    (h : env w call r w') : Fewer w w' := by
  obtain ⟨alive, halive, h⟩ := h
  cases call with
  | setChildProc child | spawn path args => exact hcall.elim
  | childProc | downloadedRelease =>
    obtain ⟨-, rfl⟩ := h
    exact ⟨halive, rfl⟩
  | readFile path | wait child | tryWait child =>
    cases r with
    | ok a =>
      obtain ⟨-, rfl⟩ := h
      exact ⟨halive, rfl⟩
    | error e =>
      cases h
      exact ⟨halive, rfl⟩
  | readChainStorage =>
    rcases r with e | _ | release
    all_goals
      cases h
      exact ⟨halive, rfl⟩
  | openFile path | removeFile path =>
    cases r with
    | ok a | error e =>
      cases h
      exact ⟨halive, rfl⟩
  | writeAll path bytes =>
    cases r with
    | ok a =>
      cases h
      exact ⟨halive, rfl⟩
    | error e =>
      obtain ⟨written, rfl⟩ := h
      exact ⟨halive, rfl⟩
  | setDownloadedRelease release | getRequestBytes uri | createDirAll path | syncAll path
  | kill child | retries | sleep =>
    cases h
    exact ⟨halive, rfl⟩

theorem Owned.fewer {w w' : World} (h : Owned w) (hfewer : Fewer w w') : Owned w' := by
  intro child hchild
  rw [hfewer.childProc]
  exact h child (hfewer.alive hchild)

/-- `P` leaves only the child of the runner alive, and children that exit do not disturb it. -/
structure Steady (P : World → Prop) : Prop where
  owned : ∀ {w}, P w → Owned w
  fewer : ∀ {w w'}, Fewer w w' → P w → P w'

theorem steady_owned : Steady Owned := ⟨id, fun hfewer h => h.fewer hfewer⟩

theorem steady_childProc (child : Option Child) :
    Steady fun w => w.childProc = child ∧ Owned w :=
  ⟨fun h => h.2, fun hfewer h => ⟨hfewer.childProc.trans h.1, h.2.fewer hfewer⟩⟩

/-- Surroundings in which anything can happen when the runner is dropped with another child alive.
-/
def soloEnv : Prog.Env (api E) World := Prog.demand (fun call w => Awaits call → Owned w) waitedEnv

section Rules

variable {A : Type} {setup : Setup E} {w : World}

/-- From `w` there is at most one child, `f` returns with `Q`, and otherwise it fails with only the
child of the runner alive. -/
abbrev Ensures (f : Rpc E A) (Q : A → World → Prop) (w : World) : Prop :=
  Prog.Keeps soloEnv AtMostOne f.run (Prog.Outcome Q fun _ => Owned) w

theorem ensures_of_only {P : World → Prop} (hP : Steady P) {f : Rpc E A} (hf : f.run.Only Calm)
    (h : P w) : Ensures f (fun _ => P) w := by
  have hkeeps : Prog.Keeps soloEnv P f.run (fun _ => P) w :=
    Prog.keeps_of_only
      (fun w call r w' h hcalm hr =>
        hP.fewer (fewer_of_calm hcalm (hr fun _ => hP.owned h).1) h) hf h
  refine (hkeeps.weaken fun w h => (hP.owned h).atMostOne).mono fun r w _ h => ?_
  exact .intro (fun _ _ => h.1) fun _ _ => hP.owned h.1

theorem ensures_ask {call : Call} {Q : (api E).Answer call → World → Prop} (hcall : ¬Awaits call)
    (hw : AtMostOne w) (h : ∀ r w', waitedEnv w call r w' → AtMostOne w' ∧ Q r w') :
    Ensures (ask call) Q w :=
  Prog.keeps_run_lift.mpr ⟨hw, fun r w' hr => h r w' (hr fun hawaits => absurd hawaits hcall)⟩

theorem ensures_childProc (h : Owned w) :
    Ensures (E := E) (ask .childProc) (fun r w => w.childProc = r ∧ Owned w) w := by
  refine ensures_ask id h.atMostOne fun r w' hr => ?_
  have howned := h.fewer (fewer_of_calm (show Calm .childProc from trivial) hr.1)
  obtain ⟨⟨alive, -, rfl, rfl⟩, -⟩ := hr
  exact ⟨howned.atMostOne, rfl, howned⟩

theorem ensures_setChildProc {child : Option Child} (h : ∀ other ∈ w.alive, child = some other) :
    Ensures (E := E) (ask (.setChildProc child)) (fun _ => Owned) w := by
  have hnew {w' : World} (halive : w'.alive ⊆ w.alive) (hchild : w'.childProc = child) : Owned w' :=
    fun other hother => hchild.trans (h other (halive hother))
  have hw : AtMostOne w := (hnew (fun _ h => h) rfl : Owned { w with childProc := child }).atMostOne
  refine ensures_ask id hw fun r w' hr => ?_
  obtain ⟨⟨alive, halive, rfl⟩, -⟩ := hr
  exact ⟨(hnew halive rfl).atMostOne, hnew halive rfl⟩

/-- A child that has exited was the only one. -/
theorem nil_of_exited {w w' : World} {child : Child} (h : w.childProc = some child ∧ Owned w)
    (hfewer : Fewer w w') (hexited : child ∉ w'.alive) : w'.alive = [] := by
  refine List.eq_nil_iff_forall_not_mem.mpr fun other hother => hexited ?_
  have heq := h.1.symm.trans (h.2 other (hfewer.alive hother))
  cases heq
  exact hother

/-- This is where `wait` must not fail for a child that is alive. -/
theorem ensures_wait {child : Child} (h : w.childProc = some child ∧ Owned w) :
    Ensures (E := E) (ask (.wait child)) (fun _ w => w.alive = []) w := by
  refine ensures_ask id h.2.atMostOne fun r w' hr => ?_
  obtain ⟨hr, hwaited⟩ := hr
  have hfewer := fewer_of_calm (show Calm (.wait child) from trivial) hr
  have hnil : w'.alive = [] := by
    cases r with
    | ok a =>
      obtain ⟨alive, -, hexited, rfl⟩ := hr
      exact nil_of_exited h hfewer hexited
    | error e => exact nil_of_exited h hfewer hwaited
  exact ⟨(owned_of_nil hnil).atMostOne, hnil⟩

/-! ### Calls that leave the children alone -/

theorem only_tryGetRelease : (tryGetRelease (E := E)).run.Only Calm :=
  only_retryWithLog trivial (only_tryAsk ⟨trivial, fun _ => trivial⟩)

theorem only_getBinPath (setup : Setup E) (uri : String) :
    (getBinPath setup uri).run.Only Calm := by
  refine Prog.only_run_bind (only_tryAsk trivial) fun segments => ?_
  split
  · split <;> trivial
  · trivial

theorem only_tryLoadDownloadedBinary (setup : Setup E) (release : ClientRelease) :
    (tryLoadDownloadedBinary setup release).run.Only Calm := by
  refine Prog.only_run_bind (only_getBinPath setup release.uri) fun (binName, binPath) => ?_
  have hread : (tryCatch (tryAsk (Prog.request (api E) (.readFile binPath)))
      fun _ => throw .noDownloadedRelease).run.Only Calm :=
    Prog.only_run_tryCatch (only_tryAsk ⟨trivial, fun _ => trivial⟩) fun _ => trivial
  refine Prog.only_run_bind hread fun fileContent => ?_
  dsimp only
  split
  · trivial
  · exact ⟨trivial, fun _ => trivial⟩

theorem only_fetchBinary (setup : Setup E) (release : ClientRelease) :
    (fetchBinary setup release).run.Only Calm := by
  have hcall {call : Call} (hcalm : Calm call) : (Prog.request (api E) call).Only Calm :=
    ⟨hcalm, fun _ => trivial⟩
  refine Prog.only_run_bind (only_getBinPath setup release.uri) fun (binName, binPath) => ?_
  refine Prog.only_run_bind (only_tryAsk (hcall trivial)) fun _ => ?_
  refine Prog.only_run_bind (only_retryWithLog trivial (only_tryAsk (hcall trivial)))
    fun bytes => ?_
  refine Prog.only_run_bind (only_tryAsk (hcall trivial)) fun _ => ?_
  refine Prog.only_run_bind (only_tryAsk (hcall trivial)) fun _ => ?_
  exact ⟨trivial, fun _ => trivial⟩

theorem only_downloadBinary (setup : Setup E) (release : ClientRelease) :
    (downloadBinary setup release).run.Only Calm := by
  refine Prog.only_run_bind ⟨trivial, fun _ => trivial⟩ fun r => ?_
  cases r with
  | none => exact only_fetchBinary setup release
  | some downloadedRelease =>
    dsimp only
    split
    · trivial
    · exact only_fetchBinary setup release

theorem only_deleteDownloadedRelease : (deleteDownloadedRelease (E := E)).run.Only Calm := by
  refine Prog.only_run_bind ⟨trivial, fun _ => trivial⟩ fun r => ?_
  cases r with
  | none => trivial
  | some release =>
    refine Prog.only_run_bind (only_retryWithLog trivial (only_tryAsk ⟨trivial, fun _ => trivial⟩))
      fun _ => ?_
    exact ⟨trivial, fun _ => trivial⟩

/-! ### The functions on the child -/

theorem ensures_terminateProcAndWait (h : Owned w) :
    Ensures (E := E) terminateProcAndWait (fun _ => Owned) w := by
  refine Prog.keeps_run_seq (ensures_childProc h) fun r w hw h => ?_
  cases r with
  | none => exact ⟨hw, h.2⟩
  | some child =>
    have hkill : (tryCatch (retryWithLog (killChild (E := E) child))
        fun _ => throw .processTerminationFailure).run.Only Calm :=
      Prog.only_run_tryCatch (only_retryWithLog trivial (only_killChild (fun _ => trivial) child))
        fun _ => trivial
    refine Prog.keeps_run_seq (ensures_of_only (steady_childProc (some child)) hkill h)
      fun _ w hw h => ?_
    refine Prog.keeps_run_seq (ensures_wait h) fun _ w hw hnil => ?_
    refine Prog.keeps_run_seq (ensures_setChildProc fun other hother => ?_)
      fun _ w hw h => ⟨hw, h⟩
    rw [hnil] at hother
    cases hother

theorem ensures_tryWait {child : Child} (h : w.childProc = some child ∧ Owned w) :
    Ensures (E := E) (tryAsk (Prog.request (api E) (.tryWait child)))
      (fun exited w => if exited then w.alive = [] else Owned w) w := by
  refine Prog.keeps_map.mpr ⟨h.2.atMostOne, fun r w' hr => ?_⟩
  obtain ⟨hr, -⟩ := hr fun hawaits => False.elim hawaits
  have hfewer := fewer_of_calm (show Calm (.tryWait child) from trivial) hr
  have howned := h.2.fewer hfewer
  refine ⟨howned.atMostOne, ?_⟩
  cases r with
  | error e => exact howned
  | ok exited =>
    cases exited with
    | false => exact howned
    | true =>
      obtain ⟨alive, -, hexited, rfl⟩ := hr
      exact nil_of_exited h hfewer (hexited rfl)

theorem ensures_checkChildProcAlive (h : Owned w) :
    Ensures (E := E) checkChildProcAlive (fun _ => Owned) w := by
  refine Prog.keeps_run_seq (ensures_childProc h) fun r w hw h => ?_
  cases r with
  | none => exact ⟨hw, h.2⟩
  | some child =>
    refine Prog.keeps_run_seq (ensures_tryWait h) fun exited w hw h => ?_
    cases exited with
    | false => exact ⟨hw, h⟩
    | true =>
      refine Prog.keeps_run_seq (ensures_setChildProc fun other hother => ?_)
        fun _ w hw h => ⟨hw, h⟩
      rw [h] at hother
      cases hother

/-- A child is spawned when no other one is alive. -/
theorem ensures_spawn {path : PathBuf} {args : List String} (h : w.childProc = none ∧ Owned w) :
    Prog.Keeps soloEnv AtMostOne (tryAsk (Prog.request (api E) (.spawn path args))).run
      (Prog.Outcome (fun child w => ∀ other ∈ w.alive, some child = some other)
        fun _ w => w.childProc = none ∧ Owned w) w := by
  refine Prog.keeps_map.mpr ⟨h.2.atMostOne, fun r w' hr => ?_⟩
  obtain ⟨⟨alive, halive, hr⟩, -⟩ := hr fun hawaits => False.elim hawaits
  have hnil : alive = [] := by
    refine List.eq_nil_iff_forall_not_mem.mpr fun child hchild => ?_
    have heq := h.1.symm.trans (h.2 child (halive hchild))
    cases heq
  subst hnil
  cases r with
  | error e =>
    cases hr
    exact ⟨(owned_of_nil rfl).atMostOne, h.1, owned_of_nil rfl⟩
  | ok child =>
    obtain ⟨-, content, -, rfl⟩ := hr
    have hone : ∀ other ∈ [child], child = other := fun other hother =>
      (List.mem_singleton.mp hother).symm
    exact ⟨fun first hfirst other hother => (hone first hfirst).symm.trans (hone other hother),
      fun other hother => congrArg some (hone other hother)⟩

theorem ensures_runBinary (h : Owned w) : Ensures (runBinary setup) (fun _ => Owned) w := by
  refine Prog.keeps_run_seq (ensures_childProc h) fun r w hw h => ?_
  cases r with
  | some child => exact ⟨hw, h.2⟩
  | none =>
    refine Prog.keeps_run_seq (ensures_of_only (steady_childProc none)
      (f := ask .downloadedRelease) ⟨trivial, fun _ => trivial⟩ h) fun r w hw h => ?_
    cases r with
    | none => exact ⟨hw, h.2⟩
    | some release =>
      have hspawn : Ensures (retryWithLog
          (tryAsk (Prog.request (api E) (.spawn release.path setup.clientArgs))))
          (fun child w => ∀ other ∈ w.alive, some child = some other) w := by
        refine Prog.keeps_run_seq (ensures_of_only (steady_childProc none) (f := ask .retries)
          ⟨trivial, fun _ => trivial⟩ h) fun retries w hw h => ?_
        exact (Prog.keeps_run_retry (fun _ _ => ensures_spawn) retries hw h).mono
          fun r w _ hr => hr.imp (fun _ h => h) fun _ h => h.2
      refine Prog.keeps_run_seq hspawn fun child w hw h => ?_
      exact ensures_setChildProc h

theorem ensures_maybeRestartClient (h : Owned w) :
    Ensures (maybeRestartClient setup) (fun _ => Owned) w := by
  refine Prog.keeps_run_seq (ensures_checkChildProcAlive h) fun alive w hw h => ?_
  cases alive with
  | true => exact ⟨hw, h⟩
  | false => exact ensures_runBinary h

theorem ensures_sleep (h : Owned w) : Ensures (E := E) (ask .sleep) (fun _ => Owned) w :=
  ensures_of_only steady_owned ⟨trivial, fun _ => trivial⟩ h

theorem ensures_update (h : Owned w) : Ensures (update setup) (fun _ => Owned) w := by
  refine Prog.keeps_run_seq (ensures_maybeRestartClient h) fun _ w hw h => ?_
  refine Prog.keeps_run_seq (ensures_of_only steady_owned only_tryGetRelease h) fun r w hw h => ?_
  cases r with
  | none => exact ensures_sleep h
  | some newRelease =>
    refine Prog.keeps_run_seq (ensures_of_only steady_owned (f := ask .downloadedRelease)
      ⟨trivial, fun _ => trivial⟩ h) fun r w hw h => ?_
    cases r with
    | none => exact ⟨hw, h⟩
    | some downloadedRelease =>
      dsimp only
      split
      · refine Prog.keeps_run_seq (ensures_terminateProcAndWait h) fun _ w hw h => ?_
        refine Prog.keeps_run_seq (ensures_of_only steady_owned only_deleteDownloadedRelease h)
          fun _ w hw h => ?_
        refine Prog.keeps_run_seq (ensures_of_only steady_owned
          (only_downloadBinary setup newRelease) h) fun _ w hw h => ?_
        exact Prog.keeps_run_seq (ensures_runBinary h) fun _ w hw h => ensures_sleep h
      · exact ensures_sleep h

theorem ensures_updates (rounds : Nat) (h : Owned w) :
    Ensures (updates setup rounds) (fun _ => Owned) w := by
  induction rounds generalizing w with
  | zero => exact ⟨h.atMostOne, h⟩
  | succ rounds ih => exact Prog.keeps_run_seq (ensures_update h) fun _ w hw h => ih h

theorem ensures_autoUpdate (rounds : Nat) (h : Owned w) :
    Ensures (autoUpdate setup rounds) (fun _ => Owned) w := by
  refine Prog.keeps_run_seq (ensures_of_only steady_owned
    (only_tryAsk ⟨trivial, fun _ => trivial⟩) h) fun _ w hw h => ?_
  refine Prog.keeps_run_seq (ensures_of_only steady_owned only_tryGetRelease h) fun r w hw h => ?_
  cases r with
  | none => exact ⟨hw, h⟩
  | some release =>
    have hload : (tryCatch (tryLoadDownloadedBinary setup release) fun _ => do
        let _ ← downloadBinary setup release).run.Only Calm :=
      Prog.only_run_tryCatch (only_tryLoadDownloadedBinary setup release) fun _ =>
        Prog.only_run_bind (only_downloadBinary setup release) fun _ => trivial
    refine Prog.keeps_run_seq (ensures_of_only steady_owned hload h) fun _ w hw h => ?_
    exact Prog.keeps_run_seq (ensures_runBinary h) fun _ w hw h => ensures_updates rounds h

theorem keeps_operation (operation : Operation) (h : Owned w) :
    Prog.Keeps soloEnv AtMostOne (operation.run setup) (fun _ => Owned) w := by
  have hended {A : Type} {f : Rpc E A} (hf : Ensures f (fun _ => Owned) w) :
      Prog.Keeps soloEnv AtMostOne f.run (fun _ => Owned) w :=
    hf.mono fun r w _ hr => by
      cases r with
      | ok a => exact hr
      | error e => exact hr
  cases operation with
  | autoUpdate rounds => exact hended (ensures_autoUpdate rounds h)
  | maybeRestartClient => exact hended (ensures_maybeRestartClient h)
  | terminateProcAndWait =>
    exact hended (Prog.keeps_run_seq (ensures_terminateProcAndWait h) fun _ w hw h => ⟨hw, h⟩)

end Rules

/-- Whatever the operations and wherever one of them has got to: at most one child is alive, if no
`wait` fails for a child that is alive. -/
theorem atMostOne_of_session (setup : Setup E) {w w' : World} {operation : Operation}
    {p : Prog (api E) (Except (Error E) Unit)}
    (hsession : Prog.Session waitedEnv Awaits (Operation.run setup) Started w)
    (hruns : Prog.Runs waitedEnv (operation.run setup) w p w') : AtMostOne w' := by
  have hstart (w : World) (hw : Started w) : Owned w := by
    obtain ⟨files, rfl⟩ := hw
    exact owned_of_nil rfl
  have hanswer (call : Call) (hawaits : Awaits call) : Nonempty ((api E).Answer call) := by
    cases call with
    | readChainStorage => exact ⟨.ok none⟩
    | getRequestBytes uri => exact ⟨.ok []⟩
    | sleep => exact ⟨()⟩
    | _ => exact hawaits.elim
  have htwo : ∃ w, ¬AtMostOne w := by
    refine ⟨⟨none, none, none, fun _ => none, [0, 1], []⟩, fun h => ?_⟩
    exact absurd (h 0 (by simp) 1 (by simp)) (by decide)
  have howned : Owned w :=
    hsession.keeps (fun operation w h => keeps_operation operation h) hstart htwo hanswer
  exact ((keeps_operation operation howned).runs_of_demand hruns).inv

/-! ### An update -/

def nextRelease : ClientRelease := { vaultRelease with checksum := digest [1] }

/-- Surroundings in which the release on chain is replaced after it has been read once.  The old
client exits for the signal, or `wait` fails and it does not. -/
def answerUpdate (exits : Bool) (w : World) : (call : Call) → (api Unit).Answer call × World
  | .readChainStorage =>
    let release := if w.release = none then vaultRelease else nextRelease
    (.ok (some release), { w with release := some release })
  | .spawn path _ => match w.files path with
    | some content =>
      let child := w.spawned.length + 1
      if child ∈ w.alive then (.error (), w) else (.ok child, w.spawn child content)
    | none => (.error (), w)
  | .wait child =>
    if exits then (.ok (), { w with alive := w.alive.filter fun other => other ≠ child })
    else (.error (), w)
  | call => answer (if w.release = some vaultRelease then [2] else [1]) (fun _ => true) w call

theorem env_answerUpdate (exits : Bool) (w : World) (call : Call) :
    env w call (answerUpdate exits w call).1 (answerUpdate exits w call).2 := by
  cases call with
  | readChainStorage => exact ⟨w.alive, fun _ h => h, rfl⟩
  | spawn path args =>
    refine ⟨w.alive, fun _ h => h, ?_⟩
    cases hfile : w.files path with
    | none => simp only [answerUpdate, hfile]
    | some content =>
      by_cases halive : w.spawned.length + 1 ∈ w.alive
      · simp only [answerUpdate, hfile, if_pos halive]
      · simp only [answerUpdate, hfile, if_neg halive]
        exact ⟨halive, content, rfl, rfl⟩
  | wait child =>
    cases exits with
    | false => exact ⟨w.alive, fun _ h => h, rfl⟩
    | true =>
      refine ⟨w.alive.filter fun other => other ≠ child,
        fun _ h => (List.mem_filter.mp h).1, ?_, rfl⟩
      simp
  | _ => exact env_answer (if w.release = some vaultRelease then [2] else [1]) (fun _ => true) w _

theorem waitedEnv_answerUpdate (w : World) (call : Call) :
    waitedEnv w call (answerUpdate true w call).1 (answerUpdate true w call).2 := by
  refine ⟨env_answerUpdate true w call, ?_⟩
  cases call with
  | wait child => trivial
  | _ => trivial

def afterUpdate (exits : Bool) : Except (Error Unit) Unit × World :=
  ((Operation.autoUpdate 1).run vaultSetup).exec (answerUpdate exits) (World.start fun _ => none)

/-- The old client has exited when the new one is spawned. -/
theorem atMostOne_of_session_exits :
    AtMostOne (afterUpdate true).2 ∧ (afterUpdate true).2.alive = [2] ∧
      (afterUpdate true).2.spawned.length = 2 := by
  have hruns : Prog.Runs waitedEnv ((Operation.autoUpdate 1).run vaultSetup)
      (World.start fun _ => none) (.pure (afterUpdate true).1) (afterUpdate true).2 :=
    Prog.runs_exec waitedEnv_answerUpdate _ _
  exact ⟨atMostOne_of_session vaultSetup (.start ⟨_, rfl⟩) hruns, by decide +kernel,
    by decide +kernel⟩

/-- `wait` fails, and the new client is spawned while the old one is alive. -/
theorem two_of_wait_failed :
    Prog.Runs env ((Operation.autoUpdate 1).run vaultSetup) (World.start fun _ => none)
        (.pure (afterUpdate false).1) (afterUpdate false).2 ∧
      (afterUpdate false).2.alive = [2, 1] ∧ ¬AtMostOne (afterUpdate false).2 := by
  have halive : (afterUpdate false).2.alive = [2, 1] := by decide +kernel
  refine ⟨Prog.runs_exec (env_answerUpdate false) _ _, halive, fun h => ?_⟩
  rw [AtMostOne, halive] at h
  exact absurd (h 2 (by simp) 1 (by simp)) (by decide)

end InterBtcClients.Runner.OneChild
