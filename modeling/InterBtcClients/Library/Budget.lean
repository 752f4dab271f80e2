import InterBtcClients.Library.Phase
import Mathlib.Algebra.BigOperators.Group.List.Basic
import Mathlib.Algebra.Order.Ring.Int

/-! Budgets: some events earn and some spend, and a program is solvent if it spends at no call more
than there is.  Programs that are run at once are solvent together, and what is started again and
again spends at most what it earns, in all of its runs. -/

namespace InterBtcClients.Library.Prog

variable {F : Interface} {A B E X : Type}

def budget (weight : Event F → ℤ) : Env F ℤ := fun b c r b' => b' = b + weight ⟨c, r⟩

/-- Surroundings that change a budget by the same amount, whatever it is. -/
def Shifts (env : Env F ℤ) : Prop := ∀ {b c r b'} d, env b c r b' → env (b + d) c r (b' + d)

/-- From the budget `b`, it is never less than nothing. -/
abbrev Solvent (env : Env F ℤ) (p : Prog F A) (b : ℤ) : Prop :=
  Keeps env (0 ≤ ·) p (fun _ _ => True) b

theorem shifts_partEnv_budget {G : Interface} (on : F.Call → G.Call)
    (answer : (c : F.Call) → G.Answer (on c) → F.Answer c) (weight : Event G → ℤ) :
    Shifts (partEnv on answer (budget weight)) := by
  rintro b c a b' d ⟨r, rfl, rfl⟩
  exact ⟨r, rfl, by simp only [budget]; omega⟩

variable {env : Env F ℤ} {turn : Prog F Bool} {p : Prog F A} {q : Prog F B} {b b' d : ℤ}

/-- Calls that neither earn nor spend. -/
theorem keeps_of_free {P : F.Call → Prop} (hfree : ∀ b c r b', P c → env b c r b' → b' = b)
    (hp : Only P p) (hb : 0 ≤ b) : Keeps env (0 ≤ ·) p (fun _ b' => b' = b) b := by
  have hkeeps : Keeps env (· = b) p (fun _ => (· = b)) b :=
    keeps_of_only (fun s c r s' hs hc hr => (hfree s c r s' hc hr).trans hs) hp rfl
  refine (hkeeps.weaken fun s hs => ?_).mono fun _ _ _ h => h.1
  omega

/-- The rule for a part that neither earns nor spends. -/
theorem solvent_run_bind {P : F.Call → Prop} {p : ExceptT E (Prog F) A}
    {f : A → ExceptT E (Prog F) B} (hfree : ∀ b c r b', P c → env b c r b' → b' = b)
    (hp : Only P (ExceptT.run p)) (hb : 0 ≤ b) (hf : ∀ a, Solvent env (ExceptT.run (f a)) b) :
    Solvent env (ExceptT.run (p >>= f)) b := by
  refine keeps_run_bind.mpr ((keeps_of_free hfree hp hb).mono fun r b' _ hb' => ?_)
  subst hb'
  cases r with
  | ok a => exact hf a
  | error e => trivial

theorem Solvent.map {f : A → B} (hp : Solvent env p b) : Solvent env (f <$> p) b :=
  keeps_map.mpr (hp.mono fun _ _ _ _ => trivial)

theorem Solvent.add (h : Solvent env p b) (hshift : Shifts env) (hd : 0 ≤ d) :
    Solvent env p (b + d) := by
  induction p generalizing b with
  | pure a =>
    have hb := h.1
    exact ⟨by omega, trivial⟩
  | call c next ih =>
    have hb := h.1
    refine ⟨by omega, fun r s hr => ?_⟩
    have hr := hshift (-d) hr
    rw [add_neg_cancel_right] at hr
    have hnext : Solvent env (next r) (s + -d + d) := ih r (h.2 r _ hr)
    rwa [neg_add_cancel_right] at hnext

theorem Solvent.join (hp : Solvent env p b) (hq : Solvent env q b') (hshift : Shifts env)
    (hturn : ∀ b, 0 ≤ b → Keeps env (0 ≤ ·) turn (fun _ b' => b' = b) b) :
    Solvent env (join turn p q) (b + b') := by
  induction p generalizing q b b' with
  | pure a =>
    rw [add_comm]
    exact (hq.add hshift hp.1).map
  | call c next ihp =>
    -- what the left program does leaves the share of the right one
    have hleft (r : F.Answer c) (s : ℤ) {b b' : ℤ} (hp : Solvent env (.call c next) b)
        (hr : env (b + b') c r s) : Solvent env (next r) (s + -b') := by
      have hr := hshift (-b') hr
      rw [add_neg_cancel_right] at hr
      exact hp.2 r _ hr
    induction q generalizing b b' with
    | pure y =>
      have hb := hp.1
      have hb' := hq.1
      refine ⟨by omega, fun r s hr => ?_⟩
      have hnext := (hleft r s hp hr).add hshift hb'
      rw [neg_add_cancel_right] at hnext
      exact hnext.map
    | call e next' ihq =>
      have hb := hp.1
      have hb' := hq.1
      refine keeps_bind.mpr ((hturn (b + b') (by omega)).mono fun t s _ hs => ?_)
      subst hs
      cases t with
      | true =>
        refine ⟨by omega, fun r s hr => ?_⟩
        have hnext := ihp r (hleft r s hp hr) hq
        rwa [neg_add_cancel_right] at hnext
      | false =>
        refine ⟨by omega, fun r s hr => ?_⟩
        have hr := hshift (-b) hr
        rw [add_comm b, add_neg_cancel_right] at hr
        have hnext := ihq r hp (hq.2 r _ hr)
        rwa [add_comm b, neg_add_cancel_right] at hnext

theorem Solvent.joinAll {f : X → Prog F A} (hshift : Shifts env)
    (hturn : ∀ b, 0 ≤ b → Keeps env (0 ≤ ·) turn (fun _ b' => b' = b) b) (hb : 0 ≤ b) {xs : List X}
    (hf : ∀ x ∈ xs, Solvent env (f x) 0) : Solvent env (joinAll turn (xs.map f)) b := by
  induction xs with
  | nil => exact ⟨hb, trivial⟩
  | cons x xs ih =>
    have hjoin := (hf x List.mem_cons_self).join
      (ih fun y hy => hf y (List.mem_cons_of_mem x hy)) hshift hturn
    rw [zero_add] at hjoin
    exact hjoin.map

theorem Solvent.tryJoinAll {f : X → ExceptT E (Prog F) A} (hshift : Shifts env)
    (hturn : ∀ b, 0 ≤ b → Keeps env (0 ≤ ·) turn (fun _ b' => b' = b) b) (hb : 0 ≤ b) {xs : List X}
    (hf : ∀ x ∈ xs, Solvent env (ExceptT.run (f x)) 0) :
    Solvent env (ExceptT.run (tryJoinAll turn (xs.map f))) b := by
  have hmap : (xs.map f).map ExceptT.run = xs.map fun x => ExceptT.run (f x) := List.map_map
  refine keeps_run_bind.mpr (keeps_run_lift.mpr ?_)
  rw [hmap]
  exact (Solvent.joinAll hshift hturn hb hf).mono fun _ _ hb' _ => ⟨hb', trivial⟩

/-! ### Whole runs -/

variable {weight : Event F → ℤ} {possible : List (Event F) → Event F → Prop}
variable {log log' : List (Event F)}

theorem Solvent.runs {p' : Prog F A} (h : Solvent (budget weight) p b)
    (hruns : Runs (recorded possible) p log p' log') :
    ∃ events, log' = log ++ events ∧ 0 ≤ b + (events.map weight).sum := by
  induction hruns generalizing b with
  | refl p log => exact ⟨[], (List.append_nil log).symm, by simpa using h.inv⟩
  | @step c next r log _ _ _ hr _ ih =>
    obtain ⟨-, rfl⟩ := hr
    obtain ⟨events, rfl, hsum⟩ := ih (h.2 r _ rfl)
    refine ⟨⟨c, r⟩ :: events, List.append_assoc .., ?_⟩
    rwa [List.map_cons, List.sum_cons, ← add_assoc]

theorem Solvent.restarts (h : Solvent (budget weight) p 0)
    (hruns : Restarts (recorded possible) p [] log) : 0 ≤ (log.map weight).sum := by
  induction hruns with
  | refl => exact le_refl 0
  | next _ hrun ih =>
    obtain ⟨events, rfl, hsum⟩ := h.runs hrun
    rw [List.map_append, List.sum_append]
    omega

/-- What an event earns or spends. -/
def balance (earns spends : Event F → Bool) (e : Event F) : ℤ :=
  (earns e).toInt - (spends e).toInt

theorem sum_balance (earns spends : Event F → Bool) (log : List (Event F)) :
    (log.map (balance earns spends)).sum = log.countP earns - log.countP spends := by
  induction log with
  | nil => rfl
  | cons e log ih =>
    rw [List.map_cons, List.sum_cons, ih, List.countP_cons, List.countP_cons, balance]
    cases earns e <;> cases spends e <;> simp <;> omega

/-- However often it is started, and wherever it is cut off, it spends at most what it earns. -/
theorem Solvent.countP_le {earns spends : Event F → Bool}
    (h : Solvent (budget (balance earns spends)) p 0)
    (hruns : Restarts (recorded possible) p [] log) : log.countP spends ≤ log.countP earns := by
  have hsum := h.restarts hruns
  rw [sum_balance] at hsum
  omega

end InterBtcClients.Library.Prog
