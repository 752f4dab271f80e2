import InterBtcClients.Library.Prog

/-! Programs that are run one after the other, each of them until it returns or is dropped at a call
at which it can be. -/

namespace InterBtcClients.Library.Prog

variable {ι : Type} {F : Interface} {A S : Type} {env : Env F S} {awaits : F.Call → Prop}

/-- What can be left when a program is no longer run. -/
def Left (awaits : F.Call → Prop) : Prog F A → Prop
  | .pure _ => True
  | .call c _ => awaits c

/-- The states between two of the programs `ps`. -/
inductive Session (env : Env F S) (awaits : F.Call → Prop) (ps : ι → Prog F A) (start : S → Prop) :
    S → Prop
  | start {s : S} : start s → Session env awaits ps start s
  | next {s s' : S} {i : ι} {p : Prog F A} : Session env awaits ps start s →
      Runs env (ps i) s p s' → Left awaits p → Session env awaits ps start s'

/-- Surroundings in which anything can happen after a call for which `J` did not hold. -/
def demand (J : F.Call → S → Prop) (env : Env F S) : Env F S := fun s c r s' => J c s → env s c r s'

theorem Runs.mono {env' : Env F S} {p p' : Prog F A} {s s' : S}
    (h : ∀ s c r s', env s c r s' → env' s c r s') (hruns : Runs env p s p' s') :
    Runs env' p s p' s' := by
  induction hruns with
  | refl p s => exact .refl p s
  | step hr _ ih => exact .step (h _ _ _ _ hr) ih

/-- What is demanded holds at a call, if there are states without the invariant. -/
theorem Keeps.demanded {J : F.Call → S → Prop} {I : S → Prop} {Q : A → S → Prop} {c : F.Call}
    {next : F.Answer c → Prog F A} {s : S} (h : Keeps (demand J env) I (.call c next) Q s)
    (hI : ∃ s, ¬I s) (r : F.Answer c) : J c s := by
  obtain ⟨s', hs'⟩ := hI
  refine Classical.byContradiction fun hnot => ?_
  exact hs' (h.2 r s' fun hJ => absurd hJ hnot).inv

variable {ps : ι → Prog F A} {start I J : S → Prop} {s s' : S}

theorem Keeps.runs_of_demand {K : F.Call → S → Prop} {p p' : Prog F A} {Q : A → S → Prop}
    (h : Keeps (demand K env) I p Q s) (hruns : Runs env p s p' s') :
    Keeps (demand K env) I p' Q s' :=
  h.runs (hruns.mono fun _ _ _ _ hr _ => hr)

/-- The rule for sessions: `J` is what holds between two programs, and where one can be dropped. -/
theorem Session.keeps
    (hps : ∀ i s, J s → Keeps (demand (fun c s => awaits c → J s) env) I (ps i) (fun _ => J) s)
    (hstart : ∀ s, start s → J s) (hI : ∃ s, ¬I s) (hanswer : ∀ c, awaits c → Nonempty (F.Answer c))
    (h : Session env awaits ps start s) : J s := by
  induction h with
  | start hs => exact hstart _ hs
  | @next s s' i p _ hruns hleft ih =>
    have hkeeps := (hps i s ih).runs_of_demand hruns
    cases p with
    | pure a => exact hkeeps.2
    | call c next =>
      obtain ⟨r⟩ := hanswer c hleft
      exact hkeeps.demanded hI r hleft

/-- What programs keep at every call holds wherever they are dropped. -/
theorem Session.inv {Q : A → S → Prop} (hps : ∀ i s, I s → Keeps env I (ps i) Q s)
    (hstart : ∀ s, start s → I s) (h : Session env awaits ps start s) : I s := by
  induction h with
  | start hs => exact hstart _ hs
  | next _ hruns _ ih => exact ((hps _ _ ih).runs hruns).inv

/-- What is left after `n` calls, which `handle` answers. -/
def cut (handle : S → (c : F.Call) → F.Answer c × S) : Nat → Prog F A → S → Prog F A × S
  | n + 1, .call c next, s => cut handle n (next (handle s c).1) (handle s c).2
  | _, p, s => (p, s)

theorem runs_cut {handle : S → (c : F.Call) → F.Answer c × S}
    (hhandle : ∀ s c, env s c (handle s c).1 (handle s c).2) (n : Nat) (p : Prog F A) (s : S) :
    Runs env p s (cut handle n p s).1 (cut handle n p s).2 := by
  induction n generalizing p s with
  | zero => exact .refl p s
  | succ n ih =>
    cases p with
    | pure a => exact .refl _ s
    | call c next => exact .step (hhandle s c) (ih _ _)

end InterBtcClients.Library.Prog
