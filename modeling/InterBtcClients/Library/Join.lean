import InterBtcClients.Library.Interleave
import Mathlib.Data.List.Forall2

/-! A program that waits for several programs, which it runs at once: one that picks turns decides
which of them goes on.  What each of them achieves while others change the state, all of them
achieve together. -/

namespace InterBtcClients.Library.Prog

variable {F : Interface} {A B X S : Type}

/-- What is left of a join whose left program is at a call. -/
def joinAt (turn : Prog F Bool) {c : F.Call} (next : F.Answer c → Prog F A)
    (left : F.Answer c → Prog F B → Prog F (A × B)) : Prog F B → Prog F (A × B)
  | .pure b => .call c fun r => (fun a => (a, b)) <$> next r
  | .call d next' => turn.bind fun t =>
    if t then .call c fun r => left r (.call d next')
    else .call d fun r => joinAt turn next left (next' r)

/-- Both programs at once: `turn` is whether the left one goes on. -/
def join (turn : Prog F Bool) : Prog F A → Prog F B → Prog F (A × B)
  | .pure a, q => (fun b => (a, b)) <$> q
  | .call _ next, q => joinAt turn next (fun r => join turn (next r)) q

def joinAll (turn : Prog F Bool) : List (Prog F A) → Prog F (List A)
  | [] => Pure.pure []
  | p :: ps => (fun x => x.1 :: x.2) <$> join turn p (joinAll turn ps)

/-- All results, or the first error of the list, once all programs have returned. -/
def tryJoinAll {E : Type} (turn : Prog F Bool) (ps : List (ExceptT E (Prog F) A)) :
    ExceptT E (Prog F) (List A) := do
  let results ← ExceptT.lift (joinAll turn (ps.map ExceptT.run))
  ofExcept (results.mapM id)

section TryJoin

variable {E : Type}

/-- What is left of a `tryJoin` whose left program is at a call. -/
def tryJoinAt (turn : Prog F Bool) {c : F.Call} (next : F.Answer c → Prog F (Except E A))
    (left : F.Answer c → Prog F (Except E B) → Prog F (Except E (A × B))) :
    Prog F (Except E B) → Prog F (Except E (A × B))
  | .pure (.error e) => .pure (.error e)
  | .pure (.ok b) => .call c fun r => Except.map (fun a => (a, b)) <$> next r
  | .call d next' => turn.bind fun t =>
    if t then .call c fun r => left r (.call d next')
    else .call d fun r => tryJoinAt turn next left (next' r)

/-- Both programs at once, until one of them fails. -/
def tryJoin (turn : Prog F Bool) :
    Prog F (Except E A) → Prog F (Except E B) → Prog F (Except E (A × B))
  | .pure (.error e), _ => .pure (.error e)
  | .pure (.ok a), q => Except.map (fun b => (a, b)) <$> q
  | .call _ next, q => tryJoinAt turn next (fun r => tryJoin turn (next r)) q

end TryJoin

theorem forall₂_of_mapM_id {E : Type} {P : X → A → Prop} {xs : List X} {rs : List (Except E A)}
    {as : List A} (h : List.Forall₂ (fun x r => ∀ a, r = .ok a → P x a) xs rs)
    (hrs : rs.mapM id = .ok as) : List.Forall₂ P xs as := by
  induction h generalizing as with
  | nil =>
    cases hrs
    exact .nil
  | cons hr _ ih =>
    rw [List.mapM_cons] at hrs
    obtain ⟨a, ha, hrs⟩ := bind_eq_ok hrs
    obtain ⟨as, has, hrs⟩ := bind_eq_ok hrs
    cases hrs
    exact .cons (hr a ha) (ih has)

theorem exists_mem_right {P : X → A → Prop} {xs : List X} {as : List A} (h : List.Forall₂ P xs as) :
    ∀ x ∈ xs, ∃ a ∈ as, P x a := by
  induction h with
  | nil => exact fun _ h => by cases h
  | cons hP _ ih =>
    intro y hy
    rcases List.mem_cons.mp hy with rfl | hy
    · exact ⟨_, List.mem_cons_self, hP⟩
    · obtain ⟨a, ha, hP⟩ := ih y hy
      exact ⟨a, List.mem_cons_of_mem _ ha, hP⟩

/-- Between the answers to a program that keeps `I`, the state changes as `R` allows, and so do the
answers change it. -/
structure Shares (R : S → S → Prop) (env : Env F S) (I : S → Prop) : Prop where
  refl : ∀ s, R s s
  trans : ∀ {s s' s''}, R s s' → R s' s'' → R s s''
  inv : Stable R I
  step : ∀ {s c r s'}, I s → env s c r s' → I s' → R s s'

variable {R : S → S → Prop} {env : Env F S} {I : S → Prop} {s : S}

/-- A program that is left alone. -/
theorem Keeps.alone {p : Prog F A} {Q : A → S → Prop} (hrefl : ∀ s, R s s)
    (h : Keeps (interfere R env) I p Q s) : Keeps env I p Q s := by
  induction p generalizing s with
  | pure a => exact h
  | call c next ih => exact ⟨h.1, fun r s' hr => ih r (h.2 r s' ⟨s, hrefl s, hr⟩)⟩

namespace Shares

variable (h : Shares R env I)
include h

theorem later {p : Prog F A} {P : A → S → Prop} (hP : ∀ a, Stable R (P a)) {s' : S}
    (hp : Keeps (interfere R env) I p P s) (hR : R s s') : Keeps (interfere R env) I p P s' :=
  Keeps.stable (R := R) h.trans h.inv hP hp hR

/-- What no other program disturbs still holds at the end. -/
theorem frame {p : Prog F A} {P : A → S → Prop} {J : S → Prop} (hJ : Stable R J)
    (hp : Keeps (interfere R env) I p P s) (hs : J s) :
    Keeps (interfere R env) I p (fun a s => P a s ∧ J s) s := by
  induction p generalizing s with
  | pure a => exact ⟨hp.1, hp.2, hs⟩
  | call c next ih =>
    refine ⟨hp.1, fun r s' hr => ?_⟩
    have hnext : Keeps (interfere R env) I (next r) P s' := hp.2 r s' hr
    obtain ⟨s₁, hR, hanswer⟩ := hr
    have hstep := h.step (h.inv _ _ hR hp.1) hanswer hnext.inv
    exact ih r hnext (hJ _ _ hstep (hJ _ _ hR hs))

theorem keeps_join {turn : Prog F Bool} {P : A → S → Prop} {Q : B → S → Prop}
    (hturn : ∀ s, I s → Keeps (interfere R env) I turn (fun _ s' => R s s') s)
    (hP : ∀ a, Stable R (P a)) (hQ : ∀ b, Stable R (Q b)) {p : Prog F A} {q : Prog F B}
    (hp : Keeps (interfere R env) I p P s) (hq : Keeps (interfere R env) I q Q s) :
    Keeps (interfere R env) I (join turn p q) (fun x s => P x.1 s ∧ Q x.2 s) s := by
  induction p generalizing q s with
  | pure a =>
    exact keeps_map.mpr ((h.frame (hP a) hq hp.2).mono fun b s _ hs => ⟨hs.2, hs.1⟩)
  | call c next ihp =>
    induction q generalizing s with
    | pure b =>
      refine ⟨hp.1, fun r s' hr => ?_⟩
      have hnext : Keeps (interfere R env) I (next r) P s' := hp.2 r s' hr
      obtain ⟨s₁, hR, hanswer⟩ := hr
      have hstep := h.step (h.inv _ _ hR hp.1) hanswer hnext.inv
      exact keeps_map.mpr (h.frame (hQ b) hnext (hQ b _ _ hstep (hQ b _ _ hR hq.2)))
    | call d next' ihq =>
      refine keeps_bind.mpr ((hturn s hp.1).mono fun t s' _ hR => ?_)
      have hp := h.later hP hp hR
      have hq := h.later hQ hq hR
      cases t with
      | true =>
        refine ⟨hp.1, fun r s'' hr => ?_⟩
        have hnext : Keeps (interfere R env) I (next r) P s'' := hp.2 r s'' hr
        obtain ⟨s₁, hR, hanswer⟩ := hr
        have hstep := h.step (h.inv _ _ hR hp.1) hanswer hnext.inv
        exact ihp r hnext (h.later hQ hq (h.trans hR hstep))
      | false =>
        refine ⟨hp.1, fun r s'' hr => ?_⟩
        have hnext : Keeps (interfere R env) I (next' r) Q s'' := hq.2 r s'' hr
        obtain ⟨s₁, hR, hanswer⟩ := hr
        have hstep := h.step (h.inv _ _ hR hp.1) hanswer hnext.inv
        exact ihq r (h.later hP hp (h.trans hR hstep)) hnext

theorem keeps_tryJoin {E : Type} {turn : Prog F Bool} {P : A → S → Prop} {Q : B → S → Prop}
    (hturn : ∀ s, I s → Keeps (interfere R env) I turn (fun _ s' => R s s') s)
    (hP : ∀ a, Stable R (P a)) (hQ : ∀ b, Stable R (Q b)) {p : Prog F (Except E A)}
    {q : Prog F (Except E B)}
    (hp : Keeps (interfere R env) I p (fun r s => ∀ a, r = .ok a → P a s) s)
    (hq : Keeps (interfere R env) I q (fun r s => ∀ b, r = .ok b → Q b s) s) :
    Keeps (interfere R env) I (tryJoin turn p q)
      (fun r s => ∀ x, r = .ok x → P x.1 s ∧ Q x.2 s) s := by
  have hP' (r : Except E A) : Stable R fun s => ∀ a, r = .ok a → P a s :=
    fun s s' hR hr a ha => hP a s s' hR (hr a ha)
  have hQ' (r : Except E B) : Stable R fun s => ∀ b, r = .ok b → Q b s :=
    fun s s' hR hr b hb => hQ b s s' hR (hr b hb)
  induction p generalizing q s with
  | pure r =>
    cases r with
    | error e => exact ⟨hp.1, fun _ h => by cases h⟩
    | ok a =>
      refine keeps_map.mpr ((h.frame (hP a) hq (hp.2 a rfl)).mono fun r s _ hs x hx => ?_)
      obtain ⟨b, hb, rfl⟩ := map_eq_ok hx
      exact ⟨hs.2, hs.1 b hb⟩
  | call c next ihp =>
    induction q generalizing s with
    | pure r =>
      cases r with
      | error e => exact ⟨hp.1, fun _ h => by cases h⟩
      | ok b =>
        refine ⟨hp.1, fun r s' hr => ?_⟩
        have hnext : Keeps (interfere R env) I (next r) _ s' := hp.2 r s' hr
        obtain ⟨s₁, hR, hanswer⟩ := hr
        have hstep := h.step (h.inv _ _ hR hp.1) hanswer hnext.inv
        have hb := hQ b _ _ hstep (hQ b _ _ hR (hq.2 b rfl))
        refine keeps_map.mpr ((h.frame (hQ b) hnext hb).mono fun r s _ hs x hx => ?_)
        obtain ⟨a, ha, rfl⟩ := map_eq_ok hx
        exact ⟨hs.1 a ha, hs.2⟩
    | call d next' ihq =>
      refine keeps_bind.mpr ((hturn s hp.1).mono fun t s' _ hR => ?_)
      have hp := h.later hP' hp hR
      have hq := h.later hQ' hq hR
      cases t with
      | true =>
        refine ⟨hp.1, fun r s'' hr => ?_⟩
        have hnext : Keeps (interfere R env) I (next r) _ s'' := hp.2 r s'' hr
        obtain ⟨s₁, hR, hanswer⟩ := hr
        have hstep := h.step (h.inv _ _ hR hp.1) hanswer hnext.inv
        exact ihp r hnext (h.later hQ' hq (h.trans hR hstep))
      | false =>
        refine ⟨hp.1, fun r s'' hr => ?_⟩
        have hnext : Keeps (interfere R env) I (next' r) _ s'' := hq.2 r s'' hr
        obtain ⟨s₁, hR, hanswer⟩ := hr
        have hstep := h.step (h.inv _ _ hR hp.1) hanswer hnext.inv
        exact ihq r (h.later hP' hp (h.trans hR hstep)) hnext

theorem keeps_joinAll {turn : Prog F Bool} {f : X → Prog F A} {P : X → A → S → Prop}
    (hturn : ∀ s, I s → Keeps (interfere R env) I turn (fun _ s' => R s s') s)
    (hP : ∀ x a, Stable R (P x a)) (hs : I s) {xs : List X}
    (hf : ∀ x ∈ xs, Keeps (interfere R env) I (f x) (P x) s) :
    Keeps (interfere R env) I (joinAll turn (xs.map f))
      (fun as s => List.Forall₂ (fun x a => P x a s) xs as) s := by
  induction xs with
  | nil => exact ⟨hs, .nil⟩
  | cons x xs ih =>
    have hall (as : List A) : Stable R fun s => List.Forall₂ (fun x a => P x a s) xs as :=
      fun s s' hR has => has.imp fun x a ha => hP x a s s' hR ha
    refine keeps_map.mpr ((h.keeps_join hturn (hP x) hall (hf x List.mem_cons_self)
      (ih fun y hy => hf y (List.mem_cons_of_mem x hy))).mono fun _ s _ hs => ?_)
    exact .cons hs.1 hs.2

theorem keeps_tryJoinAll {E : Type} {turn : Prog F Bool} {f : X → ExceptT E (Prog F) A}
    {P : X → A → S → Prop}
    (hturn : ∀ s, I s → Keeps (interfere R env) I turn (fun _ s' => R s s') s)
    (hP : ∀ x a, Stable R (P x a)) (hs : I s) {xs : List X}
    (hf : ∀ x ∈ xs, Keeps (interfere R env) I (ExceptT.run (f x))
      (fun r s => ∀ a, r = .ok a → P x a s) s) :
    Keeps (interfere R env) I (ExceptT.run (tryJoinAll turn (xs.map f)))
      (fun r s => ∀ as, r = .ok as → List.Forall₂ (fun x a => P x a s) xs as) s := by
  refine keeps_run_bind.mpr (keeps_run_lift.mpr ?_)
  have hmap : (xs.map f).map ExceptT.run = xs.map fun x => ExceptT.run (f x) := List.map_map
  rw [hmap]
  refine (h.keeps_joinAll hturn (P := fun x (r : Except E A) s => ∀ a, r = .ok a → P x a s)
    (fun x r s s' hR hr a ha => hP x a s s' hR (hr a ha)) hs hf).mono fun rs s hs hrs => ?_
  exact ⟨hs, fun as has => forall₂_of_mapM_id hrs has⟩

end Shares

end InterBtcClients.Library.Prog
