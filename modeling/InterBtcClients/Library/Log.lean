import InterBtcClients.Library.Loop
import InterBtcClients.Library.Pool
import Mathlib.Data.List.Basic
import Mathlib.Data.List.DropRight
import Mathlib.Data.List.Induction

/-! The events of a run, its calls with their answers, and policies: what a program may call after
the events so far.  A program that is run among others, whatever is shared, has the events of a run
of its own, so that a policy is verified for each program alone. -/

namespace InterBtcClients.Library.Prog

variable {ι : Type} {F : Interface} {A : Type}

structure Event (F : Interface) where
  call : F.Call
  answer : F.Answer call

/-- Surroundings of which only the answers that are possible are known, with the events so far. -/
def logged (possible : Event F → Prop) : Env F (List (Event F)) :=
  fun log c r log' => possible ⟨c, r⟩ ∧ log' = log ++ [⟨c, r⟩]

/-- Each call is one that the policy allows after the events before it. -/
def Obeys (policy : List (Event F) → F.Call → Prop) (log : List (Event F)) : Prop :=
  ∀ before e after, log = before ++ e :: after → policy before e.call

section Policies

variable {policy : List (Event F) → F.Call → Prop} {possible : Event F → Prop}
variable {log log' : List (Event F)}

theorem obeys_nil : Obeys policy [] := by
  intro before e after h
  cases before <;> cases h

theorem obeys_concat {e : Event F} :
    Obeys policy (log ++ [e]) ↔ Obeys policy log ∧ policy log e.call := by
  constructor
  · refine fun h => ⟨fun before e' after hlog => ?_, h log e [] rfl⟩
    refine h before e' (after ++ [e]) ?_
    rw [hlog, List.append_assoc, List.cons_append]
  · rintro ⟨hlog, he⟩ before e' after h
    rcases List.eq_nil_or_concat after with rfl | ⟨after, last, rfl⟩
    · obtain ⟨rfl, hlast⟩ := List.append_inj' h rfl
      cases hlast
      exact he
    · rw [List.concat_eq_append, ← List.cons_append, ← List.append_assoc] at h
      exact hlog before e' after (List.append_inj' h rfl).1

theorem keeps_logged_call {c : F.Call} {next : F.Answer c → Prog F A}
    {Q : A → List (Event F) → Prop} (hlog : Obeys policy log) (hc : policy log c)
    (hnext : ∀ r, possible ⟨c, r⟩ → Obeys policy (log ++ [⟨c, r⟩]) →
      Keeps (logged possible) (Obeys policy) (next r) Q (log ++ [⟨c, r⟩])) :
    Keeps (logged possible) (Obeys policy) (.call c next) Q log := by
  refine ⟨hlog, fun r log' hr => ?_⟩
  obtain ⟨hpossible, rfl⟩ := hr
  exact hnext r hpossible (obeys_concat.mpr ⟨hlog, hc⟩)

theorem keeps_logged_request {c : F.Call} {Q : F.Answer c → List (Event F) → Prop}
    (hlog : Obeys policy log) (hc : policy log c)
    (hQ : ∀ r, possible ⟨c, r⟩ → Q r (log ++ [⟨c, r⟩])) :
    Keeps (logged possible) (Obeys policy) (request F c) Q log :=
  keeps_logged_call hlog hc fun r hr hlog => ⟨hlog, hQ r hr⟩

/-- The rule for the calls of a part. -/
theorem keeps_logged_part {G : Interface} {on : F.Call → G.Call}
    {answer : (c : F.Call) → G.Answer (on c) → F.Answer c} {possible : Event G → Prop}
    {policy : List (Event G) → G.Call → Prop} {log : List (Event G)} {c : F.Call}
    {next : F.Answer c → Prog F A} {Q : A → List (Event G) → Prop} (hlog : Obeys policy log)
    (hc : policy log (on c))
    (hnext : ∀ r, possible ⟨on c, r⟩ → Obeys policy (log ++ [⟨on c, r⟩]) →
      Keeps (partEnv on answer (logged possible)) (Obeys policy) (next (answer c r)) Q
        (log ++ [⟨on c, r⟩])) :
    Keeps (partEnv on answer (logged possible)) (Obeys policy) (.call c next) Q log := by
  refine ⟨hlog, fun a log' hr => ?_⟩
  obtain ⟨r, rfl, hpossible, rfl⟩ := hr
  exact hnext r hpossible (obeys_concat.mpr ⟨hlog, hc⟩)

/-- At most one event of a kind that the policy only allows when there has been none. -/
theorem Obeys.count_le_one {kind : Event F → Bool} (h : Obeys policy log)
    (honce : ∀ log e, policy log e.call → kind e = true → ∀ e' ∈ log, kind e' = false) :
    log.countP kind ≤ 1 := by
  induction log using List.reverseRecOn with
  | nil => exact Nat.zero_le 1
  | append_singleton log e ih =>
    obtain ⟨hlog, he⟩ := obeys_concat.mp h
    rw [List.countP_append, List.countP_singleton]
    split
    next hkind =>
      have hnone : log.countP kind = 0 :=
        List.countP_eq_zero.mpr fun e' he' => by simp [honce log e he hkind e' he']
      omega
    next => exact ih hlog

theorem Obeys.of_append {log' : List (Event F)} (h : Obeys policy (log ++ log')) :
    Obeys policy log := by
  intro before e after hlog
  refine h before e (after ++ log') ?_
  rw [hlog, List.append_assoc, List.cons_append]

/-- The events of a kind that the policy only allows when there has been none of it since one of
another kind. -/
theorem Obeys.countP_le_since {kind mark : Event F → Bool} (h : Obeys policy log)
    (honce : ∀ log e, policy log e.call → kind e = true → ∃ before m since,
      log = before ++ m :: since ∧ mark m = true ∧ ∀ e' ∈ m :: since, kind e' = false) :
    log.countP kind ≤ log.countP mark := by
  induction hn : log.length using Nat.strongRecOn generalizing log with
  | _ n ih =>
    subst hn
    rcases List.eq_nil_or_concat' log with rfl | ⟨log, e, rfl⟩
    · exact Nat.le_refl 0
    · obtain ⟨hlog, he⟩ := obeys_concat.mp h
      rw [List.countP_append, List.countP_append, List.countP_singleton]
      split
      next hkind =>
        obtain ⟨before, m, since, rfl, hmark, hnone⟩ := honce log e he hkind
        have hbefore := ih before.length (by simp) hlog.of_append rfl
        have hsince : (m :: since).countP kind = 0 :=
          List.countP_eq_zero.mpr fun e' he' => by simp [hnone e' he']
        rw [List.countP_append, List.countP_append, hsince, List.countP_cons, if_pos hmark]
        omega
      next =>
        have hrest := ih log.length (by simp) hlog rfl
        omega

end Policies

/-! ### The latest part of a log -/

/-- The call has been answered so since the last event that is not of the kind. -/
def AnsweredSince (kind : Event F → Bool) (log : List (Event F)) (c : F.Call) (r : F.Answer c) :
    Prop :=
  ⟨c, r⟩ ∈ log.rtakeWhile kind

section Since

variable {kind : Event F → Bool} {log : List (Event F)} {c : F.Call} {r : F.Answer c}

theorem AnsweredSince.append (h : AnsweredSince kind log c r) {events : List (Event F)}
    (hkind : ∀ e ∈ events, kind e = true) : AnsweredSince kind (log ++ events) c r := by
  induction events using List.reverseRecOn with
  | nil => rwa [List.append_nil]
  | append_singleton events e ih =>
    have he := hkind e (List.mem_append_right _ List.mem_cons_self)
    rw [AnsweredSince, ← List.append_assoc, List.rtakeWhile_concat_pos _ _ _ he]
    exact List.mem_append_left _ (ih fun e' he' => hkind e' (List.mem_append_left _ he'))

theorem answeredSince_concat (h : kind ⟨c, r⟩ = true) :
    AnsweredSince kind (log ++ [⟨c, r⟩]) c r := by
  rw [AnsweredSince, List.rtakeWhile_concat_pos _ _ _ h]
  exact List.mem_append_right _ List.mem_cons_self

theorem AnsweredSince.mem (h : AnsweredSince kind log c r) : ⟨c, r⟩ ∈ log :=
  (List.rtakeWhile_suffix _ _).subset h

theorem AnsweredSince.imp {kind' : Event F → Bool} (h : AnsweredSince kind log c r)
    (hkind : ∀ e, kind e = true → kind' e = true) : AnsweredSince kind' log c r := by
  induction log using List.reverseRecOn with
  | nil => cases h
  | append_singleton log e ih =>
    cases he : kind e with
    | false =>
      rw [AnsweredSince, List.rtakeWhile_concat_neg _ _ _ (by simp [he])] at h
      cases h
    | true =>
      rw [AnsweredSince, List.rtakeWhile_concat_pos _ _ _ he] at h
      rw [AnsweredSince, List.rtakeWhile_concat_pos _ _ _ (hkind e he)]
      rcases List.mem_append.mp h with h | h
      · exact List.mem_append_left _ (ih h)
      · exact List.mem_append_right _ h

end Since

/-! ### Loops in a world -/

section Worlds

variable {X W : Type} {policy : List (Event F) → F.Call → Prop} {body : X → Prog F (X ⊕ A)}
variable {p p' : Prog F (X ⊕ A)} {s s' : W × List (Event F)}

/-- Surroundings with a state of their own, and the events so far. -/
def world (env : Env F W) : Env F (W × List (Event F)) :=
  fun s c r s' => env s.1 c r s'.1 ∧ s'.2 = s.2 ++ [⟨c, r⟩]

variable {env : Env F W}

theorem LoopRuns.logged (h : LoopRuns (world env) body p s p' s') :
    LoopRuns (logged fun _ => True) body p s.2 p' s'.2 := by
  induction h with
  | refl => exact .refl _ _
  | step hr _ ih => exact .step ⟨trivial, hr.2⟩ ih
  | again _ ih => exact .again ih

theorem LoopRuns.exists_events (h : LoopRuns (world env) body p s p' s') :
    ∃ events, s'.2 = s.2 ++ events := by
  induction h with
  | refl => exact ⟨[], (List.append_nil _).symm⟩
  | @step c _ r _ _ _ _ hr _ ih =>
    obtain ⟨events, hevents⟩ := ih
    exact ⟨⟨c, r⟩ :: events, by rw [hevents, hr.2, List.append_assoc, List.singleton_append]⟩
  | again _ ih => exact ih

/-- What the calls that are allowed keep holds wherever a run gets that keeps to the policy. -/
theorem LoopRuns.keeps {J : W × List (Event F) → Prop}
    (hstep : ∀ s c r s', policy s.2 c → world env s c r s' → J s → J s')
    (h : LoopRuns (world env) body p s p' s') (hobeys : Obeys policy s'.2) (hs : J s) : J s' := by
  induction h with
  | refl => exact hs
  | @step c _ r s₁ s₂ s₃ _ hr hrest ih =>
    obtain ⟨events, hevents⟩ := hrest.exists_events
    have hcall : policy s₁.2 c := hobeys s₁.2 ⟨c, r⟩ events
      (by rw [hevents, hr.2, List.append_assoc, List.singleton_append])
    exact ih hobeys (hstep _ _ _ _ hcall hr hs)
  | again _ ih => exact ih hobeys hs

end Worlds

/-! ### Programs among others -/

section Pools

variable [DecidableEq ι]

def loggedBy (possible : Event F → Prop) (i : ι) : Env F (List (ι × Event F)) :=
  fun log c r log' => possible ⟨c, r⟩ ∧ log' = log ++ [(i, ⟨c, r⟩)]

def eventsOf (i : ι) (log : List (ι × Event F)) : List (Event F) :=
  log.filterMap fun e => if e.1 = i then some e.2 else none

variable {possible : Event F → Prop} {ps ps' : ι → Prog F A} {log log' : List (ι × Event F)}

theorem runs_of_poolRuns_append
    (h : PoolRuns (loggedBy possible) Eq ps log ps' log') :
    ∃ events, log' = log ++ events ∧
      ∀ i own, Runs (logged possible) (ps i) own (ps' i) (own ++ eventsOf i events) := by
  induction h with
  | refl ps s =>
    refine ⟨[], (List.append_nil s).symm, fun i own => ?_⟩
    rw [eventsOf, List.filterMap_nil, List.append_nil]
    exact .refl _ _
  | @step ps _ j c next r s _ _ hj hr _ ih =>
    obtain ⟨hpossible, rfl⟩ := hr
    obtain ⟨events, rfl, hruns⟩ := ih
    refine ⟨(j, ⟨c, r⟩) :: events, by rw [List.append_assoc]; rfl, fun i own => ?_⟩
    by_cases hi : i = j
    · subst hi
      have hrest := hruns i (own ++ [⟨c, r⟩])
      rw [Function.update_self] at hrest
      have hevents : eventsOf i ((i, ⟨c, r⟩) :: events) = ⟨c, r⟩ :: eventsOf i events := by
        simp [eventsOf]
      rw [hj, hevents, List.append_cons]
      exact .step ⟨hpossible, rfl⟩ hrest
    · have hrest := hruns i own
      rw [Function.update_of_ne hi] at hrest
      have hevents : eventsOf i ((j, ⟨c, r⟩) :: events) = eventsOf i events := by
        simp [eventsOf, Ne.symm hi]
      rwa [hevents]
  | other hsame _ ih =>
    subst hsame
    exact ih

/-- The events of one of the programs are those of a run of its own. -/
theorem PoolRuns.runs (h : PoolRuns (loggedBy possible) Eq ps [] ps' log) (i : ι) :
    Runs (logged possible) (ps i) [] (ps' i) (eventsOf i log) := by
  obtain ⟨events, rfl, hruns⟩ := runs_of_poolRuns_append h
  exact hruns i []

theorem mem_eventsOf {i : ι} {e : Event F} : e ∈ eventsOf i log ↔ (i, e) ∈ log := by
  simp [eventsOf, List.mem_filterMap]

@[simp] theorem eventsOf_concat_self (i : ι) (e : Event F) :
    eventsOf i (log ++ [(i, e)]) = eventsOf i log ++ [e] := by
  simp [eventsOf, List.filterMap_append]

@[simp] theorem eventsOf_concat_of_ne {i j : ι} (h : j ≠ i) (e : Event F) :
    eventsOf j (log ++ [(i, e)]) = eventsOf j log := by
  simp [eventsOf, List.filterMap_append, Ne.symm h]

theorem countP_filter_eventsOf (kind : Event F → Bool) (i : ι) :
    (log.filter fun e => decide (e.1 = i)).countP (fun e => kind e.2) =
      (eventsOf i log).countP kind := by
  rw [eventsOf, List.countP_filterMap, List.countP_filter]
  refine List.countP_congr fun e _ => ?_
  by_cases he : e.1 = i <;> simp [he]

theorem eventsOf_filter_not (i j : ι) :
    eventsOf j (log.filter fun e => !decide (e.1 = i)) = if j = i then [] else eventsOf j log := by
  rw [eventsOf, List.filterMap_filter]
  split
  next hj =>
    refine List.filterMap_eq_nil_iff.mpr fun e _ => ?_
    by_cases he : e.1 = i <;> simp [he, hj]
  next hj =>
    refine List.filterMap_congr fun e _ => ?_
    by_cases he : e.1 = i
    · simp [he, Ne.symm hj]
    · simp [he]

/-- What each program has at least as many of, all of them have at least as many of. -/
theorem countP_le_of_eventsOf {kind kind' : Event F → Bool}
    (h : ∀ i, (eventsOf i log).countP kind ≤ (eventsOf i log).countP kind') :
    log.countP (fun e => kind e.2) ≤ log.countP fun e => kind' e.2 := by
  induction hn : log.length using Nat.strongRecOn generalizing log with
  | _ n ih =>
    cases log with
    | nil => exact Nat.le_refl 0
    | cons first rest =>
      have hlength : (((first :: rest).filter fun e => !decide (e.1 = first.1)).length) < n := by
        have := List.length_filter_le (fun e => !decide (e.1 = first.1)) rest
        simp at hn ⊢
        omega
      have hothers := ih _ hlength (fun j => by
        rw [eventsOf_filter_not]
        split
        · exact Nat.le_refl 0
        · exact h j) rfl
      have hown := h first.1
      rw [← countP_filter_eventsOf, ← countP_filter_eventsOf] at hown
      let own (e : ι × Event F) : Bool := decide (e.1 = first.1)
      rw [List.countP_eq_countP_filter_add _ (fun e => kind e.2) own,
        List.countP_eq_countP_filter_add _ (fun e => kind' e.2) own]
      exact Nat.add_le_add hown hothers

/-- Events of a kind that only one of the programs has. -/
theorem countP_le_eventsOf (kind kind' : Event F → Bool) (i : ι)
    (h : ∀ j e, (j, e) ∈ log → kind e = true → j = i ∧ kind' e = true) :
    log.countP (fun e => kind e.2) ≤ (eventsOf i log).countP kind' := by
  rw [eventsOf, List.countP_filterMap]
  refine List.countP_mono_left fun e hmem hkind => ?_
  obtain ⟨hi, hkind'⟩ := h e.1 e.2 hmem hkind
  simp [hi, hkind']

end Pools

end InterBtcClients.Library.Prog
