import InterBtcClients.Library.Prog

/-! Streams whose elements are found by calls to the surroundings, each made when the loop over the
stream asks for the next element, with the invariant rule for such loops. -/

namespace InterBtcClients.Library

open Prog

inductive AsyncStream (F : Interface) (A : Type)
  | done
  | yield (a : A) (rest : AsyncStream F A)
  | call (c : F.Call) (next : F.Answer c → AsyncStream F A)

namespace AsyncStream

variable {F : Interface} {A B X X' E S : Type}

/-- The stream that runs `p` and goes on as `f` says for its result. -/
def after : Prog F X → (X → AsyncStream F A) → AsyncStream F A
  | .pure x, f => f x
  | .call c next, f => .call c fun r => after (next r) f

/-- The elements of a list, before those of `rest`. -/
def ofList (elements : List A) (rest : AsyncStream F A) : AsyncStream F A :=
  elements.foldr .yield rest

def append : AsyncStream F A → AsyncStream F A → AsyncStream F A
  | .done, stream => stream
  | .yield a rest, stream => .yield a (append rest stream)
  | .call c next, stream => .call c fun r => append (next r) stream

def flatMap (f : A → List B) : AsyncStream F A → AsyncStream F B
  | .done => .done
  | .yield a rest => ofList (f a) (flatMap f rest)
  | .call c next => .call c fun r => flatMap f (next r)

/-- The stream of the results of a step, which passes on a state, up to `fuel` of them. -/
def unfold (step : X → Prog F (Option (A × X))) : Nat → X → AsyncStream F A
  | 0, _ => .done
  | fuel + 1, x => after (step x) fun
    | none => .done
    | some (a, x) => .yield a (unfold step fuel x)

/-- The results that the stream of a step has had when it has been polled `polls` times, and the
state that it goes on from, `none` when it has ended. -/
def poll (step : X → Prog F (Option (A × X))) : Nat → X → Prog F (List A × Option X)
  | 0, x => return ([], some x)
  | polls + 1, x => do
    match ← step x with
    | none => return ([], none)
    | some (a, x) =>
      let (rest, last) ← poll step polls x
      return (a :: rest, last)

/-- The elements of the stream. -/
def collect : AsyncStream F A → Prog F (List A)
  | .done => return []
  | .yield a rest => List.cons a <$> collect rest
  | .call c next => .call c fun r => collect (next r)

/-- A loop over the stream: a round ends with the state of the next one or with the result of the
loop.  The loop over a stream that has ended leaves its last state. -/
def forUntil (body : A → X → ExceptT E (Prog F) (X ⊕ B)) :
    AsyncStream F A → X → ExceptT E (Prog F) (X ⊕ B)
  | .done, x => return .inl x
  | .yield a rest, x => do
    match ← body a x with
    | .inl x => forUntil body rest x
    | .inr b => return .inr b
  | .call c next, x => do
    let r ← ExceptT.lift (request F c)
    forUntil body (next r) x

/-- Every call that the stream makes meets `P`. -/
def Only (P : F.Call → Prop) : AsyncStream F A → Prop
  | .done => True
  | .yield _ rest => Only P rest
  | .call c next => P c ∧ ∀ r, Only P (next r)

theorem only_after {P : F.Call → Prop} {p : Prog F X} {f : X → AsyncStream F A}
    (hp : Prog.Only P p) (hf : ∀ x, Only P (f x)) : Only P (after p f) := by
  induction p with
  | pure x => exact hf x
  | call c next ih => exact ⟨hp.1, fun r => ih r (hp.2 r)⟩

theorem only_ofList {P : F.Call → Prop} {rest : AsyncStream F A} (h : Only P rest)
    (elements : List A) : Only P (ofList elements rest) := by
  induction elements with
  | nil => exact h
  | cons a elements ih => exact ih

theorem only_run_forUntil {P : F.Call → Prop} {body : A → X → ExceptT E (Prog F) (X ⊕ B)}
    (hbody : ∀ a x, Prog.Only P (ExceptT.run (body a x))) {stream : AsyncStream F A}
    (hstream : Only P stream) (x : X) : Prog.Only P (ExceptT.run (forUntil body stream x)) := by
  induction stream generalizing x with
  | done => trivial
  | yield a rest ih =>
    refine Prog.only_run_bind (hbody a x) fun r => ?_
    cases r with
    | inl x => exact ih hstream x
    | inr b => trivial
  | call c next ih =>
    exact Prog.only_run_bind (Prog.only_run_lift ⟨hstream.1, fun _ => trivial⟩)
      fun r => ih r (hstream.2 r) x

def embed {G : Interface} (on : F.Call → G.Call)
    (answer : (c : F.Call) → G.Answer (on c) → F.Answer c) : AsyncStream F A → AsyncStream G A
  | .done => .done
  | .yield a rest => .yield a (embed on answer rest)
  | .call c next => .call (on c) fun r => embed on answer (next (answer c r))

theorem collect_after (p : Prog F X) (f : X → AsyncStream F A) :
    collect (after p f) = p >>= fun x => collect (f x) := by
  induction p with
  | pure x => rfl
  | call c next ih => exact congrArg (Prog.call c) (funext ih)

theorem collect_ofList (elements : List A) (rest : AsyncStream F A) :
    collect (ofList elements rest) = (elements ++ ·) <$> collect rest := by
  induction elements with
  | nil => exact (id_map (collect rest)).symm
  | cons a elements ih =>
    have hcons : collect (ofList (a :: elements) rest) =
      List.cons a <$> collect (ofList elements rest) := rfl
    rw [hcons, ih, ← comp_map]
    rfl

theorem collect_append (stream stream' : AsyncStream F A) :
    collect (append stream stream') =
      collect stream >>= fun xs => (xs ++ ·) <$> collect stream' := by
  induction stream with
  | done => exact (id_map (collect stream')).symm
  | yield a rest ih =>
    have hcons : collect (append (.yield a rest) stream') =
      List.cons a <$> collect (append rest stream') := rfl
    rw [hcons, ih, map_bind]
    refine Eq.trans ?_ (bind_map_left _ _ _).symm
    refine congrArg _ (funext fun xs => ?_)
    rw [← comp_map]
    rfl
  | call c next ih => exact congrArg (Prog.call c) (funext ih)

theorem collect_flatMap (f : A → List B) (stream : AsyncStream F A) :
    collect (flatMap f stream) = List.flatMap f <$> collect stream := by
  induction stream with
  | done => rfl
  | yield a rest ih =>
    have hcons : collect (flatMap f (.yield a rest)) =
      collect (ofList (f a) (flatMap f rest)) := rfl
    have hcons' : collect (.yield a rest) = List.cons a <$> collect rest := rfl
    rw [hcons, collect_ofList, ih, hcons', ← comp_map, ← comp_map]
    refine congrArg (· <$> collect rest) (funext fun xs => ?_)
    exact List.flatMap_cons.symm
  | call c next ih => exact congrArg (Prog.call c) (funext ih)

/-- The loop over the elements of a list. -/
def listUntil (body : A → X → Except E (X ⊕ B)) : List A → X → Except E (X ⊕ B)
  | [], x => .ok (.inl x)
  | a :: rest, x =>
    match body a x with
    | .ok (.inl x) => listUntil body rest x
    | .ok (.inr b) => .ok (.inr b)
    | .error e => .error e

/-- With fixed answers, a loop over a stream is one over its elements. -/
theorem eval_run_forUntil {answer : (c : F.Call) → F.Answer c}
    {body : A → X → ExceptT E (Prog F) (X ⊕ B)} (stream : AsyncStream F A) (x : X) :
    (ExceptT.run (forUntil body stream x)).eval answer =
      listUntil (fun a x => (ExceptT.run (body a x)).eval answer)
        (stream.collect.eval answer) x := by
  induction stream generalizing x with
  | done => rfl
  | yield a rest ih =>
    have hcollect : (collect (.yield a rest)).eval answer = a :: rest.collect.eval answer :=
      eval_map rest.collect (List.cons a)
    rw [hcollect, listUntil, forUntil, eval_run_bind]
    rcases (ExceptT.run (body a x)).eval answer with e | x | b
    · rfl
    · exact ih x
    · rfl
  | call c next ih => exact ih (answer c) x

/-- The elements of the stream when `handle` answers its calls, and the state that this leads to. -/
def elements (handle : S → (c : F.Call) → F.Answer c × S) : AsyncStream F A → S → List A × S
  | .done, s => ([], s)
  | .yield a rest, s => (a :: (elements handle rest s).1, (elements handle rest s).2)
  | .call c next, s => elements handle (next (handle s c).1) (handle s c).2

/-! ### Polls -/

section Poll

variable {step : X → Prog F (Option (A × X))} {handle : S → (c : F.Call) → F.Answer c × S}
variable {x y : X} {s s' : S} {a : A}

theorem collect_unfold (polls : Nat) (x : X) :
    (unfold step polls x).collect = Prod.fst <$> poll step polls x := by
  induction polls generalizing x with
  | zero => rfl
  | succ polls ih =>
    rw [unfold, collect_after, poll, map_bind]
    refine congrArg _ (funext fun r => ?_)
    match r with
    | none => rfl
    | some (a, x) =>
      have hcons : collect (.yield a (unfold step polls x)) =
        List.cons a <$> collect (unfold step polls x) := rfl
      dsimp only
      rw [hcons, ih, map_bind, ← comp_map, ← bind_pure_comp]
      rfl

variable (step handle) in
/-- What `poll` returns when `handle` answers the calls. -/
def polled (polls : Nat) (x : X) (s : S) : List A × Option X :=
  ((poll step polls x).exec handle s).1

theorem polled_none (h : (step x).exec handle s = (none, s')) (polls : Nat) :
    polled step handle (polls + 1) x s = ([], none) := by
  rw [polled, poll, exec_bind, h]
  rfl

theorem polled_some (h : (step x).exec handle s = (some (a, y), s')) (polls : Nat) :
    polled step handle (polls + 1) x s =
      (a :: (polled step handle polls y s').1, (polled step handle polls y s').2) := by
  rw [polled, poll, exec_bind, h]
  exact congrArg Prod.fst (exec_bind handle (poll step polls y) _ s')

/-- A stream that is polled more often goes on from what it has had. -/
theorem polled_prefix {polls polls' : Nat} (h : polls ≤ polls') (x : X) (s : S) :
    (polled step handle polls x s).1 <+: (polled step handle polls' x s).1 := by
  induction polls generalizing polls' x s with
  | zero => exact List.nil_prefix
  | succ polls ih =>
    obtain ⟨polls', rfl⟩ := Nat.exists_eq_add_one_of_ne_zero (Nat.ne_zero_of_lt h)
    match hstep : (step x).exec handle s with
    | (none, s') =>
      rw [polled_none hstep]
      exact List.nil_prefix
    | (some (a, y), s') =>
      rw [polled_some hstep, polled_some hstep]
      exact (List.prefix_cons_inj a).mpr (ih (Nat.le_of_succ_le_succ h) y s')

/-- A stream that has ended stays as it is. -/
theorem polled_eq_of_ended {polls polls' : Nat} (h : polls ≤ polls')
    (hended : (polled step handle polls x s).2 = none) :
    polled step handle polls' x s = polled step handle polls x s := by
  induction polls generalizing polls' x s with
  | zero => cases hended
  | succ polls ih =>
    obtain ⟨polls', rfl⟩ := Nat.exists_eq_add_one_of_ne_zero (Nat.ne_zero_of_lt h)
    match hstep : (step x).exec handle s with
    | (none, s') => rw [polled_none hstep, polled_none hstep]
    | (some (a, y), s') =>
      rw [polled_some hstep] at hended
      rw [polled_some hstep, polled_some hstep, ih (Nat.le_of_succ_le_succ h) hended]

variable (step handle) in
/-- `Q` holds of what the stream has had and of where it goes on from when it has been polled often
enough. -/
def Settles (x : X) (s : S) (Q : List A → Option X → Prop) : Prop :=
  ∃ enough, ∀ polls, enough ≤ polls →
    Q (polled step handle polls x s).1 (polled step handle polls x s).2

variable {Q R : List A → Option X → Prop}

theorem Settles.mono (h : Settles step handle x s Q) (himp : ∀ as last, Q as last → R as last) :
    Settles step handle x s R := by
  obtain ⟨enough, h⟩ := h
  exact ⟨enough, fun polls hpolls => himp _ _ (h polls hpolls)⟩

theorem settles_none (h : (step x).exec handle s = (none, s')) (hQ : Q [] none) :
    Settles step handle x s Q := by
  refine ⟨1, fun polls hpolls => ?_⟩
  obtain ⟨polls, rfl⟩ := Nat.exists_eq_add_of_le' hpolls
  rwa [polled_none h]

theorem settles_some (h : (step x).exec handle s = (some (a, y), s'))
    (hrest : Settles step handle y s' fun as last => Q (a :: as) last) :
    Settles step handle x s Q := by
  obtain ⟨enough, hrest⟩ := hrest
  refine ⟨enough + 1, fun polls hpolls => ?_⟩
  obtain ⟨polls, rfl⟩ := Nat.exists_eq_add_of_le' (Nat.le_of_add_left_le hpolls)
  rw [polled_some h]
  exact hrest polls (by omega)

/-- A stream whose step comes back to where it was never ends. -/
theorem polled_of_forever (h : (step x).exec handle s = (some (a, x), s)) (polls : Nat) :
    polled step handle polls x s = (List.replicate polls a, some x) := by
  induction polls with
  | zero => rfl
  | succ polls ih =>
    rw [polled_some h, ih]
    rfl

end Poll

variable {env : Env F S} {I : S → Prop}

theorem keeps_run_forUntil_after {p : Prog F X'} {f : X' → AsyncStream F A}
    {body : A → X → ExceptT E (Prog F) (X ⊕ B)} {Q : Except E (X ⊕ B) → S → Prop} {x : X} {s : S}
    (h : Keeps env I p (fun a => Keeps env I (ExceptT.run (forUntil body (f a) x)) Q) s) :
    Keeps env I (ExceptT.run (forUntil body (after p f) x)) Q s := by
  induction p generalizing s with
  | pure a => exact h.2
  | call c next ih => exact ⟨h.1, fun r s' hr => ih r (h.2 r s' hr)⟩

theorem keeps_run_forUntil_yield {a : A} {rest : AsyncStream F A}
    {body : A → X → ExceptT E (Prog F) (X ⊕ B)} {Q : Except E (X ⊕ B) → S → Prop} {x : X} {s : S}
    (h : Keeps env I (ExceptT.run (body a x)) (Outcome
      (Sum.elim (fun x => Keeps env I (ExceptT.run (forUntil body rest x)) Q)
        fun b => Q (.ok (.inr b))) fun e => Q (.error e)) s) :
    Keeps env I (ExceptT.run (forUntil body (.yield a rest) x)) Q s := by
  refine keeps_run_bind.mpr (h.mono fun r s hs hr => ?_)
  match r, hr with
  | .ok (.inl x), hr => exact hr
  | .ok (.inr b), hr => exact ⟨hs, hr⟩
  | .error e, hr => exact hr

/-- The invariant rule: `J` is what holds of the state of the loop at the start of a round, and
`P`-calls do not disturb it. -/
theorem keeps_run_forUntil {P : F.Call → Prop} {body : A → X → ExceptT E (Prog F) (X ⊕ B)}
    (J : X → S → Prop) {Q : Except E (X ⊕ B) → S → Prop}
    (hcall : ∀ x s c r s', J x s → P c → env s c r s' → J x s')
    (hinv : ∀ x s, J x s → I s) (hdone : ∀ x s, J x s → Q (.ok (.inl x)) s)
    (hbody : ∀ a x s, J x s → Keeps env I (ExceptT.run (body a x))
      (Outcome (Sum.elim J fun b => Q (.ok (.inr b))) fun e => Q (.error e)) s)
    {stream : AsyncStream F A} (hstream : stream.Only P) {x : X} {s : S} (h : J x s) :
    Keeps env I (ExceptT.run (forUntil body stream x)) Q s := by
  induction stream generalizing x s with
  | done => exact ⟨hinv x s h, hdone x s h⟩
  | yield a rest ih =>
    refine keeps_run_forUntil_yield ((hbody a x s h).mono fun r s _ hr => ?_)
    match r, hr with
    | .ok (.inl x), hr => exact ih hstream hr
    | .ok (.inr b), hr => exact hr
    | .error e, hr => exact hr
  | call c next ih =>
    refine keeps_run_bind.mpr
      (keeps_run_lift.mpr (keeps_request.mpr ⟨hinv x s h, fun r s' hr => ?_⟩))
    have hnext : J x s' := hcall _ _ _ _ _ h hstream.1 hr
    exact ⟨hinv x s' hnext, ih r (hstream.2 r) hnext⟩

variable (env I) in
/-- While a loop over the stream keeps `I`, every element that it gets meets `P`. -/
def Gives (P : A → Prop) : AsyncStream F A → S → Prop
  | .done, s => I s
  | .yield a rest, s => I s ∧ P a ∧ ∀ s', I s' → Gives P rest s'
  | .call c next, s => I s ∧ ∀ r s', env s c r s' → Gives P (next r) s'

theorem Gives.inv {P : A → Prop} {stream : AsyncStream F A} {s : S}
    (h : stream.Gives env I P s) : I s := by
  cases stream with
  | done => exact h
  | yield a rest => exact h.1
  | call c next => exact h.1

theorem gives_after {P : A → Prop} {p : Prog F X} {f : X → AsyncStream F A} {s : S}
    (h : Keeps env I p (fun x => (f x).Gives env I P) s) : (after p f).Gives env I P s := by
  induction p generalizing s with
  | pure x => exact h.2
  | call c next ih => exact ⟨h.1, fun r s' hr => ih r (h.2 r s' hr)⟩

theorem gives_ofList {P : A → Prop} {elements : List A} {rest : AsyncStream F A} {s : S}
    (helements : ∀ a ∈ elements, P a) (hrest : ∀ s, I s → rest.Gives env I P s) (hs : I s) :
    (ofList elements rest).Gives env I P s := by
  induction elements generalizing s with
  | nil => exact hrest s hs
  | cons a elements ih =>
    obtain ⟨ha, helements⟩ := List.forall_mem_cons.mp helements
    exact ⟨hs, ha, fun s' hs' => ih helements hs'⟩

/-- The invariant rule for elements that meet `P`: `J` is what holds of the state of the loop. -/
theorem keeps_run_forUntil_of_gives {P : A → Prop}
    {body : A → X → ExceptT E (Prog F) (X ⊕ B)} {J : X → Prop} {Q : Except E (X ⊕ B) → S → Prop}
    (hdone : ∀ x s, I s → J x → Q (.ok (.inl x)) s)
    (hbody : ∀ a x s, I s → P a → J x → Keeps env I (ExceptT.run (body a x))
      (Outcome (Sum.elim (fun x _ => J x) fun b => Q (.ok (.inr b))) fun e => Q (.error e)) s)
    {stream : AsyncStream F A} {x : X} {s : S} (hstream : stream.Gives env I P s) (h : J x) :
    Keeps env I (ExceptT.run (forUntil body stream x)) Q s := by
  induction stream generalizing x s with
  | done => exact ⟨hstream, hdone x s hstream h⟩
  | yield a rest ih =>
    obtain ⟨hs, ha, hrest⟩ := hstream
    refine keeps_run_forUntil_yield ((hbody a x s hs ha h).mono fun r s hs hr => ?_)
    match r, hr with
    | .ok (.inl x), hr => exact ih (hrest s hs) hr
    | .ok (.inr b), hr => exact hr
    | .error e, hr => exact hr
  | call c next ih =>
    obtain ⟨hs, hnext⟩ := hstream
    refine keeps_run_bind.mpr (keeps_run_lift.mpr (keeps_request.mpr ⟨hs, fun r s' hr => ?_⟩))
    exact ⟨(hnext r s' hr).inv, ih r (hnext r s' hr) h⟩

/-- The rule for a stream that is a part of larger surroundings, in which `handle` answers its
calls: `J` is what holds at the start of a round of the loop, with the elements that are left. -/
theorem keeps_run_forUntil_embed {G : Interface} {W : Type} {env : Env G W} {I : W → Prop}
    {on : F.Call → G.Call} {answer : (c : F.Call) → G.Answer (on c) → F.Answer c}
    {handle : S → (c : F.Call) → F.Answer c × S} {part : W → S}
    {body : A → X → ExceptT E (Prog G) (X ⊕ B)} (J : X → List A → W → Prop)
    {Q : Except E (X ⊕ B) → W → Prop}
    (hcall : ∀ x as w c r w', J x as w → env w (on c) r w' →
      handle (part w) c = (answer c r, part w') ∧ J x as w')
    (hinv : ∀ x as w, J x as w → I w) (hdone : ∀ x w, J x [] w → Q (.ok (.inl x)) w)
    (hbody : ∀ a x as w, J x (a :: as) w → Keeps env I (ExceptT.run (body a x))
      (Outcome (Sum.elim (fun x w' => J x as w' ∧ part w' = part w) fun b => Q (.ok (.inr b)))
        fun e => Q (.error e)) w)
    {stream : AsyncStream F A} {x : X} {w : W} (h : J x (stream.elements handle (part w)).1 w) :
    Keeps env I (ExceptT.run (forUntil body (stream.embed on answer) x)) Q w := by
  induction stream generalizing x w with
  | done => exact ⟨hinv x _ w h, hdone x w h⟩
  | yield a rest ih =>
    refine keeps_run_forUntil_yield ((hbody a x _ w h).mono fun r w' _ hr => ?_)
    match r, hr with
    | .ok (.inl x), hr => exact ih (by rw [hr.2]; exact hr.1)
    | .ok (.inr b), hr => exact hr
    | .error e, hr => exact hr
  | call c next ih =>
    refine keeps_run_bind.mpr (keeps_run_lift.mpr (keeps_request.mpr
      ⟨hinv x _ w h, fun r w' hr => ?_⟩))
    obtain ⟨hanswer, hnext⟩ := hcall x _ w c r w' h hr
    rw [elements, hanswer] at hnext
    exact ⟨hinv x _ w' hnext, ih (answer c r) hnext⟩

/-- The rule for a stream whose calls are steps of `env'` on a part of larger surroundings: `J` is
what holds at the start of a round, with the elements of the rounds before it.  When the stream
ends, these are what `p`, the program that collects the elements, returns after the same calls. -/
theorem keeps_run_forUntil_collected {G : Interface} {W : Type} {env : Env G W} {I : W → Prop}
    {on : F.Call → G.Call} {answer : (c : F.Call) → G.Answer (on c) → F.Answer c}
    {env' : Env F S} {part : W → S} {p : Prog F (List A)} {start : S}
    {body : A → X → ExceptT E (Prog G) (X ⊕ B)} (J : X → List A → W → Prop)
    {Q : Except E (X ⊕ B) → W → Prop}
    (hcall : ∀ x as w c r w', J x as w → env w (on c) r w' →
      env' (part w) c (answer c r) (part w') ∧ J x as w')
    (hinv : ∀ x as w, J x as w → I w)
    (hdone : ∀ x as w, J x as w → Runs env' p start (.pure as) (part w) → Q (.ok (.inl x)) w)
    (hbody : ∀ a x as w, J x as w → Keeps env I (ExceptT.run (body a x))
      (Outcome (Sum.elim (fun x w' => J x (as ++ [a]) w' ∧ part w' = part w)
        fun b => Q (.ok (.inr b))) fun e => Q (.error e)) w)
    {stream : AsyncStream F A} {x : X} {as : List A} {w : W}
    (hruns : Runs env' p start ((as ++ ·) <$> stream.collect) (part w)) (h : J x as w) :
    Keeps env I (ExceptT.run (forUntil body (stream.embed on answer) x)) Q w := by
  induction stream generalizing x as w with
  | done =>
    have hcollected : (as ++ ·) <$> collect (.done : AsyncStream F A) = .pure as :=
      congrArg Prog.pure (List.append_nil as)
    rw [hcollected] at hruns
    exact ⟨hinv x as w h, hdone x as w h hruns⟩
  | yield a rest ih =>
    have hcollected : (as ++ ·) <$> collect (.yield a rest) =
        ((as ++ [a]) ++ ·) <$> rest.collect := by
      have hcons : collect (.yield a rest) = List.cons a <$> rest.collect := rfl
      rw [hcons, ← comp_map]
      refine congrArg (· <$> rest.collect) (funext fun rest => ?_)
      exact List.append_cons as a rest
    rw [hcollected] at hruns
    refine keeps_run_forUntil_yield ((hbody a x as w h).mono fun r w' _ hr => ?_)
    match r, hr with
    | .ok (.inl x), hr => exact ih (by rw [hr.2]; exact hruns) hr.1
    | .ok (.inr b), hr => exact hr
    | .error e, hr => exact hr
  | call c next ih =>
    refine keeps_run_bind.mpr (keeps_run_lift.mpr (keeps_request.mpr
      ⟨hinv x as w h, fun r w' hr => ?_⟩))
    obtain ⟨hanswer, hnext⟩ := hcall x as w c r w' h hr
    exact ⟨hinv x as w' hnext, ih (answer c r) (hruns.answered hanswer) hnext⟩

end AsyncStream

end InterBtcClients.Library
