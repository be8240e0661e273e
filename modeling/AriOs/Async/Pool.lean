import AriOs.Async.Prog
import AriOs.Async.Slots
import Mathlib.Algebra.GroupWithZero.Nat

/-!
# Interleaved runs

Any number of bodies run against one shared state. A run is a list of events: a request
arrives, one of the running bodies makes its next call, or a running body dies with its
process. Events may come in any order, so a statement about every run is a statement
about every interleaving, every answer of the environment and every crash. Calls are the
atoms: two bodies may alternate between any two calls, also where the program's own
runtime would not switch, so nothing is assumed about where it does.

Every running body keeps the list of its own calls with their answers. It is not part
of the program's state; it is what statements about "having called" refer to.

## Main definitions

* `Pool.run` — the state after a list of events
* `Pool.Meets` — every event of a run satisfies a condition in the state it finds
* `Pool.Happened` — some event of a run did

## Main results

* `Pool.replayed_run` — what is left of a body is what its own calls left of it
* `Pool.run_induction` — a property kept by every event holds after every run
* `Modular.run` — the thread-modular rule: bodies checked one by one under a discipline
  keep a shared invariant in every interleaving, if the invariant justifies the answers
  each of them relies on and no body disturbs what another one knows
-/

namespace AriOs.Async

/-- What each call does: from the shared state and the environment's contribution to the
answer handed to the program and the next shared state. -/
structure Machine (I : Interface) (σ : Type) where
  handle : (o : I.Op) → σ → I.Ans o → I.Res o × σ

/-- A started body: the request it serves, its calls so far, and what is left of it
(`none` once its process has died). -/
structure Call (I : Interface) (ρ α : Type) where
  request : ρ
  history : List (Entry I)
  rest : Option (Prog I α)

/-- The shared state and every body started so far, oldest first. -/
structure Pool (I : Interface) (σ ρ α : Type) where
  shared : σ
  calls : List (Call I ρ α)

/-- What can happen next. A step carries the environment's contribution to whichever
call the stepped body is about to make. -/
inductive Event (I : Interface) (ρ : Type) where
  | spawn (r : ρ)
  | step (t : Nat) (ans : ∀ o, I.Ans o)
  | kill (t : Nat)

variable {I : Interface} {σ ρ α V : Type}

namespace Call

/-- The body after the call `o` returned `r`. -/
def advance (c : Call I ρ α) (o : I.Op) (k : I.Res o → Prog I α) (r : I.Res o) : Call I ρ α :=
  { c with history := c.history ++ [⟨o, r⟩], rest := some (k r) }

/-- The body ran to its end. -/
def Finished (c : Call I ρ α) : Prop := ∃ a, c.rest = some (.pure a)

instance (c : Call I ρ α) : Decidable c.Finished :=
  match h : c.rest with
  | some (.pure a) => isTrue ⟨a, h⟩
  | some (.call _ _) => isFalse (by rintro ⟨a, ha⟩; simp [h] at ha)
  | none => isFalse (by rintro ⟨a, ha⟩; simp [h] at ha)

/-- What the body ended in. -/
def result? (c : Call I ρ α) : Option α :=
  match c.rest with
  | some (.pure a) => some a
  | _ => none

theorem result?_eq_some {c : Call I ρ α} {a : α} :
    c.result? = some a ↔ c.rest = some (.pure a) := by
  unfold result?
  split
  · rename_i b hb
    simp [hb]
  · rename_i hne
    simpa using hne a

/-- The body has a call left to make. -/
def Running (c : Call I ρ α) : Prop := ∃ o k, c.rest = some (.call o k)

instance (c : Call I ρ α) : Decidable c.Running :=
  match h : c.rest with
  | some (.call o k) => isTrue ⟨o, k, h⟩
  | some (.pure _) => isFalse (by rintro ⟨o, k, hc⟩; simp [h] at hc)
  | none => isFalse (by rintro ⟨o, k, hc⟩; simp [h] at hc)

/-- What the body knows: its view after the calls it has made. -/
def view (D : Discipline I V) (start : ρ → V) (c : Call I ρ α) : V :=
  c.history.foldl D.upd (start c.request)

@[simp] theorem view_advance (D : Discipline I V) (start : ρ → V) (c : Call I ρ α) (o : I.Op)
    (k : I.Res o → Prog I α) (r : I.Res o) :
    (c.advance o k r).view D start = D.upd (c.view D start) ⟨o, r⟩ := by
  simp [view, advance]

/-- A body that forgets nothing knows its request and its own calls. -/
theorem view_of_push {D : Discipline I (Trace I ρ)} (hD : D.upd = Trace.push) (c : Call I ρ α) :
    c.view D Trace.start = ⟨c.request, c.history⟩ := by
  rw [view, hD, Trace.foldl_push]
  rfl

@[simp] theorem view_ofTrace (pre : Trace I ρ → I.Op → Prop) (c : Call I ρ α) :
    c.view (Discipline.ofTrace pre) Trace.start = ⟨c.request, c.history⟩ := view_of_push rfl c

/-- What is left of the body is safe from what it knows. -/
def SafeFrom (D : Discipline I V) (start : ρ → V) (post : V → α → Prop) (c : Call I ρ α) : Prop :=
  ∀ p, c.rest = some p → p.Safe D post (c.view D start)

/-- A body that ran to its end knows what its postcondition says. -/
theorem SafeFrom.finished {D : Discipline I V} {start : ρ → V} {post : V → α → Prop}
    {c : Call I ρ α} (h : c.SafeFrom D start post) (hc : c.Finished) :
    ∃ a, post (c.view D start) a :=
  ⟨hc.choose, h _ hc.choose_spec⟩

end Call

namespace Pool

variable (M : Machine I σ) (body : ρ → Prog I α)

/-- A request arrives. -/
def spawn (p : Pool I σ ρ α) (r : ρ) : Pool I σ ρ α :=
  { p with calls := p.calls ++ [⟨r, [], some (body r)⟩] }

/-- Body `t` makes its next call, if it has one. -/
def step (p : Pool I σ ρ α) (t : Nat) (ans : ∀ o, I.Ans o) : Pool I σ ρ α :=
  match p.calls[t]? with
  | some c =>
    match c.rest with
    | some (.call o k) =>
      let out := M.handle o p.shared (ans o)
      { shared := out.2, calls := p.calls.set t (c.advance o k out.1) }
    | _ => p
  | none => p

/-- The process of body `t` dies. -/
def kill (p : Pool I σ ρ α) (t : Nat) : Pool I σ ρ α :=
  { p with calls := p.calls.modify t fun c => { c with rest := none } }

/-- The call body `t` is about to make. -/
def next? (p : Pool I σ ρ α) (t : Nat) : Option I.Op :=
  match p.calls[t]? with
  | some c =>
    match c.rest with
    | some (.call o _) => some o
    | _ => none
  | none => none

/-- One event. -/
def apply (p : Pool I σ ρ α) : Event I ρ → Pool I σ ρ α
  | .spawn r => p.spawn body r
  | .step t ans => p.step M t ans
  | .kill t => p.kill t

/-- A run. -/
def run (p : Pool I σ ρ α) (es : List (Event I ρ)) : Pool I σ ρ α :=
  es.foldl (apply M body) p

/-- The pool before any request. -/
def start (s : σ) : Pool I σ ρ α := ⟨s, []⟩

/-- Every event of the run meets `cond` in the pool it finds. -/
def Meets (cond : Pool I σ ρ α → Event I ρ → Prop) :
    Pool I σ ρ α → List (Event I ρ) → Prop
  | _, [] => True
  | p, e :: es => cond p e ∧ Meets cond (p.apply M body e) es

variable {M body}

instance decidableMeets {cond : Pool I σ ρ α → Event I ρ → Prop} [∀ p e, Decidable (cond p e)] :
    ∀ (p : Pool I σ ρ α) (es : List (Event I ρ)), Decidable (Meets M body cond p es)
  | _, [] => isTrue trivial
  | p, e :: es =>
    haveI : Decidable (Meets M body cond (p.apply M body e) es) := decidableMeets _ es
    inferInstanceAs (Decidable (cond p e ∧ Meets M body cond (p.apply M body e) es))

@[simp] theorem run_nil (p : Pool I σ ρ α) : p.run M body [] = p := rfl

@[simp] theorem run_cons (p : Pool I σ ρ α) (e : Event I ρ) (es : List (Event I ρ)) :
    p.run M body (e :: es) = (p.apply M body e).run M body es := rfl

theorem run_append (p : Pool I σ ρ α) (es es' : List (Event I ρ)) :
    p.run M body (es ++ es') = (p.run M body es).run M body es' := by
  simp [run]

theorem meets_true (p : Pool I σ ρ α) (es : List (Event I ρ)) :
    Meets M body (fun _ _ => True) p es := by
  induction es generalizing p with
  | nil => trivial
  | cons e es ih => exact ⟨trivial, ih _⟩

theorem Meets.imp {cond cond' : Pool I σ ρ α → Event I ρ → Prop} {p : Pool I σ ρ α}
    {es : List (Event I ρ)} (h : Meets M body cond p es) (himp : ∀ p e, cond p e → cond' p e) :
    Meets M body cond' p es := by
  induction es generalizing p with
  | nil => trivial
  | cons e es ih => exact ⟨himp p e h.1, ih h.2⟩

theorem Meets.and {cond cond' : Pool I σ ρ α → Event I ρ → Prop} {p : Pool I σ ρ α}
    {es : List (Event I ρ)} (h : Meets M body cond p es) (h' : Meets M body cond' p es) :
    Meets M body (fun p e => cond p e ∧ cond' p e) p es := by
  induction es generalizing p with
  | nil => trivial
  | cons e es ih => exact ⟨⟨h.1, h'.1⟩, ih h.2 h'.2⟩

/-- A condition on the events alone. -/
theorem meets_of_forall {cond : Event I ρ → Prop} {p : Pool I σ ρ α} {es : List (Event I ρ)}
    (h : ∀ e ∈ es, cond e) : Meets M body (fun _ e => cond e) p es := by
  induction es generalizing p with
  | nil => trivial
  | cons e es ih =>
    exact ⟨h e List.mem_cons_self, ih fun e' he' => h e' (List.mem_cons_of_mem e he')⟩

/-- Conditions are met by the two halves of a run. -/
theorem meets_append {cond : Pool I σ ρ α → Event I ρ → Prop} {p : Pool I σ ρ α}
    {es es' : List (Event I ρ)} :
    Meets M body cond p (es ++ es') ↔
      Meets M body cond p es ∧ Meets M body cond (p.run M body es) es' := by
  induction es generalizing p with
  | nil => simp [Meets]
  | cons e es ih => simp only [List.cons_append, Meets, ih, run_cons, and_assoc]

/-- A run meets a condition if every event does, in the pool left by those before it. -/
theorem meets_of_forall_split {cond : Pool I σ ρ α → Event I ρ → Prop} {p : Pool I σ ρ α}
    {es : List (Event I ρ)}
    (h : ∀ before e after, es = before ++ e :: after → cond (p.run M body before) e) :
    Meets M body cond p es := by
  induction es generalizing p with
  | nil => trivial
  | cons e es ih =>
    refine ⟨h [] e es rfl, ih fun before e' after heq => ?_⟩
    exact h (e :: before) e' after (by rw [heq, List.cons_append])

theorem next?_eq {p : Pool I σ ρ α} {t : Nat} {c : Call I ρ α} {o : I.Op}
    {k : I.Res o → Prog I α} (hc : p.calls[t]? = some c) (hrest : c.rest = some (.call o k)) :
    p.next? t = some o := by
  simp only [next?, hc, hrest]

theorem exists_of_next? {p : Pool I σ ρ α} {t : Nat} {o : I.Op} (h : p.next? t = some o) :
    ∃ c k, p.calls[t]? = some c ∧ c.rest = some (.call o k) := by
  unfold next? at h
  split at h
  · rename_i c hc
    split at h
    · rename_i o' k hrest
      obtain rfl := Option.some_inj.mp h
      exact ⟨c, k, hc, hrest⟩
    · simp at h
  · simp at h

theorem step_shared {p : Pool I σ ρ α} {t : Nat} {o : I.Op} (h : p.next? t = some o)
    (ans : ∀ o, I.Ans o) : (p.step M t ans).shared = (M.handle o p.shared (ans o)).2 := by
  obtain ⟨c, k, hc, hrest⟩ := exists_of_next? h
  simp only [step, hc, hrest]

/-- A body that has no call left to make does nothing. -/
theorem step_eq_self {p : Pool I σ ρ α} {t : Nat} (h : p.next? t = none) (ans : ∀ o, I.Ans o) :
    p.step M t ans = p := by
  unfold next? at h
  unfold step
  split
  · rename_i c hc
    simp only [hc] at h
    split
    · rename_i o k hrest
      simp [hrest] at h
    · rfl
  · rfl

/-- What a body that makes its last call ends in. -/
theorem result?_step {p : Pool I σ ρ α} {t : Nat} {c : Call I ρ α} {o : I.Op}
    {k : I.Res o → Prog I α} (hc : p.calls[t]? = some c) (hrest : c.rest = some (.call o k))
    (ans : ∀ o, I.Ans o) :
    ((p.step M t ans).calls[t]?.bind Call.result?) =
      Call.result? (c.advance o k (M.handle o p.shared (ans o)).1) := by
  have hlt : t < p.calls.length := (List.getElem?_eq_some_iff.mp hc).1
  simp only [step, hc, hrest]
  rw [List.getElem?_set_self hlt]
  rfl

/-- A step either does nothing or lets one body make its next call. -/
theorem step_cases (p : Pool I σ ρ α) (t : Nat) (ans : ∀ o, I.Ans o) :
    p.step M t ans = p ∨
      ∃ c o k, p.calls[t]? = some c ∧ c.rest = some (.call o k) ∧
        p.step M t ans =
          { shared := (M.handle o p.shared (ans o)).2,
            calls := p.calls.set t (c.advance o k (M.handle o p.shared (ans o)).1) } := by
  cases hc : p.calls[t]? with
  | none => left; simp only [step, hc]
  | some c =>
    match hr : c.rest with
    | none => left; simp only [step, hc, hr]
    | some (.pure a) => left; simp only [step, hc, hr]
    | some (.call o k) =>
      right
      exact ⟨c, o, k, rfl, hr, by simp only [step, hc, hr]⟩

/-- A property kept by every event of a run that meets `cond` holds at its end. -/
theorem run_induction {P : Pool I σ ρ α → Prop} {cond : Pool I σ ρ α → Event I ρ → Prop}
    (hstep : ∀ p e, P p → cond p e → P (p.apply M body e))
    {p : Pool I σ ρ α} {es : List (Event I ρ)} (hmeets : Meets M body cond p es) (hp : P p) :
    P (p.run M body es) := by
  induction es generalizing p with
  | nil => exact hp
  | cons e es ih => exact ih hmeets.2 (hstep p e hp hmeets.1)

/-- A dead body keeps its history, hence what it knows. -/
theorem getElem?_kill {p : Pool I σ ρ α} {t u : Nat} {c : Call I ρ α}
    (h : (p.kill u).calls[t]? = some c) :
    ∃ d : Call I ρ α, p.calls[t]? = some d ∧ c.request = d.request ∧ c.history = d.history ∧
      (c.rest = none ∨ c = d) := by
  simp only [kill, List.getElem?_modify] at h
  obtain ⟨d, hd, rfl⟩ := Option.map_eq_some_iff.mp h
  by_cases hut : u = t
  · exact ⟨d, hd, by simp [hut], by simp [hut], by simp [hut]⟩
  · exact ⟨d, hd, by simp [hut], by simp [hut], by simp [hut]⟩

/-- A started body stays, with the calls it has made. -/
theorem exists_apply {p : Pool I σ ρ α} {t : Nat} {c : Call I ρ α} (hc : p.calls[t]? = some c)
    (e : Event I ρ) :
    ∃ d : Call I ρ α, (p.apply M body e).calls[t]? = some d ∧ d.request = c.request ∧
      c.history <+: d.history := by
  cases e with
  | spawn r =>
    refine ⟨c, ?_, rfl, List.prefix_refl _⟩
    rw [apply, spawn, List.getElem?_append_left (List.getElem?_eq_some_iff.mp hc).1, hc]
  | kill u =>
    -- only the body that moves gets a longer history
    by_cases hut : u = t
    · exact ⟨{ c with rest := none }, by simp [apply, kill, hut, hc], rfl,
        List.prefix_refl _⟩
    · exact ⟨c, by simp [apply, kill, hut, hc], rfl, List.prefix_refl _⟩
  | step u ans =>
    rw [apply]
    rcases step_cases (M := M) p u ans with heq | ⟨d, o, k, hd, -, heq⟩
    · exact ⟨c, by rw [heq, hc], rfl, List.prefix_refl _⟩
    · rw [heq]
      by_cases hut : u = t
      · subst hut
        obtain rfl := Option.some_inj.mp (hd.symm.trans hc)
        exact ⟨_, List.getElem?_set_self (List.getElem?_eq_some_iff.mp hc).1, rfl,
          List.prefix_append _ _⟩
      · exact ⟨c, by rw [List.getElem?_set_ne hut, hc], rfl, List.prefix_refl _⟩

/-- A body that makes its next call keeps it. -/
theorem getElem?_step {p : Pool I σ ρ α} {t : Nat} {c : Call I ρ α} {o : I.Op}
    {k : I.Res o → Prog I α} (hc : p.calls[t]? = some c) (hrest : c.rest = some (.call o k))
    (ans : ∀ o, I.Ans o) :
    (p.step M t ans).calls[t]? = some (c.advance o k (M.handle o p.shared (ans o)).1) := by
  simp only [step, hc, hrest]
  exact List.getElem?_set_self (List.getElem?_eq_some_iff.mp hc).1

/-- Over a run a started body keeps the calls it has made. -/
theorem exists_run {p : Pool I σ ρ α} {t : Nat} {c : Call I ρ α} (hc : p.calls[t]? = some c)
    (es : List (Event I ρ)) :
    ∃ d : Call I ρ α, (p.run M body es).calls[t]? = some d ∧ d.request = c.request ∧
      c.history <+: d.history := by
  induction es generalizing p c with
  | nil => exact ⟨c, hc, rfl, List.prefix_refl _⟩
  | cons e es ih =>
    obtain ⟨d, hd, hreq, hprefix⟩ := exists_apply hc e
    obtain ⟨d', hd', hreq', hprefix'⟩ := ih hd
    exact ⟨d', hd', hreq'.trans hreq, hprefix.trans hprefix'⟩

/-- The request an event brings. -/
def request? : Event I ρ → Option ρ
  | .spawn r => some r
  | _ => none

/-- The bodies serve the requests that arrived, in this order. -/
theorem requests_run (p : Pool I σ ρ α) (es : List (Event I ρ)) :
    (p.run M body es).calls.map Call.request =
      p.calls.map Call.request ++ es.filterMap request? := by
  induction es generalizing p with
  | nil => simp
  | cons e es ih =>
    rw [run_cons, ih]
    cases e with
    | spawn r => simp [apply, spawn, request?]
    | kill t =>
      -- a body that dies keeps its request, as does one that makes a call
      have hkill : (p.kill t).calls.map Call.request = p.calls.map Call.request := by
        refine List.ext_getElem? fun u => ?_
        simp only [kill, List.getElem?_map, List.getElem?_modify]
        cases p.calls[u]? with
        | none => rfl
        | some c => by_cases htu : t = u <;> simp [htu]
      rw [apply, hkill, List.filterMap_cons_none rfl]
    | step t ans =>
      rw [apply, List.filterMap_cons_none rfl]
      rcases step_cases (M := M) p t ans with heq | ⟨c, o, k, hc, -, heq⟩
      · rw [heq]
      · rw [heq]
        obtain ⟨hlt, rfl⟩ := List.getElem?_eq_some_iff.mp hc
        rw [List.map_set]
        congr 1
        have hlt' : t < (p.calls.map Call.request).length := by rwa [List.length_map]
        have hself : (p.calls.map Call.request)[t] = p.calls[t].request := by
          rw [List.getElem_map]
        change (p.calls.map Call.request).set t p.calls[t].request = p.calls.map Call.request
        rw [← hself, List.set_getElem_self]

/-! ### What happened in a run -/

/-- At some event of the run, in the pool it found, `P` held. -/
def Happened (M : Machine I σ) (body : ρ → Prog I α) (P : Pool I σ ρ α → Event I ρ → Prop)
    (p : Pool I σ ρ α) (es : List (Event I ρ)) : Prop :=
  ∃ before e after, es = before ++ e :: after ∧ P (p.run M body before) e

theorem happened_append_singleton {P : Pool I σ ρ α → Event I ρ → Prop} {p : Pool I σ ρ α}
    {es : List (Event I ρ)} {e : Event I ρ} :
    Happened M body P p (es ++ [e]) ↔ Happened M body P p es ∨ P (p.run M body es) e := by
  constructor
  · rintro ⟨before, e', after, heq, hP⟩
    rcases List.eq_nil_or_concat after with rfl | ⟨mid, last, rfl⟩
    · obtain ⟨rfl, he⟩ := List.append_inj' heq rfl
      exact .inr (List.singleton_inj.mp he ▸ hP)
    · have hcut : es ++ [e] = (before ++ e' :: mid) ++ [last] := by simpa using heq
      exact .inl ⟨before, e', mid, (List.append_inj' hcut rfl).1, hP⟩
  · rintro (⟨before, e', after, rfl, hP⟩ | hP)
    · exact ⟨before, e', after ++ [e], by simp, hP⟩
    · exact ⟨es, e, [], rfl, hP⟩

theorem Happened.imp {P Q : Pool I σ ρ α → Event I ρ → Prop} {p : Pool I σ ρ α}
    {es : List (Event I ρ)} (h : Happened M body P p es) (himp : ∀ q e, P q e → Q q e) :
    Happened M body Q p es := by
  obtain ⟨before, e, after, heq, hP⟩ := h
  exact ⟨before, e, after, heq, himp _ e hP⟩

/-- Who made a call in a run still knows of it. -/
theorem Happened.exists_mem_history {P : I.Op → Prop} {t : Nat} {p : Pool I σ ρ α}
    {es : List (Event I ρ)}
    (h : Happened M body (fun q e => (∃ ans, e = .step t ans) ∧ ∃ o, q.next? t = some o ∧ P o) p es) :
    ∃ c : Call I ρ α, (p.run M body es).calls[t]? = some c ∧ ∃ e ∈ c.history, P e.op := by
  obtain ⟨before, e, after, rfl, ⟨ans, rfl⟩, o, hnext, hP⟩ := h
  obtain ⟨c, k, hc, hrest⟩ := exists_of_next? hnext
  have hstep := getElem?_step (M := M) hc hrest ans
  obtain ⟨d, hd, -, hprefix⟩ := exists_run hstep after
  refine ⟨d, ?_, ⟨o, _⟩, hprefix.subset (List.mem_append_right _ (List.mem_singleton.mpr rfl)), hP⟩
  rw [run_append]
  exact hd

end Pool

namespace Pool

variable {M : Machine I σ} {body : ρ → Prog I α}

/-- Every body has got to where it is by its own calls. -/
def Replayed (body : ρ → Prog I α) (p : Pool I σ ρ α) : Prop :=
  ∀ (t : Nat) (c : Call I ρ α) q, p.calls[t]? = some c → c.rest = some q →
    (body c.request).Reaches c.history q

theorem replayed_run (s : σ) (es : List (Event I ρ)) :
    Replayed body ((Pool.start s).run M body es) := by
  refine run_induction (P := Replayed body) ?_ (meets_true _ es) ?_
  · intro p e hp _ t c q hc hrest
    cases e with
    | spawn r =>
      rcases getElem?_append_singleton_cases hc with ⟨-, rfl⟩ | hc
      · obtain rfl := Option.some_inj.mp hrest
        exact .refl
      · exact hp t c q hc hrest
    | kill u =>
      -- a body that is dead has nothing left to replay
      obtain ⟨d, hd, -, -, hdead | rfl⟩ := getElem?_kill hc
      · simp [hdead] at hrest
      · exact hp t c q hd hrest
    | step u ans =>
      simp only [apply] at hc
      rcases step_cases (M := M) p u ans with heq | ⟨d, o, k, hd, hnext, heq⟩
      · rw [heq] at hc
        exact hp t c q hc hrest
      · rw [heq] at hc
        rcases getElem?_set_cases hc with ⟨-, rfl⟩ | ⟨-, hc⟩
        · obtain rfl := Option.some_inj.mp hrest
          exact .step _ (hp u d _ hd hnext)
        · exact hp t c q hc hrest
  · intro t c q hc
    simp [Pool.start] at hc

end Pool

/-! ### Thread-modular reasoning -/

/-- The obligations of thread-modular reasoning. `J` speaks of the shared state, `R` ties
what one body knows to it, and `P` relates what two bodies know. A body that moves
re-establishes its own `R` (`call`) and leaves the `R` of every bystander alone (`frame`). -/
structure Modular (M : Machine I σ) (body : ρ → Prog I α) (D : Discipline I V) (start : ρ → V)
    (post : V → α → Prop) (J : σ → Prop) (R : σ → V → Prop) (P : V → V → Prop)
    (cond : Pool I σ ρ α → Event I ρ → Prop) : Prop where
  body_safe : ∀ r, (body r).Safe D post (start r)
  symm : ∀ v w, P v w → P w v
  spawn : ∀ p r, cond p (.spawn r) → J p.shared →
    R p.shared (start r) ∧ ∀ w, R p.shared w → P (start r) w
  call : ∀ p t ans (c : Call I ρ α) o k, cond p (.step t ans) → p.calls[t]? = some c →
    c.rest = some (.call o k) → J p.shared →
    (∀ (u : Nat) (d : Call I ρ α), p.calls[u]? = some d → R p.shared (d.view D start)) →
    D.pre (c.view D start) o →
      D.adm (c.view D start) ⟨o, (M.handle o p.shared (ans o)).1⟩ ∧
      J (M.handle o p.shared (ans o)).2 ∧
      R (M.handle o p.shared (ans o)).2
        (D.upd (c.view D start) ⟨o, (M.handle o p.shared (ans o)).1⟩)
  frame : ∀ s v o (a : I.Ans o) w, J s → R s v → D.pre v o → R s w → P v w →
    R (M.handle o s a).2 w ∧ P (D.upd v ⟨o, (M.handle o s a).1⟩) w

/-- What the thread-modular rule maintains. -/
structure Coherent (D : Discipline I V) (start : ρ → V) (post : V → α → Prop) (J : σ → Prop)
    (R : σ → V → Prop) (P : V → V → Prop) (p : Pool I σ ρ α) : Prop where
  shared : J p.shared
  known : ∀ (t : Nat) (c : Call I ρ α), p.calls[t]? = some c → R p.shared (c.view D start)
  apart : ∀ (t u : Nat) (c d : Call I ρ α), t ≠ u → p.calls[t]? = some c → p.calls[u]? = some d →
    P (c.view D start) (d.view D start)
  safe : ∀ (t : Nat) (c : Call I ρ α), p.calls[t]? = some c →
    c.SafeFrom D start post
  kept : ∀ (t : Nat) (c : Call I ρ α), p.calls[t]? = some c → D.Kept (start c.request) c.history

namespace Modular

variable {M : Machine I σ} {body : ρ → Prog I α} {D : Discipline I V} {start : ρ → V}
  {post : V → α → Prop} {J : σ → Prop} {R : σ → V → Prop} {P : V → V → Prop}
  {cond : Pool I σ ρ α → Event I ρ → Prop}

theorem coherent_spawn (hm : Modular M body D start post J R P cond) {p : Pool I σ ρ α} {r : ρ}
    (hp : Coherent D start post J R P p) (hc : cond p (.spawn r)) :
    Coherent D start post J R P (p.spawn body r) := by
  obtain ⟨hnew, hapart⟩ := hm.spawn p r hc hp.shared
  -- only the last body is new
  refine ⟨hp.shared, ?_, ?_, ?_, ?_⟩
  · intro t c ht
    rcases getElem?_append_singleton_cases ht with ⟨-, rfl⟩ | ht
    · exact hnew
    · exact hp.known t c ht
  · intro t u c d htu ht hu
    rcases getElem?_append_singleton_cases ht with ⟨ht', rfl⟩ | ht
    · rcases getElem?_append_singleton_cases hu with ⟨hu', rfl⟩ | hu
      · omega
      · exact hapart _ (hp.known u d hu)
    · rcases getElem?_append_singleton_cases hu with ⟨hu', rfl⟩ | hu
      · exact hm.symm _ _ (hapart _ (hp.known t c ht))
      · exact hp.apart t u c d htu ht hu
  · intro t c ht
    rcases getElem?_append_singleton_cases ht with ⟨-, rfl⟩ | ht
    · rintro q hq
      obtain rfl := Option.some_inj.mp hq
      exact hm.body_safe r
    · exact hp.safe t c ht
  · intro t c ht
    rcases getElem?_append_singleton_cases ht with ⟨-, rfl⟩ | ht
    · trivial
    · exact hp.kept t c ht

theorem coherent_kill {p : Pool I σ ρ α} {u : Nat} (hp : Coherent D start post J R P p) :
    Coherent D start post J R P (p.kill u) := by
  -- a body that dies keeps what it has done
  have hview : ∀ (t : Nat) (c : Call I ρ α), (p.kill u).calls[t]? = some c →
      ∃ d : Call I ρ α, p.calls[t]? = some d ∧ c.request = d.request ∧ c.history = d.history ∧
        (c.rest = none ∨ c = d) := fun _ _ => Pool.getElem?_kill
  refine ⟨hp.shared, ?_, ?_, ?_, ?_⟩
  · intro t c ht
    obtain ⟨d, hd, hreq, hhist, -⟩ := hview t c ht
    have hR := hp.known t d hd
    rwa [Call.view, ← hreq, ← hhist] at hR
  · intro t w c d htw ht hw
    obtain ⟨c', hc', hcreq, hchist, -⟩ := hview t c ht
    obtain ⟨d', hd', hdreq, hdhist, -⟩ := hview w d hw
    have hP := hp.apart t w c' d' htw hc' hd'
    rwa [Call.view, Call.view, ← hcreq, ← hchist, ← hdreq, ← hdhist] at hP
  · intro t c ht
    obtain ⟨d, hd, -, -, hrest | rfl⟩ := hview t c ht
    · intro q hq
      simp [hrest] at hq
    · exact hp.safe t c hd
  · intro t c ht
    obtain ⟨d, hd, hreq, hhist, -⟩ := hview t c ht
    rw [hreq, hhist]
    exact hp.kept t d hd

theorem coherent_step (hm : Modular M body D start post J R P cond) {p : Pool I σ ρ α} {t : Nat}
    {ans : ∀ o, I.Ans o} (hp : Coherent D start post J R P p) (hc : cond p (.step t ans)) :
    Coherent D start post J R P (p.step M t ans) := by
  rcases Pool.step_cases (M := M) p t ans with heq | ⟨c, o, k, hct, hrest, heq⟩
  · rw [heq]; exact hp
  have hsafe := hp.safe t c hct _ hrest
  have hR := hp.known t c hct
  obtain ⟨hadm, hJ, hRc⟩ := hm.call p t ans c o k hc hct hrest hp.shared hp.known hsafe.1
  have hframe : ∀ u d, u ≠ t → p.calls[u]? = some d → _ := fun u d hut hd =>
    hm.frame p.shared (c.view D start) o (ans o) (d.view D start) hp.shared hR hsafe.1
      (hp.known u d hd) (hp.apart t u c d (Ne.symm hut) hct hd)
  rw [heq]
  -- of two bodies that are compared at most one has moved
  refine ⟨hJ, ?_, ?_, ?_, ?_⟩
  · intro u d hu
    rcases getElem?_set_cases hu with ⟨-, rfl⟩ | ⟨hut, hd⟩
    · rw [Call.view_advance]; exact hRc
    · exact (hframe u d hut hd).1
  · intro u w d e huw hu hw
    rcases getElem?_set_cases hu with ⟨hut, rfl⟩ | ⟨hut, hd⟩
    · rcases getElem?_set_cases hw with ⟨hwt, rfl⟩ | ⟨hwt, he⟩
      · omega
      · rw [Call.view_advance]; exact (hframe w e hwt he).2
    · rcases getElem?_set_cases hw with ⟨-, rfl⟩ | ⟨hwt, he⟩
      · rw [Call.view_advance]; exact hm.symm _ _ (hframe u d hut hd).2
      · exact hp.apart u w d e huw hd he
  · intro u d hu
    rcases getElem?_set_cases hu with ⟨-, rfl⟩ | ⟨-, hd⟩
    · rintro q hq
      obtain rfl := Option.some_inj.mp hq
      rw [Call.view_advance]
      exact hsafe.2 _ hadm
    · exact hp.safe u d hd
  · intro u d hu
    rcases getElem?_set_cases hu with ⟨-, rfl⟩ | ⟨-, hd⟩
    · exact Discipline.kept_append.mpr ⟨hp.kept t c hct, hsafe.1, trivial⟩
    · exact hp.kept u d hd

/-- **The thread-modular rule.** Whatever the interleaving, the answers and the crashes,
the shared invariant holds, every body's knowledge is right, every call made so far kept its
promise, and what is left of every body still keeps it. -/
theorem run (hm : Modular M body D start post J R P cond) {p : Pool I σ ρ α}
    {es : List (Event I ρ)} (hmeets : Pool.Meets M body cond p es)
    (hp : Coherent D start post J R P p) : Coherent D start post J R P (p.run M body es) := by
  refine Pool.run_induction (fun q e hq hc => ?_) hmeets hp
  cases e with
  | spawn r => exact hm.coherent_spawn hq hc
  | step t ans => exact hm.coherent_step hq hc
  | kill t => exact coherent_kill hq

theorem coherent_start {s : σ} (hs : J s) :
    Coherent D start post J R P (Pool.start s : Pool I σ ρ α) :=
  ⟨hs, by simp [Pool.start], by simp [Pool.start], by simp [Pool.start], by simp [Pool.start]⟩

end Modular

/-! ### Counting calls -/

/-- How often the bodies serving the selected requests made a call of the given kind. -/
def Pool.occurrences (p : Pool I σ ρ α) (sel : ρ → Bool) (kind : Entry I → Bool) : Nat :=
  ((p.calls.filter fun c => sel c.request).map fun c => c.history.countP kind).sum

/-- At most one summand is not zero, and that one is at most one. -/
theorem sum_map_le_one {β : Type} {l : List β} {f : β → Nat} (hle : ∀ x ∈ l, f x ≤ 1)
    (hapart : l.Pairwise fun x y => f x = 0 ∨ f y = 0) : (l.map f).sum ≤ 1 := by
  induction l with
  | nil => simp
  | cons x l ih =>
    rw [List.pairwise_cons] at hapart
    have htail := ih (fun y hy => hle y (List.mem_cons_of_mem x hy)) hapart.2
    rcases Nat.eq_zero_or_pos (f x) with hx | hx
    · simpa [hx] using htail
    · have hzero : (l.map f).sum = 0 := by
        rw [List.sum_eq_zero_iff_forall_eq_nat]
        intro n hn
        obtain ⟨y, hy, rfl⟩ := List.mem_map.mp hn
        exact (hapart.1 y hy).resolve_left (by omega)
      have := hle x List.mem_cons_self
      simp only [List.map_cons, List.sum_cons, hzero]
      omega

/-- What only ever comes first comes at most once. -/
theorem countP_le_one_of_first {β : Type} {p : β → Bool} {l : List β}
    (h : ∀ before x after, l = before ++ x :: after → p x = true → ∀ y ∈ before, p y = false) :
    l.countP p ≤ 1 := by
  induction l using List.reverseRecOn with
  | nil => simp
  | append_singleton l x ih =>
    have htail := ih fun before y after heq =>
      h before y (after ++ [x]) (by rw [heq, List.append_assoc, List.cons_append])
    rw [List.countP_append, List.countP_singleton]
    by_cases hx : p x = true
    · have hzero : l.countP p = 0 := List.countP_eq_zero.mpr fun y hy => by
        simp [h l x [] rfl hx y hy]
      simp [hzero, hx]
    · simpa [hx] using htail

namespace Coherent

variable {D : Discipline I V} {start : ρ → V} {post : V → α → Prop} {J : σ → Prop}
  {R : σ → V → Prop} {P : V → V → Prop} {p : Pool I σ ρ α}

theorem known_mem (h : Coherent D start post J R P p) {c : Call I ρ α} (hc : c ∈ p.calls) :
    R p.shared (c.view D start) := by
  obtain ⟨t, ht⟩ := List.mem_iff_getElem?.mp hc
  exact h.known t c ht

theorem safe_mem (h : Coherent D start post J R P p) {c : Call I ρ α} (hc : c ∈ p.calls) :
    c.SafeFrom D start post := by
  obtain ⟨t, ht⟩ := List.mem_iff_getElem?.mp hc
  exact h.safe t c ht

theorem kept_mem (h : Coherent D start post J R P p) {c : Call I ρ α} (hc : c ∈ p.calls) :
    D.Kept (start c.request) c.history := by
  obtain ⟨t, ht⟩ := List.mem_iff_getElem?.mp hc
  exact h.kept t c ht

theorem pairwise (h : Coherent D start post J R P p) :
    p.calls.Pairwise fun c d => P (c.view D start) (d.view D start) := by
  rw [List.pairwise_iff_getElem]
  intro t u ht hu htu
  exact h.apart t u _ _ (by omega) (List.getElem?_eq_getElem ht) (List.getElem?_eq_getElem hu)

/-- What a call promised, from the calls made before it. -/
theorem pre_of_history {pre : Trace I ρ → I.Op → Prop} {R : σ → Trace I ρ → Prop}
    {P : Trace I ρ → Trace I ρ → Prop} {post : Trace I ρ → α → Prop}
    (h : Coherent (Discipline.ofTrace pre) Trace.start post J R P p) {c : Call I ρ α}
    (hc : c ∈ p.calls) {before after : List (Entry I)} {e : Entry I}
    (heq : c.history = before ++ e :: after) : pre ⟨c.request, before⟩ e.op := by
  have hkept := h.kept_mem hc
  rw [heq] at hkept
  have hpre := hkept.pre
  rw [show (Discipline.ofTrace pre).upd = Trace.push from rfl, Trace.foldl_push] at hpre
  exact hpre

/-- A call that each selected body makes at most once, and of two of them at most one, is
made at most once in all. -/
theorem occurrences_le_one (h : Coherent D start post J R P p) {sel : ρ → Bool}
    {kind : Entry I → Bool}
    (hone : ∀ c ∈ p.calls, R p.shared (c.view D start) → c.history.countP kind ≤ 1)
    (htwo : ∀ c ∈ p.calls, ∀ d ∈ p.calls, sel c.request = true → sel d.request = true →
      P (c.view D start) (d.view D start) →
      c.history.countP kind = 0 ∨ d.history.countP kind = 0) :
    p.occurrences sel kind ≤ 1 := by
  refine sum_map_le_one (fun c hc => ?_) ?_
  · have hmem := (List.mem_filter.mp hc).1
    exact hone c hmem (h.known_mem hmem)
  · refine (h.pairwise.sublist List.filter_sublist).imp_of_mem fun {c d} hc hd hP => ?_
    obtain ⟨hc, hsc⟩ := List.mem_filter.mp hc
    obtain ⟨hd, hsd⟩ := List.mem_filter.mp hd
    exact htwo c hc d hd hsc hsd hP

end Coherent

/-! ### A body run alone -/

/-- Run a body to its end with no other body around; `env` supplies the environment's
contribution to the successive calls. -/
def Prog.exec (M : Machine I σ) (env : Nat → ∀ o, I.Ans o) :
    Prog I α → Nat → σ → α × Nat × σ
  | .pure a, n, s => (a, n, s)
  | .call o k, n, s =>
    let out := M.handle o s (env n o)
    (k out.1).exec M env (n + 1) out.2

@[simp] theorem Prog.exec_pure (M : Machine I σ) (env : Nat → ∀ o, I.Ans o) (a : α) (n : Nat)
    (s : σ) : (Prog.pure a : Prog I α).exec M env n s = (a, n, s) := rfl

@[simp] theorem Prog.exec_call (M : Machine I σ) (env : Nat → ∀ o, I.Ans o) (o : I.Op)
    (k : I.Res o → Prog I α) (n : Nat) (s : σ) :
    (Prog.call o k).exec M env n s =
      (k (M.handle o s (env n o)).1).exec M env (n + 1) (M.handle o s (env n o)).2 := rfl

theorem Prog.exec_bind {β : Type} (M : Machine I σ) (env : Nat → ∀ o, I.Ans o)
    (p : Prog I α) (f : α → Prog I β) (n : Nat) (s : σ) :
    (p.bind f).exec M env n s =
      (f (p.exec M env n s).1).exec M env (p.exec M env n s).2.1 (p.exec M env n s).2.2 := by
  induction p generalizing n s with
  | pure a => rfl
  | call o k ih => exact ih _ _ _

/-- A throw of the first part skips the second. -/
theorem Task.exec_bind {β ε : Type} (M : Machine I σ) (env : Nat → ∀ o, I.Ans o)
    (x : Task I ε α) (f : α → Task I ε β) (n : Nat) (s : σ) :
    (x >>= f).run.exec M env n s =
      match x.run.exec M env n s with
      | (.ok a, n', s') => (f a).run.exec M env n' s'
      | (.error e, n', s') => (.error e, n', s') := by
  rw [ExceptT.run_bind, Prog.bind_eq, Prog.exec_bind]
  obtain ⟨r, n', s'⟩ := x.run.exec M env n s
  cases r <;> rfl

end AriOs.Async
