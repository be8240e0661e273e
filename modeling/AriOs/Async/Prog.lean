import Mathlib.Data.List.Induction

/-!
# Programs that call out

An asynchronous function runs some pure code, makes a call (a store statement, a
network request, a reading of the clock), waits for the answer and goes on. Its body
is the tree of the calls it may make, branching on the answers. Nothing is said here
about what the calls do: the same tree is run against a store by
`AriOs.Async.Pool`, where any number of such bodies interleave.

## Main definitions

* `Discipline.Kept` — the calls made so far kept the promise
* `Prog.Safe` — whatever the answers, every call keeps the promise
* `Prog.Only` — whatever the answers, every call is of one kind
* `Task.Returns`, `Task.Ends` — what holds when a body returns, and when it throws

## Main results

* `Prog.safe_bind` — the second part of a sequence starts from the views the first ends in
* `Task.safe_bind` — the same for bodies that may throw, where a throw skips the second part
-/

namespace AriOs.Async

/-- The calls a program may make. The environment contributes an `Ans` to each call,
and the program is handed a `Res`; for a call that leaves the process they coincide. -/
structure Interface where
  Op : Type
  Ans : Op → Type
  Res : Op → Type

/-- A program body: it ends in a value, or calls out and goes on from the answer. -/
inductive Prog (I : Interface) (α : Type) where
  | pure (a : α)
  | call (o : I.Op) (k : I.Res o → Prog I α)

/-- One call and what it returned. -/
structure Entry (I : Interface) where
  op : I.Op
  res : I.Res op

namespace Prog

variable {I : Interface} {α β : Type}

/-- Sequencing: graft a continuation on every way the first body can end. -/
protected def bind : Prog I α → (α → Prog I β) → Prog I β
  | .pure a, f => f a
  | .call o k, f => .call o fun r => (k r).bind f

instance : Monad (Prog I) where
  pure := Prog.pure
  bind := Prog.bind

/-- The body made of a single call. -/
def ask (o : I.Op) : Prog I (I.Res o) := .call o .pure

@[simp] theorem call_bind (o : I.Op) (k : I.Res o → Prog I α) (f : α → Prog I β) :
    (Prog.call o k).bind f = .call o fun r => (k r).bind f := rfl

@[simp] theorem bind_eq (p : Prog I α) (f : α → Prog I β) : p >>= f = p.bind f := rfl

/-- What a body ends in if every call is answered as `f` says. -/
def answered (f : ∀ o, I.Res o) : Prog I α → α
  | .pure a => a
  | .call o k => (k (f o)).answered f

@[simp] theorem answered_bind (f : ∀ o, I.Res o) (p : Prog I α) (g : α → Prog I β) :
    (p.bind g).answered f = (g (p.answered f)).answered f := by
  induction p with
  | pure a => rfl
  | call o k ih => exact ih (f o)

end Prog

/-- What is left of a body after some calls. -/
inductive Prog.Reaches {I : Interface} {α : Type} (p : Prog I α) : List (Entry I) → Prog I α → Prop
  | refl : Reaches p [] p
  | step {h : List (Entry I)} {o : I.Op} {k : I.Res o → Prog I α} (r : I.Res o)
      (before : Reaches p h (.call o k)) : Reaches p (h ++ [⟨o, r⟩]) (k r)

/-- Before its first call all of a body is left. -/
theorem Prog.Reaches.of_nil {I : Interface} {α : Type} {p q : Prog I α} (h : Reaches p [] q) :
    q = p := by
  generalize hnil : ([] : List (Entry I)) = hist at h
  cases h with
  | refl => rfl
  | step r before => exact absurd hnil (by simp)

/-- What passes from a body to what follows each of its calls holds of what is left of it. -/
theorem Prog.Reaches.residual {I : Interface} {α : Type} {p q : Prog I α} {h : List (Entry I)}
    (hreach : Reaches p h q) {S : Prog I α → Prop} (hp : S p)
    (hstep : ∀ o k (r : I.Res o), S (.call o k) → S (k r)) : S q := by
  induction hreach with
  | refl => exact hp
  | step r _ ih => exact hstep _ _ r ih

/-- How a single running body is reasoned about. Its view is a function of the calls it
has made; `pre` is what it promises when it makes a call, and `adm` what it may rely on
about the answer. -/
structure Discipline (I : Interface) (V : Type) where
  upd : V → Entry I → V
  pre : V → I.Op → Prop
  adm : V → Entry I → Prop

namespace Discipline

variable {I : Interface} {V : Type} {D : Discipline I V}

/-- Every call of a history kept its promise when it was made. -/
def Kept (D : Discipline I V) : V → List (Entry I) → Prop
  | _, [] => True
  | v, e :: es => D.pre v e.op ∧ D.Kept (D.upd v e) es

theorem kept_append {v : V} {es es' : List (Entry I)} :
    D.Kept v (es ++ es') ↔ D.Kept v es ∧ D.Kept (es.foldl D.upd v) es' := by
  induction es generalizing v with
  | nil => simp [Kept]
  | cons e es ih => simp only [List.cons_append, Kept, ih, List.foldl_cons, and_assoc]

/-- What a call promised, from what the body knew just before it. -/
theorem Kept.pre {v : V} {before after : List (Entry I)} {e : Entry I}
    (h : D.Kept v (before ++ e :: after)) : D.pre (before.foldl D.upd v) e.op :=
  (kept_append.mp h).2.1

end Discipline

/-- What a body knows if it forgets nothing: its request and its own calls. -/
structure Trace (I : Interface) (ρ : Type) where
  request : ρ
  history : List (Entry I)

namespace Trace

variable {I : Interface} {ρ : Type}

def start (r : ρ) : Trace I ρ := ⟨r, []⟩

def push (v : Trace I ρ) (e : Entry I) : Trace I ρ := ⟨v.request, v.history ++ [e]⟩

@[simp] theorem push_request (v : Trace I ρ) (e : Entry I) : (v.push e).request = v.request := rfl

@[simp] theorem push_history (v : Trace I ρ) (e : Entry I) :
    (v.push e).history = v.history ++ [e] := rfl

theorem foldl_push (v : Trace I ρ) (es : List (Entry I)) :
    es.foldl push v = ⟨v.request, v.history ++ es⟩ := by
  induction es generalizing v with
  | nil => simp
  | cons e es ih => rw [List.foldl_cons, ih]; simp

end Trace

/-- The discipline of a body that forgets nothing, with nothing relied on in the answers. -/
def Discipline.ofTrace {I : Interface} {ρ : Type} (pre : Trace I ρ → I.Op → Prop) :
    Discipline I (Trace I ρ) where
  upd := Trace.push
  pre := pre
  adm _ _ := True

namespace Prog

variable {I : Interface} {V α β : Type} {D : Discipline I V}

/-- Every call the body can still make keeps the promise, and every value it can end in
satisfies `post`, provided the answers are the ones relied upon. -/
def Safe (D : Discipline I V) (post : V → α → Prop) : Prog I α → V → Prop
  | .pure a, v => post v a
  | .call o k, v => D.pre v o ∧ ∀ r, D.adm v ⟨o, r⟩ → (k r).Safe D post (D.upd v ⟨o, r⟩)

@[simp] theorem safe_pure {post : V → α → Prop} {a : α} {v : V} :
    Safe D post (.pure a : Prog I α) v ↔ post v a := Iff.rfl

@[simp] theorem safe_call {post : V → α → Prop} {o : I.Op} {k : I.Res o → Prog I α} {v : V} :
    Safe D post (.call o k) v ↔
      D.pre v o ∧ ∀ r, D.adm v ⟨o, r⟩ → Safe D post (k r) (D.upd v ⟨o, r⟩) := Iff.rfl

@[simp] theorem safe_ask {o : I.Op} {post : V → I.Res o → Prop} {v : V} :
    Safe D post (ask o) v ↔
      D.pre v o ∧ ∀ r, D.adm v ⟨o, r⟩ → post (D.upd v ⟨o, r⟩) r := Iff.rfl

theorem Safe.mono {post post' : V → α → Prop} {p : Prog I α} {v : V}
    (h : Safe D post p v) (himp : ∀ v a, post v a → post' v a) : Safe D post' p v := by
  induction p generalizing v with
  | pure a => exact himp v a h
  | call o k ih => exact ⟨h.1, fun r hr => ih r (h.2 r hr)⟩

/-- The second part of a sequence starts from the views the first part ends in. -/
theorem safe_bind {post : V → β → Prop} {p : Prog I α} {f : α → Prog I β} {v : V} :
    Safe D post (p.bind f) v ↔ Safe D (fun w a => Safe D post (f a) w) p v := by
  induction p generalizing v with
  | pure a => rfl
  | call o k ih => simp only [call_bind, safe_call, ih]

/-- A body that promises nothing keeps its promises. -/
theorem safe_of_pre {p : Prog I α} {v : V} (hpre : ∀ v o, D.pre v o) :
    Safe D (fun _ _ => True) p v := by
  induction p generalizing v with
  | pure a => trivial
  | call o k ih => exact ⟨hpre v o, fun r _ => ih r⟩

/-- What no call undoes still holds when the body ends. -/
theorem Safe.keeps {S : V → Prop} {post : V → α → Prop} {p : Prog I α} {v : V}
    (h : Safe D post p v) (hS : ∀ v e, S v → S (D.upd v e)) (hv : S v) :
    Safe D (fun w a => post w a ∧ S w) p v := by
  induction p generalizing v with
  | pure a => exact ⟨h, hv⟩
  | call o k ih => exact ⟨h.1, fun r hr => ih r (h.2 r hr) (hS v ⟨o, r⟩ hv)⟩

/-- What no call changes is what it was when the body ends. -/
theorem Safe.preserves {γ : Type} {f : V → γ} {post : V → α → Prop} {p : Prog I α} {v : V}
    (h : Safe D post p v) (hf : ∀ v e, f (D.upd v e) = f v) :
    Safe D (fun w a => post w a ∧ f w = f v) p v :=
  h.keeps (S := fun w => f w = f v) (fun w e hw => (hf w e).trans hw) rfl

/-- What is left of a safe body is safe from the calls it has made. -/
theorem Safe.reaches {ρ : Type} {pre : Trace I ρ → I.Op → Prop} {post : Trace I ρ → α → Prop}
    {p q : Prog I α} {r : ρ} {h : List (Entry I)} (hp : p.Safe (.ofTrace pre) post (.start r))
    (hreach : p.Reaches h q) : q.Safe (.ofTrace pre) post ⟨r, h⟩ := by
  induction hreach with
  | refl => exact hp
  | step res _ ih => exact ih.2 res trivial

/-- A body serves one request to its end. -/
theorem Safe.request_eq {ρ : Type} {D : Discipline I (Trace I ρ)} {post : Trace I ρ → α → Prop}
    {p : Prog I α} {v : Trace I ρ} (h : Safe D post p v)
    (hD : ∀ v e, (D.upd v e).request = v.request) :
    Safe D (fun w a => post w a ∧ w.request = v.request) p v :=
  h.preserves (f := Trace.request) hD

end Prog

/-! ### Bodies that may throw -/

/-- A body that ends in a value or throws. -/
abbrev Task (I : Interface) (ε α : Type) := ExceptT ε (Prog I) α

namespace Task

variable {I : Interface} {V α β ε : Type} {D : Discipline I V}

/-- Code that makes no call. -/
def ofExcept (x : Except ε α) : Task I ε α := ExceptT.mk (.pure x)

/-- A call that cannot be rejected. -/
def total (o : I.Op) : Task I ε (I.Res o) := ExceptT.lift (.ask o)

/-- A call made for its effect. -/
def perform (o : I.Op) : Task I ε Unit := ExceptT.mk (.call o fun _ => .pure (.ok ()))

/-- Run a body to its end and hand its outcome, thrown or not, to the next part. -/
def attempt (x : Task I ε α) : Prog I (Except ε α) := x.run

/-- `try { x } catch { onError }`, with the code after a successful `x` outside the block. -/
def orCatch (x : Task I ε α) (onError : ε → Task I ε β) (next : α → Task I ε β) : Task I ε β :=
  ExceptT.mk (x.run.bind fun
    | .ok a => (next a).run
    | .error e => (onError e).run)

@[simp] theorem safe_ofExcept {post : V → Except ε α → Prop} {x : Except ε α} {v : V} :
    Prog.Safe D post (ofExcept x : Task I ε α).run v ↔ post v x := Iff.rfl

@[simp] theorem safe_total {o : I.Op} {post : V → Except ε (I.Res o) → Prop} {v : V} :
    Prog.Safe D post (total o : Task I ε (I.Res o)).run v ↔
      D.pre v o ∧ ∀ r, D.adm v ⟨o, r⟩ → post (D.upd v ⟨o, r⟩) (.ok r) := Iff.rfl

@[simp] theorem safe_perform {o : I.Op} {post : V → Except ε Unit → Prop} {v : V} :
    Prog.Safe D post (perform o : Task I ε Unit).run v ↔
      D.pre v o ∧ ∀ r, D.adm v ⟨o, r⟩ → post (D.upd v ⟨o, r⟩) (.ok ()) := Iff.rfl

@[simp] theorem safe_mk {post : V → Except ε α → Prop} {p : Prog I (Except ε α)} {v : V} :
    Prog.Safe D post (ExceptT.mk p).run v ↔ Prog.Safe D post p v := Iff.rfl

@[simp] theorem safe_pure {post : V → Except ε α → Prop} {a : α} {v : V} :
    Prog.Safe D post (Pure.pure a : Task I ε α).run v ↔ post v (.ok a) := Iff.rfl

@[simp] theorem safe_throw {post : V → Except ε α → Prop} {e : ε} {v : V} :
    Prog.Safe D post (throw e : Task I ε α).run v ↔ post v (.error e) := Iff.rfl

/-- A throw of the first part skips the second. -/
theorem safe_bind {post : V → Except ε β → Prop} {x : Task I ε α} {f : α → Task I ε β} {v : V} :
    Prog.Safe D post (x >>= f).run v ↔
      Prog.Safe D (fun w r => match r with
        | .ok a => Prog.Safe D post (f a).run w
        | .error e => post w (.error e)) x.run v := by
  rw [ExceptT.run_bind, Prog.bind_eq, Prog.safe_bind]
  constructor <;> intro h <;> refine h.mono fun w r hr => ?_ <;> cases r <;> exact hr

/-- A throw of the first part goes to the handler. -/
theorem safe_orCatch {post : V → Except ε β → Prop} {x : Task I ε α}
    {onError : ε → Task I ε β} {next : α → Task I ε β} {v : V} :
    Prog.Safe D post (x.orCatch onError next).run v ↔
      Prog.Safe D (fun w r => match r with
        | .ok a => Prog.Safe D post (next a).run w
        | .error e => Prog.Safe D post (onError e).run w) x.run v := by
  rw [orCatch, safe_mk, Prog.safe_bind]
  constructor <;> intro h <;> refine h.mono fun w r hr => ?_ <;> cases r <;> exact hr

/-- A body whose calls are answered ends in a value or a throw, and a throw of the first part
skips the second. -/
theorem answered_bind (f : ∀ o, I.Res o) (x : Task I ε α) (g : α → Task I ε β) :
    Prog.answered f (x >>= g).run = Prog.answered f x.run >>= fun a => Prog.answered f (g a).run := by
  rw [ExceptT.run_bind, Prog.bind_eq, Prog.answered_bind]
  cases Prog.answered f x.run <;> rfl

/-! #### What a body returns, whatever it may throw -/

/-- Every call keeps the promise, and what the body returns satisfies `Q`; it may throw. -/
def Returns (D : Discipline I V) (Q : V → α → Prop) (x : Task I ε α) (v : V) : Prop :=
  Prog.Safe D (fun w r => ∀ a, r = .ok a → Q w a) x.run v

theorem Returns.mono {Q Q' : V → α → Prop} {x : Task I ε α} {v : V} (h : Returns D Q x v)
    (himp : ∀ w a, Q w a → Q' w a) : Returns D Q' x v :=
  Prog.Safe.mono h fun w _ hr a ha => himp w a (hr a ha)

/-- A body serves one request to its end. -/
theorem Returns.request_eq {ρ : Type} {D : Discipline I (Trace I ρ)} {Q : Trace I ρ → α → Prop}
    {x : Task I ε α} {v : Trace I ρ} (h : Returns D Q x v)
    (hD : ∀ v e, (D.upd v e).request = v.request) :
    Returns D (fun w a => Q w a ∧ w.request = v.request) x v :=
  (Prog.Safe.request_eq h hD).mono fun _ _ hr a ha => ⟨hr.1 a ha, hr.2⟩

/-- A body that forgets nothing still knows at its end what it knew before. -/
theorem Returns.grows {ρ : Type} {pre : Trace I ρ → I.Op → Prop} {Q : Trace I ρ → α → Prop}
    {x : Task I ε α} {v : Trace I ρ} (h : Returns (.ofTrace pre) Q x v) :
    Returns (.ofTrace pre) (fun w a => Q w a ∧ v.history ⊆ w.history) x v :=
  (Prog.Safe.keeps h (S := fun w => v.history ⊆ w.history)
    (fun _ _ hw => List.Subset.trans hw (List.subset_append_left _ _))
    (List.Subset.refl _)).mono fun _ _ hr a ha => ⟨hr.1 a ha, hr.2⟩

@[simp] theorem returns_ofExcept {Q : V → α → Prop} {x : Except ε α} {v : V} :
    Returns D Q (ofExcept x : Task I ε α) v ↔ ∀ a, x = .ok a → Q v a := Iff.rfl

@[simp] theorem returns_total {o : I.Op} {Q : V → I.Res o → Prop} {v : V} :
    Returns D Q (total o : Task I ε (I.Res o)) v ↔
      D.pre v o ∧ ∀ r, D.adm v ⟨o, r⟩ → Q (D.upd v ⟨o, r⟩) r := by
  simp [Returns]

@[simp] theorem returns_pure {Q : V → α → Prop} {a : α} {v : V} :
    Returns D Q (Pure.pure a : Task I ε α) v ↔ Q v a := by
  rw [Returns, safe_pure]
  simp

@[simp] theorem returns_throw {Q : V → α → Prop} {e : ε} {v : V} :
    Returns D Q (throw e : Task I ε α) v := by
  rw [Returns, safe_throw]
  simp

theorem returns_bind {Q : V → β → Prop} {x : Task I ε α} {f : α → Task I ε β} {v : V} :
    Returns D Q (x >>= f) v ↔ Returns D (fun w a => Returns D Q (f a) w) x v := by
  unfold Returns
  rw [safe_bind]
  constructor <;> intro h <;> refine h.mono fun w r hr => ?_ <;> cases r <;> simp_all

theorem returns_orCatch {Q : V → β → Prop} {x : Task I ε α} {onError : ε → Task I ε β}
    {next : α → Task I ε β} {v : V} (herror : ∀ w e, Returns D Q (onError e) w)
    (h : Returns D (fun w a => Returns D Q (next a) w) x v) :
    Returns D Q (x.orCatch onError next) v := by
  unfold Returns
  rw [safe_orCatch]
  refine Prog.Safe.mono h fun w r hr => ?_
  cases r with
  | ok a => exact hr a rfl
  | error e => exact herror w e

/-! #### What holds when a body returns, and when it throws -/

/-- Every call keeps the promise; what the body returns satisfies `Q`, what it throws `E`. -/
def Ends (D : Discipline I V) (Q : V → α → Prop) (E : V → ε → Prop) (x : Task I ε α) (v : V) :
    Prop :=
  Prog.Safe D (fun w r => match r with
    | .ok a => Q w a
    | .error e => E w e) x.run v

section Ends

variable {Q Q' : V → α → Prop} {E : V → ε → Prop} {v : V}

theorem Ends.mono {x : Task I ε α} (h : Ends D Q E x v) (himp : ∀ w a, Q w a → Q' w a) :
    Ends D Q' E x v := by
  refine Prog.Safe.mono h fun w r hr => ?_
  cases r with
  | ok a => exact himp w a hr
  | error e => exact hr

theorem Ends.imp {E' : V → ε → Prop} {x : Task I ε α} (h : Ends D Q E x v)
    (hQ : ∀ w a, Q w a → Q' w a) (hE : ∀ w e, E w e → E' w e) : Ends D Q' E' x v := by
  refine Prog.Safe.mono h fun w r hr => ?_
  cases r with
  | ok a => exact hQ w a hr
  | error e => exact hE w e hr

/-- What no call changes is what it was when the body returns, and when it throws. -/
theorem Ends.preserves {γ : Type} {f : V → γ} {x : Task I ε α} (h : Ends D Q E x v)
    (hf : ∀ v e, f (D.upd v e) = f v) :
    Ends D (fun w a => Q w a ∧ f w = f v) (fun w e => E w e ∧ f w = f v) x v := by
  refine Prog.Safe.mono (Prog.Safe.preserves h hf) fun w r hr => ?_
  cases r <;> exact hr

theorem ends_ofExcept {x : Except ε α} :
    Ends D Q E (ofExcept x : Task I ε α) v ↔
      (∀ a, x = .ok a → Q v a) ∧ ∀ e, x = .error e → E v e := by
  cases x <;> simp [Ends]

@[simp] theorem ends_pure {a : α} : Ends D Q E (Pure.pure a : Task I ε α) v ↔ Q v a := Iff.rfl

@[simp] theorem ends_throw {e : ε} : Ends D Q E (throw e : Task I ε α) v ↔ E v e := Iff.rfl

@[simp] theorem ends_total {o : I.Op} {Q : V → I.Res o → Prop} :
    Ends D Q E (total o : Task I ε (I.Res o)) v ↔
      D.pre v o ∧ ∀ r, D.adm v ⟨o, r⟩ → Q (D.upd v ⟨o, r⟩) r := Iff.rfl

theorem ends_bind {Q : V → β → Prop} {x : Task I ε α} {f : α → Task I ε β} :
    Ends D Q E (x >>= f) v ↔ Ends D (fun w a => Ends D Q E (f a) w) E x v :=
  safe_bind

/-- A throw of the first part goes to the handler. -/
theorem ends_orCatch {Q : V → β → Prop} {x : Task I ε α} {onError : ε → Task I ε β}
    {next : α → Task I ε β} :
    Ends D Q E (x.orCatch onError next) v ↔
      Ends D (fun w a => Ends D Q E (next a) w) (fun w e => Ends D Q E (onError e) w) x v :=
  safe_orCatch

end Ends

end Task

/-! ### Bodies that make calls of one kind only -/

namespace Prog

variable {I : Interface} {V α β ε : Type} {D : Discipline I V} {S : I.Op → Prop}

/-- Every call the body can make is of the kind `S`. -/
def Only (S : I.Op → Prop) : Prog I α → Prop
  | .pure _ => True
  | .call o k => S o ∧ ∀ r, (k r).Only S

@[simp] theorem only_pure {a : α} : Only S (.pure a : Prog I α) := trivial

@[simp] theorem only_call {o : I.Op} {k : I.Res o → Prog I α} :
    Only S (.call o k) ↔ S o ∧ ∀ r, Only S (k r) := Iff.rfl

theorem Only.bind {p : Prog I α} {f : α → Prog I β} (hp : p.Only S) (hf : ∀ a, (f a).Only S) :
    (p.bind f).Only S := by
  induction p with
  | pure a => exact hf a
  | call o k ih => exact ⟨hp.1, fun r => ih r (hp.2 r)⟩

theorem Only.imp {S' : I.Op → Prop} {p : Prog I α} (hp : p.Only S) (hS : ∀ o, S o → S' o) :
    p.Only S' := by
  induction p with
  | pure a => trivial
  | call o k ih => exact ⟨hS o hp.1, fun r => ih r (hp.2 r)⟩

/-- What calls of the kind keep, and what makes them keep the promise, stays throughout. -/
theorem Only.safe {K : V → Prop} {p : Prog I α} {v : V} (hp : p.Only S)
    (hS : ∀ v o, K v → S o → D.pre v o ∧ ∀ r, K (D.upd v ⟨o, r⟩)) (hv : K v) :
    p.Safe D (fun w _ => K w) v := by
  induction p generalizing v with
  | pure a => exact hv
  | call o k ih => exact ⟨(hS v o hv hp.1).1, fun r _ => ih r (hp.2 r) ((hS v o hv hp.1).2 r)⟩

end Prog

namespace Task

variable {I : Interface} {V α β ε : Type} {S : I.Op → Prop}

/-- Every call the body can make is of the kind `S`, also on the way to a throw. -/
def Only (S : I.Op → Prop) (x : Task I ε α) : Prop := x.run.Only S

theorem only_pure (a : α) : Only S (Pure.pure a : Task I ε α) := trivial

theorem only_throw (e : ε) : Only S (throw e : Task I ε α) := trivial

theorem only_ofExcept (x : Except ε α) : Only S (ofExcept x : Task I ε α) := trivial

theorem only_total {o : I.Op} (h : S o) : Only S (total o : Task I ε (I.Res o)) :=
  ⟨h, fun _ => trivial⟩

theorem only_perform {o : I.Op} (h : S o) : Only S (perform o : Task I ε Unit) :=
  ⟨h, fun _ => trivial⟩

theorem Only.imp {S' : I.Op → Prop} {x : Task I ε α} (hx : Only S x) (hS : ∀ o, S o → S' o) :
    Only S' x :=
  Prog.Only.imp hx hS

theorem Only.bind {x : Task I ε α} {f : α → Task I ε β} (hx : Only S x) (hf : ∀ a, Only S (f a)) :
    Only S (x >>= f) := by
  unfold Only
  rw [ExceptT.run_bind, Prog.bind_eq]
  refine Prog.Only.bind hx fun r => ?_
  cases r with
  | ok a => exact hf a
  | error e => trivial

theorem Only.orCatch {x : Task I ε α} {onError : ε → Task I ε β} {next : α → Task I ε β}
    (hx : Only S x) (herror : ∀ e, Only S (onError e)) (hnext : ∀ a, Only S (next a)) :
    Only S (x.orCatch onError next) := by
  refine Prog.Only.bind hx fun r => ?_
  cases r with
  | ok a => exact hnext a
  | error e => exact herror e

/-- What calls of the kind keep holds when the body returns, and when it throws. -/
theorem Only.ends {D : Discipline I V} {K : V → Prop} {x : Task I ε α} {v : V} (hx : Only S x)
    (hS : ∀ v o, K v → S o → D.pre v o ∧ ∀ r, K (D.upd v ⟨o, r⟩)) (hv : K v) :
    Ends D (fun w _ => K w) (fun w _ => K w) x v :=
  (Prog.Only.safe hx hS hv).mono fun _ r hr => by cases r <;> exact hr

end Task

end AriOs.Async
