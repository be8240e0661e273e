import AriOs.Async.Prog

/-!
# Bodies with local variables

A method that calls out keeps local variables, and what it did to them before it throws is still
there when the throw is caught. So such a body is a program over a state that a throw does not
undo.

An environment answers every call, from what was called before. The calls of the body in it, with
their answers, are a transcript: as every answer is one an environment may give, what holds of
each transcript holds of each run.

## Main definitions

* `Routine.Ends` — what holds when a body returns, and when it throws
* `Routine.Triple` — the same of the calls alone; `Routine.Keeps`, where they keep a property
* `Environment`, `Prog.transcript` — the calls of one run

## Main results

* `Routine.ends_bind`, `Routine.ends_tryCatch` — the two ways bodies are put together
* `Prog.Safe.transcript` — what is shown of a body holds of its transcripts
-/

namespace AriOs.Async

/-! ### Runs in an environment -/

/-- What answers the calls of a run, from those made before. -/
abbrev Environment (I : Interface) := List (Entry I) → (o : I.Op) → I.Res o

/-- The discipline that promises nothing and records every call. -/
def Discipline.recording (I : Interface) : Discipline I (List (Entry I)) where
  upd h e := h ++ [e]
  pre _ _ := True
  adm _ _ := True

namespace Prog

variable {I : Interface} {α : Type}

/-- The calls of a run, after the calls `h`. -/
def transcript (env : Environment I) : Prog I α → List (Entry I) → List (Entry I)
  | .pure _, h => h
  | .call o k, h => (k (env h o)).transcript env (h ++ [⟨o, env h o⟩])

/-- What is shown of a body holds of its transcripts. -/
theorem Safe.transcript {post : List (Entry I) → α → Prop} {p : Prog I α} {h : List (Entry I)}
    (hp : p.Safe (.recording I) post h) (env : Environment I) :
    ∃ a, post (p.transcript env h) a := by
  induction p generalizing h with
  | pure a => exact ⟨a, hp⟩
  | call o k ih => exact ih (env h o) (hp.2 (env h o) trivial)

end Prog

/-! ### Local variables -/

/-- A body with local variables of type `σ`, which a throw does not undo. -/
abbrev Routine (I : Interface) (σ ε α : Type) := ExceptT ε (StateT σ (Prog I)) α

namespace Routine

variable {I : Interface} {V σ ε α β : Type} {D : Discipline I V}

/-- A call. -/
def ask (o : I.Op) : Routine I σ ε (I.Res o) :=
  ExceptT.mk fun s => .call o fun r => .pure (.ok r, s)

/-- The local variables. -/
def locals : Routine I σ ε σ := ExceptT.mk fun s => .pure (.ok s, s)

/-- Set the local variables. -/
def assign (f : σ → σ) : Routine I σ ε Unit := ExceptT.mk fun s => .pure (.ok (), f s)

/-- Code that makes no call. -/
def ofExcept (x : Except ε α) : Routine I σ ε α := ExceptT.mk fun s => .pure (x, s)

/-- The program of a body, from given local variables. -/
def prog (x : Routine I σ ε α) (s : σ) : Prog I (Except ε α × σ) := x.run.run s

/-- Every call keeps the promise; what the body returns satisfies `Q`, what it throws `E`. -/
def Ends (D : Discipline I V) (Q : V → σ → α → Prop) (E : V → σ → ε → Prop)
    (x : Routine I σ ε α) (v : V) (s : σ) : Prop :=
  Prog.Safe D (fun w r => match r.1 with
    | .ok a => Q w r.2 a
    | .error e => E w r.2 e) (x.prog s) v

section Ends

variable {Q Q' : V → σ → α → Prop} {E E' : V → σ → ε → Prop} {v : V} {s : σ}

theorem Ends.mono {x : Routine I σ ε α} (h : Ends D Q E x v s) (hQ : ∀ w t a, Q w t a → Q' w t a)
    (hE : ∀ w t e, E w t e → E' w t e) : Ends D Q' E' x v s := by
  refine Prog.Safe.mono h fun w r hr => ?_
  obtain ⟨a | e, t⟩ := r
  · exact hE _ _ _ hr
  · exact hQ _ _ _ hr

@[simp] theorem ends_pure {a : α} : Ends D Q E (pure a : Routine I σ ε α) v s ↔ Q v s a := Iff.rfl

@[simp] theorem ends_throw {e : ε} : Ends D Q E (throw e : Routine I σ ε α) v s ↔ E v s e := Iff.rfl

@[simp] theorem ends_locals {Q : V → σ → σ → Prop} :
    Ends D Q E (locals : Routine I σ ε σ) v s ↔ Q v s s := Iff.rfl

@[simp] theorem ends_assign {Q : V → σ → Unit → Prop} {f : σ → σ} :
    Ends D Q E (assign f : Routine I σ ε Unit) v s ↔ Q v (f s) () := Iff.rfl

@[simp] theorem ends_ask {o : I.Op} {Q : V → σ → I.Res o → Prop} :
    Ends D Q E (ask o : Routine I σ ε (I.Res o)) v s ↔
      D.pre v o ∧ ∀ r, D.adm v ⟨o, r⟩ → Q (D.upd v ⟨o, r⟩) s r := Iff.rfl

theorem ends_ofExcept {x : Except ε α} : Ends D Q E (ofExcept x : Routine I σ ε α) v s ↔
    (∀ a, x = .ok a → Q v s a) ∧ ∀ e, x = .error e → E v s e := by
  cases x with
  | ok a =>
    have hends : Ends D Q E (ofExcept (.ok a) : Routine I σ ε α) v s ↔ Q v s a := Iff.rfl
    simp [hends]
  | error e =>
    have hends : Ends D Q E (ofExcept (.error e) : Routine I σ ε α) v s ↔ E v s e := Iff.rfl
    simp [hends]

/-- A throw of the first part skips the second. -/
theorem ends_bind {Q : V → σ → β → Prop} {x : Routine I σ ε α} {f : α → Routine I σ ε β} :
    Ends D Q E (x >>= f) v s ↔ Ends D (fun w t a => Ends D Q E (f a) w t) E x v s := by
  change Prog.Safe D _ ((x.prog s).bind _) v ↔ _
  rw [Prog.safe_bind]
  constructor <;> intro h <;> refine Prog.Safe.mono h fun w r hr => ?_ <;>
    obtain ⟨e | a, t⟩ := r <;> exact hr

/-- A throw of the block goes to the handler, with the local variables as they are by then. -/
theorem ends_tryCatch {x : Routine I σ ε α} {onError : ε → Routine I σ ε α} :
    Ends D Q E (tryCatch x onError) v s ↔
      Ends D Q (fun w t e => Ends D Q E (onError e) w t) x v s := by
  change Prog.Safe D _ ((x.prog s).bind _) v ↔ _
  rw [Prog.safe_bind]
  constructor <;> intro h <;> refine Prog.Safe.mono h fun w r hr => ?_ <;>
    obtain ⟨e | a, t⟩ := r <;> exact hr

end Ends

/-! ### What is said of the calls alone -/

/-- From calls that satisfy `P`, the body returns with calls that satisfy `Q` and throws with calls
that satisfy `E`, whatever the local variables. -/
def Triple (D : Discipline I V) (P : V → Prop) (x : Routine I σ ε α) (Q : V → α → Prop)
    (E : V → Prop) : Prop :=
  ∀ v s, P v → Ends D (fun w _ a => Q w a) (fun w _ _ => E w) x v s

/-- A property of the calls stays, whatever becomes of the body. -/
abbrev Keeps (D : Discipline I V) (P : V → Prop) (x : Routine I σ ε α) : Prop :=
  Triple D P x (fun w _ => P w) P

variable {P E : V → Prop} {Q : V → α → Prop}

theorem Triple.bind {R : V → β → Prop} {x : Routine I σ ε α} {f : α → Routine I σ ε β}
    (hx : Triple D P x Q E) (hf : ∀ a, Triple D (fun v => Q v a) (f a) R E) :
    Triple D P (x >>= f) R E :=
  fun v s h => ends_bind.mpr ((hx v s h).mono (fun w t a hw => hf a w t hw) fun _ _ _ hw => hw)

theorem Triple.weaken {P' E' : V → Prop} {Q' : V → α → Prop} {x : Routine I σ ε α}
    (h : Triple D P x Q E) (hP : ∀ v, P' v → P v) (hQ : ∀ v a, Q v a → Q' v a)
    (hE : ∀ v, E v → E' v) : Triple D P' x Q' E' :=
  fun v s hv => (h v s (hP v hv)).mono (fun _ _ _ hw => hQ _ _ hw) fun _ _ _ hw => hE _ hw

theorem Triple.tryCatch {F : V → Prop} {x : Routine I σ ε α} {onError : ε → Routine I σ ε α}
    (hx : Triple D P x Q F) (hf : ∀ e, Triple D F (onError e) Q E) :
    Triple D P (tryCatch x onError) Q E :=
  fun v s h => ends_tryCatch.mpr ((hx v s h).mono (fun _ _ _ hw => hw) fun w t e hw => hf e w t hw)

theorem triple_throw (e : ε) : Triple D P (throw e : Routine I σ ε α) Q P := fun _ _ h => h

theorem keeps_pure (a : α) : Keeps D P (pure a : Routine I σ ε α) := fun _ _ h => h

theorem keeps_locals : Keeps D P (locals : Routine I σ ε σ) := fun _ _ h => h

theorem keeps_assign (f : σ → σ) : Keeps D P (assign f : Routine I σ ε Unit) := fun _ _ h => h

theorem keeps_ofExcept (x : Except ε α) : Keeps D P (ofExcept x : Routine I σ ε α) :=
  fun _ _ h => ends_ofExcept.mpr ⟨fun _ _ => h, fun _ _ => h⟩

theorem keeps_ask {o : I.Op} (h : ∀ v, P v → D.pre v o ∧ ∀ r, P (D.upd v ⟨o, r⟩)) :
    Keeps D P (ask o : Routine I σ ε (I.Res o)) :=
  fun v _ hv => ⟨(h v hv).1, fun r _ => (h v hv).2 r⟩

end Routine

end AriOs.Async
