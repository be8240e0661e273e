import AriOs.Async.Slots
import Mathlib.Data.List.Induction

/-!
# Runs of a transition function

A system whose state changes with one event at a time. Where the bodies of `AriOs.Async.Pool`
are too coarse or too fine, a component is given by such a function directly.

## Main results

* `throughout_of_step` — what every event keeps holds throughout
* `throughout_iff_meets` — where breaking the condition breaks the property, the two are the same
-/

namespace AriOs.Async.Transition

variable {σ ε : Type}

/-- A run. -/
def run (step : σ → ε → σ) (s : σ) (es : List ε) : σ := es.foldl step s

/-- Every event of the run meets `cond` in the state it finds. -/
def Meets (step : σ → ε → σ) (cond : σ → ε → Prop) : σ → List ε → Prop
  | _, [] => True
  | s, e :: es => cond s e ∧ Meets step cond (step s e) es

/-- Every state of the run, the first one included, is as `P` says. -/
def Throughout (step : σ → ε → σ) (P : σ → Prop) (s : σ) (es : List ε) : Prop :=
  ∀ before after, es = before ++ after → P (run step s before)

variable {step : σ → ε → σ} {s : σ} {es es' : List ε} {e : ε}

@[simp] theorem run_nil : run step s [] = s := rfl

@[simp] theorem run_cons : run step s (e :: es) = run step (step s e) es := rfl

theorem run_append : run step s (es ++ es') = run step (run step s es) es' := by
  simp [run]

theorem run_append_singleton : run step s (es ++ [e]) = step (run step s es) e := run_append

instance decidableMeets {cond : σ → ε → Prop} [∀ s e, Decidable (cond s e)] :
    ∀ (s : σ) (es : List ε), Decidable (Meets step cond s es)
  | _, [] => isTrue trivial
  | s, e :: es =>
    haveI : Decidable (Meets step cond (step s e) es) := decidableMeets _ es
    inferInstanceAs (Decidable (cond s e ∧ Meets step cond (step s e) es))

theorem meets_append {cond : σ → ε → Prop} :
    Meets step cond s (es ++ es') ↔ Meets step cond s es ∧ Meets step cond (run step s es) es' := by
  induction es generalizing s with
  | nil => simp [Meets]
  | cons e es ih => simp only [List.cons_append, Meets, ih, run_cons, and_assoc]

theorem meets_append_singleton {cond : σ → ε → Prop} :
    Meets step cond s (es ++ [e]) ↔ Meets step cond s es ∧ cond (run step s es) e := by
  simp [meets_append, Meets]

/-- A condition on the events alone. -/
theorem meets_of_mem {cond : ε → Prop} (h : ∀ e ∈ es, cond e) :
    Meets step (fun _ e => cond e) s es := by
  induction es generalizing s with
  | nil => trivial
  | cons e es ih =>
    exact ⟨h e List.mem_cons_self, ih fun e' he' => h e' (List.mem_cons_of_mem e he')⟩

/-- A run meets a condition if every event does, in the state left by those before it. -/
theorem meets_iff_forall_split {cond : σ → ε → Prop} : Meets step cond s es ↔
    ∀ before e after, es = before ++ e :: after → cond (run step s before) e := by
  constructor
  · rintro h before e after rfl
    exact (meets_append.mp h).2.1
  · intro h
    induction es generalizing s with
    | nil => trivial
    | cons e es ih =>
      refine ⟨h [] e es rfl, ih fun before e' after heq => ?_⟩
      exact h (e :: before) e' after (by rw [heq, List.cons_append])

/-- A property kept by every event of a run that meets `cond` holds at its end. -/
theorem run_induction {P : σ → Prop} {cond : σ → ε → Prop}
    (hstep : ∀ s e, P s → cond s e → P (step s e)) (hmeets : Meets step cond s es) (hs : P s) :
    P (run step s es) := by
  induction es generalizing s with
  | nil => exact hs
  | cons e es ih => exact ih hmeets.2 (hstep s e hs hmeets.1)

/-- A property kept by every event holds at the end of every run. -/
theorem run_invariant {P : σ → Prop} (hstep : ∀ s e, P s → P (step s e)) (hs : P s) :
    P (run step s es) := by
  induction es generalizing s with
  | nil => exact hs
  | cons e es ih => exact ih (hstep s e hs)

/-- A property kept by every event holds in each state of every run. -/
theorem throughout_of_invariant {P : σ → Prop} (hstep : ∀ s e, P s → P (step s e)) (hs : P s) :
    Throughout step P s es := by
  rintro before after rfl
  exact run_invariant hstep hs

/-- A property kept by every event of a run that meets `cond` holds in each of its states. -/
theorem throughout_of_step {P : σ → Prop} {cond : σ → ε → Prop}
    (hstep : ∀ s e, P s → cond s e → P (step s e)) (hmeets : Meets step cond s es) (hs : P s) :
    Throughout step P s es := by
  rintro before after rfl
  exact run_induction hstep (meets_append.mp hmeets).1 hs

@[simp] theorem throughout_nil {P : σ → Prop} : Throughout step P s [] ↔ P s := by
  constructor
  · intro h
    exact h [] [] rfl
  · intro h before after heq
    rw [(List.append_eq_nil_iff.mp heq.symm).1]
    exact h

theorem throughout_cons {P : σ → Prop} :
    Throughout step P s (e :: es) ↔ P s ∧ Throughout step P (step s e) es := by
  constructor
  · intro h
    refine ⟨h [] (e :: es) rfl, fun before after heq => h (e :: before) after ?_⟩
    rw [heq, List.cons_append]
  · rintro ⟨hs, h⟩ before after heq
    cases before with
    | nil => exact hs
    | cons e' before =>
      obtain ⟨rfl, htail⟩ := List.cons.inj heq
      exact h before after htail

theorem Throughout.imp {P Q : σ → Prop} (h : Throughout step P s es) (himp : ∀ s, P s → Q s) :
    Throughout step Q s es :=
  fun before after heq => himp _ (h before after heq)

/-- Where the property is what the invariant says, and an event that does not meet `cond` breaks
it, the property holds in each state of a run iff every event meets `cond`. -/
theorem throughout_iff_meets {P I : σ → Prop} {cond : σ → ε → Prop} (hinv : ∀ s, I s → P s)
    (hstep : ∀ s e, I s → cond s e → I (step s e))
    (hbreak : ∀ s e, I s → ¬cond s e → ¬P (step s e)) (hs : I s) :
    Throughout step P s es ↔ Meets step cond s es := by
  refine ⟨fun h => ?_, fun h => (throughout_of_step hstep h hs).imp hinv⟩
  induction es generalizing s with
  | nil => trivial
  | cons e es ih =>
    have hcond : cond s e := by
      by_contra hnot
      exact hbreak s e hs hnot (h [e] es rfl)
    refine ⟨hcond, ih (hstep s e hs hcond) ?_⟩
    rintro before after rfl
    exact h (e :: before) after rfl

end AriOs.Async.Transition
