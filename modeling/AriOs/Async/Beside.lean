import AriOs.Async.Pool
import AriOs.Async.Transition

/-!
# Bodies beside another component

Bodies interleave on a shared state, and beside them runs a component with a state and events of its
own, which works out some of the answers that are otherwise left to the environment.

## Main definitions

* `Beside.step` — one of the bodies moves, or the component

## Main results

* `Transition.exists_step_of_not` — the event that ends what held at first
* `Beside.coherent_run` — what the bodies keep, they keep beside the component
* `Beside.other_run` — the component is run by its own events
* `Beside.exists_step_of_mem_history` — the state of the component that a body was answered in
-/

namespace AriOs.Async

/-- What holds at first and not at the end, one of the events ends. -/
theorem Transition.exists_step_of_not {σ ε : Type} {step : σ → ε → σ} {s : σ} {es : List ε}
    {Q : σ → Prop} (hs : Q s) (h : ¬ Q (run step s es)) :
    ∃ before e after, es = before ++ e :: after ∧ Q (run step s before) ∧
      ¬ Q (run step s (before ++ [e])) := by
  induction es using List.reverseRecOn with
  | nil => exact absurd hs h
  | append_singleton es e ih =>
    by_cases hQ : Q (run step s es)
    · exact ⟨es, e, [], rfl, hQ, h⟩
    · obtain ⟨before, e', after, rfl, hbefore⟩ := ih hQ
      exact ⟨before, e', after ++ [e], by simp, hbefore⟩

variable {I : Interface} {σ ρ α κ ε V : Type} {M : Machine I σ} {body : ρ → Prog I α}

/-- A pool of bodies, and a component beside it. -/
structure Beside (I : Interface) (σ ρ α κ : Type) where
  pool : Pool I σ ρ α
  other : κ

namespace Beside

/-- One of the bodies moves, or the component. -/
inductive Event (I : Interface) (ρ ε : Type) where
  | pool (e : Async.Event I ρ)
  | other (e : ε)

variable (M body) (answers : κ → (∀ o, I.Ans o) → ∀ o, I.Ans o) (stepOther : κ → ε → κ)

/-- The event of a body, with the answers that the component works out. -/
def answered (k : κ) : Async.Event I ρ → Async.Event I ρ
  | .step t ans => .step t (answers k ans)
  | .spawn r => .spawn r
  | .kill t => .kill t

def step (s : Beside I σ ρ α κ) : Event I ρ ε → Beside I σ ρ α κ
  | .pool e => { s with pool := s.pool.apply M body (answered answers s.other e) }
  | .other e => { s with other := stepOther s.other e }

/-- The event of the component that an event is. -/
def otherEvent : Event I ρ ε → Option ε
  | .pool _ => none
  | .other e => some e

variable {M body answers stepOther} {s : Beside I σ ρ α κ} {es : List (Event I ρ ε)}

/-- What the bodies keep, whatever they are answered, they keep beside the component. -/
theorem coherent_run {D : Discipline I V} {start : ρ → V} {post : V → α → Prop} {J : σ → Prop}
    {R : σ → V → Prop} {P : V → V → Prop}
    (hm : Modular M body D start post J R P fun _ _ => True)
    (hs : Coherent D start post J R P s.pool) :
    Coherent D start post J R P (Transition.run (step M body answers stepOther) s es).pool := by
  refine Transition.run_invariant (P := fun s : Beside I σ ρ α κ =>
    Coherent D start post J R P s.pool) (fun s e hs => ?_) hs
  cases e with
  | other e => exact hs
  | pool e =>
    cases e with
    | spawn r => exact hm.coherent_spawn hs trivial
    | step t ans => exact hm.coherent_step hs trivial
    | kill t => exact Modular.coherent_kill hs

/-- Seen alone, the component is run by its own events. -/
theorem other_run : (Transition.run (step M body answers stepOther) s es).other =
    Transition.run stepOther s.other (es.filterMap otherEvent) := by
  induction es generalizing s with
  | nil => rfl
  | cons e es ih =>
    rw [Transition.run_cons, ih]
    cases e <;> rfl

/-- What a body was answered, it was answered in some state of the run. -/
theorem exists_step_of_mem_history {t : Nat} {c : Call I ρ α} {entry : Entry I}
    (hs : s.pool.calls = [])
    (hc : (Transition.run (step M body answers stepOther) s es).pool.calls[t]? = some c)
    (hentry : entry ∈ c.history) :
    ∃ before ans after, es = before ++ .pool (.step t ans) :: after ∧
      (Transition.run (step M body answers stepOther) s before).pool.next? t = some entry.op ∧
      entry.res = (M.handle entry.op
        (Transition.run (step M body answers stepOther) s before).pool.shared
        (answers (Transition.run (step M body answers stepOther) s before).other ans entry.op)).1 := by
  induction es using List.reverseRecOn generalizing c with
  | nil => simp [hs] at hc
  | append_singleton es e ih =>
    have hearlier {d : Call I ρ α}
        (hd : (Transition.run (step M body answers stepOther) s es).pool.calls[t]? = some d)
        (hmem : entry ∈ d.history) : ∃ before ans after,
        es ++ [e] = before ++ .pool (.step t ans) :: after ∧
        (Transition.run (step M body answers stepOther) s before).pool.next? t = some entry.op ∧
        entry.res = (M.handle entry.op
          (Transition.run (step M body answers stepOther) s before).pool.shared
          (answers (Transition.run (step M body answers stepOther) s before).other ans
            entry.op)).1 := by
      obtain ⟨before, ans, after, rfl, h⟩ := ih hd hmem
      exact ⟨before, ans, after ++ [e], by simp, h⟩
    rw [Transition.run_append_singleton] at hc
    generalize hrun : Transition.run (step M body answers stepOther) s es = w at hc hearlier
    cases e with
    | other e => exact hearlier hc hentry
    | pool e =>
      cases e with
      | spawn r =>
        rcases getElem?_append_singleton_cases hc with ⟨-, rfl⟩ | hc
        · cases hentry
        · exact hearlier hc hentry
      | kill u =>
        obtain ⟨d, hd, -, hhistory, -⟩ := Pool.getElem?_kill hc
        exact hearlier hd (hhistory ▸ hentry)
      | step u ans =>
        rcases Pool.step_cases (M := M) w.pool u (answers w.other ans) with
          heq | ⟨d, o, k, hd, hrest, heq⟩
        · exact hearlier (heq ▸ hc) hentry
        · replace hc := (congrArg (fun p => p.calls[t]?) heq).symm.trans hc
          rcases getElem?_set_cases hc with ⟨rfl, rfl⟩ | ⟨-, hc⟩
          · rcases List.mem_append.mp hentry with hmem | hmem
            · exact hearlier hd hmem
            · obtain rfl := List.mem_singleton.mp hmem
              subst hrun
              exact ⟨es, ans, [], rfl, Pool.next?_eq hd hrest, rfl⟩
          · exact hearlier hc hentry

end Beside

end AriOs.Async
