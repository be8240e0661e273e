import AriOs.Async.Pool

/-!
# A body that nothing comes between

A body runs to its end, with no other body around, in an environment that always contributes the
same to a call of the same kind. What it ends in is then a function of the state it starts from,
which can be computed along the sequence of its parts.

## Main definitions

* `Task.solo` — what a body ends in, and the state it leaves

## Main results

* `Task.solo_bind`, `Task.solo_orCatch` — sequences and blocks that catch
-/

namespace AriOs.Async

variable {I : Interface} {σ α β ε : Type}

/-- Run a body to its end. -/
def Prog.solo (M : Machine I σ) (ans : ∀ o, I.Ans o) : Prog I α → σ → α × σ
  | .pure a, s => (a, s)
  | .call o k, s => (k (M.handle o s (ans o)).1).solo M ans (M.handle o s (ans o)).2

theorem Prog.solo_bind (M : Machine I σ) (ans : ∀ o, I.Ans o) (p : Prog I α) (f : α → Prog I β)
    (s : σ) : (p.bind f).solo M ans s = (f (p.solo M ans s).1).solo M ans (p.solo M ans s).2 := by
  induction p generalizing s with
  | pure a => rfl
  | call o k ih => exact ih _ _

namespace Task

/-- Run a body that may throw to its end. -/
def solo (M : Machine I σ) (ans : ∀ o, I.Ans o) (x : Task I ε α) (s : σ) : Except ε α × σ :=
  x.run.solo M ans s

variable {M : Machine I σ} {ans : ∀ o, I.Ans o} {s s' : σ}

@[simp] theorem solo_pure (a : α) : (Pure.pure a : Task I ε α).solo M ans s = (.ok a, s) := rfl

@[simp] theorem solo_throw (e : ε) : (throw e : Task I ε α).solo M ans s = (.error e, s) := rfl

@[simp] theorem solo_ofExcept (x : Except ε α) : (ofExcept x).solo M ans s = (x, s) := rfl

@[simp] theorem solo_total (o : I.Op) : (total o : Task I ε (I.Res o)).solo M ans s =
    (.ok (M.handle o s (ans o)).1, (M.handle o s (ans o)).2) := rfl

/-- A throw of the first part skips the second. -/
theorem solo_bind (x : Task I ε α) (f : α → Task I ε β) :
    (x >>= f).solo M ans s =
      match x.solo M ans s with
      | (.ok a, s') => (f a).solo M ans s'
      | (.error e, s') => (.error e, s') := by
  unfold solo
  rw [ExceptT.run_bind, Prog.bind_eq, Prog.solo_bind]
  obtain ⟨r, s'⟩ := x.run.solo M ans s
  cases r <;> rfl

/-- A throw of the first part goes to the handler. -/
theorem solo_orCatch (x : Task I ε α) (onError : ε → Task I ε β) (next : α → Task I ε β) :
    (x.orCatch onError next).solo M ans s =
      match x.solo M ans s with
      | (.ok a, s') => (next a).solo M ans s'
      | (.error e, s') => (onError e).solo M ans s' := by
  unfold solo orCatch
  rw [ExceptT.run_mk, Prog.solo_bind]
  obtain ⟨r, s'⟩ := x.run.solo M ans s
  cases r <;> rfl

theorem solo_bind_of_ok {x : Task I ε α} {f : α → Task I ε β} {a : α}
    (h : x.solo M ans s = (.ok a, s')) : (x >>= f).solo M ans s = (f a).solo M ans s' := by
  rw [solo_bind, h]

theorem solo_bind_of_error {x : Task I ε α} {f : α → Task I ε β} {e : ε}
    (h : x.solo M ans s = (.error e, s')) : (x >>= f).solo M ans s = (.error e, s') := by
  rw [solo_bind, h]

end Task

end AriOs.Async
