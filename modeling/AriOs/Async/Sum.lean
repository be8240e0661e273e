import AriOs.Async.Pool

/-!
# Programs of two interfaces

A body written against one interface also runs where more calls can be made. What is shown of
the body alone is then shown of it there: the larger discipline, read on the calls of the
smaller interface, is a discipline of the smaller one.

## Main results

* `Task.returns_inl`, `Task.exec_inl` — what holds of the body alone
-/

namespace AriOs.Async

variable {I J : Interface} {σ V α ε : Type}

/-- The calls of both interfaces. -/
def Interface.sum (I J : Interface) : Interface :=
  ⟨I.Op ⊕ J.Op, Sum.elim I.Ans J.Ans, Sum.elim I.Res J.Res⟩

/-- The calls of both interfaces, on one shared state. -/
def Machine.sum (M : Machine I σ) (N : Machine J σ) : Machine (I.sum J) σ where
  handle
    | .inl o, s, a => M.handle o s a
    | .inr o, s, a => N.handle o s a

/-- A call of the first interface, among those of both. -/
def Entry.inl (J : Interface) (e : Entry I) : Entry (I.sum J) := ⟨.inl e.op, e.res⟩

/-- A body of the first interface, among the calls of both. -/
def Prog.inl (J : Interface) : Prog I α → Prog (I.sum J) α
  | .pure a => .pure a
  | .call o k => .call (I := I.sum J) (.inl o) fun r => (k r).inl J

/-- A body of the first interface, among the calls of both. -/
def Task.inl (J : Interface) (x : Task I ε α) : Task (I.sum J) ε α := ExceptT.mk (x.run.inl J)

/-- A discipline, read on the calls of the first interface. -/
def Discipline.left (D : Discipline (I.sum J) V) : Discipline I V where
  upd v e := D.upd v (e.inl J)
  pre v o := D.pre v (.inl o)
  adm v e := D.adm v (e.inl J)

variable {D : Discipline (I.sum J) V}

theorem Prog.safe_inl {post : V → α → Prop} {p : Prog I α} {v : V} :
    (p.inl J).Safe D post v ↔ p.Safe D.left post v := by
  induction p generalizing v with
  | pure a => rfl
  | call o k ih => exact and_congr_right fun _ => forall_congr' fun r => imp_congr_right fun _ => ih r

theorem Task.returns_inl {Q : V → α → Prop} {x : Task I ε α} {v : V} :
    Task.Returns D Q (x.inl J) v ↔ Task.Returns D.left Q x v := Prog.safe_inl

/-- Run alone, a body of the first interface does what it does there. -/
theorem Task.exec_inl {M : Machine I σ} {N : Machine J σ} {env : Nat → ∀ o, (I.sum J).Ans o}
    {x : Task I ε α} {n : Nat} {s : σ} :
    (x.inl J).run.exec (M.sum N) env n s = x.run.exec M (fun n o => env n (.inl o)) n s := by
  have hprog : ∀ (p : Prog I (Except ε α)) (n : Nat) (s : σ),
      (p.inl J).exec (M.sum N) env n s = p.exec M (fun n o => env n (.inl o)) n s := by
    intro p
    induction p with
    | pure a => exact fun n s => rfl
    | call o k ih => exact fun n s => ih _ _ _
  exact hprog x.run n s

end AriOs.Async
