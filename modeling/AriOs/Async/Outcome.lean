import AriOs.Async.Routine
import AriOs.Async.Solo

/-!
# What a body comes to

A body is run on a machine with no other body around. Of a run that returned one may ask how each
of its parts ended; and what a body comes to whose calls leave the state as it is, its parts come to
from that one state.

A body is written against the calls it makes. Code that makes other calls can still run it, once
each of its calls is answered by a program over those.

## Main definitions

* `Routine.Leads` — how some run of a body ends
* `Routine.Only` — all calls of a body are of one kind, and it has no local variables
* `Routine.outcome` — what a body comes to

## Main results

* `Routine.Leads.bind_ok`, `Routine.Leads.tryCatch_ok` — the parts of a run that returned
* `Routine.outcome_bind`, `Routine.outcome_tryCatch` — what the parts of a body come to
-/

namespace AriOs.Async

variable {I : Interface} {S σ ε α β : Type}

/-- A body whose calls leave the state as it is. -/
theorem Prog.Only.solo_eq {P : I.Op → Prop} {M : Machine I S} {ans : ∀ o, I.Ans o} {s : S}
    {p : Prog I α} (hp : p.Only P) (hread : ∀ o, P o → (M.handle o s (ans o)).2 = s) :
    p.solo M ans s = (p.answered fun o => (M.handle o s (ans o)).1, s) := by
  induction p with
  | pure a => rfl
  | call o k ih =>
    change (k _).solo M ans (M.handle o s (ans o)).2 = _
    rw [hread o hp.1, ih _ (hp.2 _)]
    rfl

theorem Prog.bind_assoc {γ : Type} (p : Prog I α) (f : α → Prog I β) (g : β → Prog I γ) :
    (p.bind f).bind g = p.bind fun a => (f a).bind g := by
  induction p with
  | pure a => rfl
  | call o k ih =>
    refine congrArg (Prog.call o) ?_
    funext r
    exact ih r

namespace Routine

/-! ### The two ways bodies are put together -/

/-- What follows a body: the second part, or the throw again. -/
def next (f : α → Routine I σ ε β) : Except ε α × σ → Prog I (Except ε β × σ)
  | (.ok a, l) => (f a).prog l
  | (.error e, l) => .pure (.error e, l)

/-- What follows a block: its value, or the handler. -/
def handled (onError : ε → Routine I σ ε α) : Except ε α × σ → Prog I (Except ε α × σ)
  | (.ok a, l) => .pure (.ok a, l)
  | (.error e, l) => (onError e).prog l

variable {x : Routine I σ ε α} {f : α → Routine I σ ε β} {onError : ε → Routine I σ ε α}
  {l l' : σ}

theorem prog_bind : (x >>= f).prog l = (x.prog l).bind (next f) := by
  change (x.prog l).bind _ = _
  congr
  funext r
  obtain ⟨r, l'⟩ := r
  cases r <;> rfl

theorem prog_tryCatch : (tryCatch x onError : Routine I σ ε α).prog l =
    (x.prog l).bind (handled onError) := by
  change (x.prog l).bind _ = _
  congr
  funext r
  obtain ⟨r, l'⟩ := r
  cases r <;> rfl

/-! ### How a run ends -/

section Leads

variable {M : Machine I S} {s s' : S} {a : α} {b : β}

/-- Some run from local variables `l` and a state `s` ends in `r`, with `l'` and `s'`. -/
def Leads (M : Machine I S) (x : Routine I σ ε α) (l : σ) (s : S) (r : Except ε α) (l' : σ)
    (s' : S) : Prop :=
  ∃ env n n', (x.prog l).exec M env n s = ((r, l'), n', s')

theorem Leads.bind_ok (h : (x >>= f).Leads M l s (.ok b) l' s') :
    ∃ a l₁ s₁, x.Leads M l s (.ok a) l₁ s₁ ∧ (f a).Leads M l₁ s₁ (.ok b) l' s' := by
  obtain ⟨env, n, n', h⟩ := h
  rw [prog_bind, Prog.exec_bind] at h
  cases hx : (x.prog l).exec M env n s with
  | mk r rest =>
    obtain ⟨r, l₁⟩ := r
    obtain ⟨n₁, s₁⟩ := rest
    rw [hx] at h
    cases r with
    | error e => simp [next] at h
    | ok a => exact ⟨a, l₁, s₁, ⟨env, n, n₁, hx⟩, env, n₁, n', h⟩

theorem Leads.tryCatch_ok (h : (tryCatch x onError : Routine I σ ε α).Leads M l s (.ok a) l' s') :
    x.Leads M l s (.ok a) l' s' ∨ ∃ e l₁ s₁, x.Leads M l s (.error e) l₁ s₁ ∧
      (onError e).Leads M l₁ s₁ (.ok a) l' s' := by
  obtain ⟨env, n, n', h⟩ := h
  rw [prog_tryCatch, Prog.exec_bind] at h
  cases hx : (x.prog l).exec M env n s with
  | mk r rest =>
    obtain ⟨r, l₁⟩ := r
    obtain ⟨n₁, s₁⟩ := rest
    rw [hx] at h
    cases r with
    | error e => exact .inr ⟨e, l₁, s₁, ⟨env, n, n₁, hx⟩, env, n₁, n', h⟩
    | ok a' =>
      simp only [handled, Prog.exec_pure, Prod.mk.injEq, Except.ok.injEq] at h
      obtain ⟨⟨rfl, rfl⟩, rfl, rfl⟩ := h
      exact .inl ⟨env, n, n₁, hx⟩

theorem Leads.ask {o : I.Op} {r : I.Res o}
    (h : (Routine.ask o : Routine I σ ε (I.Res o)).Leads M l s (.ok r) l' s') :
    ∃ x, M.handle o s x = (r, s') := by
  obtain ⟨env, n, n', h⟩ := h
  simp only [prog, Routine.ask, ExceptT.run_mk, StateT.run, Prog.exec_call, Prog.exec_pure,
    Prod.mk.injEq, Except.ok.injEq] at h
  exact ⟨env n o, Prod.ext h.1.1 h.2.2⟩

theorem Leads.ofExcept {y : Except ε α}
    (h : (Routine.ofExcept y : Routine I σ ε α).Leads M l s (.ok a) l' s') : y = .ok a ∧ s' = s := by
  obtain ⟨env, n, n', h⟩ := h
  cases h
  exact ⟨rfl, rfl⟩

theorem Leads.pure {a' : α} (h : (Pure.pure a : Routine I σ ε α).Leads M l s (.ok a') l' s') :
    a' = a ∧ s' = s := by
  obtain ⟨env, n, n', h⟩ := h
  cases h
  exact ⟨rfl, rfl⟩

theorem Leads.throw {e : ε} : ¬ (throw e : Routine I σ ε α).Leads M l s (.ok a) l' s' := by
  rintro ⟨env, n, n', h⟩
  cases h

theorem Leads.assign {g : σ → σ} {u : Unit}
    (h : (Routine.assign g : Routine I σ ε Unit).Leads M l s (.ok u) l' s') : s' = s := by
  obtain ⟨env, n, n', h⟩ := h
  cases h
  rfl

end Leads

/-! ### Bodies that only look -/

section Only

variable {P : I.Op → Prop} {M : Machine I S}

/-- Every call the body can make is of the kind `P`, and the local variables are left alone. -/
def Only (P : I.Op → Prop) (x : Routine I σ ε α) : Prop :=
  ∃ p : Prog I (Except ε α), p.Only P ∧ ∀ l, x.prog l = p.bind fun r => .pure (r, l)

theorem only_pure (a : α) : Only P (Pure.pure a : Routine I σ ε α) :=
  ⟨.pure (.ok a), trivial, fun _ => rfl⟩

theorem only_throw (e : ε) : Only P (throw e : Routine I σ ε α) :=
  ⟨.pure (.error e), trivial, fun _ => rfl⟩

theorem only_ofExcept (y : Except ε α) : Only P (Routine.ofExcept y : Routine I σ ε α) :=
  ⟨.pure y, trivial, fun _ => rfl⟩

theorem only_ask {o : I.Op} (h : P o) : Only P (Routine.ask o : Routine I σ ε (I.Res o)) :=
  ⟨.call o fun r => .pure (.ok r), ⟨h, fun _ => trivial⟩, fun _ => rfl⟩

theorem Only.bind (hx : Only P x) (hf : ∀ a, Only P (f a)) : Only P (x >>= f) := by
  obtain ⟨p, hp, hprog⟩ := hx
  choose q hq hprogs using hf
  refine ⟨p.bind fun r => r.rec (fun e => .pure (.error e)) q, Prog.Only.bind hp fun r => ?_,
    fun l => ?_⟩
  · cases r with
    | ok a => exact hq a
    | error e => trivial
  · rw [prog_bind, hprog, Prog.bind_assoc, Prog.bind_assoc]
    congr
    funext r
    cases r with
    | ok a => exact hprogs a l
    | error e => rfl

theorem Only.tryCatch (hx : Only P x) (hf : ∀ e, Only P (onError e)) :
    Only P (tryCatch x onError : Routine I σ ε α) := by
  obtain ⟨p, hp, hprog⟩ := hx
  choose q hq hprogs using hf
  refine ⟨p.bind fun r => r.rec q fun a => .pure (.ok a), Prog.Only.bind hp fun r => ?_,
    fun l => ?_⟩
  · cases r with
    | ok a => trivial
    | error e => exact hq e
  · rw [prog_tryCatch, hprog, Prog.bind_assoc, Prog.bind_assoc]
    congr
    funext r
    cases r with
    | ok a => rfl
    | error e => exact hprogs e l

/-- A run of a body whose calls leave the state as it is. -/
theorem Only.leads (hx : Only P x) (hread : ∀ o, P o → ∀ s a, (M.handle o s a).2 = s) {s s' : S}
    {r : Except ε α} (h : x.Leads M l s r l' s') : s' = s := by
  obtain ⟨env, n, n', h⟩ := h
  obtain ⟨p, hp, hprog⟩ := hx
  have hstate : ∀ (p : Prog I (Except ε α)) (n : Nat) (s : S), p.Only P →
      (p.exec M env n s).2.2 = s := by
    intro p
    induction p with
    | pure a => exact fun _ _ _ => rfl
    | call o k ih =>
      intro n s hp
      rw [Prog.exec_call, ih _ _ _ (hp.2 _)]
      exact hread o hp.1 s _
  rw [hprog, Prog.exec_bind, Prog.exec_pure] at h
  simp only [Prod.mk.injEq] at h
  rw [← h.2.2]
  exact hstate p n s hp

/-! ### What a body comes to -/

variable {ans : ∀ o, I.Ans o} {s : S} {a : α}

/-- What a body comes to in an environment that answers every call of a kind alike. -/
def outcome (M : Machine I S) (ans : ∀ o, I.Ans o) (x : Routine I σ ε α) (l : σ) (s : S) :
    Except ε α :=
  ((x.prog l).solo M ans s).1.1

/-- A body that only looks ends where it began. -/
theorem Only.solo (hx : Only P x) (hread : ∀ o, P o → (M.handle o s (ans o)).2 = s) :
    (x.prog l).solo M ans s = ((outcome M ans x l s, l), s) := by
  obtain ⟨p, hp, hprog⟩ := hx
  rw [outcome, hprog, Prog.solo_bind, hp.solo_eq hread]
  rfl

theorem outcome_bind (hx : Only P x) (hread : ∀ o, P o → (M.handle o s (ans o)).2 = s) :
    outcome M ans (x >>= f) l s = outcome M ans x l s >>= fun a => outcome M ans (f a) l s := by
  rw [outcome, prog_bind, Prog.solo_bind, hx.solo hread]
  cases outcome M ans x l s <;> rfl

theorem outcome_tryCatch (hx : Only P x) (hread : ∀ o, P o → (M.handle o s (ans o)).2 = s) :
    outcome M ans (tryCatch x onError : Routine I σ ε α) l s =
      tryCatch (outcome M ans x l s) fun e => outcome M ans (onError e) l s := by
  rw [outcome, prog_tryCatch, Prog.solo_bind, hx.solo hread]
  cases outcome M ans x l s <;> rfl

@[simp] theorem outcome_pure : outcome M ans (Pure.pure a : Routine I σ ε α) l s = .ok a := rfl

@[simp] theorem outcome_throw {e : ε} :
    outcome M ans (throw e : Routine I σ ε α) l s = .error e := rfl

@[simp] theorem outcome_ofExcept {y : Except ε α} :
    outcome M ans (Routine.ofExcept y : Routine I σ ε α) l s = y := rfl

@[simp] theorem outcome_ask {o : I.Op} :
    outcome M ans (Routine.ask o : Routine I σ ε (I.Res o)) l s = .ok (M.handle o s (ans o)).1 := rfl

end Only

end Routine

/-! ### A body among other calls -/

section Interpret

variable {I J : Interface} {α β ε : Type}

/-- A body, with each of its calls answered by a program. -/
def Prog.interpret (f : ∀ o, Prog J (I.Res o)) : Prog I α → Prog J α
  | .pure a => .pure a
  | .call o k => (f o).bind fun r => (k r).interpret f

variable {f : ∀ o, Prog J (I.Res o)}

/-- A body that may throw, with each of its calls answered by a program. -/
def Task.interpret (f : ∀ o, Prog J (I.Res o)) (x : Task I ε α) : Task J ε α :=
  ExceptT.mk (x.run.interpret f)

end Interpret

end AriOs.Async
