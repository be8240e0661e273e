import AriOs.Async.Pool
import Mathlib.Data.List.Forall2

/-!
# Runs of two machines side by side

One set of programs runs against a machine that does what the code does, another against a
machine that says what it is for. Both make the same calls, but may be answered differently; a
relation says which answers count as the same. Where the programs correspond, and every call
that is made is answered the same by both machines, whole runs correspond: the shared states are
related, and whatever a program ends in, its partner ends in the same.

## Main definitions

* `Prog.Corresponds`, `Task.Corresponds` — two programs make the same calls as long as they are
  answered the same

## Main results

* `Pool.corresponds_apply` — one event
* `Pool.corresponds_run` — a whole run
-/

namespace AriOs.Async

variable {I : Interface} {α β ρ σ τ : Type}

/-- The same calls, with other answers for the programs. -/
abbrev Interface.returning (I : Interface) (Res' : I.Op → Type) : Interface := ⟨I.Op, I.Ans, Res'⟩

variable {Res' : I.Op → Type}

/-- The same event, for programs that are answered differently. -/
def Event.returning (Res' : I.Op → Type) : Event I ρ → Event (I.returning Res') ρ
  | .spawn r => .spawn r
  | .step t ans => .step t ans
  | .kill t => .kill t

/-- Two programs make the same calls, and end in related values, as long as related answers are
given to both. -/
inductive Prog.Corresponds (R : ∀ o, I.Res o → Res' o → Prop) (Q : α → β → Prop) :
    Prog I α → Prog (I.returning Res') β → Prop
  | pure {a : α} {b : β} (h : Q a b) : Corresponds R Q (.pure a) (.pure b)
  | call (o : I.Op) {k : I.Res o → Prog I α} {k' : Res' o → Prog (I.returning Res') β}
      (h : ∀ r r', R o r r' → Corresponds R Q (k r) (k' r')) :
      Corresponds R Q (.call o k) (.call (I := I.returning Res') o k')

namespace Prog.Corresponds

variable {α' β' : Type} {R : ∀ o, I.Res o → Res' o → Prop} {Q : α → β → Prop} {Q' : α' → β' → Prop}

/-- Programs in sequence correspond if their parts do. -/
theorem bind {p : Prog I α} {q : Prog (I.returning Res') β} {f : α → Prog I α'}
    {g : β → Prog (I.returning Res') β'} (h : Corresponds R Q p q)
    (hnext : ∀ a b, Q a b → Corresponds R Q' (f a) (g b)) :
    Corresponds R Q' (p.bind f) (q.bind g) := by
  induction h with
  | pure hq => exact hnext _ _ hq
  | call o _ ih => exact .call o fun r r' hr => ih r r' hr

end Prog.Corresponds

/-- Both throw the same, or both return and what they return is related. -/
def SameOutcome {ε : Type} (S : α → β → Prop) : Except ε α → Except ε β → Prop
  | .ok a, .ok b => S a b
  | .error e, .error e' => e = e'
  | _, _ => False

namespace Task

variable {ε α' β' : Type} {R : ∀ o, I.Res o → Res' o → Prop} {S : α → β → Prop}
  {S' : α' → β' → Prop}

/-- Two bodies make the same calls, and throw the same or return what is related. -/
def Corresponds (R : ∀ o, I.Res o → Res' o → Prop) (S : α → β → Prop) (x : Task I ε α)
    (y : Task (I.returning Res') ε β) : Prop := Prog.Corresponds R (SameOutcome S) x.run y.run

theorem corresponds_pure {a : α} {b : β} (h : S a b) :
    Corresponds R S (pure a : Task I ε α) (pure b) := .pure h

theorem corresponds_ofExcept {x : Except ε α} {y : Except ε β} (h : SameOutcome S x y) :
    Corresponds R S (ofExcept x : Task I ε α) (ofExcept y) := .pure h

theorem corresponds_total (o : I.Op) :
    Corresponds R (R o) (total o : Task I ε (I.Res o)) (total (I := I.returning Res') o) :=
  .call o fun _ _ hr => .pure hr

/-- A throw of the first parts skips the second. -/
theorem corresponds_bind {x : Task I ε α} {y : Task (I.returning Res') ε β} {f : α → Task I ε α'}
    {g : β → Task (I.returning Res') ε β'} (h : Corresponds R S x y)
    (hnext : ∀ a b, S a b → Corresponds R S' (f a) (g b)) :
    Corresponds R S' (x >>= f) (y >>= g) := by
  refine Prog.Corresponds.bind h fun r r' hr => ?_
  cases r with
  | ok a =>
    cases r' with
    | ok b => exact hnext a b hr
    | error e => exact hr.elim
  | error e =>
    cases r' with
    | ok b => exact hr.elim
    | error e' => exact .pure hr

theorem corresponds_map {x : Task I ε α} {y : Task (I.returning Res') ε β} {f : α → α'}
    {g : β → β'} (h : Corresponds R S x y) (hfg : ∀ a b, S a b → S' (f a) (g b)) :
    Corresponds R S' (f <$> x) (g <$> y) := by
  refine Prog.Corresponds.bind h fun r r' hr => ?_
  cases r with
  | ok a =>
    cases r' with
    | ok b => exact .pure (hfg a b hr)
    | error e => exact hr.elim
  | error e =>
    cases r' with
    | ok b => exact hr.elim
    | error e' => exact .pure hr

end Task

/-- A call is answered the same by both machines, and keeps their states related. -/
def Machine.Matches (M : Machine I σ) (N : Machine (I.returning Res') τ)
    (R : ∀ o, I.Res o → Res' o → Prop) (rel : σ → τ → Prop) (o : I.Op) (a : I.Ans o) (s : σ) :
    Prop :=
  ∀ s', rel s s' → R o (M.handle o s a).1 (N.handle o s' a).1 ∧
    rel (M.handle o s a).2 (N.handle o s' a).2

variable {R : ∀ o, I.Res o → Res' o → Prop} {Q : α → β → Prop} {rel : σ → τ → Prop}

/-- Two programs serve the same request and have made the same calls. -/
structure Call.Corresponds (R : ∀ o, I.Res o → Res' o → Prop) (Q : α → β → Prop) (c : Call I ρ α)
    (d : Call (I.returning Res') ρ β) : Prop where
  request : c.request = d.request
  ops : c.history.map Entry.op = d.history.map Entry.op
  rest : Option.Rel (Prog.Corresponds R Q) c.rest d.rest

/-- Two pools in corresponding states. -/
structure Pool.Corresponds (R : ∀ o, I.Res o → Res' o → Prop) (Q : α → β → Prop)
    (rel : σ → τ → Prop) (p : Pool I σ ρ α) (q : Pool (I.returning Res') τ ρ β) : Prop where
  shared : rel p.shared q.shared
  calls : List.Forall₂ (Call.Corresponds R Q) p.calls q.calls

/-- What two corresponding programs end in is related. -/
theorem Call.Corresponds.result? {c : Call I ρ α} {d : Call (I.returning Res') ρ β}
    (h : c.Corresponds R Q d) : Option.Rel Q c.result? d.result? := by
  have hrest := h.rest
  unfold Call.result?
  revert hrest
  generalize c.rest = cr
  generalize d.rest = dr
  rintro (hsim | _)
  · cases hsim with
    | pure hq => exact .some hq
    | call o h => exact .none
  · exact .none

namespace Pool

variable {M : Machine I σ} {N : Machine (I.returning Res') τ} {body : ρ → Prog I α}
  {body' : ρ → Prog (I.returning Res') β} {p : Pool I σ ρ α} {q : Pool (I.returning Res') τ ρ β}

theorem Corresponds.getElem? (h : p.Corresponds R Q rel q) (t : Nat) :
    Option.Rel (Call.Corresponds R Q) p.calls[t]? q.calls[t]? := by
  have hlength := h.calls.length_eq
  rcases Nat.lt_or_ge t p.calls.length with ht | ht
  · rw [List.getElem?_eq_getElem ht, List.getElem?_eq_getElem (hlength ▸ ht)]
    exact .some (List.forall₂_iff_get.mp h.calls |>.2 t ht (hlength ▸ ht))
  · rw [List.getElem?_eq_none ht, List.getElem?_eq_none (hlength ▸ ht)]
    exact .none

/-- What the `t`-th programs ended in is related. -/
theorem Corresponds.result? (h : p.Corresponds R Q rel q) (t : Nat) :
    Option.Rel Q (p.calls[t]?.bind Call.result?) (q.calls[t]?.bind Call.result?) := by
  have hget := h.getElem? t
  revert hget
  generalize p.calls[t]? = c
  generalize q.calls[t]? = d
  rintro (hcall | _)
  · exact hcall.result?
  · exact .none

/-- Two lists that correspond still do where both have one element replaced. -/
theorem forall₂_set {γ δ : Type} {S : γ → δ → Prop} {l : List γ} {l' : List δ}
    (h : List.Forall₂ S l l') (t : Nat) {a : γ} {b : δ} (hab : S a b) :
    List.Forall₂ S (l.set t a) (l'.set t b) := by
  induction h generalizing t with
  | nil => exact .nil
  | cons hhead htail ih =>
    cases t with
    | zero => exact .cons hab htail
    | succ t => exact .cons hhead (ih t)

theorem forall₂_modify {γ δ : Type} {S : γ → δ → Prop} {l : List γ} {l' : List δ}
    (h : List.Forall₂ S l l') (t : Nat) {f : γ → γ} {g : δ → δ}
    (hfg : ∀ a b, S a b → S (f a) (g b)) : List.Forall₂ S (l.modify t f) (l'.modify t g) := by
  induction h generalizing t with
  | nil => simp
  | cons hhead htail ih =>
    cases t with
    | zero => simpa using ⟨hfg _ _ hhead, htail⟩
    | succ t => simpa using ⟨hhead, ih t⟩

/-- An event leaves corresponding pools corresponding, if the call it makes is answered the same
by both machines. -/
theorem corresponds_apply (hbody : ∀ r, Prog.Corresponds R Q (body r) (body' r))
    (h : p.Corresponds R Q rel q) (e : Event I ρ)
    (hmatch : ∀ t ans o, e = .step t ans → p.next? t = some o →
      Machine.Matches M N R rel o (ans o) p.shared) :
    (p.apply M body e).Corresponds R Q rel (q.apply N body' (e.returning Res')) := by
  cases e with
  | spawn r => exact ⟨h.shared, List.rel_append h.calls (.cons ⟨rfl, rfl, .some (hbody r)⟩ .nil)⟩
  | kill t =>
    exact ⟨h.shared, forall₂_modify h.calls t fun c d hcd => ⟨hcd.request, hcd.ops, .none⟩⟩
  | step t ans =>
    have hget := h.getElem? t
    simp only [apply, Event.returning]
    cases hc : p.calls[t]? with
    | none =>
      rw [hc] at hget
      cases hd : q.calls[t]? with
      | none =>
        simp only [step, hc, hd]
        exact h
      | some d => rw [hd] at hget; cases hget
    | some c =>
      rw [hc] at hget
      cases hd : q.calls[t]? with
      | none => rw [hd] at hget; cases hget
      | some d =>
        rw [hd] at hget
        obtain ⟨hreq, hops, hrest⟩ : c.Corresponds R Q d := by cases hget; assumption
        cases hcr : c.rest with
        | none =>
          rw [hcr] at hrest
          cases hdr : d.rest with
          | none =>
            simp only [step, hc, hd, hcr, hdr]
            exact h
          | some x => rw [hdr] at hrest; cases hrest
        | some x =>
          rw [hcr] at hrest
          cases hdr : d.rest with
          | none => rw [hdr] at hrest; cases hrest
          | some y =>
            rw [hdr] at hrest
            have hsim : Prog.Corresponds R Q x y := by cases hrest; assumption
            cases hsim with
            | pure hq =>
              simp only [step, hc, hd, hcr, hdr]
              exact h
            | call o hk =>
              -- both make the same call
              obtain ⟨hres, hshared⟩ := hmatch t ans o rfl (next?_eq hc hcr) _ h.shared
              simp only [step, hc, hd, hcr, hdr]
              refine ⟨hshared, forall₂_set h.calls t ⟨hreq, ?_, .some (hk _ _ hres)⟩⟩
              simp only [Call.advance, List.map_append, hops]
              rfl

/-- A run in which every call is answered the same by both machines. -/
theorem corresponds_run (hbody : ∀ r, Prog.Corresponds R Q (body r) (body' r))
    (h : p.Corresponds R Q rel q) {es : List (Event I ρ)}
    (hmeets : Meets M body (fun p e => ∀ t ans o, e = .step t ans → p.next? t = some o →
      Machine.Matches M N R rel o (ans o) p.shared) p es) :
    (p.run M body es).Corresponds R Q rel (q.run N body' (es.map (Event.returning Res'))) := by
  induction es generalizing p q with
  | nil => exact h
  | cons e es ih => exact ih (corresponds_apply hbody h e hmeets.1) hmeets.2

theorem corresponds_start {s : σ} {s' : τ} (h : rel s s') :
    (Pool.start s : Pool I σ ρ α).Corresponds R Q rel
      (Pool.start s' : Pool (I.returning Res') τ ρ β) := ⟨h, .nil⟩

end Pool

end AriOs.Async
