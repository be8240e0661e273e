import AriOs.Js.Number
import Mathlib.Data.List.Forall2

/-!
# Code that throws

A check that throws is an `Except`. The lemmas read a successful run backwards: every check
passed, every part returned.
-/

namespace AriOs.Js

variable {ε α β : Type}

/-- Throw `e` if `c`. -/
def throwIf (c : Prop) [Decidable c] (e : ε) : Except ε Unit :=
  if c then .error e else .ok ()

/-- The value, or throw `e` if there is none. -/
def orThrow (x : Option α) (e : ε) : Except ε α :=
  match x with
  | some a => .ok a
  | none => .error e

/-- `BigInt(n)`; `other` makes an error of its text. -/
def JsNumber.bigInt (other : String → ε) (n : JsNumber) : Except ε Int :=
  orThrow n.toBigInt?
    (other s!"The number {n} cannot be converted to a BigInt because it is not an integer")

@[simp] theorem throwIf_eq_ok {c : Prop} [Decidable c] {e : ε} {u : Unit} :
    throwIf c e = .ok u ↔ ¬ c := by
  unfold throwIf
  split <;> simp_all

@[simp] theorem orThrow_eq_ok {x : Option α} {e : ε} {a : α} :
    orThrow x e = .ok a ↔ x = some a := by
  cases x <;> simp [orThrow]

@[simp] theorem JsNumber.bigInt_eq_ok {other : String → ε} {n : JsNumber} {i : Int} :
    n.bigInt other = .ok i ↔ n.toBigInt? = some i :=
  orThrow_eq_ok

@[simp] theorem bind_eq_ok {x : Except ε α} {f : α → Except ε β} {b : β} :
    (x >>= f) = .ok b ↔ ∃ a, x = .ok a ∧ f a = .ok b := by
  cases x <;> simp [bind, Except.bind]

@[simp] theorem throwIf_eq_error {c : Prop} [Decidable c] {e e' : ε} :
    (throwIf c e : Except ε Unit) = .error e' ↔ c ∧ e = e' := by
  unfold throwIf
  split <;> simp_all

theorem JsNumber.bigInt_eq_error {other : String → ε} {n : JsNumber} {e : ε} :
    n.bigInt other = .error e ↔ n.toBigInt? = none ∧
      other s!"The number {n} cannot be converted to a BigInt because it is not an integer" = e := by
  cases h : n.toBigInt? <;> simp [bigInt, orThrow, h]

/-- A sequence throws what its first part throws, or what its second part does. -/
theorem bind_eq_error {x : Except ε α} {f : α → Except ε β} {e : ε} :
    (x >>= f) = .error e ↔ x = .error e ∨ ∃ a, x = .ok a ∧ f a = .error e := by
  cases x <;> simp [bind, Except.bind]

/-- A loop over a list throws nothing exactly if no element makes it throw. -/
theorem exists_mapM_eq_ok_iff {f : α → Except ε β} {l : List α} :
    (∃ bs, l.mapM f = .ok bs) ↔ ∀ a ∈ l, ∃ b, f a = .ok b := by
  induction l with
  | nil => simp [pure, Except.pure]
  | cons a l ih =>
    simp only [List.mapM_cons, bind_eq_ok, List.forall_mem_cons, ← ih]
    constructor
    · rintro ⟨_, b, hb, bs, hbs, _⟩
      exact ⟨⟨b, hb⟩, bs, hbs⟩
    · rintro ⟨⟨b, hb⟩, bs, hbs⟩
      exact ⟨b :: bs, b, hb, bs, hbs, rfl⟩

/-- A loop over a list that returns has a value for each element, in their order. -/
theorem mapM_eq_ok_iff {f : α → Except ε β} {l : List α} {bs : List β} :
    l.mapM f = .ok bs ↔ List.Forall₂ (fun a b => f a = .ok b) l bs := by
  induction l generalizing bs with
  | nil => simp [pure, Except.pure, eq_comm]
  | cons a l ih =>
    simp only [List.mapM_cons, bind_eq_ok, List.forall₂_cons_left_iff, ← ih]
    constructor
    · rintro ⟨b, hb, rest, hrest, heq⟩
      exact ⟨b, rest, hb, hrest, (Except.ok.inj heq).symm⟩
    · rintro ⟨b, rest, hb, hrest, rfl⟩
      exact ⟨b, hb, rest, hrest, rfl⟩

/-- What a loop over a list returns comes from its elements. -/
theorem exists_of_mem_mapM {f : α → Except ε β} {l : List α} {bs : List β}
    (h : l.mapM f = .ok bs) : ∀ b ∈ bs, ∃ a ∈ l, f a = .ok b := by
  rw [mapM_eq_ok_iff] at h
  induction h with
  | nil => simp
  | @cons a b _ _ hab _ ih =>
    intro b' hmem
    rcases List.mem_cons.mp hmem with rfl | hmem
    · exact ⟨a, List.mem_cons_self, hab⟩
    · obtain ⟨a', ha', hb'⟩ := ih b' hmem
      exact ⟨a', List.mem_cons_of_mem a ha', hb'⟩

end AriOs.Js
