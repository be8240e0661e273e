import Mathlib.Algebra.Order.BigOperators.Group.List
import Mathlib.Algebra.Order.Ring.Rat

/-!
# Weights

What the selected items of a list weigh together.

## Main results

* `weigh_mono` — a smaller selection weighs no more
* `weigh_append` — a list in two parts
* `weigh_le_add` — a selection covered by two others
-/

namespace AriOs.Storage

variable {α : Type} {w : α → ℚ} {p q s : α → Bool} {l l' : List α}

/-- The sum of the weights of the selected items. -/
def weigh (w : α → ℚ) (p : α → Bool) (l : List α) : ℚ := ((l.filter p).map w).sum

@[simp] theorem weigh_nil : weigh w p [] = 0 := rfl

theorem weigh_eq_sum_ite : weigh w p l = (l.map fun a => if p a then w a else 0).sum := by
  unfold weigh
  induction l with
  | nil => rfl
  | cons a l ih => by_cases h : p a <;> simp [h, ih]

theorem weigh_append : weigh w p (l ++ l') = weigh w p l + weigh w p l' := by
  simp [weigh]

theorem weigh_append_singleton {a : α} :
    weigh w p (l ++ [a]) = weigh w p l + if p a then w a else 0 := by
  rw [weigh_append, weigh_eq_sum_ite (l := [a])]
  simp

theorem weigh_congr (h : ∀ a ∈ l, p a = q a) : weigh w p l = weigh w q l := by
  rw [weigh, weigh, List.filter_congr h]

theorem weigh_eq_zero (h : ∀ a ∈ l, p a = false) : weigh w p l = 0 := by
  rw [weigh_congr (q := fun _ => false) h]
  simp [weigh]

/-- A smaller selection of no negative weights weighs no more. -/
theorem weigh_mono (hw : ∀ a ∈ l, 0 ≤ w a) (h : ∀ a ∈ l, p a → q a) :
    weigh w p l ≤ weigh w q l := by
  rw [weigh_eq_sum_ite, weigh_eq_sum_ite]
  apply List.sum_le_sum
  intro a ha
  by_cases hp : p a
  · simp [hp, h a ha hp]
  · have ha0 := hw a ha
    by_cases hq : q a <;> simp [hp, hq, ha0]

/-- A selection that two others cover weighs no more than both. -/
theorem weigh_le_add (hw : ∀ a ∈ l, 0 ≤ w a) (h : ∀ a ∈ l, s a → p a ∨ q a) :
    weigh w s l ≤ weigh w p l + weigh w q l := by
  rw [weigh_eq_sum_ite, weigh_eq_sum_ite, weigh_eq_sum_ite, ← List.sum_map_add]
  apply List.sum_le_sum
  intro a ha
  have ha0 := hw a ha
  by_cases hs : s a
  · rcases h a ha hs with hp | hq
    · by_cases hq : q a <;> simp [hs, hp, hq, ha0]
    · by_cases hp : p a <;> simp [hs, hp, hq, ha0]
  · by_cases hp : p a <;> by_cases hq : q a <;> simp [hs, hp, hq, ha0]

/-- Where each weighs one, the weight is a number. -/
theorem weigh_one : weigh (fun _ => 1) p l = (l.countP p : ℚ) := by
  rw [weigh, List.map_const', List.sum_replicate, nsmul_one, List.countP_eq_length_filter]

end AriOs.Storage
