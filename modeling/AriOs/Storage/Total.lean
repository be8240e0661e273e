import AriOs.Storage.Table
import Mathlib.Algebra.Order.BigOperators.Group.List
import Mathlib.Algebra.Order.Group.Int
import Mathlib.Algebra.Ring.Int.Defs

/-!
# Sums over a table

What a `WHERE` clause selects is added up. A bound on such a sum survives a statement if the
statement lets no row count that did not count before; amounts must not be negative for that.

## Main definitions

* `Table.total` — the sum of an amount over the selected rows

## Main results

* `Table.total_mono` — selecting fewer rows adds up to no more
* `Table.total_insert?`, `Table.total_delete_le`, `Table.total_update_le` — sums after a statement
* `Table.total_add_le` — two selections that exclude each other, within a third
-/

namespace AriOs.Storage.Table

variable {κ ρ : Type} {key : ρ → κ}

/-- The sum of an amount over the rows a `WHERE` clause selects. -/
def total (t : Table key) (p : ρ → Bool) (amount : ρ → Int) : Int :=
  ((t.rows.filter p).map amount).sum

variable {t t' : Table key} {p q : ρ → Bool} {amount : ρ → Int}

/-- The sum, row by row. -/
theorem total_eq_sum_ite (t : Table key) (p : ρ → Bool) (amount : ρ → Int) :
    t.total p amount = (t.rows.map fun r => if p r then amount r else 0).sum := by
  unfold total
  induction t.rows with
  | nil => rfl
  | cons r l ih => by_cases h : p r <;> simp [h, ih]

/-- Selecting fewer rows of no negative amount adds up to no more. -/
theorem total_mono (hnonneg : ∀ r ∈ t.rows, 0 ≤ amount r) (hpq : ∀ r ∈ t.rows, p r → q r) :
    t.total p amount ≤ t.total q amount := by
  rw [total_eq_sum_ite, total_eq_sum_ite]
  apply List.sum_le_sum
  intro r hr
  have hr0 := hnonneg r hr
  by_cases h : p r
  · simp [h, hpq r hr h]
  · by_cases h' : q r <;> simp [h, h', hr0]

theorem total_delete (t : Table key) (d p : ρ → Bool) (amount : ρ → Int) :
    (t.delete d).total p amount = t.total (fun r => p r && !d r) amount := by
  simp only [total, rows_delete, List.filter_filter]

theorem total_delete_le (hnonneg : ∀ r ∈ t.rows, 0 ≤ amount r) (d : ρ → Bool) :
    (t.delete d).total p amount ≤ t.total p amount := by
  rw [total_delete]
  apply total_mono hnonneg
  intro r _ h
  simp only [Bool.and_eq_true] at h
  exact h.1

theorem total_insert? [DecidableEq κ] {r : ρ} (h : t.insert? r = some t') :
    t'.total p amount = t.total p amount + if p r then amount r else 0 := by
  unfold total
  rw [rows_of_insert? h, List.filter_append, List.map_append, List.sum_append]
  by_cases hp : p r <;> simp [hp]

/-- A statement that leaves amounts alone, and lets no row count that did not, adds nothing. -/
theorem total_update_le {d : ρ → Bool} {f : ρ → ρ} (hf : ∀ r, key (f r) = key r)
    (hnonneg : ∀ r ∈ t.rows, 0 ≤ amount r) (hamount : ∀ r, amount (f r) = amount r)
    (hcount : ∀ r ∈ t.rows, d r → p (f r) → q r) (hrest : ∀ r ∈ t.rows, p r → q r) :
    (t.update d f hf).total p amount ≤ t.total q amount := by
  rw [total_eq_sum_ite, total_eq_sum_ite, rows_update, List.map_map]
  apply List.sum_le_sum
  intro r hr
  have hr0 := hnonneg r hr
  by_cases hd : d r
  · by_cases hp : p (f r)
    · simp [hd, hp, hamount, hcount r hr hd hp]
    · by_cases hq : q r <;> simp [hd, hp, hq, hr0]
  · by_cases hp : p r
    · simp [hd, hp, hrest r hr hp]
    · by_cases hq : q r <;> simp [hd, hp, hq, hr0]

/-- Two selections that exclude each other, both within a third. -/
theorem total_add_le {s : ρ → Bool} (hnonneg : ∀ r ∈ t.rows, 0 ≤ amount r)
    (hdisjoint : ∀ r ∈ t.rows, p r → q r = false) (hp : ∀ r ∈ t.rows, p r → s r)
    (hq : ∀ r ∈ t.rows, q r → s r) :
    t.total p amount + t.total q amount ≤ t.total s amount := by
  rw [total_eq_sum_ite, total_eq_sum_ite, total_eq_sum_ite, ← List.sum_map_add]
  apply List.sum_le_sum
  intro r hr
  have hr0 := hnonneg r hr
  by_cases h : p r
  · simp [h, hdisjoint r hr h, hp r hr h]
  · by_cases h' : q r
    · simp [h, h', hq r hr h']
    · by_cases h'' : s r <;> simp [h, h', h'', hr0]

end AriOs.Storage.Table
