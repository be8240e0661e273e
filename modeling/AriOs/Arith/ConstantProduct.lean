import Mathlib.Algebra.Order.Ring.Int
import Mathlib.Tactic.Linarith

/-!
# Constant-product markets in whole units

A market holds a stock and what was paid for it, and trades along the curve on which the
product of the two is constant. Everything is counted in whole units, so each trade is rounded,
always against the trader. What a trader can buy for a sum and what an amount costs are then no
inverses of each other, but they are adjoint: an amount is affordable exactly if it is at most
what the sum buys.

## Main results

* `cost_le_iff` — `cost` and `bought` are adjoint
* `product_le_buy`, `product_le_sell` — no trade lowers the product
* `proceeds_lt_cost` — what was just bought sells for less
* `cost_add_le` — two purchases cost no less than one
* `markup_le_iff` — `markup` and `unmarked` are adjoint
-/

namespace AriOs.Arith

section Curve

variable {paid stock paid' stock' t u s s' : ℤ}

/-- What `t` units of the stock cost. -/
def cost (paid stock t : ℤ) : ℤ := paid * stock / (stock - t) + 1 - paid

/-- How many units of the stock the sum `s` buys. -/
def bought (paid stock s : ℤ) : ℤ := stock - (paid * stock / (paid + s) + 1)

/-- What is paid back for `t` units of the stock. -/
def proceeds (paid stock t : ℤ) : ℤ := t * paid / (stock + t)

/-- A sum pays for an amount, in numbers that are not rounded. -/
theorem cost_le_iff_lt (ht : t < stock) :
    cost paid stock t ≤ s ↔ paid * stock < (paid + s) * (stock - t) := by
  rw [← Int.ediv_lt_iff_lt_mul (sub_pos.mpr ht), cost]
  omega

theorem le_bought_iff_lt (hs : 0 < paid + s) :
    t ≤ bought paid stock s ↔ paid * stock < (paid + s) * (stock - t) := by
  rw [mul_comm (paid + s), ← Int.ediv_lt_iff_lt_mul hs, bought]
  omega

/-- The two roundings are adjoint: a sum pays for an amount exactly if it buys that much. -/
theorem cost_le_iff (hs : 0 < paid + s) (ht : t < stock) :
    cost paid stock t ≤ s ↔ t ≤ bought paid stock s :=
  (cost_le_iff_lt ht).trans (le_bought_iff_lt hs).symm

theorem bought_nonneg (hpaid : 0 < paid) (hstock : 0 < stock) (hs : 0 < s) :
    0 ≤ bought paid stock s := by
  rw [le_bought_iff_lt (by omega)]
  nlinarith

theorem bought_lt (hpaid : 0 < paid) (hstock : 0 < stock) (hs : 0 < s) :
    bought paid stock s < stock := by
  have := Int.ediv_nonneg (mul_pos hpaid hstock).le (by omega : 0 ≤ paid + s)
  rw [bought]
  omega

theorem bought_mono (hpaid : 0 < paid) (hstock : 0 < stock) (hs : 0 < s) (h : s ≤ s') :
    bought paid stock s ≤ bought paid stock s' := by
  have hlt := (le_bought_iff_lt (by omega : 0 < paid + s)).mp (le_refl (bought paid stock s))
  rw [le_bought_iff_lt (by omega : 0 < paid + s')]
  nlinarith [bought_lt hpaid hstock hs]

theorem cost_pos (hpaid : 0 < paid) (ht : 0 ≤ t) (hlt : t < stock) :
    0 < cost paid stock t := by
  by_contra hle
  have := (cost_le_iff_lt (s := 0) hlt).mp (not_lt.mp hle)
  nlinarith

variable (paid) in
/-- A purchase never lowers the product, it raises it. -/
theorem product_lt_buy (hlt : t < stock) :
    paid * stock < (paid + cost paid stock t) * (stock - t) :=
  (cost_le_iff_lt hlt).mp le_rfl

/-- Neither does a sale. -/
theorem product_le_sell (hstock : 0 < stock) (ht : 0 ≤ t) :
    paid * stock ≤ (paid - proceeds paid stock t) * (stock + t) := by
  have := Int.ediv_mul_le (t * paid) (by omega : stock + t ≠ 0)
  rw [proceeds]
  linarith

/-- What a purchase was just made for does not come back when it is sold again. -/
theorem proceeds_lt_cost (hstock : 0 < stock) (hlt : t < stock) :
    proceeds (paid + cost paid stock t) (stock - t) t < cost paid stock t := by
  rw [proceeds, sub_add_cancel, Int.ediv_lt_iff_lt_mul hstock]
  have := product_lt_buy paid hlt
  linarith

/-- The more a market holds, the more is left to pay for the same remaining stock. -/
theorem paid_add_cost_mono (hu : u < stock) (heq : stock - u = stock' - t)
    (hproduct : paid * stock ≤ paid' * stock') :
    paid + cost paid stock u ≤ paid' + cost paid' stock' t := by
  have := Int.ediv_le_ediv (by omega : 0 < stock - u) hproduct
  rw [cost, cost, ← heq]
  omega

/-- Bought in two parts, an amount costs no less. -/
theorem cost_add_le (hu : 0 ≤ u) (hlt : t + u < stock) :
    cost paid stock (t + u) ≤
      cost paid stock t + cost (paid + cost paid stock t) (stock - t) u := by
  have := paid_add_cost_mono hlt (by omega : stock - (t + u) = stock - t - u)
    (product_lt_buy paid (by omega : t < stock)).le
  linarith

/-- A sale pays out no more than `r` exactly if it is small enough for it. -/
theorem proceeds_le_iff (h : 0 < stock + t) :
    proceeds paid stock t ≤ s ↔ t * (paid - (s + 1)) < (s + 1) * stock := by
  rw [proceeds, ← Int.lt_add_one_iff, Int.ediv_lt_iff_lt_mul h]
  constructor <;> intro h <;> linarith

end Curve

section Markup

variable {a b rate : ℤ}

/-- A sum with a rate in basis points on top, rounded down. -/
def markup (a rate : ℤ) : ℤ := a * (10000 + rate) / 10000

/-- The largest sum that, marked up, is at most `b`. -/
def unmarked (b rate : ℤ) : ℤ := ((b + 1) * 10000 - 1) / (10000 + rate)

theorem markup_le_iff (hrate : 0 ≤ rate) : markup a rate ≤ b ↔ a ≤ unmarked b rate := by
  rw [markup, unmarked, ← Int.lt_add_one_iff, Int.ediv_lt_iff_lt_mul (by omega),
    Int.le_ediv_iff_mul_le (by omega)]
  omega

theorem le_markup (ha : 0 ≤ a) (hrate : 0 ≤ rate) : a ≤ markup a rate := by
  rw [markup, Int.le_ediv_iff_mul_le (by omega)]
  nlinarith

/-- A fee taken on top of a sum and rounded down is a markup. -/
theorem markup_eq_add : markup a rate = a + a * rate / 10000 := by
  rw [markup, mul_add, Int.add_ediv_of_dvd_left (Dvd.intro_left a rfl),
    Int.mul_ediv_cancel a (by decide)]

/-- A sum that was stripped of a rate can bear it again. -/
theorem strip_le_unmarked (hrate : 0 ≤ rate) : b * 10000 / (10000 + rate) ≤ unmarked b rate :=
  Int.ediv_le_ediv (by omega) (by omega)

theorem unmarked_nonneg (hb : 0 ≤ b) (hrate : 0 ≤ rate) : 0 ≤ unmarked b rate :=
  Int.ediv_nonneg (by omega) (by omega)

end Markup

end AriOs.Arith
