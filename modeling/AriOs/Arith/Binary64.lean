import Mathlib.Algebra.Order.Round
import Mathlib.Data.Int.Log
import Mathlib.Data.Rat.Floor
import Mathlib.Tactic.Linarith
import Mathlib.Tactic.Positivity
import Mathlib.Tactic.Ring

/-!
# Rounding to doubles

A double has 53 significant bits, and no bit below `2 ^ (-1074)`. What lies between two doubles
is rounded to the nearer one, and halfway between them to the one with an even last bit. Values
too large for a double play no part here.

## Main results

* `toDouble_intCast` — whole numbers below `2 ^ 53` are doubles
* `toDouble_le`, `le_toDouble` — rounding does not pass such a number
* `exists_toDouble_intCast` — a whole number is rounded to a whole one
-/

namespace AriOs.Arith

/-- The nearest integer, halves to the even one. -/
def halfEven (q : ℚ) : ℤ :=
  if q - ⌊q⌋ < 1 / 2 then ⌊q⌋
  else if 1 / 2 < q - ⌊q⌋ then ⌊q⌋ + 1
  else if ⌊q⌋ % 2 = 0 then ⌊q⌋
  else ⌊q⌋ + 1

/-- The place of the last bit of the doubles near `q`. -/
def unit (q : ℚ) : ℤ := max (Int.log 2 |q| - 52) (-1074)

/-- The double nearest to `q`. -/
def toDouble (q : ℚ) : ℚ := halfEven (q / 2 ^ unit q) * 2 ^ unit q

variable {q : ℚ} {n : ℤ}

theorem halfEven_intCast (n : ℤ) : halfEven n = n := by
  simp [halfEven]

theorem halfEven_le (h : q ≤ n) : halfEven q ≤ n := by
  have hfloor : ⌊q⌋ ≤ n := Int.cast_le.mp ((Int.floor_le q).trans h)
  rcases hfloor.eq_or_lt with heq | hlt
  · -- then `q` is the integer, and nothing is rounded
    have hq : q = n := le_antisymm h (heq ▸ Int.floor_le q)
    rw [hq, halfEven_intCast]
  · unfold halfEven
    split_ifs <;> omega

theorem le_halfEven (h : n ≤ q) : n ≤ halfEven q := by
  have hfloor : n ≤ ⌊q⌋ := Int.le_floor.mpr h
  unfold halfEven
  split_ifs <;> omega

/-- A number of whole units is a double. -/
theorem toDouble_of_eq {m : ℤ} (h : q = m * 2 ^ unit q) : toDouble q = q := by
  have hunit : (2 : ℚ) ^ unit q ≠ 0 := zpow_ne_zero _ (by norm_num)
  have hm : q / 2 ^ unit q = m := (div_eq_iff hunit).mpr h
  rw [toDouble, hm, halfEven_intCast, ← h]

/-- Where the last bit is no more than one, every integer has whole units. -/
theorem exists_mul_unit (n : ℤ) (h : unit q ≤ 0) : ∃ m : ℤ, (n : ℚ) = m * 2 ^ unit q := by
  obtain ⟨k, hk⟩ := Int.exists_eq_neg_ofNat h
  refine ⟨n * 2 ^ k, ?_⟩
  rw [hk, zpow_neg, zpow_natCast]
  push_cast
  rw [mul_assoc, mul_inv_cancel₀ (by positivity), mul_one]

/-- Beyond one, the last bit says how large the number is. -/
theorem two_pow_le_abs (h : 0 < unit q) : (2 : ℚ) ^ (unit q + 52) ≤ |q| := by
  have hlog : unit q + 52 = Int.log 2 |q| := by
    rw [unit] at h ⊢
    omega
  have hq : 0 < |q| := by
    rw [abs_pos]
    rintro rfl
    simp [unit] at h
  rw [hlog]
  exact_mod_cast Int.zpow_log_le_self (by norm_num) hq

theorem two_pow_53_le_abs (h : 0 < unit q) : (2 : ℚ) ^ 53 ≤ |q| := by
  refine le_trans ?_ (two_pow_le_abs h)
  rw [← zpow_natCast]
  exact zpow_le_zpow_right₀ (by norm_num) (by push_cast; omega)

/-- Whole numbers of up to 53 bits are doubles. -/
theorem toDouble_intCast (h : |n| < 2 ^ 53) : toDouble n = n := by
  have hunit : unit (n : ℚ) ≤ 0 := by
    by_contra! hpos
    have habs := two_pow_53_le_abs hpos
    have hlt : |(n : ℚ)| < 2 ^ 53 := by exact_mod_cast h
    linarith
  obtain ⟨m, hm⟩ := exists_mul_unit n hunit
  exact toDouble_of_eq hm

/-- What is at most a whole number of up to 53 bits is so when it is rounded. -/
theorem toDouble_le (hmin : -2 ^ 53 ≤ n) (hmax : n < 2 ^ 53) (h : q ≤ n) : toDouble q ≤ n := by
  have hpow : (0 : ℚ) < 2 ^ unit q := zpow_pos (by norm_num) _
  rcases le_or_gt (unit q) 0 with hunit | hunit
  · obtain ⟨m, hm⟩ := exists_mul_unit n hunit
    have hle : q / 2 ^ unit q ≤ m := by rwa [div_le_iff₀ hpow, ← hm]
    have hround : (halfEven (q / 2 ^ unit q) : ℚ) ≤ m := Int.cast_le.mpr (halfEven_le hle)
    rw [toDouble, hm]
    exact mul_le_mul_of_nonneg_right hround hpow.le
  · -- so far from zero, only below it
    have habs := two_pow_53_le_abs hunit
    have hn : (n : ℚ) < 2 ^ 53 := by exact_mod_cast hmax
    have hn' : (-2 ^ 53 : ℚ) ≤ n := by exact_mod_cast hmin
    have hneg : |q| = -q := by
      rcases abs_choice q with heq | heq
      · linarith
      · exact heq
    have hbound := two_pow_le_abs hunit
    rw [hneg, zpow_add₀ (by norm_num)] at hbound
    have hle : q / 2 ^ unit q ≤ ((-2 ^ 52 : ℤ) : ℚ) := by
      rw [div_le_iff₀ hpow]
      push_cast
      linarith [hbound]
    have hround : (halfEven (q / 2 ^ unit q) : ℚ) ≤ ((-2 ^ 52 : ℤ) : ℚ) :=
      Int.cast_le.mpr (halfEven_le hle)
    have htwo : (2 : ℚ) ≤ 2 ^ unit q := by
      calc (2 : ℚ) = 2 ^ (1 : ℤ) := (zpow_one 2).symm
        _ ≤ 2 ^ unit q := zpow_le_zpow_right₀ (by norm_num) (by omega)
    refine le_trans ?_ hn'
    rw [toDouble]
    push_cast at hround
    nlinarith

/-- What is at least a whole number of up to 53 bits is so when it is rounded. -/
theorem le_toDouble (hmin : -2 ^ 53 < n) (hmax : n ≤ 2 ^ 53) (h : n ≤ q) : n ≤ toDouble q := by
  have hpow : (0 : ℚ) < 2 ^ unit q := zpow_pos (by norm_num) _
  rcases le_or_gt (unit q) 0 with hunit | hunit
  · obtain ⟨m, hm⟩ := exists_mul_unit n hunit
    have hle : m ≤ q / 2 ^ unit q := by rwa [le_div_iff₀ hpow, ← hm]
    have hround : (m : ℚ) ≤ halfEven (q / 2 ^ unit q) := Int.cast_le.mpr (le_halfEven hle)
    rw [toDouble, hm]
    exact mul_le_mul_of_nonneg_right hround hpow.le
  · -- so far from zero, only above it
    have habs := two_pow_53_le_abs hunit
    have hn : (-2 ^ 53 : ℚ) < n := by exact_mod_cast hmin
    have hn' : (n : ℚ) ≤ 2 ^ 53 := by exact_mod_cast hmax
    have hpos : |q| = q := by
      rcases abs_choice q with heq | heq
      · exact heq
      · linarith
    have hbound := two_pow_le_abs hunit
    rw [hpos, zpow_add₀ (by norm_num)] at hbound
    have hle : ((2 ^ 52 : ℤ) : ℚ) ≤ q / 2 ^ unit q := by
      rw [le_div_iff₀ hpow]
      push_cast
      linarith [hbound]
    have hround : ((2 ^ 52 : ℤ) : ℚ) ≤ halfEven (q / 2 ^ unit q) :=
      Int.cast_le.mpr (le_halfEven hle)
    have htwo : (2 : ℚ) ≤ 2 ^ unit q := by
      calc (2 : ℚ) = 2 ^ (1 : ℤ) := (zpow_one 2).symm
        _ ≤ 2 ^ unit q := zpow_le_zpow_right₀ (by norm_num) (by omega)
    refine hn'.trans ?_
    rw [toDouble]
    push_cast at hround
    nlinarith

/-- A whole number is rounded to a whole one. -/
theorem exists_toDouble_intCast (n : ℤ) : ∃ m : ℤ, toDouble n = m := by
  rcases le_or_gt (unit (n : ℚ)) 0 with hunit | hunit
  · obtain ⟨m, hm⟩ := exists_mul_unit n hunit
    exact ⟨n, toDouble_of_eq hm⟩
  · obtain ⟨k, hk⟩ := Int.eq_ofNat_of_zero_le hunit.le
    refine ⟨halfEven (n / 2 ^ unit (n : ℚ)) * 2 ^ k, ?_⟩
    rw [toDouble, hk, zpow_natCast]
    push_cast
    rfl

end AriOs.Arith
