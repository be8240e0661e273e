import Mathlib.Algebra.BigOperators.Intervals
import Mathlib.Algebra.Order.BigOperators.Group.Finset
import Mathlib.Order.Interval.Finset.Nat
import Mathlib.Tactic.IntervalCases
import Mathlib.Tactic.Linarith

/-!
# The Gregorian calendar

A year has twelve months and 365 days, and one more if it is a leap year: each fourth is one, but
of the centuries only each fourth. Days are numbered from the first of January of the year 0 on,
and each of them has one date.

## Main definitions

* `IsLeap`, `daysIn` — leap years, and the lengths of the months

## Main results

* `exists_date` — every day has a date
* `Date.number_eq` — the number, with years that begin in March
* `exists_leapDay` — within eight years there is a 29th of February
-/

namespace AriOs.Arith

open Finset

/-- Every fourth year is a leap year, of the centuries every fourth. -/
def IsLeap (year : ℕ) : Prop := year % 4 = 0 ∧ (year % 100 ≠ 0 ∨ year % 400 = 0)

instance (year : ℕ) : Decidable (IsLeap year) :=
  inferInstanceAs (Decidable (year % 4 = 0 ∧ (year % 100 ≠ 0 ∨ year % 400 = 0)))

def daysIn (year month : ℕ) : ℕ :=
  if month = 2 then if IsLeap year then 29 else 28
  else if month = 4 ∨ month = 6 ∨ month = 9 ∨ month = 11 then 30
  else 31

/-- A day of a month of a year. -/
@[ext] structure Date where
  year : ℕ
  month : ℕ
  day : ℕ
  month_pos : 1 ≤ month
  month_le : month ≤ 12
  day_pos : 1 ≤ day
  day_le : day ≤ daysIn year month

/-- The days of a year before one of its months. -/
def daysBeforeMonth (year month : ℕ) : ℕ := ∑ m ∈ Ico 1 month, daysIn year m

/-- The days before a year. -/
def daysBeforeYear (year : ℕ) : ℕ := ∑ y ∈ range year, daysBeforeMonth y 13

/-- How many days after the first of January of the year 0 it is. -/
def Date.number (date : Date) : ℕ :=
  daysBeforeYear date.year + daysBeforeMonth date.year date.month + (date.day - 1)

/-- The day of the week, from Sunday on. The first day was a Saturday. -/
def weekday (number : ℕ) : ℕ := (number + 6) % 7

variable {year month n : ℕ}

theorem daysIn_pos : 28 ≤ daysIn year month := by
  unfold daysIn
  split_ifs <;> omega

theorem daysIn_le : daysIn year month ≤ 31 := by
  unfold daysIn
  split_ifs <;> omega

theorem daysBeforeMonth_succ (h : 1 ≤ month) :
    daysBeforeMonth year (month + 1) = daysBeforeMonth year month + daysIn year month :=
  sum_Ico_succ_top h _

theorem daysBeforeMonth_mono : Monotone (daysBeforeMonth year) := by
  intro m m' h
  exact sum_le_sum_of_subset (Ico_subset_Ico_right h)

/-- The 29th of February, if there is one. -/
def leapDay (year : ℕ) : ℕ := if IsLeap year then 1 else 0

theorem leapDay_eq (year : ℕ) :
    leapDay year + (year + 100) / 100 + (year + 3) / 4 + (year + 399) / 400 =
      (year + 99) / 100 + (year + 4) / 4 + (year + 400) / 400 := by
  unfold leapDay
  by_cases h : IsLeap year
  · rw [if_pos h]
    obtain ⟨hfour, hcentury | hcentury⟩ := h <;> omega
  · rw [if_neg h]
    rw [IsLeap, not_and_or, not_or, not_not] at h
    omega

/-- From March on, the months before take 153 days in five of them. -/
theorem daysBeforeMonth_eq (hpos : 1 ≤ month) (hle : month ≤ 13) :
    daysBeforeMonth year month =
      if month ≤ 2 then 31 * (month - 1) else 59 + leapDay year + (153 * (month - 3) + 2) / 5 := by
  have hone : daysBeforeMonth year 1 = 0 := by simp [daysBeforeMonth]
  have hfeb : daysIn year 2 = 28 + leapDay year := by
    rw [daysIn, if_pos rfl, leapDay]
    split_ifs <;> rfl
  induction month, hpos using Nat.le_induction with
  | base => simpa using hone
  | succ month hpos ih =>
    rw [daysBeforeMonth_succ hpos, ih (by omega)]
    by_cases htwo : month = 2
    · subst htwo
      rw [hfeb]
      simp
      omega
    · -- only February depends on the year
      have hdays : daysIn year month = daysIn 1 month := by simp [daysIn, htwo]
      rw [hdays]
      have hlt : month < 13 := by omega
      interval_cases month <;> simp [daysIn]
      all_goals omega

theorem daysBeforeYear_succ (year : ℕ) :
    daysBeforeYear (year + 1) = daysBeforeYear year + daysBeforeMonth year 13 :=
  sum_range_succ _ _

theorem yearLength_eq (year : ℕ) : daysBeforeMonth year 13 = 365 + leapDay year := by
  rw [daysBeforeMonth_eq (by omega) le_rfl, if_neg (by omega)]
  omega

theorem daysBeforeYear_eq (year : ℕ) :
    daysBeforeYear year + (year + 99) / 100 = 365 * year + (year + 3) / 4 + (year + 399) / 400 := by
  induction year with
  | zero => rfl
  | succ year ih =>
    have hleap := leapDay_eq year
    rw [daysBeforeYear_succ, yearLength_eq]
    change _ + (year + 100) / 100 = _ + (year + 4) / 4 + (year + 400) / 400
    -- the quotients cancel, whatever they are
    linarith

theorem leapDay_of_isLeap (h : IsLeap year) : leapDay year = 1 := if_pos h

theorem leapDay_of_not_isLeap (h : ¬ IsLeap year) : leapDay year = 0 := if_neg h

theorem leapDay_of_mod (h : year % 4 ≠ 0) : leapDay year = 0 := if_neg fun hleap => h hleap.1

/-! ### Numbers of days -/

/-- The number of a date, with years that begin in March. -/
theorem Date.number_eq (date : Date) {y m : ℕ}
    (h : 3 ≤ date.month ∧ y = date.year ∧ m = date.month - 3 ∨
      date.month ≤ 2 ∧ y + 1 = date.year ∧ m = date.month + 9) :
    date.number + y / 100 =
      60 + 365 * y + y / 4 + y / 400 + (153 * m + 2) / 5 + (date.day - 1) := by
  have hmonth := @daysBeforeMonth_eq date.year _ date.month_pos
    (date.month_le.trans (by omega))
  have hyear := daysBeforeYear_eq date.year
  have hpos := date.month_pos
  rw [number, hmonth]
  -- the year is counted from March, so that a leap day is its last one
  rcases h with ⟨hmarch, rfl, rfl⟩ | ⟨hmarch, hy, rfl⟩
  · have hleap := leapDay_eq date.year
    rw [Nat.add_div_right _ (by omega), Nat.add_div_right _ (by omega),
      Nat.add_div_right _ (by omega)] at hleap
    rw [if_neg (by omega)]
    generalize (153 * (date.month - 3) + 2) / 5 = days at *
    linarith
  · rw [← hy] at hyear ⊢
    change _ + (y + 100) / 100 = _ + (y + 4) / 4 + (y + 400) / 400 at hyear
    rw [Nat.add_div_right _ (by omega), Nat.add_div_right _ (by omega),
      Nat.add_div_right _ (by omega)] at hyear
    rw [if_pos hmarch]
    have hdays : (153 * (date.month + 9) + 2) / 5 = 306 + 31 * (date.month - 1) := by
      interval_cases date.month <;> rfl
    rw [hdays]
    linarith

/-- A step function is at any height on one of its steps. -/
theorem exists_step {f : ℕ → ℕ} {a b n : ℕ} (hab : a ≤ b) (ha : f a ≤ n) (hb : n < f b) :
    ∃ m, a ≤ m ∧ m < b ∧ f m ≤ n ∧ n < f (m + 1) := by
  induction b, hab using Nat.le_induction with
  | base => omega
  | succ b hab ih =>
    by_cases h : n < f b
    · obtain ⟨m, ham, hmb, hm⟩ := ih h
      exact ⟨m, ham, by omega, hm⟩
    · exact ⟨b, hab, by omega, by omega, hb⟩

theorem daysBeforeYear_le (year : ℕ) : 365 * year ≤ daysBeforeYear year := by
  induction year with
  | zero => exact le_rfl
  | succ year ih =>
    rw [daysBeforeYear_succ, yearLength_eq]
    omega

/-- **Every day has a date.** -/
theorem exists_date (n : ℕ) : ∃ date : Date, date.number = n := by
  obtain ⟨y, -, -, hy, hy'⟩ := exists_step (f := daysBeforeYear) (n := n) (Nat.zero_le (n + 1))
    (by simp [daysBeforeYear]) (by have := daysBeforeYear_le (n + 1); omega)
  rw [daysBeforeYear_succ] at hy'
  obtain ⟨m, hpos, hle, hm, hm'⟩ := exists_step (f := daysBeforeMonth y) (a := 1) (b := 13)
    (n := n - daysBeforeYear y) (by omega) (by simp [daysBeforeMonth]) (by omega)
  rw [daysBeforeMonth_succ hpos] at hm'
  refine ⟨⟨y, m, n - daysBeforeYear y - daysBeforeMonth y m + 1, hpos, by omega, by omega,
    by omega⟩, ?_⟩
  simp only [Date.number]
  omega

/-- A date lies in its year. -/
theorem Date.number_mem (date : Date) :
    daysBeforeYear date.year ≤ date.number ∧ date.number < daysBeforeYear (date.year + 1) := by
  have hday := date.day_le
  have hday' := date.day_pos
  have hmonth : daysBeforeMonth date.year (date.month + 1) ≤ daysBeforeMonth date.year 13 :=
    daysBeforeMonth_mono (Nat.succ_le_succ date.month_le)
  rw [daysBeforeMonth_succ date.month_pos] at hmonth
  rw [daysBeforeYear_succ, number]
  omega

theorem leapDay_le (year : ℕ) : leapDay year ≤ 1 := by
  unfold leapDay
  split <;> omega

/-- A date of the year after that of a day is no more than two years later. -/
theorem Date.next_year {date date' : Date} (h : date'.year = date.year + 1) :
    date.number < date'.number ∧ date'.number ≤ date.number + 731 := by
  have hdate := date.number_mem
  have hdate' := date'.number_mem
  have hleap := leapDay_le date.year
  have hleap' := leapDay_le (date.year + 1)
  rw [h, daysBeforeYear_succ (date.year + 1), yearLength_eq, daysBeforeYear_succ,
    yearLength_eq] at hdate'
  rw [daysBeforeYear_succ, yearLength_eq] at hdate
  omega

/-- The 29th of February of a leap year. -/
def Date.ofLeap (year : ℕ) (h : IsLeap year) : Date :=
  ⟨year, 2, 29, by omega, by omega, by omega, by rw [daysIn, if_pos rfl, if_pos h]⟩

theorem Date.number_ofLeap (h : IsLeap year) :
    (Date.ofLeap year h).number = daysBeforeYear year + 59 := by
  simp [number, ofLeap, daysBeforeMonth, daysIn]

/-- **Within eight years there is a 29th of February**, also where a century is no leap year. -/
theorem exists_leapDay (n : ℕ) : ∃ year, ∃ h : IsLeap year,
    n < (Date.ofLeap year h).number ∧ (Date.ofLeap year h).number ≤ n + 2921 := by
  induction n with
  | zero =>
    refine ⟨0, by decide, ?_⟩
    rw [Date.number_ofLeap]
    simp [daysBeforeYear]
  | succ n ih =>
    obtain ⟨year, hleap, hlt, hle⟩ := ih
    by_cases hnext : n + 1 < (Date.ofLeap year hleap).number
    · exact ⟨year, hleap, hnext, by omega⟩
    · -- the leap day is this one, and the next one is four years later, or eight
      have hfour := hleap.1
      have hyears : daysBeforeYear (year + 4) = daysBeforeYear year + 1461 := by
        rw [daysBeforeYear_succ (year + 3), daysBeforeYear_succ (year + 2),
          daysBeforeYear_succ (year + 1), daysBeforeYear_succ year, yearLength_eq, yearLength_eq,
          yearLength_eq, yearLength_eq, leapDay_of_isLeap hleap, leapDay_of_mod (by omega),
          leapDay_of_mod (by omega), leapDay_of_mod (by omega)]
      rw [Date.number_ofLeap] at hlt hle hnext
      by_cases hleap' : IsLeap (year + 4)
      · refine ⟨year + 4, hleap', ?_⟩
        rw [Date.number_ofLeap, hyears]
        omega
      · have hleap'' : IsLeap (year + 8) := by
          rw [IsLeap] at hleap' ⊢
          omega
        have hyears' : daysBeforeYear (year + 8) = daysBeforeYear (year + 4) + 1460 := by
          rw [daysBeforeYear_succ (year + 7), daysBeforeYear_succ (year + 6),
            daysBeforeYear_succ (year + 5), daysBeforeYear_succ (year + 4), yearLength_eq,
            yearLength_eq, yearLength_eq, yearLength_eq, leapDay_of_not_isLeap hleap',
            leapDay_of_mod (by omega), leapDay_of_mod (by omega), leapDay_of_mod (by omega)]
        refine ⟨year + 8, hleap'', ?_⟩
        rw [Date.number_ofLeap, hyears', hyears]
        omega

/-- A day of a month comes again within eight years. -/
theorem exists_later_date (date : Date) (n : ℕ) : ∃ date' : Date, date'.month = date.month ∧
    date'.day = date.day ∧ n < date'.number ∧ date'.number ≤ n + 2921 := by
  by_cases hleap : date.month = 2 ∧ date.day = 29
  · obtain ⟨year, h, hlt, hle⟩ := exists_leapDay n
    exact ⟨Date.ofLeap year h, hleap.1.symm, hleap.2.symm, hlt, hle⟩
  · obtain ⟨today, rfl⟩ := exists_date n
    have hday : date.day ≤ daysIn (today.year + 1) date.month := by
      have h := date.day_le
      unfold daysIn at h ⊢
      split_ifs at h ⊢ <;> omega
    let date' : Date := ⟨today.year + 1, date.month, date.day, date.month_pos, date.month_le,
      date.day_pos, hday⟩
    obtain ⟨hlt, hle⟩ := @Date.next_year today date' rfl
    exact ⟨date', rfl, rfl, hlt, by omega⟩

/-- A day of the week comes again in a month within two years. -/
theorem exists_later_weekday {w : ℕ} (hpos : 1 ≤ month) (hle : month ≤ 12) (hw : w < 7) (n : ℕ) :
    ∃ date' : Date, date'.month = month ∧ weekday date'.number = w ∧ n < date'.number ∧
      date'.number ≤ n + 2921 := by
  obtain ⟨today, rfl⟩ := exists_date n
  have hlong := @daysIn_pos (today.year + 1) month
  -- the first of the month is so many days before
  let first := daysBeforeYear (today.year + 1) + daysBeforeMonth (today.year + 1) month
  let day := (w + 7 - weekday first) % 7
  have hday : day < 7 := Nat.mod_lt _ (by omega)
  let date' : Date := ⟨today.year + 1, month, day + 1, hpos, hle, by omega, by omega⟩
  obtain ⟨hlt, hle⟩ := @Date.next_year today date' rfl
  refine ⟨date', rfl, ?_, hlt, by omega⟩
  have hnumber : date'.number = first + day := rfl
  rw [hnumber]
  simp only [day, weekday]
  omega

end AriOs.Arith
