import Mathlib.Data.List.TakeDrop
import Mathlib.Data.Rat.Floor

/-!
# Decimal digits

A row of digits stands for a whole number. Filled with zeros and cut, the digits of a decimal
fraction stand for the fraction scaled by a power of ten, and what is cut off is what rounding down
takes away.

## Main results

* `digitsValue_scaled` — a fraction that is filled and cut
* `floor_scaled` — a number that is scaled and rounded down
-/

namespace AriOs.Arith

/-- What a row of decimal digits stands for. -/
def digitsValue (cs : List Char) : Nat := Nat.ofDigitChars 10 cs 0

variable {cs ds : List Char}

theorem digitsValue_append : digitsValue (cs ++ ds) =
    digitsValue cs * 10 ^ ds.length + digitsValue ds := by
  rw [digitsValue, Nat.ofDigitChars_append, Nat.ofDigitChars_eq_ofDigitChars_zero, Nat.mul_comm]
  rfl

theorem digitsValue_zeros (n : Nat) : digitsValue (List.replicate n '0') = 0 := by
  rw [digitsValue, Nat.ofDigitChars_replicate_zero, Nat.mul_zero]

/-- Digits stand for less than the next power of ten. -/
theorem digitsValue_lt (h : ∀ c ∈ cs, c.isDigit = true) : digitsValue cs < 10 ^ cs.length := by
  induction cs with
  | nil => decide
  | cons c cs ih =>
    obtain ⟨hc, hcs⟩ := List.forall_mem_cons.mp h
    have hdigit : digitsValue [c] ≤ 9 := by
      have : c.toNat ≤ 57 := by
        have hc : 48 ≤ c.toNat ∧ c.toNat ≤ 57 := by
          simpa [Char.isDigit, UInt32.le_iff_toNat_le] using hc
        exact hc.2
      simp only [digitsValue, Nat.ofDigitChars_cons, Nat.ofDigitChars_nil, Char.reduceToNat]
      omega
    have hsplit : digitsValue (c :: cs) = digitsValue [c] * 10 ^ cs.length + digitsValue cs :=
      @digitsValue_append [c] cs
    have hle := Nat.mul_le_mul_right (10 ^ cs.length) hdigit
    have := ih hcs
    rw [hsplit, List.length_cons, Nat.pow_succ]
    omega

/-- The digits that are cut off are divided away. -/
theorem digitsValue_take (h : ∀ c ∈ cs, c.isDigit = true) (n : Nat) :
    digitsValue (cs.take n) = digitsValue cs / 10 ^ (cs.length - n) := by
  have hsplit := @digitsValue_append (cs.take n) (cs.drop n)
  rw [List.take_append_drop, List.length_drop] at hsplit
  have hlt := digitsValue_lt fun c hc => h c (List.mem_of_mem_drop (i := n) hc)
  rw [List.length_drop] at hlt
  rw [hsplit, Nat.mul_comm, Nat.mul_add_div (Nat.pow_pos (by decide)), Nat.div_eq_of_lt hlt,
    Nat.add_zero]

/-- A fraction that is filled with zeros and cut to a number of digits. -/
theorem digitsValue_scaled (h : ∀ c ∈ cs, c.isDigit = true) (n : Nat) :
    digitsValue ((cs ++ List.replicate n '0').take n) =
      digitsValue cs * 10 ^ n / 10 ^ cs.length := by
  have hall : ∀ c ∈ cs ++ List.replicate n '0', c.isDigit = true := by
    intro c hc
    rcases List.mem_append.mp hc with hc | hc
    · exact h c hc
    · rw [List.eq_of_mem_replicate hc]
      rfl
  rw [digitsValue_take hall, digitsValue_append, digitsValue_zeros, List.length_append,
    List.length_replicate, Nat.add_zero, Nat.add_sub_cancel]

/-- A number with a fraction, scaled and rounded down. -/
theorem floor_scaled (w f k n : Nat) :
    ⌊((w : ℚ) + f / 10 ^ k) * 10 ^ n⌋ = (w : ℤ) * 10 ^ n + (f * 10 ^ n / 10 ^ k : Nat) := by
  have hscaled : ((w : ℚ) + f / 10 ^ k) * 10 ^ n =
      ((w * 10 ^ n : ℤ) : ℚ) + ((f * 10 ^ n : Nat) : ℚ) / ((10 ^ k : Nat) : ℚ) := by
    push_cast
    ring
  rw [hscaled, Int.floor_intCast_add, Rat.floor_natCast_div_natCast, Int.natCast_ediv]

end AriOs.Arith
