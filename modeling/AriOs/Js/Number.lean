import AriOs.Arith.Binary64

/-!
# Numbers of the source language

A `number` is a finite value, an infinity or not a number. A finite value is a rational, and
the operations are exact. Where the last bit of a result decides something, the code of a
caller is modelled with `rounded` after the operation, or with `Arith.toDouble`; elsewhere
its numbers are taken for exact ones. A `bigint` is an `Int`.

Comparisons with `nan` are false both ways, which is why `lt` and `le` are stated
separately and neither is the negation of the other.
-/

namespace AriOs.Js

/-- A `number`. -/
inductive JsNumber where
  | nan
  | infinity (negative : Bool)
  | finite (q : ℚ)
  deriving DecidableEq

/-- The double nearest to a number. From half a unit above the largest one on, it is infinite. -/
def nearest (q : ℚ) : JsNumber :=
  if 2 ^ 1024 - 2 ^ 970 ≤ |q| then .infinity (q < 0) else .finite (Arith.toDouble q)

namespace JsNumber

/-- The double that an operation with this result returns. -/
def rounded : JsNumber → JsNumber
  | .finite q => nearest q
  | n => n

/-- `Number(i)` for a `bigint`, exact. -/
def ofInt (i : Int) : JsNumber := .finite i

/-- `Number(i)` for a `bigint` of any size: from half a unit above the largest double on, it is
infinite. -/
def ofBigInt (i : Int) : JsNumber :=
  if 2 ^ 1024 - 2 ^ 970 ≤ |i| then .infinity (i < 0) else .ofInt i

/-- `a < b`. -/
def lt : JsNumber → JsNumber → Bool
  | .nan, _ | _, .nan => false
  | .finite a, .finite b => a < b
  | .infinity true, .infinity true => false
  | .infinity true, _ => true
  | .infinity false, _ => false
  | .finite _, .infinity negative => !negative

/-- `a <= b`. -/
def le (a b : JsNumber) : Bool := a.lt b || (a == b && a != .nan)

/-- `a + b`. -/
def add : JsNumber → JsNumber → JsNumber
  | .nan, _ | _, .nan => .nan
  | .finite a, .finite b => .finite (a + b)
  | .infinity s, .finite _ => .infinity s
  | .finite _, .infinity s => .infinity s
  | .infinity s, .infinity s' => if s = s' then .infinity s else .nan

/-- `-a`. -/
def neg : JsNumber → JsNumber
  | .nan => .nan
  | .infinity s => .infinity !s
  | .finite q => .finite (-q)

/-- `a - b`. -/
def sub (a b : JsNumber) : JsNumber := a.add b.neg

/-- `a * b`. -/
def mul : JsNumber → JsNumber → JsNumber
  | .nan, _ | _, .nan => .nan
  | .finite a, .finite b => .finite (a * b)
  | .infinity s, .finite b => if b = 0 then .nan else .infinity (s ^^ decide (b < 0))
  | .finite a, .infinity s => if a = 0 then .nan else .infinity (s ^^ decide (a < 0))
  | .infinity s, .infinity s' => .infinity (s ^^ s')

/-- `a / b`. -/
def div : JsNumber → JsNumber → JsNumber
  | .nan, _ | _, .nan => .nan
  | .finite a, .finite b =>
    if b ≠ 0 then .finite (a / b) else if a = 0 then .nan else .infinity (a < 0)
  | .infinity s, .finite b => .infinity (s ^^ decide (b < 0))
  | .finite _, .infinity _ => .finite 0
  | .infinity _, .infinity _ => .nan

/-- `Math.abs(a)`. -/
def abs : JsNumber → JsNumber
  | .finite q => .finite |q|
  | .infinity _ => .infinity false
  | .nan => .nan

/-- `Math.max(a, b)`. -/
def max (a b : JsNumber) : JsNumber :=
  if a = .nan ∨ b = .nan then .nan else if a.lt b then b else a

/-- `Math.min(a, b)`. -/
def min (a b : JsNumber) : JsNumber :=
  if a = .nan ∨ b = .nan then .nan else if a.lt b then a else b

/-- `Number.isFinite`. -/
def isFinite : JsNumber → Bool
  | .finite _ => true
  | _ => false

/-- `BigInt(Math.floor(a))`, defined for finite values only. -/
def floor? : JsNumber → Option Int
  | .finite q => some q.floor
  | _ => none

/-- `Math.floor`. -/
def floor : JsNumber → JsNumber
  | .finite q => .ofInt q.floor
  | n => n

/-- `Math.round`: halves go up. -/
def round : JsNumber → JsNumber
  | .finite q => .ofInt (q + 1 / 2).floor
  | n => n

/-- `BigInt(a)`: throws unless the value is an integer. -/
def toBigInt? : JsNumber → Option Int
  | .finite q => if q.den = 1 then some q.num else none
  | _ => none

/-- `Number.isInteger`. -/
def isInteger (a : JsNumber) : Bool := a.toBigInt?.isSome

/-- `Number.MAX_SAFE_INTEGER`. -/
def maxSafeInteger : Int := 2 ^ 53 - 1

/-- `Number.isSafeInteger`. -/
def isSafeInteger (a : JsNumber) : Bool :=
  match a.toBigInt? with
  | some i => decide (-maxSafeInteger ≤ i ∧ i ≤ maxSafeInteger)
  | none => false

/-- How a number is written into a message. Integers are written as the source language
writes them; the digits of other values are not modelled, and stand as a fraction. -/
def text : JsNumber → String
  | .nan => "NaN"
  | .infinity true => "-Infinity"
  | .infinity false => "Infinity"
  | .finite q => if q.den = 1 then toString q.num else toString q.num ++ "/" ++ toString q.den

instance : ToString JsNumber := ⟨text⟩

theorem lt_finite (a b : ℚ) : (finite a).lt (.finite b) = decide (a < b) := rfl

theorem le_finite (a b : ℚ) : (finite a).le (.finite b) = decide (a ≤ b) := by
  rw [Bool.eq_iff_iff]
  simp [le, lt_finite, le_iff_lt_or_eq]

theorem lt_trans {a b c : JsNumber} (hab : a.lt b = true) (hbc : b.lt c = true) :
    a.lt c = true := by
  rcases a with _ | ⟨_ | _⟩ | a <;> rcases b with _ | ⟨_ | _⟩ | b <;>
    rcases c with _ | ⟨_ | _⟩ | c <;> simp [lt] at hab hbc ⊢
  exact hab.trans hbc

theorem le_trans {a b c : JsNumber} (hab : a.le b = true) (hbc : b.le c = true) :
    a.le c = true := by
  simp only [le, Bool.or_eq_true, Bool.and_eq_true, beq_iff_eq, bne_iff_ne] at hab hbc ⊢
  rcases hab with hab | ⟨rfl, hnan⟩
  · rcases hbc with hbc | ⟨rfl, -⟩
    · exact .inl (lt_trans hab hbc)
    · exact .inl hab
  · exact hbc

theorem add_finite (a b : ℚ) : (finite a).add (.finite b) = .finite (a + b) := rfl

theorem sub_finite (a b : ℚ) : (finite a).sub (.finite b) = .finite (a - b) := by
  rw [sub_eq_add_neg]
  rfl

theorem mul_finite (a b : ℚ) : (finite a).mul (.finite b) = .finite (a * b) := rfl

theorem div_finite (a : ℚ) {b : ℚ} (hb : b ≠ 0) : (finite a).div (.finite b) = .finite (a / b) :=
  if_pos hb

theorem lt_ofInt {a b : ℤ} : (ofInt a).lt (.ofInt b) = decide (a < b) := by
  rw [ofInt, ofInt, lt_finite, decide_eq_decide, Int.cast_lt]

theorem le_ofInt {a b : ℤ} : (ofInt a).le (.ofInt b) = decide (a ≤ b) := by
  rw [ofInt, ofInt, le_finite, decide_eq_decide, Int.cast_le]

theorem add_ofInt (a b : ℤ) : (ofInt a).add (.ofInt b) = .ofInt (a + b) := by
  rw [ofInt, ofInt, add_finite, ofInt, Int.cast_add]

theorem sub_ofInt (a b : ℤ) : (ofInt a).sub (.ofInt b) = .ofInt (a - b) := by
  rw [ofInt, ofInt, sub_finite, ofInt, Int.cast_sub]

theorem max_ofInt (a b : ℤ) : (ofInt a).max (.ofInt b) = .ofInt (Max.max a b) := by
  rw [max, if_neg (by simp [ofInt]), lt_ofInt]
  by_cases h : a < b
  · simp [h, h.le]
  · simp [h, not_lt.mp h]

theorem min_ofInt (a b : ℤ) : (ofInt a).min (.ofInt b) = .ofInt (Min.min a b) := by
  rw [min, if_neg (by simp [ofInt]), lt_ofInt]
  by_cases h : a < b
  · simp [h, h.le]
  · simp [h, not_lt.mp h]

@[simp] theorem toBigInt?_ofInt (i : Int) : (ofInt i).toBigInt? = some i := by
  simp [ofInt, toBigInt?]

/-- What is converted to a `bigint` was a whole number. -/
theorem eq_ofInt_of_toBigInt? {n : JsNumber} {i : ℤ} (h : n.toBigInt? = some i) :
    n = ofInt i := by
  cases n with
  | finite q =>
    by_cases hq : q.den = 1
    · obtain rfl : q.num = i := by simpa [toBigInt?, hq] using h
      exact congrArg finite (Rat.coe_int_num_of_den_eq_one hq).symm
    · simp [toBigInt?, hq] at h
  | nan | infinity => simp [toBigInt?] at h

/-- A safe integer is an integer. -/
theorem exists_ofInt_of_isSafeInteger {n : JsNumber} (h : n.isSafeInteger = true) :
    ∃ i, n = ofInt i := by
  cases hi : n.toBigInt? with
  | none => simp [isSafeInteger, hi] at h
  | some i => exact ⟨i, eq_ofInt_of_toBigInt? hi⟩

end JsNumber

end AriOs.Js
