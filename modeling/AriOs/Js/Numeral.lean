import AriOs.Js.Value
import Mathlib.Data.List.TakeDrop
import Mathlib.Data.List.TakeWhile

/-!
# Numbers read from a text

`Number(s)`: white space around it does not count, nothing at all is zero, and what is no
numeral is not a number. The value of a numeral is rounded to the nearest double.

## Main definitions

* `toNumber`, `bigInt?` — `Number(s)` and `BigInt(s)`

## Main results

* `toNumber_numeral` — such a row is read as the number it denotes, rounded
* `nearest_natCast` — whole numbers are exact below `2 ^ 53`, and large beyond
* `bigInt?_toString` — a `bigint` is read from its own text
-/

namespace AriOs.Js

/-- `s.split(c)`. -/
def splitOnChar (c : Char) (s : List Char) : List (List Char) := s.splitOn c

/-- `s.trim().split(/\s+/)`, where there is a word at all. -/
def words (s : String) : List (List Char) := (s.toList.splitOnP isSpace).filter (· ≠ [])

/-- The value of a digit in bases up to 36, and 36 for what is none. -/
def digitValue (c : Char) : Nat :=
  if '0' ≤ c ∧ c ≤ '9' then c.toNat - '0'.toNat
  else if 'a' ≤ c ∧ c ≤ 'z' then c.toNat - 'a'.toNat + 10
  else if 'A' ≤ c ∧ c ≤ 'Z' then c.toNat - 'A'.toNat + 10
  else 36

/-- Digits of a base, at least one. -/
def digits? (base : Nat) (cs : List Char) : Option Nat :=
  if cs ≠ [] ∧ cs.all (fun c => digitValue c < base) then
    some (cs.foldl (fun n c => base * n + digitValue c) 0)
  else none

/-- Decimal digits with a sign. -/
def signedDigits? : List Char → Option Int
  | '-' :: cs => (digits? 10 cs).map fun n => -(n : Int)
  | '+' :: cs => (digits? 10 cs).map Int.ofNat
  | cs => (digits? 10 cs).map Int.ofNat

/-- A decimal numeral without a sign. -/
def decimal? (cs : List Char) : Option ℚ :=
  let (mantissa, exponent) := cs.span fun c => c ≠ 'e' && c ≠ 'E'
  let (whole, fraction) := mantissa.span (· ≠ '.')
  let fraction := fraction.drop 1
  match digits? 10 (whole ++ fraction), exponent with
  | some n, [] => some (n / 10 ^ fraction.length)
  | some n, _ :: e => (signedDigits? e).map fun k => n / 10 ^ fraction.length * 10 ^ k
  | none, _ => none

/-- A decimal numeral or the word for infinity, with the sign in front of it. -/
def signed (negative : Bool) (cs : List Char) : JsNumber :=
  if cs = "Infinity".toList then .infinity negative
  else match decimal? cs with
    | some q => nearest (if negative then -q else q)
    | none => .nan

/-- A numeral in another base than ten. -/
def prefixed (base : Nat) (cs : List Char) : JsNumber :=
  match digits? base cs with
  | some n => nearest n
  | none => .nan

/-- `Number(s)`. -/
def toNumber (s : List Char) : JsNumber :=
  match trim s with
  | [] => .ofInt 0
  | '0' :: 'x' :: cs | '0' :: 'X' :: cs => prefixed 16 cs
  | '0' :: 'o' :: cs | '0' :: 'O' :: cs => prefixed 8 cs
  | '0' :: 'b' :: cs | '0' :: 'B' :: cs => prefixed 2 cs
  | '-' :: cs => signed true cs
  | '+' :: cs => signed false cs
  | cs => signed false cs

example : toNumber " 2.50e1".toList = .ofInt 25 := by decide +kernel

example : toNumber "0x1f".toList = .ofInt 31 := by decide +kernel

/-- `BigInt(s)`. -/
def bigInt? (s : String) : Option Int :=
  match trim s.toList with
  | [] => some 0
  | '0' :: 'x' :: cs | '0' :: 'X' :: cs => (digits? 16 cs).map Int.ofNat
  | '0' :: 'o' :: cs | '0' :: 'O' :: cs => (digits? 8 cs).map Int.ofNat
  | '0' :: 'b' :: cs | '0' :: 'B' :: cs => (digits? 2 cs).map Int.ofNat
  | cs => signedDigits? cs

/-! ### Rows of digits -/

/-- Decimal digits, at least one. -/
def IsNumeral (cs : List Char) : Prop := cs ≠ [] ∧ ∀ c ∈ cs, c.isDigit = true

section Numeral

variable {cs : List Char} {c : Char}

theorem digitValue_of_isDigit (h : c.isDigit = true) :
    digitValue c = c.toNat - '0'.toNat ∧ digitValue c < 10 := by
  have hc : '0' ≤ c ∧ c ≤ '9' := by simpa [Char.isDigit, Char.le_def] using h
  have hle : c.toNat ≤ 57 := by simpa [Char.le_def, UInt32.le_iff_toNat_le] using hc.2
  have hlt : c.toNat - '0'.toNat < 10 := by
    simp only [Char.reduceToNat]
    omega
  rw [digitValue, if_pos hc]
  exact ⟨rfl, hlt⟩

theorem isNumeral_toDigits (n : Nat) : IsNumeral (Nat.toDigits 10 n) :=
  ⟨Nat.toDigits_ne_nil, fun _ hc => Nat.isDigit_of_mem_toDigits (by decide) (by decide) hc⟩

theorem digits?_numeral (h : IsNumeral cs) : digits? 10 cs = some (Nat.ofDigitChars 10 cs 0) := by
  have hall : cs.all (fun c => digitValue c < 10) = true := by
    rw [List.all_eq_true]
    exact fun c hc => decide_eq_true (digitValue_of_isDigit (h.2 c hc)).2
  rw [digits?, if_pos ⟨h.1, hall⟩, Nat.ofDigitChars_eq_foldl]
  congr 1
  exact List.foldl_ext _ _ _ fun n c hc => by rw [(digitValue_of_isDigit (h.2 c hc)).1]

theorem span_of_forall {p : Char → Bool} (h : ∀ c ∈ cs, p c = true) : cs.span p = (cs, []) := by
  rw [List.span_eq_takeWhile_dropWhile, List.takeWhile_eq_self_iff.mpr h,
    List.dropWhile_eq_nil_iff.mpr h]

theorem decimal?_numeral (h : IsNumeral cs) :
    decimal? cs = some (Nat.ofDigitChars 10 cs 0 : ℚ) := by
  have hexponent : cs.span (fun c => c ≠ 'e' && c ≠ 'E') = (cs, []) :=
    span_of_forall fun c hc => by
      have := h.2 c hc
      simp
      constructor <;> rintro rfl <;> simp [Char.isDigit] at this
  have hpoint : cs.span (fun c => decide (c ≠ '.')) = (cs, []) :=
    span_of_forall fun c hc => by
      have := h.2 c hc
      simp
      rintro rfl
      simp [Char.isDigit] at this
  rw [decimal?, hexponent]
  dsimp only
  rw [hpoint]
  simp [digits?_numeral h]

/-- A row of digits is read as the number it denotes. -/
theorem toNumber_numeral (h : IsNumeral cs) :
    toNumber cs = nearest (Nat.ofDigitChars 10 cs 0) := by
  have hword : cs ≠ "Infinity".toList := by
    rintro rfl
    exact absurd (h.2 'I' (by decide)) (by decide)
  have hsigned : signed false cs = nearest (Nat.ofDigitChars 10 cs 0) := by
    rw [signed, if_neg hword, decimal?_numeral h]
    rfl
  rw [toNumber, trim_eq_self fun c hc => isSpace_of_isDigit (h.2 c hc)]
  obtain ⟨hne, hdigits⟩ := h
  split
  · exact absurd rfl hne
  -- none of the prefixes consists of digits
  all_goals first
    | exact hsigned
    | exact absurd (hdigits _ List.mem_cons_self) (by decide)
    | exact absurd (hdigits _ (List.mem_cons_of_mem _ List.mem_cons_self)) (by decide)

/-- So it is as a `bigint`. -/
theorem bigInt?_numeral (h : IsNumeral cs) :
    bigInt? (String.ofList cs) = some (Nat.ofDigitChars 10 cs 0 : Int) := by
  rw [bigInt?, String.toList_ofList, trim_eq_self fun c hc => isSpace_of_isDigit (h.2 c hc)]
  obtain ⟨hne, hdigits⟩ := id h
  split
  · exact absurd rfl hne
  case h_8 =>
    unfold signedDigits?
    split
    case h_3 => rw [digits?_numeral h]; rfl
    all_goals exact absurd (hdigits _ List.mem_cons_self) (by decide)
  -- none of the prefixes consists of digits
  all_goals exact absurd (hdigits _ (List.mem_cons_of_mem _ List.mem_cons_self)) (by decide)

/-- A `bigint` is read from its own text. -/
theorem bigInt?_toString (i : Int) : bigInt? (toString i) = some i := by
  cases i with
  | ofNat n =>
    have htext : toString (Int.ofNat n) = String.ofList (Nat.toDigits 10 n) :=
      String.toList_inj.mp (by rw [String.toList_ofList]; exact Nat.toList_repr)
    rw [htext, bigInt?_numeral (isNumeral_toDigits n), Nat.ofDigitChars_toDigits (by decide)
      (by decide)]
    rfl
  | negSucc n =>
    have htext : (toString (Int.negSucc n)).toList = '-' :: Nat.toDigits 10 (n + 1) := by
      change (String.toList ("-" ++ Nat.repr (n + 1))) = _
      rw [String.toList_append, Nat.toList_repr]
      rfl
    have hspace : ∀ c ∈ '-' :: Nat.toDigits 10 (n + 1), isSpace c = false := by
      rw [List.forall_mem_cons]
      exact ⟨by decide, fun c hc => isSpace_of_isDigit ((isNumeral_toDigits _).2 c hc)⟩
    rw [bigInt?, htext, trim_eq_self hspace]
    simp [signedDigits?, digits?_numeral (isNumeral_toDigits _),
      Nat.ofDigitChars_toDigits, Int.negSucc_eq]

/-- A whole number is rounded to itself below `2 ^ 53`, and beyond to one that is not below, or to
infinity. -/
theorem nearest_natCast (n : Nat) :
    (n < 2 ^ 53 → nearest n = .ofInt n) ∧
      (2 ^ 53 ≤ n → nearest n = .infinity false ∨ ∃ m : Nat, 2 ^ 53 ≤ m ∧ nearest n = .ofInt m) := by
  have habs : |(n : ℚ)| = n := abs_of_nonneg (Nat.cast_nonneg n)
  rw [nearest, habs]
  constructor
  · intro hlt
    have hcast : (n : ℚ) < 2 ^ 53 := by exact_mod_cast hlt
    have hsmall : ¬ (2 : ℚ) ^ 1024 - 2 ^ 970 ≤ n := by
      rw [not_le]
      exact hcast.trans (by decide +kernel)
    -- up to 53 digits a double is exact
    have hexact := Arith.toDouble_intCast (n := n) (by rw [abs_of_nonneg (by omega)]; omega)
    rw [if_neg hsmall, JsNumber.ofInt]
    exact congrArg JsNumber.finite (by exact_mod_cast hexact)
  · intro hle
    split
    · left
      rw [decide_eq_false (not_lt.mpr (Nat.cast_nonneg n))]
    · right
      obtain ⟨m, hm⟩ := Arith.exists_toDouble_intCast n
      -- rounding is monotone, and the bound is a double
      have hround : ((2 ^ 53 : ℤ) : ℚ) ≤ Arith.toDouble (n : ℚ) :=
        Arith.le_toDouble (by norm_num) le_rfl (by exact_mod_cast hle)
      have hm' : Arith.toDouble (n : ℚ) = m := by exact_mod_cast hm
      rw [hm'] at hround
      have hpos : (2 ^ 53 : ℤ) ≤ m := by exact_mod_cast hround
      refine ⟨m.toNat, by omega, ?_⟩
      rw [hm', JsNumber.ofInt, Int.toNat_of_nonneg (by omega)]

end Numeral

end AriOs.Js
