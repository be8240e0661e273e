import AriOs.Arith.Decimal
import AriOs.Js.Numeral
import AriOs.Js.Throw

/-!
# Amounts in base units

`toBaseUnits` reads an amount from a decimal text without rounding through a double: the digits
before the point are scaled, those after it are filled with zeros or cut.
-/

namespace AriOs.Kernel

open AriOs.Arith AriOs.Js

/-- `/^\d+(\.\d+)?$/`. -/
def isAmount (s : List Char) : Bool :=
  let (whole, rest) := s.span Char.isDigit
  whole ≠ [] &&
    match rest with
    | [] => true
    | '.' :: frac => frac ≠ [] && frac.all Char.isDigit
    | _ => false

/-- `BigInt(s)`. -/
def bigIntOf (s : List Char) : Except String Int :=
  orThrow (bigInt? (String.ofList s)) ("Cannot convert " ++ String.ofList s ++ " to a BigInt")

/-- An amount is given as a number or as a text. -/
inductive Amount where
  | number (x : JsNumber)
  | text (s : String)

/-- `String(amount)`. -/
def Amount.toText : Amount → String
  | .number x => toString x
  | .text s => s

/-- `toBaseUnits`; `toFixed` writes a number with as many decimals. -/
def toBaseUnits (toFixed : JsNumber → Nat → Except String String) (amount : Amount)
    (decimals : Nat) : Except String Int := do
  let s ← match amount with
    | .number x => (toFixed x decimals).map String.toList
    | .text s => .ok (trim s.toList)
  throwIf (isAmount s = false) s!"invalid amount for {decimals} decimals: {amount.toText}"
  let parts := splitOnChar '.' s
  let whole := parts.headD []
  let frac := parts.getD 1 []
  let fracPadded := (frac ++ List.replicate decimals '0').take decimals
  let whole ← bigIntOf whole
  let frac ← bigIntOf (if fracPadded = [] then ['0'] else fracPadded)
  .ok (whole * 10 ^ decimals + frac)

/-! ### Texts that are amounts -/

/-- Digits, and a point with digits after it if there is one, stand for a number. -/
inductive Denotes : List Char → ℚ → Prop
  | whole {whole : List Char} (h : IsNumeral whole) : Denotes whole (digitsValue whole)
  | point {whole frac : List Char} (h : IsNumeral whole) (hfrac : IsNumeral frac) :
    Denotes (whole ++ '.' :: frac) (digitsValue whole + digitsValue frac / 10 ^ frac.length)

section Amount

variable {s whole frac : List Char} {q : ℚ} {decimals : Nat} {n : Int}

theorem span_isDigit (h : IsNumeral whole) {rest : List Char}
    (hrest : ∀ c ∈ rest.head?, c.isDigit = false) :
    (whole ++ rest).span Char.isDigit = (whole, rest) := by
  rw [List.span_eq_takeWhile_dropWhile, List.takeWhile_append_of_pos h.2,
    List.dropWhile_append_of_pos h.2]
  cases rest with
  | nil => simp
  | cons c rest =>
    have hc := hrest c rfl
    rw [List.takeWhile_cons_of_neg (by simp [hc]), List.dropWhile_cons_of_neg (by simp [hc]),
      List.append_nil]

theorem isAmount_of_denotes (h : Denotes s q) : isAmount s = true := by
  cases h with
  | whole h =>
    have hspan : (s ++ []).span Char.isDigit = (s, []) := span_isDigit h (by simp)
    rw [List.append_nil] at hspan
    unfold isAmount
    rw [hspan]
    simp [h.1]
  | point h hfrac =>
    unfold isAmount
    rw [span_isDigit h (by simp [Char.isDigit])]
    simp only [Bool.and_eq_true, decide_eq_true_eq, List.all_eq_true]
    exact ⟨h.1, hfrac.1, hfrac.2⟩

/-- The pattern accepts what stands for a number. -/
theorem exists_denotes (h : isAmount s = true) : ∃ q, Denotes s q := by
  have hdigits : ∀ c ∈ s.takeWhile Char.isDigit, c.isDigit = true := fun c hc =>
    List.mem_takeWhile_imp hc
  have hsplit := List.takeWhile_append_dropWhile (p := Char.isDigit) (l := s)
  unfold isAmount at h
  rw [List.span_eq_takeWhile_dropWhile] at h
  simp only [Bool.and_eq_true, decide_eq_true_eq] at h
  obtain ⟨hwhole, hrest⟩ := h
  split at hrest
  · next hnil =>
    rw [hnil, List.append_nil] at hsplit
    rw [← hsplit]
    exact ⟨_, .whole ⟨hwhole, hdigits⟩⟩
  · next frac hpoint =>
    rw [hpoint] at hsplit
    simp only [Bool.and_eq_true, decide_eq_true_eq, List.all_eq_true] at hrest
    rw [← hsplit]
    exact ⟨_, .point ⟨hwhole, hdigits⟩ ⟨hrest.1, hrest.2⟩⟩
  · exact absurd hrest (by simp)

/-! ### What an amount comes to -/

theorem bigIntOf_numeral (h : IsNumeral s) : bigIntOf s = .ok (digitsValue s : Int) := by
  rw [bigIntOf, bigInt?_numeral h]
  rfl

/-- The digits of a fraction, filled and cut, as they are read. -/
theorem bigIntOf_padded (h : ∀ c ∈ frac, c.isDigit = true) :
    bigIntOf (if (frac ++ List.replicate decimals '0').take decimals = [] then ['0']
      else (frac ++ List.replicate decimals '0').take decimals) =
      .ok ((digitsValue frac * 10 ^ decimals / 10 ^ frac.length : Nat) : Int) := by
  rw [← digitsValue_scaled h]
  split
  · next hnil =>
    rw [hnil]
    rfl
  · next hne =>
    refine bigIntOf_numeral ⟨hne, fun c hc => ?_⟩
    rcases List.mem_append.mp (List.mem_of_mem_take hc) with hc | hc
    · exact h c hc
    · rw [List.eq_of_mem_replicate hc]
      rfl

theorem not_point_of_isDigit (h : ∀ c ∈ s, c.isDigit = true) :
    ∀ c ∈ s, (c == '.') = false := by
  intro c hc
  have hdigit := h c hc
  rw [beq_eq_false_iff_ne]
  rintro rfl
  exact absurd hdigit (by decide)

/-- The parts of an amount, read one by one. -/
theorem floor_of_denotes (h : Denotes s q) (decimals : Nat) : ∃ whole frac : List Char,
    (splitOnChar '.' s).headD [] = whole ∧ (splitOnChar '.' s).getD 1 [] = frac ∧
      IsNumeral whole ∧ (∀ c ∈ frac, c.isDigit = true) ∧
      ⌊q * 10 ^ decimals⌋ = (digitsValue whole : Int) * 10 ^ decimals +
        (digitsValue frac * 10 ^ decimals / 10 ^ frac.length : Nat) := by
  cases h with
  | whole h =>
    refine ⟨s, [], ?_, ?_, h, by simp, ?_⟩
    · rw [splitOnChar, List.splitOn, List.splitOnP_eq_singleton (not_point_of_isDigit h.2)]
      rfl
    · rw [splitOnChar, List.splitOn, List.splitOnP_eq_singleton (not_point_of_isDigit h.2)]
      rfl
    · have := floor_scaled (digitsValue s) (digitsValue []) 0 decimals
      simpa [digitsValue] using this
  | @point whole frac h hfrac =>
    -- the text is split at its only point
    have hsplit : splitOnChar '.' (whole ++ '.' :: frac) = [whole, frac] := by
      rw [splitOnChar, List.splitOn,
        List.splitOnP_append_cons_of_forall_mem (not_point_of_isDigit h.2) _ (by simp),
        List.splitOnP_eq_singleton (not_point_of_isDigit hfrac.2)]
    refine ⟨whole, frac, ?_, ?_, h, hfrac.2, ?_⟩
    · rw [hsplit]
      rfl
    · rw [hsplit]
      rfl
    · exact floor_scaled (digitsValue whole) (digitsValue frac) frac.length decimals

variable {toFixed : JsNumber → Nat → Except String String}

/-- What is read once the text of an amount is there. -/
theorem read_of_denotes (h : Denotes s q) (decimals : Nat) (message : String) :
    (do
      throwIf (isAmount s = false) message
      let parts := splitOnChar '.' s
      let whole := parts.headD []
      let frac := parts.getD 1 []
      let fracPadded := (frac ++ List.replicate decimals '0').take decimals
      let whole ← bigIntOf whole
      let frac ← bigIntOf (if fracPadded = [] then ['0'] else fracPadded)
      .ok (whole * 10 ^ decimals + frac) : Except String Int) = .ok ⌊q * 10 ^ decimals⌋ := by
  obtain ⟨whole, frac, hwhole, hfrac, hnumeral, hdigits, hfloor⟩ := floor_of_denotes h decimals
  simp only [hwhole, hfrac, isAmount_of_denotes h, bigIntOf_numeral hnumeral,
    bigIntOf_padded hdigits, hfloor]
  rfl

/-- A text is an amount exactly if it is digits with at most one point between them, up to white
space around it, and it comes to what it stands for in base units, rounded down. -/
theorem toBaseUnits_eq_ok_iff (s : String) (decimals : Nat) (n : Int) :
    toBaseUnits toFixed (.text s) decimals = .ok n ↔
      ∃ q, Denotes (trim s.toList) q ∧ n = ⌊q * 10 ^ decimals⌋ := by
  constructor
  · intro h
    have hamount : isAmount (trim s.toList) = true := by
      simp only [toBaseUnits, bind_eq_ok, throwIf_eq_ok] at h
      obtain ⟨_, hs, _, hamount, -⟩ := h
      rw [← Except.ok.inj hs] at hamount
      simpa using hamount
    obtain ⟨q, hq⟩ := exists_denotes hamount
    have hread := (read_of_denotes hq decimals _).symm.trans h
    exact ⟨q, hq, (Except.ok.inj hread).symm⟩
  · rintro ⟨q, hq, rfl⟩
    exact read_of_denotes hq decimals _

end Amount

end AriOs.Kernel
