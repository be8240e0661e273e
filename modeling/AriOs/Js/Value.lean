import AriOs.Js.Number
import Mathlib.Data.List.Lex
import Mathlib.Data.List.Sort

/-!
# Values and text of the source language

A value is a tree: a reference back to an enclosing object, which only a cyclic structure
has, is a leaf of its own. Text is a `String`; its length and order are those of its
UTF-16 code units, as the source language counts and compares them.
-/

namespace AriOs.Js

/-- A value. `other` is a function, a symbol or a reference back to an enclosing object. -/
inductive JsValue where
  | undefined
  | null
  | bool (b : Bool)
  | number (n : JsNumber)
  | bigint (i : Int)
  | string (s : String)
  | array (items : List JsValue)
  | object (fields : List (String × JsValue))
  | other

namespace JsValue

/-- `v?.key`. -/
def field (v : JsValue) (key : String) : JsValue :=
  match v with
  | .object fields => (fields.lookup key).getD .undefined
  | _ => .undefined

/-- The text, if the value is one. -/
def text? : JsValue → Option String
  | .string s => some s
  | _ => none

/-- The number, if the value is one. -/
def number? : JsValue → Option JsNumber
  | .number n => some n
  | _ => none

/-- The integer of a value that passes `Number.isSafeInteger`. -/
def safeInteger? (v : JsValue) : Option Int :=
  match v with
  | .number n => if n.isSafeInteger then n.toBigInt? else none
  | _ => none

/-- A value passes for an integer if it is the number of a safe one. -/
theorem safeInteger?_eq_some {v : JsValue} {i : Int} : v.safeInteger? = some i ↔
    v = .number (.ofInt i) ∧ (JsNumber.ofInt i).isSafeInteger = true := by
  constructor
  · intro h
    cases v with
    | number n =>
      obtain ⟨hsafe, hi⟩ := Option.ite_none_right_eq_some.mp h
      obtain ⟨i', rfl⟩ := JsNumber.exists_ofInt_of_isSafeInteger hsafe
      rw [JsNumber.toBigInt?_ofInt, Option.some_inj] at hi
      subst hi
      exact ⟨rfl, hsafe⟩
    | undefined | null | bool | bigint | string | array | object | other => cases h
  · rintro ⟨rfl, hsafe⟩
    simp [safeInteger?, hsafe]

end JsValue

/-- The UTF-16 code units of a character. -/
def codeUnits (c : Char) : List Nat :=
  if c.toNat < 0x10000 then [c.toNat]
  else [0xD800 + (c.toNat - 0x10000) / 0x400, 0xDC00 + (c.toNat - 0x10000) % 0x400]

/-- The UTF-16 code units of a text. -/
def utf16 (s : String) : List Nat := s.toList.flatMap codeUnits

/-- `s.length`. -/
def textLength (s : String) : Nat := (utf16 s).length

/-- `a <= b` on texts, the order of `sort` without a comparison function. -/
def textLe (a b : String) : Bool := utf16 a ≤ utf16 b

/-- White space and line terminators. -/
def isSpace (c : Char) : Bool :=
  c.toNat ∈ [0x09, 0x0A, 0x0B, 0x0C, 0x0D, 0x20, 0xA0, 0x1680, 0x2028, 0x2029, 0x202F, 0x205F,
    0x3000, 0xFEFF] || (0x2000 ≤ c.toNat && c.toNat ≤ 0x200A)

/-- `s.trim()`. -/
def trim (cs : List Char) : List Char :=
  ((cs.dropWhile isSpace).reverse.dropWhile isSpace).reverse

theorem isSpace_of_isDigit {c : Char} (h : c.isDigit = true) : isSpace c = false := by
  have hc : 48 ≤ c.toNat ∧ c.toNat ≤ 57 := by
    simpa [Char.isDigit, UInt32.le_iff_toNat_le] using h
  unfold isSpace
  simp only [List.mem_cons, List.not_mem_nil, or_false, Bool.or_eq_false_iff,
    decide_eq_false_iff_not, Bool.and_eq_false_iff]
  omega

/-- Trimming leaves a text without white space as it is. -/
theorem trim_eq_self {cs : List Char} (h : ∀ c ∈ cs, isSpace c = false) :
    trim cs = cs := by
  have hdrop : ∀ l : List Char, (∀ c ∈ l, isSpace c = false) → l.dropWhile isSpace = l := by
    intro l hl
    cases l with
    | nil => rfl
    | cons c l => exact List.dropWhile_cons_of_neg (by simp [hl c List.mem_cons_self])
  rw [trim, hdrop cs h, hdrop cs.reverse fun c hc => h c (List.mem_reverse.mp hc), List.reverse_reverse]

/-- `!s.trim()`. -/
def isBlank (s : String) : Bool := s.toList.all isSpace

/-- `s.toLowerCase()`, as far as comparisons with hexadecimal text can tell: no letter
outside ASCII has a hexadecimal digit for its lower case. -/
def toLowerCase (s : String) : String := String.ofList (s.toList.map Char.toLower)

/-- A pattern of lower-case letters, with one character of any kind where there is none. -/
def matchesAt : List (Option Char) → List Char → Bool
  | [], _ => true
  | some c :: pattern, d :: cs => d.toLower = c && matchesAt pattern cs
  | some _ :: _, [] => false
  -- `.?`: the character may be missing; it is one code unit and ends no line
  | none :: pattern, cs =>
    matchesAt pattern cs ||
      match cs with
      | [] => false
      | d :: cs =>
        d.toNat < 0x10000 && d.toNat ∉ [0x0A, 0x0D, 0x2028, 0x2029] && matchesAt pattern cs

mutual

/-- `JSON.stringify` throws: there is a `bigint` somewhere. -/
def hasBigint : JsValue → Bool
  | .bigint _ => true
  | .array items => itemsHaveBigint items
  | .object fields => fieldsHaveBigint fields
  | _ => false

def itemsHaveBigint : List JsValue → Bool
  | [] => false
  | v :: vs => hasBigint v || itemsHaveBigint vs

def fieldsHaveBigint : List (String × JsValue) → Bool
  | [] => false
  | (_, v) :: fields => hasBigint v || fieldsHaveBigint fields

end

/-- How `JSON.stringify` writes a text and a finite number. -/
structure Stringify where
  string : String → String
  number : ℚ → String

end AriOs.Js
