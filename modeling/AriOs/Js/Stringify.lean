import AriOs.Js.Json
import Mathlib

/-!
# The host's JSON text

How `JSON.stringify` writes a text: between quotes, with quotes, backslashes and control
characters escaped. No escape is the start of another, so a text ends at the first quote that is
not escaped, and what is written can be told from what follows it.

Integers are written with their digits. The digits of other numbers are not modelled: these are
written with numerator and denominator, which is enough to tell them apart.

## Main results

* `stringify_lawful` — values can be read back from what is written with it
-/

namespace AriOs.Js

/-! ### Texts -/

/-- The characters that do not stand for themselves. -/
def escaped : List Char := '"' :: '\\' :: (List.range 32).map Char.ofNat

/-- What follows the backslash. -/
def escapeCode (c : Char) : List Char :=
  if c = '"' ∨ c = '\\' then [c]
  else if c = '\n' then ['n']
  else if c = '\r' then ['r']
  else if c = '\t' then ['t']
  else if c = Char.ofNat 8 then ['b']
  else if c = Char.ofNat 12 then ['f']
  else ['u', '0', '0', Nat.digitChar (c.toNat / 16), Nat.digitChar (c.toNat % 16)]

/-- A character inside a quoted text. -/
def escape (c : Char) : List Char := if c ∈ escaped then '\\' :: escapeCode c else [c]

/-- A text between quotes. -/
def quote (s : String) : String :=
  String.ofList ('"' :: (s.toList.flatMap escape ++ ['"']))

/-- No escape is the start of another. -/
theorem escapeCode_starts : ∀ c ∈ escaped, ∀ c' ∈ escaped,
    escapeCode c <+: escapeCode c' → c = c' := by
  have hall : (escaped.all fun c => escaped.all fun c' =>
      !(escapeCode c).isPrefixOf (escapeCode c') || c == c') = true := by decide
  intro c hc c' hc' hprefix
  have hpair := List.all_eq_true.mp (List.all_eq_true.mp hall c hc) c' hc'
  rw [List.isPrefixOf_iff_prefix.mpr hprefix] at hpair
  exact eq_of_beq hpair

theorem escape_unique {c c' : Char} {r r' : List Char} (h : escape c ++ r = escape c' ++ r') :
    c = c' ∧ r = r' := by
  have hbackslash : '\\' ∈ escaped := by decide
  unfold escape at h
  split at h <;> split at h
  next hc hc' =>
    have hcode := (List.cons.inj h).2
    -- both escapes start the same text, so one of them starts the other
    have heq : c = c' := by
      rcases List.prefix_or_prefix_of_prefix (List.prefix_append (escapeCode c) r)
        (show escapeCode c' <+: escapeCode c ++ r from ⟨r', hcode.symm⟩) with hpre | hpre
      · exact escapeCode_starts c hc c' hc' hpre
      · exact (escapeCode_starts c' hc' c hc hpre).symm
    subst heq
    exact ⟨rfl, List.append_cancel_left hcode⟩
  next hc hc' => exact absurd ((List.cons.inj h).1 ▸ hbackslash) hc'
  next hc hc' => exact absurd ((List.cons.inj h).1 ▸ hbackslash) hc
  next hc hc' => exact List.cons.inj h

/-- No character is written with a quote in front. -/
theorem escape_head (c : Char) : ∃ d rest, escape c = d :: rest ∧ d ≠ '"' := by
  unfold escape
  split
  next hc => exact ⟨'\\', _, rfl, by decide⟩
  next hc =>
    refine ⟨c, [], rfl, ?_⟩
    rintro rfl
    exact hc (by decide)

theorem escapes_unique {s s' r r' : List Char}
    (h : s.flatMap escape ++ '"' :: r = s'.flatMap escape ++ '"' :: r') : s = s' ∧ r = r' := by
  induction s generalizing s' with
  | nil =>
    cases s' with
    | nil => exact ⟨rfl, (List.cons.inj h).2⟩
    | cons c' s' =>
      obtain ⟨d, rest, hd, hne⟩ := escape_head c'
      rw [List.flatMap_cons, hd] at h
      exact absurd (List.cons.inj h).1.symm hne
  | cons c s ih =>
    cases s' with
    | nil =>
      obtain ⟨d, rest, hd, hne⟩ := escape_head c
      rw [List.flatMap_cons, hd] at h
      exact absurd (List.cons.inj h).1 hne
    | cons c' s' =>
      rw [List.flatMap_cons, List.flatMap_cons, List.append_assoc, List.append_assoc] at h
      obtain ⟨rfl, htail⟩ := escape_unique h
      obtain ⟨rfl, rfl⟩ := ih htail
      exact ⟨rfl, rfl⟩

theorem quote_unique {s s' : String} {r r' : List Char}
    (h : (quote s).toList ++ r = (quote s').toList ++ r') : s = s' ∧ r = r' := by
  simp only [quote, String.toList_ofList, List.cons_append, List.append_assoc,
    List.nil_append] at h
  obtain ⟨hs, rfl⟩ := escapes_unique (List.cons.inj h).2
  exact ⟨String.toList_inj.mp hs, rfl⟩

/-! ### Numbers -/

/-- A number. -/
def numberText (q : ℚ) : String :=
  Int.repr q.num ++ if q.den = 1 then "" else "e" ++ Nat.repr q.den

theorem isDigit_of_mem_repr {n : Nat} {c : Char} (h : c ∈ (Nat.repr n).toList) :
    c.isDigit = true := by
  rw [Nat.toList_repr] at h
  exact Nat.isDigit_of_mem_toDigits (by decide) (by decide) h

/-- An integer is written with digits, after a sign if it is negative. -/
theorem of_mem_intRepr {i : Int} {c : Char} (h : c ∈ (Int.repr i).toList) :
    c.isDigit = true ∨ c = '-' := by
  rw [Int.repr_eq_if] at h
  split at h
  next => exact .inl (isDigit_of_mem_repr h)
  next =>
    rw [String.toList_append, List.mem_append] at h
    rcases h with h | h
    · exact .inr (List.mem_singleton.mp h)
    · exact .inl (isDigit_of_mem_repr h)

theorem intRepr_ne_empty (i : Int) : Int.repr i ≠ "" := by
  rw [Int.repr_eq_if]
  split
  next => exact Nat.repr_ne_empty
  next => simp

/-- What follows the digits of a numerator. -/
def denominatorText (q : ℚ) : List Char := if q.den = 1 then [] else 'e' :: (Nat.repr q.den).toList

theorem toList_numberText (q : ℚ) :
    (numberText q).toList = (Int.repr q.num).toList ++ denominatorText q := by
  rw [numberText, String.toList_append, denominatorText]
  split
  · rfl
  · rw [String.toList_append]
    rfl

theorem numberText_chars {q : ℚ} {c : Char} (h : c ∈ (numberText q).toList) :
    isNumberChar c = true := by
  have hdigit : ∀ c : Char, c.isDigit = true → isNumberChar c = true := fun c hc => by
    simp [isNumberChar, hc]
  rw [toList_numberText, denominatorText, List.mem_append] at h
  rcases h with h | h
  · rcases of_mem_intRepr h with hc | rfl
    · exact hdigit c hc
    · decide
  · split at h
    · exact absurd h List.not_mem_nil
    · rcases List.mem_cons.mp h with rfl | h
      · decide
      · exact hdigit c (isDigit_of_mem_repr h)

/-- The numerator ends where the denominator is announced. -/
theorem numberText_injective : Function.Injective numberText := by
  intro p q h
  -- the letter before the denominator is in no numerator
  have hnum : ∀ q : ℚ, ∀ c ∈ (Int.repr q.num).toList, (c != 'e') = true := by
    intro q c hc
    rw [bne_iff_ne]
    rintro rfl
    exact absurd (of_mem_intRepr hc) (by decide)
  have hden : ∀ q : ℚ, ∀ c ∈ (denominatorText q).head?, (c != 'e') = false := by
    intro q c hc
    rw [denominatorText] at hc
    split at hc
    · cases hc
    · obtain rfl : 'e' = c := Option.some_inj.mp hc
      decide
  have htext := congrArg String.toList h
  rw [toList_numberText, toList_numberText] at htext
  obtain ⟨hn, hd⟩ := span_unique (hnum p) (hnum q) (hden p) (hden q) htext
  refine Rat.ext (Int.repr_injective (String.toList_inj.mp hn)) ?_
  unfold denominatorText at hd
  split at hd <;> split at hd
  next hp hq => exact hp.trans hq.symm
  next => exact absurd hd (by simp)
  next => exact absurd hd (by simp)
  next => exact Nat.repr_injective (String.toList_inj.mp (List.cons.inj hd).2)

/-! ### Both -/

/-- `JSON.stringify` on texts and numbers. -/
def stringify : Stringify := ⟨quote, numberText⟩

/-- What is written can be read back. -/
theorem stringify_lawful : stringify.Lawful where
  string_quote s := ⟨_, String.toList_ofList⟩
  string_unique _ _ _ _ h := quote_unique h
  number_ne_nil q h := by
    rw [show stringify.number q = numberText q from rfl, toList_numberText,
      List.append_eq_nil_iff] at h
    exact intRepr_ne_empty q.num (String.toList_eq_nil_iff.mp h.1)
  number_chars _ _ h := numberText_chars h
  number_injective := numberText_injective

end AriOs.Js
