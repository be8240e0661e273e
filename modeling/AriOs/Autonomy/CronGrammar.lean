import AriOs.Autonomy.Schedule
import Mathlib.Tactic.Tauto

/-!
# The grammar of a cron field

A cron field is a list of items with commas between them, each of them a star, a number or a range
of numbers, with a step or without. The parser splits at the separators and leaves the numbers to
`Number`, so it reads more than that: nothing at all is zero, numerals may have a sign, a fraction,
an exponent or a prefix, and what stands behind a second slash is not looked at. And it reads less,
where a step has no finite value as a number.
-/

namespace AriOs.Autonomy.Jobs

open AriOs.Js

/-! ### The grammar -/

inductive CronField where
  | minute | hour | dom | month | dow
  deriving DecidableEq

namespace CronField

def lo : CronField → Nat
  | minute | hour | dow => 0
  | dom | month => 1

def hi : CronField → Nat
  | minute => 59
  | hour => 23
  | dom => 31
  | month => 12
  | dow => 7

/-- Seven stands for zero. -/
def sunday : CronField → Bool
  | dow => true
  | _ => false

/-- The parser of the field. -/
def read (f : CronField) (text : List Char) : Except String ParsedField :=
  field text f.lo f.hi f.sunday

theorem hi_le (f : CronField) : f.hi ≤ 59 := by
  cases f <;> decide

end CronField

/-- The number that a row of digits denotes. -/
def value (n : List Char) : Nat := Nat.ofDigitChars 10 n 0

variable {f : CronField} {t n m s item : List Char} {a b k : Nat}

/-- A star, a number or a range of numbers, with the first and the last number it stands for. -/
inductive IsRange (f : CronField) : List Char → Nat → Nat → Prop
  | every : IsRange f ['*'] f.lo f.hi
  | one {n : List Char} (hn : IsNumeral n) (hlo : f.lo ≤ value n) (hhi : value n ≤ f.hi) :
      IsRange f n (value n) (value n)
  | span {n m : List Char} (hn : IsNumeral n) (hm : IsNumeral m) (hlo : f.lo ≤ value n)
      (hle : value n ≤ value m) (hhi : value m ≤ f.hi) :
      IsRange f (n ++ '-' :: m) (value n) (value m)

/-- An item, with its first and last number and its step. -/
inductive IsItem (f : CronField) : List Char → Nat → Nat → Nat → Prop
  | whole {t : List Char} {a b : Nat} (ht : IsRange f t a b) : IsItem f t a b 1
  | stepped {t s : List Char} {a b : Nat} (ht : IsRange f t a b) (hs : IsNumeral s)
      (hpos : 0 < value s) : IsItem f (t ++ '/' :: s) a b (value s)

/-- The value is one of an item's: a number of it, or zero for Sunday. -/
def Selects (f : CronField) (a b step v : Nat) : Prop :=
  ∃ x, a ≤ x ∧ x ≤ b ∧ step ∣ x - a ∧ v = if f.sunday = true ∧ x = 7 then 0 else x

/-- The text is these items with commas between them. -/
structure IsList (f : CronField) (items : List (List Char)) (text : List Char) : Prop where
  nonempty : items ≠ []
  text_eq : text = [','].intercalate items
  items : ∀ item ∈ items, ∃ a b step, IsItem f item a b step

/-- The parser accepts the text exactly if it is in the grammar, and then makes of it the numbers
that its items stand for. -/
def FollowsGrammar (f : CronField) (text : List Char) : Prop :=
  ((∃ parsed, f.read text = .ok parsed) ↔ ∃ items, IsList f items text) ∧
    ∀ parsed items, f.read text = .ok parsed → IsList f items text →
      ∀ v, v ∈ parsed.values ↔
        ∃ item ∈ items, ∃ a b step, IsItem f item a b step ∧ Selects f a b step v

/-! ### What is read -/

/-- What stands before the first slash, and what stands behind it. -/
def basePart (item : List Char) : List Char := (splitOnChar '/' item).headD []

def stepPart (item : List Char) : Option (List Char) := (splitOnChar '/' item)[1]?

/-- What `Number` makes a star, a number or a range of. -/
inductive LooseRange (f : CronField) : List Char → Nat → Nat → Prop
  | every : LooseRange f ['*'] f.lo f.hi
  | one {t : List Char} {a : Nat} (hstar : t ≠ ['*']) (hdash : '-' ∉ t)
      (ht : toNumber t = .ofInt a) (hlo : f.lo ≤ a) (hhi : a ≤ f.hi) : LooseRange f t a a
  | span {t n m : List Char} {a b : Nat} (hstar : t ≠ ['*']) (hdash : '-' ∈ t)
      (ht : splitOnChar '-' t = [n, m]) (hn : toNumber n = .ofInt a) (hm : toNumber m = .ofInt b)
      (hlo : f.lo ≤ a) (hle : a ≤ b) (hhi : b ≤ f.hi) : LooseRange f t a b

/-- The step is infinite. -/
def HugeStep (item : List Char) : Prop :=
  ∃ s, stepPart item = some s ∧ toNumber s = .infinity false

/-- By what `Number` makes of its parts, the item is one: it has bounds, and a step is a positive
whole number or infinite. -/
def LooseItem (f : CronField) (item : List Char) : Prop :=
  (∃ a b, LooseRange f (basePart item) a b) ∧
    ∀ s, stepPart item = some s → toNumber s = .infinity false ∨
      ∃ k : Nat, 0 < k ∧ toNumber s = .ofInt k

/-- Numbers written as digits only, and one slash at most. -/
inductive PlainRange : List Char → Prop
  | every : PlainRange ['*']
  | one {n : List Char} (hn : IsNumeral n) : PlainRange n
  | span {n m : List Char} (hn : IsNumeral n) (hm : IsNumeral m) : PlainRange (n ++ '-' :: m)

def PlainItem (item : List Char) : Prop :=
  ∃ t, PlainRange t ∧ (item = t ∨ ∃ s, IsNumeral s ∧ item = t ++ '/' :: s)

/-! ### The parser, item by item -/

/-- The bounds are whole numbers in the range of the field, in order. -/
theorem checkBounds_iff {lo hi : JsNumber} :
    (match lo.toBigInt?, hi.toBigInt? with
      | some lo, some hi => do
        throwIf (lo < f.lo ∨ f.hi < hi ∨ hi < lo) "Invalid cron field"
        return (lo.toNat, hi.toNat)
      | _, _ => .error "Invalid cron field" : Except String (Nat × Nat)) = .ok (a, b) ↔
    lo = .ofInt a ∧ hi = .ofInt b ∧ f.lo ≤ a ∧ a ≤ b ∧ b ≤ f.hi := by
  split
  · -- both bounds are whole numbers, or the field is invalid
    rename_i x y hx hy
    obtain rfl := JsNumber.eq_ofInt_of_toBigInt? hx
    obtain rfl := JsNumber.eq_ofInt_of_toBigInt? hy
    simp only [bind_eq_ok, throwIf_eq_ok, not_or, not_lt, exists_const, JsNumber.ofInt,
      JsNumber.finite.injEq, Int.cast_inj]
    constructor
    · rintro ⟨⟨hlo, hhi, hle⟩, heq⟩
      obtain ⟨rfl, rfl⟩ := Prod.mk.inj (Except.ok.inj heq)
      omega
    · rintro ⟨rfl, rfl, hlo, hle, hhi⟩
      exact ⟨by omega, rfl⟩
  · rename_i hnot
    refine iff_of_false (by simp) ?_
    rintro ⟨rfl, rfl, -⟩
    exact hnot a b (JsNumber.toBigInt?_ofInt _) (JsNumber.toBigInt?_ofInt _)

theorem partBounds_eq_ok_iff : partBounds f.lo f.hi t = .ok (a, b) ↔ LooseRange f t a b := by
  have hbounds : f.lo ≤ f.hi := by cases f <;> decide
  have hinj : ∀ {x y : Nat}, JsNumber.ofInt x = .ofInt y ↔ x = y := by
    intro x y
    simp [JsNumber.ofInt]
  unfold partBounds
  dsimp only
  -- the source tries the star first, then the dash, then a single number
  by_cases hstar : t = ['*']
  · rw [if_pos hstar]
    subst hstar
    refine (@checkBounds_iff f a b (.ofInt f.lo) (.ofInt f.hi)).trans ⟨?_, fun h => ?_⟩
    · rintro ⟨ha, hb, -⟩
      obtain rfl := hinj.mp ha
      obtain rfl := hinj.mp hb
      exact .every
    · cases h with
      | every => exact ⟨rfl, rfl, le_rfl, hbounds, le_rfl⟩
      | one hne => exact absurd rfl hne
      | span hne => exact absurd rfl hne
  · rw [if_neg hstar]
    by_cases hdash : '-' ∈ t
    · rw [if_pos hdash]
      split
      · rename_i n m hsplit
        refine (@checkBounds_iff f a b (toNumber n) (toNumber m)).trans ⟨?_, fun h => ?_⟩
        · rintro ⟨ha, hb, hlo, hle, hhi⟩
          exact .span hstar hdash hsplit ha hb hlo hle hhi
        · cases h with
          | every => exact absurd rfl hstar
          | one _ hnot => exact absurd hdash hnot
          | span _ _ hsplit' hn hm hlo hle hhi =>
            obtain ⟨rfl, rfl⟩ : n = _ ∧ m = _ := by simpa using hsplit.symm.trans hsplit'
            exact ⟨hn, hm, hlo, hle, hhi⟩
      · -- two dashes or more: no part, and no range either
        rename_i hsplit
        refine iff_of_false (by simp) fun h => ?_
        cases h with
        | every => exact hstar rfl
        | one _ hnot => exact hnot hdash
        | span _ _ hsplit' => exact hsplit _ _ hsplit'
    · rw [if_neg hdash]
      refine (@checkBounds_iff f a b (toNumber t) (toNumber t)).trans ⟨?_, fun h => ?_⟩
      · rintro ⟨ha, hb, hlo, hle, hhi⟩
        obtain rfl := hinj.mp (ha.symm.trans hb)
        exact .one hstar hdash ha hlo hhi
      · cases h with
        | every => exact absurd rfl hstar
        | one _ _ ht hlo hhi => exact ⟨ht, ht, hlo, le_rfl, hhi⟩
        | span _ hmem => exact absurd hmem hdash

theorem partStep_eq_ok_iff {o : Option (List Char)} : partStep o = .ok k ↔
    o = none ∧ k = 1 ∨ ∃ s, o = some s ∧ 0 < k ∧ toNumber s = .ofInt k := by
  cases o with
  | none =>
    simp only [partStep, true_and, reduceCtorEq, false_and, exists_false, or_false]
    exact ⟨fun h => (Except.ok.inj h).symm, fun h => congrArg _ h.symm⟩
  | some s =>
    simp only [partStep, bind_eq_ok, orThrow_eq_ok, reduceCtorEq, false_and, false_or,
      Option.some.injEq, exists_eq_left', Option.filter_eq_some_iff, decide_eq_true_eq]
    constructor
    · rintro ⟨i, ⟨hi, hpos⟩, hk⟩
      obtain rfl := Except.ok.inj hk
      refine ⟨by omega, ?_⟩
      rw [JsNumber.eq_ofInt_of_toBigInt? hi, Int.toNat_of_nonneg hpos.le]
    · rintro ⟨hpos, hs⟩
      exact ⟨k, ⟨by rw [hs, JsNumber.toBigInt?_ofInt], by exact_mod_cast hpos⟩, rfl⟩

/-- An item that has no step goes by ones. -/
def StepOf (item : List Char) (k : Nat) : Prop :=
  stepPart item = none ∧ k = 1 ∨ ∃ s, stepPart item = some s ∧ 0 < k ∧ toNumber s = .ofInt k

/-- An item is read as the numbers between its bounds, step by step. -/
theorem partValues_eq_ok_iff {values : List Nat} :
    partValues f.lo f.hi f.sunday item = .ok values ↔
      ∃ k a b, StepOf item k ∧ LooseRange f (basePart item) a b ∧
        values = (((List.range (b - a + 1)).filter fun i => i % k = 0).map fun i => a + i).map
          fun x => if f.sunday ∧ x = 7 then 0 else x := by
  simp only [partValues, bind_eq_ok, Prod.exists]
  constructor
  · rintro ⟨k, hstep, a, b, hrange, heq⟩
    exact ⟨k, a, b, partStep_eq_ok_iff.mp hstep, partBounds_eq_ok_iff.mp hrange,
      (Except.ok.inj heq).symm⟩
  · rintro ⟨k, a, b, hstep, hrange, rfl⟩
    exact ⟨k, partStep_eq_ok_iff.mpr hstep, a, b, partBounds_eq_ok_iff.mpr hrange, rfl⟩

/-- **An item is read** exactly if it is loosely one, and its step is finite. -/
theorem partValues_ok_iff : (∃ values, partValues f.lo f.hi f.sunday item = .ok values) ↔
    LooseItem f item ∧ ¬ HugeStep item := by
  simp only [partValues_eq_ok_iff]
  constructor
  · -- the step that was read is a number, so none that is infinite
    rintro ⟨values, k, a, b, hstep, hrange, -⟩
    refine ⟨⟨⟨a, b, hrange⟩, fun s hs => ?_⟩, ?_⟩
    · rcases hstep with ⟨hnone, -⟩ | ⟨s', hs', hpos, hk⟩
      · rw [hnone] at hs
        cases hs
      · obtain rfl := Option.some.inj (hs.symm.trans hs')
        exact .inr ⟨k, hpos, hk⟩
    · rintro ⟨s, hs, hhuge⟩
      rcases hstep with ⟨hnone, -⟩ | ⟨s', hs', hpos, hk⟩
      · rw [hnone] at hs
        cases hs
      · obtain rfl := Option.some.inj (hs.symm.trans hs')
        rw [hhuge] at hk
        cases hk
  · rintro ⟨⟨⟨a, b, hrange⟩, hstep⟩, hfinite⟩
    cases hs : stepPart item with
    | none => exact ⟨_, 1, a, b, .inl ⟨hs, rfl⟩, hrange, rfl⟩
    | some s =>
      rcases hstep s hs with hhuge | ⟨k, hpos, hk⟩
      · exact absurd ⟨s, hs, hhuge⟩ hfinite
      · exact ⟨_, k, a, b, .inr ⟨s, hs, hpos, hk⟩, hrange, rfl⟩

/-- The parser reads a list of items exactly if it reads each of them, and its values are theirs. -/
theorem read_eq_ok_iff {parsed : ParsedField} {text : List Char} :
    f.read text = .ok parsed ↔
      ∃ parts, (splitOnChar ',' text).mapM (partValues f.lo f.hi f.sunday) = .ok parts ∧
        parsed = ⟨parts.flatten, text = ['*']⟩ := by
  simp only [CronField.read, field, bind_eq_ok]
  exact exists_congr fun parts => and_congr_right fun _ =>
    ⟨fun h => (Except.ok.inj h).symm, fun h => congrArg _ h.symm⟩

/-! ### The grammar, item by item -/

theorem not_mem_of_isNumeral {c : Char} (hn : IsNumeral n) (hc : c.isDigit = false) : c ∉ n := by
  intro hmem
  rw [hn.2 c hmem] at hc
  cases hc

theorem PlainRange.not_mem {c : Char} (h : PlainRange t) (hc : c.isDigit = false) (hstar : c ≠ '*')
    (hdash : c ≠ '-') : c ∉ t := by
  cases h with
  | every => simpa using hstar
  | one hn => exact not_mem_of_isNumeral hn hc
  | span hn hm =>
    simp only [List.mem_append, List.mem_cons, not_or]
    exact ⟨not_mem_of_isNumeral hn hc, hdash, not_mem_of_isNumeral hm hc⟩

theorem IsRange.plain (h : IsRange f t a b) : PlainRange t := by
  cases h with
  | every => exact .every
  | one hn => exact .one hn
  | span hn hm => exact .span hn hm

/-- A numeral that is read as a number of a field denotes it. -/
theorem toNumber_eq_iff (hn : IsNumeral n) (ha : a ≤ 59) :
    toNumber n = .ofInt a ↔ value n = a := by
  have hinj : ∀ {x y : Nat}, JsNumber.ofInt x = .ofInt y ↔ x = y := by
    intro x y
    simp [JsNumber.ofInt]
  rw [toNumber_numeral hn, ← value]
  obtain ⟨hsmall, hlarge⟩ := nearest_natCast (value n)
  rcases Nat.lt_or_ge (value n) (2 ^ 53) with hlt | hle
  · rw [hsmall hlt, hinj]
  · refine iff_of_false ?_ (by omega)
    rcases hlarge hle with hinf | ⟨m, hm, hround⟩
    · rw [hinf]
      simp [JsNumber.ofInt]
    · rw [hround, hinj]
      omega

theorem splitOnChar_of_isNumeral {c : Char} (hn : IsNumeral n) (hc : c.isDigit = false) :
    splitOnChar c n = [n] :=
  List.splitOn_eq_singleton (not_mem_of_isNumeral hn hc)

theorem splitOnChar_dash (hn : IsNumeral n) (hm : IsNumeral m) :
    splitOnChar '-' (n ++ '-' :: m) = [n, m] := by
  rw [splitOnChar, List.splitOn_append_cons_self_of_not_mem (not_mem_of_isNumeral hn rfl),
    ← splitOnChar, splitOnChar_of_isNumeral hm rfl]

/-- **Of plain texts, those in the grammar are the loose ones.** -/
theorem isRange_iff : IsRange f t a b ↔ LooseRange f t a b ∧ PlainRange t := by
  have hhi59 := f.hi_le
  constructor
  · intro h
    refine ⟨?_, h.plain⟩
    cases h with
    | every => exact .every
    | one hn hlo hhi =>
      refine .one ?_ (not_mem_of_isNumeral hn rfl) ((toNumber_eq_iff hn (by omega)).mpr rfl) hlo hhi
      rintro rfl
      exact absurd (hn.2 '*' (by simp)) (by decide)
    -- a numeral has no dash, so the text splits at the one between the two
    | @span n m hn hm hlo hle hhi =>
      have hdash : '-' ∈ n ++ '-' :: m := by simp
      refine .span ?_ hdash (splitOnChar_dash hn hm) ((toNumber_eq_iff hn (by omega)).mpr rfl)
        ((toNumber_eq_iff hm (by omega)).mpr rfl) hlo hle hhi
      intro heq
      rw [heq] at hdash
      exact absurd hdash (by decide)
  · rintro ⟨hloose, hplain⟩
    cases hloose with
    | every => exact .every
    | one hstar hdash ht hlo hhi =>
      -- of a plain text `Number` reads what its digits say
      cases hplain with
      | every => exact absurd rfl hstar
      | one hn =>
        obtain rfl := (toNumber_eq_iff hn (by omega)).mp ht
        exact .one hn hlo hhi
      | span => exact absurd (by simp) hdash
    | span hstar hdash ht hn hm hlo hle hhi =>
      cases hplain with
      | every => exact absurd rfl hstar
      | one hnum => exact absurd hdash (not_mem_of_isNumeral hnum rfl)
      | span hnum hnum' =>
        obtain ⟨rfl, rfl⟩ : _ = _ ∧ _ = _ := by
          simpa using (splitOnChar_dash hnum hnum').symm.trans ht
        obtain rfl := (toNumber_eq_iff hnum (by omega)).mp hn
        obtain rfl := (toNumber_eq_iff hnum' (by omega)).mp hm
        exact .span hnum hnum' hlo hle hhi

theorem splitOnChar_slash (ht : PlainRange t) (hs : IsNumeral s) :
    splitOnChar '/' (t ++ '/' :: s) = [t, s] := by
  rw [splitOnChar, List.splitOn_append_cons_self_of_not_mem
    (ht.not_mem rfl (by decide) (by decide)), ← splitOnChar, splitOnChar_of_isNumeral hs rfl]

theorem splitOnChar_plain (ht : PlainRange t) : splitOnChar '/' t = [t] :=
  List.splitOn_eq_singleton (ht.not_mem rfl (by decide) (by decide))

/-- What a numeral is as a number. -/
theorem toNumber_cases (hs : IsNumeral s) :
    value s < 2 ^ 53 ∧ toNumber s = .ofInt (value s) ∨
      2 ^ 53 ≤ value s ∧
        (toNumber s = .infinity false ∨ ∃ m : Nat, 2 ^ 53 ≤ m ∧ toNumber s = .ofInt m) := by
  rw [toNumber_numeral hs, ← value]
  obtain ⟨hsmall, hlarge⟩ := nearest_natCast (value s)
  rcases Nat.lt_or_ge (value s) (2 ^ 53) with hlt | hle
  · exact .inl ⟨hlt, hsmall hlt⟩
  · exact .inr ⟨hle, hlarge hle⟩

/-- A numeral is a positive whole number or infinite as a number exactly if it denotes a positive
number. -/
theorem loose_step_iff (hs : IsNumeral s) :
    (toNumber s = .infinity false ∨ ∃ k : Nat, 0 < k ∧ toNumber s = .ofInt k) ↔ 0 < value s := by
  rcases toNumber_cases hs with ⟨-, heq⟩ | ⟨hle, hinf | ⟨m, hm, heq⟩⟩
  · rw [heq]
    simp [JsNumber.ofInt]
  · exact iff_of_true (.inl hinf) (by omega)
  · exact iff_of_true (.inr ⟨m, by omega, heq⟩) (by omega)

theorem parts_plain (ht : PlainRange t) : basePart t = t ∧ stepPart t = none := by
  rw [basePart, stepPart, splitOnChar_plain ht]
  exact ⟨rfl, rfl⟩

theorem parts_slash (ht : PlainRange t) (hs : IsNumeral s) :
    basePart (t ++ '/' :: s) = t ∧ stepPart (t ++ '/' :: s) = some s := by
  rw [basePart, stepPart, splitOnChar_slash ht hs]
  exact ⟨rfl, rfl⟩

/-- **An item is in the grammar** exactly if it is loosely one, and plain. -/
theorem isItem_iff : (∃ a b k, IsItem f item a b k) ↔ LooseItem f item ∧ PlainItem item := by
  constructor
  · rintro ⟨a, b, k, h⟩
    cases h with
    | whole ht =>
      obtain ⟨hloose, hplain⟩ := isRange_iff.mp ht
      obtain ⟨hbase, hstep⟩ := parts_plain hplain
      refine ⟨⟨⟨a, b, hbase.symm ▸ hloose⟩, fun s hs => ?_⟩, item, hplain, .inl rfl⟩
      rw [hstep] at hs
      cases hs
    | @stepped t s _ _ ht hs hpos =>
      obtain ⟨hloose, hplain⟩ := isRange_iff.mp ht
      obtain ⟨hbase, hstep⟩ := parts_slash hplain hs
      refine ⟨⟨⟨a, b, hbase.symm ▸ hloose⟩, fun s' hs' => ?_⟩, t, hplain, .inr ⟨s, hs, rfl⟩⟩
      obtain rfl := Option.some.inj (hstep.symm.trans hs')
      exact (loose_step_iff hs).mpr hpos
  · rintro ⟨⟨⟨a, b, hloose⟩, hsteps⟩, t, hplain, rfl | ⟨s, hs, rfl⟩⟩
    · obtain ⟨hbase, -⟩ := parts_plain hplain
      exact ⟨a, b, 1, .whole (isRange_iff.mpr ⟨hbase ▸ hloose, hplain⟩)⟩
    · obtain ⟨hbase, hstep⟩ := parts_slash hplain hs
      exact ⟨a, b, _, .stepped (isRange_iff.mpr ⟨hbase ▸ hloose, hplain⟩) hs
        ((loose_step_iff hs).mp (hsteps s hstep))⟩

/-- The parser has the bounds of an item, and its step or one that is as good. -/
theorem IsItem.parts (h : IsItem f item a b k) : LooseRange f (basePart item) a b ∧
    ∀ k', StepOf item k' → k' = k ∨ 2 ^ 53 ≤ k ∧ 2 ^ 53 ≤ k' := by
  cases h with
  -- without a step the step is one
  | whole ht =>
    obtain ⟨hloose, hplain⟩ := isRange_iff.mp ht
    obtain ⟨hbase, hnone⟩ := parts_plain hplain
    refine ⟨hbase.symm ▸ hloose, ?_⟩
    rintro k' (⟨-, rfl⟩ | ⟨s, hs, -⟩)
    · exact .inl rfl
    · rw [hnone] at hs
      cases hs
  | @stepped t s _ _ ht hs hpos =>
    obtain ⟨hloose, hplain⟩ := isRange_iff.mp ht
    obtain ⟨hbase, hsome⟩ := parts_slash hplain hs
    refine ⟨hbase.symm ▸ hloose, ?_⟩
    rintro k' (⟨hnone, -⟩ | ⟨s', hs', -, hk'⟩)
    · rw [hsome] at hnone
      cases hnone
    · obtain rfl := Option.some.inj (hsome.symm.trans hs')
      -- a step that is too long for a double is rounded, and both are large
      rcases toNumber_cases hs with ⟨-, heq⟩ | ⟨hle, hinf | ⟨m, hm, heq⟩⟩
      · rw [heq] at hk'
        exact .inl (by simpa [JsNumber.ofInt] using hk'.symm)
      · rw [hinf] at hk'
        cases hk'
      · rw [heq] at hk'
        obtain rfl : m = k' := by simpa [JsNumber.ofInt] using hk'
        exact .inr ⟨hle, hm⟩

theorem LooseRange.unique {a' b' : Nat} (h : LooseRange f t a b) (h' : LooseRange f t a' b') :
    a = a' ∧ b = b' := by
  rw [← partBounds_eq_ok_iff] at h h'
  simpa using h.symm.trans h'

theorem LooseRange.bounds (h : LooseRange f t a b) : f.lo ≤ a ∧ a ≤ b ∧ b ≤ f.hi := by
  have hbounds : f.lo ≤ f.hi := by cases f <;> decide
  cases h <;> omega

/-- Steps that are larger than any field make no difference. -/
theorem selects_congr {k' v : Nat} (hb : b ≤ 59) (h : k' = k ∨ 2 ^ 53 ≤ k ∧ 2 ^ 53 ≤ k') :
    Selects f a b k' v ↔ Selects f a b k v := by
  rcases h with rfl | ⟨hk, hk'⟩
  · exact Iff.rfl
  · refine exists_congr fun x => and_congr_right fun ha => and_congr_right fun hx => ?_
    have hzero : ∀ k, 2 ^ 53 ≤ k → (k ∣ x - a ↔ x - a = 0) := by
      intro k hk
      constructor
      · intro hdvd
        by_contra hne
        have := Nat.le_of_dvd (by omega) hdvd
        omega
      · intro heq
        rw [heq]
        exact dvd_zero k
    rw [hzero k hk, hzero k' hk']

/-- What an item in the grammar is read as, is what it denotes. -/
theorem mem_values_iff {values : List Nat} {v : Nat} (hitem : ∃ a b k, IsItem f item a b k)
    (h : partValues f.lo f.hi f.sunday item = .ok values) :
    v ∈ values ↔ ∃ a b k, IsItem f item a b k ∧ Selects f a b k v := by
  obtain ⟨k', a, b, hstep, hrange, rfl⟩ := partValues_eq_ok_iff.mp h
  obtain ⟨-, hle, hhi⟩ := hrange.bounds
  have hb := hhi.trans f.hi_le
  -- the values are those of the range at every step
  have hread : v ∈ (((List.range (b - a + 1)).filter fun i => i % k' = 0).map fun i => a + i).map
      (fun x => if f.sunday ∧ x = 7 then 0 else x) ↔ Selects f a b k' v := by
    simp only [List.mem_map, List.mem_filter, List.mem_range, decide_eq_true_eq]
    constructor
    · rintro ⟨x, ⟨i, ⟨hi, hmod⟩, rfl⟩, rfl⟩
      exact ⟨a + i, by omega, by omega, by simpa using Nat.dvd_of_mod_eq_zero hmod, rfl⟩
    · rintro ⟨x, hax, hxb, hdvd, rfl⟩
      exact ⟨x, ⟨x - a, ⟨by omega, Nat.mod_eq_zero_of_dvd hdvd⟩, by omega⟩, rfl⟩
  rw [hread]
  constructor
  · intro hselects
    obtain ⟨a', b', k, hitem⟩ := hitem
    obtain ⟨hrange', hsteps⟩ := hitem.parts
    -- the bounds are read one way, and steps that differ are both past the range
    obtain ⟨rfl, rfl⟩ := hrange.unique hrange'
    exact ⟨a, b, k, hitem, (selects_congr hb (hsteps k' hstep)).mp hselects⟩
  · rintro ⟨a', b', k, hitem, hselects⟩
    obtain ⟨hrange', hsteps⟩ := hitem.parts
    obtain ⟨rfl, rfl⟩ := hrange.unique hrange'
    exact (selects_congr hb (hsteps k' hstep)).mpr hselects

/-! ### Lists -/

theorem PlainItem.no_comma (h : PlainItem item) : ',' ∉ item := by
  obtain ⟨t, ht, rfl | ⟨s, hs, rfl⟩⟩ := h
  · exact ht.not_mem rfl (by decide) (by decide)
  · simp only [List.mem_append, List.mem_cons, not_or]
    exact ⟨ht.not_mem rfl (by decide) (by decide), by decide, not_mem_of_isNumeral hs rfl⟩

/-- A text has no other items than those between its commas. -/
theorem isList_iff {items : List (List Char)} {text : List Char} : IsList f items text ↔
    items = splitOnChar ',' text ∧ ∀ item ∈ items, LooseItem f item ∧ PlainItem item := by
  constructor
  · rintro ⟨hne, rfl, hitems⟩
    have hparts := fun item hmem => isItem_iff.mp (hitems item hmem)
    refine ⟨?_, hparts⟩
    exact (List.splitOn_intercalate ',' (fun item hmem => (hparts item hmem).2.no_comma) hne).symm
  · rintro ⟨rfl, hparts⟩
    exact ⟨List.splitOn_ne_nil ',' text, (List.intercalate_splitOn ',').symm,
      fun item hmem => isItem_iff.mpr (hparts item hmem)⟩

/-- The values of a list are those of its items. -/
theorem mem_flatten_mapM {g : List Char → Except String (List Nat)} {l : List (List Char)}
    {parts : List (List Nat)} {v : Nat} (h : l.mapM g = .ok parts) :
    v ∈ parts.flatten ↔ ∃ item ∈ l, ∃ values, g item = .ok values ∧ v ∈ values := by
  rw [mapM_eq_ok_iff] at h
  induction h with
  | nil => simp
  | cons hab _ ih => simp [ih, hab]

theorem read_ok_iff {text : List Char} : (∃ parsed, f.read text = .ok parsed) ↔
    ∀ item ∈ splitOnChar ',' text, LooseItem f item ∧ ¬ HugeStep item := by
  simp only [← partValues_ok_iff, ← exists_mapM_eq_ok_iff, read_eq_ok_iff]
  constructor
  · rintro ⟨parsed, parts, hparts, -⟩
    exact ⟨parts, hparts⟩
  · rintro ⟨parts, hparts⟩
    exact ⟨_, parts, hparts, rfl⟩

/-- What is read of a text in the grammar is what its items denote. -/
theorem mem_read_iff {text : List Char} {items : List (List Char)} {parsed : ParsedField} {v : Nat}
    (hread : f.read text = .ok parsed) (hlist : IsList f items text) :
    v ∈ parsed.values ↔
      ∃ item ∈ items, ∃ a b k, IsItem f item a b k ∧ Selects f a b k v := by
  obtain ⟨parts, hparts, rfl⟩ := read_eq_ok_iff.mp hread
  obtain ⟨rfl, -⟩ := isList_iff.mp hlist
  rw [mem_flatten_mapM hparts]
  constructor
  · rintro ⟨item, hmem, values, hvalues, hv⟩
    exact ⟨item, hmem, (mem_values_iff (hlist.items item hmem) hvalues).mp hv⟩
  · rintro ⟨item, hmem, hv⟩
    obtain ⟨values, hvalues⟩ := exists_mapM_eq_ok_iff.mp ⟨parts, hparts⟩ item hmem
    exact ⟨item, hmem, values, hvalues, (mem_values_iff (hlist.items item hmem) hvalues).mpr hv⟩

/-- **When a field is read as the grammar says**: some item of the text is not even loosely one, or
its items are all plain exactly if none of them has an infinite step. -/
theorem follows_grammar_iff (f : CronField) (text : List Char) : FollowsGrammar f text ↔
    (∃ item ∈ splitOnChar ',' text, ¬ LooseItem f item) ∨
      ((∀ item ∈ splitOnChar ',' text, PlainItem item) ↔
        ∀ item ∈ splitOnChar ',' text, ¬ HugeStep item) := by
  have hvalues : ∀ parsed items, f.read text = .ok parsed → IsList f items text →
      ∀ v, v ∈ parsed.values ↔
        ∃ item ∈ items, ∃ a b step, IsItem f item a b step ∧ Selects f a b step v :=
    fun parsed items hread hlist v => mem_read_iff hread hlist
  have hgrammar : (∃ items, IsList f items text) ↔
      ∀ item ∈ splitOnChar ',' text, LooseItem f item ∧ PlainItem item := by
    simp only [isList_iff, exists_eq_left]
  rw [FollowsGrammar, and_iff_left hvalues, hgrammar, read_ok_iff]
  by_cases hloose : ∀ item ∈ splitOnChar ',' text, LooseItem f item
  · have hnone : ¬ ∃ item ∈ splitOnChar ',' text, ¬ LooseItem f item := by
      rintro ⟨item, hmem, hnot⟩
      exact hnot (hloose item hmem)
    have hdrop : ∀ P : List Char → Prop,
        (∀ item ∈ splitOnChar ',' text, LooseItem f item ∧ P item) ↔
          ∀ item ∈ splitOnChar ',' text, P item := fun P =>
      ⟨fun h item hmem => (h item hmem).2, fun h item hmem => ⟨hloose item hmem, h item hmem⟩⟩
    rw [hdrop, hdrop, or_iff_right hnone]
    exact Iff.comm
  · -- refused both ways
    have hsome : ∃ item ∈ splitOnChar ',' text, ¬ LooseItem f item := by simpa using hloose
    refine iff_of_true (iff_of_false ?_ ?_) (.inl hsome)
    · exact fun h => hloose fun item hmem => (h item hmem).1
    · exact fun h => hloose fun item hmem => (h item hmem).1

/-- A range without a first number is not plain. -/
theorem not_plain_of_dash (hm : '/' ∉ m) : ¬ PlainItem ('-' :: m) := by
  -- a numeral does not start with a dash
  have hdash : ∀ {n : List Char}, IsNumeral n → ∀ rest, n ++ rest ≠ '-' :: m := by
    intro n hn rest heq
    obtain ⟨hne, hdigits⟩ := hn
    cases n with
    | nil => exact hne rfl
    | cons c n =>
      obtain rfl : c = '-' := by simpa using (List.cons.inj heq).1
      exact absurd (hdigits '-' (by simp)) (by decide)
  rintro ⟨t, ht, heq | ⟨s, -, heq⟩⟩
  · subst heq
    generalize heq : '-' :: m = t at ht
    cases ht with
    | every => cases heq
    | one hn => exact hdash hn [] (by simpa using heq.symm)
    | span hn => exact hdash hn _ heq.symm
  · have hmem : '/' ∈ '-' :: m := by
      rw [heq]
      simp
    rcases List.mem_cons.mp hmem with h | h
    · exact absurd h (by decide)
    · exact hm h

/-- A range without a first number is read as one that starts at zero. -/
theorem open_range_accepted : ¬ FollowsGrammar .minute ['-', '5'] := by
  rintro ⟨haccepts, -⟩
  have hread : ((CronField.minute.read ['-', '5']).toOption.map ParsedField.values) =
      some [0, 1, 2, 3, 4, 5] := by decide +kernel
  have haccepted : ∃ parsed, CronField.minute.read ['-', '5'] = .ok parsed := by
    cases h : CronField.minute.read ['-', '5'] with
    | ok parsed => exact ⟨parsed, rfl⟩
    | error e =>
      rw [h] at hread
      cases hread
  obtain ⟨items, hlist⟩ := haccepts.mp haccepted
  obtain ⟨rfl, hplain⟩ := isList_iff.mp hlist
  exact not_plain_of_dash (by decide) (hplain ['-', '5'] (by decide)).2

end AriOs.Autonomy.Jobs
