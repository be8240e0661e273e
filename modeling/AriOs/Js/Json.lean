import AriOs.Js.Value
import Mathlib.Data.List.Perm.Basic

/-!
# JSON text

A JSON value can be read back from its text: strings end at their closing quote, numbers at the
first character that belongs to none, arrays and objects at their closing bracket. So two values
with the same text are the same value.

A value of the source language is written with the keys of every object in order. Two values
that are written alike are the same up to the order of their keys, as far as they are JSON
values at all: what has no text of its own, such as a number that is not finite, is written as
something else.

## Main definitions

* `JsValue.toJson` — a value as JSON, with its keys in order
* `JsValue.jsonRoundTrip` — what arrives of a value that is sent as JSON
* `JsValue.IsJson`, `JsValue.Same` — JSON values, and sameness up to the order of keys

## Main results

* `Json.text_injective` — the text determines the value
* `JsValue.same_of_toJson_eq` — values that are written alike are the same
-/

namespace AriOs.Js

/-- A JSON value; the fields of an object are in the order they are written in. -/
inductive Json where
  | null
  | bool (b : Bool)
  | number (q : ℚ)
  | string (s : String)
  | array (items : List Json)
  | object (fields : List (String × Json))

/-! ### Text -/

/-- One field of an object. -/
def fieldText (j : Stringify) (key value : String) : String := j.string key ++ ":" ++ value

mutual

/-- `JSON.stringify`. -/
def Json.text (j : Stringify) : Json → String
  | .null => "null"
  | .bool b => if b then "true" else "false"
  | .number q => j.number q
  | .string s => j.string s
  | .array items => "[" ++ String.intercalate "," (Json.itemTexts j items) ++ "]"
  | .object fields => "\x7b" ++ String.intercalate "," (Json.fieldTexts j fields) ++ "\x7d"

/-- The items of an array. -/
def Json.itemTexts (j : Stringify) : List Json → List String
  | [] => []
  | x :: xs => x.text j :: Json.itemTexts j xs

/-- The fields of an object. -/
def Json.fieldTexts (j : Stringify) : List (String × Json) → List String
  | [] => []
  | (k, x) :: fields => fieldText j k (x.text j) :: Json.fieldTexts j fields

end

theorem Json.itemTexts_eq (j : Stringify) (items : List Json) :
    Json.itemTexts j items = items.map (Json.text j) := by
  induction items with
  | nil => rfl
  | cons x xs ih => rw [Json.itemTexts, ih, List.map_cons]

theorem Json.fieldTexts_eq (j : Stringify) (fields : List (String × Json)) :
    Json.fieldTexts j fields = fields.map fun kv => fieldText j kv.1 (kv.2.text j) := by
  induction fields with
  | nil => rfl
  | cons kv fields ih => rw [Json.fieldTexts, ih, List.map_cons]

/-! ### Reading -/

/-- A character a number may be written with. -/
def isNumberChar (c : Char) : Bool := c.isDigit || c ∈ ['-', '+', '.', 'e']

/-- What the text of strings and numbers is relied on for: a string starts with a quote and can
be told from what follows it, a number is written with the characters of numbers. -/
structure Stringify.Lawful (j : Stringify) : Prop where
  string_quote : ∀ s, ∃ rest, (j.string s).toList = '"' :: rest
  string_unique : ∀ s s' r r', (j.string s).toList ++ r = (j.string s').toList ++ r' →
    s = s' ∧ r = r'
  number_ne_nil : ∀ q, (j.number q).toList ≠ []
  number_chars : ∀ q, ∀ c ∈ (j.number q).toList, isNumberChar c = true
  number_injective : Function.Injective j.number

/-- What follows a value: nothing, or something that no number goes on with. -/
def Delimited (r : List Char) : Prop := ∀ c ∈ r.head?, isNumberChar c = false

theorem delimited_nil : Delimited [] := by simp [Delimited]

theorem delimited_cons {c : Char} (h : isNumberChar c = false) (r : List Char) :
    Delimited (c :: r) := by
  simpa [Delimited] using h

/-- Two things are the same if their texts, with something else following, are. -/
def Readable {α : Type} (f : α → List Char) (x y : α) : Prop :=
  ∀ r r', Delimited r → Delimited r' → f x ++ r = f y ++ r' → x = y ∧ r = r'

/-- A run of characters of one kind ends where the first of another kind stands. -/
theorem span_unique {p : Char → Bool} {a b r r' : List Char} (ha : ∀ c ∈ a, p c = true)
    (hb : ∀ c ∈ b, p c = true) (hr : ∀ c ∈ r.head?, p c = false)
    (hr' : ∀ c ∈ r'.head?, p c = false) (h : a ++ r = b ++ r') : a = b ∧ r = r' := by
  induction a generalizing b with
  | nil =>
    cases b with
    | nil => exact ⟨rfl, h⟩
    | cons c b =>
      -- `r` would go on with a character of `b`
      have hc := hr c (by rw [show r = (c :: b) ++ r' from h]; rfl)
      rw [hb c List.mem_cons_self] at hc
      exact absurd hc (by simp)
  | cons c a ih =>
    cases b with
    | nil =>
      have hc := hr' c (by rw [← show (c :: a) ++ r = r' from h]; rfl)
      rw [ha c List.mem_cons_self] at hc
      exact absurd hc (by simp)
    | cons d b =>
      rw [List.cons_append, List.cons_append] at h
      obtain ⟨rfl, htail⟩ := List.cons.inj h
      obtain ⟨rfl, rfl⟩ := ih (fun x hx => ha x (List.mem_cons_of_mem c hx))
        (fun x hx => hb x (List.mem_cons_of_mem c hx)) htail
      exact ⟨rfl, rfl⟩

/-! ### Sequences -/

section Sequence

variable {α : Type} {f : α → List Char} {close : Char}

/-- What follows the first item of a sequence. -/
def followers (f : α → List Char) (close : Char) : List α → List Char
  | [] => [close]
  | x :: xs => ',' :: (f x ++ followers f close xs)

theorem intercalate_followers (f : α → List Char) (close : Char) (x : α) (xs : List α) :
    [','].intercalate ((x :: xs).map f) ++ [close] = f x ++ followers f close xs := by
  induction xs generalizing x with
  | nil => simp [followers]
  | cons y ys ih =>
    rw [List.map_cons, List.map_cons, List.intercalate_cons_cons, ← List.map_cons,
      List.append_assoc, ih]
    simp [followers]

theorem delimited_followers (hclose : isNumberChar close = false) (xs : List α) (r : List Char) :
    Delimited (followers f close xs ++ r) := by
  cases xs with
  | nil => exact delimited_cons hclose r
  | cons x xs => exact delimited_cons (by decide) _

theorem followers_unique (hclose : isNumberChar close = false) (hcomma : close ≠ ',')
    {xs ys : List α} (hread : ∀ x ∈ xs, ∀ y ∈ ys, Readable f x y) {r r' : List Char}
    (h : followers f close xs ++ r = followers f close ys ++ r') : xs = ys ∧ r = r' := by
  induction xs generalizing ys with
  | nil =>
    cases ys with
    | nil => exact ⟨rfl, (List.cons.inj h).2⟩
    | cons y ys => exact absurd (List.cons.inj h).1 hcomma
  | cons x xs ih =>
    cases ys with
    | nil => exact absurd (List.cons.inj h).1.symm hcomma
    | cons y ys =>
      rw [followers, followers, List.cons_append, List.cons_append, List.append_assoc,
        List.append_assoc] at h
      have htail := (List.cons.inj h).2
      obtain ⟨rfl, hrest⟩ := hread x List.mem_cons_self y List.mem_cons_self _ _
        (delimited_followers hclose xs r) (delimited_followers hclose ys r') htail
      obtain ⟨rfl, rfl⟩ := ih (fun x' hx y' hy =>
        hread x' (List.mem_cons_of_mem x hx) y' (List.mem_cons_of_mem x hy)) hrest
      exact ⟨rfl, rfl⟩

/-- A bracketed sequence is read item by item. -/
theorem sequence_unique (hclose : isNumberChar close = false) (hcomma : close ≠ ',')
    (hhead : ∀ x, ∃ c rest, f x = c :: rest ∧ c ≠ close) {xs ys : List α}
    (hread : ∀ x ∈ xs, ∀ y ∈ ys, Readable f x y) {r r' : List Char}
    (h : [','].intercalate (xs.map f) ++ [close] ++ r =
      [','].intercalate (ys.map f) ++ [close] ++ r') : xs = ys ∧ r = r' := by
  cases xs with
  | nil =>
    cases ys with
    | nil => exact ⟨rfl, by simpa using h⟩
    | cons y ys =>
      obtain ⟨c, rest, hc, hne⟩ := hhead y
      -- an item does not start with the closing bracket
      rw [intercalate_followers, hc] at h
      exact absurd (List.cons.inj h).1.symm hne
  | cons x xs =>
    cases ys with
    | nil =>
      obtain ⟨c, rest, hc, hne⟩ := hhead x
      rw [intercalate_followers, hc] at h
      exact absurd (List.cons.inj h).1 hne
    | cons y ys =>
      rw [intercalate_followers, intercalate_followers, List.append_assoc, List.append_assoc] at h
      -- the first items are the same, and what follows them as well
      obtain ⟨rfl, hrest⟩ := hread x List.mem_cons_self y List.mem_cons_self _ _
        (delimited_followers hclose xs r) (delimited_followers hclose ys r') h
      obtain ⟨rfl, rfl⟩ := followers_unique hclose hcomma (fun x' hx y' hy =>
        hread x' (List.mem_cons_of_mem x hx) y' (List.mem_cons_of_mem x hy)) hrest
      exact ⟨rfl, rfl⟩

end Sequence

/-! ### The text determines the value -/

/-- What kind of value a text is of. -/
inductive Shape where
  | null | bool | number | string | array | object
  deriving DecidableEq

def Json.shape : Json → Shape
  | .null => .null
  | .bool _ => .bool
  | .number _ => .number
  | .string _ => .string
  | .array _ => .array
  | .object _ => .object

/-- The kind of value that a character starts. -/
def shapeOf (c : Char) : Option Shape :=
  if c = 'n' then some .null
  else if c = 't' ∨ c = 'f' then some .bool
  else if c = '"' then some .string
  else if c = '[' then some .array
  else if c = '\x7b' then some .object
  else if isNumberChar c then some .number
  else none

section Text

variable {j : Stringify}

theorem Json.toList_array (items : List Json) :
    (Json.text j (.array items)).toList =
      '[' :: ([','].intercalate (items.map fun x => (x.text j).toList) ++ [']']) := by
  simp [Json.text, Json.itemTexts_eq, String.toList_intercalate, Function.comp_def]

theorem Json.toList_object (fields : List (String × Json)) :
    (Json.text j (.object fields)).toList = '\x7b' :: ([','].intercalate
      (fields.map fun kv => (fieldText j kv.1 (kv.2.text j)).toList) ++ ['\x7d']) := by
  simp [Json.text, Json.fieldTexts_eq, String.toList_intercalate, Function.comp_def]

/-- A character of a number starts nothing else. -/
theorem shapeOf_of_isNumberChar {c : Char} (h : isNumberChar c = true) :
    shapeOf c = some .number := by
  have hne : ∀ d, isNumberChar d = false → c ≠ d := by
    rintro d hd rfl
    rw [h] at hd
    exact absurd hd (by simp)
  simp [shapeOf, h, hne 'n' (by decide), hne 't' (by decide), hne 'f' (by decide),
    hne '"' (by decide), hne '[' (by decide), hne '\x7b' (by decide)]

/-- The first character tells the kind of value. -/
theorem Json.text_head (hj : j.Lawful) (x : Json) :
    ∃ c rest, (x.text j).toList = c :: rest ∧ shapeOf c = some x.shape := by
  cases x with
  | null => exact ⟨'n', "ull".toList, (by decide : "null".toList = _), by decide⟩
  | bool b =>
    cases b with
    | true => exact ⟨'t', "rue".toList, (by decide : "true".toList = _), by decide⟩
    | false => exact ⟨'f', "alse".toList, (by decide : "false".toList = _), by decide⟩
  | number q =>
    cases hq : (j.number q).toList with
    | nil => exact absurd hq (hj.number_ne_nil q)
    | cons c rest =>
      refine ⟨c, rest, hq, shapeOf_of_isNumberChar (hj.number_chars q c ?_)⟩
      rw [hq]
      exact List.mem_cons_self
  | string s =>
    obtain ⟨rest, hrest⟩ := hj.string_quote s
    exact ⟨'"', rest, hrest, (by decide : shapeOf '"' = some .string)⟩
  | array items =>
    exact ⟨'[', _, Json.toList_array items, (by decide : shapeOf '[' = some .array)⟩
  | object fields =>
    exact ⟨'\x7b', _, Json.toList_object fields, (by decide : shapeOf '\x7b' = some .object)⟩

theorem Json.shape_eq (hj : j.Lawful) {x y : Json} {r r' : List Char}
    (h : (x.text j).toList ++ r = (y.text j).toList ++ r') : x.shape = y.shape := by
  obtain ⟨c, rest, hc, hx⟩ := Json.text_head hj x
  obtain ⟨d, rest', hd, hy⟩ := Json.text_head hj y
  rw [hc, hd] at h
  obtain rfl : c = d := (List.cons.inj h).1
  exact Option.some_inj.mp (hx.symm.trans hy)

/-- A field is read as its key and then its value. -/
theorem fieldText_readable (hj : j.Lawful) {kv lw : String × Json}
    (hvalue : Readable (fun x : Json => (x.text j).toList) kv.2 lw.2) :
    Readable (fun kv : String × Json => (fieldText j kv.1 (kv.2.text j)).toList) kv lw := by
  intro r r' hr hr' h
  simp only [fieldText, String.toList_append, List.append_assoc] at h
  obtain ⟨hkey, hrest⟩ := hj.string_unique _ _ _ _ h
  obtain ⟨hval, rfl⟩ := hvalue r r' hr hr' (List.append_cancel_left hrest)
  exact ⟨Prod.ext hkey hval, rfl⟩

/-- A value is read from its text, whatever follows it. -/
theorem Json.text_readable (hj : j.Lawful) (x y : Json) :
    Readable (fun x : Json => (x.text j).toList) x y := by
  intro r r' hr hr' h
  -- the first character tells the kind of a value, and the rest is read as one of that kind
  have hshape := Json.shape_eq hj h
  match x, y, hshape with
  | .null, .null, _ => exact ⟨rfl, List.append_cancel_left h⟩
  | .bool b, .bool b', _ =>
    have htrue : "true".toList = ['t', 'r', 'u', 'e'] := by decide
    have hfalse : "false".toList = ['f', 'a', 'l', 's', 'e'] := by decide
    cases b <;> cases b' <;> simp_all [Json.text]
  | .number q, .number q', _ =>
    obtain ⟨htext, rfl⟩ := span_unique (hj.number_chars q) (hj.number_chars q') hr hr' h
    exact ⟨congrArg Json.number (hj.number_injective (String.toList_inj.mp htext)), rfl⟩
  | .string s, .string s', _ =>
    obtain ⟨rfl, rfl⟩ := hj.string_unique s s' r r' h
    exact ⟨rfl, rfl⟩
  | .array xs, .array ys, _ =>
    simp only [Json.toList_array, List.cons_append] at h
    obtain ⟨rfl, rfl⟩ := sequence_unique (by decide) (by decide)
      (fun z => by
        obtain ⟨c, rest, hc, hshape⟩ := Json.text_head hj z
        exact ⟨c, rest, hc, by rintro rfl; exact absurd hshape (by simp [shapeOf, isNumberChar])⟩)
      (fun x hx y hy => Json.text_readable hj x y) (List.cons.inj h).2
    exact ⟨rfl, rfl⟩
  | .object fs, .object gs, _ =>
    simp only [Json.toList_object, List.cons_append] at h
    obtain ⟨rfl, rfl⟩ := sequence_unique (by decide) (by decide)
      (fun kv => by
        obtain ⟨rest, hrest⟩ := hj.string_quote kv.1
        exact ⟨'"', _, by simp only [fieldText, String.toList_append, hrest]; rfl, by decide⟩)
      (fun kv hkv lw hlw => fieldText_readable hj (Json.text_readable hj kv.2 lw.2))
      (List.cons.inj h).2
    exact ⟨rfl, rfl⟩
termination_by sizeOf x
decreasing_by
  · have := List.sizeOf_lt_of_mem hx
    simp only [Json.array.sizeOf_spec]
    omega
  · have := List.sizeOf_lt_of_mem hkv
    have hpair : sizeOf kv = 1 + sizeOf kv.1 + sizeOf kv.2 := by cases kv; rfl
    simp only [Json.object.sizeOf_spec]
    omega

/-- Two values with the same text are the same value. -/
theorem Json.text_injective (hj : j.Lawful) : Function.Injective (Json.text j) := fun x y h =>
  (Json.text_readable hj x y [] [] delimited_nil delimited_nil (by simp [h])).1

end Text

/-! ### Values of the source language as JSON -/

namespace JsValue

mutual

/-- A value as JSON, with the keys of every object in order; `none` for a value that has no JSON
text. -/
def toJson (le : String → String → Bool) : JsValue → Option Json
  | .undefined | .other => none
  | .null => some .null
  | .bool b => some (.bool b)
  | .number (.finite q) => some (.number q)
  | .number _ => some .null
  | .bigint i => some (.string (toString i))
  | .string s => some (.string s)
  | .array items => some (.array (itemsToJson le items))
  | .object fields =>
    some (.object ((fieldsToJson le fields).insertionSort fun a b => le a.1 b.1 = true))

/-- The items of an array. -/
def itemsToJson (le : String → String → Bool) : List JsValue → List Json
  | [] => []
  | v :: vs => (v.toJson le).getD .null :: itemsToJson le vs

/-- The fields of an object that have a text. -/
def fieldsToJson (le : String → String → Bool) : List (String × JsValue) → List (String × Json)
  | [] => []
  | (k, v) :: fields =>
    match v.toJson le with
    | some x => (k, x) :: fieldsToJson le fields
    | none => fieldsToJson le fields

end

mutual

/-- `JSON.parse(JSON.stringify(v))`; `none` where there is no text to parse. -/
def jsonRoundTrip : JsValue → Option JsValue
  | .undefined | .other | .bigint _ => none
  | .null => some .null
  | .bool b => some (.bool b)
  | .number (.finite q) => some (.number (.finite q))
  | .number _ => some .null
  | .string s => some (.string s)
  | .array items => some (.array (itemsRoundTrip items))
  | .object fields => some (.object (fieldsRoundTrip fields))

def itemsRoundTrip : List JsValue → List JsValue
  | [] => []
  | v :: vs => v.jsonRoundTrip.getD .null :: itemsRoundTrip vs

def fieldsRoundTrip : List (String × JsValue) → List (String × JsValue)
  | [] => []
  | (k, v) :: fields =>
    match v.jsonRoundTrip with
    | some w => (k, w) :: fieldsRoundTrip fields
    | none => fieldsRoundTrip fields

end

mutual

/-- A value that its JSON text stands for: no two fields of an object have the same key. -/
def IsJson : JsValue → Prop
  | .null | .bool _ | .string _ | .number (.finite _) => True
  | .array items => ItemsJson items
  | .object fields => (fields.map Prod.fst).Nodup ∧ FieldsJson fields
  | _ => False

def ItemsJson : List JsValue → Prop
  | [] => True
  | v :: vs => v.IsJson ∧ ItemsJson vs

def FieldsJson : List (String × JsValue) → Prop
  | [] => True
  | (_, v) :: fields => v.IsJson ∧ FieldsJson fields

end

mutual

/-- The same value, up to the order of the keys of objects. -/
def Same : JsValue → JsValue → Prop
  | .null, .null => True
  | .bool b, .bool b' => b = b'
  | .number n, .number n' => n = n'
  | .string s, .string s' => s = s'
  | .array items, .array items' => SameItems items items'
  | .object fields, .object fields' =>
    fields.length = fields'.length ∧ SameFields fields fields'
  | _, _ => False

def SameItems : List JsValue → List JsValue → Prop
  | [], [] => True
  | v :: vs, w :: ws => v.Same w ∧ SameItems vs ws
  | _, _ => False

/-- Each field is a field of the other object, with the same value. -/
def SameFields : List (String × JsValue) → List (String × JsValue) → Prop
  | [], _ => True
  | (k, v) :: fields, fields' =>
    (∃ w, fields'.lookup k = some w ∧ v.Same w) ∧ SameFields fields fields'

end

section Same

variable {le : String → String → Bool}

theorem itemsJson_iff {items : List JsValue} : ItemsJson items ↔ ∀ v ∈ items, v.IsJson := by
  induction items with
  | nil => simp [ItemsJson]
  | cons v vs ih => simp [ItemsJson, ih]

theorem fieldsJson_iff {fields : List (String × JsValue)} :
    FieldsJson fields ↔ ∀ kv ∈ fields, kv.2.IsJson := by
  induction fields with
  | nil => simp [FieldsJson]
  | cons kv fields ih => simp [FieldsJson, ih]

theorem sameFields_iff {fields fields' : List (String × JsValue)} :
    SameFields fields fields' ↔
      ∀ kv ∈ fields, ∃ w, fields'.lookup kv.1 = some w ∧ kv.2.Same w := by
  induction fields with
  | nil => simp [SameFields]
  | cons kv fields ih => simp [SameFields, ih]

/-- A field of a value is a field of any that is the same. -/
theorem Same.field {fs gs : List (String × JsValue)}
    (h : (object fs).Same (object gs)) {k : String} {v : JsValue} (hmem : (k, v) ∈ fs) :
    v.Same ((object gs).field k) := by
  obtain ⟨w, hw, hsame⟩ := sameFields_iff.mp h.2 (k, v) hmem
  rwa [JsValue.field, hw, Option.getD_some]

mutual

/-- A JSON value comes back as it was. -/
theorem IsJson.jsonRoundTrip_eq : ∀ {v : JsValue}, v.IsJson → v.jsonRoundTrip = some v
  | .null, _ | .bool _, _ | .string _, _ | .number (.finite _), _ => rfl
  | .array _, h => by rw [jsonRoundTrip, itemsRoundTrip_eq h]
  | .object _, h => by rw [jsonRoundTrip, fieldsRoundTrip_eq h.2]

theorem itemsRoundTrip_eq : ∀ {items : List JsValue}, ItemsJson items →
    itemsRoundTrip items = items
  | [], _ => rfl
  | v :: vs, h => by
    rw [itemsRoundTrip, h.1.jsonRoundTrip_eq, itemsRoundTrip_eq h.2]
    rfl

theorem fieldsRoundTrip_eq : ∀ {fields : List (String × JsValue)}, FieldsJson fields →
    fieldsRoundTrip fields = fields
  | [], _ => rfl
  | (k, v) :: fields, h => by
    rw [fieldsRoundTrip, h.1.jsonRoundTrip_eq, fieldsRoundTrip_eq h.2]

end

/-- A JSON value has a text. -/
theorem IsJson.toJson_eq {v : JsValue} (h : v.IsJson) : ∃ x, v.toJson le = some x := by
  cases v with
  | number n =>
    cases n with
    | finite q => exact ⟨_, rfl⟩
    | nan | infinity => exact h.elim
  | undefined | bigint | other => exact h.elim
  | null | bool | string | array | object => exact ⟨_, rfl⟩

theorem IsJson.toJson_inj {v w : JsValue} (hv : v.IsJson) (hw : w.IsJson)
    (h : (v.toJson le).getD .null = (w.toJson le).getD .null) : v.toJson le = w.toJson le := by
  obtain ⟨x, hx⟩ : ∃ x, v.toJson le = some x := hv.toJson_eq
  obtain ⟨y, hy⟩ : ∃ y, w.toJson le = some y := hw.toJson_eq
  rw [hx, hy] at h ⊢
  exact congrArg some h

theorem fieldsToJson_eq {fields : List (String × JsValue)} (h : ∀ kv ∈ fields, kv.2.IsJson) :
    fieldsToJson le fields = fields.map fun kv => (kv.1, (kv.2.toJson le).getD .null) := by
  induction fields with
  | nil => rfl
  | cons kv fields ih =>
    obtain ⟨x, hx⟩ : ∃ x, kv.2.toJson le = some x := (h kv List.mem_cons_self).toJson_eq
    rw [fieldsToJson, hx, ih fun kv' hkv => h kv' (List.mem_cons_of_mem kv hkv)]
    simp [hx]

theorem mem_fieldsToJson {fields : List (String × JsValue)} {k : String} {x : Json} :
    (k, x) ∈ fieldsToJson le fields ↔ ∃ v, (k, v) ∈ fields ∧ v.toJson le = some x := by
  induction fields with
  | nil => simp [fieldsToJson]
  | cons kv fields ih =>
    obtain ⟨l, w⟩ := kv
    cases hw : w.toJson le with
    | none =>
      simp only [fieldsToJson, hw, ih, List.mem_cons, Prod.mk.injEq]
      refine exists_congr fun v => and_congr_left fun hv => ?_
      exact (or_iff_right (by rintro ⟨-, rfl⟩; simp [hw] at hv)).symm
    | some y =>
      simp only [fieldsToJson, hw, ih, List.mem_cons, Prod.mk.injEq]
      constructor
      · rintro (⟨rfl, rfl⟩ | ⟨v, hv, hx⟩)
        · exact ⟨w, .inl ⟨rfl, rfl⟩, hw⟩
        · exact ⟨v, .inr hv, hx⟩
      · rintro ⟨v, ⟨rfl, rfl⟩ | hv, hx⟩
        · exact .inl ⟨rfl, Option.some_inj.mp (hx.symm.trans hw)⟩
        · exact .inr ⟨v, hv, hx⟩

/-- Objects that are written alike have the same fields, as far as these have a text. -/
theorem exists_field_of_toJson_eq {fs gs : List (String × JsValue)}
    (h : (object fs).toJson le = (object gs).toJson le) {k : String} {v : JsValue} {x : Json}
    (hmem : (k, v) ∈ fs) (hv : v.toJson le = some x) :
    ∃ w, (k, w) ∈ gs ∧ w.toJson le = some x := by
  simp only [toJson, Option.some.injEq, Json.object.injEq] at h
  have hin : (k, x) ∈ (fieldsToJson le gs).insertionSort fun a b => le a.1 b.1 = true := by
    rw [← h]
    exact (List.mem_insertionSort _).mpr (mem_fieldsToJson.mpr ⟨v, hmem, hv⟩)
  exact mem_fieldsToJson.mp ((List.mem_insertionSort _).mp hin)

theorem lookup_of_mem {fields : List (String × JsValue)} (hnodup : (fields.map Prod.fst).Nodup)
    {k : String} {v : JsValue} (hmem : (k, v) ∈ fields) : fields.lookup k = some v := by
  induction fields with
  | nil => exact absurd hmem List.not_mem_nil
  | cons kv fields ih =>
    obtain ⟨hnot, hnodup⟩ := List.nodup_cons.mp hnodup
    rcases List.mem_cons.mp hmem with rfl | hmem
    · simp
    · have hne : k ≠ kv.1 := by
        rintro rfl
        exact hnot (List.mem_map.mpr ⟨_, hmem, rfl⟩)
      rw [List.lookup_cons, beq_false_of_ne hne]
      exact ih hnodup hmem

theorem sameItems_of_toJson_eq {vs ws : List JsValue} (hvs : ∀ v ∈ vs, v.IsJson)
    (hws : ∀ w ∈ ws, w.IsJson)
    (hsame : ∀ v ∈ vs, ∀ w ∈ ws, v.toJson le = w.toJson le → v.Same w)
    (h : itemsToJson le vs = itemsToJson le ws) : SameItems vs ws := by
  induction vs generalizing ws with
  | nil =>
    cases ws with
    | nil => trivial
    | cons w ws => exact absurd h (by simp [itemsToJson])
  | cons v vs ih =>
    cases ws with
    | nil => exact absurd h (by simp [itemsToJson])
    | cons w ws =>
      obtain ⟨hhead, htail⟩ := List.cons.inj h
      refine ⟨hsame v List.mem_cons_self w List.mem_cons_self ?_, ih ?_ ?_ ?_ htail⟩
      · exact (hvs v List.mem_cons_self).toJson_inj (hws w List.mem_cons_self) hhead
      · exact fun v' hv' => hvs v' (List.mem_cons_of_mem v hv')
      · exact fun w' hw' => hws w' (List.mem_cons_of_mem w hw')
      · exact fun v' hv' w' hw' => hsame v' (List.mem_cons_of_mem v hv') w' (List.mem_cons_of_mem w hw')

theorem sameFields_of_toJson_eq {fs gs : List (String × JsValue)} (hfs : ∀ kv ∈ fs, kv.2.IsJson)
    (hgs : ∀ kv ∈ gs, kv.2.IsJson) (hnodup : (gs.map Prod.fst).Nodup)
    (hsame : ∀ kv ∈ fs, ∀ lw ∈ gs, kv.2.toJson le = lw.2.toJson le → kv.2.Same lw.2)
    (h : (fieldsToJson le fs).insertionSort (fun a b => le a.1 b.1 = true) =
      (fieldsToJson le gs).insertionSort (fun a b => le a.1 b.1 = true)) :
    fs.length = gs.length ∧ SameFields fs gs := by
  -- the two objects have the same fields, in some order
  have hperm : (fieldsToJson le fs).Perm (fieldsToJson le gs) := by
    have hsorted := List.perm_insertionSort (fun a b => le a.1 b.1 = true) (fieldsToJson le fs)
    rw [h] at hsorted
    exact hsorted.symm.trans (List.perm_insertionSort _ _)
  rw [fieldsToJson_eq hfs, fieldsToJson_eq hgs] at hperm
  refine ⟨by simpa using hperm.length_eq, sameFields_iff.mpr fun kv hkv => ?_⟩
  obtain ⟨lw, hlw, heq⟩ := List.mem_map.mp
    (hperm.subset (List.mem_map.mpr ⟨kv, hkv, rfl⟩))
  obtain ⟨hkey, hvalue⟩ := Prod.mk.inj heq
  refine ⟨lw.2, lookup_of_mem hnodup (hkey ▸ hlw), hsame kv hkv lw hlw ?_⟩
  exact (hfs kv hkv).toJson_inj (hgs lw hlw) hvalue.symm

/-- Values that are written alike are the same. -/
theorem same_of_toJson_eq (v w : JsValue) (hv : v.IsJson) (hw : w.IsJson)
    (h : v.toJson le = w.toJson le) : v.Same w := by
  match v, w, hv, hw with
  | .null, .null, _, _ => trivial
  | .bool b, .bool b', _, _ => simpa [toJson, Same] using h
  | .number (.finite q), .number (.finite q'), _, _ => simpa [toJson, Same] using h
  | .string s, .string s', _, _ => simpa [toJson, Same] using h
  -- part by part, since the parts have the same text again
  | .array vs, .array ws, hv, hw =>
    have hvs := itemsJson_iff.mp hv
    have hws := itemsJson_iff.mp hw
    exact sameItems_of_toJson_eq hvs hws
      (fun v hmem w hmem' => same_of_toJson_eq v w (hvs v hmem) (hws w hmem'))
      (by simpa [toJson] using h)
  | .object fs, .object gs, hv, hw =>
    have hfs := fieldsJson_iff.mp hv.2
    have hgs := fieldsJson_iff.mp hw.2
    exact sameFields_of_toJson_eq hfs hgs hw.1
      (fun kv hmem lw hmem' => same_of_toJson_eq kv.2 lw.2 (hfs kv hmem) (hgs lw hmem'))
      (by simpa [toJson] using h)
termination_by sizeOf v
decreasing_by
  · have := List.sizeOf_lt_of_mem hmem
    simp only [array.sizeOf_spec]
    omega
  · have := List.sizeOf_lt_of_mem hmem
    have hpair : sizeOf kv = 1 + sizeOf kv.1 + sizeOf kv.2 := by cases kv; rfl
    simp only [object.sizeOf_spec]
    omega

end Same

end JsValue

end AriOs.Js
