import AriOs.Js.Throw
import AriOs.Js.Value

/-!
# Integers of any size in JSON

JSON has no integers of any size. They are written as objects that hold their text under a key of
its own, and what reads the text back, a reviver, turns such objects into integers again. A
reviver sees every object from the inside out, and cannot tell an object that was written for an
integer from one that was there before: what comes back is what was written exactly where the
reviver leaves every object of the value alone.

## Main results

* `revived_tagged_iff` — what comes back: values built from JSON values and integers, whose
  objects the reviver leaves alone
* `exists_revived_iff` — what can be read at all
-/

namespace AriOs.Js

/-- The key of an integer's text. -/
def BIGINT_KEY : String := "$bigint"

/-- The object that is written for an integer. -/
def bigintTag (i : Int) : JsValue := .object [(BIGINT_KEY, .string (toString i))]

mutual

/-- The JSON value that `JSON.stringify` writes, with tags for integers, if it writes one. -/
def tagged : JsValue → Option JsValue
  | .undefined | .other => none
  | .null => some .null
  | .bool b => some (.bool b)
  | .number n => some (if n.isFinite then .number n else .null)
  | .bigint i => some (bigintTag i)
  | .string s => some (.string s)
  | .array items => some (.array (taggedItems items))
  | .object fields => some (.object (taggedFields fields))

/-- An item without a value is written as `null`. -/
def taggedItems : List JsValue → List JsValue
  | [] => []
  | v :: items => (tagged v).getD .null :: taggedItems items

/-- A field without a value is left out. -/
def taggedFields : List (String × JsValue) → List (String × JsValue)
  | [] => []
  | (key, v) :: fields =>
    match tagged v with
    | some json => (key, json) :: taggedFields fields
    | none => taggedFields fields

end

mutual

/-- `JSON.parse` with a reviver that leaves all but objects alone. -/
def revived (revive : JsValue → Except String JsValue) : JsValue → Except String JsValue
  | .array items => do return .array (← revivedItems revive items)
  | .object fields => do revive (.object (← revivedFields revive fields))
  | v => .ok v

def revivedItems (revive : JsValue → Except String JsValue) :
    List JsValue → Except String (List JsValue)
  | [] => .ok []
  | v :: items => do return (← revived revive v) :: (← revivedItems revive items)

def revivedFields (revive : JsValue → Except String JsValue) :
    List (String × JsValue) → Except String (List (String × JsValue))
  | [] => .ok []
  | (key, v) :: fields => do
    return (key, ← revived revive v) :: (← revivedFields revive fields)

end

/-- What is asked of a reviver: it knows the tags, and an object it makes of an object is that
object. -/
structure Reviver (revive : JsValue → Except String JsValue) : Prop where
  tag : ∀ i, revive (bigintTag i) = .ok (.bigint i)
  object : ∀ {fields fields'}, revive (.object fields) = .ok (.object fields') → fields' = fields

mutual

/-- A value that is built from JSON values and integers. -/
def Portable : JsValue → Prop
  | .null | .bool _ | .bigint _ | .string _ => True
  | .number n => n.isFinite = true
  | .array items => PortableItems items
  | .object fields => PortableFields fields
  | .undefined | .other => False

def PortableItems : List JsValue → Prop
  | [] => True
  | v :: items => Portable v ∧ PortableItems items

def PortableFields : List (String × JsValue) → Prop
  | [] => True
  | (_, v) :: fields => Portable v ∧ PortableFields fields

end

mutual

/-- Every object in the value, at any depth, has fields of which `P` holds. -/
def EveryObject (P : List (String × JsValue) → Prop) : JsValue → Prop
  | .array items => EveryObjectItems P items
  | .object fields => P fields ∧ EveryObjectFields P fields
  | _ => True

def EveryObjectItems (P : List (String × JsValue) → Prop) : List JsValue → Prop
  | [] => True
  | v :: items => EveryObject P v ∧ EveryObjectItems P items

def EveryObjectFields (P : List (String × JsValue) → Prop) : List (String × JsValue) → Prop
  | [] => True
  | (_, v) :: fields => EveryObject P v ∧ EveryObjectFields P fields

end

theorem portableItems_iff {items : List JsValue} :
    PortableItems items ↔ ∀ v ∈ items, Portable v := by
  induction items with
  | nil => simp [PortableItems]
  | cons v items ih => simp [PortableItems, ih]

theorem portableFields_iff {fields : List (String × JsValue)} :
    PortableFields fields ↔ ∀ kv ∈ fields, Portable kv.2 := by
  induction fields with
  | nil => simp [PortableFields]
  | cons kv fields ih => simp [PortableFields, ih]

section Every

variable {P Q : List (String × JsValue) → Prop}

theorem everyObjectItems_iff {items : List JsValue} :
    EveryObjectItems P items ↔ ∀ v ∈ items, EveryObject P v := by
  induction items with
  | nil => simp [EveryObjectItems]
  | cons v items ih => simp [EveryObjectItems, ih]

theorem everyObjectFields_iff {fields : List (String × JsValue)} :
    EveryObjectFields P fields ↔ ∀ kv ∈ fields, EveryObject P kv.2 := by
  induction fields with
  | nil => simp [EveryObjectFields]
  | cons kv fields ih => simp [EveryObjectFields, ih]

mutual

theorem everyObject_congr (h : ∀ fields, P fields ↔ Q fields) :
    ∀ v : JsValue, EveryObject P v ↔ EveryObject Q v
  | .undefined | .null | .bool _ | .number _ | .bigint _ | .string _ | .other => by
    simp [EveryObject]
  | .array items => by
    rw [EveryObject, EveryObject]
    exact everyObjectItems_congr h items
  | .object fields => by
    rw [EveryObject, EveryObject, h, everyObjectFields_congr h fields]

theorem everyObjectItems_congr (h : ∀ fields, P fields ↔ Q fields) :
    ∀ items : List JsValue, EveryObjectItems P items ↔ EveryObjectItems Q items
  | [] => by simp [EveryObjectItems]
  | v :: items => by
    rw [EveryObjectItems, EveryObjectItems, everyObject_congr h v, everyObjectItems_congr h items]

theorem everyObjectFields_congr (h : ∀ fields, P fields ↔ Q fields) :
    ∀ fields : List (String × JsValue), EveryObjectFields P fields ↔ EveryObjectFields Q fields
  | [] => by simp [EveryObjectFields]
  | (_, v) :: fields => by
    rw [EveryObjectFields, EveryObjectFields, everyObject_congr h v,
      everyObjectFields_congr h fields]

end

end Every

section Revival

variable {revive : JsValue → Except String JsValue}

theorem revived_bigintTag (h : Reviver revive) (i : Int) :
    revived revive (bigintTag i) = .ok (.bigint i) := by
  rw [bigintTag, revived]
  exact h.tag i

/-- The reviver leaves an object with these fields alone. -/
def LeftAlone (revive : JsValue → Except String JsValue)
    (fields : List (String × JsValue)) : Prop :=
  revive (.object fields) = .ok (.object fields)

/-- Something is written for a value of JSON and integers. -/
theorem exists_tagged : ∀ {v : JsValue}, Portable v → ∃ w, tagged v = some w
  | .null, _ | .bool _, _ | .number _, _ | .bigint _, _ | .string _, _ | .array _, _
  | .object _, _ => by simp [tagged]

theorem length_taggedFields_le : ∀ fields : List (String × JsValue),
    (taggedFields fields).length ≤ fields.length
  | [] => Nat.le_refl _
  | (_, v) :: fields => by
    have hrest := length_taggedFields_le fields
    cases htag : tagged v with
    | none => simp only [taggedFields, htag, List.length_cons]; omega
    | some w => simpa only [taggedFields, htag, List.length_cons, Nat.add_le_add_iff_right]

theorem length_of_revivedFields : ∀ {fields fields' : List (String × JsValue)},
    revivedFields revive fields = .ok fields' → fields'.length = fields.length
  | [], _, h => by cases h; rfl
  | (_, v) :: fields, fields', h => by
    simp only [revivedFields, bind_eq_ok] at h
    obtain ⟨w, -, rest, hrest, heq⟩ := h
    cases heq
    rw [List.length_cons, List.length_cons, length_of_revivedFields hrest]

/-- A value came back as it was. -/
def ComesBack (revive : JsValue → Except String JsValue) (v : JsValue) : Prop :=
  ∃ w, tagged v = some w ∧ revived revive w = .ok v

mutual

/-- A value comes back as it was exactly if it is built from JSON values and integers, and the
reviver leaves every object in it alone. -/
theorem revived_tagged_iff (h : Reviver revive) : ∀ {v : JsValue},
    ComesBack revive v ↔ Portable v ∧ EveryObject (LeftAlone revive) v
  | .null | .bool _ | .string _ => by
    simp [ComesBack, tagged, revived, Portable, EveryObject]
  | .undefined | .other => by simp [ComesBack, tagged, Portable]
  | .bigint i => by
    simp [ComesBack, tagged, revived_bigintTag h, Portable, EveryObject]
  | .number n => by
    simp only [ComesBack, tagged, Portable, EveryObject, Option.some.injEq, exists_eq_left']
    split
    next hn => simp [revived, hn]
    next hn => simp [revived, hn]
  | .array items => by
    rw [Portable, EveryObject, ← revivedItems_tagged_iff h]
    simp [ComesBack, tagged, revived, pure, Except.pure]
  | .object fields => by
    rw [Portable, EveryObject, and_left_comm, ← revivedFields_tagged_iff h]
    simp only [ComesBack, tagged, Option.some.injEq, exists_eq_left', revived, bind_eq_ok]
    constructor
    · rintro ⟨fields', hfields, hrevive⟩
      -- an object that comes back went through the reviver as it came from its fields
      obtain rfl := h.object hrevive
      exact ⟨hrevive, hfields⟩
    · rintro ⟨hrevive, hfields⟩
      exact ⟨fields, hfields, hrevive⟩

theorem revivedItems_tagged_iff (h : Reviver revive) : ∀ {items : List JsValue},
    revivedItems revive (taggedItems items) = .ok items ↔
      PortableItems items ∧ EveryObjectItems (LeftAlone revive) items
  | [] => by simp [taggedItems, revivedItems, PortableItems, EveryObjectItems]
  | v :: items => by
    rw [PortableItems, EveryObjectItems, and_and_and_comm, ← revived_tagged_iff h,
      ← revivedItems_tagged_iff h, ComesBack]
    cases htag : tagged v with
    | none =>
      -- it is written as `null`, and `null` comes back
      simp only [taggedItems, htag, Option.getD_none, revivedItems, revived, bind_eq_ok]
      constructor
      · rintro ⟨_, hnull, rest, _, heq⟩
        cases hnull
        cases heq
        simp [tagged] at htag
      · rintro ⟨⟨w, hw, -⟩, -⟩
        cases hw
    | some w => simp [taggedItems, htag, revivedItems, pure, Except.pure]

theorem revivedFields_tagged_iff (h : Reviver revive) : ∀ {fields : List (String × JsValue)},
    revivedFields revive (taggedFields fields) = .ok fields ↔
      PortableFields fields ∧ EveryObjectFields (LeftAlone revive) fields
  | [] => by simp [taggedFields, revivedFields, PortableFields, EveryObjectFields]
  | (key, v) :: fields => by
    rw [PortableFields, EveryObjectFields, and_and_and_comm, ← revived_tagged_iff h,
      ← revivedFields_tagged_iff h, ComesBack]
    cases htag : tagged v with
    | none =>
      -- it is left out, and no field takes its place
      simp only [taggedFields, htag]
      constructor
      · intro heq
        have hlength := length_of_revivedFields heq
        have hle := length_taggedFields_le fields
        rw [List.length_cons] at hlength
        omega
      · rintro ⟨⟨w, hw, -⟩, -⟩
        cases hw
    | some w => simp [taggedFields, htag, revivedFields, pure, Except.pure]

end

/-- The reviver takes an object with these fields, once they were written and read: a field may have
become an integer by then. -/
def Accepted (revive : JsValue → Except String JsValue) (fields : List (String × JsValue)) : Prop :=
  ∀ fields', revivedFields revive (taggedFields fields) = .ok fields' →
    ∃ v, revive (.object fields') = .ok v

/-- Nothing is written for a value without objects only. -/
theorem everyObject_of_tagged_eq_none {P : List (String × JsValue) → Prop} {v : JsValue}
    (h : tagged v = none) : EveryObject P v := by
  cases v with
  | undefined | other => simp [EveryObject]
  | null | bool | number | bigint | string | array | object => simp [tagged] at h

mutual

/-- What is written for a value can be read exactly if the reviver takes every object in it. -/
theorem exists_revived_iff (h : Reviver revive) : ∀ {v w : JsValue}, tagged v = some w →
    ((∃ r, revived revive w = .ok r) ↔ EveryObject (Accepted revive) v)
  | .null, _, hw | .bool _, _, hw | .string _, _, hw => by
    cases hw
    simp [revived, EveryObject]
  | .number n, _, hw => by
    cases hw
    split <;> simp [revived, EveryObject]
  | .bigint i, _, hw => by
    cases hw
    simp [revived_bigintTag h, EveryObject]
  | .array items, _, hw => by
    cases hw
    rw [EveryObject, ← exists_revivedItems_iff h items]
    simp [revived, pure, Except.pure]
  | .object fields, _, hw => by
    cases hw
    rw [EveryObject, ← exists_revivedFields_iff h fields]
    simp only [revived, bind_eq_ok]
    constructor
    · -- an object is revived after its fields
      rintro ⟨r, fields', hfields, hrevive⟩
      refine ⟨fun fields'' heq => ?_, fields', hfields⟩
      obtain rfl := Except.ok.inj (hfields.symm.trans heq)
      exact ⟨r, hrevive⟩
    · rintro ⟨haccepted, fields', hfields⟩
      obtain ⟨r, hrevive⟩ := haccepted fields' hfields
      exact ⟨r, fields', hfields, hrevive⟩

theorem exists_revivedItems_iff (h : Reviver revive) : ∀ items : List JsValue,
    (∃ r, revivedItems revive (taggedItems items) = .ok r) ↔
      EveryObjectItems (Accepted revive) items
  | [] => by simp [taggedItems, revivedItems, EveryObjectItems]
  | v :: items => by
    rw [EveryObjectItems, ← exists_revivedItems_iff h items]
    cases hw : tagged v with
    | none =>
      simp [everyObject_of_tagged_eq_none hw, taggedItems, hw, revivedItems, revived, pure,
        Except.pure]
    | some w =>
      rw [← exists_revived_iff h hw]
      simp [taggedItems, hw, revivedItems, pure, Except.pure]

theorem exists_revivedFields_iff (h : Reviver revive) : ∀ fields : List (String × JsValue),
    (∃ r, revivedFields revive (taggedFields fields) = .ok r) ↔
      EveryObjectFields (Accepted revive) fields
  | [] => by simp [taggedFields, revivedFields, EveryObjectFields]
  | (key, v) :: fields => by
    rw [EveryObjectFields, ← exists_revivedFields_iff h fields]
    cases hw : tagged v with
    | none => simp [everyObject_of_tagged_eq_none hw, taggedFields, hw]
    | some w =>
      rw [← exists_revived_iff h hw]
      simp [taggedFields, hw, revivedFields, pure, Except.pure]

end

end Revival

end AriOs.Js
