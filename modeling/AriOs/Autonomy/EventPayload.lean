import AriOs.Autonomy.EventBus
import AriOs.Js.BigintTags

/-!
# What comes back of an event's payload

The event bus stores a payload as JSON in which a `bigint` is an object with its text under
`$bigint`, and reads every object of that shape as a `bigint`. An object of the payload that has
the shape itself comes back as a `bigint`, if its text is that of one, and the row cannot be read
if it is not.

## Main results

* `encode_eq_tagged`, `decode_eq_revived` — the bus writes tags, and reads them
-/

namespace AriOs.Autonomy.Events

open AriOs.Js

/-! ### Written and read -/

mutual

theorem encode_eq_tagged : ∀ v : JsValue, encode v = tagged v
  | .undefined | .null | .bool _ | .number _ | .bigint _ | .string _ | .other => rfl
  | .array items => by rw [encode, tagged, encodeItems_eq_tagged items]
  | .object fields => by rw [encode, tagged, encodeFields_eq_tagged fields]

theorem encodeItems_eq_tagged : ∀ items : List JsValue, encodeItems items = taggedItems items
  | [] => rfl
  | v :: items => by
    rw [encodeItems, taggedItems, encode_eq_tagged v, encodeItems_eq_tagged items]

theorem encodeFields_eq_tagged :
    ∀ fields : List (String × JsValue), encodeFields fields = taggedFields fields
  | [] => rfl
  | (k, v) :: fields => by
    rw [encodeFields, taggedFields, encode_eq_tagged v]
    cases tagged v with
    | some json => exact congrArg ((k, json) :: ·) (encodeFields_eq_tagged fields)
    | none => exact encodeFields_eq_tagged fields

end

mutual

theorem decode_eq_revived : ∀ v : JsValue, decode v = revived revive v
  | .undefined | .null | .bool _ | .number _ | .bigint _ | .string _ | .other => rfl
  | .array items => by rw [decode, revived, decodeItems_eq_revived items]
  | .object fields => by rw [decode, revived, decodeFields_eq_revived fields]

theorem decodeItems_eq_revived :
    ∀ items : List JsValue, decodeItems items = revivedItems revive items
  | [] => rfl
  | v :: items => by
    rw [decodeItems, revivedItems, decode_eq_revived v, decodeItems_eq_revived items]

theorem decodeFields_eq_revived :
    ∀ fields : List (String × JsValue), decodeFields fields = revivedFields revive fields
  | [] => rfl
  | (_, v) :: fields => by
    rw [decodeFields, revivedFields, decode_eq_revived v, decodeFields_eq_revived fields]

end

/-- The fields of an object that is read as a `bigint`: a text under `$bigint` and nothing else. -/
def LooksTagged (fields : List (String × JsValue)) : Prop :=
  ∃ s, fields = [("$bigint", .string s)]

theorem revive_of_not_looksTagged {fields : List (String × JsValue)} (h : ¬ LooksTagged fields) :
    revive (.object fields) = .ok (.object fields) := by
  unfold revive
  split
  next s heq => exact absurd ⟨s, JsValue.object.inj heq⟩ h
  next => rfl

theorem revive_tag (s : String) : revive (.object [("$bigint", .string s)]) =
    match bigInt? s with
    | some i => .ok (.bigint i)
    | none => .error ("Cannot convert " ++ s ++ " to a BigInt") := rfl

theorem leftAlone_iff {fields : List (String × JsValue)} :
    LeftAlone revive fields ↔ ¬ LooksTagged fields := by
  constructor
  · rintro h ⟨s, rfl⟩
    rw [LeftAlone, revive_tag] at h
    split at h <;> cases h
  · exact revive_of_not_looksTagged

theorem reviver : Reviver revive where
  tag i := by
    rw [bigintTag, BIGINT_KEY, revive_tag, bigInt?_toString]
  object {fields fields'} h := by
    by_cases htag : LooksTagged fields
    · obtain ⟨s, rfl⟩ := htag
      rw [revive_tag] at h
      split at h <;> cases h
    · rw [revive_of_not_looksTagged htag] at h
      exact (JsValue.object.inj (Except.ok.inj h)).symm

/-! ### Rows that cannot be read -/

/-- What is written of an object can be read, as far as the object itself goes. -/
def Readable (fields : List (String × JsValue)) : Prop :=
  ∀ s, encodeFields fields = [("$bigint", .string s)] → ∃ i, bigInt? s = some i

/-- Only a text is read as a text. -/
theorem eq_string_of_decode {w : JsValue} {s : String} (h : decode w = .ok (.string s)) :
    w = .string s := by
  cases w with
  | object fields =>
    simp only [decode, bind_eq_ok] at h
    obtain ⟨fields', _, hrevive⟩ := h
    by_cases htag : LooksTagged fields'
    · obtain ⟨s', rfl⟩ := htag
      rw [revive_tag] at hrevive
      split at hrevive <;> cases hrevive
    · rw [revive_of_not_looksTagged htag] at hrevive
      cases hrevive
  | array items =>
    simp only [decode, bind_eq_ok] at h
    obtain ⟨items', _, heq⟩ := h
    cases heq
  | undefined | null | bool | number | bigint | string | other => exact Except.ok.inj h

/-- An object looks like a tag after its fields were read exactly if it did before. -/
theorem decodeFields_eq_tag_iff {fields fields' : List (String × JsValue)} {s : String}
    (h : decodeFields fields = .ok fields') :
    fields' = [("$bigint", .string s)] ↔ fields = [("$bigint", .string s)] := by
  constructor
  · rintro rfl
    match fields with
    | [] => cases h
    | [(key, w)] =>
      simp only [decodeFields, bind_eq_ok] at h
      obtain ⟨v, hv, rest, hrest, heq⟩ := h
      cases heq
      rw [eq_string_of_decode hv]
    | _ :: _ :: _ =>
      simp only [decodeFields, bind_eq_ok] at h
      obtain ⟨v, _, rest, ⟨v', _, rest', _, heq'⟩, heq⟩ := h
      cases heq'
      simp [pure, Except.pure] at heq
  · rintro rfl
    exact (Except.ok.inj h).symm

theorem exists_revive_iff {fields : List (String × JsValue)} :
    (∃ v, revive (.object fields) = .ok v) ↔
      ∀ s, fields = [("$bigint", .string s)] → ∃ i, bigInt? s = some i := by
  by_cases htag : LooksTagged fields
  · obtain ⟨s, rfl⟩ := htag
    rw [revive_tag]
    cases hs : bigInt? s with
    | none => simp [hs]
    | some i => simp [hs]
  · rw [revive_of_not_looksTagged htag]
    refine ⟨fun _ s heq => absurd ⟨s, heq⟩ htag, fun _ => ⟨_, rfl⟩⟩

/-- An object is read exactly if it is no tag with a text that `BigInt` does not read. -/
theorem accepted_iff {fields : List (String × JsValue)} :
    Accepted revive fields ↔ Readable fields := by
  rw [Accepted, Readable, encodeFields_eq_tagged]
  constructor
  · intro h s htag
    have hread : revivedFields revive (taggedFields fields) = .ok [("$bigint", .string s)] := by
      rw [htag]
      rfl
    exact exists_revive_iff.mp (h _ hread) s rfl
  · intro h fields' hfields
    rw [← decodeFields_eq_revived] at hfields
    exact exists_revive_iff.mpr fun s htag => h s ((decodeFields_eq_tag_iff hfields).mp htag)

/-! ### The round trip -/

/-- The payload of a row that was written for `v`: a payload that is not written at all is missing
in the row. -/
def payloadRead (v : JsValue) : Except String JsValue := decode ((encode v).getD .undefined)

theorem payloadRead_eq_ok_iff {v : JsValue} (hv : Portable v) :
    payloadRead v = .ok v ↔ ComesBack revive v := by
  obtain ⟨w, hw⟩ := exists_tagged hv
  simp [payloadRead, ComesBack, encode_eq_tagged, decode_eq_revived, hw]

/-- A payload of JSON values and `bigint`s comes back as it was exactly if no object in it is a text
under `$bigint` and nothing else. A payload of any kind can be read at all exactly if no object in
it is written as a text under `$bigint` that `BigInt` does not read. -/
theorem decode_encode_iff (v : JsValue) :
    (Portable v → (payloadRead v = .ok v ↔
      EveryObject (fun fields => ¬ LooksTagged fields) v)) ∧
    ((∃ w, payloadRead v = .ok w) ↔ EveryObject Readable v) := by
  constructor
  · intro hv
    rw [payloadRead_eq_ok_iff hv, revived_tagged_iff reviver, and_iff_right hv]
    exact everyObject_congr (fun _ => leftAlone_iff) v
  · rw [← everyObject_congr (fun _ => accepted_iff), payloadRead, encode_eq_tagged]
    cases h : tagged v with
    | none => simp [everyObject_of_tagged_eq_none h, decode]
    | some w =>
      rw [← exists_revived_iff reviver h, Option.getD_some, decode_eq_revived]

/-- A `bigint` in a list comes back. -/
theorem decode_encode_list : payloadRead (.array [.bigint 5, .null]) =
    .ok (.array [.bigint 5, .null]) :=
  ((decode_encode_iff (.array [.bigint 5, .null])).1 (by simp [Portable, PortableItems])).mpr
    (by simp [EveryObject, EveryObjectItems])

/-- An object with a text under `$bigint` comes back as a `bigint`. A bus without schemas takes an
event whose payload has a text there that is not one, and the row cannot be read. -/
theorem decode_encode_collision :
    ¬ (∀ v, Portable v → payloadRead v = .ok v) ∧
    ¬ (∀ (B : Bus) (e e' : Envelope), B.normalize e = .ok e' →
      ∃ w, payloadRead e'.payload = .ok w) := by
  constructor
  · intro h
    have hback := h (.object [("$bigint", .string "5")]) (by simp [Portable, PortableFields])
    have hfive : payloadRead (.object [("$bigint", .string "5")]) = .ok (.bigint 5) := by rfl
    rw [hfive] at hback
    cases hback
  · intro h
    obtain ⟨w, hw⟩ := h {} ⟨"e", "t", 1, .object [("$bigint", .string "x")], .object []⟩ _ rfl
    have hx : payloadRead (.object [("$bigint", .string "x")]) =
        .error "Cannot convert x to a BigInt" := by rfl
    rw [hx] at hw
    cases hw

end AriOs.Autonomy.Events
