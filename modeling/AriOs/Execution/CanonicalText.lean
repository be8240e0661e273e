import AriOs.Execution.Approvals
import AriOs.Js.Canonical
import AriOs.Js.Stringify

/-!
# The text an approval is bound to

The canonical text of a value is its JSON text with the keys of every object in order. So two
values have the same text exactly if they are the same up to the order of keys.
-/

namespace AriOs.Execution.Approvals

open AriOs.Js

variable {j : Stringify}

/-! ### The order of keys -/

theorem textLe_total (a b : String) : textLe a b = true ∨ textLe b a = true := by
  simpa only [textLe_iff] using le_total (utf16 a) (utf16 b)

theorem textLe_trans {a b c : String} (hab : textLe a b = true) (hbc : textLe b c = true) :
    textLe a c = true := by
  rw [textLe_iff] at *
  exact hab.trans hbc

theorem textLe_antisymm {a b : String} (hab : textLe a b = true) (hba : textLe b a = true) :
    a = b := by
  rw [textLe_iff] at hab hba
  exact utf16_injective (le_antisymm hab hba)

/-! ### The canonical text as JSON -/

/-- Fields that are written and then put in order are those that are put in order and then
written. -/
theorem sorted_fieldTexts (fields : List (String × Json)) :
    ((fields.map fun kv => (kv.1, kv.2.text j)).insertionSort fun a b =>
        textLe a.1 b.1 = true).map (fun kv => j.string kv.1 ++ ":" ++ kv.2) =
      Json.fieldTexts j (fields.insertionSort fun a b => textLe a.1 b.1 = true) := by
  rw [Json.fieldTexts_eq, ← List.map_insertionSort (fun a b => textLe a.1 b.1 = true)
    (fun a b => textLe a.1 b.1 = true) (fun kv : String × Json => (kv.1, kv.2.text j)) fields
    fun _ _ _ _ => Iff.rfl, List.map_map]
  rfl

mutual

/-- The canonical text of a JSON value is the text of the value with its keys in order. -/
theorem canonicalSerialize_eq_text : ∀ {v : JsValue} {x : Json}, v.IsJson →
    v.toJson textLe = some x → canonicalSerialize j v = .ok (x.text j)
  | .null, _, _, h | .bool _, _, _, h | .string _, _, _, h | .number (.finite _), _, _, h => by
    rw [← Option.some.inj h]
    rfl
  | .array items, x, hv, h => by
    rw [← Option.some.inj h, canonicalSerialize, serializeItems_eq_texts hv]
    rfl
  | .object fields, x, hv, h => by
    rw [← Option.some.inj h, canonicalSerialize, serializeFields_eq_texts hv.2, Json.text,
      ← sorted_fieldTexts]
    rfl

theorem serializeItems_eq_texts : ∀ {items : List JsValue}, JsValue.ItemsJson items →
    serializeItems j items = .ok (Json.itemTexts j (JsValue.itemsToJson textLe items))
  | [], _ => rfl
  | v :: vs, h => by
    obtain ⟨x, hx⟩ : ∃ x, v.toJson textLe = some x := h.1.toJson_eq
    rw [serializeItems, canonicalSerialize_eq_text h.1 hx, serializeItems_eq_texts h.2,
      JsValue.itemsToJson, hx]
    rfl

theorem serializeFields_eq_texts : ∀ {fields : List (String × JsValue)},
    JsValue.FieldsJson fields →
      serializeFields j fields =
        .ok ((JsValue.fieldsToJson textLe fields).map fun kv => (kv.1, kv.2.text j))
  | [], _ => rfl
  | (k, v) :: fields, h => by
    obtain ⟨x, hx⟩ : ∃ x, v.toJson textLe = some x := h.1.toJson_eq
    rw [serializeFields, canonicalSerialize_eq_text h.1 hx, serializeFields_eq_texts h.2,
      JsValue.fieldsToJson, hx]
    rfl

end

/-- Two JSON values have a canonical text, and the same one exactly if they are the same up to the
order of keys. -/
theorem canonicalSerialize_eq_iff (hj : j.Lawful) {v w : JsValue} (hv : v.IsJson) (hw : w.IsJson) :
    ∃ text text', canonicalSerialize j v = .ok text ∧ canonicalSerialize j w = .ok text' ∧
      (text = text' ↔ v.Same w) := by
  obtain ⟨x, hx⟩ : ∃ x, v.toJson textLe = some x := hv.toJson_eq
  obtain ⟨y, hy⟩ : ∃ y, w.toJson textLe = some y := hw.toJson_eq
  refine ⟨_, _, canonicalSerialize_eq_text hv hx, canonicalSerialize_eq_text hw hy, ?_⟩
  rw [(Json.text_injective hj).eq_iff]
  constructor
  · rintro rfl
    exact JsValue.same_of_toJson_eq v w hv hw (hx.trans hy.symm)
  · intro hsame
    have heq := JsValue.toJson_eq_of_same textLe_total (fun _ _ _ => textLe_trans)
      (fun _ _ => textLe_antisymm) v w hv hw hsame
    exact Option.some.inj (hx.symm.trans (heq.trans hy))

/-! ### A value and its mirror image -/

def plainTransfer : JsValue :=
  .object [("to", .string "a"), ("fee", .object [("y", .null), ("x", .number (.finite 1))])]

def mirrored : JsValue :=
  .object [("fee", .object [("x", .number (.finite 1)), ("y", .null)]), ("to", .string "a")]

theorem canonicalSerialize_mirrored :
    canonicalSerialize stringify plainTransfer = canonicalSerialize stringify mirrored := by
  have hplain : plainTransfer.IsJson := by
    simp [plainTransfer, JsValue.IsJson, JsValue.FieldsJson]
  have hmirrored : mirrored.IsJson := by simp [mirrored, JsValue.IsJson, JsValue.FieldsJson]
  obtain ⟨text, text', htext, htext', hiff⟩ :=
    canonicalSerialize_eq_iff stringify_lawful hplain hmirrored
  have hfee : (JsValue.object [("y", .null), ("x", .number (.finite 1))]).Same
      (.object [("x", .number (.finite 1)), ("y", .null)]) :=
    ⟨rfl, ⟨_, rfl, trivial⟩, ⟨_, rfl, rfl⟩, trivial⟩
  have hsame : plainTransfer.Same mirrored := ⟨rfl, ⟨_, rfl, rfl⟩, ⟨_, rfl, hfee⟩, trivial⟩
  rw [htext, htext', hiff.mpr hsame]

end AriOs.Execution.Approvals
