import AriOs.Js.Json
import AriOs.Js.Throw
import Mathlib.Data.List.Infix
import Mathlib.Order.Basic

/-!
# Canonical JSON

A payload is stored as one text: its keys are put in order at every level, and whatever has no
JSON text of its own is refused, wherever it stands. So two payloads get the same text exactly if
they are the same up to the order of their keys.

The order in which an object is written is that of the host: keys that are array indices come
first, by their number, the others as they were set, which here is their order as texts.

## Main definitions

* `JsValue.walk` — the value to be written, if all of it can be
* `JsValue.Distinct` — no object of a value has two fields with the same key

## Main results

* `JsValue.toJson_eq_of_same` — values that are the same are written alike
* `canonicalText_eq_iff` — two texts are the same iff the values are
-/

namespace AriOs.Js

/-! ### The order of keys -/

/-- The number of an array index, which is written as numbers are. -/
def arrayIndex? (s : String) : Option Nat :=
  let n := Nat.ofDigitChars 10 s.toList 0
  if toString n = s ∧ n < 2 ^ 32 - 1 then some n else none

/-- The order in which the fields of an object are written, if they were set in the order of
`sort`. -/
def keyLe (a b : String) : Bool :=
  match arrayIndex? a, arrayIndex? b with
  | some m, some n => m ≤ n
  | some _, none => true
  | none, some _ => false
  | none, none => textLe a b

theorem codeUnits_unique {c d : Char} {r r' : List Nat} (h : codeUnits c ++ r = codeUnits d ++ r') :
    c = d ∧ r = r' := by
  -- no character is a surrogate, so a pair is told from a single unit by its first half
  have hchar : ∀ c : Char, c.toNat < 0xD800 ∨ 0xDFFF < c.toNat ∧ c.toNat < 0x110000 :=
    fun c => c.valid
  have hc := hchar c
  have hd := hchar d
  have heq : c.toNat = d.toNat ∧ r = r' := by
    unfold codeUnits at h
    split at h <;> split at h <;> simp only [List.cons_append, List.nil_append, List.cons.injEq] at h
    · exact h
    · omega
    · omega
    · exact ⟨by omega, h.2.2⟩
  exact ⟨Char.toNat_inj.mp heq.1, heq.2⟩

theorem codeUnits_ne_nil (c : Char) : codeUnits c ≠ [] := by
  unfold codeUnits
  split <;> simp

/-- A text is known from its code units. -/
theorem utf16_injective : Function.Injective utf16 := by
  have hlist : ∀ l l' : List Char, l.flatMap codeUnits = l'.flatMap codeUnits → l = l' := by
    intro l
    induction l with
    | nil =>
      intro l' h
      cases l' with
      | nil => rfl
      | cons c l' => exact absurd (List.append_eq_nil_iff.mp h.symm).1 (codeUnits_ne_nil c)
    | cons c l ih =>
      intro l' h
      cases l' with
      | nil => exact absurd (List.append_eq_nil_iff.mp h).1 (codeUnits_ne_nil c)
      | cons d l' =>
        obtain ⟨rfl, htail⟩ := codeUnits_unique h
        rw [ih l' htail]
  intro s s' h
  exact String.toList_inj.mp (hlist _ _ h)

theorem arrayIndex?_eq_some {s : String} {n : Nat} (h : arrayIndex? s = some n) :
    toString n = s := by
  unfold arrayIndex? at h
  dsimp only at h
  split at h
  · rename_i hn
    obtain rfl := Option.some.inj h
    exact hn.1
  · cases h

theorem textLe_iff {a b : String} : textLe a b = true ↔ utf16 a ≤ utf16 b := by
  simp [textLe]

theorem keyLe_total (a b : String) : keyLe a b = true ∨ keyLe b a = true := by
  unfold keyLe
  cases ha : arrayIndex? a with
  | none =>
    cases hb : arrayIndex? b with
    | none => simpa only [textLe_iff] using le_total (utf16 a) (utf16 b)
    | some n => exact .inr rfl
  | some m =>
    cases hb : arrayIndex? b with
    | none => exact .inl rfl
    | some n => simpa only [decide_eq_true_eq] using Nat.le_total m n

theorem keyLe_trans {a b c : String} (hab : keyLe a b = true) (hbc : keyLe b c = true) :
    keyLe a c = true := by
  unfold keyLe at *
  cases ha : arrayIndex? a with
  | none =>
    cases hb : arrayIndex? b with
    | none =>
      cases hc : arrayIndex? c with
      | none =>
        simp only [ha, hb, hc, textLe_iff] at hab hbc ⊢
        exact hab.trans hbc
      | some k => simp [hb, hc] at hbc
    | some n => simp [ha, hb] at hab
  -- indices come before all other keys
  | some m =>
    cases hc : arrayIndex? c with
    | none => rfl
    | some k =>
      cases hb : arrayIndex? b with
      | none => simp [hb, hc] at hbc
      | some n =>
        simp only [ha, hb, hc, decide_eq_true_eq] at hab hbc ⊢
        exact hab.trans hbc

theorem keyLe_antisymm {a b : String} (hab : keyLe a b = true)
    (hba : keyLe b a = true) : a = b := by
  unfold keyLe at hab hba
  cases ha : arrayIndex? a with
  | none =>
    cases hb : arrayIndex? b with
    | none =>
      simp only [ha, hb, textLe_iff] at hab hba
      exact utf16_injective (le_antisymm hab hba)
    | some n => simp [ha, hb] at hab
  | some m =>
    cases hb : arrayIndex? b with
    | none => simp [ha, hb] at hba
    | some n =>
      simp only [ha, hb, decide_eq_true_eq] at hab hba
      obtain rfl := Nat.le_antisymm hab hba
      exact (arrayIndex?_eq_some ha).symm.trans (arrayIndex?_eq_some hb)

/-! ### The value that is written -/

namespace JsValue

mutual

/-- `walk`, whose sorted objects are then written; `none` where it throws. -/
def walk : JsValue → Option Json
  | .undefined | .bigint _ | .other => none
  | .null => some .null
  | .bool b => some (.bool b)
  | .number (.finite q) => some (.number q)
  | .number _ => none
  | .string s => some (.string s)
  | .array items => (walkItems items).map Json.array
  | .object fields =>
    (walkFields fields).map fun fs => .object (fs.insertionSort fun a b => keyLe a.1 b.1 = true)

def walkItems : List JsValue → Option (List Json)
  | [] => some []
  | v :: vs =>
    match v.walk, walkItems vs with
    | some x, some xs => some (x :: xs)
    | _, _ => none

def walkFields : List (String × JsValue) → Option (List (String × Json))
  | [] => some []
  | (k, v) :: fields =>
    match v.walk, walkFields fields with
    | some x, some fs => some ((k, x) :: fs)
    | _, _ => none

end

mutual

/-- No object has two fields with the same key. -/
def Distinct : JsValue → Prop
  | .array items => ItemsDistinct items
  | .object fields => (fields.map Prod.fst).Nodup ∧ FieldsDistinct fields
  | _ => True

def ItemsDistinct : List JsValue → Prop
  | [] => True
  | v :: vs => v.Distinct ∧ ItemsDistinct vs

def FieldsDistinct : List (String × JsValue) → Prop
  | [] => True
  | (_, v) :: fields => v.Distinct ∧ FieldsDistinct fields

end

mutual

/-- What can be written is written as JSON with its keys in order. -/
theorem walk_spec : ∀ {v : JsValue} {x : Json}, v.walk = some x → v.Distinct →
    v.toJson keyLe = some x ∧ v.IsJson
  | .null, _, h, _ => ⟨h, trivial⟩
  | .bool _, _, h, _ => ⟨h, trivial⟩
  | .string _, _, h, _ => ⟨h, trivial⟩
  | .number (.finite _), _, h, _ => ⟨h, trivial⟩
  | .number .nan, _, h, _ | .number (.infinity _), _, h, _ => by simp [walk] at h
  | .undefined, _, h, _ | .bigint _, _, h, _ | .other, _, h, _ => by simp [walk] at h
  | .array items, x, h, hd => by
    obtain ⟨xs, hxs, rfl⟩ := Option.map_eq_some_iff.mp h
    obtain ⟨heq, hjson⟩ := walkItems_spec hxs hd
    exact ⟨by rw [toJson, heq], hjson⟩
  | .object fields, x, h, hd => by
    obtain ⟨fs, hfs, rfl⟩ := Option.map_eq_some_iff.mp h
    obtain ⟨heq, hjson⟩ := walkFields_spec hfs hd.2
    exact ⟨by rw [toJson, heq], hd.1, hjson⟩

theorem walkItems_spec : ∀ {items : List JsValue} {xs : List Json}, walkItems items = some xs →
    ItemsDistinct items → itemsToJson keyLe items = xs ∧ ItemsJson items
  | [], _, h, _ => ⟨Option.some_inj.mp h, trivial⟩
  | v :: vs, xs, h, hd => by
    rw [walkItems] at h
    split at h
    · rename_i y ys hy hys
      obtain rfl := Option.some_inj.mp h
      obtain ⟨hhead, hjson⟩ := walk_spec hy hd.1
      obtain ⟨htail, hjsons⟩ := walkItems_spec hys hd.2
      exact ⟨by rw [itemsToJson, hhead, htail]; rfl, hjson, hjsons⟩
    · simp at h

theorem walkFields_spec : ∀ {fields : List (String × JsValue)} {fs : List (String × Json)},
    walkFields fields = some fs → FieldsDistinct fields →
      fieldsToJson keyLe fields = fs ∧ FieldsJson fields
  | [], _, h, _ => ⟨Option.some_inj.mp h, trivial⟩
  | (k, v) :: fields, fs, h, hd => by
    rw [walkFields] at h
    split at h
    · rename_i y ys hy hys
      obtain rfl := Option.some_inj.mp h
      obtain ⟨hhead, hjson⟩ := walk_spec hy hd.1
      obtain ⟨htail, hjsons⟩ := walkFields_spec hys hd.2
      exact ⟨by rw [fieldsToJson, hhead, htail], hjson, hjsons⟩
    · simp at h

end

/-! ### The same values -/

section Same

variable {le : String → String → Bool}

/-- Sorting by an order that tells all keys apart forgets the order there was. -/
theorem insertionSort_eq_of_perm {α : Type} {fs gs : List (String × α)} (hperm : fs.Perm gs)
    (htotal : ∀ a b, le a b = true ∨ le b a = true)
    (htrans : ∀ a b c, le a b = true → le b c = true → le a c = true)
    (hantisymm : ∀ a b, le a b = true → le b a = true → a = b)
    (hnodup : (fs.map Prod.fst).Nodup) :
    fs.insertionSort (fun a b => le a.1 b.1 = true) =
      gs.insertionSort fun a b => le a.1 b.1 = true := by
  have : Std.Total fun a b : String × α => le a.1 b.1 = true := ⟨fun a b => htotal a.1 b.1⟩
  have : IsTrans (String × α) fun a b => le a.1 b.1 = true := ⟨fun a b c => htrans a.1 b.1 c.1⟩
  refine List.Perm.eq_of_pairwise (fun a b ha hb hab hba => ?_)
    (List.pairwise_insertionSort _ fs) (List.pairwise_insertionSort _ gs)
    ((List.perm_insertionSort _ fs).trans (hperm.trans (List.perm_insertionSort _ gs).symm))
  exact List.inj_on_of_nodup_map hnodup ((List.mem_insertionSort _).mp ha)
    (hperm.symm.subset ((List.mem_insertionSort _).mp hb)) (hantisymm _ _ hab hba)

theorem toJson_items_eq {vs ws : List JsValue} (hsame : SameItems vs ws)
    (h : ∀ v ∈ vs, ∀ w ∈ ws, v.Same w → v.toJson le = w.toJson le) :
    itemsToJson le vs = itemsToJson le ws := by
  induction vs generalizing ws with
  | nil =>
    cases ws with
    | nil => rfl
    | cons w ws => exact hsame.elim
  | cons v vs ih =>
    cases ws with
    | nil => exact hsame.elim
    | cons w ws =>
      rw [itemsToJson, itemsToJson, h v List.mem_cons_self w List.mem_cons_self hsame.1,
        ih hsame.2 fun v' hv' w' hw' =>
          h v' (List.mem_cons_of_mem v hv') w' (List.mem_cons_of_mem w hw')]

theorem mem_of_lookup {fields : List (String × JsValue)} {k : String} {v : JsValue}
    (h : fields.lookup k = some v) : (k, v) ∈ fields := by
  induction fields with
  | nil => simp at h
  | cons kv fields ih =>
    rw [List.lookup_cons] at h
    split at h
    · rename_i hkey
      obtain rfl := Option.some_inj.mp h
      rw [beq_iff_eq.mp hkey]
      exact List.mem_cons_self
    · exact List.mem_cons_of_mem kv (ih h)

/-- Objects that are the same have the same fields, in some order. -/
theorem perm_of_sameFields {fs gs : List (String × JsValue)} (hlen : fs.length = gs.length)
    (hsame : SameFields fs gs) (hnodup : (fs.map Prod.fst).Nodup)
    (h : ∀ kv ∈ fs, ∀ lw ∈ gs, kv.2.Same lw.2 → kv.2.toJson le = lw.2.toJson le) :
    (fs.map fun kv => (kv.1, (kv.2.toJson le).getD .null)).Perm
      (gs.map fun kv => (kv.1, (kv.2.toJson le).getD .null)) := by
  refine (List.subperm_of_subset ?_ ?_).perm_of_length_le (by simp [hlen])
  · refine List.Nodup.of_map Prod.fst ?_
    rwa [List.map_map]
  · rintro _ hmem
    obtain ⟨kv, hkv, rfl⟩ := List.mem_map.mp hmem
    obtain ⟨w, hw, hvw⟩ := sameFields_iff.mp hsame kv hkv
    have hlw := mem_of_lookup hw
    exact List.mem_map.mpr ⟨(kv.1, w), hlw, by rw [h kv hkv _ hlw hvw]⟩

/-- Values that are the same are written alike. -/
theorem toJson_eq_of_same (htotal : ∀ a b, le a b = true ∨ le b a = true)
    (htrans : ∀ a b c, le a b = true → le b c = true → le a c = true)
    (hantisymm : ∀ a b, le a b = true → le b a = true → a = b) (v w : JsValue) (hv : v.IsJson)
    (hw : w.IsJson) (h : v.Same w) : v.toJson le = w.toJson le := by
  match v, w, hv, hw with
  | .null, .null, _, _ => rfl
  | .bool b, .bool b', _, _ => rw [show b = b' from h]
  | .number (.finite q), .number (.finite q'), _, _ =>
    rw [show JsNumber.finite q = JsNumber.finite q' from h]
  | .string s, .string s', _, _ => rw [show s = s' from h]
  | .array vs, .array ws, hv, hw =>
    have hvs := itemsJson_iff.mp hv
    have hws := itemsJson_iff.mp hw
    rw [toJson, toJson, toJson_items_eq h fun v hmem w hmem' =>
      toJson_eq_of_same htotal htrans hantisymm v w (hvs v hmem) (hws w hmem')]
  | .object fs, .object gs, hv, hw =>
    have hfs := fieldsJson_iff.mp hv.2
    have hgs := fieldsJson_iff.mp hw.2
    have hsame : ∀ kv ∈ fs, ∀ lw ∈ gs, kv.2.Same lw.2 → kv.2.toJson le = lw.2.toJson le :=
      fun kv hmem lw hmem' =>
        toJson_eq_of_same htotal htrans hantisymm kv.2 lw.2 (hfs kv hmem) (hgs lw hmem')
    -- the fields of one are those of the other in some order, and are sorted alike
    have hperm := perm_of_sameFields h.1 h.2 hv.1 hsame
    rw [toJson, toJson, fieldsToJson_eq hfs, fieldsToJson_eq hgs,
      insertionSort_eq_of_perm hperm htotal htrans hantisymm (by rw [List.map_map]; exact hv.1)]
termination_by sizeOf v
decreasing_by
  · have := List.sizeOf_lt_of_mem hmem
    simp only [array.sizeOf_spec]
    omega
  · have := List.sizeOf_lt_of_mem hmem
    have hpair : sizeOf kv = 1 + sizeOf kv.1 + sizeOf kv.2 := by cases kv; rfl
    simp only [object.sizeOf_spec]
    omega

end Same

end JsValue

/-! ### The text -/

/-- The text of a value, up to `limit` bytes. -/
def canonicalText (limit : Nat) (j : Stringify) (v : JsValue) : Except String String := do
  let x ← orThrow v.walk "Payload is not JSON serializable"
  throwIf (limit < (x.text j).utf8ByteSize) "Payload too large"
  return x.text j

theorem canonicalText_eq_ok {limit : Nat} {j : Stringify} {v : JsValue} {text : String}
    (h : canonicalText limit j v = .ok text) : ∃ x, v.walk = some x ∧ x.text j = text := by
  simp only [canonicalText, bind_eq_ok, orThrow_eq_ok] at h
  obtain ⟨x, hx, -, -, htext⟩ := h
  exact ⟨x, hx, Except.ok.inj htext⟩

/-- Two texts are the same iff the values are, up to the order of keys. -/
theorem canonicalText_eq_iff {limit : Nat} {j : Stringify} (hj : j.Lawful) {v w : JsValue}
    {text text' : String} (hv : v.Distinct) (hw : w.Distinct)
    (htext : canonicalText limit j v = .ok text) (htext' : canonicalText limit j w = .ok text') :
    text = text' ↔ v.Same w := by
  obtain ⟨x, hx, rfl⟩ := canonicalText_eq_ok htext
  obtain ⟨y, hy, rfl⟩ := canonicalText_eq_ok htext'
  obtain ⟨hxjson, hvjson⟩ := JsValue.walk_spec hx hv
  obtain ⟨hyjson, hwjson⟩ := JsValue.walk_spec hy hw
  rw [(Json.text_injective hj).eq_iff]
  constructor
  · rintro rfl
    exact JsValue.same_of_toJson_eq v w hvjson hwjson (hxjson.trans hyjson.symm)
  · intro hsame
    have heq := JsValue.toJson_eq_of_same keyLe_total (fun _ _ _ => keyLe_trans)
      (fun _ _ => keyLe_antisymm) v w hvjson hwjson hsame
    exact Option.some_inj.mp (hxjson.symm.trans (heq.trans hyjson))

end AriOs.Js
