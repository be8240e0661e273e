import AriOs.Js.Canonical
import AriOs.Storage.FiniteMap

/-!
# Objects by reference

A program holds objects and arrays by reference: two fields may hold one object, and an object may
hold itself. What the references stand for is kept in a heap, and changes while others hold them.

## Main results

* `Heap.Agree.set` — they still do, when they are changed alike
-/

namespace AriOs.Js

open AriOs.Storage

/-- A value as it is held: objects and arrays by reference. A function or a symbol is held with its
text. -/
inductive Held where
  | undefined
  | null
  | bool (b : Bool)
  | number (n : JsNumber)
  | bigint (i : Int)
  | string (s : String)
  | function (text : String)
  | ref (id : Nat)
  deriving DecidableEq

/-- The fields of an object, as `Object.entries` lists them. -/
abbrev Entries := List (String × Held)

/-- What a reference stands for. -/
inductive Stored where
  | array (items : List Held)
  | object (entries : Entries)

abbrev Heap := FiniteMap Nat Stored

/-- `o[key] = v` on a plain object. A key that is there keeps its place; indices come first, in
their order. The one key that sets the prototype makes no field. -/
def setEntry (entries : Entries) (key : String) (v : Held) : Entries :=
  if key = "__proto__" then entries
  else if entries.any fun e => e.1 = key then
    entries.map fun e => if e.1 = key then (key, v) else e
  else match arrayIndex? key with
    | some n =>
      let isBefore := fun e : String × Held => (arrayIndex? e.1).any fun m => m < n
      entries.takeWhile isBefore ++ (key, v) :: entries.dropWhile isBefore
    | none => entries ++ [(key, v)]

example : (setEntry (setEntry (setEntry [] "b" .null) "7" .null) "b" (.bool true)) =
    [("7", .null), ("b", .bool true)] := by decide +kernel

/-! ### Two heaps -/

section Agree

variable (P : String → Prop)

/-- Two fields have one key, and one value unless `P` says of the key that it does not matter. -/
def SameEntry (e e' : String × Held) : Prop := e.1 = e'.1 ∧ (¬ P e.1 → e.2 = e'.2)

/-- Two objects differ in fields alone whose keys do not matter. -/
def SameEntries (es es' : Entries) : Prop := List.Forall₂ (SameEntry P) es es'

inductive Stored.Agree : Stored → Stored → Prop
  | array (items : List Held) : Agree (.array items) (.array items)
  | object {es es' : Entries} (h : SameEntries P es es') : Agree (.object es) (.object es')

/-- Two heaps differ in fields alone whose keys do not matter. -/
def Heap.Agree (h h' : Heap) : Prop := ∀ id, Option.Rel (Stored.Agree P) (h.get id) (h'.get id)

variable {P} {h h' : Heap} {s s' : Stored} {es es' : Entries} {key : String} {v v' : Held} {id : Nat}

theorem SameEntry.mk (hv : ¬ P key → v = v') : SameEntry P (key, v) (key, v') := ⟨rfl, hv⟩

theorem SameEntries.refl (es : Entries) : SameEntries P es es :=
  List.forall₂_same.mpr fun _ _ => .mk fun _ => rfl

theorem Stored.Agree.refl (s : Stored) : s.Agree P s := by
  cases s with
  | array items => exact .array items
  | object es => exact .object (.refl es)

theorem Heap.agree_refl (h : Heap) : h.Agree P h := by
  intro id
  cases h.get id with
  | none => exact .none
  | some s => exact .some (.refl s)

theorem Heap.Agree.set (hagree : h.Agree P h') (hs : s.Agree P s') :
    Heap.Agree P (FiniteMap.set h id s) (FiniteMap.set h' id s') := by
  intro j
  rw [FiniteMap.get_set, FiniteMap.get_set]
  split_ifs
  · exact .some hs
  · exact hagree j

/-- Fields that agree have the same keys. -/
theorem SameEntries.keys_eq (h : SameEntries P es es') : es.map Prod.fst = es'.map Prod.fst := by
  induction h with
  | nil => rfl
  | cons he _ ih => rw [List.map_cons, List.map_cons, he.1, ih]

theorem SameEntries.any_eq (h : SameEntries P es es') (p : String → Bool) :
    (es.any fun e => p e.1) = es'.any fun e => p e.1 := by
  have hkeys := congrArg (List.any · p) h.keys_eq
  simpa only [List.any_map, Function.comp_def] using hkeys

theorem SameEntries.takeWhile (h : SameEntries P es es') (p : String → Bool) :
    SameEntries P (es.takeWhile fun e => p e.1) (es'.takeWhile fun e => p e.1) := by
  induction h with
  | nil => exact .nil
  | cons he _ ih =>
    rw [List.takeWhile_cons, List.takeWhile_cons, ← he.1]
    split_ifs
    · exact .cons he ih
    · exact .nil

theorem SameEntries.dropWhile (h : SameEntries P es es') (p : String → Bool) :
    SameEntries P (es.dropWhile fun e => p e.1) (es'.dropWhile fun e => p e.1) := by
  induction h with
  | nil => exact .nil
  | cons he htail ih =>
    rw [List.dropWhile_cons, List.dropWhile_cons, ← he.1]
    split_ifs
    · exact ih
    · exact .cons he htail

theorem SameEntries.setEntry (h : SameEntries P es es') (hv : ¬ P key → v = v') :
    SameEntries P (setEntry es key v) (setEntry es' key v') := by
  unfold Js.setEntry
  rw [h.any_eq fun k => k = key]
  split_ifs
  · exact h
  · refine List.forall₂_map_left_iff.mpr (List.forall₂_map_right_iff.mpr (h.imp ?_))
    rintro ⟨k, x⟩ ⟨k', x'⟩ ⟨rfl, hx⟩
    split_ifs
    · exact .mk hv
    · exact ⟨rfl, hx⟩
  · cases arrayIndex? key with
    | some n =>
      exact List.rel_append (h.takeWhile fun k => (arrayIndex? k).any fun m => m < n)
        (.cons (.mk hv) (h.dropWhile fun k => (arrayIndex? k).any fun m => m < n))
    | none => exact List.rel_append h (.cons (.mk hv) .nil)

end Agree

end AriOs.Js
