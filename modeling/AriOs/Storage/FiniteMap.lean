import AriOs.Storage.Table
import Mathlib.Algebra.BigOperators.Group.Finset.Basic
import Mathlib.Algebra.Ring.Int.Defs

/-!
# Finite maps, and the tables that are such maps

A table with a primary key is a finite map from keys to rows: the order of the rows is all that
the map forgets. What a component does can then be said of the map, and what its statements do
of the table.

## Main definitions

* `FiniteMap.keep`, `FiniteMap.map`, `FiniteMap.set`, `FiniteMap.erase`, `FiniteMap.total` — what is
  done with one
* `FiniteMap.ListedBy` — a list that has every key of the map once, with its value
* `Table.toMap` — a table as a map

## Main results

* `Table.toMap_delete`, `Table.toMap_insert?` — statements, on the map
* `Table.total_toMap` — sums over the rows, on the map
-/

namespace AriOs.Storage

variable {κ ν μ ρ : Type}

/-- A map with finitely many keys. -/
@[ext (iff := false)]
structure FiniteMap (κ ν : Type) where
  get : κ → Option ν
  keys : Finset κ
  mem_keys : ∀ k, k ∈ keys ↔ (get k).isSome = true

namespace FiniteMap

/-- Maps with the same values are the same. -/
theorem ext_get {m m' : FiniteMap κ ν} (h : ∀ k, m.get k = m'.get k) : m = m' := by
  apply FiniteMap.ext
  · exact funext h
  · ext k
    rw [m.mem_keys, m'.mem_keys, h k]

/-- The map that has no value. -/
def empty : FiniteMap κ ν := ⟨fun _ => none, ∅, by simp⟩

/-- Keep the values that satisfy `p`. -/
def keep (m : FiniteMap κ ν) (p : ν → Bool) : FiniteMap κ ν where
  get k := (m.get k).filter p
  keys := m.keys.filter fun k => (m.get k).any p
  mem_keys k := by
    rw [Finset.mem_filter, m.mem_keys]
    cases m.get k with
    | none => simp
    | some v => by_cases h : p v <;> simp [Option.filter, h]

/-- Replace every value. -/
def map (m : FiniteMap κ ν) (f : ν → μ) : FiniteMap κ μ where
  get k := (m.get k).map f
  keys := m.keys
  mem_keys k := by rw [m.mem_keys, Option.isSome_map]

/-- Give a key a value. -/
def set [DecidableEq κ] (m : FiniteMap κ ν) (k : κ) (v : ν) : FiniteMap κ ν where
  get j := if j = k then some v else m.get j
  keys := insert k m.keys
  mem_keys j := by
    rw [Finset.mem_insert, m.mem_keys]
    by_cases h : j = k <;> simp [h]

/-- Take a key out. -/
def erase [DecidableEq κ] (m : FiniteMap κ ν) (k : κ) : FiniteMap κ ν where
  get j := if j = k then none else m.get j
  keys := m.keys.erase k
  mem_keys j := by
    rw [Finset.mem_erase, m.mem_keys]
    by_cases h : j = k <;> simp [h]

/-- The sum of an amount over all values. -/
def total (m : FiniteMap κ ν) (amount : ν → Int) : Int :=
  ∑ k ∈ m.keys, ((m.get k).map amount).getD 0

/-- A list that has every key of the map once, with its value. -/
def ListedBy (m : FiniteMap κ ν) (l : List (κ × ν)) : Prop :=
  (l.map Prod.fst).Nodup ∧ ∀ k v, m.get k = some v ↔ (k, v) ∈ l

variable {m : FiniteMap κ ν} {k j : κ} {v : ν} {p : ν → Bool} {f : ν → μ}

@[simp] theorem get_empty : (empty : FiniteMap κ ν).get k = none := rfl

@[simp] theorem get_keep : (m.keep p).get k = (m.get k).filter p := rfl

@[simp] theorem get_map : (m.map f).get k = (m.get k).map f := rfl

@[simp] theorem get_set [DecidableEq κ] :
    (m.set k v).get j = if j = k then some v else m.get j := rfl

@[simp] theorem get_erase [DecidableEq κ] :
    (m.erase k).get j = if j = k then none else m.get j := rfl

/-- The list of the replaced values lists the map of them. -/
theorem ListedBy.map {l : List (κ × ν)} (h : m.ListedBy l) (f : ν → μ) :
    (m.map f).ListedBy (l.map fun x => (x.1, f x.2)) := by
  refine ⟨by simpa [List.map_map, Function.comp_def] using h.1, fun k w => ?_⟩
  rw [get_map, Option.map_eq_some_iff, List.mem_map]
  constructor
  · rintro ⟨v, hv, rfl⟩
    exact ⟨(k, v), (h.2 k v).mp hv, rfl⟩
  · rintro ⟨⟨k', v⟩, hmem, heq⟩
    obtain ⟨rfl, rfl⟩ := Prod.mk.inj heq
    exact ⟨v, (h.2 _ v).mpr hmem, rfl⟩

theorem total_map (g : μ → Int) : (m.map f).total g = m.total fun v => g (f v) := by
  unfold total
  refine Finset.sum_congr rfl fun k _ => ?_
  rw [get_map, Option.map_map]
  rfl

theorem map_set [DecidableEq κ] : (m.set k v).map f = (m.map f).set k (f v) := by
  apply ext_get
  intro j
  by_cases h : j = k <;> simp [h]

/-- Values that are kept by what they are replaced by. -/
theorem map_keep {q : μ → Bool} : (m.keep fun v => q (f v)).map f = (m.map f).keep q := by
  apply ext_get
  intro j
  cases h : m.get j with
  | none => simp [h]
  | some v => by_cases hq : q (f v) <;> simp [h, Option.filter, hq]

end FiniteMap

namespace Table

variable [DecidableEq κ] {key : ρ → κ} {t t' : Table key}

/-- A table as a map from keys to rows. -/
def toMap (t : Table key) : FiniteMap κ ρ where
  get := t.find?
  keys := (t.rows.map key).toFinset
  mem_keys k := by
    rw [List.mem_toFinset, List.mem_map, Option.isSome_iff_exists]
    constructor
    · rintro ⟨r, hr, rfl⟩
      exact ⟨r, find?_eq_some_iff.mpr ⟨hr, rfl⟩⟩
    · rintro ⟨r, hr⟩
      exact ⟨r, find?_eq_some_iff.mp hr⟩

@[simp] theorem get_toMap {k : κ} : t.toMap.get k = t.find? k := rfl

theorem toMap_delete (p : ρ → Bool) : (t.delete p).toMap = t.toMap.keep fun r => !p r :=
  FiniteMap.ext_get fun _ => find?_delete

theorem toMap_insert? {r : ρ} (h : t.insert? r = some t') : t'.toMap = t.toMap.set (key r) r := by
  apply FiniteMap.ext_get
  intro k
  rw [get_toMap, find?_insert? h, FiniteMap.get_set, get_toMap]
  by_cases hk : key r = k
  · rw [if_pos hk, if_pos hk.symm]
  · rw [if_neg hk, if_neg fun h => hk h.symm]

/-- What holds of every row holds of every value. -/
theorem forall_rows {P : ρ → Prop} : (∀ r ∈ t.rows, P r) ↔ ∀ k r, t.toMap.get k = some r → P r := by
  constructor
  · intro h k r hr
    exact h r (find?_eq_some_iff.mp hr).1
  · intro h r hr
    exact h (key r) r (mem_rows_iff.mp hr)

theorem total_toMap (amount : ρ → Int) : t.toMap.total amount = (t.rows.map amount).sum := by
  have hsum : ∀ r ∈ t.rows, ((t.find? (key r)).map amount).getD 0 = amount r := by
    intro r hr
    rw [mem_rows_iff.mp hr]
    rfl
  rw [FiniteMap.total, toMap, List.sum_toFinset _ t.nodup, List.map_map]
  exact congrArg List.sum (List.map_congr_left hsum)

/-- The rows list the map. -/
theorem listedBy_rows : t.toMap.ListedBy (t.rows.map fun r => (key r, r)) := by
  refine ⟨by simpa [List.map_map, Function.comp_def] using t.nodup, fun k r => ?_⟩
  rw [get_toMap, find?_eq_some_iff, List.mem_map]
  constructor
  · rintro ⟨hr, rfl⟩
    exact ⟨r, hr, rfl⟩
  · rintro ⟨r', hr', heq⟩
    obtain ⟨rfl, rfl⟩ := Prod.mk.inj heq
    exact ⟨hr', rfl⟩

end Table

end AriOs.Storage
