import AriOs.Storage.Table

/-!
# Records

An object whose keys keep the order they were set in. Setting a key that is there changes its
value in place, so a spread of one record over another keeps the order of the first.

## Main definitions

* `Record.spread` — `{ ...o, ...p }`
* `Record.filterMap` — a record with other values under the same keys

## Main results

* `Record.get_set` — what a key was last set to
-/

namespace AriOs.Js

open AriOs.Storage

/-- An object, with its keys in the order they were set in. -/
abbrev Record (κ ν : Type) := Table (Prod.fst : κ × ν → κ)

namespace Record

variable {κ ν : Type} [DecidableEq κ]

/-- `o[k]`, if the key is there. -/
def get (o : Record κ ν) (k : κ) : Option ν := (o.find? k).map Prod.snd

/-- `o[k] = v`. -/
def set (o : Record κ ν) (k : κ) (v : ν) : Record κ ν :=
  match o.insert? (k, v) with
  | some o' => o'
  | none => o.update (fun kv => kv.1 = k) (fun kv => (kv.1, v)) fun _ => rfl

/-- `{ ...o, ...p }`. -/
def spread (o p : Record κ ν) : Record κ ν := p.rows.foldl (fun o kv => o.set kv.1 kv.2) o

/-- The same keys, with other values; keys whose value has none are left out. -/
def filterMap {μ : Type} (o : Record κ ν) (f : ν → Option μ) : Record κ μ :=
  Table.filterMap o (fun kv => (f kv.2).map (Prod.mk kv.1)) fun kv kv' h => by
    obtain ⟨v, -, rfl⟩ := Option.map_eq_some_iff.mp h
    rfl

variable {o p : Record κ ν} {k j : κ} {v : ν}

theorem get_filterMap {μ : Type} {f : ν → Option μ} :
    (o.filterMap f).get k = (o.get k).bind f := by
  rw [get, filterMap, Table.find?_filterMap, get]
  cases o.find? k with
  | none => rfl
  | some kv => cases h : f kv.2 <;> simp [h]

theorem get_eq_some_iff : o.get k = some v ↔ (k, v) ∈ o.rows := by
  rw [get, Option.map_eq_some_iff]
  constructor
  · rintro ⟨⟨k', v'⟩, hfind, rfl⟩
    obtain ⟨hmem, rfl⟩ := Table.find?_eq_some_iff.mp hfind
    exact hmem
  · intro hmem
    exact ⟨(k, v), Table.find?_eq_some_iff.mpr ⟨hmem, rfl⟩, rfl⟩

theorem get_set : (o.set k v).get j = if j = k then some v else o.get j := by
  unfold set
  split
  · rename_i o' hins
    rw [get, Table.find?_insert? hins, get]
    by_cases h : j = k
    · simp [h]
    · rw [if_neg fun h' => h h'.symm, if_neg h]
  · rename_i hnone
    rw [get, Table.find?_update, get]
    cases hj : o.find? j with
    | none =>
      -- a key that could not be inserted is there
      have htaken := Table.insert?_eq_none_iff.mp hnone
      have hne : j ≠ k := by
        rintro rfl
        rw [hj] at htaken
        cases htaken
      rw [if_neg hne]
      rfl
    | some kv =>
      have hkey := (Table.find?_eq_some_iff.mp hj).2
      by_cases h : j = k
      · simp [h, hkey]
      · simp [h, hkey]

end Record

end AriOs.Js
