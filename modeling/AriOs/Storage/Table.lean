import Mathlib.Data.List.Count
import Mathlib.Data.List.Nodup
import Mathlib.Data.List.Perm.Lattice

/-!
# Tables with a primary key

A table is the list of its rows in insertion order, no two of them with the same key.
The key is a function of the row, so the statements that change rows in place must say
that they leave it alone; every operation below then returns a table again, and nothing
about duplicates has to be proved afterwards.

## Main definitions

* `Table.find?` — the row with a key
* `Table.insert?` — `INSERT`, refused when the key is taken
* `Table.update` — `UPDATE ... WHERE`
* `Table.replace` — `INSERT OR REPLACE`
* `Table.delete` — `DELETE ... WHERE`

## Main results

* `Table.find?_eq_some_iff` — lookups and membership say the same
* `Table.find?_insert?`, `Table.find?_update`, `Table.find?_delete` — lookups after a statement
* `Table.count_eq_one`, `Table.count_update_lt` — how many rows a `WHERE` clause selects
-/

namespace AriOs.Storage

/-- Rows in insertion order, no two with the same key. -/
structure Table {κ ρ : Type} (key : ρ → κ) where
  rows : List ρ
  nodup : (rows.map key).Nodup

namespace Table

variable {κ ρ : Type} {key : ρ → κ}

/-- No rows. -/
def empty : Table key := ⟨[], by simp⟩

/-- `UPDATE ... SET f WHERE p`, for an `f` that leaves the key alone. -/
def update (t : Table key) (p : ρ → Bool) (f : ρ → ρ) (hf : ∀ r, key (f r) = key r) :
    Table key where
  rows := t.rows.map fun r => if p r then f r else r
  nodup := by
    have hkey : (key ∘ fun r => if p r then f r else r) = key := by
      funext r
      by_cases h : p r <;> simp [h, hf]
    rw [List.map_map, hkey]
    exact t.nodup

/-- `DELETE ... WHERE p`. -/
def delete (t : Table key) (p : ρ → Bool) : Table key where
  rows := t.rows.filter fun r => !p r
  nodup := t.nodup.sublist (List.filter_sublist.map key)

/-- Another table of some of the rows, made from each of them under its own key. -/
def filterMap {ρ' : Type} {key' : ρ' → κ} (t : Table key) (f : ρ → Option ρ')
    (hf : ∀ r r', f r = some r' → key' r' = key r) : Table key' where
  rows := t.rows.filterMap f
  nodup := by
    have hsub : ∀ l : List ρ, ((l.filterMap f).map key').Sublist (l.map key) := by
      intro l
      induction l with
      | nil => exact .slnil
      | cons r l ih =>
        cases h : f r with
        | none => simpa [h] using ih.cons (key r)
        | some r' => simpa [h, hf r r' h] using ih.cons_cons (key r)
    exact t.nodup.sublist (hsub t.rows)

/-- How many rows a `WHERE` clause selects. -/
def count (t : Table key) (p : ρ → Bool) : Nat := t.rows.countP p

/-- A key belongs to one row only. -/
theorem eq_of_key {t : Table key} {r r' : ρ} (h : r ∈ t.rows) (h' : r' ∈ t.rows)
    (hkey : key r = key r') : r = r' :=
  List.inj_on_of_nodup_map t.nodup h h' hkey

section Lookup

variable [DecidableEq κ]

/-- The row with key `k`. -/
def find? (t : Table key) (k : κ) : Option ρ := t.rows.find? fun r => key r = k

/-- `INSERT`, refused when the key is taken. -/
def insert? (t : Table key) (r : ρ) : Option (Table key) :=
  if h : key r ∈ t.rows.map key then none
  else some ⟨t.rows ++ [r], by
    rw [List.map_append, List.nodup_append]
    exact ⟨t.nodup, by simp, by
      intro a ha b hb
      simp only [List.map_cons, List.map_nil, List.mem_singleton] at hb
      rintro rfl
      exact h (hb ▸ ha)⟩⟩

/-- `INSERT OR REPLACE`: a row with the key is taken out, and the new one comes last. -/
def replace (t : Table key) (r : ρ) : Table key :=
  ⟨(t.delete fun r' => key r' = key r).rows ++ [r], by
    rw [List.map_append, List.nodup_append]
    refine ⟨(t.delete _).nodup, by simp, ?_⟩
    intro a ha b hb
    simp only [List.map_cons, List.map_nil, List.mem_singleton] at hb
    obtain ⟨r', hr', rfl⟩ := List.mem_map.mp ha
    rintro rfl
    have hne := (List.mem_filter.mp hr').2
    simp [hb] at hne⟩

variable {t t' : Table key} {r r' : ρ} {k : κ}

theorem find?_eq_some_iff : t.find? k = some r ↔ r ∈ t.rows ∧ key r = k := by
  constructor
  · intro h
    exact ⟨List.mem_of_find?_eq_some h, by simpa using List.find?_some h⟩
  · rintro ⟨hmem, rfl⟩
    cases hfind : t.find? (key r) with
    | none =>
      have := List.find?_eq_none.mp hfind r hmem
      simp at this
    | some r' =>
      have hr' := List.mem_of_find?_eq_some hfind
      have hkey : key r' = key r := by simpa using List.find?_some hfind
      exact congrArg some (eq_of_key hr' hmem hkey)

theorem find?_eq_none_iff : t.find? k = none ↔ ∀ r ∈ t.rows, key r ≠ k := by
  simp [find?]

theorem mem_rows_iff : r ∈ t.rows ↔ t.find? (key r) = some r := by
  simp [find?_eq_some_iff]

@[simp] theorem find?_empty : (empty : Table key).find? k = none := rfl

theorem isSome_find?_iff : (t.find? k).isSome ↔ k ∈ t.rows.map key := by
  rw [Option.isSome_iff_ne_none, ne_eq, find?_eq_none_iff]
  simp

theorem insert?_eq_none_iff : t.insert? r = none ↔ (t.find? (key r)).isSome := by
  rw [Option.isSome_iff_ne_none, ne_eq, find?_eq_none_iff, insert?]
  split <;> rename_i h <;> simpa using h

theorem rows_of_insert? (h : t.insert? r = some t') : t'.rows = t.rows ++ [r] := by
  unfold insert? at h
  split at h
  · simp at h
  · exact (congrArg Table.rows (Option.some_inj.mp h)).symm

/-- A row that could be inserted found its key free. -/
theorem find?_of_insert? (h : t.insert? r = some t') : t.find? (key r) = none := by
  cases hf : t.find? (key r) with
  | none => rfl
  | some r' =>
    have hnone := insert?_eq_none_iff.mpr (by rw [hf]; rfl)
    rw [hnone] at h
    simp at h

/-- A row that could be inserted shares its key with no row that was there. -/
theorem key_ne_of_insert? (h : t.insert? r = some t') (hr : t.find? (key r') = some r') :
    key r ≠ key r' := by
  intro heq
  rw [← heq, find?_of_insert? h] at hr
  simp at hr

theorem find?_insert? (h : t.insert? r = some t') :
    t'.find? k = if key r = k then some r else t.find? k := by
  have hrows := rows_of_insert? h
  split
  · rename_i hk
    rw [find?_eq_some_iff, hrows]
    exact ⟨by simp, hk⟩
  · rename_i hk
    simp [find?, hrows, List.find?_append, hk]

/-- A row already there stays, whatever is inserted. -/
theorem find?_insert?_of_some (h : t.insert? r = some t') (hk : t.find? k = some r') :
    t'.find? k = some r' := by
  rw [find?_insert? h, if_neg]
  · exact hk
  · rintro rfl
    rw [find?_of_insert? h] at hk
    simp at hk

theorem find?_update {p : ρ → Bool} {f : ρ → ρ} {hf : ∀ r, key (f r) = key r} :
    (t.update p f hf).find? k = (t.find? k).map fun r => if p r then f r else r := by
  have hkey : ∀ r, key (if p r then f r else r) = key r := by
    intro r
    by_cases h : p r <;> simp [h, hf]
  simp only [find?, update, List.find?_map]
  congr 2
  funext r
  simp [hkey]

theorem find?_delete {p : ρ → Bool} :
    (t.delete p).find? k = (t.find? k).filter fun r => !p r := by
  cases hf : t.find? k with
  | none =>
    rw [find?_eq_none_iff] at hf
    rw [Option.filter_none, find?_eq_none_iff]
    exact fun r hr => hf r (List.mem_filter.mp hr).1
  | some r =>
    obtain ⟨hmem, hk⟩ := find?_eq_some_iff.mp hf
    by_cases hp : p r
    · rw [Option.filter_some_neg (by simp [hp]), find?_eq_none_iff]
      intro r' hr' hk'
      obtain ⟨hr', hp'⟩ := List.mem_filter.mp hr'
      obtain rfl := eq_of_key hr' hmem (hk'.trans hk.symm)
      simp [hp] at hp'
    · rw [Option.filter_some_pos (by simp [hp]), find?_eq_some_iff]
      exact ⟨List.mem_filter.mpr ⟨hmem, by simp [hp]⟩, hk⟩

theorem find?_replace : (t.replace r).find? k = if key r = k then some r else t.find? k := by
  split
  · rename_i hk
    rw [find?_eq_some_iff]
    exact ⟨List.mem_append_right _ (List.mem_singleton.mpr rfl), hk⟩
  · rename_i hk
    have hdelete : (t.delete fun r' => key r' = key r).find? k = t.find? k := by
      rw [find?_delete]
      cases hf : t.find? k with
      | none => rfl
      | some r' =>
        rw [Option.filter_some_pos]
        have hk' := (find?_eq_some_iff.mp hf).2
        simpa [hk'] using Ne.symm hk
    rw [← hdelete]
    simp [find?, replace, List.find?_append, hk]

theorem find?_filterMap {ρ' : Type} {key' : ρ' → κ} {f : ρ → Option ρ'}
    {hf : ∀ r r', f r = some r' → key' r' = key r} :
    (t.filterMap f hf).find? k = (t.find? k).bind f := by
  cases hfind : (t.filterMap f hf).find? k with
  | some r' =>
    obtain ⟨hmem, rfl⟩ := find?_eq_some_iff.mp hfind
    obtain ⟨r, hr, hfr⟩ := List.mem_filterMap.mp hmem
    have hrow : t.find? (key' r') = some r := find?_eq_some_iff.mpr ⟨hr, (hf r r' hfr).symm⟩
    rw [hrow, Option.bind_some, hfr]
  | none =>
    cases hrow : t.find? k with
    | none => rfl
    | some r =>
      obtain ⟨hr, rfl⟩ := find?_eq_some_iff.mp hrow
      rw [Option.bind_some]
      by_contra hsome
      obtain ⟨r', hr'⟩ := Option.ne_none_iff_exists'.mp (Ne.symm hsome)
      exact find?_eq_none_iff.mp hfind r' (List.mem_filterMap.mpr ⟨r, hr, hr'⟩) (hf r r' hr')

/-- Rows deleted one by one, by their keys. -/
theorem rows_foldl_delete (gone : List ρ) (t : Table key) :
    (gone.foldl (fun t p => t.delete fun r => key r = key p) t).rows =
      t.rows.filter fun r => key r ∉ gone.map key := by
  induction gone generalizing t with
  | nil => simp
  | cons p gone ih =>
    rw [List.foldl_cons, ih, delete, List.filter_filter]
    congr 1
    funext r
    simp only [List.map_cons, List.mem_cons, not_or, Bool.decide_and, decide_not]
    exact Bool.and_comm _ _

/-- Deleted by the keys of the rows that pass a test, these rows are gone. -/
theorem rows_foldl_delete_filter {gone : List ρ} {p : ρ → Bool}
    (h : gone.map key = (t.rows.filter p).map key) :
    (gone.foldl (fun t p => t.delete fun r => key r = key p) t).rows =
      t.rows.filter fun r => !p r := by
  rw [rows_foldl_delete, h]
  refine List.filter_congr fun r hr => ?_
  have hkey : key r ∈ (t.rows.filter p).map key ↔ p r = true := by
    rw [List.mem_map]
    constructor
    · rintro ⟨r', hr', heq⟩
      obtain ⟨hr', hp⟩ := List.mem_filter.mp hr'
      obtain rfl := eq_of_key hr' hr heq
      exact hp
    · exact fun hp => ⟨r, List.mem_filter.mpr ⟨hr, hp⟩, rfl⟩
  simp [hkey]

end Lookup

@[simp] theorem rows_empty : (empty : Table key).rows = [] := rfl

@[simp] theorem rows_update {t : Table key} {p : ρ → Bool} {f : ρ → ρ}
    {hf : ∀ r, key (f r) = key r} :
    (t.update p f hf).rows = t.rows.map fun r => if p r then f r else r := rfl

@[simp] theorem rows_delete {t : Table key} {p : ρ → Bool} :
    (t.delete p).rows = t.rows.filter fun r => !p r := rfl

/-- An update that selects no row changes nothing. -/
theorem update_eq_self {t : Table key} {p : ρ → Bool} {f : ρ → ρ} (hf : ∀ r, key (f r) = key r)
    (h : ∀ r ∈ t.rows, p r = false) : t.update p f hf = t := by
  have hrows : (t.rows.map fun r => if p r then f r else r) = t.rows :=
    (List.map_congr_left fun r hr => if_neg (by simp [h r hr])).trans (List.map_id'' (fun _ => rfl) _)
  cases t
  simp only [update, hrows]

/-! ### Counting rows -/

section Count

variable {t : Table key} {p d : ρ → Bool} {r : ρ}

/-- A `WHERE` clause that only one row meets selects that row once. -/
theorem filter_eq_singleton (hr : r ∈ t.rows) (hp : p r = true)
    (honly : ∀ r' ∈ t.rows, p r' = true → r' = r) : t.rows.filter p = [r] := by
  rw [← List.perm_singleton]
  apply (List.perm_ext_iff_of_nodup (t.nodup.of_map.filter p) (List.nodup_singleton r)).mpr
  intro r'
  rw [List.mem_filter, List.mem_singleton]
  constructor
  · rintro ⟨hr', hp'⟩
    exact honly r' hr' hp'
  · rintro rfl
    exact ⟨hr, hp⟩

theorem count_eq_one (hr : r ∈ t.rows) (hp : p r = true)
    (honly : ∀ r' ∈ t.rows, p r' = true → r' = r) : t.count p = 1 := by
  rw [count, List.countP_eq_length_filter, filter_eq_singleton hr hp honly]
  rfl

/-- An `UPDATE` that takes a row out of a `WHERE` clause, and puts none in. -/
theorem count_update_lt {f : ρ → ρ} (hf : ∀ r, key (f r) = key r) (hr : r ∈ t.rows)
    (hd : d r = true) (hp : p r = true) (hout : p (f r) = false)
    (hkeep : ∀ r' ∈ t.rows, d r' = true → p (f r') = true → p r' = true) :
    (t.update d f hf).count p < t.count p := by
  have hle : ∀ r' ∈ t.rows, p (if d r' then f r' else r') = true → p r' = true := by
    intro r' hr' hp'
    by_cases hd' : d r' = true
    · exact hkeep r' hr' hd' (by simpa [hd'] using hp')
    · simpa [hd'] using hp'
  -- counted among the rows that met the clause before, at least one is missing
  have hsame : (t.update d f hf).count p =
      (t.rows.filter p).countP (p ∘ fun r' => if d r' then f r' else r') := by
    rw [count, rows_update, List.countP_map, List.countP_filter]
    apply List.countP_congr
    intro r' hr'
    rw [Bool.and_eq_true]
    exact ⟨fun h => ⟨h, hle r' hr' h⟩, fun h => h.1⟩
  have hcount : t.count p = (t.rows.filter p).length := List.countP_eq_length_filter
  rw [hsame, hcount]
  refine List.countP_lt_length_iff.mpr ⟨r, List.mem_filter.mpr ⟨hr, hp⟩, ?_⟩
  simp [hd, hout]

end Count

end Table

end AriOs.Storage
