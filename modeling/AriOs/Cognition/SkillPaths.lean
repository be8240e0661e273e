import AriOs.Cognition.Skills

/-!
# Paths of supporting files

A path is taken apart in three ways: the check of a path separates its parts at slashes and
backslashes, the keys of a checksum have slashes in place of backslashes, and a path that is joined
to a directory is separated at slashes only.

## Main results

* `joined_posixKey` — the key of a path, joined to a directory, has the parts of the path
-/

namespace AriOs.Cognition.Skills

open AriOs.Storage

/-! ### Pieces of a text -/

section Split

variable {α : Type} {p q : α → Bool} {xs : List α}

/-- No piece contains a separator. -/
theorem not_of_mem_splitOnP {piece : List α} {x : α} (h : piece ∈ xs.splitOnP p) (hx : x ∈ piece) :
    p x = false := by
  induction xs generalizing piece with
  | nil =>
    obtain rfl : piece = [] := by simpa using h
    simp at hx
  | cons y ys ih =>
    rw [List.splitOnP_cons_eq_if_modifyHead] at h
    split at h
    · rcases List.mem_cons.mp h with rfl | h
      · simp at hx
      · exact ih h hx
    · next hy =>
      cases hsplit : ys.splitOnP p with
      | nil => exact absurd hsplit (List.splitOnP_ne_nil p ys)
      | cons first rest =>
        rw [hsplit, List.modifyHead_cons, List.mem_cons] at h
        rcases h with rfl | h
        · rcases List.mem_cons.mp hx with rfl | hx
          · simpa using hy
          · exact ih (hsplit ▸ List.mem_cons_self) hx
        · exact ih (hsplit ▸ List.mem_cons_of_mem _ h) hx

/-- What is no separator is in a piece. -/
theorem exists_mem_splitOnP {x : α} (hx : x ∈ xs) (hp : p x = false) :
    ∃ piece ∈ xs.splitOnP p, x ∈ piece := by
  induction xs with
  | nil => simp at hx
  | cons y ys ih =>
    rw [List.splitOnP_cons_eq_if_modifyHead]
    split
    · -- a separator is in no piece, and the element is none
      next hy =>
      have hx : x ∈ ys := by
        rcases List.mem_cons.mp hx with rfl | hx
        · simp [hp] at hy
        · exact hx
      obtain ⟨piece, hpiece, hx⟩ := ih hx
      exact ⟨piece, List.mem_cons_of_mem _ hpiece, hx⟩
    · cases hsplit : ys.splitOnP p with
      | nil => exact absurd hsplit (List.splitOnP_ne_nil p ys)
      | cons first rest =>
        rw [List.modifyHead_cons]
        rcases List.mem_cons.mp hx with rfl | hx
        · exact ⟨_, List.mem_cons_self, List.mem_cons_self⟩
        · obtain ⟨piece, hpiece, hx⟩ := ih hx
          rcases List.mem_cons.mp (hsplit ▸ hpiece) with rfl | hpiece
          · exact ⟨_, List.mem_cons_self, List.mem_cons_of_mem _ hx⟩
          · exact ⟨piece, List.mem_cons_of_mem _ hpiece, hx⟩

/-- Only what is a separator among the entries matters. -/
theorem splitOnP_congr (h : ∀ x ∈ xs, p x = q x) : xs.splitOnP p = xs.splitOnP q := by
  induction xs with
  | nil => rfl
  | cons x xs ih =>
    rw [List.forall_mem_cons] at h
    rw [List.splitOnP_cons_eq_if_modifyHead, List.splitOnP_cons_eq_if_modifyHead, h.1, ih h.2]

end Split

/-! ### The parts of a path -/

variable {path path' : String}

theorem joined_ne_nil : joined path ≠ [] := by simp [joined]

/-- A path that is joined is the path again. -/
theorem intercalate_joined : String.intercalate "/" (joined path) = path := by
  rw [← String.toList_inj, String.toList_intercalate, joined, List.map_map]
  have hid : (String.toList ∘ String.ofList) = id := by
    funext cs
    simp
  rw [hid, List.map_id]
  exact List.intercalate_splitOn '/'

theorem toList_parts : (parts path).map String.toList =
    path.toList.splitOnP fun c => c = '/' || c = '\\' := by
  rw [parts, List.map_map]
  have hid : (String.toList ∘ String.ofList) = id := by
    funext cs
    simp
  rw [hid, List.map_id]

theorem parts_ne_nil : parts path ≠ [] := by simp [parts]

/-- A part contains neither separator. -/
theorem not_separator_of_mem_parts {part : String} {c : Char} (h : part ∈ parts path)
    (hc : c ∈ part.toList) : c ≠ '/' ∧ c ≠ '\\' := by
  have hpiece : part.toList ∈ path.toList.splitOnP fun c => c = '/' || c = '\\' := by
    rw [← toList_parts]
    exact List.mem_map_of_mem h
  simpa using not_of_mem_splitOnP hpiece hc

theorem toList_posixKey : (posixKey path).toList =
    ['/'].intercalate (path.toList.splitOnP fun c => c = '/' || c = '\\') := by
  rw [posixKey, String.toList_intercalate, toList_parts]
  rfl

theorem joined_posixKey : joined (posixKey path) = parts path := by
  rw [joined, toList_posixKey, List.splitOn_intercalate]
  · rfl
  · intro piece hpiece hmem
    simpa using not_of_mem_splitOnP hpiece hmem
  · exact List.splitOnP_ne_nil _ _

theorem not_backslash_mem_posixKey : '\\' ∉ (posixKey path).toList := by
  intro hmem
  obtain ⟨piece, hpiece, hmem⟩ : ∃ piece ∈ (posixKey path).toList.splitOn '/', '\\' ∈ piece :=
    exists_mem_splitOnP hmem (by decide)
  have hpart : String.ofList piece ∈ parts path := by
    rw [← joined_posixKey]
    exact List.mem_map_of_mem hpiece
  exact (not_separator_of_mem_parts hpart (by simpa using hmem)).2 rfl

/-- Where there is no backslash, both ways to separate a path agree. -/
theorem parts_eq_joined (h : '\\' ∉ path.toList) : parts path = joined path := by
  rw [parts, joined, List.splitOn_eq_splitOnP]
  congr 1
  refine splitOnP_congr fun c hc => ?_
  have hne : c ≠ '\\' := fun heq => h (heq ▸ hc)
  by_cases hslash : c = '/' <;> simp [hslash, hne]

theorem parts_posixKey : parts (posixKey path) = parts path := by
  rw [parts_eq_joined not_backslash_mem_posixKey, joined_posixKey]

theorem posixKey_posixKey : posixKey (posixKey path) = posixKey path := by
  rw [posixKey, parts_posixKey]
  rfl

/-- The directory below which a path is joined is a part of it, if it has no backslash. -/
theorem headD_parts {top : String} {rest : Path} (h : joined path = top :: rest)
    (htop : '\\' ∉ top.toList) : (parts path).headD "" = top := by
  -- a piece of a path has no slash
  have hslash : '/' ∉ top.toList := by
    have hpiece : top.toList ∈ path.toList.splitOn '/' := by
      have hmem : top ∈ joined path := h ▸ List.mem_cons_self
      obtain ⟨piece, hpiece, rfl⟩ := List.mem_map.mp hmem
      simpa using hpiece
    intro hmem
    simpa using not_of_mem_splitOnP hpiece hmem
  have hsep : ∀ c ∈ top.toList, (decide (c = '/') || decide (c = '\\')) = false := by
    intro c hc
    have hne : c ≠ '/' ∧ c ≠ '\\' := ⟨fun heq => hslash (heq ▸ hc), fun heq => htop (heq ▸ hc)⟩
    simp [hne]
  have hpath : String.intercalate "/" (joined path) = path := intercalate_joined
  rw [h] at hpath
  cases rest with
  | nil =>
    have hpath : top = path := by simpa using hpath
    rw [← hpath, parts, List.splitOnP_eq_singleton hsep]
    simp
  | cons next rest =>
    -- so the text is split behind its first piece first
    have hlist : path.toList =
        top.toList ++ '/' :: (String.intercalate "/" (next :: rest)).toList := by
      rw [← hpath, String.intercalate_cons_of_ne_nil (by simp)]
      simp
    rw [parts, hlist, List.splitOnP_append_cons_of_forall_mem hsep _ (by decide)]
    simp

end AriOs.Cognition.Skills
