import AriOs.Storage.FiniteMap
import Mathlib.Data.List.Infix

/-!
# Trees of files

A file system below a directory that is always there: finitely many paths that name a directory or
a file. Operations fail with the code the system reports.

## Main definitions

* `FileTree.mkdirAll`, `FileTree.writeNew` — directories with their parents, and a new file
* `FileTree.remove`, `FileTree.rename` — whole trees

## Main results

* `FileTree.get_rename` — a tree that is moved is at its new place as it was
* `FileTree.file_mkdirAll`, `FileTree.file_writeNew` — what operations do to the files
-/

namespace AriOs.Storage

/-- A path, as the names from the top. -/
abbrev Path := List String

inductive Node (δ : Type) where
  | dir
  | file (content : δ)
  deriving DecidableEq, Repr

def Node.isDir {δ : Type} : Node δ → Bool
  | .dir => true
  | .file _ => false

/-- What is at each path. -/
abbrev FileTree (δ : Type) := FiniteMap Path (Node δ)

namespace FileTree

variable {δ : Type}

/-- The top is a directory, and so is what a path names as one. -/
def IsDir (t : FileTree δ) (p : Path) : Prop := p = [] ∨ (t.get p).any Node.isDir

instance (t : FileTree δ) (p : Path) : Decidable (t.IsDir p) :=
  inferInstanceAs (Decidable (_ ∨ _))

/-- There is nothing at a path or below it. -/
def Absent (t : FileTree δ) (p : Path) : Prop := ∀ q, t.get (p ++ q) = none

/-- There is nothing below a path. -/
def IsEmptyDir (t : FileTree δ) (p : Path) : Prop := ∀ q ∈ t.keys, p <+: q → q = p

instance (t : FileTree δ) (p : Path) : Decidable (t.IsEmptyDir p) :=
  inferInstanceAs (Decidable (∀ q ∈ t.keys, p <+: q → q = p))

/-- One directory of a path that is made with its parents. -/
def mkdirStep (t : FileTree δ) (p : Path) : Except String (FileTree δ) :=
  match t.get p with
  | none => .ok (t.set p .dir)
  | some .dir => .ok t
  | some (.file _) => .error "ENOTDIR"

/-- `mkdir(p, { recursive: true })`. -/
def mkdirAll (t : FileTree δ) (p : Path) : Except String (FileTree δ) :=
  p.inits.tail.foldlM mkdirStep t

/-- A file that is opened with the flags `wx` and written. -/
def writeNew (t : FileTree δ) (p : Path) (content : δ) : Except String (FileTree δ) :=
  if ¬t.IsDir p.dropLast then .error "ENOENT"
  else if p = [] ∨ (t.get p).isSome then .error "EEXIST"
  else .ok (t.set p (.file content))

/-- What is left of a tree without some paths. -/
def without (t : FileTree δ) (out : Path → Bool) : FileTree δ where
  get p := if out p then none else t.get p
  keys := t.keys.filter fun p => !out p
  mem_keys p := by
    rw [Finset.mem_filter, t.mem_keys]
    by_cases h : out p <;> simp [h]

/-- `rm(p, { recursive: true })`, of everything below. -/
def remove (t : FileTree δ) (p : Path) : FileTree δ := t.without fun q => p <+: q

/-- Everything at `src` and below is put at `dst`. -/
def move (t : FileTree δ) (src dst : Path) : FileTree δ where
  get q :=
    if dst <+: q then t.get (src ++ q.drop dst.length)
    else if src <+: q then none
    else t.get q
  keys := (t.keys.image fun q => if src <+: q then dst ++ q.drop src.length else q).filter fun q =>
    (if dst <+: q then t.get (src ++ q.drop dst.length)
      else if src <+: q then none else t.get q).isSome
  mem_keys q := by
    rw [Finset.mem_filter]
    refine ⟨fun h => h.2, fun h => ⟨?_, h⟩⟩
    rw [Finset.mem_image]
    by_cases hdst : dst <+: q
    · obtain ⟨r, rfl⟩ := hdst
      have hget : (t.get (src ++ r)).isSome := by simpa using h
      exact ⟨src ++ r, (t.mem_keys _).mpr hget, by simp⟩
    · by_cases hsrc : src <+: q
      · simp [hdst, hsrc] at h
      · exact ⟨q, (t.mem_keys q).mpr (by simpa [hdst, hsrc] using h), by simp [hsrc]⟩

/-- `rename(src, dst)` of a directory: what is at `dst` has to be an empty directory, if there is
anything. -/
def rename (t : FileTree δ) (src dst : Path) : Except String (FileTree δ) :=
  match t.get src with
  | some .dir =>
    if src <+: dst then .error "EINVAL"
    else if ¬t.IsDir dst.dropLast then .error "ENOENT"
    else
      match t.get dst with
      | some (.file _) => .error "ENOTDIR"
      | some .dir => if t.IsEmptyDir dst then .ok (t.move src dst) else .error "ENOTEMPTY"
      | none => .ok (t.move src dst)
  | _ => .error "ENOENT"

variable {t t' : FileTree δ} {p q src dst : Path} {content d : δ}

@[simp] theorem get_without {out : Path → Bool} :
    (t.without out).get p = if out p then none else t.get p := rfl

theorem get_remove : (t.remove p).get q = if p <+: q then none else t.get q := by
  simp [remove]

theorem get_mkdirStep_ne (h : t.mkdirStep p = .ok t') (hne : q ≠ p) : t'.get q = t.get q := by
  unfold mkdirStep at h
  split at h
  · obtain rfl := Except.ok.inj h
    rw [FiniteMap.get_set, if_neg hne]
  · obtain rfl := Except.ok.inj h
    rfl
  · simp at h

theorem get_foldlM_mkdirStep {ps : List Path} (h : ps.foldlM mkdirStep t = .ok t') (hq : q ∉ ps) :
    t'.get q = t.get q := by
  induction ps generalizing t with
  | nil =>
    obtain rfl := Except.ok.inj h
    rfl
  | cons p ps ih =>
    rw [List.foldlM_cons] at h
    rw [List.mem_cons, not_or] at hq
    cases hone : mkdirStep t p with
    | error e => simp [hone, bind, Except.bind] at h
    | ok t₁ =>
      rw [hone] at h
      exact (ih h hq.2).trans (get_mkdirStep_ne hone hq.1)

/-- Making directories changes nothing but the path and what it leads through. -/
theorem get_mkdirAll (h : t.mkdirAll p = .ok t') (hq : ¬q <+: p) : t'.get q = t.get q :=
  get_foldlM_mkdirStep h fun hmem => hq ((List.mem_inits q p).mp (List.mem_of_mem_tail hmem))

theorem get_writeNew_ne (h : t.writeNew p content = .ok t') (hne : q ≠ p) : t'.get q = t.get q := by
  unfold writeNew at h
  split at h
  · simp at h
  · split at h
    · simp at h
    · obtain rfl := Except.ok.inj h
      rw [FiniteMap.get_set, if_neg hne]

theorem get_move_below : (t.move src dst).get (dst ++ q) = t.get (src ++ q) := by
  simp [move]

/-- What is renamed is a directory, and it is moved. -/
theorem rename_eq_ok (h : t.rename src dst = .ok t') :
    t.get src = some .dir ∧ t' = t.move src dst := by
  unfold rename at h
  split at h
  · rename_i hsrc
    refine ⟨hsrc, ?_⟩
    split at h
    · simp at h
    · split at h
      · simp at h
      · split at h
        · simp at h
        · split at h
          · exact (Except.ok.inj h).symm
          · simp at h
        · exact (Except.ok.inj h).symm
  · simp at h

/-- A tree that is moved is at its new place as it was. -/
theorem get_rename (h : t.rename src dst = .ok t') : t'.get (dst ++ q) = t.get (src ++ q) := by
  rw [(rename_eq_ok h).2, get_move_below]

/-- A tree that is moved is no longer where it was. -/
theorem get_rename_src (h : t.rename src dst = .ok t') (hsrc : src <+: q) (hdst : ¬dst <+: q) :
    t'.get q = none := by
  simp [(rename_eq_ok h).2, move, hsrc, hdst]

/-- What is neither moved nor replaced stays. -/
theorem get_rename_other (h : t.rename src dst = .ok t') (hsrc : ¬src <+: q) (hdst : ¬dst <+: q) :
    t'.get q = t.get q := by
  simp [(rename_eq_ok h).2, move, hsrc, hdst]

theorem file_mkdirStep (h : t.mkdirStep p = .ok t') :
    t'.get q = some (.file d) ↔ t.get q = some (.file d) := by
  unfold mkdirStep at h
  split at h
  · rename_i hnone
    obtain rfl := Except.ok.inj h
    rw [FiniteMap.get_set]
    by_cases hq : q = p
    · simp [hq, hnone]
    · simp [hq]
  · obtain rfl := Except.ok.inj h
    exact Iff.rfl
  · simp at h

theorem file_foldlM_mkdirStep {ps : List Path} (h : ps.foldlM mkdirStep t = .ok t') :
    t'.get q = some (.file d) ↔ t.get q = some (.file d) := by
  induction ps generalizing t with
  | nil =>
    obtain rfl := Except.ok.inj h
    exact Iff.rfl
  | cons p ps ih =>
    rw [List.foldlM_cons] at h
    cases hone : mkdirStep t p with
    | error e => simp [hone, bind, Except.bind] at h
    | ok t₁ =>
      rw [hone] at h
      exact (ih h).trans (file_mkdirStep hone)

/-- Making directories changes no file. -/
theorem file_mkdirAll (h : t.mkdirAll p = .ok t') :
    t'.get q = some (.file d) ↔ t.get q = some (.file d) := file_foldlM_mkdirStep h

theorem made_mkdirStep (h : t.mkdirStep p = .ok t') : t'.get p = some .dir := by
  unfold mkdirStep at h
  split at h
  · obtain rfl := Except.ok.inj h
    rw [FiniteMap.get_set, if_pos rfl]
  · rename_i hdir
    obtain rfl := Except.ok.inj h
    exact hdir
  · simp at h

theorem dir_mkdirStep (h : t.mkdirStep p = .ok t') (hq : t.get q = some .dir) :
    t'.get q = some .dir := by
  by_cases heq : q = p
  · rw [heq]
    exact made_mkdirStep h
  · rw [get_mkdirStep_ne h heq, hq]

theorem dir_foldlM_mkdirStep {ps : List Path} (h : ps.foldlM mkdirStep t = .ok t')
    (hq : t.get q = some .dir ∨ q ∈ ps) : t'.get q = some .dir := by
  induction ps generalizing t with
  | nil =>
    obtain rfl := Except.ok.inj h
    simpa using hq
  | cons p ps ih =>
    rw [List.foldlM_cons] at h
    cases hone : mkdirStep t p with
    | error e => simp [hone, bind, Except.bind] at h
    | ok t₁ =>
      rw [hone] at h
      rcases hq with hq | hq
      · exact ih h (.inl (dir_mkdirStep hone hq))
      · rcases List.mem_cons.mp hq with rfl | hq
        · exact ih h (.inl (made_mkdirStep hone))
        · exact ih h (.inr hq)

/-- A directory stays one. -/
theorem dir_mkdirAll (h : t.mkdirAll p = .ok t') (hq : t.get q = some .dir) :
    t'.get q = some .dir := dir_foldlM_mkdirStep h (.inl hq)

/-- The path and what it leads through are directories then. -/
theorem made_mkdirAll (h : t.mkdirAll p = .ok t') (hq : q <+: p) (hne : q ≠ []) :
    t'.get q = some .dir := by
  refine dir_foldlM_mkdirStep h (.inr ?_)
  have hmem := (List.mem_inits q p).mpr hq
  cases p with
  | nil => exact absurd (List.prefix_nil.mp hq) hne
  | cons a p =>
    rw [List.inits_cons, List.tail_cons]
    rw [List.inits_cons, List.mem_cons] at hmem
    exact hmem.resolve_left hne

/-- A new file is one that was not there, and the others are left alone. -/
theorem file_writeNew (h : t.writeNew p content = .ok t') :
    t.get p = none ∧ (t'.get q = some (.file d) ↔ t.get q = some (.file d) ∨ q = p ∧ d = content) := by
  unfold writeNew at h
  split at h
  · simp at h
  · split at h
    · simp at h
    · rename_i hfree
      obtain rfl := Except.ok.inj h
      have hnone : t.get p = none := by
        simpa using (not_or.mp hfree).2
      refine ⟨hnone, ?_⟩
      rw [FiniteMap.get_set]
      by_cases hq : q = p
      · simp [hq, hnone, eq_comm]
      · simp [hq]

/-- A new file leaves the directories alone. -/
theorem dir_writeNew (h : t.writeNew p content = .ok t') (hq : t.get q = some .dir) :
    t'.get q = some .dir := by
  rw [get_writeNew_ne h, hq]
  rintro rfl
  have hnone := (@file_writeNew δ t t' q q content content h).1
  simp [hq] at hnone

end FileTree

end AriOs.Storage
