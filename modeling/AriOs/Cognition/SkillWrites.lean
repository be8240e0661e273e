import AriOs.Cognition.SkillLoads
import AriOs.Cognition.SkillPaths
import AriOs.Cognition.SkillUpdates

/-!
# What is written of a skill

A creation or an update that returns has written its files at the paths that were given, joined to
the directory of the skill, and nothing else is there.

## Main results

* `written_of_create`, `written_of_update` — what they leave behind if they return
-/

namespace AriOs.Cognition.Skills

open AriOs.Async AriOs.Js AriOs.Storage

/-! ### Calls that returned -/

section Calls

variable {t t' : Files} {l l' : Bool}

theorem leads_callOut {o : Op} {a : o.Value} (h : (callOut o).Leads machine l t (.ok a) l' t') :
    ∃ fault, machine.handle o t fault = (.ok a, t') := by
  obtain ⟨r, l₁, t₁, hask, hreturn⟩ := h.bind_ok
  obtain ⟨fault, hhandle⟩ := hask.ask
  obtain ⟨rfl, rfl⟩ := hreturn.ofExcept
  exact ⟨fault, hhandle⟩

theorem reading_eq_ok {α : Type} {fault : Option String} {x : Except SkillError α} {a : α}
    (h : reading t fault x = (.ok a, t')) : x = .ok a ∧ t' = t := by
  cases fault with
  | some code => simp [reading] at h
  | none =>
    simp only [reading, Prod.mk.injEq] at h
    exact ⟨h.1, h.2.symm⟩

theorem changing_eq_ok {fault : Option String} {x : Except String Files}
    (h : changing t fault x = (.ok (), t')) : x = .ok t' := by
  rcases changing_cases t fault x with ⟨e, heq⟩ | ⟨t₁, hx, heq⟩
  · rw [heq] at h
    cases h
  · obtain ⟨-, rfl⟩ := Prod.mk.inj (heq.symm.trans h)
    exact hx

theorem writeNewOf_eq_ok {p : Path} {text : String} {fault : Option (String × Option String)}
    (h : writeNewOf t p text fault = (.ok (), t')) : t.writeNew p (.regular text) = .ok t' := by
  unfold writeNewOf at h
  split at h
  · split at h
    · rename_i t₁ hwrite
      simp only [Prod.mk.injEq, true_and] at h
      rw [hwrite, h]
    · simp at h
  · simp at h
  · split at h <;> simp at h

end Calls

/-! ### What a directory holds -/

/-- A directory with the files `values`, each where its path is joined to it, and nothing else. -/
structure Holds (t : Files) (dir : Path) (values : List (String × String)) : Prop where
  isDir : t.get dir = some .dir
  nodup : (values.map Prod.fst).Nodup
  file : ∀ f ∈ values, t.get (dir ++ joined f.1) = some (.file (.regular f.2))
  only : ∀ q c, t.get (dir ++ q) = some (.file c) → ∃ f ∈ values, q = joined f.1 ∧ c = .regular f.2
  between : ∀ f ∈ values, ∀ q, q <+: (joined f.1).dropLast → t.get (dir ++ q) = some .dir

/-- There is nothing below what is not there. -/
def Rooted (t : Files) : Prop := ∀ p, p ≠ [] → t.get p = none → t.Absent p

section Holds

variable {t t' t'' : Files} {dir dir' : Path} {values : List (String × String)} {l l' : Bool}

theorem Holds.congr (h : Holds t dir values) (heq : treeAt t' dir' = treeAt t dir) :
    Holds t' dir' values := by
  have hget : ∀ q, t'.get (dir' ++ q) = t.get (dir ++ q) := congrFun heq
  have hdir : t'.get dir' = t.get dir := by simpa using hget []
  exact {
    isDir := by rw [hdir]; exact h.isDir
    nodup := h.nodup
    file := fun f hf => by rw [hget]; exact h.file f hf
    only := fun q c hc => h.only q c (by rw [← hget]; exact hc)
    between := fun f hf q hq => by rw [hget]; exact h.between f hf q hq }

/-- A new directory holds nothing. -/
theorem holds_nil (hrooted : Rooted t) (h : mkdirOf t dir = .ok t') : Holds t' dir [] := by
  obtain ⟨-, hne, hnone, rfl⟩ := mkdirOf_eq_ok h
  refine ⟨by simp, by simp, by simp, fun q c hc => ?_, by simp⟩
  rw [FiniteMap.get_set] at hc
  split at hc
  · simp at hc
  · rw [hrooted dir hne hnone q] at hc
    exact absurd hc (by simp)

/-- One more file. -/
theorem Holds.write {path value : String} (h : Holds t dir values)
    (hmkdir : t.mkdirAll (dir ++ joined path).dropLast = .ok t')
    (hwrite : t'.writeNew (dir ++ joined path) (.regular value) = .ok t'') :
    Holds t'' dir (values ++ [(path, value)]) := by
  have hdrop : (dir ++ joined path).dropLast = dir ++ (joined path).dropLast :=
    List.dropLast_append_of_ne_nil joined_ne_nil
  rw [hdrop] at hmkdir
  have hfile : ∀ q c, t''.get (dir ++ q) = some (.file c) ↔
      t.get (dir ++ q) = some (.file c) ∨ dir ++ q = dir ++ joined path ∧ c = .regular value := by
    intro q c
    rw [(FileTree.file_writeNew hwrite).2, FileTree.file_mkdirAll hmkdir]
  have hdirs : ∀ q, t.get q = some .dir → t''.get q = some .dir := fun q hq =>
    FileTree.dir_writeNew hwrite (FileTree.dir_mkdirAll hmkdir hq)
  refine ⟨hdirs _ h.isDir, ?_, ?_, ?_, ?_⟩
  · rw [List.map_append, List.map_singleton, List.nodup_append]
    refine ⟨h.nodup, by simp, ?_⟩
    intro path' hpath' path'' hpath'' heq
    obtain rfl := List.mem_singleton.mp hpath''
    obtain ⟨f, hf, rfl⟩ := List.mem_map.mp hpath'
    -- the file would be there already
    have hthere : t'.get (dir ++ joined f.1) = some (.file (.regular f.2)) :=
      (FileTree.file_mkdirAll hmkdir).mpr (h.file f hf)
    have hnone := (@FileTree.file_writeNew _ t' t'' _ [] _ (.regular value) hwrite).1
    rw [heq] at hthere
    simp [hthere] at hnone
  · intro f hf
    rw [hfile]
    rcases List.mem_append.mp hf with hf | hf
    · exact .inl (h.file f hf)
    · obtain rfl := List.mem_singleton.mp hf
      exact .inr ⟨rfl, rfl⟩
  · intro q c hc
    rcases (hfile q c).mp hc with hc | ⟨hq, hc⟩
    · obtain ⟨f, hf, hf'⟩ := h.only q c hc
      exact ⟨f, List.mem_append_left _ hf, hf'⟩
    · exact ⟨(path, value), by simp, List.append_cancel_left hq, hc⟩
  · intro f hf q hq
    rcases List.mem_append.mp hf with hf | hf
    · exact hdirs _ (h.between f hf q hq)
    · obtain rfl := List.mem_singleton.mp hf
      by_cases hnil : dir ++ q = []
      · rw [(List.append_eq_nil_iff.mp hnil).2, List.append_nil]
        exact hdirs _ h.isDir
      · refine FileTree.dir_writeNew hwrite (FileTree.made_mkdirAll hmkdir ?_ hnil)
        exact (List.prefix_append_right_inj dir).mpr hq

theorem holds_of_writeFiles {files : List (String × String)} (h : Holds t dir values)
    (hrun : (writeFiles dir files).Leads machine l t (.ok ()) l' t') :
    Holds t' dir (values ++ files) := by
  induction files generalizing t l values with
  | nil =>
    obtain ⟨-, rfl⟩ := hrun.pure
    rw [List.append_nil]
    exact h
  | cons f files ih =>
    obtain ⟨path, value⟩ := f
    obtain ⟨_, l₁, t₁, hmkdir, hrun⟩ := hrun.bind_ok
    obtain ⟨_, l₂, t₂, hwrite, hrun⟩ := hrun.bind_ok
    obtain ⟨fault₁, hmkdir⟩ := leads_callOut hmkdir
    obtain ⟨fault₂, hwrite⟩ := leads_callOut hwrite
    have := ih (h.write (changing_eq_ok hmkdir) (writeNewOf_eq_ok hwrite)) hrun
    rwa [List.append_assoc] at this

theorem dir_writeFiles {files : List (String × String)} {p : Path}
    (hrun : (writeFiles dir files).Leads machine l t (.ok ()) l' t') (hp : t.get p = some .dir) :
    t'.get p = some .dir := by
  induction files generalizing t l with
  | nil =>
    obtain ⟨-, rfl⟩ := hrun.pure
    exact hp
  | cons f files ih =>
    obtain ⟨path, value⟩ := f
    obtain ⟨_, l₁, t₁, hmkdir, hrest⟩ := hrun.bind_ok
    obtain ⟨_, l₂, t₂, hwrite, hrest⟩ := hrest.bind_ok
    obtain ⟨fault₁, hmkdir⟩ := leads_callOut hmkdir
    obtain ⟨fault₂, hwrite⟩ := leads_callOut hwrite
    exact ih hrest (FileTree.dir_writeNew (writeNewOf_eq_ok hwrite)
      (FileTree.dir_mkdirAll (changing_eq_ok hmkdir) hp))

end Holds

/-! ### After a creation or an update -/

/-- The item that is returned for a skill. -/
def writtenItem (host : Host) (root : Path) (name text : String) (files : List (String × String)) :
    Item where
  dir := root ++ [name]
  text := text
  support := posixKeyed files
  digest := digest host text (posixKeyed files)

/-- The tree after a creation or an update that returned an item. -/
structure Written (host : Host) (root : Path) (name text : String) (files : List (String × String))
    (t : Files) (item : Item) : Prop where
  skill : skillName name = true
  parsed : host.parse text = .ok name
  checked : ∀ f ∈ files, checkFile f = .ok ()
  few : files.length ≤ MAX_FILES
  returned : item = writtenItem host root name text files
  isDir : t.IsDir root
  holds : Holds t (root ++ [name]) (("SKILL.md", text) :: files)

section Written

variable {host : Host} {m : SkillManager} {t t' : Files} {root : Path} {name text : String}
  {files : List (String × String)} {l l' : Bool} {item : Item}

theorem read_unchanged {α : Type} {x : Body α} {r : Except SkillError α} (hx : x.Only Op.Reads)
    (h : x.Leads machine l t r l' t') : t' = t :=
  hx.leads (fun _ ho _ fault => handle_of_reads ho fault) h

/-- The checks of the files, one by one. -/
theorem forM_eq_ok {f : String × String → Except SkillError Unit} (h : files.forM f = .ok ()) :
    ∀ g ∈ files, f g = .ok () := by
  induction files with
  | nil => simp
  | cons g files ih =>
    change (f g >>= fun _ => files.forM f) = .ok () at h
    cases hg : f g with
    | error e => simp [hg, bind, Except.bind] at h
    | ok u =>
      rw [hg] at h
      exact List.forall_mem_cons.mpr ⟨hg, ih h⟩

theorem isDir_of_dirs {p : Path} (h : ∀ q, t.get q = some .dir → t'.get q = some .dir)
    (hp : t.IsDir p) : t'.IsDir p := by
  refine hp.imp_right fun hdir => ?_
  cases hget : t.get p with
  | none => simp [hget] at hdir
  | some node =>
    cases node with
    | file c => simp [hget, Node.isDir] at hdir
    | dir => simp [h p hget, Node.isDir]

theorem holds_of_writeTree {dir : Path} (hrooted : Rooted t)
    (hrun : (writeTree dir text files).Leads machine l t (.ok ()) l' t') :
    Holds t' dir (("SKILL.md", text) :: files) ∧ files.length ≤ MAX_FILES ∧
      (∀ f ∈ files, checkFile f = .ok ()) ∧ t'.IsDir dir.dropLast := by
  obtain ⟨_, l₁, t₁, hmkdir, hblock⟩ := hrun.bind_ok
  obtain ⟨fault, hmade⟩ := leads_callOut hmkdir
  have hmade := changing_eq_ok hmade
  -- a block that fails throws again, so it did not
  obtain htry | ⟨e, l₂, t₂, -, hcatch⟩ := hblock.tryCatch_ok
  · split at htry
    · exact absurd htry Routine.Leads.throw
    · next hfew =>
      obtain ⟨_, l₂, t₂, hforM, hrest⟩ := htry.bind_ok
      obtain ⟨hchecks, rfl⟩ := hforM.ofExcept
      obtain ⟨_, l₃, t₃, hfiles, hsync⟩ := hrest.bind_ok
      obtain ⟨fault, hsynced⟩ := leads_callOut hsync
      obtain ⟨-, rfl⟩ := reading_eq_ok hsynced
      refine ⟨holds_of_writeFiles (holds_nil hrooted hmade) hfiles, Nat.not_lt.mp hfew,
        forM_eq_ok hchecks, ?_⟩
      obtain ⟨hparent, hne, -, rfl⟩ := mkdirOf_eq_ok hmade
      refine isDir_of_dirs (fun p hp => dir_writeFiles hfiles ?_) hparent
      rw [FiniteMap.get_set]
      split
      · rfl
      · exact hp
  · obtain ⟨_, l₃, t₃, -, hthrow⟩ := hcatch.bind_ok
    exact absurd hthrow Routine.Leads.throw

/-- Where a controlled skill is. -/
theorem controlled_leads {target : Path}
    (hrun : (controlled m name).Leads machine l t (.ok target) l' t') :
    ∃ root, m.controlledRoot = some root ∧ target = root ++ [name] ∧ skillName name = true ∧
      t' = t := by
  have hstate := read_unchanged (only_controlled name) hrun
  unfold controlled at hrun
  cases hroot : m.controlledRoot with
  | none =>
    rw [hroot] at hrun
    exact absurd hrun Routine.Leads.throw
  | some root =>
    rw [hroot] at hrun
    dsimp only at hrun
    split at hrun
    · exact absurd hrun Routine.Leads.throw
    next hskill =>
    obtain ⟨kind, l₁, t₁, hlstat, hrest₁⟩ := hrun.bind_ok
    obtain ⟨fault, hread⟩ := leads_callOut hlstat
    obtain ⟨hkind, rfl⟩ := reading_eq_ok hread
    split at hrest₁
    · exact absurd hrest₁ Routine.Leads.throw
    next hdir =>
    obtain ⟨canonical, l₂, t₂, hrealpath, hrest₂⟩ := hrest₁.bind_ok
    obtain ⟨fault₂, hread₂⟩ := leads_callOut hrealpath
    obtain ⟨hcanonical, rfl⟩ := reading_eq_ok hread₂
    split at hrest₂
    · exact absurd hrest₂ Routine.Leads.throw
    obtain ⟨rfl, -⟩ := hrest₂.pure
    -- the root is a directory, so it names itself
    have hsame : canonical = root := by
      rw [not_not] at hdir
      simp only [realpathOf, hkind, hdir, Except.ok.injEq] at hcanonical
      exact hcanonical.symm
    exact ⟨root, rfl, by rw [hsame], by simpa using hskill, hstate⟩

theorem mapError_eq_ok {α ε ε' : Type} {f : ε → ε'} {x : Except ε α} {a : α}
    (h : x.mapError f = .ok a) : x = .ok a := by
  cases x with
  | error e => simp [Except.mapError] at h
  | ok b => simpa [Except.mapError] using h

theorem written_of_create (hrooted : Rooted t)
    (hrun : (m.create host name text files).Leads machine l t (.ok item) l' t') :
    ∃ root, m.controlledRoot = some root ∧ Written host root name text files t' item := by
  obtain ⟨target, l₁, t₁, hcontrolled, hrest₁⟩ := hrun.bind_ok
  obtain ⟨root, hroot, rfl, hskill, rfl⟩ := controlled_leads hcontrolled
  obtain ⟨declared, l₂, t₂, hparse, hrest₂⟩ := hrest₁.bind_ok
  obtain ⟨hparsed, rfl⟩ := hparse.ofExcept
  split at hrest₂
  · exact absurd hrest₂ Routine.Leads.throw
  next hdeclared =>
  obtain ⟨_, l₃, t₃, hrefuse, hrest₃⟩ := hrest₂.bind_ok
  -- until the tree is written the directory is only read
  obtain rfl := read_unchanged (only_refuseExisting _) hrefuse
  obtain ⟨_, l₄, t₄, hwrite, hreturn⟩ := hrest₃.bind_ok
  obtain ⟨rfl, rfl⟩ := hreturn.pure
  obtain ⟨hholds, hfew, hchecked, hdir⟩ := holds_of_writeTree hrooted hwrite
  rw [List.dropLast_concat] at hdir
  refine ⟨root, hroot, ?_⟩
  exact {
    skill := hskill
    parsed := not_not.mp hdeclared ▸ mapError_eq_ok hparsed
    checked := hchecked
    few := hfew
    returned := rfl
    isDir := hdir
    holds := hholds }

/-- The tree that was prepared is put in its place. -/
theorem holds_of_swap {id : String} {values : List (String × String)}
    (hholds : Holds t (temp (root ++ [name]) id) values) (hdir : t.IsDir root)
    (hrun : (swap (root ++ [name]) id).Leads machine l t (.ok ()) l' t') :
    Holds t' (root ++ [name]) values ∧ t'.IsDir root := by
  obtain ⟨_, l₁, t₁, hassign, hblock⟩ := hrun.bind_ok
  obtain rfl := hassign.assign
  obtain htry | ⟨e, l₂, t₂, -, hcatch⟩ := hblock.tryCatch_ok
  · -- the old tree goes aside, the new one takes its place, the old one is removed
    obtain ⟨_, l₂, t₂, haway, hrest₁⟩ := htry.bind_ok
    obtain ⟨fault₁, haway⟩ := leads_callOut haway
    have haway := changing_eq_ok haway
    obtain ⟨_, l₃, t₃, hmoved, hrest₂⟩ := hrest₁.bind_ok
    obtain rfl := hmoved.assign
    obtain ⟨_, l₄, t₄, hplace, hrest₃⟩ := hrest₂.bind_ok
    obtain ⟨fault₂, hplace⟩ := leads_callOut hplace
    have hplace := changing_eq_ok hplace
    obtain ⟨_, l₅, t₅, hsync, hrm⟩ := hrest₃.bind_ok
    obtain ⟨fault₃, hsync⟩ := leads_callOut hsync
    obtain ⟨-, rfl⟩ := reading_eq_ok hsync
    obtain ⟨fault₄, hrm⟩ := leads_callOut hrm
    rw [Skills.backup_eq] at haway hrm
    rw [Skills.temp_eq] at hplace hholds
    have hremoved : t' = t₅.remove (root ++ [name ++ ".bak-" ++ id]) := by
      rcases rm_cases (root ++ [name ++ ".bak-" ++ id]) false t₅ fault₄ with h | ⟨e, out, h⟩
      · rw [hrm] at h
        exact (Prod.mk.inj h).2
      · rw [hrm] at h
        exact absurd (Prod.mk.inj h).1 (by simp)
    have hbackup : name ++ ".bak-" ++ id ≠ name := append_ne_self (by decide)
    have htemp : name ++ ".tmp-" ++ id ≠ name := append_ne_self (by decide)
    constructor
    · -- none of these touches the files of the new tree but the renaming, which takes them along
      have haway' := hholds.congr (treeAt_rename_other haway htemp.symm temp_ne_backup.symm)
      have hplace' := haway'.congr (treeAt_rename_dst hplace)
      rw [hremoved]
      exact hplace'.congr (treeAt_remove_other hbackup)
    · have hnot : ∀ a : String, ¬ root ++ [a] <+: root := fun a h => absurd h.length_le (by simp)
      have hget : t'.get root = t₁.get root := by
        rw [hremoved, FileTree.get_remove, if_neg (hnot _),
          FileTree.get_rename_other hplace (hnot _) (hnot _),
          FileTree.get_rename_other haway (hnot _) (hnot _)]
      unfold FileTree.IsDir
      rw [hget]
      exact hdir
  · -- a swap that was undone throws
    obtain ⟨_, l₃, t₃, -, hrest₁⟩ := hcatch.bind_ok
    obtain ⟨moved, l₄, t₄, -, hrest₂⟩ := hrest₁.bind_ok
    split at hrest₂
    · obtain ⟨_, l₅, t₅, -, hthrow⟩ := hrest₂.bind_ok
      exact absurd hthrow Routine.Leads.throw
    · exact absurd hrest₂ Routine.Leads.throw

theorem written_of_update {r : UpdateCall} (hrooted : Rooted t)
    (hrun : (m.update host r).Leads machine l t (.ok item) l' t') :
    ∃ root, m.controlledRoot = some root ∧ Written host root r.name r.text r.files t' item := by
  obtain ⟨target, l₁, t₁, hcontrolled, hrest₁⟩ := hrun.bind_ok
  obtain ⟨root, hroot, rfl, hskill, rfl⟩ := controlled_leads hcontrolled
  obtain ⟨_, l₂, t₂, hcompare, hrest₂⟩ := hrest₁.bind_ok
  -- until the tree is written the directory is only read
  obtain rfl := read_unchanged (only_compare _ _) hcompare
  obtain ⟨declared, l₃, t₃, hparse, hrest₃⟩ := hrest₂.bind_ok
  obtain ⟨hparsed, rfl⟩ := hparse.ofExcept
  split at hrest₃
  · exact absurd hrest₃ Routine.Leads.throw
  next hdeclared =>
  obtain ⟨_, l₄, t₄, hwrite, hrest₄⟩ := hrest₃.bind_ok
  obtain ⟨hholds, hfew, hchecked, hdir⟩ := holds_of_writeTree hrooted hwrite
  rw [Skills.temp_eq, List.dropLast_concat] at hdir
  obtain ⟨_, l₅, t₅, hswap, hreturn⟩ := hrest₄.bind_ok
  obtain ⟨rfl, rfl⟩ := hreturn.pure
  obtain ⟨hholds, hdir⟩ := holds_of_swap hholds hdir hswap
  refine ⟨root, hroot, ?_⟩
  exact {
    skill := hskill
    parsed := not_not.mp hdeclared ▸ mapError_eq_ok hparsed
    checked := hchecked
    few := hfew
    returned := rfl
    isDir := hdir
    holds := hholds }

end Written

end AriOs.Cognition.Skills
