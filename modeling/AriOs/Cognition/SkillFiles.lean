import AriOs.Cognition.SkillReads

/-!
# What is read of the supporting files

The supporting files are read below each of their directories, in the order of the listing, and set
one after the other under their keys.

## Main results

* `outcome_supportFiles` — what is read
* `not_file_of_supportFiles` — nothing is read if one of the directories is a file
-/

namespace AriOs.Cognition.Skills

open AriOs.Async AriOs.Js AriOs.Storage

variable {t : Files} {order : Path → List Path} {dir : Path} {top : String} {tops : List String}
  {out out' : OrderedMap String String}

/-! ### The files that are found -/

/-- The files below a directory, as they are listed. -/
def filesOf (t : Files) (order : Path → List Path) (p : Path) : List Path :=
  (order p).filter fun r => (t.get (p ++ r)).map kindOf = some .file

/-- The files below some directories. -/
def foundIn (t : Files) (order : Path → List Path) (dir : Path) (tops : List String) : List Path :=
  tops.flatMap fun top => (filesOf t order (dir ++ [top])).map (top :: ·)

/-- The supporting files of a skill, in the order they are read. -/
def found (t : Files) (order : Path → List Path) (dir : Path) : List Path :=
  foundIn t order dir SUPPORT

def textAt (t : Files) (p : Path) : String :=
  match t.get p with
  | some (.file (.regular text)) => text
  | _ => ""

/-- The key of a file that is found. -/
def keyOf (q : Path) : String := posixKey (String.intercalate "/" q)

/-- The texts of some files under their keys. -/
def readAll (t : Files) (dir : Path) (out : OrderedMap String String) (files : List Path) :
    OrderedMap String String :=
  files.foldl (fun out q => out.set (keyOf q) (textAt t (dir ++ q))) out

/-- A file that may be read. -/
def MayRead (t : Files) (p : Path) : Prop :=
  ∃ text, t.get p = some (.file (.regular text)) ∧ text.utf8ByteSize ≤ MAX_FILE

theorem statOf_eq {p : Path} {n : Node Leaf} (hp : p ≠ []) (hget : t.get p = some n) :
    statOf t p = .ok (kindOf n) := by
  simp [statOf, hp, hget, orThrow]

theorem readFileOf_eq_ok_iff {p base : Path} {max : Nat} {text : String} (hbase : base <+: p) :
    readFileOf t p base max = .ok text ↔
      t.get p = some (.file (.regular text)) ∧ text.utf8ByteSize ≤ max := by
  unfold readFileOf
  split
  · next hget => simp [hget]
  · next hget => simp [hget]
  · next hget => simp [hget]
  · next there hget =>
    simp only [bind_eq_ok, throwIf_eq_ok, exists_const, not_lt, not_not, hget, hbase, true_and,
      Except.ok.injEq, Option.some.injEq, Node.file.injEq, Leaf.regular.injEq]
    constructor
    · rintro ⟨hsize, rfl⟩
      exact ⟨rfl, hsize⟩
    · rintro ⟨rfl, hsize⟩
      exact ⟨hsize, rfl⟩

theorem readFileOf_of_mayRead {p base : Path} (h : MayRead t p) (hbase : base <+: p) :
    readFileOf t p base MAX_FILE = .ok (textAt t p) := by
  obtain ⟨text, hget, hsize⟩ := h
  have htext : textAt t p = text := by simp [textAt, hget]
  rw [htext, readFileOf_eq_ok_iff hbase]
  exact ⟨hget, hsize⟩

theorem length_rows_set {k v : String} :
    (out.set k v).rows.length ≤ out.rows.length + 1 := by
  unfold OrderedMap.set
  cases hinsert : out.insert? (k, v) with
  | some m => simp [Table.rows_of_insert? hinsert]
  | none => simp

/-! ### Below one directory -/

theorem outcome_readEntries {entries : List (Path × Kind)}
    (hread : ∀ e ∈ entries, e.2 = .file → MayRead t (dir ++ top :: e.1))
    (hfew : out.rows.length + (entries.filter fun e => e.2 = .file).length ≤ MAX_FILES) :
    outcome t order (readEntries dir dir top entries out) =
      .ok (readAll t dir out (((entries.filter fun e => e.2 = .file).map Prod.fst).map (top :: ·))) := by
  induction entries generalizing out with
  | nil => rfl
  | cons entry entries ih =>
    obtain ⟨rel, kind⟩ := entry
    obtain ⟨hrel, hread⟩ := List.forall_mem_cons.mp hread
    -- directories are passed over
    by_cases hkind : kind = .file
    · -- there is room for one more file
      have hlt : out.rows.length < MAX_FILES := by
        simp only [hkind, decide_true, List.filter_cons_of_pos, List.length_cons] at hfew
        omega
      have hfile := readFileOf_of_mayRead (hrel hkind) (List.prefix_append dir (top :: rel))
      rw [readEntries, if_pos hkind, if_neg (Nat.not_le.mpr hlt),
        outcome_bind (only_callOut (by trivial)), outcome_readFile, hfile]
      refine (ih hread ?_).trans ?_
      · have := @length_rows_set out (keyOf (top :: rel)) (textAt t (dir ++ top :: rel))
        simp only [hkind, decide_true, List.filter_cons_of_pos, List.length_cons] at hfew
        exact (Nat.add_le_add_right this _).trans (by omega)
      · simp [hkind, readAll, keyOf]
    · rw [readEntries, if_neg hkind]
      have hfilter : (((rel, kind) :: entries).filter fun e => e.2 = .file) =
          entries.filter fun e => e.2 = .file := List.filter_cons_of_neg (by simpa using hkind)
      rw [hfilter] at hfew ⊢
      exact ih hread hfew

theorem outcome_listTop : outcome t order (listTop dir top) =
    tryCatch
      (statOf t (dir ++ [top]) >>= fun kind =>
        if kind = .symlink then .error (.other "Symlink supporting directory rejected")
        else readdirOf t (dir ++ [top]) (.ok (order (dir ++ [top]))))
      fun e => if e = .system "ENOENT" then .ok [] else .error e := by
  have hbody : (do
      let kind ← callOut (.lstat (dir ++ [top]))
      if kind = Kind.symlink then failWith "Symlink supporting directory rejected"
      else callOut (.readdir (dir ++ [top]))).Only Op.Reads := by
    refine (only_callOut (by trivial)).bind fun kind => ?_
    split
    · exact only_failWith _
    · exact only_callOut (by trivial)
  rw [listTop, outcome_tryCatch hbody, outcome_bind (only_callOut (by trivial)), outcome_lstat]
  congr 1
  · congr 1
    funext kind
    split <;> rfl
  · funext e
    split <;> rfl

/-- A file in place of a directory cannot be listed. -/
theorem listTop_ne_ok {c : Leaf} {entries : List (Path × Kind)}
    (h : t.get (dir ++ [top]) = some (.file c)) :
    outcome t order (listTop dir top) ≠ .ok entries := by
  have hstat : statOf t (dir ++ [top]) = .ok (kindOf (.file c)) := by simp [statOf, h, orThrow]
  rw [outcome_listTop, readdirOf, hstat]
  cases c with
  | regular text => simp [kindOf, bind, Except.bind, tryCatch, tryCatchThe, MonadExceptOf.tryCatch,
      Except.tryCatch]
  | symlink target => simp [kindOf, bind, Except.bind, tryCatch, tryCatchThe,
      MonadExceptOf.tryCatch, Except.tryCatch]

/-- The files among the entries of a listing. -/
theorem map_filter_filterMap {α β : Type} [DecidableEq β] (l : List α) (g : α → Option β) (b : β) :
    ((l.filterMap fun a => (g a).map fun b => (a, b)).filter fun e => e.2 = b).map Prod.fst =
      l.filter fun a => g a = some b := by
  induction l with
  | nil => rfl
  | cons a l ih =>
    cases hg : g a with
    | none => simp [hg, ih]
    | some b' => by_cases hb : b' = b <;> simp [hg, hb, ih]

theorem exists_listTop (horder : Orders t order) (hnot : ∀ c, t.get (dir ++ [top]) ≠ some (.file c))
    (hempty : t.get (dir ++ [top]) = none → filesOf t order (dir ++ [top]) = []) :
    ∃ entries, outcome t order (listTop dir top) = .ok entries ∧
      (entries.filter fun e => e.2 = .file).map Prod.fst = filesOf t order (dir ++ [top]) := by
  cases hget : t.get (dir ++ [top]) with
  -- a directory that is not there is taken for an empty one
  | none =>
    refine ⟨[], ?_, (hempty hget).symm⟩
    rw [outcome_listTop]
    simp [statOf, hget, orThrow, bind, Except.bind, tryCatch, tryCatchThe, MonadExceptOf.tryCatch,
      Except.tryCatch]
  | some n =>
    cases n with
    | file c => exact absurd hget (hnot c)
    | dir =>
      have hstat : statOf t (dir ++ [top]) = .ok .dir := by simp [statOf, hget, orThrow, kindOf]
      have hlist : readdirOf t (dir ++ [top]) (.ok (order (dir ++ [top]))) =
          .ok ((order (dir ++ [top])).filterMap fun r =>
            ((t.get (dir ++ [top] ++ r)).map kindOf).map fun kind => (r, kind)) := by
        simp only [readdirOf, hstat, if_pos (horder (dir ++ [top])), Option.map_map]
        rfl
      refine ⟨_, ?_, map_filter_filterMap _ _ _⟩
      rw [outcome_listTop, hstat, hlist]
      rfl

/-! ### Below all of them -/

theorem length_rows_readAll (files : List Path) :
    (readAll t dir out files).rows.length ≤ out.rows.length + files.length := by
  induction files generalizing out with
  | nil => simp [readAll]
  | cons q files ih =>
    have hset := @length_rows_set out (keyOf q) (textAt t (dir ++ q))
    have hrest := @ih (out.set (keyOf q) (textAt t (dir ++ q)))
    rw [List.length_cons]
    exact hrest.trans ((Nat.add_le_add_right hset _).trans (by omega))

theorem outcome_readTops (horder : Orders t order)
    (htops : ∀ top ∈ tops, (∀ c, t.get (dir ++ [top]) ≠ some (.file c)) ∧
      (t.get (dir ++ [top]) = none → filesOf t order (dir ++ [top]) = []))
    (hread : ∀ q ∈ foundIn t order dir tops, MayRead t (dir ++ q))
    (hfew : out.rows.length + (foundIn t order dir tops).length ≤ MAX_FILES) :
    outcome t order (readTops dir dir tops out) =
      .ok (readAll t dir out (foundIn t order dir tops)) := by
  induction tops generalizing out with
  | nil => rfl
  | cons top tops ih =>
    obtain ⟨htop, htops⟩ := List.forall_mem_cons.mp htops
    obtain ⟨entries, hlist, hfiles⟩ := exists_listTop horder htop.1 htop.2
    have hfound : foundIn t order dir (top :: tops) =
        (filesOf t order (dir ++ [top])).map (top :: ·) ++ foundIn t order dir tops := rfl
    rw [hfound] at hread hfew
    rw [List.length_append, List.length_map, ← hfiles, List.length_map] at hfew
    have hentries : outcome t order (readEntries dir dir top entries out) =
        .ok (readAll t dir out ((filesOf t order (dir ++ [top])).map (top :: ·))) := by
      rw [← hfiles]
      refine outcome_readEntries (fun e he hkind => hread _ (List.mem_append_left _ ?_)) (by omega)
      rw [← hfiles]
      exact List.mem_map_of_mem (List.mem_map_of_mem (List.mem_filter.mpr ⟨he, by simp [hkind]⟩))
    rw [readTops, outcome_bind (only_listTop dir top), hlist]
    refine (outcome_bind (only_readEntries dir dir top entries out)).trans ?_
    rw [hentries]
    refine (ih htops (fun q hq => hread q (List.mem_append_right _ hq)) ?_).trans ?_
    · have := @length_rows_readAll t dir out ((filesOf t order (dir ++ [top])).map (top :: ·))
      rw [List.length_map, ← hfiles, List.length_map] at this
      rw [hfiles] at this
      omega
    · rw [hfound, readAll, readAll, readAll, List.foldl_append]

/-- Nothing is read if one of the directories is a file. -/
theorem not_file_of_readTops (h : outcome t order (readTops dir dir tops out) = .ok out') :
    ∀ top ∈ tops, ∀ c, t.get (dir ++ [top]) ≠ some (.file c) := by
  induction tops generalizing out with
  | nil => simp
  | cons top tops ih =>
    rw [readTops, outcome_bind (only_listTop dir top), bind_eq_ok] at h
    obtain ⟨entries, hlist, hrest⟩ := h
    rw [outcome_bind (only_readEntries dir dir top entries out), bind_eq_ok] at hrest
    obtain ⟨out₁, -, hrest⟩ := hrest
    exact List.forall_mem_cons.mpr ⟨fun c hfile => listTop_ne_ok hfile hlist, ih hrest⟩

end AriOs.Cognition.Skills
