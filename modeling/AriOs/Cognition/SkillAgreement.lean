import AriOs.Cognition.SkillFiles
import AriOs.Cognition.SkillWrites
import AriOs.Js.Joined
import AriOs.Storage.StableSort

/-!
# What is written of a skill and what is read

A path is checked part by part, written as it was given, and hashed in POSIX form. These agree
unless a path has a backslash, or is one of the supporting directories itself; and the checksum
depends on the order of files whose paths compare equal, which a directory need not keep.
-/

namespace AriOs.Cognition.Skills

open AriOs.Async AriOs.Js AriOs.Storage
open scoped List

variable {host : Host} {t : Files} {order : Path → List Path} {root : Path} {name text : String}
  {files : List (String × String)} {item : Item}

/-! ### The files of a skill -/

/-- The directory below which a supporting file is. -/
def top (path : String) : String := (parts path).headD ""

theorem safeRelative_eq_ok {path : String} {rel : List String} (h : safeRelative path = .ok rel) :
    rel = parts path ∧ Char.ofNat 0 ∉ path.toList := by
  simp only [safeRelative, bind_eq_ok, throwIf_eq_ok, exists_const, Except.ok.injEq,
    not_or] at h
  exact ⟨h.2.2.symm, h.1.2.2⟩

theorem checkFile_eq_ok {f : String × String} (h : checkFile f = .ok ()) :
    safeRelative f.1 = .ok (parts f.1) ∧ top f.1 ∈ SUPPORT ∧ f.2.utf8ByteSize ≤ MAX_FILE ∧
      Char.ofNat 0 ∉ f.1.toList := by
  obtain ⟨rel, hrel, hchecked⟩ := bind_eq_ok.mp h
  obtain ⟨rfl, hnul⟩ := safeRelative_eq_ok hrel
  rw [throwIf_eq_ok, not_or, not_not, Nat.not_lt] at hchecked
  exact ⟨hrel, hchecked.1, hchecked.2, hnul⟩

/-- What is hashed of a skill is its manifest and its files in order. -/
theorem digest_eq {support : OrderedMap String String} : digest host text support =
    host.sha256 ("SKILL.md\x00" ++
      payload text (support.rows.insertionSort fun a b => host.localeLe a.1 b.1 = true)) := by
  rw [← payload_append]
  rfl

theorem cons_ne_nil_of_length {l : List String} (h : 2 ≤ l.length) :
    ∃ a r, l = a :: r ∧ r ≠ [] := by
  match l, h with
  | a :: b :: r, _ => exact ⟨a, b :: r, rfl, by simp⟩

theorem joined_manifest : joined "SKILL.md" = ["SKILL.md"] := by decide

theorem manifest_not_mem : "SKILL.md" ∉ SUPPORT := by decide

theorem parts_of_mem_SUPPORT {path : String} (h : path ∈ SUPPORT) : parts path = [path] := by
  revert path
  decide

theorem not_backslash_of_mem_SUPPORT {path : String} (h : path ∈ SUPPORT) :
    '\\' ∉ path.toList := by
  revert path
  decide

namespace Written

/-- A file that is at a path below one of the supporting directories is one that was written. -/
theorem mem_of_file (h : Written host root name text files t item) {q : Path} {c : Leaf}
    (hq : q.headD "" ∈ SUPPORT) (hget : t.get (root ++ [name] ++ q) = some (.file c)) :
    ∃ f ∈ files, q = joined f.1 ∧ c = .regular f.2 := by
  obtain ⟨f, hf, hjoined, hc⟩ := h.holds.only q c hget
  rcases List.mem_cons.mp hf with rfl | hf
  · rw [hjoined, joined_manifest] at hq
    exact absurd hq manifest_not_mem
  · exact ⟨f, hf, hjoined, hc⟩

theorem nodup (h : Written host root name text files t item) : (files.map Prod.fst).Nodup :=
  (List.nodup_cons.mp h.holds.nodup).2

/-- A path has one text. -/
theorem eq_of_mem (h : Written host root name text files t item) {path value value' : String}
    (hvalue : (path, value) ∈ files) (hvalue' : (path, value') ∈ files) : value = value' :=
  (Prod.mk.inj (List.inj_on_of_nodup_map h.nodup hvalue hvalue' rfl)).2

theorem get_file (h : Written host root name text files t item) {f : String × String}
    (hf : f ∈ files) : t.get (root ++ [name] ++ joined f.1) = some (.file (.regular f.2)) :=
  h.holds.file f (List.mem_cons_of_mem _ hf)

/-- The files that are found are those that were written below one of the directories. -/
theorem mem_found (h : Written host root name text files t item) (horder : Orders t order)
    {q : Path} : q ∈ found t order (root ++ [name]) ↔
      ∃ f ∈ files, q = joined f.1 ∧ q.headD "" ∈ SUPPORT ∧ 2 ≤ q.length := by
  simp only [found, foundIn, filesOf, List.mem_flatMap, List.mem_map, List.mem_filter,
    decide_eq_true_eq]
  constructor
  · rintro ⟨first, hfirst, r, ⟨hr, hkind⟩, rfl⟩
    obtain ⟨n, hn, hfile⟩ := Option.map_eq_some_iff.mp hkind
    have hne : r ≠ [] := ((horder _).2.1 r hr).1
    have hlength : 2 ≤ (first :: r).length := by
      rw [List.length_cons]
      exact Nat.succ_le_succ (List.length_pos_of_ne_nil hne)
    rw [List.append_assoc, List.singleton_append] at hn
    cases n with
    -- what is listed as a file is none of the directories
    | dir => simp [kindOf] at hfile
    | file c =>
      obtain ⟨f, hf, hjoined, -⟩ := h.mem_of_file (q := first :: r) hfirst hn
      exact ⟨f, hf, hjoined, hfirst, hlength⟩
  · rintro ⟨f, hf, hjoined, hsupport, hlength⟩
    obtain ⟨first, r, rfl, hne⟩ := cons_ne_nil_of_length hlength
    have hget : t.get (root ++ [name] ++ [first] ++ r) = some (.file (.regular f.2)) := by
      rw [List.append_assoc, List.singleton_append, hjoined]
      exact h.get_file hf
    refine ⟨first, hsupport, r, ⟨?_, by rw [hget]; rfl⟩, rfl⟩
    -- a file that was written is among those that are listed
    have hkey : root ++ [name] ++ [first] ++ r ∈ t.keys := (t.mem_keys _).mpr (by rw [hget]; rfl)
    have := (horder (root ++ [name] ++ [first])).2.2 _ hkey (List.prefix_append _ _) (by simpa using hne)
    rwa [List.drop_left] at this

theorem nodup_found (horder : Orders t order) {dir : Path} : (found t order dir).Nodup := by
  have htops : SUPPORT.Nodup := by decide
  refine List.nodup_flatMap.mpr ⟨fun first _ => ?_, htops.imp fun hne => ?_⟩
  · exact (List.Nodup.filter _ (horder _).1).map (List.cons_injective)
  · intro q hq hq'
    obtain ⟨r, -, rfl⟩ := List.mem_map.mp hq
    obtain ⟨r', -, heq⟩ := List.mem_map.mp hq'
    exact hne (List.cons.inj heq).1.symm

/-- No more files are found than were written. -/
theorem length_found_le (h : Written host root name text files t item) (horder : Orders t order) :
    (found t order (root ++ [name])).length ≤ MAX_FILES := by
  have hsub : found t order (root ++ [name]) ⊆ files.map fun f => joined f.1 := by
    intro q hq
    obtain ⟨f, hf, rfl, -⟩ := (h.mem_found horder).mp hq
    exact List.mem_map_of_mem hf
  have hle := ((nodup_found horder).subperm hsub).length_le
  rw [List.length_map] at hle
  exact hle.trans h.few

theorem mayRead_found (h : Written host root name text files t item) (horder : Orders t order)
    {q : Path} (hq : q ∈ found t order (root ++ [name])) : MayRead t (root ++ [name] ++ q) := by
  obtain ⟨f, hf, rfl, -⟩ := (h.mem_found horder).mp hq
  exact ⟨f.2, h.get_file hf, (checkFile_eq_ok (h.checked f hf)).2.2.1⟩

/-- Below a directory that is not there, there are no files. -/
theorem filesOf_eq_nil (h : Written host root name text files t item) {first : String}
    (hfirst : first ∈ SUPPORT) (hnone : t.get (root ++ [name] ++ [first]) = none) :
    filesOf t order (root ++ [name] ++ [first]) = [] := by
  refine List.filter_eq_nil_iff.mpr fun r _ hkind => ?_
  obtain ⟨n, hn, hfile⟩ := Option.map_eq_some_iff.mp (of_decide_eq_true hkind)
  cases n with
  | dir => simp [kindOf] at hfile
  | file c =>
    rw [List.append_assoc, List.singleton_append] at hn
    obtain ⟨f, hf, hjoined, -⟩ := h.mem_of_file (q := first :: r) hfirst hn
    -- the directory was made for the file
    have hne : r ≠ [] := by
      rintro rfl
      rw [hnone] at hn
      exact absurd hn (by simp)
    have hleft : [first] <+: (joined f.1).dropLast := by
      rw [← hjoined, List.dropLast_cons_of_ne_nil hne]
      exact List.prefix_append [first] _
    have := h.holds.between f (List.mem_cons_of_mem _ hf) [first] hleft
    rw [hnone] at this
    exact absurd this (by simp)

/-- The files are read if none of the directories is a file. -/
theorem outcome_supportFiles (h : Written host root name text files t item)
    (horder : Orders t order)
    (hfiles : ∀ first ∈ SUPPORT, ∀ c, t.get (root ++ [name] ++ [first]) ≠ some (.file c)) :
    outcome t order (supportFiles (root ++ [name]) (root ++ [name])) =
      .ok (readAll t (root ++ [name]) Table.empty (found t order (root ++ [name]))) := by
  refine outcome_readTops horder (fun first hfirst => ⟨hfiles first hfirst, h.filesOf_eq_nil hfirst⟩)
    (fun q hq => h.mayRead_found horder hq) ?_
  have := h.length_found_le horder
  simpa [found] using this

/-! ### The skill is loaded -/

theorem outcome_loadEntry (h : Written host root name text files t item)
    (hparse : ∀ text name, host.parse text = .ok name → text.utf8ByteSize ≤ MAX_MANIFEST) :
    outcome t order (loadEntry host root name) =
      outcome t order (supportFiles (root ++ [name]) (root ++ [name])) >>= fun support =>
        .ok (some { dir := root ++ [name], text, support, digest := digest host text support }) := by
  have hdir : statOf t (root ++ [name]) = .ok .dir := statOf_eq (by simp) h.holds.isDir
  have hreal : realpathOf t (root ++ [name]) = .ok (root ++ [name]) := by
    simp [realpathOf, hdir, h.holds.isDir]
  have hfile : t.get (root ++ [name] ++ ["SKILL.md"]) = some (.file (.regular text)) := by
    have := h.holds.file ("SKILL.md", text) List.mem_cons_self
    rwa [joined_manifest] at this
  -- each call of the entry has its answer in what was written
  have hmanifest : outcome t order (hasManifest (root ++ [name])) = .ok true := by
    have hstat : statOf t (root ++ [name] ++ ["SKILL.md"]) = .ok .file := statOf_eq (by simp) hfile
    have hbody : (do
        let kind ← callOut (.lstat (root ++ [name] ++ ["SKILL.md"]))
        if kind = Kind.symlink then failWith "Symlink manifest rejected"
        else pure true).Only Op.Reads := by
      refine (only_callOut (by trivial)).bind fun kind => ?_
      split
      · exact only_failWith _
      · exact Routine.only_pure _
    rw [hasManifest, outcome_tryCatch hbody, outcome_bind (only_callOut (by trivial)),
      outcome_lstat,
      hstat]
    rfl
  have hread : readFileOf t (root ++ [name] ++ ["SKILL.md"]) (root ++ [name]) MAX_MANIFEST =
      .ok text :=
    (readFileOf_eq_ok_iff (List.prefix_append _ _)).mpr ⟨hfile, hparse text name h.parsed⟩
  -- call by call
  rw [loadEntry, outcome_bind (only_callOut (by trivial)), outcome_lstat, hdir]
  change outcome t order (_ >>= _) = _
  rw [outcome_bind (only_callOut (by trivial)), outcome_realpath, hreal]
  change outcome t order (_ >>= _) = _
  rw [outcome_bind (only_hasManifest _), hmanifest]
  change outcome t order (_ >>= _) = _
  rw [outcome_bind (only_callOut (by trivial)), outcome_readFile, hread]
  change outcome t order (_ >>= _) = _
  rw [outcome_bind (Routine.only_ofExcept _), outcome_ofExcept, h.parsed]
  change outcome t order (if name ≠ name then _ else _) = _
  rw [if_neg (not_not.mpr rfl), outcome_bind (only_supportFiles _ _)]
  rfl

theorem provided_eq (h : Written host root name text files t item) :
    provided host t order root name = outcome t order (loadEntry host root name) := by
  rw [provided, if_pos ⟨h.skill, h.isDir, h.holds.isDir⟩]

/-- The skill is found exactly if the others can be loaded and its files are read. -/
theorem find_eq_ok_iff (h : Written host root name text files t item) (horder : Orders t order)
    (hparse : ∀ text name, host.parse text = .ok name → text.utf8ByteSize ≤ MAX_MANIFEST)
    {before after : List Path} (hbefore : ∀ r ∈ before, t.get (r ++ [name]) ≠ some .dir)
    {loaded : Item} :
    outcome t order (find host (before ++ root :: after) name) = .ok loaded ↔
      OthersLoad host t order (before ++ root :: after) root name ∧
        ∃ support, outcome t order (supportFiles (root ++ [name]) (root ++ [name])) = .ok support ∧
          loaded = ⟨root ++ [name], text, support, digest host text support⟩ := by
  have hentry : provided host t order root name = _ :=
    h.provided_eq.trans (h.outcome_loadEntry hparse)
  have hthere : provided host t order root name ≠ .ok none := by
    rw [hentry]
    simp
  have hfree : Free host t order before name := by
    intro r hr item
    rw [provided, if_neg fun hdir => hbefore r hr hdir.2.2]
    simp
  rw [Skills.find_eq_ok_iff horder h.skill hfree hthere, hentry]
  simp only [bind_eq_ok, Except.ok.injEq, Option.some.injEq, @eq_comm _ loaded]

end Written

/-! ### The keys of the files -/

section Keys

variable {α : Type} {l : List α} {key : α → String} {value : α → String} {k v : String}

/-- Files that are set under their keys, in any order and with repetitions. -/
theorem get_keyed_iff (hnodup : (files.map Prod.fst).Nodup)
    (hposix : ∀ f ∈ files, (posixKey f.1, f.2) ∈ files)
    (hfiles : ∀ a ∈ l, ∃ f ∈ files, key a = posixKey f.1 ∧ value a = f.2)
    (hall : ∀ f ∈ files, posixKey f.1 = f.1 → ∃ a ∈ l, key a = f.1) :
    (l.foldl (fun m a => OrderedMap.set m (key a) (value a)) Table.empty).get k = some v ↔
      (k, v) ∈ files ∧ posixKey k = k := by
  -- a path has one text
  have hone : ∀ v v', (k, v) ∈ files → (k, v') ∈ files → v = v' := fun v v' hv hv' =>
    (Prod.mk.inj (List.inj_on_of_nodup_map hnodup hv hv' rfl)).2
  have hvalue : ∀ a ∈ l, key a = k → (k, value a) ∈ files ∧ posixKey k = k := by
    intro a ha hkey
    obtain ⟨f, hf, hfkey, hfvalue⟩ := hfiles a ha
    rw [← hkey, hfkey, hfvalue]
    exact ⟨hposix f hf, posixKey_posixKey⟩
  -- the last entry with the key decides, and all with the key agree
  by_cases hkey : ∃ a ∈ l, key a = k
  · obtain ⟨a, ha, hak⟩ := hkey
    have hget := OrderedMap.get_foldl_set_of_mem (m := Table.empty) ⟨a, ha, hak⟩ fun b hb hbk =>
      hone _ _ (hvalue b hb hbk).1 (hvalue a ha hak).1
    rw [hget, Option.some.injEq]
    constructor
    · rintro rfl
      exact hvalue a ha hak
    · exact fun hv => hone _ _ (hvalue a ha hak).1 hv.1
  · rw [OrderedMap.get_foldl_set_of_forall_ne fun a ha hak => hkey ⟨a, ha, hak⟩]
    constructor
    · intro h
      exact absurd h (by simp)
    · rintro ⟨hmem, hself⟩
      obtain ⟨a, ha, hak⟩ := hall (k, v) hmem hself
      exact absurd ⟨a, ha, hak⟩ hkey

theorem get_posixKeyed (hnodup : (files.map Prod.fst).Nodup)
    (hposix : ∀ f ∈ files, (posixKey f.1, f.2) ∈ files) :
    (posixKeyed files).get k = some v ↔ (k, v) ∈ files ∧ posixKey k = k :=
  get_keyed_iff hnodup hposix (fun f hf => ⟨f, hf, rfl, rfl⟩) fun f hf hself => ⟨f, hf, hself⟩

end Keys

/-! ### The order of the files -/

/-- What stands in a list of pieces is decided by the pieces. -/
theorem payload_injective {l l' : List (String × String)} (hlength : l.length = l'.length)
    (hnul : ∀ f ∈ l, Char.ofNat 0 ∉ f.1.toList) (hnul' : ∀ f ∈ l', Char.ofNat 0 ∉ f.1.toList)
    (hsame : ∀ f ∈ l, ∀ f' ∈ l', f.1 = f'.1 → f.2 = f'.2) (h : payload text l = payload text l') :
    l = l' := by
  induction l generalizing l' text with
  | nil => exact (List.length_eq_zero_iff.mp hlength.symm).symm
  | cons f l ih =>
    cases l' with
    | nil => simp at hlength
    | cons f' l' =>
      obtain ⟨hf, hnul⟩ := List.forall_mem_cons.mp hnul
      obtain ⟨hf', hnul'⟩ := List.forall_mem_cons.mp hnul'
      -- the paths end at the first separator
      have hsplit : f.1.toList ++ Char.ofNat 0 :: (payload f.2 l).toList =
          f'.1.toList ++ Char.ofNat 0 :: (payload f'.2 l').toList := by
        have := congrArg String.toList h
        rw [payload_cons, payload_cons] at this
        simpa [String.toList_append] using this
      obtain ⟨hpath, hrest⟩ : f.1.toList = f'.1.toList ∧
          (payload f.2 l).toList = (payload f'.2 l').toList := by
        rcases append_cons_eq_append_cons_iff.mp hsplit with h | ⟨r, h, -⟩ | ⟨r, h, -⟩
        · exact h
        · exact absurd (by simp [h]) hf'
        · exact absurd (by simp [h]) hf
      have hpath := String.toList_inj.mp hpath
      have hvalue := hsame f List.mem_cons_self f' List.mem_cons_self hpath
      have hrest : payload f.2 l = payload f.2 l' := by
        rw [hvalue] at hrest ⊢
        exact String.toList_inj.mp hrest
      have htail := ih (Nat.succ.inj hlength) hnul hnul'
        (fun g hg g' hg' => hsame g (List.mem_cons_of_mem _ hg) g' (List.mem_cons_of_mem _ hg')) hrest
      rw [htail, Prod.ext hpath hvalue]

theorem perm_of_get {m m' : OrderedMap String String}
    (h : ∀ k v, m.get k = some v ↔ m'.get k = some v) : m.rows.Perm m'.rows := by
  refine (List.perm_ext_iff_of_nodup m.nodup.of_map m'.nodup.of_map).mpr fun e => ?_
  rw [OrderedMap.mem_rows_iff_get, OrderedMap.mem_rows_iff_get, h]

/-- The place of the directory of a key. -/
def place (key : String) : Nat := SUPPORT.idxOf (top key)

/-- Files that compare equal stand in the order of their directories. -/
def Ordered (host : Host) (files : List (String × String)) : Prop :=
  ∀ f g, [f, g] <+ (posixKeyed files).rows → host.localeLe f.1 g.1 = true →
    host.localeLe g.1 f.1 = true → place f.1 < place g.1

namespace Written

theorem top_keyOf (h : Written host root name text files t item)
    (horder : Orders t order) {q : Path}
    (hq : q ∈ found t order (root ++ [name])) : top (keyOf q) = q.headD "" := by
  obtain ⟨f, hf, hjoined, hfirst, hlength⟩ := (h.mem_found horder).mp hq
  obtain ⟨first, r, rfl, -⟩ := cons_ne_nil_of_length hlength
  have hparts := headD_parts hjoined.symm (not_backslash_of_mem_SUPPORT hfirst)
  rw [top, keyOf, parts_posixKey, hjoined, intercalate_joined, hparts]
  exact (congrArg (List.headD · "") hjoined)

/-- The files that are loaded, under their keys. -/
theorem get_loaded (h : Written host root name text files t item) (horder : Orders t order)
    (hbelow : ∀ f ∈ files, 2 ≤ (parts f.1).length)
    (hposix : ∀ f ∈ files, (posixKey f.1, f.2) ∈ files) (k v : String) :
    (readAll t (root ++ [name]) Table.empty (found t order (root ++ [name]))).get k = some v ↔
      (k, v) ∈ files ∧ posixKey k = k := by
  refine get_keyed_iff h.nodup hposix (fun q hq => ?_) fun f hf hself => ?_
  · obtain ⟨f, hf, rfl, -⟩ := (h.mem_found horder).mp hq
    refine ⟨f, hf, by rw [keyOf, intercalate_joined], ?_⟩
    simp only [textAt, h.get_file hf]
  · have hjoined : joined f.1 = parts f.1 := by
      rw [← joined_posixKey, hself]
    refine ⟨joined f.1, (h.mem_found horder).mpr ⟨f, hf, rfl, ?_, ?_⟩, ?_⟩
    · rw [hjoined]
      exact (checkFile_eq_ok (h.checked f hf)).2.1
    · rw [hjoined]
      exact hbelow f hf
    · rw [keyOf, intercalate_joined, hself]

/-- The files that are loaded stand in the order of their directories, and below one directory in
the order in which it is listed. -/
theorem pairwise_loaded (h : Written host root name text files t item) (horder : Orders t order)
    {R : String → String → Prop}
    (hR : ∀ first, (order (root ++ [name] ++ [first])).Pairwise fun r r' =>
      R (keyOf (first :: r)) (keyOf (first :: r'))) :
    (readAll t (root ++ [name]) Table.empty (found t order (root ++ [name]))).rows.Pairwise
      fun a b => place a.1 < place b.1 ∨ place a.1 = place b.1 ∧ R a.1 b.1 := by
  -- a file stands at the place of the directory it was listed under
  have hplace : ∀ first ∈ SUPPORT, ∀ q ∈ (filesOf t order (root ++ [name] ++ [first])).map (first :: ·),
      place (keyOf q) = SUPPORT.idxOf first := by
    intro first hfirst q hq
    have hfound : q ∈ found t order (root ++ [name]) := List.mem_flatMap.mpr ⟨first, hfirst, hq⟩
    obtain ⟨r, -, rfl⟩ := List.mem_map.mp hq
    rw [place, h.top_keyOf horder hfound]
    rfl
  have hkeys : ((found t order (root ++ [name])).map keyOf).Pairwise fun k k' =>
      place k < place k' ∨ place k = place k' ∧ R k k' := by
    -- the directories are listed in their order
    have hSUPPORT : SUPPORT.Pairwise fun a b => SUPPORT.idxOf a < SUPPORT.idxOf b := by decide
    -- a key that comes twice keeps its first place
    refine List.pairwise_map.mpr (List.pairwise_flatMap.mpr ⟨fun first hfirst => ?_, ?_⟩)
    · refine List.pairwise_map.mpr (List.Pairwise.imp_of_mem ?_ ((hR first).filter _))
      intro r r' hr hr' hrr'
      have hr := hplace first hfirst _ (List.mem_map_of_mem hr)
      have hr' := hplace first hfirst _ (List.mem_map_of_mem hr')
      exact .inr ⟨hr.trans hr'.symm, hrr'⟩
    · refine List.Pairwise.imp_of_mem (fun {a b} ha hb hab q hq q' hq' => .inl ?_) hSUPPORT
      rw [hplace a ha q hq, hplace b hb q' hq']
      exact hab
  refine List.pairwise_map.mp (hkeys.sublist ?_)
  have := @OrderedMap.keys_foldl_set_sublist _ _ _ Table.empty _ keyOf
    (fun q => textAt t (root ++ [name] ++ q)) (found t order (root ++ [name]))
  rwa [Table.rows_empty, List.map_nil, List.nil_append] at this

/-- The checksums agree exactly if files that compare equal are loaded in the order in which they
were given. -/
theorem digest_loaded_eq_iff (h : Written host root name text files t item)
    (horder : Orders t order) (hinj : Function.Injective host.sha256)
    (htotal : ∀ a b, host.localeLe a b = true ∨ host.localeLe b a = true)
    (htrans : ∀ a b c, host.localeLe a b = true → host.localeLe b c = true →
      host.localeLe a c = true)
    (hbelow : ∀ f ∈ files, 2 ≤ (parts f.1).length)
    (hposix : ∀ f ∈ files, (posixKey f.1, f.2) ∈ files) {loaded : OrderedMap String String}
    (hloaded : loaded = readAll t (root ++ [name]) Table.empty (found t order (root ++ [name]))) :
    digest host text loaded = item.digest ↔
      ∀ f g, host.localeLe f.1 g.1 = true → host.localeLe g.1 f.1 = true →
        [f, g] <+ (posixKeyed files).rows → [f, g] <+ loaded.rows := by
  have hmem : ∀ f ∈ (posixKeyed files).rows, (f.1, f.2) ∈ files := fun f hf =>
    ((get_posixKeyed h.nodup hposix).mp (OrderedMap.mem_rows_iff_get.mp hf)).1
  have hperm : (posixKeyed files).rows.Perm loaded.rows := by
    refine perm_of_get fun k v => ?_
    rw [get_posixKeyed h.nodup hposix, hloaded, h.get_loaded horder hbelow hposix]
  have hsorted :=
    @insertionSort_eq_iff _ _ _ (fun a b : String × String => host.localeLe a.1 b.1 = true) _
    (fun a b => htotal a.1 b.1) (fun a b c => htrans a.1 b.1 c.1) hperm
    (posixKeyed files).nodup.of_map
  -- equal digests are of equal payloads, which name the files in sorted order
  rw [← hsorted, h.returned, writtenItem, digest_eq, digest_eq, eq_comm]
  constructor
  · intro hdigest
    have hpayload := (String.append_right_inj _).mp (hinj hdigest)
    have hwritten := List.perm_insertionSort (fun a b => host.localeLe a.1 b.1 = true)
      (posixKeyed files).rows
    have hread := List.perm_insertionSort (fun a b => host.localeLe a.1 b.1 = true) loaded.rows
    have hfiles : ∀ l : List (String × String), l.Perm (posixKeyed files).rows →
        ∀ f ∈ l, (f.1, f.2) ∈ files := fun l hl f hf => hmem f (hl.subset hf)
    have hnul : ∀ l : List (String × String), l.Perm (posixKeyed files).rows →
        ∀ f ∈ l, Char.ofNat 0 ∉ f.1.toList := fun l hl f hf =>
      (checkFile_eq_ok (h.checked _ (hfiles l hl f hf))).2.2.2
    have hread' := hread.trans hperm.symm
    refine payload_injective ?_ (hnul _ hwritten) (hnul _ hread') ?_ hpayload
    · exact (hwritten.trans hread'.symm).length_eq
    · intro f hf f' hf' heq
      have hf' := hfiles _ hread' f' hf'
      rw [← heq] at hf'
      exact h.eq_of_mem (hfiles _ hwritten f hf) hf'
  · intro heq
    rw [heq]

end Written

/-! ### What is written is read -/

/-- A skill is loaded with the checksum that was returned, and its files are read as they were
given, in whichever order directories are listed. -/
def ReadsBack (host : Host) (roots : List Path) (t : Files) (name : String)
    (files : List (String × String)) (item : Item) : Prop :=
  ∀ order, Orders t order →
    (∃ loaded, outcome t order (load host roots name none) = .ok loaded ∧
      loaded.digest = item.digest) ∧
    ∀ f ∈ files, outcome t order (loadFile host roots name f.1) = .ok f.2

/-- No file is in place of one of the directories, each is also at its path in POSIX form, and files
whose paths compare equal stand in the order of their directories. -/
structure Regular (host : Host) (files : List (String × String)) : Prop where
  below : ∀ f ∈ files, 2 ≤ (parts f.1).length
  posix : ∀ f ∈ files, (posixKey f.1, f.2) ∈ files
  ordered : Ordered host files

section ReadsBack

variable {before after : List Path}

theorem outcome_load {roots : List Path} {loaded : Item} :
    outcome t order (load host roots name none) = .ok loaded ↔
      outcome t order (find host roots name) = .ok loaded := by
  have hload : outcome t order (load host roots name none) =
      outcome t order (find host roots name) >>= fun item => .ok item := by
    rw [load, outcome_bind (only_find roots name)]
    rfl
  rw [hload]
  simp

/-- A file that is read below one of the directories. -/
theorem loadFile_eq_ok_iff (h : Written host root name text files t item) {roots : List Path}
    {path value : String} (hpath : safeRelative path = .ok (parts path)) (htop : top path ∈ SUPPORT)
    {found : Item} (hfind : outcome t order (find host roots name) = .ok found)
    (hdir : found.dir = root ++ [name]) :
    outcome t order (loadFile host roots name path) = .ok value ↔ (posixKey path, value) ∈ files := by
  have hreal : realpathOf t (root ++ [name]) = .ok (root ++ [name]) := by
    have hstat := statOf_eq (t := t) (p := root ++ [name]) (by simp) h.holds.isDir
    simp [realpathOf, hstat, kindOf, h.holds.isDir]
  -- the checks before the reading all pass
  have hload : outcome t order (loadFile host roots name path) =
      readFileOf t (root ++ [name] ++ parts path) (root ++ [name]) MAX_FILE := by
    rw [loadFile, outcome_bind (only_find roots name), hfind]
    change outcome t order (_ >>= _) = _
    rw [outcome_bind (Routine.only_ofExcept _), outcome_ofExcept, hpath]
    change outcome t order (if top path ∉ SUPPORT then _ else _) = _
    rw [if_neg (not_not.mpr htop), outcome_bind (only_callOut (by trivial)), outcome_realpath,
      hdir, hreal]
    rfl
  rw [hload, readFileOf_eq_ok_iff (List.prefix_append _ _)]
  constructor
  · rintro ⟨hget, -⟩
    -- what is there was written under this key
    obtain ⟨f, hf, hjoined, htext⟩ := h.mem_of_file htop hget
    have hkey : f.1 = posixKey path := by rw [posixKey, hjoined, intercalate_joined]
    obtain rfl := Leaf.regular.inj htext
    rw [← hkey]
    exact hf
  · intro hmem
    have hget := h.get_file hmem
    rw [joined_posixKey] at hget
    exact ⟨hget, (checkFile_eq_ok (h.checked _ hmem)).2.2.1⟩

/-! ### Orders of the listings -/

theorem Lists.perm {p : Path} {l l' : List Path} (h : Lists t p l) (hl : l.Perm l') :
    Lists t p l' :=
  ⟨hl.nodup_iff.mp h.1, fun r hr => h.2.1 r (hl.symm.subset hr),
    fun q hq hleft hne => hl.subset (h.2.2 q hq hleft hne)⟩

/-- Every tree can be listed. -/
theorem exists_orders (t : Files) : ∃ order, Orders t order := by
  refine ⟨fun p => (t.keys.toList.filter fun q => p <+: q ∧ q ≠ p).map (List.drop p.length),
    fun p => ⟨?_, fun r hr => ?_, fun q hq hleft hne => ?_⟩⟩
  · refine List.Nodup.map_on ?_ (List.Nodup.filter _ (Finset.nodup_toList _))
    intro q hq q' hq' heq
    obtain ⟨⟨r, rfl⟩, -⟩ := of_decide_eq_true (List.mem_filter.mp hq).2
    obtain ⟨⟨r', rfl⟩, -⟩ := of_decide_eq_true (List.mem_filter.mp hq').2
    rw [List.drop_left, List.drop_left] at heq
    rw [heq]
  · obtain ⟨q, hq, rfl⟩ := List.mem_map.mp hr
    obtain ⟨hkey, hbelow⟩ := List.mem_filter.mp hq
    obtain ⟨⟨r, rfl⟩, hne⟩ := of_decide_eq_true hbelow
    rw [List.drop_left]
    exact ⟨by simpa using hne, (t.mem_keys _).mp (Finset.mem_toList.mp hkey)⟩
  · refine List.mem_map_of_mem (List.mem_filter.mpr ⟨Finset.mem_toList.mpr hq, ?_⟩)
    exact decide_eq_true ⟨hleft, hne⟩

/-- The order in which a file is listed before the others of its directory. -/
def earlier (order : Path → List Path) (dir : Path) (key : String) (p : Path) : List Path :=
  (order p).filter (fun r => keyOf (p.drop dir.length ++ r) = key) ++
    (order p).filter fun r => !decide (keyOf (p.drop dir.length ++ r) = key)

theorem orders_earlier (horder : Orders t order) (dir : Path) (key : String) :
    Orders t (earlier order dir key) := fun p =>
  (horder p).perm (List.filter_append_perm _ _).symm

theorem pairwise_earlier (dir : Path) (key first : String) :
    (earlier order dir key (dir ++ [first])).Pairwise fun r r' =>
      keyOf (first :: r) = key ∨ keyOf (first :: r') ≠ key := by
  have hdrop : ∀ r, (dir ++ [first]).drop dir.length ++ r = first :: r := fun r => by
    rw [List.drop_left]
    rfl
  refine List.pairwise_append.mpr ⟨?_, ?_, ?_⟩
  · refine List.pairwise_of_forall_mem_list fun r hr _ _ => .inl ?_
    rw [← hdrop]
    exact of_decide_eq_true (List.mem_filter.mp hr).2
  · refine List.pairwise_of_forall_mem_list fun _ _ r hr => .inr ?_
    rw [← hdrop]
    simpa using (List.mem_filter.mp hr).2
  · intro r _ r' hr'
    refine .inr ?_
    rw [← hdrop]
    simpa using (List.mem_filter.mp hr').2

/-! ### The condition -/

theorem not_file_of_below (h : Written host root name text files t item)
    (hbelow : ∀ f ∈ files, 2 ≤ (parts f.1).length) :
    ∀ first ∈ SUPPORT, ∀ c, t.get (root ++ [name] ++ [first]) ≠ some (.file c) := by
  intro first hfirst c hget
  obtain ⟨f, hf, hjoined, -⟩ := h.mem_of_file (q := [first]) hfirst hget
  have hpath : f.1 = first := by
    rw [← @intercalate_joined f.1, ← hjoined]
    simp
  have hlength := hbelow f hf
  rw [hpath, parts_of_mem_SUPPORT hfirst] at hlength
  simp at hlength

theorem below_of_not_file (h : Written host root name text files t item)
    (hposix : ∀ f ∈ files, (posixKey f.1, f.2) ∈ files)
    (hfile : ∀ first ∈ SUPPORT, ∀ c, t.get (root ++ [name] ++ [first]) ≠ some (.file c)) :
    ∀ f ∈ files, 2 ≤ (parts f.1).length := by
  intro f hf
  by_contra hshort
  have htop := (checkFile_eq_ok (h.checked f hf)).2.1
  have hget := h.get_file (hposix f hf)
  rw [joined_posixKey] at hget
  cases hparts : parts f.1 with
  | nil => exact parts_ne_nil hparts
  | cons first rest =>
    have hnil : rest = [] := by
      rw [hparts, List.length_cons] at hshort
      exact List.length_eq_zero_iff.mp (by omega)
    rw [top, hparts] at htop
    rw [hparts, hnil] at hget
    exact hfile first htop _ hget

/-- A skill that was written is read back exactly if the others can be loaded and its files are
regular. -/
theorem readsBack_iff (h : Written host root name text files t item)
    (hparse : ∀ text name, host.parse text = .ok name → text.utf8ByteSize ≤ MAX_MANIFEST)
    (hinj : Function.Injective host.sha256)
    (htotal : ∀ a b, host.localeLe a b = true ∨ host.localeLe b a = true)
    (htrans : ∀ a b c, host.localeLe a b = true → host.localeLe b c = true →
      host.localeLe a c = true)
    (hbefore : ∀ r ∈ before, t.get (r ++ [name]) ≠ some .dir) :
    ReadsBack host (before ++ root :: after) t name files item ↔
      (∀ order, Orders t order → OthersLoad host t order (before ++ root :: after) root name) ∧
        Regular host files := by
  constructor
  · intro hreads
    have hfind : ∀ order, Orders t order → ∃ support,
        OthersLoad host t order (before ++ root :: after) root name ∧
        outcome t order (supportFiles (root ++ [name]) (root ++ [name])) = .ok support ∧
        outcome t order (find host (before ++ root :: after) name) =
          .ok ⟨root ++ [name], text, support, digest host text support⟩ ∧
        digest host text support = item.digest := by
      intro order horder
      obtain ⟨⟨loaded, hload, hdigest⟩, -⟩ := hreads order horder
      rw [outcome_load] at hload
      obtain ⟨hothers, support, hsupport, rfl⟩ :=
        (h.find_eq_ok_iff horder hparse hbefore).mp hload
      exact ⟨support, hothers, hsupport, hload, hdigest⟩
    obtain ⟨order, horder⟩ := exists_orders t
    obtain ⟨support, -, hsupport, hfound, -⟩ := hfind order horder
    have hfile := not_file_of_readTops hsupport
    have hposix : ∀ f ∈ files, (posixKey f.1, f.2) ∈ files := by
      intro f hf
      obtain ⟨hpath, htop, -⟩ := checkFile_eq_ok (h.checked f hf)
      exact (loadFile_eq_ok_iff h hpath htop hfound rfl).mp ((hreads order horder).2 f hf)
    have hbelow := below_of_not_file h hposix hfile
    refine ⟨fun order horder => (hfind order horder).choose_spec.1, hbelow, hposix, ?_⟩
    intro f g hpair hfg hgf
    -- the second file is listed first
    have horder' := orders_earlier horder (root ++ [name]) g.1
    obtain ⟨support', -, hsupport', -, hdigest⟩ := hfind _ horder'
    rw [h.outcome_supportFiles horder' hfile] at hsupport'
    have hloaded := (Except.ok.inj hsupport').symm
    have hsub := (h.digest_loaded_eq_iff horder' hinj htotal htrans hbelow hposix hloaded).mp
      hdigest f g hfg hgf hpair
    rw [hloaded] at hsub
    have hpairwise := h.pairwise_loaded horder' (R := fun k k' => k = g.1 ∨ k' ≠ g.1)
      (pairwise_earlier (root ++ [name]) g.1)
    rcases List.pairwise_iff_forall_sublist.mp hpairwise hsub with hplace | ⟨-, heq | hne⟩
    · exact hplace
    · have hkeys := (hpair.map Prod.fst).nodup (posixKeyed files).nodup
      exact absurd heq (by simpa using hkeys)
    · exact absurd rfl hne
  · rintro ⟨hothers, hregular⟩ order horder
    have hfile := not_file_of_below h hregular.below
    have hfound := (h.find_eq_ok_iff horder hparse hbefore).mpr
      ⟨hothers order horder, _, h.outcome_supportFiles horder hfile, rfl⟩
    refine ⟨⟨_, outcome_load.mpr hfound, ?_⟩, fun f hf => ?_⟩
    · refine (h.digest_loaded_eq_iff horder hinj htotal htrans hregular.below hregular.posix rfl).mpr
        fun f g hfg hgf hpair => ?_
      have hplace := hregular.ordered f g hpair hfg hgf
      have hperm := perm_of_get fun k v => (get_posixKeyed h.nodup hregular.posix).trans
        (h.get_loaded horder hregular.below hregular.posix k v).symm
      have hmem : ∀ e ∈ [f, g], e ∈ (readAll t (root ++ [name]) Table.empty
          (found t order (root ++ [name]))).rows := fun e he => hperm.subset (hpair.subset he)
      have hne : f ≠ g := by
        rintro rfl
        exact absurd hplace (lt_irrefl _)
      rcases pair_sublist_or (hmem f (by simp)) (hmem g (by simp)) hne with hsub | hsub
      · exact hsub
      · -- the directory of the first file is listed first
        have hpairwise := h.pairwise_loaded horder (R := fun _ _ => True)
          fun first => List.pairwise_of_forall fun _ _ => trivial
        have := List.pairwise_iff_forall_sublist.mp hpairwise hsub
        omega
    · obtain ⟨hpath, htop, -⟩ := checkFile_eq_ok (h.checked f hf)
      exact (loadFile_eq_ok_iff h hpath htop hfound rfl).mpr (hregular.posix f hf)

end ReadsBack

/-- A creation or an update that returned. -/
def Wrote (host : Host) (m : SkillManager) (name text : String) (files : List (String × String))
    (t t' : Files) (item : Item) : Prop :=
  (∃ l l', (m.create host name text files).Leads machine l t (.ok item) l' t') ∨
    ∃ expectedChecksum id l l',
      (m.update host ⟨name, text, expectedChecksum, files, id⟩).Leads machine l t (.ok item) l' t'

theorem Wrote.written {m : SkillManager} {t' : Files} (hrooted : Rooted t)
    (h : Wrote host m name text files t t' item) (hroot : m.controlledRoot = some root) :
    Written host root name text files t' item := by
  have hwritten : ∃ root, m.controlledRoot = some root ∧
      Written host root name text files t' item := by
    rcases h with ⟨l, l', hrun⟩ | ⟨expectedChecksum, id, l, l', hrun⟩
    · exact written_of_create hrooted hrun
    · exact written_of_update hrooted hrun
  obtain ⟨root', hroot', hwritten⟩ := hwritten
  rw [hroot] at hroot'
  rwa [Option.some.inj hroot']

/-- A creation or an update writes what a load reads, if its files are regular and the skills
beside it can be loaded. -/
theorem wrote_readsBack_iff {m : SkillManager} {t' : Files} {before after : List Path}
    (hparse : ∀ text name, host.parse text = .ok name → text.utf8ByteSize ≤ MAX_MANIFEST)
    (hinj : Function.Injective host.sha256)
    (htotal : ∀ a b, host.localeLe a b = true ∨ host.localeLe b a = true)
    (htrans : ∀ a b c, host.localeLe a b = true → host.localeLe b c = true →
      host.localeLe a c = true)
    (hrooted : Rooted t) (hwrote : Wrote host m name text files t t' item)
    (hroot : m.controlledRoot = some root)
    (hbefore : ∀ r ∈ before, t'.get (r ++ [name]) ≠ some .dir) :
    ReadsBack host (before ++ root :: after) t' name files item ↔
      (∀ order, Orders t' order → OthersLoad host t' order (before ++ root :: after) root name) ∧
        Regular host files :=
  readsBack_iff (hwrote.written hrooted hroot) hparse hinj htotal htrans hbefore

/-! ### A path with a backslash -/

section Sample

/-- A host whose manifests are limited in size. -/
def sizedHost : Host where
  parse text := if MAX_MANIFEST < text.utf8ByteSize then .error "Skill manifest exceeds size limit"
    else .ok "demo"
  sha256 s := s
  localeLe a b := a ≤ b

def emptyRoot : Files := FiniteMap.empty.set ["skills"] .dir

/-- The creation of a skill with some files. -/
def creation (files : List (String × String)) : (Except SkillError Item × Bool) × Nat × Files :=
  ((sampleManager.create sizedHost "demo" sampleText files).prog false).exec machine
    (fun _ => inOrder fun _ => []) 0 emptyRoot

theorem rooted_emptyRoot : Rooted emptyRoot := by
  intro p hp hnone q
  simp only [emptyRoot, FiniteMap.get_set] at hnone ⊢
  split at hnone
  · exact absurd hnone (by simp)
  · next hne =>
    rw [if_neg]
    · rfl
    · intro heq
      have hlength := congrArg List.length heq
      have hpos := List.length_pos_of_ne_nil hp
      rw [List.length_append, List.length_singleton] at hlength
      have hq : q = [] := List.length_eq_zero_iff.mp (by omega)
      rw [hq, List.append_nil] at heq
      exact hne heq

def backslashed : List (String × String) := [("references/a\\b", "x")]

def plainFile : List (String × String) := [("references/a", "x")]

theorem wrote_of_creation (files : List (String × String))
    (h : (creation files).1.1.isOk = true) :
    ∃ item, Wrote sizedHost sampleManager "demo" sampleText files emptyRoot (creation files).2.2
      item := by
  cases hresult : (creation files).1.1 with
  | error e => simp [hresult, Except.isOk, Except.toBool] at h
  | ok item =>
    refine ⟨item, .inl ⟨false, (creation files).1.2, fun _ => inOrder fun _ => [], 0,
      (creation files).2.1, ?_⟩⟩
    rw [← hresult]
    rfl

theorem sizedHost_parse (text name : String) (h : sizedHost.parse text = .ok name) :
    text.utf8ByteSize ≤ MAX_MANIFEST := by
  simp only [sizedHost] at h
  split at h
  · exact absurd h (by simp)
  · next hsize => exact Nat.not_lt.mp hsize

theorem sizedHost_total (a b : String) :
    sizedHost.localeLe a b = true ∨ sizedHost.localeLe b a = true := by
  simpa [sizedHost] using String.le_total a b

theorem sizedHost_trans (a b c : String) (hab : sizedHost.localeLe a b = true)
    (hbc : sizedHost.localeLe b c = true) : sizedHost.localeLe a c = true := by
  simp only [sizedHost, decide_eq_true_eq] at hab hbc ⊢
  exact String.le_trans hab hbc

/-- The file is written at a path with a backslash and read at one with a slash. -/
theorem backslashed_unread : ∃ item,
    Wrote sizedHost sampleManager "demo" sampleText backslashed emptyRoot (creation backslashed).2.2
      item ∧
    ¬ ReadsBack sizedHost [["skills"]] (creation backslashed).2.2 "demo" backslashed item := by
  obtain ⟨item, hwrote⟩ := wrote_of_creation backslashed (by decide +kernel)
  refine ⟨item, hwrote, fun hreads => ?_⟩
  have hregular := ((@readsBack_iff _ _ _ _ _ _ _ [] []
    (hwrote.written rooted_emptyRoot rfl) sizedHost_parse (fun _ _ h => h) sizedHost_total
    sizedHost_trans (by simp)).mp hreads).2
  have hposix := hregular.posix ("references/a\\b", "x") (by simp [backslashed])
  exact absurd hposix (by decide)

theorem regular_plainFile : Regular sizedHost plainFile where
  below := by decide
  posix := by decide
  ordered f g hpair := by
    have hrows : (posixKeyed plainFile).rows = [("references/a", "x")] := by decide
    rw [hrows] at hpair
    exact absurd hpair.length_le (by simp)

theorem othersLoad_plainFile {order : Path → List Path} :
    OthersLoad sizedHost (creation plainFile).2.2 order [["skills"]] ["skills"] "demo" := by
  have hkeys : ∀ q ∈ (creation plainFile).2.2.keys, q.length = 2 → q = ["skills", "demo"] := by
    decide +kernel
  intro before r after heq
  have hr : r = ["skills"] := by
    have : r ∈ [["skills"]] := by rw [heq]; simp
    simpa using this
  subst hr
  refine ⟨.inl (.inr (by decide +kernel)), fun other hother _ => ⟨none, ?_⟩⟩
  rw [provided, if_neg]
  rintro ⟨-, -, hdir⟩
  have hkey := hkeys _ (((creation plainFile).2.2.mem_keys _).mpr (by rw [hdir]; rfl)) rfl
  obtain rfl : other = "demo" := by simpa using hkey
  exact hother rfl

/-- A skill with one file. -/
theorem plainFile_readsBack : ∃ item,
    Wrote sizedHost sampleManager "demo" sampleText plainFile emptyRoot (creation plainFile).2.2
      item ∧
    ReadsBack sizedHost [["skills"]] (creation plainFile).2.2 "demo" plainFile item := by
  obtain ⟨item, hwrote⟩ := wrote_of_creation plainFile (by decide +kernel)
  refine ⟨item, hwrote, ?_⟩
  exact (@wrote_readsBack_iff _ _ _ _ _ _ _ _ _ [] [] sizedHost_parse (fun _ _ h => h)
    sizedHost_total sizedHost_trans rooted_emptyRoot hwrote rfl (by simp)).mpr
    ⟨fun _ _ => othersLoad_plainFile, regular_plainFile⟩

end Sample

end AriOs.Cognition.Skills
