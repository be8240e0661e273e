import AriOs.Cognition.SkillWrites
import AriOs.Storage.StableSort

/-!
# What is read of the roots

A skill is found by loading all of those that no earlier root provides. The supporting files of one
are read directory by directory, in the order of the listings.

## Main results

* `outcome_selectRoots_iff`, `get_of_selectRoots` — the skills that are found
* `outcome_supportFiles` — the supporting files that are read
-/

namespace AriOs.Cognition.Skills

open AriOs.Async AriOs.Js AriOs.Storage
open scoped List

/-! ### What the calls come to -/

section Outcome

variable {host : Host} {t : Files} {order : Path → List Path} {α β : Type}

theorem outcome_bind {x : Body α} {f : α → Body β} (hx : x.Only Op.Reads) :
    outcome t order (x >>= f) = outcome t order x >>= fun a => outcome t order (f a) :=
  Routine.outcome_bind hx fun _ ho => handle_of_reads ho _

theorem outcome_tryCatch {x : Body α} {onError : SkillError → Body α} (hx : x.Only Op.Reads) :
    outcome t order (tryCatch x onError) =
      tryCatch (outcome t order x) fun e => outcome t order (onError e) :=
  Routine.outcome_tryCatch hx fun _ ho => handle_of_reads ho _

@[simp] theorem outcome_pure {a : α} : outcome t order (pure a) = .ok a := rfl

@[simp] theorem outcome_throw {e : SkillError} : outcome t order (throw e : Body α) = .error e := rfl

@[simp] theorem outcome_failWith {message : String} :
    outcome t order (failWith message : Body α) = .error (.other message) := rfl

@[simp] theorem outcome_ofExcept {x : Except SkillError α} :
    outcome t order (Routine.ofExcept x) = x := rfl

@[simp] theorem outcome_lstat {p : Path} : outcome t order (callOut (.lstat p)) = statOf t p := rfl

@[simp] theorem outcome_realpath {p : Path} :
    outcome t order (callOut (.realpath p)) = realpathOf t p := rfl

@[simp] theorem outcome_readFile {p base : Path} {max : Nat} :
    outcome t order (callOut (.readFile p base max)) = readFileOf t p base max := rfl

@[simp] theorem outcome_readdir {p : Path} :
    outcome t order (callOut (.readdir p)) = readdirOf t p (.ok (order p)) := rfl

end Outcome

/-! ### The skills of a root -/

section Root

variable {host : Host} {t : Files} {order : Path → List Path} {root : Path} {name : String}
  {entries : List (String × Kind)} {out out' : OrderedMap String Item}

/-- What a root provides under a name. -/
def provided (host : Host) (t : Files) (order : Path → List Path) (root : Path) (name : String) :
    Except SkillError (Option Item) :=
  if skillName name = true ∧ t.IsDir root ∧ t.get (root ++ [name]) = some .dir then
    outcome t order (loadEntry host root name)
  else .ok none

/-- The entries of a root. -/
def entriesOf (t : Files) (order : Path → List Path) (root : Path) : List (String × Kind) :=
  ((order root).filterMap fun p => (t.get (root ++ p)).map fun n => (p, kindOf n)).filterMap fun e =>
    match e.1 with
    | [name] => some (name, e.2)
    | _ => none

theorem mem_entriesOf {kind : Kind} : (name, kind) ∈ entriesOf t order root ↔
    [name] ∈ order root ∧ (t.get (root ++ [name])).map kindOf = some kind := by
  simp only [entriesOf, List.mem_filterMap]
  constructor
  · rintro ⟨⟨p, k⟩, ⟨q, hq, hnode⟩, heq⟩
    obtain ⟨n, hn, hpair⟩ := Option.map_eq_some_iff.mp hnode
    obtain ⟨rfl, rfl⟩ := Prod.mk.inj hpair
    split at heq
    · next single hsingle =>
      obtain ⟨rfl, rfl⟩ := Prod.mk.inj (Option.some.inj heq)
      obtain rfl : q = [single] := hsingle
      exact ⟨hq, by rw [hn]; rfl⟩
    · exact absurd heq (by simp)
  · rintro ⟨hmem, hkind⟩
    obtain ⟨n, hn, rfl⟩ := Option.map_eq_some_iff.mp hkind
    exact ⟨([name], kindOf n), ⟨[name], hmem, by rw [hn]; rfl⟩, rfl⟩

theorem kindOf_eq_dir_iff {n : Node Leaf} : kindOf n = .dir ↔ n = .dir := by
  cases n with
  | dir => simp [kindOf]
  | file c => cases c <;> simp [kindOf]

/-- A root can be listed if it is a directory or not there. -/
def Listable (t : Files) (root : Path) : Prop := t.IsDir root ∨ t.get root = none

theorem outcome_listRoot_of_dir (horder : Orders t order) (hdir : statOf t root = .ok .dir) :
    outcome t order (listRoot root) = .ok (entriesOf t order root) := by
  have hlist : readdirOf t root (.ok (order root)) =
      .ok ((order root).filterMap fun p => (t.get (root ++ p)).map fun n => (p, kindOf n)) := by
    simp only [readdirOf, hdir, if_pos (horder root)]
  unfold listRoot
  rw [outcome_tryCatch ((only_callOut (by trivial)).bind fun _ => Routine.only_pure _),
    outcome_bind (only_callOut (by trivial)), outcome_readdir, hlist]
  rfl

theorem outcome_listRoot_of_error {e : SkillError} (hstat : statOf t root = .error e) :
    outcome t order (listRoot root) = if e = .system "ENOENT" then .ok [] else .error e := by
  have hlist : readdirOf t root (.ok (order root)) = .error e := by
    simp only [readdirOf, hstat]
  unfold listRoot
  rw [outcome_tryCatch ((only_callOut (by trivial)).bind fun _ => Routine.only_pure _),
    outcome_bind (only_callOut (by trivial)), outcome_readdir, hlist]
  change outcome t order (if e = .system "ENOENT" then pure [] else throw e) = _
  split <;> rfl

theorem outcome_listRoot_of_file {kind : Kind} (hstat : statOf t root = .ok kind)
    (hkind : kind ≠ .dir) :
    outcome t order (listRoot root) = .error (.system "ENOTDIR") := by
  have hlist : readdirOf t root (.ok (order root)) = .error (.system "ENOTDIR") := by
    cases kind with
    | dir => exact absurd rfl hkind
    | file | symlink => simp only [readdirOf, hstat]
  unfold listRoot
  rw [outcome_tryCatch ((only_callOut (by trivial)).bind fun _ => Routine.only_pure _),
    outcome_bind (only_callOut (by trivial)), outcome_readdir, hlist]
  rfl

theorem statOf_eq_dir_iff {p : Path} : statOf t p = .ok .dir ↔ t.IsDir p := by
  unfold statOf FileTree.IsDir
  split
  · next hp => simp [hp]
  · next hp =>
    cases hget : t.get p with
    | none => simp [hp, orThrow]
    | some n => cases n with
      | dir => simp [orThrow, kindOf, Node.isDir]
      | file c => cases c <;> simp [hp, orThrow, kindOf, Node.isDir]

/-- A root is listed with all its entries. -/
theorem listRoot_eq_ok (horder : Orders t order)
    (h : outcome t order (listRoot root) = .ok entries) :
    Listable t root ∧
      (∀ e ∈ entries, t.IsDir root ∧ (t.get (root ++ [e.1])).map kindOf = some e.2) ∧
      ∀ name, t.IsDir root → t.get (root ++ [name]) = some .dir → name ∈ entries.map Prod.fst := by
  cases hstat : statOf t root with
  | error e =>
    -- a root that is not there is a root without skills
    have hdir : ¬t.IsDir root := fun hdir => by
      rw [statOf_eq_dir_iff.mpr hdir] at hstat
      exact absurd hstat (by simp)
    have hnone : t.get root = none := by
      unfold statOf at hstat
      split at hstat
      · simp at hstat
      · cases hget : t.get root with
        | none => rfl
        | some n => simp [hget, orThrow] at hstat
    rw [outcome_listRoot_of_error hstat] at h
    split at h
    · obtain rfl := Except.ok.inj h
      exact ⟨.inr hnone, by simp, fun _ h => absurd h hdir⟩
    · exact absurd h (by simp)
  | ok kind =>
    by_cases hkind : kind = .dir
    · rw [hkind] at hstat
      rw [outcome_listRoot_of_dir horder hstat] at h
      obtain rfl := Except.ok.inj h
      have hdir := statOf_eq_dir_iff.mp hstat
      refine ⟨.inl hdir, fun e he => ⟨hdir, (mem_entriesOf.mp he).2⟩, fun name _ hname => ?_⟩
      refine List.mem_map.mpr ⟨(name, .dir), mem_entriesOf.mpr ⟨?_, by rw [hname]; rfl⟩, rfl⟩
      -- every directory below the root is among the entries
      have hkey : root ++ [name] ∈ t.keys := (t.mem_keys _).mpr (by rw [hname]; rfl)
      have := (horder root).2.2 _ hkey (List.prefix_append _ _) (by simp)
      rwa [List.drop_left] at this
    · rw [outcome_listRoot_of_file hstat hkind] at h
      exact absurd h (by simp)

theorem exists_listRoot (horder : Orders t order) (h : Listable t root) :
    ∃ entries, outcome t order (listRoot root) = .ok entries := by
  by_cases hdir : t.IsDir root
  · exact ⟨_, outcome_listRoot_of_dir horder (statOf_eq_dir_iff.mpr hdir)⟩
  · have hne : root ≠ [] := fun hroot => hdir (.inl hroot)
    have hstat : statOf t root = .error (.system "ENOENT") := by
      simp [statOf, hne, h.resolve_left hdir, orThrow]
    exact ⟨[], by rw [outcome_listRoot_of_error hstat, if_pos rfl]⟩

/-! ### The loop over the entries -/

theorem outcome_selectEntries_taken {kind : Kind} {item : Item} (h : out.get name = some item) :
    outcome t order (selectEntries host root ((name, kind) :: entries) out) =
      outcome t order (selectEntries host root entries out) := by
  rw [selectEntries, if_pos (by simp [h])]

/-- An entry whose name is not taken. -/
theorem outcome_selectEntries_free {kind : Kind} (hdir : t.IsDir root)
    (hkind : (t.get (root ++ [name])).map kindOf = some kind) (h : out.get name = none) :
    outcome t order (selectEntries host root ((name, kind) :: entries) out) =
      provided host t order root name >>= fun item =>
        outcome t order (selectEntries host root entries (item.elim out (out.set name))) := by
  obtain ⟨n, hn, rfl⟩ := Option.map_eq_some_iff.mp hkind
  by_cases hskill : skillName name = true ∧ n = .dir
  · rw [provided, if_pos ⟨hskill.1, hdir, by rw [hn, hskill.2]⟩, selectEntries,
      if_neg (by simp [h, hskill.1, hskill.2, kindOf]), outcome_bind (only_loadEntry _ _)]
    congr 1
    funext item
    cases item with
    | some item => rfl
    | none => rfl
  · have hnot : ¬(skillName name = true ∧ t.IsDir root ∧ t.get (root ++ [name]) = some .dir) := by
      rintro ⟨hname, -, hget⟩
      rw [hn] at hget
      exact hskill ⟨hname, Option.some.inj hget⟩
    -- what is no directory with a name of a skill is passed over
    have hskip : ((out.get name).isSome || kindOf n ≠ .dir || !skillName name) = true := by
      rw [not_and_or] at hskill
      rcases hskill with hskill | hskill
      · simp [Bool.eq_false_iff.mpr hskill]
      · have := mt kindOf_eq_dir_iff.mp hskill
        simp [this]
    rw [provided, if_neg hnot, selectEntries, if_pos hskip]
    rfl

/-- A name that was taken stays so; one that is listed then has what the root provides. -/
theorem get_of_selectEntries
    (hentries : ∀ e ∈ entries, t.IsDir root ∧ (t.get (root ++ [e.1])).map kindOf = some e.2)
    (h : outcome t order (selectEntries host root entries out) = .ok out') :
    (∀ item, out.get name = some item → out'.get name = some item) ∧
      (out.get name = none → name ∈ entries.map Prod.fst →
        provided host t order root name = .ok (out'.get name)) ∧
      (out.get name = none → name ∉ entries.map Prod.fst → out'.get name = none) := by
  induction entries generalizing out with
  | nil =>
    obtain rfl : out = out' := Except.ok.inj h
    exact ⟨fun _ => id, fun _ hmem => absurd hmem (by simp), fun hnone _ => hnone⟩
  | cons entry entries ih =>
    obtain ⟨first, kind⟩ := entry
    obtain ⟨⟨hdir, hkind⟩, hentries⟩ := List.forall_mem_cons.mp hentries
    cases hfirst : out.get first with
    | some item =>
      rw [outcome_selectEntries_taken hfirst] at h
      obtain ⟨hkeep, hthere, hnot⟩ := ih hentries h
      refine ⟨hkeep, fun hnone hmem => hthere hnone ?_, fun hnone hmem => hnot hnone ?_⟩
      · rcases List.mem_cons.mp hmem with rfl | hmem
        · exact absurd hnone (by simp [hfirst])
        · exact hmem
      · exact fun h => hmem (List.mem_cons_of_mem _ h)
    | none =>
      rw [outcome_selectEntries_free hdir hkind hfirst, bind_eq_ok] at h
      obtain ⟨item, hitem, hrest⟩ := h
      obtain ⟨hkeep, hthere, hnot⟩ := ih hentries hrest
      by_cases hname : name = first
      · subst hname
        refine ⟨fun _ hsome => absurd hsome (by simp [hfirst]), fun _ _ => ?_,
          fun _ hmem => absurd List.mem_cons_self hmem⟩
        rw [hitem]
        cases item with
        | some item => rw [hkeep item (by simp)]
        | none =>
          -- it may be listed again, with the same outcome
          by_cases hmem : name ∈ entries.map Prod.fst
          · rw [← hthere hfirst hmem, hitem]
          · rw [hnot hfirst hmem]
      · have hget : (item.elim out (out.set first)).get name = out.get name := by
          cases item with
          | some item => exact OrderedMap.get_set_ne (Ne.symm hname)
          | none => rfl
        rw [hget] at hkeep hthere hnot
        refine ⟨hkeep, fun hnone hmem => hthere hnone ?_, fun hnone hmem => hnot hnone ?_⟩
        · exact (List.mem_cons.mp hmem).resolve_left hname
        · exact fun h => hmem (List.mem_cons_of_mem _ h)

theorem exists_selectEntries
    (hentries : ∀ e ∈ entries, t.IsDir root ∧ (t.get (root ++ [e.1])).map kindOf = some e.2)
    (h : ∀ name, out.get name = none → ∃ item, provided host t order root name = .ok item) :
    ∃ out', outcome t order (selectEntries host root entries out) = .ok out' := by
  induction entries generalizing out with
  | nil => exact ⟨out, rfl⟩
  | cons entry entries ih =>
    obtain ⟨first, kind⟩ := entry
    obtain ⟨⟨hdir, hkind⟩, hentries⟩ := List.forall_mem_cons.mp hentries
    cases hfirst : out.get first with
    -- the name is taken, so the entry is not read
    | some item =>
      rw [outcome_selectEntries_taken hfirst]
      exact ih hentries h
    | none =>
      obtain ⟨item, hitem⟩ := h first hfirst
      rw [outcome_selectEntries_free hdir hkind hfirst, hitem]
      refine ih hentries fun name hname => h name ?_
      cases item with
      | none => exact hname
      | some item =>
        by_cases heq : first = name
        · simp [heq] at hname
        · rwa [Option.elim_some, OrderedMap.get_set_ne heq] at hname

/-! ### One root -/

theorem get_of_root (horder : Orders t order)
    (h : outcome t order (listRoot root >>= fun entries => selectEntries host root entries out) =
      .ok out') :
    Listable t root ∧ ∀ name, (∀ item, out.get name = some item → out'.get name = some item) ∧
      (out.get name = none → provided host t order root name = .ok (out'.get name)) := by
  rw [outcome_bind (only_listRoot root), bind_eq_ok] at h
  obtain ⟨entries, hlist, hselect⟩ := h
  obtain ⟨hlistable, hentries, hall⟩ := listRoot_eq_ok horder hlist
  refine ⟨hlistable, fun name => ?_⟩
  obtain ⟨hkeep, hthere, hnot⟩ := @get_of_selectEntries _ _ _ _ name _ _ _ hentries hselect
  refine ⟨hkeep, fun hnone => ?_⟩
  by_cases hmem : name ∈ entries.map Prod.fst
  · exact hthere hnone hmem
  · rw [hnot hnone hmem, provided, if_neg]
    rintro ⟨-, hdir, hget⟩
    exact hmem (hall name hdir hget)

theorem exists_root (horder : Orders t order) (hroot : Listable t root)
    (h : ∀ name, out.get name = none → ∃ item, provided host t order root name = .ok item) :
    ∃ out', outcome t order
      (listRoot root >>= fun entries => selectEntries host root entries out) = .ok out' := by
  obtain ⟨entries, hlist⟩ := exists_listRoot horder hroot
  rw [outcome_bind (only_listRoot root), hlist]
  exact exists_selectEntries (listRoot_eq_ok horder hlist).2.1 h

/-! ### All roots -/

variable {roots before after : List Path}

/-- None of the roots provides a skill of the name. -/
def Free (host : Host) (t : Files) (order : Path → List Path) (roots : List Path) (name : String) :
    Prop :=
  ∀ r ∈ roots, ∀ item, provided host t order r name ≠ .ok (some item)

theorem outcome_selectRoots_cons : outcome t order (selectRoots host (root :: roots) out) =
    outcome t order (listRoot root >>= fun entries => selectEntries host root entries out) >>=
      fun out => outcome t order (selectRoots host roots out) := by
  rw [selectRoots, outcome_bind (only_listRoot root), outcome_bind (only_listRoot root), bind_assoc]
  congr 1
  funext entries
  exact outcome_bind (only_selectEntries root entries out)

/-- If the roots are read, every skill that no earlier root provides was loaded. -/
theorem get_of_selectRoots (horder : Orders t order)
    (h : outcome t order (selectRoots host roots out) = .ok out') :
    (∀ name item, out.get name = some item → out'.get name = some item) ∧
      ∀ before r after, roots = before ++ r :: after → Listable t r ∧ ∀ name, out.get name = none →
        Free host t order before name → ∃ item, provided host t order r name = .ok item ∧
          (item.isSome → out'.get name = item) := by
  induction roots generalizing out with
  | nil =>
    obtain rfl : out = out' := Except.ok.inj h
    exact ⟨fun _ _ => id, fun before r after heq => absurd heq (by simp)⟩
  | cons root roots ih =>
    rw [outcome_selectRoots_cons, bind_eq_ok] at h
    obtain ⟨out₁, hroot, hrest⟩ := h
    -- what one root gives, and what the roots behind it leave
    obtain ⟨hlistable, hget⟩ := get_of_root horder hroot
    obtain ⟨hkeep, hall⟩ := ih hrest
    refine ⟨fun name item hitem => hkeep name item ((hget name).1 item hitem), ?_⟩
    intro before r after heq
    cases before with
    -- the root asked about comes first
    | nil =>
      obtain ⟨rfl, rfl⟩ := List.cons.inj heq
      refine ⟨hlistable, fun name hnone _ => ⟨_, (hget name).2 hnone, fun hsome => ?_⟩⟩
      obtain ⟨item, hitem⟩ := Option.isSome_iff_exists.mp hsome
      rw [hitem, hkeep name item hitem]
    -- it comes later, and no root before it has the name
    | cons first before =>
      obtain ⟨rfl, rfl⟩ := List.cons.inj heq
      obtain ⟨hr, hnames⟩ := hall before r after rfl
      refine ⟨hr, fun name hnone hfree => hnames name ?_ (List.forall_mem_cons.mp hfree).2⟩
      have hfirst := (hget name).2 hnone
      cases hitem : out₁.get name with
      | none => rfl
      | some item => exact absurd (hitem ▸ hfirst) ((List.forall_mem_cons.mp hfree).1 item)

theorem exists_selectRoots (horder : Orders t order)
    (h : ∀ before r after, roots = before ++ r :: after → Listable t r ∧ ∀ name,
      out.get name = none → Free host t order before name →
        ∃ item, provided host t order r name = .ok item) :
    ∃ out', outcome t order (selectRoots host roots out) = .ok out' := by
  induction roots generalizing out with
  | nil => exact ⟨out, rfl⟩
  | cons root roots ih =>
    obtain ⟨hlistable, hnames⟩ := h [] root roots rfl
    obtain ⟨out₁, hroot⟩ := exists_root horder hlistable fun name hnone =>
      hnames name hnone fun r hr => absurd hr List.not_mem_nil
    obtain ⟨-, hget⟩ := get_of_root horder hroot
    rw [outcome_selectRoots_cons, hroot]
    refine ih fun before r after heq => ?_
    obtain ⟨hr, hnames⟩ := h (root :: before) r after (congrArg (root :: ·) heq)
    refine ⟨hr, fun name hnone hfree => ?_⟩
    -- a name that is free after the root was free before it, and the root does not provide it
    have hfree₀ : out.get name = none := by
      cases hitem : out.get name with
      | none => rfl
      | some item => simp [(hget name).1 item hitem] at hnone
    refine hnames name hfree₀ (List.forall_mem_cons.mpr ⟨fun item hprovided => ?_, hfree⟩)
    rw [(hget name).2 hfree₀, hnone] at hprovided
    exact absurd hprovided (by simp)

/-- The skills of the roots that no earlier root provides can be loaded, but for one of them. -/
def OthersLoad (host : Host) (t : Files) (order : Path → List Path) (roots : List Path)
    (root : Path) (name : String) : Prop :=
  ∀ before r after, roots = before ++ r :: after → Listable t r ∧ ∀ other,
    (r, other) ≠ (root, name) → Free host t order before other →
      ∃ item, provided host t order r other = .ok item

/-- `find` looks among the selected skills. -/
theorem outcome_find (hskill : skillName name = true) (roots : List Path) :
    outcome t order (find host roots name) = outcome t order (selected host roots) >>= fun items =>
      match items.get name with
      | some item => .ok item
      | none => .error (.other ("Unknown skill: " ++ name)) := by
  unfold find
  have hreads : (selected host roots).Only Op.Reads := only_selectRoots _ _
  rw [if_neg (by simp [hskill]), outcome_bind hreads]
  congr 1
  funext items
  cases items.get name <;> rfl

/-- A skill that its root provides first is found exactly if it and all others can be loaded. -/
theorem find_eq_ok_iff {item : Item} (horder : Orders t order) (hskill : skillName name = true)
    (hfree : Free host t order before name)
    (hthere : provided host t order root name ≠ .ok none) :
    outcome t order (find host (before ++ root :: after) name) = .ok item ↔
      OthersLoad host t order (before ++ root :: after) root name ∧
        provided host t order root name = .ok (some item) := by
  rw [outcome_find hskill, bind_eq_ok]
  constructor
  · -- a selection that returns has read every skill of every root
    rintro ⟨items, hselected, hitem⟩
    obtain ⟨-, hall⟩ := get_of_selectRoots horder hselected
    refine ⟨fun before r after heq => ?_, ?_⟩
    · obtain ⟨hlistable, hnames⟩ := hall before r after heq
      refine ⟨hlistable, fun other _ hfree => ?_⟩
      obtain ⟨found, hfound, -⟩ := hnames other rfl hfree
      exact ⟨found, hfound⟩
    · obtain ⟨found, hfound, hget⟩ := (hall before root after rfl).2 name rfl hfree
      cases found with
      | none => exact absurd hfound hthere
      | some own =>
        rw [hget rfl] at hitem
        rw [hfound, Except.ok.inj hitem]
  · rintro ⟨hothers, hown⟩
    -- the skill asked for and the others all load, so the selection returns
    obtain ⟨items, hselected⟩ : ∃ items,
        outcome t order (selected host (before ++ root :: after)) = .ok items := by
      refine exists_selectRoots horder fun before r after heq => ?_
      obtain ⟨hlistable, hnames⟩ := hothers before r after heq
      refine ⟨hlistable, fun other _ hfree => ?_⟩
      by_cases hsame : (r, other) = (root, name)
      · obtain ⟨rfl, rfl⟩ := Prod.mk.inj hsame
        exact ⟨_, hown⟩
      · exact hnames other hsame hfree
    obtain ⟨found, hfound, hget⟩ :=
      ((get_of_selectRoots horder hselected).2 before root after rfl).2 name rfl hfree
    obtain rfl : found = some item := Except.ok.inj (hfound.symm.trans hown)
    exact ⟨items, hselected, by rw [hget rfl]⟩

end Root

end AriOs.Cognition.Skills
