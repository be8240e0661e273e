import AriOs.Async.Outcome
import AriOs.Cognition.SkillDigest

/-!
# Creating and loading a skill

A skill is created like the new tree of an update is written. It is loaded by going through the
roots and reading every skill that is there; so one that cannot be read keeps the others from being
loaded. A supporting file is read from the directory of the skill that was found.
-/

namespace AriOs.Cognition.Skills

open AriOs.Async AriOs.Js AriOs.Storage

section Manager

variable (host : Host) (m : SkillManager)

/-! ### Creating -/

/-- Nothing is at a path. -/
def refuseExisting (target : Path) : Body Unit :=
  tryCatch
    (do
      let _ ← callOut (.lstat target)
      failWith "Skill already exists")
    fun e => if e = .system "ENOENT" then pure () else throw e

namespace SkillManager

def create (name text : String) (files : List (String × String)) : Body Item := do
  let target ← controlled m name
  let declared ← Routine.ofExcept ((host.parse text).mapError SkillError.other)
  if declared ≠ name then failWith "Skill name mismatch"
  else do
    refuseExisting target
    writeTree target text files
    let support := posixKeyed files
    pure { dir := target, text, support, digest := digest host text support }

end SkillManager

/-! ### The skills of the roots -/

/-- The entries of a root: what is listed below it by one name. There may be no such directory. -/
def listRoot (root : Path) : Body (List (String × Kind)) :=
  tryCatch
    (do
      let entries ← callOut (.readdir root)
      pure (entries.filterMap fun e =>
        match e.1 with
        | [name] => some (name, e.2)
        | _ => none))
    fun e => if e = .system "ENOENT" then pure [] else throw e

/-- Whether there is a manifest. -/
def hasManifest (dir : Path) : Body Bool :=
  tryCatch
    (do
      let kind ← callOut (.lstat (dir ++ ["SKILL.md"]))
      if kind = .symlink then failWith "Symlink manifest rejected"
      else pure true)
    fun e => if e = .system "ENOENT" then pure false else throw e

/-- One entry of a root that is a directory with the name of a skill. -/
def loadEntry (root : Path) (name : String) : Body (Option Item) := do
  let dir := root ++ [name]
  let kind ← callOut (.lstat dir)
  if kind = .symlink then pure none
  else do
    let base ← callOut (.realpath dir)
    let there ← hasManifest dir
    if !there then pure none
    else do
      let text ← callOut (.readFile (dir ++ ["SKILL.md"]) base MAX_MANIFEST)
      let declared ← Routine.ofExcept ((host.parse text).mapError SkillError.other)
      if declared ≠ name then failWith ("Skill directory/name mismatch: " ++ name)
      else do
        let support ← supportFiles dir base
        pure (some { dir, text, support, digest := digest host text support })

/-- The loop over the entries of a root. -/
def selectEntries (root : Path) :
    List (String × Kind) → OrderedMap String Item → Body (OrderedMap String Item)
  | [], out => pure out
  | (name, kind) :: entries, out =>
    if (out.get name).isSome || kind ≠ .dir || !skillName name then selectEntries root entries out
    else do
      let item ← loadEntry host root name
      match item with
      | some item => selectEntries root entries (out.set name item)
      | none => selectEntries root entries out

def selectRoots : List Path → OrderedMap String Item → Body (OrderedMap String Item)
  | [], out => pure out
  | root :: roots, out => do
    let entries ← listRoot root
    let out ← selectEntries host root entries out
    selectRoots roots out

/-- The skills of the roots that are configured, in the order of their sources. -/
def selected (roots : List Path) : Body (OrderedMap String Item) :=
  selectRoots host roots Table.empty

/-! ### Loading -/

/-- The skill of a name. -/
def find (roots : List Path) (name : String) : Body Item :=
  if !skillName name then failWith "Invalid skill name"
  else do
    let items ← selected host roots
    match items.get name with
    | some item => pure item
    | none => failWith ("Unknown skill: " ++ name)

/-- A skill, as far as its checksum is concerned. -/
def load (roots : List Path) (name : String) (checksum : Option String) : Body Item := do
  let item ← find host roots name
  if pinAccepts (checksum.getD "") item.digest then pure item
  else failWith "Skill checksum pin mismatch"

def loadFile (roots : List Path) (name path : String) : Body String := do
  let item ← find host roots name
  let rel ← Routine.ofExcept (safeRelative path)
  if rel.headD "" ∉ SUPPORT then failWith "Supporting file path is not allowed"
  else do
    let base ← callOut (.realpath item.dir)
    callOut (.readFile (item.dir ++ rel) base MAX_FILE)

end Manager

/-! ### What a body that only reads comes to -/

/-- No call fails, and each directory is listed in some order. -/
def inOrder (order : Path → List Path) : ∀ o, interface.Ans o
  | .readdir p => (Except.ok (order p) : Except String (List Path))
  | .writeNew .. => (none : Option (String × Option String))
  | .rm .. => (none : Option (String × (Path → Bool)))
  | .lstat _ | .realpath _ | .readFile .. | .mkdir _ | .mkdirAll _ | .rename .. | .syncDir _ =>
    (none : Option String)

/-- The orders in which the directories of a tree may be listed. -/
def Orders (t : Files) (order : Path → List Path) : Prop := ∀ p, Lists t p (order p)

/-- What a body comes to on its own, from a tree. -/
def outcome {α : Type} (t : Files) (order : Path → List Path) (x : Body α) : Except SkillError α :=
  x.outcome machine (inOrder order) false t

/-- The calls that leave the tree as it is. -/
def Op.Reads : Op → Prop
  | .lstat _ | .realpath _ | .readFile .. | .readdir _ => True
  | _ => False

theorem handle_of_reads {t : Files} {o : Op} (ho : o.Reads) (fault : o.Fault) :
    (machine.handle o t fault).2 = t := by
  cases o with
  | lstat | realpath | readFile => cases fault <;> rfl
  | readdir => rfl
  | mkdir | mkdirAll | writeNew | rename | rm | syncDir => exact ho.elim

/-! ### The bodies that only read -/

section Reads

variable {host : Host} {m : SkillManager} {α : Type}

theorem only_callOut {o : Op} (ho : o.Reads) : (callOut o).Only Op.Reads :=
  (Routine.only_ask ho).bind fun _ => Routine.only_ofExcept _

theorem only_failWith (message : String) : (failWith message : Body α).Only Op.Reads :=
  Routine.only_throw _

theorem only_readEntries (dir base : Path) (top : String) (entries : List (Path × Kind))
    (out : OrderedMap String String) : (readEntries dir base top entries out).Only Op.Reads := by
  induction entries generalizing out with
  | nil => exact Routine.only_pure _
  | cons entry entries ih =>
    obtain ⟨rel, kind⟩ := entry
    unfold readEntries
    split
    · split
      · exact only_failWith _
      · exact (only_callOut (by trivial)).bind fun text => ih _
    · exact ih out

theorem only_listTop (dir : Path) (top : String) : (listTop dir top).Only Op.Reads := by
  refine Routine.Only.tryCatch ((only_callOut (by trivial)).bind fun kind => ?_) fun e => ?_
  · split
    · exact only_failWith _
    · exact only_callOut (by trivial)
  · split
    · exact Routine.only_pure _
    · exact Routine.only_throw _

theorem only_supportFiles (dir base : Path) : (supportFiles dir base).Only Op.Reads := by
  have htops : ∀ tops out, (readTops dir base tops out).Only Op.Reads := by
    intro tops
    induction tops with
    | nil => exact fun out => Routine.only_pure _
    | cons top tops ih =>
      exact fun out => (only_listTop dir top).bind fun entries =>
        (only_readEntries dir base top entries out).bind fun out => ih out
  exact htops _ _

theorem only_controlled (name : String) : (controlled m name).Only Op.Reads := by
  unfold controlled
  split
  · exact only_failWith _
  split
  · exact only_failWith _
  refine (only_callOut (by trivial)).bind fun kind => ?_
  split
  · exact only_failWith _
  refine (only_callOut (by trivial)).bind fun canonical => ?_
  split
  · exact only_failWith _
  · exact Routine.only_pure _

theorem only_refuseExisting (target : Path) : (refuseExisting target).Only Op.Reads := by
  refine Routine.Only.tryCatch ((only_callOut (by trivial)).bind fun _ => only_failWith _) fun e => ?_
  split
  · exact Routine.only_pure _
  · exact Routine.only_throw _

theorem only_compare (target : Path) (r : UpdateCall) :
    (compare host m target r).Only Op.Reads := by
  refine (only_callOut (by trivial)).bind fun base => (only_callOut (by trivial)).bind fun kind => ?_
  split
  · exact only_failWith _
  refine (only_callOut (by trivial)).bind fun current => (only_supportFiles _ _).bind fun files => ?_
  dsimp only
  split
  · exact only_failWith _
  · exact Routine.only_pure _

theorem only_listRoot (root : Path) : (listRoot root).Only Op.Reads := by
  refine Routine.Only.tryCatch ((only_callOut (by trivial)).bind fun _ => Routine.only_pure _) fun e => ?_
  split
  · exact Routine.only_pure _
  · exact Routine.only_throw _

theorem only_hasManifest (dir : Path) : (hasManifest dir).Only Op.Reads := by
  refine Routine.Only.tryCatch ((only_callOut (by trivial)).bind fun kind => ?_) fun e => ?_
  · split
    · exact only_failWith _
    · exact Routine.only_pure _
  · split
    · exact Routine.only_pure _
    · exact Routine.only_throw _

theorem only_loadEntry (root : Path) (name : String) :
    (loadEntry host root name).Only Op.Reads := by
  refine (only_callOut (by trivial)).bind fun kind => ?_
  split
  · exact Routine.only_pure _
  refine (only_callOut (by trivial)).bind fun base => (only_hasManifest _).bind fun there => ?_
  split
  · exact Routine.only_pure _
  refine (only_callOut (by trivial)).bind fun text => (Routine.only_ofExcept _).bind fun declared => ?_
  split
  · exact only_failWith _
  · exact (only_supportFiles _ _).bind fun support => Routine.only_pure _

theorem only_selectEntries (root : Path) (entries : List (String × Kind))
    (out : OrderedMap String Item) : (selectEntries host root entries out).Only Op.Reads := by
  induction entries generalizing out with
  | nil => exact Routine.only_pure _
  | cons entry entries ih =>
    obtain ⟨name, kind⟩ := entry
    unfold selectEntries
    split
    · exact ih out
    · refine (only_loadEntry root name).bind fun item => ?_
      cases item with
      | some item => exact ih _
      | none => exact ih _

theorem only_selectRoots (roots : List Path) (out : OrderedMap String Item) :
    (selectRoots host roots out).Only Op.Reads := by
  induction roots generalizing out with
  | nil => exact Routine.only_pure _
  | cons root roots ih =>
    exact (only_listRoot root).bind fun entries =>
      (only_selectEntries root entries out).bind fun out => ih out

theorem only_find (roots : List Path) (name : String) : (find host roots name).Only Op.Reads := by
  unfold find
  split
  · exact only_failWith _
  · refine (only_selectRoots roots _).bind fun items => ?_
    split
    · exact Routine.only_pure _
    · exact only_failWith _

end Reads

end AriOs.Cognition.Skills
