import AriOs.Async.Pool
import AriOs.Async.Routine
import AriOs.Js.Throw
import AriOs.Storage.FileTree
import AriOs.Storage.OrderedMap
import Mathlib.Data.List.Sort

/-!
# Updating a skill

A skill is a directory with a manifest and supporting files. An update reads the one that is there,
compares its checksum with the one the caller expects, writes the new tree beside it and puts it in
its place with two renames; what it moved away is removed last. If one of these steps fails, the
handler tries to put the old tree back.

Each call of the file system is one step, and updates may alternate between any two. A call may
fail although it could be carried out; a removal may then have taken away part of the tree.
-/

namespace AriOs.Cognition.Skills

open AriOs.Async AriOs.Js AriOs.Storage

/-! ### The file system -/

/-- What a path names that is not a directory. -/
inductive Leaf where
  | regular (text : String)
  | symlink (target : Path)
  deriving DecidableEq, Repr

inductive Kind where
  | dir | file | symlink
  deriving DecidableEq, Repr

def kindOf : Node Leaf → Kind
  | .dir => .dir
  | .file (.regular _) => .file
  | .file (.symlink _) => .symlink

abbrev Files := FileTree Leaf

/-- A failed call has a code; other errors have none. -/
inductive SkillError where
  | system (code : String)
  | other (message : String)
  deriving DecidableEq, Repr

inductive Op where
  | lstat (p : Path)
  | realpath (p : Path)
  /-- `readNoFollow`: the file is opened, checked against the base and the size, and read -/
  | readFile (p base : Path) (max : Nat)
  | readdir (p : Path)
  | mkdir (p : Path)
  | mkdirAll (p : Path)
  | writeNew (p : Path) (text : String)
  | rename (src dst : Path)
  | rm (p : Path) (force : Bool)
  | syncDir (p : Path)
  deriving DecidableEq

/-- What a call returns. -/
abbrev Op.Value : Op → Type
  | .lstat _ => Kind
  | .realpath _ => Path
  | .readFile .. => String
  | .readdir _ => List (Path × Kind)
  | _ => Unit

/-- What the environment adds to a call: that it fails, with a file that is left incomplete or the
part of a tree that is removed all the same; and the order of a listing. -/
abbrev Op.Fault : Op → Type
  | .readdir _ => Except String (List Path)
  | .writeNew .. => Option (String × Option String)
  | .rm .. => Option (String × (Path → Bool))
  | _ => Option String

abbrev interface : Interface where
  Op := Op
  Ans := Op.Fault
  Res o := Except SkillError o.Value

/-- What a path names. -/
def statOf (t : Files) (p : Path) : Except SkillError Kind :=
  if p = [] then .ok .dir else orThrow ((t.get p).map kindOf) (.system "ENOENT")

/-- The paths below a directory, in some order. -/
def Lists (t : Files) (p : Path) (listing : List Path) : Prop :=
  listing.Nodup ∧ (∀ r ∈ listing, r ≠ [] ∧ (t.get (p ++ r)).isSome) ∧
    ∀ q ∈ t.keys, p <+: q → q ≠ p → q.drop p.length ∈ listing

instance (t : Files) (p : Path) (listing : List Path) : Decidable (Lists t p listing) :=
  inferInstanceAs (Decidable (_ ∧ _ ∧ _))

/-- A path that is not a symbolic link names itself. -/
def realpathOf (t : Files) (p : Path) : Except SkillError Path :=
  match statOf t p, t.get p with
  | .error e, _ => .error e
  | .ok .symlink, some (.file (.symlink target)) => .ok target
  | .ok _, _ => .ok p

def readFileOf (t : Files) (p base : Path) (max : Nat) : Except SkillError String :=
  match t.get p with
  | none => .error (.system "ENOENT")
  | some .dir => .error (.other "Path is not a regular file")
  | some (.file (.symlink _)) => .error (.system "ELOOP")
  | some (.file (.regular text)) => do
    throwIf (max < text.utf8ByteSize) (.other "File exceeds size limit")
    throwIf (¬base <+: p) (.other "Symlink escape rejected")
    .ok text

def readdirOf (t : Files) (p : Path) : Except String (List Path) →
    Except SkillError (List (Path × Kind))
  | .error code => .error (.system code)
  | .ok listing =>
    match statOf t p with
    | .error e => .error e
    | .ok .dir =>
      if Lists t p listing then
        .ok (listing.filterMap fun r => (t.get (p ++ r)).map fun n => (r, kindOf n))
      else .error (.system "EIO")
    | .ok _ => .error (.system "ENOTDIR")

/-- The part of a tree that is removed by a removal that fails. -/
def removePart (t : Files) (p : Path) (out : Path → Bool) : Files :=
  t.without fun q => p <+: q ∧ out q

/-- What is there after a write. -/
def writeNewOf (t : Files) (p : Path) (text : String) :
    Option (String × Option String) → Except SkillError Unit × Files
  | none =>
    match t.writeNew p (.regular text) with
    | .ok t' => (.ok (), t')
    | .error code => (.error (.system code), t)
  | some (code, none) => (.error (.system code), t)
  | some (code, some part) =>
    match t.writeNew p (.regular part) with
    | .ok t' => (.error (.system code), t')
    | .error _ => (.error (.system code), t)

/-- A call that changes the tree or leaves it alone. -/
def changing (t : Files) (fault : Option String) (x : Except String Files) :
    Except SkillError Unit × Files :=
  match fault, x with
  | some code, _ => (.error (.system code), t)
  | none, .error code => (.error (.system code), t)
  | none, .ok t' => (.ok (), t')

/-- One directory, whose parent has to be there. -/
def mkdirOf (t : Files) (p : Path) : Except String Files :=
  if ¬t.IsDir p.dropLast then .error "ENOENT"
  else if p = [] ∨ (t.get p).isSome then .error "EEXIST"
  else .ok (t.set p .dir)

def rmOf (t : Files) (p : Path) (force : Bool) :
    Option (String × (Path → Bool)) → Except SkillError Unit × Files
  | some (code, out) => (.error (.system code), removePart t p out)
  | none =>
    if (t.get p).isNone ∧ force = false then (.error (.system "ENOENT"), t) else (.ok (), t.remove p)

/-- A call that only reads fails if it is made to. -/
def reading {α : Type} (t : Files) (fault : Option String) (x : Except SkillError α) :
    Except SkillError α × Files :=
  match fault with
  | some code => (.error (.system code), t)
  | none => (x, t)

def machine : Machine interface Files where
  handle
    | .lstat p, t, fault => reading t fault (statOf t p)
    | .realpath p, t, fault => reading t fault (realpathOf t p)
    | .readFile p base max, t, fault => reading t fault (readFileOf t p base max)
    | .readdir p, t, fault => (readdirOf t p fault, t)
    | .mkdir p, t, fault => changing t fault (mkdirOf t p)
    | .mkdirAll p, t, fault => changing t fault (t.mkdirAll p)
    | .writeNew p text, t, fault => writeNewOf t p text fault
    | .rename src dst, t, fault => changing t fault (t.rename src dst)
    | .rm p force, t, fault => rmOf t p force fault
    | .syncDir p, t, fault => reading t fault ((statOf t p).map fun _ => ())

/-! ### The manager -/

/-- The parser of manifests, which gives the name a manifest declares; the hash; and the order of
the locale. -/
structure Host where
  parse : String → Except String String
  sha256 : String → String
  localeLe : String → String → Bool

structure SkillManager where
  controlledRoot : Option Path
  enforceRealpathIdentity : Bool

/-- A call of `update`, with the id that names its trees. -/
structure UpdateCall where
  name : String
  text : String
  expectedChecksum : Option String
  files : List (String × String)
  id : String

/-- The skill an update returns, up to what is looked up about its requirements. -/
structure Item where
  dir : Path
  text : String
  support : OrderedMap String String
  digest : String

/-- The code of the manager; the local variable is `moved`. -/
abbrev Body (α : Type) := Routine interface Bool SkillError α

def SUPPORT : List String := ["references", "templates", "scripts", "assets"]
def MAX_MANIFEST : Nat := 256 * 1024
def MAX_FILE : Nat := 1024 * 1024
def MAX_FILES : Nat := 256

def nameChar (c : Char) : Bool := c.isLower || c.isDigit

/-- The pattern of names. -/
def skillName (name : String) : Bool :=
  match name.toList with
  | [] => false
  | c :: cs => nameChar c && cs.length ≤ 63 && cs.all fun c => nameChar c || c = '_' || c = '-'

/-- The parts of a path between separators of either kind. -/
def parts (path : String) : List String :=
  (path.toList.splitOnP fun c => c = '/' || c = '\\').map String.ofList

def posixKey (path : String) : String := String.intercalate "/" (parts path)

def posixKeyed (files : List (String × String)) : OrderedMap String String :=
  files.foldl (fun m f => m.set (posixKey f.1) f.2) Table.empty

def safeRelative (path : String) : Except SkillError (List String) := do
  throwIf (path = "" ∨ path.toList.head? = some '/' ∨ Char.ofNat 0 ∈ path.toList)
    (.other "Invalid path")
  throwIf ((parts path).any fun p => p = ".." || p = "." || p = "") (.other "Path traversal rejected")
  .ok (parts path)

/-- The names of a path that is joined to a directory. -/
def joined (path : String) : Path := (path.toList.splitOn '/').map String.ofList

def callOut (o : Op) : Body o.Value := do
  let r ← Routine.ask (I := interface) o
  Routine.ofExcept r

def failWith {α : Type} (message : String) : Body α := throw (.other message)

section Manager

variable (host : Host) (m : SkillManager)

/-- What is hashed of a skill. -/
def digest (text : String) (files : OrderedMap String String) : String :=
  let sorted := files.rows.insertionSort fun a b => host.localeLe a.1 b.1 = true
  host.sha256 (sorted.foldl (fun h f => h ++ "\x00" ++ f.1 ++ "\x00" ++ f.2) ("SKILL.md\x00" ++ text))

/-! ### Reading -/

/-- The loop over the entries below one of the directories. -/
def readEntries (dir base : Path) (top : String) :
    List (Path × Kind) → OrderedMap String String → Body (OrderedMap String String)
  | [], out => pure out
  | (rel, kind) :: entries, out =>
    if kind = .file then
      if MAX_FILES ≤ out.rows.length then failWith "Supporting file count limit exceeded"
      else do
        let text ← callOut (.readFile (dir ++ top :: rel) base MAX_FILE)
        readEntries dir base top entries
          (out.set (posixKey (String.intercalate "/" (top :: rel))) text)
    else readEntries dir base top entries out

/-- The entries below one of the directories; there may be no such directory. -/
def listTop (dir : Path) (top : String) : Body (List (Path × Kind)) :=
  tryCatch
    (do
      let kind ← callOut (.lstat (dir ++ [top]))
      if kind = .symlink then failWith "Symlink supporting directory rejected"
      else callOut (.readdir (dir ++ [top])))
    fun e => if e = .system "ENOENT" then pure [] else throw e

def readTops (dir base : Path) : List String → OrderedMap String String →
    Body (OrderedMap String String)
  | [], out => pure out
  | top :: tops, out => do
    let entries ← listTop dir top
    let out ← readEntries dir base top entries out
    readTops dir base tops out

def supportFiles (dir base : Path) : Body (OrderedMap String String) :=
  readTops dir base SUPPORT Table.empty

/-! ### Writing -/

/-- The checks of one supporting file. -/
def checkFile (file : String × String) : Except SkillError Unit := do
  let rel ← safeRelative file.1
  throwIf ((rel.headD "") ∉ SUPPORT ∨ MAX_FILE < file.2.utf8ByteSize)
    (.other "Supporting file path or size is not allowed")

def writeFiles (target : Path) : List (String × String) → Body Unit
  | [] => pure ()
  | (path, value) :: files => do
    callOut (.mkdirAll (target ++ joined path).dropLast)
    callOut (.writeNew (target ++ joined path) value)
    writeFiles target files

def writeTree (target : Path) (text : String) (files : List (String × String)) : Body Unit := do
  callOut (.mkdir target)
  tryCatch
    (do
      if MAX_FILES < files.length then failWith "Supporting file count limit exceeded"
      else do
        Routine.ofExcept (files.forM checkFile)
        writeFiles target (("SKILL.md", text) :: files)
        callOut (.syncDir target))
    fun e => do
      callOut (.rm target true)
      throw e

/-! ### The update -/

/-- Where a controlled skill is. -/
def controlled (name : String) : Body Path :=
  match m.controlledRoot with
  | none => failWith "No controlled root configured"
  | some lexical =>
    if !skillName name then failWith "Invalid skill name"
    else do
      let kind ← callOut (.lstat lexical)
      if kind ≠ .dir then failWith "Controlled root must be a real directory, not a symlink"
      else do
        let canonical ← callOut (.realpath lexical)
        if m.enforceRealpathIdentity && canonical ≠ lexical then
          failWith "Controlled root or ancestor resolves through a symlink"
        else pure (canonical ++ [name])

/-- What stands beside a skill's directory: the new tree, and the old one. -/
def besides (target : Path) (suffix id : String) : Path :=
  target.dropLast ++ [target.getLastD "" ++ suffix ++ id]

def temp (target : Path) (id : String) : Path := besides target ".tmp-" id

def backup (target : Path) (id : String) : Path := besides target ".bak-" id

/-- The handler of the block with the renames. -/
def rollBack (target : Path) (id : String) (e : SkillError) : Body Unit := do
  callOut (.rm (temp target id) true)
  let moved ← Routine.locals
  if moved then do
    tryCatch
      (do
        callOut (.rm target true)
        callOut (.rename (backup target id) target))
      fun _ => pure ()
    throw e
  else throw e

/-- The block with the renames. -/
def swap (target : Path) (id : String) : Body Unit := do
  Routine.assign fun _ => false
  tryCatch
    (do
      callOut (.rename target (backup target id))
      Routine.assign fun _ => true
      callOut (.rename (temp target id) target)
      callOut (.syncDir target.dropLast)
      callOut (.rm (backup target id) false))
    (rollBack target id)

/-- What the update compares before it writes. -/
def compare (target : Path) (r : UpdateCall) : Body Unit := do
  let base ← callOut (.realpath target)
  let kind ← callOut (.lstat target)
  if kind = .symlink ∨ (m.enforceRealpathIdentity = true ∧ base ≠ target) then
    failWith "Symlink target rejected"
  else do
    let current ← callOut (.readFile (target ++ ["SKILL.md"]) base MAX_MANIFEST)
    let currentFiles ← supportFiles target base
    let expected := r.expectedChecksum.getD ""
    if expected ≠ "" ∧ expected ≠ digest host current currentFiles then
      failWith "Skill checksum pin mismatch"
    else pure ()

namespace SkillManager

def update (r : UpdateCall) : Body Item := do
  let target ← controlled m r.name
  compare host m target r
  let declared ← Routine.ofExcept ((host.parse r.text).mapError SkillError.other)
  if declared ≠ r.name then failWith "Skill name mismatch"
  else do
    writeTree (temp target r.id) r.text r.files
    swap target r.id
    let support := posixKeyed r.files
    pure { dir := target, text := r.text, support, digest := digest host r.text support }

end SkillManager

/-- A call of `update`, to its end. -/
def body (r : UpdateCall) : Prog interface (Except SkillError Item × Bool) :=
  (m.update host r).prog false

end Manager

end AriOs.Cognition.Skills
