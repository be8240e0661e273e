import AriOs.Js.Throw
import AriOs.Js.Value
import AriOs.Signer.Transaction
import AriOs.Storage.FileTree

/-!
# The plugin installer

A plugin comes with a signed manifest, which pins the digest of a package, and with the entries of
an archive. The installer checks the signature and the digest, checks the entries, writes them
into a directory of its own and moves that to the place of the plugin.

The entries are given beside the package and never taken from it: what is installed is what the
entries say, and two installations of one package install the same files if and only if their
entries hold the same files.
-/

namespace AriOs.Plugins

open AriOs.Js AriOs.Signer AriOs.Storage

/-- A manifest, as far as the installer reads it; `declared` is everything else. -/
structure PluginManifest where
  id : String
  version : String
  sha256 : String
  declared : JsValue

inductive EntryType where
  | file | symlink | directory
  deriving DecidableEq, Repr

structure ArchiveEntry where
  path : String
  content : Bytes
  type : Option EntryType
  deriving DecidableEq, Repr

/-- The schema of manifests, their canonical text, and the hash. -/
structure PluginHost where
  parsePluginManifest : JsValue → Except String PluginManifest
  canonicalManifest : PluginManifest → Except String String
  sha256 : Bytes → String

structure InstallLimits where
  maxFiles : Nat
  maxUnpackedBytes : Nat

structure PluginInstaller where
  root : Path
  verifySignature : String → Bytes → Except String Bool
  limits : Option InstallLimits

structure InstallCall where
  manifest : JsValue
  signature : Bytes
  packageBytes : Bytes
  entries : List ArchiveEntry

structure InstallResult where
  id : String
  version : String
  path : Path
  checksum : String
  deriving DecidableEq, Repr

/-- The names a path is made of. -/
def names (path : String) : Path := (path.toList.splitOn '/').map String.ofList

/-- A path that stays below the directory it is used in. -/
def SafePath (path : String) : Prop :=
  path ≠ "" ∧ '\\' ∉ path.toList ∧ ∀ x ∈ names path, x ≠ "" ∧ x ≠ "." ∧ x ≠ ".."

instance (path : String) : Decidable (SafePath path) := inferInstanceAs (Decidable (_ ∧ _ ∧ _))

def ArchiveEntry.isDirectory (e : ArchiveEntry) : Bool := e.type = some .directory

/-- One entry of the loop that checks them, with the size so far. -/
def checkEntry (lim : InstallLimits) (size : Nat) (e : ArchiveEntry) : Except String Nat := do
  throwIf (e.type = some .symlink) "Archive symlink rejected"
  let size := if e.isDirectory then size else size + e.content.length
  throwIf (size > lim.maxUnpackedBytes) "Archive size limit exceeded"
  throwIf (¬SafePath e.path) "invalid scoped path"
  .ok size

/-- One entry of the loop that writes them. -/
def writeEntry (stage : Path) (fs : FileTree Bytes) (e : ArchiveEntry) :
    Except String (FileTree Bytes) :=
  let p := stage ++ names e.path
  if e.isDirectory then fs.mkdirAll p
  else do
    let fs ← fs.mkdirAll p.dropLast
    fs.writeNew p e.content

namespace PluginInstaller

variable (host : PluginHost) (o : PluginInstaller)

/-- What is checked before anything is written. -/
def check (i : InstallCall) : Except String PluginManifest := do
  let m ← host.parsePluginManifest i.manifest
  let payload ← host.canonicalManifest m
  let verified ← o.verifySignature payload i.signature
  throwIf (verified = false) "Invalid plugin signature"
  throwIf (host.sha256 i.packageBytes ≠ m.sha256) "Package digest mismatch"
  let lim := o.limits.getD ⟨1024, 100 * 1024 * 1024⟩
  throwIf (i.entries.length > lim.maxFiles) "Archive file limit exceeded"
  let _ ← i.entries.foldlM (checkEntry lim) 0
  .ok m

def target (m : PluginManifest) : Path := o.root ++ [m.id, m.version]

def stage (m : PluginManifest) (uuid : String) : Path :=
  o.root ++ [m.id, m.version ++ ".tmp-" ++ uuid]

/-- Everything between making the stage and moving it. -/
def unpack (m : PluginManifest) (uuid : String) (entries : List ArchiveEntry)
    (fs : FileTree Bytes) : Except String (FileTree Bytes) := do
  let fs ← entries.foldlM (writeEntry (o.stage m uuid)) fs
  let fs ← fs.mkdirAll (o.target m).dropLast
  fs.rename (o.stage m uuid) (o.target m)

/-- `install`, with the files after it. -/
def install (fs : FileTree Bytes) (uuid : String) (i : InstallCall) :
    Except String InstallResult × FileTree Bytes :=
  match o.check host i with
  | .error err => (.error err, fs)
  | .ok m =>
    match fs.mkdirAll (o.stage m uuid) with
    | .error err => (.error err, fs)
    | .ok staged =>
      match o.unpack m uuid i.entries staged with
      | .error err => (.error err, staged.remove (o.stage m uuid))
      | .ok fs' => (.ok ⟨m.id, m.version, o.target m, m.sha256⟩, fs')

end PluginInstaller

/-! ### What is installed -/

/-- The entries have a file at a path. -/
def HasFile (entries : List ArchiveEntry) (path : String) (content : Bytes) : Prop :=
  ∃ e ∈ entries, e.isDirectory = false ∧ e.path = path ∧ e.content = content

/-- In the place of the plugin there is a file at a path. -/
def Installed (fs : FileTree Bytes) (r : InstallResult) (p : Path) (content : Bytes) : Prop :=
  fs.get (r.path ++ p) = some (.file content)

section Files

variable {host : PluginHost} {o : PluginInstaller} {fs fs' : FileTree Bytes} {stage p : Path}
  {content : Bytes}

/-- Paths are told apart by their names. -/
theorem names_injective {path path' : String} (h : names path = names path') : path = path' := by
  have hof : Function.Injective String.ofList := fun l l' heq => by
    simpa using congrArg String.toList heq
  have hsplit : path.toList.splitOn '/' = path'.toList.splitOn '/' :=
    List.map_injective_iff.mpr hof h
  have hjoin : ∀ p : String, ['/'].intercalate (p.toList.splitOn '/') = p.toList :=
    fun p => List.intercalate_splitOn '/'
  have hlist : path.toList = path'.toList := by rw [← hjoin path, hsplit, hjoin path']
  simpa using congrArg String.ofList hlist

/-- The loop writes the files of the entries, and no others. -/
theorem file_foldlM_writeEntry {entries : List ArchiveEntry}
    (h : entries.foldlM (writeEntry stage) fs = .ok fs') :
    fs'.get (stage ++ p) = some (.file content) ↔
      fs.get (stage ++ p) = some (.file content) ∨
        ∃ e ∈ entries, e.isDirectory = false ∧ names e.path = p ∧ e.content = content := by
  induction entries generalizing fs with
  | nil =>
    obtain rfl := Except.ok.inj h
    simp
  | cons e entries ih =>
    simp only [List.foldlM_cons, bind_eq_ok] at h
    obtain ⟨fs₁, hone, hrest⟩ := h
    rw [ih hrest]
    unfold writeEntry at hone
    split at hone
    · -- a directory adds no file
      rename_i hdir
      rw [FileTree.file_mkdirAll hone]
      simp [hdir]
    · rename_i hfile
      simp only [bind_eq_ok] at hone
      obtain ⟨fs₂, hmkdir, hwrite⟩ := hone
      rw [(FileTree.file_writeNew hwrite).2, FileTree.file_mkdirAll hmkdir]
      have hfile : e.isDirectory = false := by simpa using hfile
      -- the file that is written is the one asked for, or another one
      have hthis : stage ++ p = stage ++ names e.path ∧ content = e.content ↔
          e.isDirectory = false ∧ names e.path = p ∧ e.content = content := by
        rw [List.append_cancel_left_eq]
        constructor
        · rintro ⟨hp, hc⟩
          exact ⟨hfile, hp.symm, hc.symm⟩
        · rintro ⟨-, hp, hc⟩
          exact ⟨hp.symm, hc.symm⟩
      rw [hthis, or_assoc]
      simp only [List.mem_cons, exists_eq_or_imp]

/-- What is installed is what the entries say, where the stage is new. -/
theorem installed_iff {uuid : String} {i : InstallCall} {r : InstallResult}
    (h : o.install host fs uuid i = (.ok r, fs'))
    (hfresh : ∀ m, host.parsePluginManifest i.manifest = .ok m → fs.Absent (o.stage m uuid)) :
    Installed fs' r p content ↔
      ∃ e ∈ i.entries, e.isDirectory = false ∧ names e.path = p ∧ e.content = content := by
  unfold PluginInstaller.install at h
  split at h
  · simp at h
  · rename_i m hcheck
    split at h
    · simp at h
    · rename_i staged hstaged
      split at h
      · simp at h
      · rename_i fs₁ hunpack
        obtain ⟨hr, rfl⟩ := Prod.mk.inj h
        obtain rfl := Except.ok.inj hr
        simp only [PluginInstaller.check, bind_eq_ok] at hcheck
        obtain ⟨m', hparse, _, _, _, _, _, _, _, _, _, _, _, _, hm⟩ := hcheck
        obtain rfl := Except.ok.inj hm
        simp only [PluginInstaller.unpack, bind_eq_ok] at hunpack
        obtain ⟨written, hwritten, moved, hmoved, hrename⟩ := hunpack
        -- the stage is new, so no file is below it before the entries are written
        have hempty : staged.get (o.stage m' uuid ++ p) ≠ some (.file content) := by
          intro hfile
          have hold := (FileTree.file_mkdirAll hstaged).mp hfile
          rw [hfresh m' hparse p] at hold
          simp at hold
        rw [Installed, FileTree.get_rename hrename, FileTree.file_mkdirAll hmoved,
          file_foldlM_writeEntry hwritten]
        exact or_iff_right hempty

/-- What a call returns depends on its manifest only. -/
theorem result_of_install {uuid : String} {i : InstallCall} {r : InstallResult}
    (h : o.install host fs uuid i = (.ok r, fs')) : ∃ m,
      host.parsePluginManifest i.manifest = .ok m ∧ r = ⟨m.id, m.version, o.target m, m.sha256⟩ := by
  unfold PluginInstaller.install at h
  split at h
  · simp at h
  · rename_i m hcheck
    split at h
    · simp at h
    · split at h
      · simp at h
      · obtain ⟨hr, -⟩ := Prod.mk.inj h
        simp only [PluginInstaller.check, bind_eq_ok] at hcheck
        obtain ⟨m', hparse, _, _, _, _, _, _, _, _, _, _, _, _, hm⟩ := hcheck
        obtain rfl := Except.ok.inj hm
        exact ⟨m', hparse, (Except.ok.inj hr).symm⟩

end Files

/-- **Plugin installs.** Two installations with one manifest, signature and package install the
same files exactly if the entries beside the package hold the same files. -/
theorem same_files_iff (host : PluginHost) (o : PluginInstaller) (i : InstallCall)
    (entries entries' : List ArchiveEntry) (fs₁ fs₁' fs₂ fs₂' : FileTree Bytes)
    (uuid₁ uuid₂ : String) (r₁ r₂ : InstallResult)
    (hfresh₁ : ∀ m, host.parsePluginManifest i.manifest = .ok m → fs₁.Absent (o.stage m uuid₁))
    (hfresh₂ : ∀ m, host.parsePluginManifest i.manifest = .ok m → fs₂.Absent (o.stage m uuid₂))
    (h₁ : o.install host fs₁ uuid₁ { i with entries } = (.ok r₁, fs₁'))
    (h₂ : o.install host fs₂ uuid₂ { i with entries := entries' } = (.ok r₂, fs₂')) :
    (r₁ = r₂ ∧ ∀ p content, Installed fs₁' r₁ p content ↔ Installed fs₂' r₂ p content) ↔
      ∀ path content, HasFile entries path content ↔ HasFile entries' path content := by
  have hresult : r₁ = r₂ := by
    obtain ⟨m, hm, rfl⟩ := result_of_install h₁
    obtain ⟨m', hm', rfl⟩ := result_of_install h₂
    obtain rfl := Except.ok.inj (hm.symm.trans hm')
    rfl
  have hfiles₁ : ∀ p content, Installed fs₁' r₁ p content ↔ _ :=
    fun _ _ => installed_iff h₁ hfresh₁
  have hfiles₂ : ∀ p content, Installed fs₂' r₂ p content ↔ _ :=
    fun _ _ => installed_iff h₂ hfresh₂
  -- a path has a file in the entries if its names have one
  have hnames : ∀ {es : List ArchiveEntry} {path : String} {content : Bytes},
      HasFile es path content ↔
        ∃ e ∈ es, e.isDirectory = false ∧ names e.path = names path ∧ e.content = content := by
    intro es path content
    constructor
    · rintro ⟨e, he, hfile, rfl, hcontent⟩
      exact ⟨e, he, hfile, rfl, hcontent⟩
    · rintro ⟨e, he, hfile, hpath, hcontent⟩
      exact ⟨e, he, hfile, names_injective hpath, hcontent⟩
  constructor
  · rintro ⟨-, hsame⟩ path content
    rw [hnames, hnames, ← hfiles₁ (names path) content, ← hfiles₂ (names path) content]
    exact hsame _ _
  · intro hsame
    refine ⟨hresult, fun p content => ?_⟩
    rw [hfiles₁, hfiles₂]
    constructor
    · rintro ⟨e, he, hfile, rfl, rfl⟩
      exact hnames.mp ((hsame e.path e.content).mp ⟨e, he, hfile, rfl, rfl⟩)
    · rintro ⟨e, he, hfile, rfl, rfl⟩
      exact hnames.mp ((hsame e.path e.content).mpr ⟨e, he, hfile, rfl, rfl⟩)

/-! ### One package, and other entries -/

/-- A schema that reads one manifest, and a hash that knows one package. -/
def sampleHost : PluginHost where
  parsePluginManifest manifest :=
    if manifest.text? = some "manifest" then
      .ok ⟨"com.acme.prices", "1.2.3",
        "2d711642b726b04401627ca9fbac32f5c8530fb1903cc4db02258717921a4881", .null⟩
    else .error "Invalid/unknown/forbidden plugin manifest"
  canonicalManifest m := .ok m.id
  sha256 bytes :=
    if bytes = [120] then "2d711642b726b04401627ca9fbac32f5c8530fb1903cc4db02258717921a4881"
    else ""

def sampleInstaller : PluginInstaller where
  root := ["plugins"]
  verifySignature payload signature := .ok (payload = "com.acme.prices" ∧ signature = [1])
  limits := none

def sampleCall : InstallCall := ⟨.string "manifest", [1], [120], []⟩

/-- What is in the place of the plugin after the entries were installed on an empty disk. -/
def sampleInstall (entries : List ArchiveEntry) : Except String InstallResult × FileTree Bytes :=
  sampleInstaller.install sampleHost .empty "uuid" { sampleCall with entries }

def sampleResult : InstallResult where
  id := "com.acme.prices"
  version := "1.2.3"
  path := ["plugins", "com.acme.prices", "1.2.3"]
  checksum := "2d711642b726b04401627ca9fbac32f5c8530fb1903cc4db02258717921a4881"

/-- An entry for a directory makes no difference. -/
theorem same_files_directory :
    Installed (sampleInstall [⟨"index.js", [49], none⟩]).2 sampleResult =
      Installed (sampleInstall [⟨"lib", [], some .directory⟩, ⟨"index.js", [49], none⟩]).2
        sampleResult := by
  ext p content
  refine ((same_files_iff sampleHost sampleInstaller sampleCall [⟨"index.js", [49], none⟩]
    [⟨"lib", [], some .directory⟩, ⟨"index.js", [49], none⟩] .empty _ .empty _ "uuid" "uuid"
    sampleResult sampleResult (fun _ _ _ => rfl) (fun _ _ _ => rfl)
    (Prod.ext (by decide) rfl) (Prod.ext (by decide) rfl)).mpr ?_).2 p content
  intro path content
  simp [HasFile, ArchiveEntry.isDirectory]

/-- Other entries beside the same package are installed just as well. -/
theorem other_files_installed :
    (sampleInstall [⟨"index.js", [49], none⟩]).1 = .ok sampleResult ∧
    (sampleInstall [⟨"index.js", [50], none⟩]).1 = .ok sampleResult ∧
    Installed (sampleInstall [⟨"index.js", [49], none⟩]).2 sampleResult ["index.js"] [49] ∧
    ¬Installed (sampleInstall [⟨"index.js", [50], none⟩]).2 sampleResult ["index.js"] [49] := by
  refine ⟨by decide, by decide, ?_, ?_⟩
  · show (sampleInstall [⟨"index.js", [49], none⟩]).2.get _ = _
    decide
  · show ¬(sampleInstall [⟨"index.js", [50], none⟩]).2.get _ = _
    decide

end AriOs.Plugins
