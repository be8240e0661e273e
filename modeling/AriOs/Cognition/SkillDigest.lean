import AriOs.Cognition.Skills

/-!
# What a checksum pins

The checksum of a skill is the hash of its manifest and its supporting files, each path and each
text after a separator. The texts may contain the separator, so the supporting files can be read
as the end of the manifest, and a manifest can be read as one with supporting files: a checksum pins
its skill only if neither is possible.
-/

namespace AriOs.Cognition.Skills

open AriOs.Js AriOs.Storage

/-! ### Trees -/

/-- The key of a supporting file: a path below one of the directories, in POSIX form. -/
def supportKey (key : String) : Bool :=
  (parts key).headD "" ∈ SUPPORT && (parts key).tail ≠ [] && (parts key).tail ≠ [""] &&
    posixKey key = key && Char.ofNat 0 ∉ key.toList

/-- A skill as it is loaded. -/
structure SkillTree where
  text : String
  support : OrderedMap String String
  keys : ∀ f ∈ support.rows, supportKey f.1 = true

namespace SkillTree

def checksum (host : Host) (t : SkillTree) : String := digest host t.text t.support

/-- The same manifest and the same files. -/
def Same (t t' : SkillTree) : Prop :=
  t.text = t'.text ∧ ∀ key, t.support.get key = t'.support.get key

end SkillTree

/-- The check of a checksum pin when a skill is loaded; an empty one is none. -/
def pinAccepts (pin checksum : String) : Bool := pin = "" || pin = checksum

/-- The checksum of a tree, as a pin, is accepted of that tree only. -/
def Pins (host : Host) (t : SkillTree) : Prop :=
  ∀ t' : SkillTree, pinAccepts (t.checksum host) (t'.checksum host) = true ↔ t'.Same t

/-- A text that goes on, after a separator, with a path and the text of a file. -/
def HoldsFile (text : String) : Prop :=
  ∃ before key content, supportKey key = true ∧ text = before ++ "\x00" ++ key ++ "\x00" ++ content

/-! ### What is hashed -/

/-- The manifest and the files as they are hashed, after the header. -/
def payload (text : String) (files : List (String × String)) : String :=
  files.foldl (fun h f => h ++ "\x00" ++ f.1 ++ "\x00" ++ f.2) text

theorem payload_append (before text : String) (files : List (String × String)) :
    payload (before ++ text) files = before ++ payload text files := by
  induction files generalizing text with
  | nil => rfl
  | cons f files ih =>
    simpa [payload, String.append_assoc] using ih (text ++ "\x00" ++ f.1 ++ "\x00" ++ f.2)

/-- The files after the first one are read as a part of its text. -/
theorem payload_cons (text : String) (f : String × String) (files : List (String × String)) :
    payload text (f :: files) = text ++ "\x00" ++ f.1 ++ "\x00" ++ payload f.2 files := by
  rw [← payload_append]
  rfl

variable {host : Host} {t t' : SkillTree}

/-- The files in the order they are hashed. -/
def SkillTree.sorted (host : Host) (t : SkillTree) : List (String × String) :=
  t.support.rows.insertionSort fun a b => host.localeLe a.1 b.1 = true

theorem checksum_eq : t.checksum host =
    host.sha256 ("SKILL.md\x00" ++ payload t.text (t.sorted host)) := by
  rw [← payload_append]
  rfl

theorem checksum_inj (hinj : Function.Injective host.sha256)
    (h : t'.checksum host = t.checksum host) :
    payload t'.text (t'.sorted host) = payload t.text (t.sorted host) := by
  rw [checksum_eq, checksum_eq] at h
  exact (String.append_right_inj _).mp (hinj h)

theorem mem_sorted {f : String × String} : f ∈ t.sorted host ↔ f ∈ t.support.rows :=
  (List.perm_insertionSort _ _).mem_iff

theorem holdsFile_payload {f : String × String} {files : List (String × String)} {text : String}
    (hf : supportKey f.1 = true) : HoldsFile (payload text (f :: files)) :=
  ⟨text, f.1, payload f.2 files, hf, payload_cons text f files⟩

/-! ### When a checksum pins -/

/-- A manifest alone. -/
def SkillTree.plain (text : String) : SkillTree := ⟨text, Table.empty, by simp⟩

theorem rows_set_empty {key content : String} :
    (OrderedMap.set Table.empty key content).rows = [(key, content)] := rfl

/-- A manifest with one file. -/
def SkillTree.single (text key content : String) (hkey : supportKey key = true) : SkillTree :=
  ⟨text, OrderedMap.set Table.empty key content, by
    rw [rows_set_empty]
    simpa using hkey⟩

theorem checksum_single {text key content : String} (hkey : supportKey key = true) :
    (SkillTree.single text key content hkey).checksum host =
      host.sha256 ("SKILL.md\x00" ++ (text ++ "\x00" ++ key ++ "\x00" ++ content)) := by
  rw [checksum_eq, SkillTree.sorted]
  rfl

theorem rows_eq_nil_of_get (h : ∀ key, t.support.get key = none) : t.support.rows = [] := by
  rw [List.eq_nil_iff_forall_not_mem]
  intro f hf
  have hget := h f.1
  rw [OrderedMap.get, Table.mem_rows_iff.mp hf] at hget
  exact absurd hget (by simp)

theorem get_of_rows_nil (h : t.support.rows = []) (key : String) : t.support.get key = none := by
  simp [OrderedMap.get, Table.find?, h]

theorem same_of_rows_nil (ht : t.support.rows = []) (ht' : t'.support.rows = [])
    (htext : t'.text = t.text) : t'.Same t := by
  refine ⟨htext, fun key => ?_⟩
  rw [get_of_rows_nil ht, get_of_rows_nil ht']

theorem pinAccepts_iff (hne : ∀ s, host.sha256 s ≠ "") :
    pinAccepts (t.checksum host) (t'.checksum host) = true ↔
      t.checksum host = t'.checksum host := by
  have hchecksum : t.checksum host ≠ "" := hne _
  simp [pinAccepts, hchecksum]

theorem sorted_eq_nil_iff : t.sorted host = [] ↔ t.support.rows = [] := by
  rw [List.eq_nil_iff_forall_not_mem, List.eq_nil_iff_forall_not_mem]
  simp only [mem_sorted]

/-- The files of a tree may be read as the end of its manifest. -/
theorem checksum_merged : (SkillTree.plain (payload t.text (t.sorted host))).checksum host =
    t.checksum host := by
  have hsorted : (SkillTree.plain (payload t.text (t.sorted host))).sorted host = [] :=
    sorted_eq_nil_iff.mpr rfl
  rw [checksum_eq, checksum_eq, hsorted]
  rfl

/-- A checksum pins its tree exactly if there are no supporting files and the manifest does not hold
one. -/
theorem pins_iff (hinj : Function.Injective host.sha256) (hne : ∀ s, host.sha256 s ≠ "")
    (t : SkillTree) : Pins host t ↔ t.support.rows = [] ∧ ¬ HoldsFile t.text := by
  simp only [Pins, pinAccepts_iff hne]
  constructor
  · intro hpins
    have hmerged := (hpins (.plain (payload t.text (t.sorted host)))).mp checksum_merged.symm
    have hrows : t.support.rows = [] := rows_eq_nil_of_get fun key => (hmerged.2 key).symm
    refine ⟨hrows, ?_⟩
    rintro ⟨before, key, content, hkey, htext⟩
    -- the manifest up to the path, with the rest as the file
    have hsame : (SkillTree.single before key content hkey).Same t := by
      refine (hpins _).mp ?_
      rw [checksum_single, checksum_eq, sorted_eq_nil_iff.mpr hrows, ← htext]
      rfl
    have hget := hsame.2 key
    rw [get_of_rows_nil hrows, SkillTree.single, OrderedMap.get_set_self] at hget
    exact absurd hget (by simp)
  · rintro ⟨hrows, hfile⟩ t'
    have hpayload : payload t.text (t.sorted host) = t.text := by
      rw [sorted_eq_nil_iff.mpr hrows]
      rfl
    constructor
    · intro hchecksum
      have htext := checksum_inj hinj hchecksum.symm
      rw [hpayload] at htext
      cases hsorted : t'.sorted host with
      | nil =>
        rw [hsorted] at htext
        exact same_of_rows_nil hrows (sorted_eq_nil_iff.mp hsorted) htext
      | cons f files =>
        -- the manifest would hold the first file of the other tree
        have hf : supportKey f.1 = true :=
          t'.keys f (mem_sorted.mp (hsorted ▸ List.mem_cons_self))
        rw [hsorted] at htext
        exact absurd (htext ▸ holdsFile_payload hf) hfile
    · intro hsame
      have hrows' : t'.support.rows = [] :=
        rows_eq_nil_of_get fun key => (hsame.2 key).trans (get_of_rows_nil hrows key)
      rw [checksum_eq, checksum_eq, sorted_eq_nil_iff.mpr hrows, sorted_eq_nil_iff.mpr hrows',
        hsame.1]

/-! ### Two trees with one checksum -/

section Sample

/-- A hash that has no collisions, and an order. -/
def plainHost : Host := ⟨fun _ => .ok "demo", fun s => "#" ++ s, fun a b => a ≤ b⟩

def sampleText : String := "---\nname: demo\n---\n"

def oneFile : SkillTree :=
  .single sampleText "references/a" "one\x00references/b\x00two" (by decide)

def twoFiles : SkillTree where
  text := sampleText
  support := OrderedMap.set (OrderedMap.set Table.empty "references/a" "one") "references/b" "two"
  keys := by decide

/-- A file whose text goes on with the path and the text of another. -/
theorem two_trees_one_checksum : oneFile.checksum plainHost = twoFiles.checksum plainHost ∧
    ¬ oneFile.Same twoFiles ∧ ¬ Pins plainHost twoFiles := by
  have hchecksum : oneFile.checksum plainHost = twoFiles.checksum plainHost := by decide
  have hdifferent : ¬ oneFile.Same twoFiles := by
    intro hsame
    have hget := hsame.2 "references/b"
    exact absurd hget (by decide)
  refine ⟨hchecksum, hdifferent, fun hpins => hdifferent ((hpins oneFile).mp ?_)⟩
  rw [hchecksum]
  simp [pinAccepts]

/-- A manifest without a separator, alone. -/
theorem pins_sampleText : Pins plainHost (.plain sampleText) := by
  have hinj : Function.Injective plainHost.sha256 :=
    fun _ _ h => (String.append_right_inj _).mp h
  have hne : ∀ s, plainHost.sha256 s ≠ "" := by
    intro s h
    have := congrArg String.toList h
    simp [plainHost] at this
  refine (pins_iff hinj hne (.plain sampleText)).mpr ⟨rfl, ?_⟩
  rintro ⟨before, key, content, -, htext⟩
  have hmem : Char.ofNat 0 ∈ (SkillTree.plain sampleText).text.toList := by
    rw [htext]
    simp
  exact absurd hmem (by decide)

end Sample

end AriOs.Cognition.Skills
