import AriOs.Cognition.Skills

/-!
# Updates as compare-and-swap

With an expected checksum an update should be a compare-and-swap: of several updates that expect
the same checksum one succeeds, and an update that throws leaves the skill as it was. The checksum
is compared with files that were read long before the renames, and the handler puts the old tree
back as far as its own steps go.
-/

namespace AriOs.Cognition.Skills

open AriOs.Async AriOs.Js AriOs.Storage

/-! ### What an update knows -/

/-- What an update has done to the directory of the skill. -/
inductive Phase where
  | before | taken | placed | cleared | restored | committed
  deriving DecidableEq, Repr

structure View where
  request : UpdateCall
  manifest : Option String
  read : List (Path × String)
  phase : Phase

def View.start (r : UpdateCall) : View := ⟨r, none, [], .before⟩

/-- The map of the supporting files that were read. -/
def mapOf (read : List (Path × String)) : OrderedMap String String :=
  read.foldl (fun m f => m.set (posixKey (String.intercalate "/" f.1)) f.2) Table.empty

section Discipline

variable (host : Host) (root : Path) (real : Prop)

/-- The directory of the skill an update is about. -/
def View.target (v : View) : Path := root ++ [v.request.name]

def View.temp (v : View) : Path := Skills.temp (v.target root) v.request.id

def View.backup (v : View) : Path := Skills.backup (v.target root) v.request.id

/-- What a call adds to what an update knows. -/
def View.push (v : View) : Entry interface → View
  | ⟨.readFile p _ _, .ok text⟩ =>
    if p = v.target root ++ ["SKILL.md"] then { v with manifest := some text }
    else { v with read := v.read ++ [(p.drop (v.target root).length, text)] }
  | ⟨.rename src _, .ok _⟩ =>
    { v with phase := if src = v.target root then .taken
                      else if src = v.temp root then .placed else .restored }
  | ⟨.rm p _, .ok _⟩ =>
    { v with phase := if p = v.target root then .cleared
                      else if p = v.backup root then .committed else v.phase }
  | _ => v

def UpdateCall.expected (r : UpdateCall) : String := r.expectedChecksum.getD ""

/-- What was read has the checksum that is expected, if there is one. -/
def View.Checked (v : View) : Prop :=
  ∃ text, v.manifest = some text ∧
    (v.request.expected ≠ "" → digest host text (mapOf v.read) = v.request.expected)

/-- What an update has done by the time it makes a call. -/
def View.May (v : View) : Op → Prop
  | .rename src dst =>
    real ∧ (src = v.target root ∧ dst = v.backup root ∧ v.phase = .before ∧ v.Checked host ∨
      src = v.temp root ∧ dst = v.target root ∧ v.phase = .taken ∨
      src = v.backup root ∧ dst = v.target root ∧ v.phase = .cleared)
  | .rm p _ =>
    real ∧ (p = v.temp root ∧ v.phase ≠ .committed ∨
      p = v.target root ∧ (v.phase = .taken ∨ v.phase = .placed) ∨
      p = v.backup root ∧ v.phase = .placed)
  | .mkdir p | .mkdirAll p | .writeNew p _ => real ∧ v.temp root <+: p ∧ v.phase = .before
  | _ => v.phase ≠ .committed

/-- The answers an update relies on: the root is real if it looks like it, and a rollback works. -/
def View.Relies (v : View) : Entry interface → Prop
  | ⟨.lstat p, r⟩ => p = root → r = .ok .dir → real
  | ⟨.realpath p, r⟩ => p = root → real → ∀ q, r = .ok q → q = root
  | ⟨.rm p _, r⟩ =>
    (v.phase = .taken ∨ v.phase = .placed) → p ≠ v.backup root → r = .ok ()
  | ⟨.rename src _, r⟩ => v.phase = .cleared → src = v.backup root → r = .ok ()
  | _ => True

def discipline : Discipline interface View where
  upd := View.push root
  pre := View.May host root real
  adm := View.Relies root real

end Discipline

/-! ### Paths -/

section Paths

variable {root : Path} {name id id' suffix a b : String} {p q : Path}

theorem besides_eq : besides (root ++ [name]) suffix id = root ++ [name ++ suffix ++ id] := by
  simp [besides]

theorem temp_eq : Skills.temp (root ++ [name]) id = root ++ [name ++ ".tmp-" ++ id] := besides_eq

theorem backup_eq :
    Skills.backup (root ++ [name]) id = root ++ [name ++ ".bak-" ++ id] := besides_eq

theorem sibling_prefix_iff : root ++ [a] <+: root ++ [b] ++ q ↔ a = b := by
  simp [List.append_assoc, List.prefix_append_right_inj, List.cons_prefix_cons]

theorem sibling_inj_iff : root ++ [a] = root ++ [b] ↔ a = b := by simp

theorem append_ne_self (h : suffix ≠ "") : name ++ suffix ++ id ≠ name := by
  intro heq
  have hlist := congrArg String.toList heq
  rw [String.toList_append, String.toList_append, List.append_assoc, List.append_right_eq_self,
    List.append_eq_nil_iff] at hlist
  exact h (by simpa using hlist.1)

theorem temp_ne_backup : name ++ ".tmp-" ++ id ≠ name ++ ".bak-" ++ id' := by
  intro heq
  have hlist := congrArg String.toList heq
  simp [String.toList_append] at hlist

end Paths

/-! ### What the body of an update promises -/

section Safe

variable {host : Host} {root : Path} {real : Prop} {r : UpdateCall} {α : Type}

/-- The update has left the directory alone, or put it back. -/
def View.Left (v : View) : Prop := v.phase = .before ∨ v.phase = .restored

theorem push_error (v : View) (o : Op) (e : SkillError) :
    v.push root ⟨o, (.error e : Except SkillError o.Value)⟩ = v := by
  cases o <;> rfl

/-- One call: what is relied on may be used, and a failed one changes nothing that is known. -/
theorem callOut_ends {o : Op} {v : View} {moved : Bool} {Q : View → Bool → o.Value → Prop}
    {E : View → Bool → SkillError → Prop} (hpre : v.May host root real o)
    (hok : ∀ a, v.Relies root real ⟨o, .ok a⟩ → Q (v.push root ⟨o, .ok a⟩) moved a)
    (herror : ∀ e, v.Relies root real ⟨o, .error e⟩ → E v moved e) :
    (callOut o).Ends (discipline host root real) Q E v moved := by
  refine Routine.ends_bind.mpr (Routine.ends_ask.mpr ⟨hpre, fun res hres => ?_⟩)
  refine Routine.ends_ofExcept.mpr ⟨?_, ?_⟩
  · rintro a rfl
    exact hok a hres
  · rintro e rfl
    have hpush : v.push root ⟨o, (.error e : Except SkillError o.Value)⟩ = v := push_error v o e
    change E (v.push root ⟨o, (.error e : Except SkillError o.Value)⟩) moved e
    rw [hpush]
    exact herror e hres

theorem triple_callOut {o : Op} {P E : View → Prop} {Q : View → o.Value → Prop}
    (hpre : ∀ v, P v → v.May host root real o)
    (hok : ∀ v a, P v → v.Relies root real ⟨o, .ok a⟩ → Q (v.push root ⟨o, .ok a⟩) a)
    (herror : ∀ v e, P v → v.Relies root real ⟨o, .error e⟩ → E v) :
    (callOut o).Triple (discipline host root real) P Q E :=
  fun v _ hv => callOut_ends (hpre v hv) (fun a => hok v a hv) fun e => herror v e hv

theorem triple_throw {P E : View → Prop} {Q : View → α → Prop} (e : SkillError)
    (h : ∀ v, P v → E v) :
    (throw e : Body α).Triple (discipline host root real) P Q E :=
  (Routine.triple_throw e).weaken h (fun _ _ => id) fun _ => id

theorem triple_pure {P E : View → Prop} {Q : View → α → Prop} (a : α) (h : ∀ v, P v → Q v a) :
    (pure a : Body α).Triple (discipline host root real) P Q E :=
  fun v _ hv => h v hv

/-- The update is still reading. -/
def Reading (r : UpdateCall) (v : View) : Prop := v.request = r ∧ v.phase = .before

theorem Reading.left {v : View} (h : Reading r v) : v.Left := .inl h.2

theorem Reading.not_committed {v : View} (h : Reading r v) : v.phase ≠ .committed := by
  rw [h.2]
  decide

theorem controlled_spec {m : SkillManager} (hroot : root = m.controlledRoot.getD []) :
    (controlled m r.name).Triple (discipline host root real) (· = View.start r)
      (fun v p => v = View.start r ∧ real ∧ p = root ++ [r.name]) View.Left := by
  have hleft : ∀ v, v = View.start r → v.Left := fun v hv => .inl (by rw [hv]; rfl)
  have hmay : ∀ v, v = View.start r → v.phase ≠ .committed := fun v hv => by
    rw [hv]
    exact Phase.noConfusion
  unfold controlled
  cases hcontrolled : m.controlledRoot with
  | none => exact triple_throw _ hleft
  | some lexical =>
    obtain rfl : root = lexical := by simpa [hcontrolled] using hroot
    dsimp only
    split
    · exact triple_throw _ hleft
    refine Routine.Triple.bind (Q := fun v kind => v = View.start r ∧ (kind = .dir → real))
      (triple_callOut hmay (fun v kind hv hrelies => ⟨hv, fun hdir => hrelies rfl (by rw [hdir])⟩)
        fun v _ hv _ => hleft v hv) fun kind => ?_
    split
    · exact triple_throw _ fun v hv => hleft v hv.1
    rename_i hdir
    rw [not_not] at hdir
    refine Routine.Triple.bind (Q := fun v p => v = View.start r ∧ real ∧ p = root)
      (triple_callOut (fun v hv => hmay v hv.1)
        (fun v p hv hrelies => ⟨hv.1, hv.2 hdir, hrelies rfl (hv.2 hdir) p rfl⟩)
        fun v _ hv _ => hleft v hv.1) fun canonical => ?_
    split
    · exact triple_throw _ fun v hv => hleft v hv.1
    · exact triple_pure _ fun v hv => ⟨hv.1, hv.2.1, by rw [hv.2.2]⟩

/-- The manifest was read, and so far these supporting files. -/
def ReadSoFar (r : UpdateCall) (text : String) (out : OrderedMap String String) (v : View) : Prop :=
  Reading r v ∧ v.manifest = some text ∧ out = mapOf v.read

theorem readEntries_spec {text top : String} {base : Path} (htop : top ∈ SUPPORT)
    (entries : List (Path × Kind)) (out : OrderedMap String String) :
    (readEntries (root ++ [r.name]) base top entries out).Triple (discipline host root real)
      (ReadSoFar r text out) (fun v out => ReadSoFar r text out v) View.Left := by
  induction entries generalizing out with
  | nil => exact triple_pure _ fun v hv => hv
  | cons entry entries ih =>
    obtain ⟨rel, kind⟩ := entry
    unfold readEntries
    split
    · split
      · exact triple_throw _ fun v hv => hv.1.left
      · refine Routine.Triple.bind (Q := fun v found => ReadSoFar r text
          (out.set (posixKey (String.intercalate "/" (top :: rel))) found) v)
          (triple_callOut (fun v hv => hv.1.not_committed) (fun v found hv _ => ?_)
            fun v _ hv _ => hv.1.left) fun found => ih _
        obtain ⟨⟨hreq, hphase⟩, hmanifest, hout⟩ := hv
        have htarget : v.target root = root ++ [r.name] := by rw [View.target, hreq]
        -- no support file is the manifest
        have hne : root ++ [r.name] ++ top :: rel ≠ root ++ [r.name] ++ ["SKILL.md"] := by
          intro heq
          have hcons := List.append_cancel_left heq
          obtain rfl : top = "SKILL.md" := (List.cons.inj hcons).1
          exact absurd htop (by decide)
        -- so the file is noted among those that were read
        have hpush : v.push root ⟨.readFile (root ++ [r.name] ++ top :: rel) base MAX_FILE, .ok found⟩ =
            { v with read := v.read ++ [(top :: rel, found)] } := by
          simp only [View.push, htarget, if_neg hne, List.drop_left]
        rw [hpush]
        exact ⟨⟨hreq, hphase⟩, hmanifest, by simp [mapOf, hout]⟩
    · exact ih out

/-- A call that tells an update nothing, and does nothing to the directory. -/
theorem triple_look {o : Op} {P E : View → Prop} (hpre : ∀ v, P v → v.May host root real o)
    (hpush : ∀ (v : View) (a : o.Value), v.push root ⟨o, .ok a⟩ = v) (hE : ∀ v, P v → E v) :
    (callOut o).Triple (discipline host root real) P (fun v _ => P v) E := by
  refine triple_callOut hpre (fun v a hv _ => ?_) fun v _ hv _ => hE v hv
  rw [hpush v a]
  exact hv

theorem listTop_spec {text top : String} {dir : Path} {out : OrderedMap String String} :
    (listTop dir top).Triple (discipline host root real) (ReadSoFar r text out)
      (fun v _ => ReadSoFar r text out v) View.Left := by
  have hmay : ∀ v, ReadSoFar r text out v → v.phase ≠ .committed := fun v hv => hv.1.not_committed
  refine Routine.Triple.tryCatch (F := ReadSoFar r text out) ?_ fun e => ?_
  · refine Routine.Triple.bind (Q := fun v _ => ReadSoFar r text out v)
      (triple_look hmay (fun _ _ => rfl) fun _ => id) fun kind => ?_
    split
    · exact triple_throw _ fun _ => id
    · exact triple_look hmay (fun _ _ => rfl) fun _ => id
  · split
    · exact triple_pure _ fun v hv => hv
    · exact triple_throw _ fun v hv => hv.1.left

theorem readTops_spec {text : String} {base : Path} {tops : List String}
    (htops : ∀ top ∈ tops, top ∈ SUPPORT) (out : OrderedMap String String) :
    (readTops (root ++ [r.name]) base tops out).Triple (discipline host root real)
      (ReadSoFar r text out) (fun v out => ReadSoFar r text out v) View.Left := by
  induction tops generalizing out with
  | nil => exact triple_pure _ fun v hv => hv
  | cons top tops ih =>
    rw [List.forall_mem_cons] at htops
    exact listTop_spec.bind fun entries =>
      (readEntries_spec htops.1 entries out).bind fun out => ih htops.2 out

/-- An update that goes on has read what is expected. -/
def Ready (host : Host) (r : UpdateCall) (v : View) : Prop := Reading r v ∧ v.Checked host

variable (real) in
theorem compare_spec {m : SkillManager} :
    (compare host m (root ++ [r.name]) r).Triple (discipline host root real) (· = View.start r)
      (fun v _ => Ready host r v) View.Left := by
  -- at the start nothing is read and nothing is moved
  have hstart : ∀ v, v = View.start r → Reading r v := by
    rintro v rfl
    exact ⟨rfl, rfl⟩
  have hleft : ∀ v, v = View.start r → v.Left := fun v hv => (hstart v hv).left
  have hmay : ∀ v, v = View.start r → v.phase ≠ .committed := fun v hv =>
    (hstart v hv).not_committed
  refine (triple_look hmay (fun _ _ => rfl) hleft).bind fun base => ?_
  refine (triple_look hmay (fun _ _ => rfl) hleft).bind fun kind => ?_
  split
  · exact triple_throw _ hleft
  refine Routine.Triple.bind (Q := fun v text => ReadSoFar r text Table.empty v)
    (triple_callOut hmay (fun v text hv _ => ?_) fun v _ hv _ => hleft v hv) fun text => ?_
  · obtain rfl := hv
    -- the manifest is the first file that is read
    have hpush : (View.start r).push root
        ⟨.readFile (root ++ [r.name] ++ ["SKILL.md"]) base MAX_MANIFEST, .ok text⟩ =
          { View.start r with manifest := some text } := if_pos rfl
    rw [hpush]
    exact ⟨⟨rfl, rfl⟩, rfl, rfl⟩
  · refine (readTops_spec (fun _ => id) _).bind fun out => ?_
    dsimp only
    split
    · exact triple_throw _ fun v hv => hv.1.left
    · -- past the check the checksum of what was read is the expected one
      rename_i hchecked
      refine triple_pure _ fun v hv => ⟨hv.1, text, hv.2.1, fun hexpected => ?_⟩
      rw [not_and, not_not] at hchecked
      rw [← hv.2.2, hv.1.1]
      exact (hchecked (by rwa [hv.1.1] at hexpected)).symm

/-- An update may do what it likes with the tree it prepares. -/
theorem Ready.temp_eq {v : View} (h : Ready host r v) :
    v.temp root = Skills.temp (root ++ [r.name]) r.id := by
  rw [View.temp, View.target, h.1.1]

theorem writeFiles_spec (hreal : real) (files : List (String × String)) :
    (writeFiles (Skills.temp (root ++ [r.name]) r.id) files).Triple (discipline host root real)
      (Ready host r) (fun v _ => Ready host r v) (Ready host r) := by
  have hjoined : ∀ path, joined path ≠ [] := by
    intro path h
    simp [joined, List.splitOn_ne_nil] at h
  induction files with
  | nil => exact triple_pure _ fun v hv => hv
  | cons file files ih =>
    obtain ⟨path, value⟩ := file
    refine (triple_look (o := .mkdirAll _) (fun v hv => ⟨hreal, ?_, hv.1.2⟩) (fun _ _ => rfl)
      fun _ => id).bind fun _ => ?_
    · rw [hv.temp_eq, List.dropLast_append_of_ne_nil (hjoined path)]
      exact List.prefix_append _ _
    refine (triple_look (o := .writeNew _ _) (fun v hv => ⟨hreal, ?_, hv.1.2⟩) (fun _ _ => rfl)
      fun _ => id).bind fun _ => ih
    rw [hv.temp_eq]
    exact List.prefix_append _ _

theorem rm_temp_push {v : View} {id : String} {force : Bool} {a : Unit} :
    v.push root ⟨.rm (Skills.temp (v.target root) id) force, .ok a⟩ = v := by
  have htarget : Skills.temp (v.target root) id ≠ v.target root := by
    rw [View.target, Skills.temp_eq, Ne, sibling_inj_iff]
    exact append_ne_self (by decide)
  have hbackup : Skills.temp (v.target root) id ≠ v.backup root := by
    rw [View.backup, View.target, Skills.temp_eq, backup_eq, Ne, sibling_inj_iff]
    exact temp_ne_backup
  simp [View.push, htarget, hbackup]

theorem writeTree_spec (hreal : real) (text : String) (files : List (String × String)) :
    (writeTree (Skills.temp (root ++ [r.name]) r.id) text files).Triple (discipline host root real)
      (Ready host r) (fun v _ => Ready host r v) View.Left := by
  have hleft : ∀ v, Ready host r v → v.Left := fun v hv => hv.1.left
  have htemp : ∀ v, Ready host r v → v.temp root <+: Skills.temp (root ++ [r.name]) r.id :=
    fun v hv => by rw [hv.temp_eq]
  refine (triple_look (o := .mkdir _) (fun v hv => ⟨hreal, htemp v hv, hv.1.2⟩) (fun _ _ => rfl)
    hleft).bind fun _ => ?_
  refine Routine.Triple.tryCatch (F := Ready host r) ?_ fun e => ?_
  · split
    · exact triple_throw _ fun _ => id
    · refine Routine.Triple.bind (Q := fun v _ => Ready host r v)
        (Routine.keeps_ofExcept _) fun _ => ?_
      exact (writeFiles_spec hreal _).bind fun _ =>
        triple_look (fun v hv => hv.1.not_committed) (fun _ _ => rfl) fun _ => id
  · refine Routine.Triple.bind (Q := fun v _ => Ready host r v) (triple_callOut (fun v hv => ?_)
      (fun v _ hv _ => ?_) fun v _ hv _ => hleft v hv) fun _ => triple_throw _ hleft
    · exact ⟨hreal, .inl ⟨hv.temp_eq.symm, hv.1.not_committed⟩⟩
    · have htarget : root ++ [r.name] = v.target root := by rw [View.target, hv.1.1]
      rw [htarget, rm_temp_push]
      exact hv

/-- The update knows that the directory is moved away. -/
def Moved (r : UpdateCall) (v : View) : Prop :=
  v.request = r ∧ (v.phase = .taken ∨ v.phase = .placed)

variable (root) in
theorem Moved.target_eq {v : View} (h : Moved r v) : v.target root = root ++ [r.name] := by
  rw [View.target, h.1]

/-- Once the directory is moved away, the handler puts it back and throws. -/
theorem rollBack_moved (hreal : real) {v : View} (hv : Moved r v) {e : SkillError}
    {Q : View → Bool → Unit → Prop} :
    (rollBack (root ++ [r.name]) r.id e).Ends (discipline host root real) Q
      (fun w _ _ => w.Left) v true := by
  -- the three paths are different
  have htarget := hv.target_eq root
  have hnot : v.phase ≠ .committed := by
    rcases hv.2 with h | h <;> rw [h] <;> exact Phase.noConfusion
  have htemp : Skills.temp (root ++ [r.name]) r.id = v.temp root := by
    rw [View.temp, htarget, hv.1]
  have hbackup : Skills.backup (root ++ [r.name]) r.id = v.backup root := by
    rw [View.backup, htarget, hv.1]
  have htemp_ne : v.temp root ≠ v.backup root := by
    rw [View.temp, View.backup, View.target, temp_eq, backup_eq, Ne, sibling_inj_iff]
    exact temp_ne_backup
  have hbackup_ne : v.backup root ≠ v.target root := by
    rw [View.backup, View.target, backup_eq, Ne, sibling_inj_iff]
    exact append_ne_self (by decide)
  have hback_temp : v.backup root ≠ v.temp root := htemp_ne.symm
  -- of the removals and the renaming of the rollback none fails, by what the calls rely on
  unfold rollBack
  rw [htemp, hbackup, ← htarget]
  rw [Routine.ends_bind]
  refine callOut_ends (o := .rm _ _) ⟨hreal, .inl ⟨rfl, hnot⟩⟩ (fun _ _ => ?_) fun e hrelies => ?_
  · have hpush : v.push root ⟨.rm (v.temp root) true, .ok ()⟩ = v := rm_temp_push
    rw [hpush]
    refine Routine.ends_bind.mpr (Routine.ends_locals.mpr ?_)
    rw [if_pos rfl]
    refine Routine.ends_bind.mpr (Routine.ends_tryCatch.mpr (Routine.ends_bind.mpr ?_))
    refine callOut_ends (o := .rm _ _) ⟨hreal, .inr (.inl ⟨rfl, hv.2⟩)⟩ (fun _ _ => ?_)
      fun e hrelies => ?_
    · have hcleared : v.push root ⟨.rm (v.target root) true, .ok ()⟩ =
          { v with phase := .cleared } := by
        simp [View.push]
      rw [hcleared]
      refine callOut_ends (o := .rename _ _) ⟨hreal, .inr (.inr ⟨rfl, rfl, rfl⟩)⟩ (fun _ _ => ?_)
        fun e hrelies => ?_
      · refine Or.inr ?_
        change (if v.backup root = v.target root then _ else
          if v.backup root = v.temp root then _ else _) = Phase.restored
        rw [if_neg hbackup_ne, if_neg hback_temp]
      · exact nomatch (hrelies rfl rfl)
    · exact nomatch (hrelies hv.2 hbackup_ne.symm)
  · exact nomatch (hrelies hv.2 htemp_ne)

/-- Before that, the handler has nothing to put back. -/
theorem rollBack_unmoved (hreal : real) {v : View} (hv : Ready host r v) {e : SkillError}
    {Q : View → Bool → Unit → Prop} :
    (rollBack (root ++ [r.name]) r.id e).Ends (discipline host root real) Q
      (fun w _ _ => w.Left) v false := by
  have htarget : v.target root = root ++ [r.name] := by rw [View.target, hv.1.1]
  refine Routine.ends_bind.mpr ?_
  refine callOut_ends (o := .rm _ _) ⟨hreal, .inl ⟨hv.temp_eq.symm, hv.1.not_committed⟩⟩
    (fun _ _ => ?_) fun e _ => hv.1.left
  rw [← htarget, rm_temp_push]
  exact hv.1.left

theorem swap_spec (hreal : real) : (swap (root ++ [r.name]) r.id).Triple
    (discipline host root real) (Ready host r) (fun w _ => w.phase = .committed) View.Left := by
  intro v _ hv
  have htarget : v.target root = root ++ [r.name] := by rw [View.target, hv.1.1]
  have hbackup : Skills.backup (root ++ [r.name]) r.id = v.backup root := by
    rw [View.backup, htarget, hv.1.1]
  -- the three paths are different
  have htemp_ne : v.temp root ≠ v.target root := by
    rw [View.temp, View.target, Skills.temp_eq, Ne, sibling_inj_iff]
    exact append_ne_self (by decide)
  have hbackup_ne : v.backup root ≠ v.target root := by
    rw [View.backup, View.target, backup_eq, Ne, sibling_inj_iff]
    exact append_ne_self (by decide)
  unfold swap
  rw [Routine.ends_bind, Routine.ends_assign, Routine.ends_tryCatch, Routine.ends_bind]
  refine callOut_ends (o := .rename _ _) ⟨hreal, .inl ⟨htarget.symm, hbackup, hv.1.2, hv.2⟩⟩
    (fun _ _ => ?_) fun e _ => rollBack_unmoved hreal hv
  -- the target is moved away
  have htaken : v.push root ⟨.rename (root ++ [r.name]) (Skills.backup (root ++ [r.name]) r.id),
      .ok ()⟩ = { v with phase := .taken } := by
    simp [View.push, htarget]
  rw [htaken, Routine.ends_bind, Routine.ends_assign, Routine.ends_bind]
  have hmoved : Moved r { v with phase := .taken } := ⟨hv.1.1, .inl rfl⟩
  refine callOut_ends (o := .rename _ _)
    ⟨hreal, .inr (.inl ⟨hv.temp_eq.symm, htarget.symm, rfl⟩)⟩ (fun _ _ => ?_)
    fun e _ => rollBack_moved hreal hmoved
  -- the new tree takes its place
  have hplaced : View.push root { v with phase := .taken }
      ⟨.rename (Skills.temp (root ++ [r.name]) r.id) (root ++ [r.name]), .ok ()⟩ =
        { v with phase := .placed } := by
    have htarget' : View.target root { v with phase := .taken } = v.target root := rfl
    have htemp' : View.temp root { v with phase := .taken } = v.temp root := rfl
    simp [View.push, htarget', htemp', ← hv.temp_eq, htemp_ne]
  rw [hplaced, Routine.ends_bind]
  have hmoved' : Moved r { v with phase := .placed } := ⟨hv.1.1, .inr rfl⟩
  refine callOut_ends (o := .syncDir _) (by exact Phase.noConfusion) (fun _ _ => ?_)
    fun e _ => rollBack_moved hreal hmoved'
  refine callOut_ends (o := .rm _ _) ⟨hreal, .inr (.inr ⟨hbackup, rfl⟩)⟩ (fun _ _ => ?_)
    fun e _ => rollBack_moved hreal hmoved'
  rw [hbackup]
  change (if v.backup root = v.target root then _ else
    if v.backup root = v.backup root then Phase.committed else _) = Phase.committed
  rw [if_neg hbackup_ne, if_pos rfl]

/-- Whatever the answers it may rely on, an update keeps its promises, and it returns once the
new tree is in place and the old one removed, or throws with the directory as it was. -/
theorem update_safe {m : SkillManager} (hroot : root = m.controlledRoot.getD []) :
    (m.update host r).Triple (discipline host root real) (· = View.start r)
      (fun w _ => w.phase = .committed) View.Left := by
  have hleft : ∀ v, Ready host r v → v.Left := fun v hv => hv.1.left
  refine (controlled_spec hroot).bind fun target => ?_
  -- what is known of the root and of the target does not depend on the view
  rintro v moved ⟨rfl, hreal, rfl⟩
  refine Routine.Triple.bind (compare_spec real) (fun _ => ?_) _ moved rfl
  refine Routine.Triple.bind (Q := fun v _ => Ready host r v)
    ((Routine.keeps_ofExcept _).weaken (fun _ => id) (fun _ _ => id) hleft) fun declared => ?_
  split
  · exact triple_throw _ hleft
  · exact (writeTree_spec hreal _ _).bind fun _ => (swap_spec hreal).bind fun _ =>
      triple_pure _ fun _ => id

end Safe

/-! ### Fair runs -/

/-- What is in a directory. -/
def treeAt (s : Files) (p : Path) : Path → Option (Node Leaf) := fun q => s.get (p ++ q)

/-- A supporting file of a directory. -/
def SupportFile (tree : Path → Option (Node Leaf)) (rel : Path) (text : String) : Prop :=
  (∃ top r, rel = top :: r ∧ top ∈ SUPPORT ∧ r ≠ []) ∧ tree rel = some (.file (.regular text))

/-- The files of a directory, read in some order, have a checksum. -/
def HasChecksum (host : Host) (tree : Path → Option (Node Leaf)) (checksum : String) : Prop :=
  ∃ text read, tree ["SKILL.md"] = some (.file (.regular text)) ∧
    (∀ rel t, (rel, t) ∈ read ↔ SupportFile tree rel t) ∧ digest host text (mapOf read) = checksum

section Runs

variable (host : Host) (m : SkillManager) (name expected : String)

def SkillManager.root : Path := m.controlledRoot.getD []

/-- The directory of the skill. -/
def SkillManager.target : Path := m.root ++ [name]

/-- The updates in progress. -/
abbrev Updates := Pool interface Files UpdateCall (Except SkillError Item × Bool)

/-- What an update knows. -/
def know (c : Call interface UpdateCall (Except SkillError Item × Bool)) : View :=
  c.history.foldl (View.push m.root) (View.start c.request)

/-- What was read is what is there. -/
def View.Fresh (v : View) (tree : Path → Option (Node Leaf)) : Prop :=
  (∀ text, v.manifest = some text → tree ["SKILL.md"] = some (.file (.regular text))) ∧
    ∀ rel t, (rel, t) ∈ v.read ↔ SupportFile tree rel t

/-- A call at which nothing goes wrong, from what came of it. -/
def FairCall (v : View) (s : Files) (o : Op) (out : Except SkillError o.Value × Files) : Prop :=
  match o with
  | .rename src _ =>
    (src = v.target m.root → out.1 = .ok () → v.Fresh (treeAt s (v.target m.root))) ∧
      (src = v.temp m.root → out.1 = .ok () → ¬HasChecksum host (treeAt s src) expected) ∧
      (src = v.backup m.root → out.1 = .ok ())
  | .rm p _ =>
    v.phase = .taken ∨ v.phase = .placed →
      out.1 = .ok () ∨ p = v.backup m.root ∧ treeAt out.2 p = treeAt s p
  | _ => True

/-- An event of a run of updates of one skill that expect one checksum, none of which dies. At a
fair one nothing goes wrong. -/
def Fair (p : Updates) : Event interface UpdateCall → Prop
  | .spawn r => r.name = name ∧ r.expected = expected ∧ expected ≠ ""
  | .step t ans => ∀ c o k, p.calls[t]? = some c → c.rest = some (.call o k) →
      FairCall host m expected (know m c) p.shared o (machine.handle o p.shared (ans o))
  | .kill _ => False

/-- A run, from the files that are there. -/
def runFrom (s : Files) (es : List (Event interface UpdateCall)) : Updates :=
  (Pool.start s).run machine (body host m) es

/-- An update that has succeeded. -/
def Succeeded (p : Updates) (t : Nat) : Prop :=
  ∃ c item moved, p.calls[t]? = some c ∧ c.rest = some (.pure (.ok item, moved))

/-- No running update has the directory moved away. -/
def Quiescent (p : Updates) : Prop :=
  ∀ (t : Nat) (c : Call interface UpdateCall _), p.calls[t]? = some c → c.Running → (know m c).Left

end Runs

/-! ### What the calls change -/

section Calls

variable {t t' : Files} {p q : Path} {x : Except String Files}

theorem changing_cases (t : Files) (fault : Option String) (x : Except String Files) :
    (∃ e, changing t fault x = (.error e, t)) ∨
      ∃ t', x = .ok t' ∧ changing t fault x = (.ok (), t') := by
  unfold changing
  split
  · exact .inl ⟨_, rfl⟩
  · exact .inl ⟨_, rfl⟩
  · exact .inr ⟨_, rfl, rfl⟩

/-- What a call leaves where it succeeds, it leaves in any case. -/
theorem get_changing {fault : Option String} (h : ∀ t', x = .ok t' → t'.get q = t.get q) :
    (changing t fault x).2.get q = t.get q := by
  rcases changing_cases t fault x with ⟨e, heq⟩ | ⟨t', hx, heq⟩
  · rw [heq]
  · rw [heq]
    exact h t' hx

theorem mkdirOf_eq_ok {p : Path} (h : mkdirOf t p = .ok t') :
    t.IsDir p.dropLast ∧ p ≠ [] ∧ t.get p = none ∧ t' = t.set p .dir := by
  unfold mkdirOf at h
  split at h
  · simp at h
  · rename_i hparent
    split at h
    · simp at h
    · rename_i hfree
      rw [not_or] at hfree
      exact ⟨not_not.mp hparent, hfree.1, by simpa using hfree.2, (Except.ok.inj h).symm⟩

theorem get_mkdirOf_ne (h : mkdirOf t p = .ok t') (hne : q ≠ p) : t'.get q = t.get q := by
  obtain ⟨-, -, -, rfl⟩ := mkdirOf_eq_ok h
  rw [FiniteMap.get_set, if_neg hne]

theorem get_writeNewOf_ne {text : String} {fault : Option (String × Option String)}
    (hne : q ≠ p) : (writeNewOf t p text fault).2.get q = t.get q := by
  unfold writeNewOf
  split
  · split
    · rename_i t' hwrite
      exact FileTree.get_writeNew_ne hwrite hne
    · rfl
  · rfl
  · split
    · rename_i t' hwrite
      exact FileTree.get_writeNew_ne hwrite hne
    · rfl

end Calls

/-! ### What a call does to the trees -/

section Effect

variable {root : Path} {real : Prop} {host : Host} {v : View} {s : Files} {name b : String}
  {p q x : Path}

/-- A call that only touches the tree an update prepares. -/
def Aside (root : Path) (v : View) : Op → Prop
  | .rename .. => False
  | .rm p _ => p = v.temp root
  | .mkdir p | .mkdirAll p | .writeNew p _ => v.temp root <+: p
  | _ => True

theorem not_below_sibling (hb : root ++ [b] ≠ v.temp root) (hp : v.temp root <+: p) :
    ¬ root ++ [b] ++ x <+: p := by
  rintro ⟨y, hy⟩
  obtain ⟨z, rfl⟩ := hp
  apply hb
  rw [View.temp, View.target, temp_eq, sibling_inj_iff]
  rw [View.temp, View.target, temp_eq] at hy
  simp only [List.append_assoc] at hy
  exact (List.cons.inj (List.append_cancel_left hy)).1

theorem ne_of_sibling (hb : root ++ [b] ≠ v.temp root) (hp : v.temp root <+: p) :
    root ++ [b] ++ x ≠ p := fun h => not_below_sibling hb hp (by rw [h])

theorem not_prefix_sibling (hb : root ++ [b] ≠ v.temp root) : ¬ v.temp root <+: root ++ [b] ++ x :=
  fun h => not_below_sibling hb h (List.prefix_refl _)

/-- A tree that is not the one an update prepares is as it was. -/
theorem get_aside {o : Op} (ho : Aside root v o) (hb : root ++ [b] ≠ v.temp root)
    (fault : o.Fault) : (machine.handle o s fault).2.get (root ++ [b] ++ x) =
      s.get (root ++ [b] ++ x) := by
  cases o with
  | lstat | realpath | readFile | syncDir =>
    simp only [machine, reading]
    split <;> rfl
  | readdir => rfl
  | rename => exact ho.elim
  | mkdir p => exact get_changing fun _ hmkdir => get_mkdirOf_ne hmkdir (ne_of_sibling hb ho)
  | mkdirAll p => exact get_changing fun _ h => FileTree.get_mkdirAll h (not_below_sibling hb ho)
  | writeNew p text => exact get_writeNewOf_ne (ne_of_sibling hb ho)
  | rm p force =>
    obtain rfl : p = v.temp root := ho
    simp only [machine, rmOf]
    split
    · have hnot := not_prefix_sibling (x := x) hb
      rw [removePart, FileTree.get_without, if_neg (by simp only [hnot, false_and, decide_false,
        Bool.false_eq_true, not_false_iff])]
    · split
      · rfl
      · rw [FileTree.get_remove, if_neg (not_prefix_sibling hb)]

theorem not_below_root {a : String} : ¬ root ++ [a] ++ x <+: root := by
  intro h
  have hlen := h.length_le
  rw [List.length_append, List.length_append, List.length_singleton] at hlen
  omega

theorem ne_root {a : String} (hp : root ++ [a] <+: p) : root ≠ p := by
  rintro rfl
  exact not_below_root (x := []) (by simpa using hp)

/-- What is at the root stays a symbolic link, or not one. -/
theorem file_root {o : Op} {d : Leaf} (ho : v.May host root real o) (fault : o.Fault) :
    (machine.handle o s fault).2.get root = some (.file d) ↔ s.get root = some (.file d) := by
  have htemp : v.temp root = root ++ [v.request.name ++ ".tmp-" ++ v.request.id] := temp_eq
  have hbackup : v.backup root = root ++ [v.request.name ++ ".bak-" ++ v.request.id] := backup_eq
  cases o with
  | lstat | realpath | readFile | syncDir =>
    simp only [machine, reading]
    split <;> rfl
  | readdir => rfl
  -- a call touches its own three trees only, which lie below the root
  | rename src dst =>
    have hsiblings : ∃ a a', src = root ++ [a] ∧ dst = root ++ [a'] := by
      rcases ho.2 with ⟨rfl, rfl, -⟩ | ⟨rfl, rfl, -⟩ | ⟨rfl, rfl, -⟩
      · exact ⟨_, _, rfl, hbackup⟩
      · exact ⟨_, _, htemp, rfl⟩
      · exact ⟨_, _, hbackup, rfl⟩
    obtain ⟨a, a', rfl, rfl⟩ := hsiblings
    have hnot : ∀ a, ¬ root ++ [a] <+: root := fun a h =>
      not_below_root (x := []) (by simpa using h)
    have hget : (machine.handle (.rename (root ++ [a]) (root ++ [a'])) s fault).2.get root =
        s.get root :=
      get_changing fun _ hrename => FileTree.get_rename_other hrename (hnot a) (hnot a')
    rw [hget]
  | mkdir p =>
    have hne : root ≠ p := ne_root (by rw [← htemp]; exact ho.2.1)
    have hget : (machine.handle (.mkdir p) s fault).2.get root = s.get root :=
      get_changing fun _ hmkdir => get_mkdirOf_ne hmkdir hne
    rw [hget]
  | mkdirAll p =>
    change (changing s fault (s.mkdirAll p)).2.get root = _ ↔ _
    rcases changing_cases s fault (s.mkdirAll p) with ⟨e, heq⟩ | ⟨s', hmkdir, heq⟩
    · rw [heq]
    · rw [heq]
      exact FileTree.file_mkdirAll hmkdir
  | writeNew p text =>
    have hne : root ≠ p := ne_root (by rw [← htemp]; exact ho.2.1)
    have hget : (machine.handle (.writeNew p text) s fault).2.get root = s.get root :=
      get_writeNewOf_ne hne
    rw [hget]
  | rm p force =>
    have hsibling : ∃ a, p = root ++ [a] := by
      rcases ho.2 with ⟨rfl, -⟩ | ⟨rfl, -⟩ | ⟨rfl, -⟩
      · exact ⟨_, htemp⟩
      · exact ⟨_, rfl⟩
      · exact ⟨_, hbackup⟩
    obtain ⟨a, rfl⟩ := hsibling
    have hnot : ¬ root ++ [a] <+: root := fun h => not_below_root (x := []) (by simpa using h)
    simp only [machine, rmOf]
    split
    · rw [removePart, FileTree.get_without, if_neg (by simp [hnot])]
    · split
      · rfl
      · rw [FileTree.get_remove, if_neg hnot]

end Effect

/-! ### Whose the directory is -/

section Owner

variable {host : Host} {m : SkillManager} {name expected : String} {U : Path → Option (Node Leaf)}
  {s s' : Files} {v v' : View} {id b : String} {x : Path}

/-- An update that has moved the directory away keeps the old tree, until the new one is in place
for good; what is in its place meanwhile does not have the expected checksum. -/
def Hold (host : Host) (m : SkillManager) (name expected : String)
    (U : Path → Option (Node Leaf)) (s : Files) (v : View) : Prop :=
  match v.phase with
  | .taken | .cleared =>
    (treeAt s (m.target name) = fun _ => none) ∧ treeAt s (v.backup m.root) = U
  | .placed =>
    ¬HasChecksum host (treeAt s (m.target name)) expected ∧ treeAt s (v.backup m.root) = U
  | .committed => ¬HasChecksum host (treeAt s (m.target name)) expected
  | .before | .restored => False

/-- The directory is what it was at first, or it is in the hands of one update. -/
def Owned (host : Host) (m : SkillManager) (name expected : String)
    (U : Path → Option (Node Leaf)) (s : Files)
    (calls : List (Call interface UpdateCall (Except SkillError Item × Bool))) : Prop :=
  ((∀ (t : Nat) c, calls[t]? = some c → (know m c).Left) ∧ treeAt s (m.target name) = U) ∨
    ∃ (t : Nat) (c : Call interface UpdateCall (Except SkillError Item × Bool)),
      calls[t]? = some c ∧ Hold host m name expected U s (know m c) ∧
        ∀ (u : Nat) d, u ≠ t → calls[u]? = some d → (know m d).Left

theorem Hold.not_left (h : Hold host m name expected U s v) : ¬v.Left := by
  rintro (hp | hp) <;> simp [Hold, hp] at h

theorem hold_congr (hT : treeAt s' (m.target name) = treeAt s (m.target name))
    (hB : treeAt s' (v.backup m.root) = treeAt s (v.backup m.root)) (hphase : v'.phase = v.phase)
    (hreq : v'.request = v.request) :
    Hold host m name expected U s' v' ↔ Hold host m name expected U s v := by
  have hbackup : v'.backup m.root = v.backup m.root := by
    rw [View.backup, View.backup, View.target, View.target, hreq]
  unfold Hold
  rw [hT, hphase, hbackup, hB]

/-- The checksum that was read is the directory's, if the directory is still what was read. -/
theorem View.Fresh.hasChecksum {tree : Path → Option (Node Leaf)} (h : v.Fresh tree)
    (hchecked : v.Checked host) (hne : v.request.expected ≠ "") :
    HasChecksum host tree v.request.expected := by
  obtain ⟨text, hmanifest, hdigest⟩ := hchecked
  exact ⟨text, v.read, h.1 text hmanifest, h.2, hdigest hne⟩

variable {calls : List (Call interface UpdateCall (Except SkillError Item × Bool))} {t : Nat}
  {c c' : Call interface UpdateCall (Except SkillError Item × Bool)}

/-- A step that leaves the trees alone, and what the update has done to the directory. -/
theorem owned_congr (hc : calls[t]? = some c)
    (hT : treeAt s' (m.target name) = treeAt s (m.target name))
    (hB : ∀ (u : Nat) d, calls[u]? = some d →
      treeAt s' ((know m d).backup m.root) = treeAt s ((know m d).backup m.root))
    (hphase : (know m c').phase = (know m c).phase) (hreq : (know m c').request = (know m c).request)
    (h : Owned host m name expected U s calls) :
    Owned host m name expected U s' (calls.set t c') := by
  have hlt : t < calls.length := (List.getElem?_eq_some_iff.mp hc).1
  have hleft : (know m c).Left → (know m c').Left := by
    intro hleft
    rwa [View.Left, hphase]
  -- either nobody holds the target, or one update does, maybe the one that moves
  rcases h with ⟨hall, htree⟩ | ⟨o, d, ho, hhold, hothers⟩
  · refine .inl ⟨fun u d hu => ?_, hT.trans htree⟩
    rcases getElem?_set_cases hu with ⟨rfl, rfl⟩ | ⟨-, hu⟩
    · exact hleft (hall _ _ hc)
    · exact hall u d hu
  · right
    by_cases hot : o = t
    · subst hot
      obtain rfl := Option.some_inj.mp (hc.symm.trans ho)
      refine ⟨o, c', List.getElem?_set_self hlt,
        (hold_congr hT (hB o c hc) hphase hreq).mpr hhold, fun u d hne hu => ?_⟩
      rw [List.getElem?_set_ne (Ne.symm hne)] at hu
      exact hothers u d hne hu
    · refine ⟨o, d, (List.getElem?_set_ne (Ne.symm hot)).trans ho,
        (hold_congr hT (hB o d ho) rfl rfl).mpr hhold, fun u e hne hu => ?_⟩
      rcases getElem?_set_cases hu with ⟨rfl, rfl⟩ | ⟨-, hu⟩
      · exact hleft (hothers _ _ hne hc)
      · exact hothers u e hne hu

/-- An update that is not out of it is the one that has the directory. -/
theorem Owned.holds (h : Owned host m name expected U s calls) (hc : calls[t]? = some c)
    (hnot : ¬(know m c).Left) : Hold host m name expected U s (know m c) ∧
      ∀ (u : Nat) d, u ≠ t → calls[u]? = some d → (know m d).Left := by
  rcases h with ⟨hall, -⟩ | ⟨o, d, ho, hhold, hothers⟩
  · exact absurd (hall t c hc) hnot
  · by_cases hot : t = o
    · subst hot
      obtain rfl := Option.some_inj.mp (hc.symm.trans ho)
      exact ⟨hhold, hothers⟩
    · exact absurd (hothers t c hot hc) hnot

/-- A step of the update that has the directory, after which it still has it. -/
theorem owned_of_hold (hc : calls[t]? = some c)
    (hothers : ∀ (u : Nat) d, u ≠ t → calls[u]? = some d → (know m d).Left)
    (hhold : Hold host m name expected U s' (know m c')) :
    Owned host m name expected U s' (calls.set t c') := by
  refine .inr ⟨t, c', List.getElem?_set_self (List.getElem?_eq_some_iff.mp hc).1, hhold,
    fun u d hne hu => ?_⟩
  rw [List.getElem?_set_ne (Ne.symm hne)] at hu
  exact hothers u d hne hu

end Owner

/-! ### One step -/

section Step

variable {host : Host} {m : SkillManager} {name expected : String} {U : Path → Option (Node Leaf)}
  {root src dst p : Path} {s s' : Files} {v : View} {a b d : String} {real : Prop}

theorem treeAt_rename_dst (h : s.rename src dst = .ok s') : treeAt s' dst = treeAt s src :=
  funext fun _ => FileTree.get_rename h

theorem treeAt_rename_src (h : s.rename (root ++ [a]) (root ++ [b]) = .ok s') (hne : a ≠ b) :
    treeAt s' (root ++ [a]) = fun _ => none :=
  funext fun _ => FileTree.get_rename_src h (List.prefix_append _ _)
    fun hp => hne (sibling_prefix_iff.mp hp).symm

theorem treeAt_rename_other (h : s.rename (root ++ [a]) (root ++ [b]) = .ok s') (ha : a ≠ d)
    (hb : b ≠ d) : treeAt s' (root ++ [d]) = treeAt s (root ++ [d]) :=
  funext fun _ => FileTree.get_rename_other h (fun hp => ha (sibling_prefix_iff.mp hp))
    fun hp => hb (sibling_prefix_iff.mp hp)

theorem rename_cases (src dst : Path) (s : Files) (fault : Option String) :
    (∃ e, machine.handle (.rename src dst) s fault = (.error e, s)) ∨
      ∃ s', s.rename src dst = .ok s' ∧ machine.handle (.rename src dst) s fault = (.ok (), s') :=
  changing_cases s fault (s.rename src dst)

theorem rm_cases (p : Path) (force : Bool) (s : Files) (fault : Option (String × (Path → Bool))) :
    machine.handle (.rm p force) s fault = (.ok (), s.remove p) ∨
      ∃ e out, machine.handle (.rm p force) s fault = (.error e, removePart s p out) := by
  simp only [machine, rmOf]
  split
  · exact .inr ⟨_, _, rfl⟩
  · split
    · refine .inr ⟨_, fun _ => false, Prod.ext rfl (FiniteMap.ext_get fun q => ?_)⟩
      simp [removePart]
    · exact .inl rfl

theorem treeAt_remove : treeAt (s.remove p) p = fun _ => none :=
  funext fun _ => FileTree.get_remove.trans (if_pos (List.prefix_append _ _))

theorem treeAt_remove_other (hne : a ≠ d) :
    treeAt (s.remove (root ++ [a])) (root ++ [d]) = treeAt s (root ++ [d]) :=
  funext fun _ => FileTree.get_remove.trans (if_neg fun hp => hne (sibling_prefix_iff.mp hp))

theorem treeAt_removePart_other {out : Path → Bool} (hne : a ≠ d) :
    treeAt (removePart s (root ++ [a]) out) (root ++ [d]) = treeAt s (root ++ [d]) := by
  funext x
  have hnot : ¬ root ++ [a] <+: root ++ [d] ++ x := fun hp => hne (sibling_prefix_iff.mp hp)
  rw [treeAt, removePart, FileTree.get_without, if_neg (by simp only [hnot, false_and, decide_false,
    Bool.false_eq_true, not_false_iff])]
  rfl

/-- What is left of a call's promise, where it does not touch the directory or an old tree. -/
theorem aside_or {o : Op} (ho : v.May host root real o) : Aside root v o ∨
    (∃ src dst, o = .rename src dst) ∨ ∃ p force, o = .rm p force ∧
      (p = v.target root ∧ (v.phase = .taken ∨ v.phase = .placed) ∨
        p = v.backup root ∧ v.phase = .placed) := by
  cases o with
  | lstat | realpath | readFile | syncDir | readdir => exact .inl trivial
  | mkdir | mkdirAll | writeNew => exact .inl ho.2.1
  | rename src dst => exact .inr (.inl ⟨src, dst, rfl⟩)
  | rm p force =>
    rcases ho.2 with ⟨hp, -⟩ | h
    · exact .inl hp
    · exact .inr (.inr ⟨p, force, rfl, h⟩)

theorem push_request (v : View) (e : Entry interface) : (v.push root e).request = v.request := by
  unfold View.push
  split <;> try split
  all_goals rfl

theorem push_aside {o : Op} (ho : Aside root v o) (r : Except SkillError o.Value) :
    (v.push root ⟨o, r⟩).phase = v.phase := by
  cases r with
  | error e => rw [push_error]
  | ok a =>
    cases o with
    | lstat | realpath | syncDir | readdir | mkdir | mkdirAll | writeNew => rfl
    | readFile =>
      simp only [View.push]
      split <;> rfl
    | rename => exact ho.elim
    | rm p force =>
      obtain rfl : p = v.temp root := ho
      rw [show v.temp root = Skills.temp (v.target root) v.request.id from rfl, rm_temp_push]

end Step

section StepOwned

variable {host : Host} {m : SkillManager} {name expected : String} {U : Path → Option (Node Leaf)}
  {s : Files} {real : Prop} {t : Nat}
  {calls : List (Call interface UpdateCall (Except SkillError Item × Bool))}
  {c : Call interface UpdateCall (Except SkillError Item × Bool)}

theorem know_request (c : Call interface UpdateCall (Except SkillError Item × Bool)) :
    (know m c).request = c.request := by
  have hfold : ∀ (es : List (Entry interface)) (v : View),
      (es.foldl (View.push m.root) v).request = v.request := by
    intro es
    induction es with
    | nil => exact fun _ => rfl
    | cons e es ih => exact fun v => (ih _).trans (push_request v e)
  exact hfold _ _

theorem know_advance {o : Op} {k : Except SkillError o.Value → Prog interface _}
    {r : Except SkillError o.Value} :
    know m (c.advance o k r) = (know m c).push m.root ⟨o, r⟩ := by
  simp [know, Call.advance]

/-- The places an update on the skill works at. -/
theorem know_places (hname : c.request.name = name) :
    (know m c).target m.root = m.root ++ [name] ∧
      (know m c).temp m.root = m.root ++ [name ++ ".tmp-" ++ c.request.id] ∧
      (know m c).backup m.root = m.root ++ [name ++ ".bak-" ++ c.request.id] := by
  have htarget : (know m c).target m.root = m.root ++ [name] := by
    rw [View.target, know_request, hname]
  refine ⟨htarget, ?_, ?_⟩
  · rw [View.temp, htarget, temp_eq, know_request]
  · rw [View.backup, htarget, backup_eq, know_request]

section Cases

variable {src dst : Path} {s' : Files} {c' : Call interface UpdateCall (Except SkillError Item × Bool)}
  (hc : calls[t]? = some c) (hname : c.request.name = name) (hreq : c'.request = c.request)

include hc hname hreq

/-- The directory is moved away, while it is still the one that was read. -/
theorem owned_taken (hphase' : (know m c').phase = .taken)
    (hrename : s.rename (m.root ++ [name]) (m.root ++ [name ++ ".bak-" ++ c.request.id]) = .ok s')
    (hchecksum : HasChecksum host (treeAt s (m.target name)) expected)
    (howned : Owned host m name expected U s calls) :
    Owned host m name expected U s' (calls.set t c') := by
  have hbackup := (know_places (m := m) (c := c') (hreq ▸ hname)).2.2
  rcases howned with ⟨hall, htree⟩ | ⟨u, d, -, hhold, -⟩
  · refine owned_of_hold hc (fun u d _ hu => hall u d hu) ?_
    simp only [Hold, hphase', hbackup, hreq]
    exact ⟨treeAt_rename_src hrename (append_ne_self (by decide)).symm,
      (treeAt_rename_dst hrename).trans htree⟩
  · -- whoever has the directory left none, or one that has another checksum
    exfalso
    have hdir : s.get (m.root ++ [name]) = some .dir := (FileTree.rename_eq_ok hrename).1
    unfold Hold at hhold
    split at hhold
    · simpa [treeAt, SkillManager.target, hdir] using congrFun hhold.1 []
    · simpa [treeAt, SkillManager.target, hdir] using congrFun hhold.1 []
    · exact hhold.1 hchecksum
    · exact hhold hchecksum
    · exact hhold
    · exact hhold

/-- The new tree takes the directory's place. -/
theorem owned_placed (hphase : (know m c).phase = .taken) (hphase' : (know m c').phase = .placed)
    (hrename : s.rename (m.root ++ [name ++ ".tmp-" ++ c.request.id]) (m.root ++ [name]) = .ok s')
    (hnew : ¬HasChecksum host (treeAt s (m.root ++ [name ++ ".tmp-" ++ c.request.id])) expected)
    (howned : Owned host m name expected U s calls) :
    Owned host m name expected U s' (calls.set t c') := by
  have hbackup := (know_places (m := m) hname).2.2
  have hbackup' := (know_places (m := m) (c := c') (hreq ▸ hname)).2.2
  obtain ⟨hhold, hothers⟩ := howned.holds hc (by simp [View.Left, hphase])
  simp only [Hold, hphase, hbackup] at hhold
  refine owned_of_hold hc hothers ?_
  simp only [Hold, hphase', hbackup', hreq]
  rw [← treeAt_rename_dst hrename] at hnew
  refine ⟨hnew, ?_⟩
  rw [treeAt_rename_other hrename temp_ne_backup (append_ne_self (by decide)).symm]
  exact hhold.2

/-- The old tree is put back. -/
theorem owned_restored (hphase : (know m c).phase = .cleared)
    (hphase' : (know m c').phase = .restored)
    (hrename : s.rename (m.root ++ [name ++ ".bak-" ++ c.request.id]) (m.root ++ [name]) = .ok s')
    (howned : Owned host m name expected U s calls) :
    Owned host m name expected U s' (calls.set t c') := by
  have hbackup := (know_places (m := m) hname).2.2
  obtain ⟨hhold, hothers⟩ := howned.holds hc (by simp [View.Left, hphase])
  simp only [Hold, hphase, hbackup] at hhold
  refine .inl ⟨fun u d hu => ?_, (treeAt_rename_dst hrename).trans hhold.2⟩
  rcases getElem?_set_cases hu with ⟨-, rfl⟩ | ⟨hut, hu⟩
  · exact .inr hphase'
  · exact hothers u d hut hu

/-- What has taken the directory's place is removed by a rollback. -/
theorem owned_cleared (hphase : (know m c).phase = .taken ∨ (know m c).phase = .placed)
    (hphase' : (know m c').phase = .cleared) (howned : Owned host m name expected U s calls) :
    Owned host m name expected U (s.remove (m.root ++ [name])) (calls.set t c') := by
  have hbackup := (know_places (m := m) hname).2.2
  have hbackup' := (know_places (m := m) (c := c') (hreq ▸ hname)).2.2
  obtain ⟨hhold, hothers⟩ := howned.holds hc (by
    rcases hphase with hphase | hphase <;> simp [View.Left, hphase])
  have hold : treeAt s (m.root ++ [name ++ ".bak-" ++ c.request.id]) = U := by
    rcases hphase with hphase | hphase <;>
    · simp only [Hold, hphase, hbackup] at hhold
      exact hhold.2
  refine owned_of_hold hc hothers ?_
  simp only [Hold, hphase', hbackup', hreq]
  refine ⟨treeAt_remove, ?_⟩
  rw [treeAt_remove_other (append_ne_self (by decide)).symm]
  exact hold

omit hname hreq in
/-- The old tree is removed, and the new one stays. -/
theorem owned_committed (hphase : (know m c).phase = .placed)
    (hphase' : (know m c').phase = .committed) (howned : Owned host m name expected U s calls) :
    Owned host m name expected U (s.remove (m.root ++ [name ++ ".bak-" ++ c.request.id]))
      (calls.set t c') := by
  obtain ⟨hhold, hothers⟩ := howned.holds hc (by simp [View.Left, hphase])
  simp only [Hold, hphase] at hhold
  refine owned_of_hold hc hothers ?_
  simp only [Hold, hphase', SkillManager.target]
  rw [treeAt_remove_other (append_ne_self (by decide))]
  exact hhold.1

end Cases

/-- A fair step leaves the directory with the update that has it, or as it was at first. -/
theorem step_owned (hc : calls[t]? = some c)
    (hnames : ∀ (u : Nat) d, calls[u]? = some d → d.request.name = name)
    (hexpected : c.request.expected = expected) (hne : expected ≠ "") {o : Op}
    {k : Except SkillError o.Value → Prog interface (Except SkillError Item × Bool)} {fault : o.Fault}
    (hmay : (know m c).May host m.root real o)
    (hfair : FairCall host m expected (know m c) s o (machine.handle o s fault))
    (howned : Owned host m name expected U s calls) :
    Owned host m name expected U (machine.handle o s fault).2
      (calls.set t (c.advance o k (machine.handle o s fault).1)) := by
  have hname := hnames t c hc
  obtain ⟨htarget, htemp, hbackup⟩ := know_places (m := m) hname
  have htemp_ne : name ++ ".tmp-" ++ c.request.id ≠ name := append_ne_self (by decide)
  have hbackup_ne : name ++ ".bak-" ++ c.request.id ≠ name := append_ne_self (by decide)
  have hreq : ∀ r, (know m (c.advance o k r)).request = (know m c).request := fun r => by
    rw [know_advance, push_request]
  -- what the call may do: look on, rename one of the three trees, or remove one
  rcases aside_or hmay with haside | ⟨src, dst, rfl⟩ | ⟨p, force, rfl, hp⟩
  · -- a call that touches neither the directory nor an old tree
    have hsame : ∀ b, b ≠ name ++ ".tmp-" ++ c.request.id →
        treeAt (machine.handle o s fault).2 (m.root ++ [b]) = treeAt s (m.root ++ [b]) := by
      intro b hb
      funext x
      exact get_aside haside (by rwa [htemp, Ne, sibling_inj_iff]) fault
    refine owned_congr hc (hsame name htemp_ne.symm) (fun u d hu => ?_) ?_ (hreq _) howned
    · rw [(know_places (m := m) (hnames u d hu)).2.2]
      exact hsame _ temp_ne_backup.symm
    · rw [know_advance, push_aside haside]
  · rcases rename_cases src dst s fault with ⟨e, heq⟩ | ⟨s', hrename, heq⟩
    · -- a renaming that fails changes nothing
      rw [heq]
      refine owned_congr hc rfl (fun _ _ _ => rfl) ?_ (hreq _) howned
      rw [know_advance]
      exact congrArg View.phase (push_error _ (.rename src dst) e)
    rw [heq] at hfair ⊢
    have hphase' : ∀ src dst (k : Except SkillError Unit → _),
        (know m (c.advance (.rename src dst) k (.ok ()))).phase =
          if src = (know m c).target m.root then .taken
          else if src = (know m c).temp m.root then .placed else .restored := by
      intro src dst k
      rw [know_advance]
      rfl
    rcases hmay.2 with ⟨rfl, rfl, hphase, hchecked⟩ | ⟨rfl, rfl, hphase⟩ | ⟨rfl, rfl, hphase⟩
    · -- the old tree is set aside, checked to be the one that was expected
      refine owned_taken hc hname rfl ((hphase' _ _ _).trans (if_pos rfl)) ?_ ?_ howned
      · rwa [htarget, hbackup] at hrename
      · have hfresh := hfair.1 rfl rfl
        have hchecksum := hfresh.hasChecksum hchecked (by rwa [know_request, hexpected])
        rwa [htarget, know_request, hexpected] at hchecksum
    · -- the new tree takes its place
      have hnew := hfair.2.1 rfl rfl
      refine owned_placed hc hname rfl hphase ((hphase' _ _ _).trans ?_) ?_ ?_ howned
      · rw [if_neg (by rw [htarget, htemp, sibling_inj_iff]; exact htemp_ne), if_pos rfl]
      · rwa [htarget, htemp] at hrename
      · rwa [htemp] at hnew
    · -- the old tree is put back
      refine owned_restored hc hname rfl hphase ((hphase' _ _ _).trans ?_) ?_ howned
      · rw [if_neg (by rw [htarget, hbackup, sibling_inj_iff]; exact hbackup_ne),
          if_neg (by rw [htemp, hbackup, sibling_inj_iff]; exact temp_ne_backup.symm)]
      · rwa [htarget, hbackup] at hrename
  · -- the removals after a renaming: of the own tree or of the old one
    have hphases : (know m c).phase = .taken ∨ (know m c).phase = .placed := by
      rcases hp with ⟨-, hphase⟩ | ⟨-, hphase⟩
      · exact hphase
      · exact .inr hphase
    have hphase' : ∀ p (k : Except SkillError Unit → _),
        (know m (c.advance (.rm p force) k (.ok ()))).phase =
          if p = (know m c).target m.root then .cleared
          else if p = (know m c).backup m.root then .committed else (know m c).phase := by
      intro p k
      rw [know_advance]
      rfl
    rcases rm_cases p force s fault with heq | ⟨e, out, heq⟩
    · rw [heq]
      rcases hp with ⟨rfl, hphase⟩ | ⟨rfl, hphase⟩
      · have hcleared : (know m (c.advance (.rm ((know m c).target m.root) force) k
            (.ok ()))).phase = .cleared := (hphase' _ _).trans (if_pos rfl)
        have hrequest : (c.advance (.rm ((know m c).target m.root) force) k (.ok ())).request =
            c.request := rfl
        have h := owned_cleared hc hname hrequest hphase hcleared howned
        rwa [← htarget] at h
      · have hcommitted : (know m (c.advance (.rm ((know m c).backup m.root) force) k
            (.ok ()))).phase = .committed := by
          rw [hphase', if_neg (by rw [htarget, hbackup, sibling_inj_iff]; exact hbackup_ne), if_pos rfl]
        have h := owned_committed hc hphase hcommitted howned
        rwa [← hbackup] at h
    · -- a removal that fails is that of the old tree, which stays
      have hfair' := hfair hphases
      rw [heq] at hfair' ⊢
      obtain ⟨rfl, htree⟩ : p = (know m c).backup m.root ∧
          treeAt (removePart s p out) p = treeAt s p := hfair'.resolve_left (by simp)
      refine owned_congr hc ?_ (fun u d hu => ?_) ?_ (hreq _) howned
      · rw [hbackup]
        exact treeAt_removePart_other hbackup_ne
      · rw [(know_places (m := m) (hnames u d hu)).2.2]
        by_cases hid : name ++ ".bak-" ++ c.request.id = name ++ ".bak-" ++ d.request.id
        · rw [← hid, ← hbackup]
          exact htree
        · rw [hbackup]
          exact treeAt_removePart_other hid
      · rw [know_advance]
        exact congrArg View.phase (push_error _ (.rm _ force) e)

theorem statOf_symlink_iff {p : Path} : statOf s p = .ok .symlink ↔
    p ≠ [] ∧ ∃ target, s.get p = some (.file (.symlink target)) := by
  unfold statOf
  split
  · rename_i hp
    simp [hp]
  · rename_i hp
    rw [orThrow_eq_ok, Option.map_eq_some_iff]
    constructor
    · rintro ⟨n, hn, hkind⟩
      refine ⟨hp, ?_⟩
      match n, hkind with
      | .file (.symlink target), _ => exact ⟨target, hn⟩
    · rintro ⟨-, target, hn⟩
      exact ⟨_, hn, rfl⟩

/-- What is at the root is no symbolic link at first. -/
def SkillManager.Real (m : SkillManager) (fs : Files) : Prop := statOf fs m.root ≠ .ok .symlink

/-- At a fair step an update gets the answers it relies on. -/
theorem relies_of_fair {fs : Files} {o : Op} {fault : o.Fault}
    (hroot : ∀ d, s.get m.root = some (.file d) ↔ fs.get m.root = some (.file d))
    (hfair : FairCall host m expected (know m c) s o (machine.handle o s fault)) :
    (know m c).Relies m.root (m.Real fs) ⟨o, (machine.handle o s fault).1⟩ := by
  -- whether the root is a file does not change, so neither does what it is
  have hreal : m.Real fs ↔ statOf s m.root ≠ .ok .symlink := by
    simp only [SkillManager.Real, Ne, statOf_symlink_iff, hroot]
  cases o with
  | readFile | readdir | mkdir | mkdirAll | writeNew | syncDir => trivial
  | lstat p =>
    rintro rfl hdir
    rw [hreal]
    simp only [machine, reading] at hdir
    split at hdir
    · simp at hdir
    · have hdir' : statOf s m.root = .ok .dir := hdir
      simp [hdir']
  | realpath p =>
    rintro rfl hr q hq
    rw [hreal] at hr
    simp only [machine, reading] at hq
    split at hq
    · simp at hq
    · unfold realpathOf at hq
      split at hq
      · simp at hq
      · rename_i hlink _
        -- the root is no link, so its real path is its own
        exact absurd hlink hr
      · exact (Except.ok.inj hq).symm
  | rename src dst => exact fun _ hsrc => hfair.2.2 hsrc
  | rm p force =>
    intro hphase hne
    rcases hfair hphase with hok | ⟨hp, -⟩
    · exact hok
    · exact absurd hp hne

end StepOwned

/-! ### Runs -/

section Run

variable {host : Host} {m : SkillManager} {name expected : String} {fs : Files}
  {p : Updates} {t u : Nat} {c : Call interface UpdateCall (Except SkillError Item × Bool)}

/-- What the body of an update comes to. -/
def View.Ending (v : View) (r : Except SkillError Item × Bool) : Prop :=
  match r.1 with
  | .ok _ => v.phase = .committed
  | .error _ => v.Left

/-- What fair events keep. -/
structure Inv (host : Host) (m : SkillManager) (name expected : String) (fs : Files)
    (U : Path → Option (Node Leaf)) (p : Updates) : Prop where
  served : ∀ (t : Nat) c, p.calls[t]? = some c →
    c.request.name = name ∧ c.request.expected = expected ∧ expected ≠ ""
  alive : ∀ (t : Nat) c, p.calls[t]? = some c → c.rest ≠ none
  safe : ∀ (t : Nat) c q, p.calls[t]? = some c → c.rest = some q →
    q.Safe (discipline host m.root (m.Real fs)) View.Ending (know m c)
  root : ∀ d, p.shared.get m.root = some (.file d) ↔ fs.get m.root = some (.file d)
  owned : Owned host m name expected U p.shared p.calls

theorem body_safe (r : UpdateCall) : (body host m r).Safe (discipline host m.root (m.Real fs))
    View.Ending (View.start r) :=
  Prog.Safe.mono (update_safe (m := m) rfl _ false rfl) fun w r hr => by
    obtain ⟨e | item, moved⟩ := r <;> exact hr

variable {U : Path → Option (Node Leaf)}

theorem Inv.start : Inv host m name expected fs (treeAt fs (m.target name)) (.start fs) where
  served t c hc := by simp [Pool.start] at hc
  alive t c hc := by simp [Pool.start] at hc
  safe t c q hc := by simp [Pool.start] at hc
  root d := Iff.rfl
  owned := .inl ⟨fun t c hc => by simp [Pool.start] at hc, rfl⟩

theorem Inv.spawn (h : Inv host m name expected fs U p) {r : UpdateCall}
    (hr : r.name = name ∧ r.expected = expected ∧ expected ≠ "") :
    Inv host m name expected fs U (p.spawn (body host m) r) := by
  -- a new update holds nothing
  refine ⟨fun t c hc => ?_, fun t c hc => ?_, fun t c q hc hq => ?_, h.root, ?_⟩
  · rcases getElem?_append_singleton_cases hc with ⟨-, rfl⟩ | hc
    · exact hr
    · exact h.served t c hc
  · rcases getElem?_append_singleton_cases hc with ⟨-, rfl⟩ | hc
    · simp
    · exact h.alive t c hc
  · rcases getElem?_append_singleton_cases hc with ⟨-, rfl⟩ | hc
    · obtain rfl := Option.some_inj.mp hq
      exact body_safe r
    · exact h.safe t c q hc hq
  · rcases h.owned with ⟨hall, htree⟩ | ⟨o, d, ho, hhold, hothers⟩
    · refine .inl ⟨fun t c hc => ?_, htree⟩
      rcases getElem?_append_singleton_cases hc with ⟨-, rfl⟩ | hc
      · exact .inl rfl
      · exact hall t c hc
    · refine .inr ⟨o, d, ?_, hhold, fun u e hne hu => ?_⟩
      · exact (List.getElem?_append_left (List.getElem?_eq_some_iff.mp ho).1).trans ho
      · rcases getElem?_append_singleton_cases hu with ⟨-, rfl⟩ | hu
        · exact .inl rfl
        · exact hothers u e hne hu

theorem Inv.step (h : Inv host m name expected fs U p) {ans : ∀ o, interface.Ans o}
    (hfair : Fair host m name expected p (.step t ans)) :
    Inv host m name expected fs U (p.step machine t ans) := by
  rcases Pool.step_cases (M := machine) p t ans with heq | ⟨c, o, k, hc, hrest, heq⟩
  · rw [heq]
    exact h
  have hsafe := h.safe t c _ hc hrest
  obtain ⟨hname, hexpected, hne⟩ := h.served t c hc
  have hcall := hfair c o k hc hrest
  rw [heq]
  -- all but the one that moves are as they were
  refine ⟨fun u d hu => ?_, fun u d hu => ?_, fun u d q hu hq => ?_, fun d => ?_, ?_⟩
  · rcases getElem?_set_cases hu with ⟨-, rfl⟩ | ⟨-, hu⟩
    · exact ⟨hname, hexpected, hne⟩
    · exact h.served u d hu
  · rcases getElem?_set_cases hu with ⟨-, rfl⟩ | ⟨-, hu⟩
    · simp [Call.advance]
    · exact h.alive u d hu
  · rcases getElem?_set_cases hu with ⟨-, rfl⟩ | ⟨-, hu⟩
    · obtain rfl := Option.some_inj.mp hq
      -- it goes on safely, since it was told what it relies on
      rw [know_advance]
      exact hsafe.2 _ (relies_of_fair h.root hcall)
    · exact h.safe u d q hu hq
  · exact (file_root hsafe.1 (ans o)).trans (h.root d)
  · exact step_owned hc (fun u d hu => (h.served u d hu).1) hexpected hne hsafe.1 hcall h.owned

theorem Inv.apply (h : Inv host m name expected fs U p) {e : Event interface UpdateCall}
    (hfair : Fair host m name expected p e) :
    Inv host m name expected fs U (p.apply machine (body host m) e) := by
  cases e with
  | spawn r => exact h.spawn hfair
  | step t ans => exact h.step hfair
  | kill t => exact hfair.elim

/-- An update that has succeeded has the directory for good. -/
theorem Inv.committed (h : Inv host m name expected fs U p) (ht : Succeeded p t) :
    ∃ c, p.calls[t]? = some c ∧ (know m c).phase = .committed := by
  obtain ⟨c, item, moved, hc, hrest⟩ := ht
  exact ⟨c, hc, h.safe t c _ hc hrest⟩

/-- While no running update has the directory moved away, only a success has changed it. -/
theorem Inv.quiescent (h : Inv host m name expected fs U p) (hquiet : Quiescent m p) :
    treeAt p.shared (m.target name) = U ∨ ∃ t, Succeeded p t := by
  rcases h.owned with ⟨-, htree⟩ | ⟨o, c, ho, hhold, -⟩
  · exact .inl htree
  · right
    have hnot := hhold.not_left
    match hrest : c.rest with
    | none => exact absurd hrest (h.alive o c ho)
    | some (.call op k) => exact absurd (hquiet o c ho ⟨op, k, hrest⟩) hnot
    | some (.pure (.error e, moved)) => exact absurd (h.safe o c _ ho hrest) hnot
    | some (.pure (.ok item, moved)) => exact ⟨o, c, item, moved, ho, hrest⟩

/-- Once an update has succeeded: the others are out of it, and the directory has a checksum that
none of them expects. -/
structure Settled (host : Host) (m : SkillManager) (name expected : String)
    (W : Path → Option (Node Leaf)) (p : Updates) : Prop where
  left : ∀ (t : Nat) c, p.calls[t]? = some c → (know m c).Left ∨ (know m c).phase = .committed
  tree : treeAt p.shared (m.target name) = W
  checksum : ¬HasChecksum host W expected

theorem Inv.settled (h : Inv host m name expected fs U p) (ht : Succeeded p t) :
    Settled host m name expected (treeAt p.shared (m.target name)) p := by
  obtain ⟨c, hc, hphase⟩ := h.committed ht
  obtain ⟨hhold, hothers⟩ := h.owned.holds hc (by simp [View.Left, hphase])
  refine ⟨fun u d hu => ?_, rfl, by simpa only [Hold, hphase] using hhold⟩
  by_cases hut : u = t
  · subst hut
    obtain rfl := Option.some_inj.mp (hu.symm.trans hc)
    exact .inr hphase
  · exact .inl (hothers u d hut hu)

theorem may_not_committed {root : Path} {real : Prop} {v : View} {o : Op}
    (h : v.May host root real o) : v.phase ≠ .committed := by
  cases o with
  | lstat | realpath | readFile | syncDir | readdir => exact h
  | mkdir | mkdirAll | writeNew => simp [h.2.2]
  | rename src dst => rcases h.2 with ⟨-, -, hp, -⟩ | ⟨-, -, hp⟩ | ⟨-, -, hp⟩ <;> simp [hp]
  | rm p force =>
    rcases h.2 with ⟨-, hp⟩ | ⟨-, hp | hp⟩ | ⟨-, hp⟩
    · exact hp
    all_goals simp [hp]

/-- After a success no fair step touches the directory. -/
theorem Settled.step {W : Path → Option (Node Leaf)} (h : Settled host m name expected W p)
    (hinv : Inv host m name expected fs U p) {ans : ∀ o, interface.Ans o}
    (hfair : Fair host m name expected p (.step t ans)) :
    Settled host m name expected W (p.step machine t ans) := by
  rcases Pool.step_cases (M := machine) p t ans with heq | ⟨c, o, k, hc, hrest, heq⟩
  · rw [heq]
    exact h
  have hmay := (hinv.safe t c _ hc hrest).1
  obtain ⟨hname, hexpected, hne⟩ := hinv.served t c hc
  obtain ⟨htarget, htemp, -⟩ := know_places (m := m) hname
  have hcall := hfair c o k hc hrest
  have hleft : (know m c).Left := (h.left t c hc).resolve_right (may_not_committed hmay)
  have hsame : treeAt (machine.handle o p.shared (ans o)).2 (m.target name) =
        treeAt p.shared (m.target name) ∧
      (know m (c.advance o k (machine.handle o p.shared (ans o)).1)).phase = (know m c).phase := by
    rw [know_advance]
    rcases aside_or hmay with haside | ⟨src, dst, rfl⟩ | ⟨q, force, rfl, hq⟩
    · refine ⟨?_, push_aside haside _⟩
      funext x
      refine get_aside haside ?_ (ans o)
      rw [htemp, Ne, sibling_inj_iff]
      exact (append_ne_self (by decide)).symm
    · rcases rename_cases src dst p.shared (ans (.rename src dst)) with ⟨e, hout⟩ | ⟨s', -, hout⟩
      · rw [hout]
        exact ⟨rfl, congrArg View.phase (push_error _ (.rename src dst) e)⟩
      · -- what the update read is still there, so it would have the checksum that is gone
        exfalso
        rw [hout] at hcall
        rcases hmay.2 with ⟨rfl, -, -, hchecked⟩ | ⟨-, -, hphase⟩ | ⟨-, -, hphase⟩
        · have hchecksum :=
            (hcall.1 rfl rfl).hasChecksum hchecked (by rwa [know_request, hexpected])
          rw [htarget, know_request, hexpected] at hchecksum
          exact h.checksum (h.tree ▸ hchecksum)
        · simp [View.Left, hphase] at hleft
        · simp [View.Left, hphase] at hleft
    · exfalso
      rcases hq with ⟨-, hphase | hphase⟩ | ⟨-, hphase⟩ <;> simp [View.Left, hphase] at hleft
  rw [heq]
  refine ⟨fun u d hu => ?_, hsame.1.trans h.tree, h.checksum⟩
  rcases getElem?_set_cases hu with ⟨-, rfl⟩ | ⟨-, hu⟩
  · left
    rwa [View.Left, hsame.2]
  · exact h.left u d hu

theorem Settled.apply {W : Path → Option (Node Leaf)} (h : Settled host m name expected W p)
    (hinv : Inv host m name expected fs U p) {e : Event interface UpdateCall}
    (hfair : Fair host m name expected p e) :
    Settled host m name expected W (p.apply machine (body host m) e) := by
  cases e with
  | spawn r =>
    refine ⟨fun t c hc => ?_, h.tree, h.checksum⟩
    rcases getElem?_append_singleton_cases hc with ⟨-, rfl⟩ | hc
    · exact .inl (.inl rfl)
    · exact h.left t c hc
  | step t ans => exact h.step hinv hfair
  | kill t => exact hfair.elim

/-- In a run all of whose events are fair at most one update succeeds; and between two moments at
which no running update has the directory moved away, it stays exactly as it was unless an update
succeeded, so also when others threw. -/
theorem compare_and_swap (before after : List (Event interface UpdateCall))
    (hfair : Pool.Meets machine (body host m) (Fair host m name expected) (.start fs)
      (before ++ after)) :
    (∀ t u, Succeeded (runFrom host m fs (before ++ after)) t →
      Succeeded (runFrom host m fs (before ++ after)) u → t = u) ∧
    (Quiescent m (runFrom host m fs before) → Quiescent m (runFrom host m fs (before ++ after)) →
      (∀ t, Succeeded (runFrom host m fs (before ++ after)) t → Succeeded (runFrom host m fs before) t) →
      treeAt (runFrom host m fs (before ++ after)).shared (m.target name) =
        treeAt (runFrom host m fs before).shared (m.target name)) := by
  obtain ⟨hfair₁, hfair₂⟩ := Pool.meets_append.mp hfair
  -- the invariant holds of both runs, which meet the condition at every step
  have hinv₁ : Inv host m name expected fs (treeAt fs (m.target name)) (runFrom host m fs before) :=
    Pool.run_induction (fun _ _ h hf => h.apply hf) hfair₁ Inv.start
  have hinv : Inv host m name expected fs (treeAt fs (m.target name))
      (runFrom host m fs (before ++ after)) :=
    Pool.run_induction (fun _ _ h hf => h.apply hf) hfair Inv.start
  constructor
  · -- an update that has renamed keeps every other one from having done so
    intro t u ht hu
    obtain ⟨c, hc, hphase⟩ := hinv.committed ht
    obtain ⟨d, hd, hphase'⟩ := hinv.committed hu
    obtain ⟨-, hothers⟩ := hinv.owned.holds hc (by simp [View.Left, hphase])
    by_contra hne
    have hleft := hothers u d (Ne.symm hne) hd
    simp [View.Left, hphase'] at hleft
  · intro hquiet₁ hquiet honly
    -- either one had succeeded before, and then nothing changes any more, or none ever did
    by_cases hsuccess : ∃ t, Succeeded (runFrom host m fs before) t
    · obtain ⟨t, ht⟩ := hsuccess
      have hrun : runFrom host m fs (before ++ after) =
          (runFrom host m fs before).run machine (body host m) after := Pool.run_append _ _ _
      rw [hrun]
      refine (Pool.run_induction (P := fun p => Inv host m name expected fs
          (treeAt fs (m.target name)) p ∧ Settled host m name expected
          (treeAt (runFrom host m fs before).shared (m.target name)) p)
        (fun _ _ h hf => ⟨h.1.apply hf, h.2.apply h.1 hf⟩) hfair₂
        ⟨hinv₁, hinv₁.settled ht⟩).2.tree
    · have hnone : ¬ ∃ t, Succeeded (runFrom host m fs (before ++ after)) t :=
        fun ⟨t, ht⟩ => hsuccess ⟨t, honly t ht⟩
      rw [(hinv.quiescent hquiet).resolve_right hnone,
        (hinv₁.quiescent hquiet₁).resolve_right hsuccess]

end Run

/-! ### Three runs -/

section Sample

def sampleHost : Host := ⟨fun _ => .ok "demo", id, fun a b => a ≤ b⟩

def sampleManager : SkillManager := ⟨some ["skills"], true⟩

def sampleFiles : Files :=
  ((FiniteMap.empty.set ["skills"] .dir).set ["skills", "demo"] .dir).set
    ["skills", "demo", "SKILL.md"] (.file (.regular "old"))

def sampleCall (text id : String) : UpdateCall where
  name := "demo"
  text := text
  expectedChecksum := some (digest sampleHost "old" Table.empty)
  files := []
  id := id

/-- The calls of the file system are carried out, except for renaming a path and removing one. -/
def sampleAnswers (unmoved unremoved : Path) : ∀ o : Op, o.Fault
  | .readdir _ => .ok []
  | .rename src _ => if src = unmoved then some "EIO" else none
  | .rm p _ =>
    if p = unremoved then some ("EACCES", fun q => q.getLast? = some "SKILL.md") else none
  | .lstat _ | .realpath _ | .readFile .. | .mkdir _ | .mkdirAll _ | .writeNew .. | .syncDir _ => none

def steps (t n : Nat) (unmoved unremoved : Path) : List (Event interface UpdateCall) :=
  List.replicate n (.step t (sampleAnswers unmoved unremoved))

/-- Both updates read before either renames. -/
def overlapping : List (Event interface UpdateCall) :=
  [.spawn (sampleCall "one" "1"), .spawn (sampleCall "two" "2")] ++ steps 0 9 [] [] ++
    steps 1 9 [] [] ++ steps 0 8 [] [] ++ steps 1 8 [] []

/-- One update, whose removal of the old tree stops halfway. -/
def halfRemoved : List (Event interface UpdateCall) :=
  .spawn (sampleCall "one" "1") :: steps 0 20 [] ["skills", "demo.bak-1"]

/-- One update, whose new tree cannot be moved. -/
def putBack : List (Event interface UpdateCall) :=
  .spawn (sampleCall "one" "1") :: steps 0 20 ["skills", "demo.tmp-1"] []

def sampleRun (es : List (Event interface UpdateCall)) : Updates :=
  runFrom sampleHost sampleManager sampleFiles es

/-- Which of the updates have ended, and how. -/
def ends (p : Updates) : List (Option Bool) :=
  p.calls.map fun c => c.result?.map fun r => match r.1 with
    | .ok _ => true
    | .error _ => false

theorem succeeded_iff {p : Updates} {t : Nat} :
    Succeeded p t ↔ (ends p)[t]? = some (some true) := by
  simp only [Succeeded, ends, List.getElem?_map, Option.map_eq_some_iff]
  constructor
  · rintro ⟨c, item, moved, hc, hrest⟩
    exact ⟨c, hc, _, Call.result?_eq_some.mpr hrest, rfl⟩
  · rintro ⟨c, hc, ⟨r, moved⟩, hr, hok⟩
    cases r with
    | error e => simp at hok
    | ok item => exact ⟨c, item, moved, hc, Call.result?_eq_some.mp hr⟩

/-- Two updates that expect the same checksum both succeed, and one that throws leaves the skill
without its manifest. -/
theorem both_updates_succeed :
    ¬ (∀ t u, Succeeded (sampleRun overlapping) t → Succeeded (sampleRun overlapping) u → t = u) ∧
      ends (sampleRun halfRemoved) = [some false] ∧
      treeAt sampleFiles (sampleManager.target "demo") ["SKILL.md"] = some (.file (.regular "old")) ∧
      treeAt (sampleRun halfRemoved).shared (sampleManager.target "demo") ["SKILL.md"] = none := by
  have hends : ends (sampleRun overlapping) = [some true, some true] := by decide
  refine ⟨fun h => ?_, by decide, by decide, by decide⟩
  exact absurd (h 0 1 (succeeded_iff.mpr (by simp [hends])) (succeeded_iff.mpr (by simp [hends])))
    (by decide)

/-- A check that a call is fair, where no tree takes the place of the directory and the skill has
no supporting files. -/
def plainlyFair (v : View) (s : Files) (o : Op) (out : Except SkillError o.Value × Files) : Bool :=
  match o, out with
  | .rename src _, (.ok _, _) =>
    src ≠ v.temp sampleManager.root && (src ≠ v.target sampleManager.root || v.read.isEmpty &&
      v.manifest.all (fun text => s.get (v.target sampleManager.root ++ ["SKILL.md"]) =
        some (.file (.regular text))) &&
      decide (∀ q ∈ s.keys, ∀ top ∈ SUPPORT, ¬ v.target sampleManager.root ++ [top] <+: q))
  | .rename src _, (.error _, _) => src ≠ v.backup sampleManager.root
  | .rm .., (.ok _, _) => true
  | .rm .., (.error _, _) => v.phase ≠ .taken && v.phase ≠ .placed
  | _, _ => true

def plainlyFairEvent (p : Updates) : Event interface UpdateCall → Bool
  | .spawn r => r.name = "demo" && r.expected = (sampleCall "" "").expected
  | .step t ans =>
    match p.calls[t]? with
    | some c =>
      match c.rest with
      | some (.call o _) => plainlyFair (know sampleManager c) p.shared o
          (machine.handle o p.shared (ans o))
      | _ => true
    | none => true
  | .kill _ => false

theorem fair_of_plainly {v : View} {s : Files} {o : Op} {out : Except SkillError o.Value × Files}
    {expected : String} (h : plainlyFair v s o out = true) :
    FairCall sampleHost sampleManager expected v s o out := by
  cases o with
  | lstat | realpath | readFile | readdir | mkdir | mkdirAll | writeNew | syncDir => trivial
  | rename src dst =>
    obtain ⟨r, s'⟩ := out
    cases r with
    | error e =>
      refine ⟨fun _ hok => (nomatch hok), fun _ hok => (nomatch hok), fun hsrc => ?_⟩
      simp [plainlyFair, hsrc] at h
    | ok u =>
      simp only [plainlyFair, Bool.and_eq_true, Bool.or_eq_true, decide_eq_true_eq,
        List.isEmpty_iff] at h
      obtain ⟨htemp, htarget⟩ := h
      -- a renaming of the target found the files that the update has read
      refine ⟨fun hsrc _ => ?_, fun hsrc => absurd hsrc htemp, fun _ => rfl⟩
      obtain ⟨⟨hread, hmanifest⟩, hkeys⟩ := htarget.resolve_left (not_not.mpr hsrc)
      refine ⟨fun text ht => ?_, fun rel text => ?_⟩
      · have hfile := hmanifest
        rw [ht, Option.all_some, decide_eq_true_eq] at hfile
        exact hfile
      · rw [hread]
        refine ⟨fun hmem => by simp at hmem, ?_⟩
        rintro ⟨⟨top, r, rfl, htop, -⟩, hfile⟩
        refine absurd ?_ (hkeys (v.target sampleManager.root ++ top :: r) ?_ top htop)
        · exact ⟨r, by simp⟩
        · rw [s.mem_keys]
          exact Option.isSome_iff_exists.mpr ⟨_, hfile⟩
  | rm p force =>
    obtain ⟨r, s'⟩ := out
    cases r with
    | ok u => exact fun _ => .inl rfl
    | error e =>
      rintro (hphase | hphase) <;> simp [plainlyFair, hphase] at h

/-- The update whose new tree cannot be moved: the old one is back in its place. -/
theorem compare_and_swap_put_back :
    ends (sampleRun putBack) = [some false] ∧
      treeAt (sampleRun putBack).shared (sampleManager.target "demo") =
        treeAt sampleFiles (sampleManager.target "demo") := by
  have hends : ends (sampleRun putBack) = [some false] := by decide
  refine ⟨hends, ?_⟩
  have hchecked : Pool.Meets machine (body sampleHost sampleManager)
      (fun p e => plainlyFairEvent p e = true) (.start sampleFiles) putBack := by decide
  have hne : (sampleCall "" "").expected ≠ "" := by decide
  -- that the run is checked step by step implies the condition
  have hfair : Pool.Meets machine (body sampleHost sampleManager)
      (Fair sampleHost sampleManager "demo" (sampleCall "" "").expected) (.start sampleFiles)
      putBack := by
    refine hchecked.imp fun p e he => ?_
    cases e with
    | spawn r =>
      simp only [plainlyFairEvent, Bool.and_eq_true, decide_eq_true_eq] at he
      exact ⟨he.1, he.2, hne⟩
    | step t ans =>
      intro c o k hc hrest
      refine fair_of_plainly ?_
      simpa only [plainlyFairEvent, hc, hrest] using he
    | kill t => exact Bool.false_ne_true he
  refine (compare_and_swap [] putBack hfair).2 ?_ ?_ ?_
  · intro t c hc
    simp [runFrom, Pool.start] at hc
  · intro t c hc hrunning
    have hended : ∀ c ∈ (sampleRun putBack).calls, ¬ c.Running := by decide
    exact absurd hrunning (hended c (List.mem_of_getElem? hc))
  · intro t ht
    have ht' : (ends (sampleRun putBack))[t]? = some (some true) := succeeded_iff.mp ht
    rw [hends] at ht'
    cases t <;> simp at ht'

end Sample

end AriOs.Cognition.Skills
