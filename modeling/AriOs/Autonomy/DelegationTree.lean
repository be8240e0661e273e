import AriOs.Autonomy.DelegationLifecycle
import AriOs.Js.Joined

/-!
# Trees of delegations

A child may spawn children of its own, naming its session as their parent. How deep the parent
is and what it was granted arrive with the request; `spawn` does not look at the entry of the
parent. So a child is below its parent in depth and capabilities where the request says what the
parent is, and need not be otherwise.
-/

namespace AriOs.Autonomy.Delegation

open AriOs.Async AriOs.Async.Transition AriOs.Js AriOs.Storage

/-! ### What never changes -/

/-- What a child is from the beginning. -/
def Entry.identity (e : Entry) : SpawnRequest × Nat × JsNumber := (e.request, e.sequence, e.depth)

/-- The same children, whatever has become of them. -/
def Kept (m m' : Manager) : Prop := m'.entries.map Entry.identity = m.entries.map Entry.identity

variable {o : Options} {m m' m'' : Manager} {i : Nat} {e e' p : Entry}

theorem identity_eq (h : e'.identity = e.identity) :
    e'.request = e.request ∧ e'.sequence = e.sequence ∧ e'.depth = e.depth := by
  simpa [Entry.identity] using h

theorem Kept.refl (m : Manager) : Kept m m := rfl

theorem Kept.trans (h : Kept m m') (h' : Kept m' m'') : Kept m m'' := Eq.trans h' h

theorem kept_of_entries (h : m'.entries = m.entries) : Kept m m' := by
  unfold Kept
  rw [h]

theorem kept_set (hentries : m'.entries = m.entries.set i e') (hi : m.entries[i]? = some e)
    (hidentity : e'.identity = e.identity) : Kept m m' := by
  unfold Kept
  rw [hentries, List.map_set, hidentity]
  apply List.ext_getElem?
  intro j
  by_cases hij : i = j
  · subst hij
    have hmap : (m.entries.map Entry.identity)[i]? = some e.identity := by simp [hi]
    rw [getElem?_set_of_some hmap, hmap]
  · rw [List.getElem?_set_ne hij]

theorem kept_drainFrom (queue : List Nat) (m : Manager) :
    Kept m (Manager.drainFrom o queue m) := by
  induction queue generalizing m with
  | nil => exact kept_of_entries rfl
  | cons i queue ih =>
    unfold Manager.drainFrom
    split
    · refine Kept.trans ?_ (ih _)
      split
      · rename_i e hi
        split
        · exact kept_set rfl hi rfl
        · exact .refl m
      · exact .refl m
    · exact kept_of_entries rfl

theorem kept_leave (hi : m.entries[i]? = some e) (hidentity : e'.identity = e.identity) :
    Kept m (m.leave o i e') := by
  have hleft : ∀ active, Kept m { m with
      entries := m.entries.set i { e' with stage := .finished, lane := false }, active } :=
    fun active => kept_set rfl hi hidentity
  unfold Manager.leave
  split
  · exact (hleft _).trans (kept_drainFrom _ _)
  · exact hleft m.active

theorem kept_finish (hi : m.entries[i]? = some e) (hidentity : e'.identity = e.identity)
    (status : DelegationStatus) (result : Option ChildRuntimeResult) (error : Option String)
    (announce : Bool) : Kept m (m.finish i e' status result error announce) := by
  unfold Manager.finish
  split
  · exact .refl m
  · exact kept_set rfl hi hidentity

theorem kept_caught (hi : m.entries[i]? = some e) (x : Thrown) : Kept m (m.caught o i e x) := by
  unfold Manager.caught
  split
  · exact kept_finish hi rfl _ _ _ _
  · exact kept_leave hi rfl

theorem kept_raced (hi : m.entries[i]? = some e) (outcome : Except Thrown JsValue) :
    Kept m (m.raced o i e outcome) := by
  cases outcome with
  | error x => exact kept_caught hi x
  | ok raw =>
    simp only [Manager.raced]
    split
    · exact kept_caught hi _
    · split
      · exact kept_caught hi _
      · split
        · exact kept_finish hi rfl _ _ _ _
        · split
          · exact kept_caught hi _
          · split
            · exact kept_set rfl hi rfl
            · exact kept_finish hi rfl _ _ _ _

theorem kept_verified (hi : m.entries[i]? = some e) (result : ChildRuntimeResult)
    (outcome : Except Thrown Bool) : Kept m (m.verified o i e result outcome) := by
  match outcome with
  | .ok true | .ok false | .error (some text) => exact kept_finish hi rfl _ _ _ _
  | .error none => exact kept_caught hi _

theorem kept_announced (hi : m.entries[i]? = some e) (r : DelegationResult)
    (outcome : Except Thrown Unit) : Kept m (m.announced o i e r outcome) := by
  match outcome with
  | .ok () | .error (some text) => exact kept_set rfl hi rfl
  | .error none => exact kept_leave hi rfl

theorem kept_archived (hi : m.entries[i]? = some e) (r : DelegationResult) (errors : List String)
    (outcome : Except Thrown Unit) : Kept m (m.archived o i e r errors outcome) := by
  match outcome with
  | .ok () | .error (some text) | .error none => exact kept_leave hi rfl

theorem kept_resume (hi : m.entries[i]? = some e) (ev : Event) : Kept m (m.resume o i e ev) := by
  cases ev with
  | spawn | drain | cancel | cancelParent => exact .refl m
  -- out of its stage an answer changes nothing
  | deadline j =>
    simp only [Manager.resume]
    split
    · exact kept_set rfl hi rfl
    · exact .refl m
  | runtime j outcome =>
    simp only [Manager.resume]
    split
    · exact kept_raced hi outcome
    · exact .refl m
  | aborted j =>
    simp only [Manager.resume]
    split
    · exact kept_caught hi _
    · exact .refl m
  | verifier j outcome =>
    simp only [Manager.resume]
    split
    · exact kept_verified hi _ outcome
    · exact .refl m
  | hook j outcome =>
    simp only [Manager.resume]
    split
    · exact kept_announced hi _ outcome
    · exact kept_archived hi _ _ outcome
    · exact .refl m

theorem kept_cancel (m : Manager) (i : Nat) (reason : Thrown) :
    Kept m (after (m.cancel i reason)) := by
  unfold Manager.cancel
  cases hi : m.entries[i]? with
  | none => exact .refl m
  | some e =>
    dsimp only
    split
    · exact .refl m
    · split
      · cases reason with
        | some text =>
          exact kept_finish (m := { m with queue := m.queue.erase i }) hi
            (show (e.abort (some text)).identity = e.identity from rfl) _ _ _ _
        | none => exact kept_set rfl hi rfl
      · exact kept_set rfl hi rfl

theorem kept_bind {x : Except Manager Manager} {f : Manager → Except Manager Manager}
    (hx : Kept m (after x)) (hf : ∀ m', Kept m' (after (f m'))) : Kept m (after (x >>= f)) := by
  cases x with
  | error m' => exact hx
  | ok m' => exact hx.trans (hf m')

theorem kept_visit (depth : Nat) (parent : String) (reason : Thrown) (m : Manager) :
    Kept m (after (Manager.visit depth parent reason m)) := by
  induction depth generalizing parent m with
  | zero => exact .refl m
  | succ depth ih =>
    unfold Manager.visit
    generalize List.range m.entries.length = l
    induction l generalizing m with
    | nil => exact .refl m
    | cons i l ihl =>
      rw [List.foldlM_cons]
      refine kept_bind ?_ ihl
      unfold Manager.visitEntry
      split
      · split
        · exact kept_bind (ih _ m) fun m' => kept_cancel m' i reason
        · exact .refl m
      · exact .refl m

/-- Every event but a spawn keeps the children there are, and adds none. -/
theorem kept_apply (m : Manager) {ev : Event} (hev : ∀ r, ev ≠ .spawn r) :
    Kept m (m.apply o ev) := by
  cases ev with
  | spawn r => exact absurd rfl (hev r)
  | drain =>
    simp only [Manager.apply]
    split
    · exact .refl m
    · exact kept_drainFrom m.queue { m with drains := m.drains - 1 }
  | cancel i reason => exact kept_cancel m i reason
  | cancelParent parent reason => exact kept_visit m.visitDepth parent reason m
  | deadline i | runtime i _ | aborted i | verifier i _ | hook i _ =>
    simp only [Manager.apply]
    split
    · exact kept_resume ‹_› _
    · exact .refl m

theorem Kept.get (h : Kept m m') (hi : m'.entries[i]? = some e') :
    ∃ e, m.entries[i]? = some e ∧ e'.identity = e.identity := by
  have hmap := congrArg (fun l => l[i]?) h
  simp only [List.getElem?_map, hi, Option.map_some] at hmap
  obtain ⟨e, he, heq⟩ := Option.map_eq_some_iff.mp hmap.symm
  exact ⟨e, he, heq.symm⟩

/-! ### What a child is granted -/

/-- The capabilities a child was granted. -/
def Entry.capabilities (e : Entry) : List String := e.request.requestedCapabilities

/-- The child is one deeper than this parent, not too deep, and granted no more. -/
structure Attenuates (o : Options) (p e : Entry) : Prop where
  depth : e.depth = p.depth.add (.ofInt 1)
  bound : e.depth = .nan ∨ e.depth.le (.finite o.limits.maxDepth) = true
  capabilities : e.capabilities ⊆ p.capabilities

/-- The child is as deep as its request says, not too deep, and granted what the request names
as its parent's, of what is allowed. -/
structure Granted (o : Options) (e : Entry) : Prop where
  depth : e.depth = e.request.childDepth
  bound : e.depth = .nan ∨ e.depth.le (.finite o.limits.maxDepth) = true
  capabilities : ∀ c ∈ e.capabilities, c ∈ e.request.parentCapabilities ∧ c ∈ o.allowed

/-- The request of the child says what this parent is: its depth, and no capability that it was
not granted. -/
structure Entry.Tells (p e : Entry) : Prop where
  parent : e.request.parentSessionId = p.id
  depth : e.request.depth = some p.depth
  capabilities : e.request.parentCapabilities ⊆ p.capabilities

theorem Granted.attenuates (h : Granted o e) (htells : p.Tells e) : Attenuates o p e where
  depth := by rw [h.depth, SpawnRequest.childDepth, htells.depth, Option.getD_some]
  bound := h.bound
  capabilities c hc := htells.capabilities (h.capabilities c hc).1

theorem nan_or_le_of_not_lt {a b : JsNumber} (hb : b ≠ .nan) (h : b.lt a = false) :
    a = .nan ∨ a.le b = true := by
  cases a with
  | nan => exact .inl rfl
  | infinity negative =>
    right
    cases b with
    | nan => exact absurd rfl hb
    | infinity negative' => cases negative <;> cases negative' <;> simp_all [JsNumber.lt, JsNumber.le]
    | finite q => cases negative <;> simp_all [JsNumber.lt, JsNumber.le]
  | finite r =>
    right
    cases b with
    | nan => exact absurd rfl hb
    | infinity negative => cases negative <;> simp_all [JsNumber.lt, JsNumber.le]
    | finite q =>
      have hle : r ≤ q := by simpa [JsNumber.lt] using h
      rcases lt_or_eq_of_le hle with hlt | rfl
      · simp [JsNumber.le, JsNumber.lt, hlt]
      · simp [JsNumber.le]

/-- What `spawn` adds. -/
theorem spawn_entries {r : SpawnRequest} (h : m.spawn o r = .ok m') :
    ∃ capabilities, m'.entries = m.entries ++ [r.child capabilities (m.entries.length + 1)] ∧
      Granted o (r.child capabilities (m.entries.length + 1)) := by
  simp only [Manager.spawn, bind_eq_ok, throwIf_eq_ok] at h
  obtain ⟨-, hdepth, -, -, -, -, -, -, -, -, heq⟩ := h
  obtain rfl := Except.ok.inj heq
  have hnot : (JsNumber.finite o.limits.maxDepth).lt r.childDepth = false := by simpa using hdepth
  refine ⟨_, rfl, rfl, nan_or_le_of_not_lt (by simp) hnot, fun c hc => ?_⟩
  have hmem := (List.mem_filter.mp hc).2
  rw [Bool.and_eq_true] at hmem
  exact ⟨of_decide_eq_true hmem.1, of_decide_eq_true hmem.2⟩

/-- A property of what a child is from the beginning holds of all children of a run if it holds
of every child that is spawned. -/
theorem forall_entries_apply {P : Entry → Prop}
    (hP : ∀ e e' : Entry, e'.identity = e.identity → P e → P e') (h : ∀ e ∈ m.entries, P e)
    {ev : Event} (hspawn : ∀ r m', ev = .spawn r → m.spawn o r = .ok m' →
      ∀ e ∈ m'.entries, e ∉ m.entries → P e) : ∀ e ∈ (m.apply o ev).entries, P e := by
  intro e he
  by_cases hev : ∃ r, ev = .spawn r
  · obtain ⟨r, rfl⟩ := hev
    simp only [Manager.apply] at he
    split at he
    · rename_i m' hm'
      by_cases hold : e ∈ m.entries
      · exact h e hold
      · exact hspawn r m' rfl hm' e he hold
    · exact h e he
  · obtain ⟨i, hi⟩ := List.mem_iff_getElem?.mp he
    obtain ⟨x, hx, hidentity⟩ := (kept_apply (o := o) m fun r heq => hev ⟨r, heq⟩).get hi
    exact hP x e hidentity (h x (List.mem_of_getElem? hx))

theorem Granted.of_identity (h : Granted o e) (hidentity : e'.identity = e.identity) :
    Granted o e' := by
  obtain ⟨hrequest, -, hdepth⟩ := identity_eq hidentity
  refine ⟨?_, ?_, ?_⟩
  · rw [hdepth, hrequest, h.depth]
  · rw [hdepth]
    exact h.bound
  · rw [Entry.capabilities, hrequest]
    exact h.capabilities

/-- In every state of every run, every child is as its request says; so it is below each session
of the manager whose depth and capabilities its request tells. -/
theorem granted_throughout (o : Options) (es : List Event) :
    Throughout (Manager.apply o) (fun m => ∀ e ∈ m.entries, Granted o e ∧
      ∀ p ∈ m.entries, p.Tells e → Attenuates o p e) .start es := by
  have hall : Throughout (Manager.apply o) (fun m => ∀ e ∈ m.entries, Granted o e) .start es := by
    refine throughout_of_invariant (fun m ev hm => ?_) (by simp [Manager.start])
    refine forall_entries_apply (fun e e' heq h => h.of_identity heq) hm ?_
    rintro r m' rfl hm' e he hnew
    obtain ⟨capabilities, hentries, hgranted⟩ := spawn_entries hm'
    rw [hentries] at he
    rcases List.mem_append.mp he with he | he
    · exact absurd he hnew
    · rw [List.mem_singleton.mp he]
      exact hgranted
  exact hall.imp fun m hm e he => ⟨hm e he, fun p _ htells => (hm e he).attenuates htells⟩

/-! ### Sessions -/

/-- Children are numbered in the order they were spawned. -/
def Numbered (m : Manager) : Prop := ∀ (i : Nat) e, m.entries[i]? = some e → e.sequence = i + 1

theorem Numbered.apply (h : Numbered m) (ev : Event) : Numbered (m.apply o ev) := by
  by_cases hev : ∃ r, ev = .spawn r
  · obtain ⟨r, rfl⟩ := hev
    simp only [Manager.apply]
    split
    · rename_i m' hm'
      obtain ⟨capabilities, hentries, -⟩ := spawn_entries hm'
      intro i e hi
      rw [hentries] at hi
      rcases getElem?_append_singleton_cases hi with ⟨rfl, rfl⟩ | hi
      · rfl
      · exact h i e hi
    · exact h
  · intro i e hi
    obtain ⟨x, hx, hidentity⟩ := (kept_apply (o := o) m fun r heq => hev ⟨r, heq⟩).get hi
    exact (congrArg (fun t => t.2.1) hidentity).trans (h i x hx)

/-! ### Chains of sessions -/

/-- A spawn that names a session of this manager says what this session is. -/
def PassesOn (m : Manager) : Event → Prop
  | .spawn r => ∀ p ∈ m.entries, p.id = r.parentSessionId →
      r.depth = some p.depth ∧ r.parentCapabilities ⊆ p.capabilities
  | _ => True

/-- Every child that names an earlier session says what this session is. -/
structure Told (m : Manager) : Prop where
  numbered : Numbered m
  tells : ∀ p ∈ m.entries, ∀ e ∈ m.entries, p.sequence < e.sequence →
    e.request.parentSessionId = p.id → p.Tells e

/-- A chain of sessions, each the parent of the next, with its length. -/
inductive Descends (m : Manager) : Nat → Entry → Entry → Prop
  | self {p : Entry} (hp : p ∈ m.entries) : Descends m 0 p p
  | child {n : Nat} {p q e : Entry} (h : Descends m n p q) (he : e ∈ m.entries)
      (hlater : q.sequence < e.sequence) (hparent : e.request.parentSessionId = q.id) :
      Descends m (n + 1) p e

theorem Told.apply (h : Told m) {ev : Event} (hpasses : PassesOn m ev) : Told (m.apply o ev) := by
  refine ⟨h.numbered.apply ev, ?_⟩
  by_cases hev : ∃ r, ev = .spawn r
  · obtain ⟨r, rfl⟩ := hev
    simp only [Manager.apply]
    split
    · rename_i m' hm'
      obtain ⟨capabilities, hentries, -⟩ := spawn_entries hm'
      have hlt : ∀ p ∈ m.entries, p.sequence < m.entries.length + 1 := by
        intro p hp
        obtain ⟨i, hi⟩ := List.mem_iff_getElem?.mp hp
        rw [h.numbered i p hi]
        exact Nat.succ_lt_succ (List.getElem?_eq_some_iff.mp hi).1
      intro p hp e he hlater hparent
      rw [hentries, List.mem_append, List.mem_singleton] at hp he
      -- the new child is the last one, so it is nobody's parent yet
      rcases he with he | rfl
      · rcases hp with hp | rfl
        · exact h.tells p hp e he hlater hparent
        · exact absurd hlater (not_lt.mpr (hlt e he).le)
      · rcases hp with hp | rfl
        · obtain ⟨hdepth, hcapabilities⟩ := hpasses p hp hparent.symm
          exact ⟨hparent, hdepth, hcapabilities⟩
        · exact absurd hlater (lt_irrefl _)
    · exact h.tells
  · intro p hp e he hlater hparent
    have hkept := kept_apply (o := o) m fun r heq => hev ⟨r, heq⟩
    obtain ⟨i, hi⟩ := List.mem_iff_getElem?.mp hp
    obtain ⟨j, hj⟩ := List.mem_iff_getElem?.mp he
    obtain ⟨p', hp', hpid⟩ := hkept.get hi
    obtain ⟨e', he', heid⟩ := hkept.get hj
    obtain ⟨hprequest, hpsequence, hpdepth⟩ := identity_eq hpid
    obtain ⟨herequest, hesequence, -⟩ := identity_eq heid
    have hid : p.id = p'.id := by rw [Entry.id, Entry.id, hprequest, hpsequence]
    have htells := h.tells p' (List.mem_of_getElem? hp') e' (List.mem_of_getElem? he')
      (by omega) (by rw [← herequest, ← hid, hparent])
    exact ⟨hparent, by rw [herequest, hpdepth, htells.depth],
      by rw [herequest, Entry.capabilities, hprequest]; exact htells.capabilities⟩

theorem add_ofInt_zero (d : JsNumber) : d.add (.ofInt 0) = d := by
  cases d with
  | nan | infinity => rfl
  | finite q => simp [JsNumber.add, JsNumber.ofInt]

theorem add_ofInt_succ (d : JsNumber) (n : Nat) :
    (d.add (.ofInt n)).add (.ofInt 1) = d.add (.ofInt (n + 1 : Nat)) := by
  cases d with
  | nan | infinity => rfl
  | finite q => simp [JsNumber.add, JsNumber.ofInt, add_assoc]

/-- Where every spawn passes on what the session it names is, depth grows by one with each link
of any chain of sessions, and no capability is gained along it. -/
theorem attenuates_along (o : Options) (es : List Event)
    (hpasses : Meets (Manager.apply o) PassesOn .start es) :
    Throughout (Manager.apply o) (fun m => ∀ n p e, Descends m n p e →
      e.depth = p.depth.add (.ofInt n) ∧ e.capabilities ⊆ p.capabilities) .start es := by
  rintro before after rfl
  have htold : Told (run (Manager.apply o) .start before) :=
    run_induction (fun _ _ h hcond => h.apply hcond) (meets_append.mp hpasses).1
      ⟨by simp [Numbered, Manager.start], by simp [Manager.start]⟩
  have hgranted := granted_throughout o before before [] (List.append_nil before).symm
  intro n p e hdescends
  induction hdescends with
  | self hp => exact ⟨(add_ofInt_zero _).symm, List.Subset.refl _⟩
  | @child n p q e h he hlater hparent ih =>
    have hq : q ∈ (run (Manager.apply o) .start before).entries := by
      cases h <;> assumption
    have htells := htold.tells q hq e he hlater hparent
    obtain ⟨hdepth, hcapabilities⟩ := ih
    have hlink := (hgranted e he).1.attenuates htells
    refine ⟨?_, fun c hc => hcapabilities (hlink.capabilities hc)⟩
    rw [hlink.depth, hdepth, add_ofInt_succ]

/-- A child and its own child, whose requests say what their parents are. -/
def passedOn : List Event :=
  [.spawn ⟨"watch", "parent", ["market:read"], ["market:read"], none, .null, .null⟩,
    .spawn ⟨"read", "parent:child:1", ["market:read"], ["market:read"], some (.ofInt 1), .null,
      .null⟩]

theorem attenuates_along_passedOn :
    Throughout (Manager.apply oneLane) (fun m => ∀ n p e, Descends m n p e →
      e.depth = p.depth.add (.ofInt n) ∧ e.capabilities ⊆ p.capabilities) .start passedOn := by
  refine attenuates_along oneLane passedOn ⟨fun p hp => absurd hp List.not_mem_nil, ?_, trivial⟩
  change ∀ p ∈ _, _ → _
  decide +kernel

/-! ### A child that is granted more than its parent -/

/-- Two capabilities to be had. -/
def twoCapabilities : Options := { oneLane with allowed := ["market:read", "news:read"] }

/-- A child whose request leaves out how deep its parent is and names a capability that this
was not granted. -/
def restarted : List Event :=
  [.spawn ⟨"watch", "parent", ["market:read"], ["market:read"], none, .null, .null⟩,
    .spawn ⟨"read", "parent:child:1", ["market:read", "news:read"], ["market:read", "news:read"],
      none, .null, .null⟩]

/-- The second child is as deep as its parent, and granted more. -/
theorem restarted_not_attenuated :
    ∃ p ∈ (run (Manager.apply twoCapabilities) .start restarted).entries,
      ∃ e ∈ (run (Manager.apply twoCapabilities) .start restarted).entries,
        p.sequence < e.sequence ∧ e.request.parentSessionId = p.id ∧
          e.depth ≠ p.depth.add (.ofInt 1) ∧ ¬e.capabilities ⊆ p.capabilities := by
  have hentries : (run (Manager.apply twoCapabilities) .start restarted).entries.map
      (fun e => (e.id, e.sequence, e.request.parentSessionId, e.depth, e.capabilities)) =
      [("parent:child:1", 1, "parent", .finite 1, ["market:read"]),
        ("parent:child:1:child:2", 2, "parent:child:1", .finite 1,
          ["market:read", "news:read"])] := by
    decide +kernel
  obtain ⟨p, e, hpe⟩ := List.length_eq_two.mp (by simpa using congrArg List.length hentries)
  rw [hpe] at hentries ⊢
  obtain ⟨⟨hid, hp, -, hpdepth, hpgranted⟩, -, he, hparent, hedepth, hegranted⟩ := by
    simpa using hentries
  refine ⟨p, by simp, e, by simp, by omega, by rw [hparent, hid], ?_, ?_⟩
  · rw [hpdepth, hedepth]
    decide +kernel
  · rw [hpgranted, hegranted]
    simp

end AriOs.Autonomy.Delegation
