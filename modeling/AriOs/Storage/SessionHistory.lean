import AriOs.Async.Transition
import AriOs.Storage.SessionStore
import Mathlib.Data.Fintype.EquivFin
import Mathlib.Logic.Relation

/-!
# The history of a session

The history of a session should be what its ancestors held up to the branch points, followed by
its own messages, and should not depend on what is appended elsewhere. The constraints of the
database make the lineage end and the branch points exist; the two loops treat an empty id as
none. Histories are as they should be if and only if no session of the lineage was branched from a
session or at a message whose id is empty.

## Main results

* `sound_run` — every store that can be reached is sound
* `stable_iff`
-/

namespace AriOs.Storage.SessionStore

open AriOs.Async.Transition Relation

/-! ### What a history should be -/

/-- What a session inherits: of each ancestor the messages up to the branch point. -/
inductive Inherited (st : SessionStore) : Session → List Message → Prop
  | root {s : Session} (h : s.branch = none) : Inherited st s []
  | branched {s p : Session} {b : Branch} {before upTo later : List Message} {m : Message}
      (hbranch : s.branch = some b) (hparent : st.getSession b.parentSessionId = some p)
      (hbefore : Inherited st p before) (hrows : st.ownMessages p.id = upTo ++ m :: later)
      (hpoint : m.id = b.parentMessageId) : Inherited st s (before ++ (upTo ++ [m]))

/-- The history of a session is what it inherits and its own messages, and appending to another
session does not change it. -/
structure Stable (st : SessionStore) (s : Session) : Prop where
  history : ∃ before, st.Inherited s before ∧
    st.getMessages s.id true = .ok (before ++ st.ownMessages s.id)
  unchanged : ∀ i : MessageInput, i.sessionId ≠ s.id →
    (st.appendMessage i).2.getMessages s.id true = st.getMessages s.id true

/-- One session was branched from the other. -/
def BranchedFrom (st : SessionStore) (s p : Session) : Prop :=
  ∃ b, s.branch = some b ∧ st.getSession b.parentSessionId = some p

/-- No session on the lineage was branched from a session or at a message with an empty id. -/
def Unblanked (st : SessionStore) (s : Session) : Prop :=
  ∀ x, ReflTransGen st.BranchedFrom s x → ∀ b ∈ x.branch,
    b.parentSessionId ≠ "" ∧ b.parentMessageId ≠ ""

/-! ### What the constraints keep -/

/-- The place of a session in its table. -/
def rank (st : SessionStore) (id : String) : Nat := st.sessions.rows.findIdx (·.id = id)

/-- Messages are in the order of their numbers and belong to sessions; a session was branched
from a message of an earlier one. -/
structure Sound (st : SessionStore) : Prop where
  numbered : ∀ m ∈ st.messages.rows, m.sequence ≤ st.sequence
  ordered : st.messages.rows.Pairwise (·.sequence < ·.sequence)
  owned : ∀ m ∈ st.messages.rows, ∃ s, st.getSession m.sessionId = some s
  branched : ∀ s ∈ st.sessions.rows, ∀ b ∈ s.branch, ∃ p m,
    st.getSession b.parentSessionId = some p ∧ st.rank p.id < st.rank s.id ∧
    st.branchPoint b = some m

variable {st : SessionStore} {s p x : Session} {b : Branch} {m : Message}

theorem sound_empty : empty.Sound where
  numbered := by simp [empty]
  ordered := by simp [empty]
  owned := by simp [empty]
  branched := by simp [empty]

theorem id_of_getSession {id : String} (h : st.getSession id = some p) : p.id = id :=
  (Table.find?_eq_some_iff.mp h).2

theorem mem_of_getSession {id : String} (h : st.getSession id = some p) : p ∈ st.sessions.rows :=
  (Table.find?_eq_some_iff.mp h).1

theorem getSession_of_mem (h : s ∈ st.sessions.rows) : st.getSession s.id = some s :=
  Table.mem_rows_iff.mp h

theorem branchPoint_eq_some : st.branchPoint b = some m ↔
    m ∈ st.messages.rows ∧ m.id = b.parentMessageId ∧ m.sessionId = b.parentSessionId := by
  rw [branchPoint, Option.filter_eq_some_iff, Table.find?_eq_some_iff, and_assoc,
    decide_eq_true_eq]

/-- What a call does: nothing, or it uses up a number, or inserts a session, or a message. -/
theorem step_cases (st : SessionStore) (c : Call) : st.step c = st ∨
    st.step c = { st with sequence := st.sequence + 1 } ∨
    (∃ i now row sessions, c = .createSession i now ∧
      st.sessions.insert? row = some sessions ∧ (∀ b ∈ row.branch, ∃ m, st.branchPoint b = some m) ∧
      st.step c = { st with sessions }) ∨
    (∃ i messages, c = .appendMessage i ∧
      st.messages.insert? (i.row (st.sequence + 1)) = some messages ∧
      (∃ s, st.getSession i.sessionId = some s) ∧
      st.step c = { st with messages, sequence := st.sequence + 1 }) := by
  cases c with
  | createSession i now =>
    simp only [step, createSession]
    cases checkBranch i with
    | error err => exact .inl rfl
    | ok branch =>
      simp only [insertSession]
      cases hinsert : st.sessions.insert? ⟨i.id, i.title, branch, i.createdAt.getD now⟩ with
      | none => exact .inl rfl
      | some sessions =>
        -- the branch points of the row have to exist
        by_cases hforeign : ∃ b ∈ branch, st.branchPoint b = none
        · left
          simp only [Js.throwIf, if_pos hforeign]
          rfl
        · right; right; left
          refine ⟨i, now, _, sessions, rfl, hinsert, ?_, ?_⟩
          · intro b hb
            exact Option.ne_none_iff_exists'.mp fun hnone => hforeign ⟨b, hb, hnone⟩
          · simp only [Js.throwIf, if_neg hforeign]
            rfl
  | appendMessage i =>
    simp only [step, appendMessage, insertMessage]
    cases hinsert : st.messages.insert? (i.row (st.sequence + 1)) with
    | none => exact .inr (.inl rfl)
    | some messages =>
      cases hsession : st.getSession i.sessionId with
      | none =>
        left
        simp [Js.throwIf, bind, Except.bind]
      | some s =>
        right; right; right
        exact ⟨i, messages, rfl, hinsert, ⟨s, hsession⟩, by simp [Js.throwIf, bind, Except.bind]⟩

/-- A session that was there keeps its place. -/
theorem rank_insert {row : Session} {sessions : Table Session.id}
    (h : st.sessions.insert? row = some sessions) (hs : s ∈ st.sessions.rows) :
    ({ st with sessions } : SessionStore).rank s.id = st.rank s.id := by
  have hlt : st.sessions.rows.findIdx (·.id = s.id) < st.sessions.rows.length :=
    List.findIdx_lt_length_of_exists ⟨s, hs, by simp⟩
  simp only [rank, Table.rows_of_insert? h, List.findIdx_append, if_pos hlt]

/-- A new session comes behind all of them. -/
theorem rank_new {row : Session} {sessions : Table Session.id}
    (h : st.sessions.insert? row = some sessions) (hs : s ∈ st.sessions.rows) :
    ({ st with sessions } : SessionStore).rank s.id <
      ({ st with sessions } : SessionStore).rank row.id := by
  have hlt : st.sessions.rows.findIdx (·.id = s.id) < st.sessions.rows.length :=
    List.findIdx_lt_length_of_exists ⟨s, hs, by simp⟩
  have hnew : ¬st.sessions.rows.findIdx (·.id = row.id) < st.sessions.rows.length := by
    rw [List.findIdx_lt_length]
    rintro ⟨s', hs', hid⟩
    exact Table.find?_eq_none_iff.mp (Table.find?_of_insert? h) s' hs' (by simpa using hid)
  rw [rank_insert h hs]
  simp only [rank, Table.rows_of_insert? h, List.findIdx_append, if_neg hnew]
  omega

/-- A session is inserted, branched from a message that is there, if from any. -/
theorem Sound.insertSession (h : st.Sound) {row : Session} {sessions : Table Session.id}
    (hinsert : st.sessions.insert? row = some sessions)
    (hforeign : ∀ b ∈ row.branch, ∃ m, st.branchPoint b = some m) :
    ({ st with sessions } : SessionStore).Sound := by
  have hold : ∀ id s, st.getSession id = some s →
      ({ st with sessions } : SessionStore).getSession id = some s :=
    fun id s hs => Table.find?_insert?_of_some hinsert hs
  refine ⟨h.numbered, h.ordered, ?_, ?_⟩
  · intro m hm
    obtain ⟨s, hs⟩ := h.owned m hm
    exact ⟨s, hold _ _ hs⟩
  · intro s hs b hb
    rw [Table.rows_of_insert? hinsert] at hs
    rcases List.mem_append.mp hs with hs | hs
    · obtain ⟨p, m, hp, hrank, hpoint⟩ := h.branched s hs b hb
      refine ⟨p, m, hold _ _ hp, ?_, hpoint⟩
      rwa [rank_insert hinsert (mem_of_getSession hp), rank_insert hinsert hs]
    · obtain rfl := List.mem_singleton.mp hs
      obtain ⟨m, hpoint⟩ := hforeign b hb
      obtain ⟨hm, -, hsession⟩ := branchPoint_eq_some.mp hpoint
      obtain ⟨p, hp⟩ := h.owned m hm
      rw [hsession] at hp
      exact ⟨p, m, hold _ _ hp, rank_new hinsert (mem_of_getSession hp), hpoint⟩

/-- A message is inserted, under a number above all that were given out. -/
theorem Sound.insertMessage (h : st.Sound) {row : Message} {messages : Table Message.id}
    (hinsert : st.messages.insert? row = some messages) (hnumber : row.sequence = st.sequence + 1)
    (hsession : ∃ s, st.getSession row.sessionId = some s) :
    ({ st with messages, sequence := st.sequence + 1 } : SessionStore).Sound := by
  have hrows := Table.rows_of_insert? hinsert
  refine ⟨?_, ?_, ?_, ?_⟩
  · intro m hm
    rw [hrows] at hm
    rcases List.mem_append.mp hm with hm | hm
    · exact (h.numbered m hm).trans (Nat.le_succ _)
    · obtain rfl := List.mem_singleton.mp hm
      exact hnumber.le
  · rw [hrows, List.pairwise_append]
    refine ⟨h.ordered, List.pairwise_singleton _ _, ?_⟩
    intro m hm m' hm'
    obtain rfl := List.mem_singleton.mp hm'
    rw [hnumber]
    exact Nat.lt_succ_of_le (h.numbered m hm)
  · intro m hm
    rw [hrows] at hm
    rcases List.mem_append.mp hm with hm | hm
    · exact h.owned m hm
    · obtain rfl := List.mem_singleton.mp hm
      exact hsession
  · intro s hs b hb
    obtain ⟨p, m, hp, hrank, hpoint⟩ := h.branched s hs b hb
    obtain ⟨hm, hid, hof⟩ := branchPoint_eq_some.mp hpoint
    refine ⟨p, m, hp, hrank, branchPoint_eq_some.mpr ⟨?_, hid, hof⟩⟩
    rw [hrows]
    exact List.mem_append_left _ hm

theorem sound_step (h : st.Sound) (c : Call) : (st.step c).Sound := by
  rcases step_cases st c with hnone | hused | ⟨_, _, row, sessions, -, hinsert, hforeign, hstep⟩ |
    ⟨i, messages, -, hinsert, hsession, hstep⟩
  · rwa [hnone]
  · rw [hused]
    exact ⟨fun m hm => (h.numbered m hm).trans (Nat.le_succ _), h.ordered, h.owned, h.branched⟩
  · rw [hstep]
    exact h.insertSession hinsert hforeign
  · rw [hstep]
    exact h.insertMessage hinsert rfl hsession

theorem sound_run (cs : List Call) : (run step empty cs).Sound :=
  run_invariant (fun _ c h => sound_step h c) sound_empty

/-! ### The messages of one session -/

theorem ownMessages_eq (h : st.Sound) (id : String) :
    st.ownMessages id = st.messages.rows.filter (·.sessionId = id) := by
  refine List.Pairwise.insertionSort_eq ?_
  refine (h.ordered.filter _).imp ?_
  intro a b hab
  exact hab.le

theorem mem_ownMessages {id : String} :
    m ∈ st.ownMessages id ↔ m ∈ st.messages.rows ∧ m.sessionId = id := by
  simp [ownMessages]

theorem nodup_ownMessages (h : st.Sound) (id : String) :
    ((st.ownMessages id).map Message.id).Nodup := by
  rw [ownMessages_eq h]
  exact st.messages.nodup.sublist (List.filter_sublist.map _)

/-- The cut of a session's messages at one of them. -/
theorem piece_of_rows (h : st.Sound) {upTo later : List Message} {cut : String} (hcut : cut ≠ "")
    (hrows : st.ownMessages p.id = upTo ++ m :: later) (hm : m.id = cut) :
    st.piece p (some cut) = .ok (upTo ++ [m]) := by
  have hnodup := nodup_ownMessages h p.id
  rw [hrows, List.map_append, List.map_cons, List.nodup_append] at hnodup
  -- no earlier message has the id
  have hearlier : upTo.findIdx? (·.id = cut) = none := by
    rw [List.findIdx?_eq_none_iff]
    intro m' hm'
    have hne := hnodup.2.2 m'.id (List.mem_map_of_mem hm') m.id List.mem_cons_self
    simpa [hm] using hne
  have hfind : (upTo ++ m :: later).findIdx? (·.id = cut) = some upTo.length := by
    simp [List.findIdx?_append, hearlier, List.findIdx?_cons, hm]
  simp [piece, hcut, Option.filter, hrows, hfind, List.take_append, List.take_of_length_le]

/-- The branch point is one of the messages of the parent. -/
theorem rows_of_branchPoint (hpoint : st.branchPoint b = some m) :
    ∃ upTo later, st.ownMessages b.parentSessionId = upTo ++ m :: later ∧
      m.id = b.parentMessageId := by
  obtain ⟨hm, hid, hof⟩ := branchPoint_eq_some.mp hpoint
  obtain ⟨upTo, later, hrows⟩ := List.append_of_mem (mem_ownMessages.mpr ⟨hm, hof⟩)
  exact ⟨upTo, later, hrows, hid⟩

/-! ### Lineages -/

/-- The line of a session as the loop finds it. -/
inductive Chain (st : SessionStore) : Session → List Session → Prop
  | stop {s : Session} (h : st.parentOf s = none) : Chain st s [s]
  | step {s p : Session} {line : List Session} (h : st.parentOf s = some p)
      (hline : Chain st p line) : Chain st s (line ++ [s])

theorem parentOf_eq_some : st.parentOf s = some p ↔
    ∃ b, s.branch = some b ∧ b.parentSessionId ≠ "" ∧ st.getSession b.parentSessionId = some p := by
  unfold parentOf
  cases s.branch with
  | none => simp
  | some b =>
    by_cases hblank : b.parentSessionId = ""
    · simp [hblank]
    · simp [hblank]

theorem rank_parent (h : st.Sound) (hs : s ∈ st.sessions.rows) (hp : st.BranchedFrom s p) :
    p ∈ st.sessions.rows ∧ st.rank p.id < st.rank s.id := by
  obtain ⟨b, hb, hp⟩ := hp
  obtain ⟨p', _, hp', hrank, _⟩ := h.branched s hs b hb
  obtain rfl := Option.some.inj (hp.symm.trans hp')
  exact ⟨mem_of_getSession hp, hrank⟩

theorem branchedFrom_of_parentOf (h : st.parentOf s = some p) : st.BranchedFrom s p := by
  obtain ⟨b, hb, -, hp⟩ := parentOf_eq_some.mp h
  exact ⟨b, hb, hp⟩

/-- Up the lineage the places only go down. -/
theorem rank_lineage (h : st.Sound) (hs : s ∈ st.sessions.rows)
    (hx : ReflTransGen st.BranchedFrom s x) :
    x ∈ st.sessions.rows ∧ st.rank x.id ≤ st.rank s.id := by
  induction hx with
  | refl => exact ⟨hs, le_rfl⟩
  | tail _ hstep ih =>
    obtain ⟨hmem, hrank⟩ := rank_parent h ih.1 hstep
    exact ⟨hmem, hrank.le.trans ih.2⟩

/-- The loop ends at the top of the lineage: no session is met twice. -/
theorem lineage_of_sound (h : st.Sound) {fuel : Nat} {seen : List String} (line : List Session)
    (hs : s ∈ st.sessions.rows) (hfuel : st.rank s.id < fuel)
    (hseen : ∀ id ∈ seen, st.rank s.id < st.rank id) :
    ∃ above, st.Chain s above ∧ st.lineage fuel seen line (some s) = .ok (above ++ line) := by
  induction fuel generalizing s seen line with
  | zero => omega
  | succ fuel ih =>
    have hnew : s.id ∉ seen := fun hmem => absurd (hseen s.id hmem) (lt_irrefl _)
    cases hp : st.parentOf s with
    | none => exact ⟨[s], .stop hp, by simp [lineage, hnew, hp]⟩
    | some p =>
      obtain ⟨hmem, hrank⟩ := rank_parent h hs (branchedFrom_of_parentOf hp)
      have hseen' : ∀ id ∈ s.id :: seen, st.rank p.id < st.rank id := by
        intro id hid
        rcases List.mem_cons.mp hid with rfl | hid
        · exact hrank
        · exact hrank.trans (hseen id hid)
      obtain ⟨above, habove, hline⟩ := ih (s :: line) hmem (by omega) hseen'
      refine ⟨above ++ [s], .step hp habove, ?_⟩
      simp [lineage, hnew, hp, hline]

theorem gather_append_singleton (line : List Session) (s : Session) (last : Option String) :
    st.gather last (line ++ [s]) = (do
      let front ← st.gather s.cut line
      let own ← st.piece s last
      .ok (front ++ own)) := by
  induction line with
  | nil =>
    simp only [List.nil_append, gather, nextCut, bind, Except.bind]
    cases st.piece s last <;> simp
  | cons x line ih =>
    have hnext : nextCut last (line ++ [s]) = nextCut s.cut line := by cases line <;> rfl
    simp only [List.cons_append, gather, ih, hnext, bind, Except.bind]
    cases st.piece x (nextCut s.cut line) with
    | error err => rfl
    | ok own =>
      cases st.gather s.cut line with
      | error err => rfl
      | ok front => cases st.piece s last <;> simp

theorem getMessages_of_sound (h : st.Sound) (hs : s ∈ st.sessions.rows) :
    ∃ line, st.Chain s line ∧ st.getMessages s.id true = st.gather none line := by
  have hfuel : st.rank s.id < st.sessions.rows.length + 1 :=
    Nat.lt_succ_of_lt (List.findIdx_lt_length_of_exists ⟨s, hs, by simp⟩)
  have hnone : ∀ id ∈ ([] : List String), st.rank s.id < st.rank id := by simp
  obtain ⟨line, hchain, hline⟩ := lineage_of_sound h [] hs hfuel hnone
  refine ⟨line, hchain, ?_⟩
  rw [List.append_nil] at hline
  simp only [getMessages, if_true, getSession_of_mem hs, hline, bind, Except.bind]

/-! ### Histories of unblanked lineages -/

theorem exists_inherited (h : st.Sound) (hs : s ∈ st.sessions.rows) :
    ∃ before, st.Inherited s before := by
  induction hrank : st.rank s.id using Nat.strong_induction_on generalizing s with
  | _ n ih =>
    cases hb : s.branch with
    | none => exact ⟨[], .root hb⟩
    | some b =>
      obtain ⟨p, m, hp, hlt, hpoint⟩ := h.branched s hs b hb
      obtain ⟨before, hbefore⟩ := ih _ (hrank ▸ hlt) (mem_of_getSession hp) rfl
      obtain ⟨upTo, later, hrows, hid⟩ := rows_of_branchPoint hpoint
      rw [← id_of_getSession hp] at hrows
      exact ⟨_, .branched hb hp hbefore hrows hid⟩

theorem Unblanked.parent (h : st.Unblanked s) (hp : st.BranchedFrom s p) : st.Unblanked p :=
  fun x hx => h x (.head hp hx)

/-- Down a lineage without empty ids the loop collects what is inherited. -/
theorem gather_of_chain (h : st.Sound) {line : List Session} {before : List Message}
    (hchain : st.Chain s line) (hblank : st.Unblanked s) (hbefore : st.Inherited s before)
    {last : Option String} {own : List Message} (hown : st.piece s last = .ok own) :
    st.gather last line = .ok (before ++ own) := by
  induction hchain generalizing before last own with
  -- the line ends at a session without parent, which inherits nothing
  | @stop s hp =>
    cases hbefore with
    | root _ => simp [gather, nextCut, hown, bind, Except.bind]
    | @branched _ p b _ _ _ _ hb hparent _ _ _ =>
      have hsome := parentOf_eq_some.mpr ⟨b, hb, (hblank s .refl b hb).1, hparent⟩
      rw [hp] at hsome
      simp at hsome
  | @step s p line hp _ ih =>
    obtain ⟨b, hb, -, hparent⟩ := parentOf_eq_some.mp hp
    cases hbefore with
    | root hroot => rw [hroot] at hb; simp at hb
    | @branched _ p' b' before upTo later m hb' hparent' hbefore hrows hpoint =>
      obtain rfl := Option.some.inj (hb.symm.trans hb')
      obtain rfl := Option.some.inj (hparent.symm.trans hparent')
      have hcut := piece_of_rows h (hblank s .refl b hb).2 hrows hpoint
      -- what the parent shows up to the branch point is what is inherited
      have hfront : st.gather s.cut line = .ok (before ++ (upTo ++ [m])) := by
        refine ih (hblank.parent ⟨b, hb, hparent⟩) hbefore ?_
        rw [Session.cut, hb]
        exact hcut
      rw [gather_append_singleton, hfront, hown]
      rfl

theorem getMessages_of_unblanked (h : st.Sound) (hs : s ∈ st.sessions.rows)
    (hblank : st.Unblanked s) {before : List Message} (hbefore : st.Inherited s before) :
    st.getMessages s.id true = .ok (before ++ st.ownMessages s.id) := by
  obtain ⟨line, hchain, hline⟩ := getMessages_of_sound h hs
  rw [hline]
  exact gather_of_chain h hchain hblank hbefore rfl

/-! ### An append to another session -/

theorem ownMessages_append {i : MessageInput} {messages : Table Message.id} {n : Nat}
    (h : st.Sound) (h' : ({ st with messages, sequence := n } : SessionStore).Sound)
    (hinsert : st.messages.insert? (i.row (st.sequence + 1)) = some messages) (id : String) :
    ({ st with messages, sequence := n } : SessionStore).ownMessages id =
      st.ownMessages id ++ if i.sessionId = id then [i.row (st.sequence + 1)] else [] := by
  rw [ownMessages_eq h, ownMessages_eq h', Table.rows_of_insert? hinsert, List.filter_append]
  by_cases hid : i.sessionId = id
  · simp [MessageInput.row, hid]
  · simp [MessageInput.row, hid]

/-- What a session inherits is not changed by new messages: they come after every branch point. -/
theorem Inherited.append {before : List Message} {i : MessageInput} {messages : Table Message.id}
    {n : Nat} (h : st.Sound) (h' : ({ st with messages, sequence := n } : SessionStore).Sound)
    (hinsert : st.messages.insert? (i.row (st.sequence + 1)) = some messages)
    (hbefore : st.Inherited s before) :
    ({ st with messages, sequence := n } : SessionStore).Inherited s before := by
  induction hbefore with
  | root hroot => exact .root hroot
  | @branched s p b before upTo later m hb hp _ hrows hid ih =>
    have hrows' := ownMessages_append h h' hinsert p.id
    rw [hrows, List.append_assoc, List.cons_append] at hrows'
    exact .branched hb hp ih hrows' hid

/-- Nor by a number that is used up. -/
theorem Inherited.used {before : List Message} {n : Nat} (hbefore : st.Inherited s before) :
    ({ st with sequence := n } : SessionStore).Inherited s before := by
  induction hbefore with
  | root hroot => exact .root hroot
  | branched hb hp _ hrows hid ih => exact .branched hb hp ih hrows hid

theorem stable_of_unblanked (h : st.Sound) (hs : s ∈ st.sessions.rows) (hblank : st.Unblanked s) :
    st.Stable s := by
  obtain ⟨before, hbefore⟩ := exists_inherited h hs
  have hhistory := getMessages_of_unblanked h hs hblank hbefore
  refine ⟨⟨before, hbefore, hhistory⟩, ?_⟩
  intro i hother
  have hsound := sound_step h (.appendMessage i)
  show (st.step (.appendMessage i)).getMessages s.id true = _
  rcases step_cases st (.appendMessage i) with hnone | hused | ⟨_, _, _, _, hcall, -⟩ |
    ⟨i', messages, hcall, hinsert, -, hstep⟩
  · rw [hnone]
  · rw [hused] at hsound ⊢
    rw [getMessages_of_unblanked hsound hs hblank hbefore.used, hhistory]
    rfl
  · simp at hcall
  · obtain rfl := Call.appendMessage.inj hcall
    rw [hstep] at hsound ⊢
    rw [getMessages_of_unblanked hsound hs hblank (hbefore.append h hsound hinsert), hhistory,
      ownMessages_append h hsound hinsert, if_neg hother, List.append_nil]

/-! ### Empty ids on the lineage -/

/-- The sessions the loop finds above a session have ids that are not empty. -/
theorem Chain.id_ne {line : List Session} (h : st.Chain s line) :
    ∀ y ∈ line, y = s ∨ y.id ≠ "" := by
  induction h with
  | stop _ => simp
  | @step s p line hp _ ih =>
    obtain ⟨b, -, hne, hparent⟩ := parentOf_eq_some.mp hp
    intro y hy
    rcases List.mem_append.mp hy with hy | hy
    · rcases ih y hy with rfl | hid
      · exact .inr (id_of_getSession hparent ▸ hne)
      · exact .inr hid
    · exact .inl (List.mem_singleton.mp hy)

theorem mem_piece {last : Option String} {own : List Message} (h : st.piece s last = .ok own)
    (hm : m ∈ own) : m ∈ st.ownMessages s.id := by
  simp only [piece] at h
  split at h
  · rwa [← Except.ok.inj h] at hm
  · split at h
    · simp at h
    · rw [← Except.ok.inj h] at hm
      exact List.mem_of_mem_take hm

/-- Every message of a history belongs to a session of the line. -/
theorem exists_of_mem_gather {last : Option String} {line : List Session} {out : List Message}
    (h : st.gather last line = .ok out) (hm : m ∈ out) :
    ∃ y ∈ line, m ∈ st.ownMessages y.id := by
  induction line generalizing out with
  | nil =>
    rw [← Except.ok.inj h] at hm
    simp at hm
  | cons x line ih =>
    simp only [gather, Js.bind_eq_ok] at h
    obtain ⟨own, hown, rest, hrest, h⟩ := h
    rw [← Except.ok.inj h] at hm
    rcases List.mem_append.mp hm with hm | hm
    · exact ⟨x, List.mem_cons_self, mem_piece hown hm⟩
    · obtain ⟨y, hy, hmy⟩ := ih hrest hm
      exact ⟨y, List.mem_cons_of_mem _ hy, hmy⟩

/-- What is inherited has a message of every session on the lineage that was branched from. -/
theorem Inherited.exists_mem {before : List Message} (h : st.Inherited s before)
    (hx : ReflTransGen st.BranchedFrom s x) (hb : x.branch = some b) :
    ∃ m ∈ before, m.sessionId = b.parentSessionId := by
  induction h with
  | @root s hroot =>
    rcases hx.cases_head with rfl | ⟨p, ⟨b', hb', -⟩, -⟩
    · rw [hroot] at hb
      simp at hb
    · rw [hroot] at hb'
      simp at hb'
  | @branched s p b' before upTo later m hb' hp _ hrows _ ih =>
    rcases hx.cases_head with rfl | ⟨p', ⟨b'', hb'', hp'⟩, hx⟩
    · obtain rfl := Option.some.inj (hb.symm.trans hb')
      have hm : m ∈ st.ownMessages p.id := by simp [hrows]
      exact ⟨m, by simp, (mem_ownMessages.mp hm).2.trans (id_of_getSession hp)⟩
    · obtain rfl := Option.some.inj (hb'.symm.trans hb'')
      obtain rfl := Option.some.inj (hp.symm.trans hp')
      obtain ⟨m', hm', hid⟩ := ih hx
      exact ⟨m', List.mem_append_left _ hm', hid⟩

/-- A session above an empty session id is cut off the history, though it is inherited. -/
theorem not_history_of_blank_session (h : st.Sound) (hs : s ∈ st.sessions.rows)
    (hx : ReflTransGen st.BranchedFrom s x) (hb : x.branch = some b)
    (hblank : b.parentSessionId = "") {before : List Message} (hbefore : st.Inherited s before) :
    st.getMessages s.id true ≠ .ok (before ++ st.ownMessages s.id) := by
  intro hhistory
  obtain ⟨line, hchain, hline⟩ := getMessages_of_sound h hs
  obtain ⟨m, hm, hid⟩ := hbefore.exists_mem hx hb
  rw [hline] at hhistory
  obtain ⟨y, hy, hmy⟩ := exists_of_mem_gather hhistory (List.mem_append_left _ hm)
  have hyid : y.id = "" := by rw [← (mem_ownMessages.mp hmy).2, hid, hblank]
  -- only the session itself may have the empty id, and then it would be above itself
  obtain ⟨hxmem, hle⟩ := rank_lineage h hs hx
  obtain ⟨p, _, hp, hlt, _⟩ := h.branched x hxmem b hb
  rcases hchain.id_ne y hy with rfl | hne
  · rw [id_of_getSession hp, hblank, ← hyid] at hlt
    omega
  · exact hne hyid

/-- The last session of a line is not cut at an empty id. -/
theorem Chain.mem_of_uncut {line : List Session} {out : List Message} (h : st.Chain p line)
    (hout : st.gather (some "") line = .ok out) (hm : m ∈ st.ownMessages p.id) : m ∈ out := by
  cases h with
  | stop _ =>
    simp only [gather, nextCut, Js.bind_eq_ok] at hout
    obtain ⟨own, hown, rest, _, hout⟩ := hout
    obtain rfl : st.ownMessages p.id = own := Except.ok.inj hown
    rw [← Except.ok.inj hout]
    exact List.mem_append_left _ hm
  | step _ _ =>
    rw [gather_append_singleton] at hout
    simp only [Js.bind_eq_ok] at hout
    obtain ⟨above, _, own, hown, hout⟩ := hout
    obtain rfl : st.ownMessages p.id = own := Except.ok.inj hown
    rw [← Except.ok.inj hout]
    exact List.mem_append_right _ hm

/-- A session cut at an empty id is in the history with all of its messages. -/
theorem Chain.mem_of_blank_cut {line : List Session} (h : st.Chain s line)
    (hsessions : ∀ y, ReflTransGen st.BranchedFrom s y → ∀ b ∈ y.branch, b.parentSessionId ≠ "")
    (hx : ReflTransGen st.BranchedFrom s x) (hcut : x.cut = some "") (hp : st.BranchedFrom x p)
    {last : Option String} {out : List Message} (hout : st.gather last line = .ok out)
    (hm : m ∈ st.ownMessages p.id) : m ∈ out := by
  induction h generalizing last out with
  | @stop s hstop =>
    -- a session the loop stops at was not branched from any
    have hnone : ∀ p, ¬st.BranchedFrom s p := by
      rintro p ⟨b, hb, hparent⟩
      have hsome := parentOf_eq_some.mpr ⟨b, hb, hsessions s .refl b hb, hparent⟩
      rw [hstop] at hsome
      simp at hsome
    rcases hx.cases_head with rfl | ⟨p', hp', -⟩
    · exact absurd hp (hnone p)
    · exact absurd hp' (hnone p')
  | @step s p' line hparent hline ih =>
    rw [gather_append_singleton] at hout
    simp only [Js.bind_eq_ok] at hout
    obtain ⟨front, hfront, own, -, hout⟩ := hout
    rw [← Except.ok.inj hout]
    refine List.mem_append_left _ ?_
    obtain ⟨b, hb, hne, hget⟩ := parentOf_eq_some.mp hparent
    have hfrom : st.BranchedFrom s p' := ⟨b, hb, hget⟩
    rcases hx.cases_head with rfl | ⟨p'', ⟨b', hb', hget'⟩, hx⟩
    · obtain ⟨b', hb', hget'⟩ := hp
      obtain rfl := Option.some.inj (hb.symm.trans hb')
      obtain rfl := Option.some.inj (hget.symm.trans hget')
      rw [hcut] at hfront
      exact hline.mem_of_uncut hfront hm
    · obtain rfl := Option.some.inj (hb.symm.trans hb')
      obtain rfl := Option.some.inj (hget.symm.trans hget')
      exact ih (fun y hy => hsessions y (.head hfrom hy)) hx hfront

/-- A message for a session, under an id that is free. -/
theorem exists_append (st : SessionStore) (hp : st.getSession p.id = some p) :
    ∃ (i : MessageInput) (messages : Table Message.id), i.sessionId = p.id ∧
      st.messages.insert? (i.row (st.sequence + 1)) = some messages ∧
      (st.appendMessage i).2 = { st with messages, sequence := st.sequence + 1 } := by
  obtain ⟨id, hid⟩ := Infinite.exists_notMem_finset (st.messages.rows.map Message.id).toFinset
  have hfree : id ∉ st.messages.rows.map Message.id := by simpa using hid
  refine ⟨⟨id, p.id, .user, "", 0⟩, ?_⟩
  cases hinsert : st.messages.insert? ((⟨id, p.id, .user, "", 0⟩ : MessageInput).row
      (st.sequence + 1)) with
  | none =>
    obtain ⟨m, hm⟩ := Option.isSome_iff_exists.mp (Table.insert?_eq_none_iff.mp hinsert)
    obtain ⟨hmem, hkey⟩ := Table.find?_eq_some_iff.mp hm
    exact absurd (List.mem_map.mpr ⟨m, hmem, hkey⟩) hfree
  | some messages =>
    refine ⟨messages, rfl, rfl, ?_⟩
    simp [appendMessage, insertMessage, hinsert, Js.throwIf, hp, bind, Except.bind]

/-- Where a session above is cut at an empty id, what is appended to it shows. -/
theorem not_unchanged_of_blank_message (h : st.Sound) (hs : s ∈ st.sessions.rows)
    (hsessions : ∀ y, ReflTransGen st.BranchedFrom s y → ∀ b ∈ y.branch, b.parentSessionId ≠ "")
    (hx : ReflTransGen st.BranchedFrom s x) (hcut : x.cut = some "") (hp : st.BranchedFrom x p)
    {out : List Message} (hout : st.getMessages s.id true = .ok out) :
    ∃ i : MessageInput, i.sessionId ≠ s.id ∧
      (st.appendMessage i).2.getMessages s.id true ≠ st.getMessages s.id true := by
  obtain ⟨hxmem, hle⟩ := rank_lineage h hs hx
  obtain ⟨hpmem, hlt⟩ := rank_parent h hxmem hp
  obtain ⟨i, messages, hi, hinsert, happend⟩ := exists_append st (getSession_of_mem hpmem)
  have hother : i.sessionId ≠ s.id := by
    intro heq
    rw [hi] at heq
    rw [heq] at hlt
    omega
  refine ⟨i, hother, ?_⟩
  intro hsame
  have hsound : (st.appendMessage i).2.Sound := sound_step h (.appendMessage i)
  rw [happend] at hsound hsame
  -- the new message is in the history after the append
  obtain ⟨line, hchain, hline⟩ := getMessages_of_sound hsound hs
  have hnew : i.row (st.sequence + 1) ∈ out := by
    rw [hline, hout] at hsame
    refine hchain.mem_of_blank_cut hsessions hx hcut hp hsame ?_
    rw [ownMessages_append h hsound hinsert, if_pos hi]
    simp
  -- but it was not there before
  obtain ⟨line', _, hline'⟩ := getMessages_of_sound h hs
  obtain ⟨y, _, hy⟩ := exists_of_mem_gather (hline'.symm.trans hout) hnew
  have hold := (mem_ownMessages.mp hy).1
  exact Table.find?_eq_none_iff.mp (Table.find?_of_insert? hinsert) _ hold rfl

/-- However the ids are, the loops come to an end without throwing. -/
theorem exists_gather (h : st.Sound) {line : List Session} (hs : s ∈ st.sessions.rows)
    (hchain : st.Chain s line) {last : Option String} {own : List Message}
    (hown : st.piece s last = .ok own) : ∃ out, st.gather last line = .ok out := by
  induction hchain generalizing last own with
  | @stop s _ => exact ⟨own, by simp [gather, nextCut, hown, bind, Except.bind]⟩
  | @step s p line hp _ ih =>
    obtain ⟨b, hb, -, hget⟩ := parentOf_eq_some.mp hp
    obtain ⟨p', m, hget', _, hpoint⟩ := h.branched s hs b hb
    have hcut : ∃ own', st.piece p s.cut = .ok own' := by
      rw [Session.cut, hb, Option.map_some]
      by_cases hblank : b.parentMessageId = ""
      · exact ⟨st.ownMessages p.id, by rw [hblank]; rfl⟩
      · obtain ⟨upTo, later, hrows, hid⟩ := rows_of_branchPoint hpoint
        rw [← id_of_getSession hget] at hrows
        exact ⟨_, piece_of_rows h hblank hrows hid⟩
    obtain ⟨own', hown'⟩ := hcut
    obtain ⟨front, hfront⟩ := ih (mem_of_getSession hget) hown'
    refine ⟨front ++ own, ?_⟩
    rw [gather_append_singleton, hfront, hown]
    rfl

/-- No history meets a cycle or a branch point that is missing. -/
theorem exists_getMessages (cs : List Call) (s : Session)
    (hs : s ∈ (run step empty cs).sessions.rows) :
    ∃ out, (run step empty cs).getMessages s.id true = .ok out := by
  obtain ⟨line, hchain, hline⟩ := getMessages_of_sound (sound_run cs) hs
  rw [hline]
  exact exists_gather (sound_run cs) hs hchain rfl

/-- A branch of a branch, each with a message of its own; both sessions above it go on. -/
def lineageCalls : List Call := [
  .createSession ⟨"a", none, none, none, some 1⟩ 1,
  .appendMessage ⟨"one", "a", .user, "1", 2⟩,
  .appendMessage ⟨"two", "a", .assistant, "2", 3⟩,
  .createSession ⟨"b", none, some "a", some "one", some 4⟩ 4,
  .appendMessage ⟨"three", "b", .user, "3", 5⟩,
  .createSession ⟨"c", none, some "b", some "three", some 6⟩ 6,
  .appendMessage ⟨"four", "c", .user, "4", 7⟩,
  .appendMessage ⟨"five", "a", .user, "5", 8⟩,
  .appendMessage ⟨"six", "b", .user, "6", 9⟩]

theorem exists_getMessages_lineage :
    ∃ out, (run step empty lineageCalls).getMessages "c" true = .ok out ∧
      out.map Message.id = ["one", "three", "four"] := by
  obtain ⟨out, hout⟩ := exists_getMessages lineageCalls
    ⟨"c", none, some ⟨"b", "three"⟩, 6⟩ (by decide)
  have hids : ((run step empty lineageCalls).getMessages "c" true).map (·.map Message.id) =
      .ok ["one", "three", "four"] := by decide
  rw [hout] at hids
  exact ⟨out, hout, Except.ok.inj hids⟩

/-- **Session history.** In every store that calls can lead to, the history of a session is what
it inherits and its own messages, whatever is appended elsewhere, exactly if no session on its
lineage was branched from a session or at a message with an empty id. -/
theorem stable_iff (cs : List Call) (s : Session)
    (hs : s ∈ (run step empty cs).sessions.rows) :
    (run step empty cs).Stable s ↔ (run step empty cs).Unblanked s := by
  have h := sound_run cs
  generalize run step empty cs = st at h hs
  refine ⟨?_, stable_of_unblanked h hs⟩
  rintro ⟨⟨before, hbefore, hhistory⟩, hunchanged⟩
  have hsessions : ∀ y, ReflTransGen st.BranchedFrom s y → ∀ b ∈ y.branch,
      b.parentSessionId ≠ "" :=
    fun y hy b hb hblank => not_history_of_blank_session h hs hy hb hblank hbefore hhistory
  intro x hx b hb
  refine ⟨hsessions x hx b hb, fun hblank => ?_⟩
  obtain ⟨p, _, hp, _, _⟩ := h.branched x (rank_lineage h hs hx).1 b hb
  have hcut : x.cut = some "" := by
    rw [Session.cut, Option.mem_def.mp hb, Option.map_some, hblank]
  obtain ⟨i, hother, hne⟩ :=
    not_unchanged_of_blank_message h hs hsessions hx hcut ⟨b, hb, hp⟩ hhistory
  exact hne (hunchanged i hother)

/-- The branch of a branch is stable. -/
theorem stable_iff_lineage :
    (run step empty lineageCalls).Stable ⟨"c", none, some ⟨"b", "three"⟩, 6⟩ := by
  rw [stable_iff _ _ (by decide)]
  intro x hx
  have hids : ∀ x ∈ (run step empty lineageCalls).sessions.rows, ∀ b ∈ x.branch,
      b.parentSessionId ≠ "" ∧ b.parentMessageId ≠ "" := by decide
  exact hids x (rank_lineage (sound_run lineageCalls) (by decide) hx).1

/-! ### A message with an empty id -/

def blankCalls : List Call := [
  .createSession ⟨"a", none, none, none, some 1⟩ 1,
  .appendMessage ⟨"", "a", .user, "one", 2⟩,
  .createSession ⟨"b", none, some "a", some "", some 3⟩ 3,
  .appendMessage ⟨"two", "a", .user, "two", 4⟩]

/-- The message behind the branch point is in the history of the branch. -/
theorem blank_message_does_not_cut :
    (run step empty blankCalls).getMessages "b" true =
      .ok [⟨"", "a", .user, "one", 2, 1⟩, ⟨"two", "a", .user, "two", 4, 2⟩] ∧
    (run step empty blankCalls).Inherited ⟨"b", none, some ⟨"a", ""⟩, 3⟩
      [⟨"", "a", .user, "one", 2, 1⟩] ∧
    (run step empty blankCalls).ownMessages "b" = [] := by
  refine ⟨by decide, ?_, by decide⟩
  have hparent : (run step empty blankCalls).getSession "a" = some ⟨"a", none, none, 1⟩ := by
    decide
  have hrows : (run step empty blankCalls).ownMessages "a" =
      [] ++ ⟨"", "a", .user, "one", 2, 1⟩ :: [⟨"two", "a", .user, "two", 4, 2⟩] := by
    decide
  exact .branched (b := ⟨"a", ""⟩) rfl hparent (.root rfl) hrows rfl

end AriOs.Storage.SessionStore
