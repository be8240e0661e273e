import AriOs.Autonomy.Delegation
import Mathlib.Algebra.Order.Ring.Rat
import Mathlib.Logic.Relation
import Mathlib.Tactic.FinCases

/-!
# The life of a delegation

Lanes, counters, the queue and the promises of the results fit together in every state of a
run, provided the limits are whole numbers and everything that is thrown has a text. A thrown
value without one makes `errorText` throw inside a `catch`: the lane is given back, but the
child stays `running` and its promise is never resolved.
-/

namespace AriOs.Autonomy.Delegation

open AriOs.Async AriOs.Async.Transition AriOs.Js AriOs.Storage

/-! ### One child -/

/-- Status, stage and promise of a child fit together. -/
def Entry.Ok (e : Entry) : Prop :=
  (∀ reason ∈ e.reason, reason.isSome = true) ∧
  match e.stage with
  | .queued => e.status = .queued ∧ e.settled = false ∧ e.counted = true ∧ e.lane = false ∧
      e.resolved = []
  | .racing | .verifying _ => e.status = .running ∧ e.settled = false ∧ e.counted = true ∧
      e.lane = true ∧ e.resolved = []
  | .announcing r | .archiving r _ => e.status.terminal = true ∧ e.settled = true ∧
      r.status = e.status ∧ e.resolved = []
  | .finished => e.status.terminal = true ∧ e.settled = true ∧ e.lane = false ∧
      ∃ r, e.resolved = [r] ∧ r.status = e.status

/-- The child has this parent and has not ended. -/
def Entry.unfinishedOf (p : String) (e : Entry) : Bool :=
  e.request.parentSessionId = p && !e.status.terminal

/-- How many answers a child that was started waits for at most: of its runtime, the verifier and
two hooks. -/
def Entry.waits (e : Entry) : Nat :=
  if e.status = .queued then 5
  else match e.stage with
    | .queued | .racing => 4
    | .verifying _ => 3
    | .announcing _ => 2
    | .archiving _ _ => 1
    | .finished => 0

/-- The event is what child `i` waits for. -/
def Entry.isAnswered (i : Nat) (e : Entry) (ev : Event) : Bool :=
  match ev, e.stage with
  | .runtime j _, .racing => i = j
  | .aborted j, .racing => i = j && e.reason.isSome
  | .verifier j _, .verifying _ => i = j
  | .hook j _, .announcing _ | .hook j _, .archiving _ _ => i = j
  | _, _ => false

/-- How many events of a run are what child `i` waits for. -/
def answers (o : Options) (i : Nat) : Manager → List Event → Nat
  | _, [] => 0
  | m, ev :: es => (if m.entries[i]?.any (·.isAnswered i ev) then 1 else 0) +
      answers o i (m.apply o ev) es

/-- The promise of the child is resolved, once and with its final status, and it has given back its
lane. -/
def Entry.Resolved (e : Entry) : Prop :=
  e.status.terminal = true ∧ e.lane = false ∧ ∃ r, e.resolved = [r] ∧ r.status = e.status

/-- Everything that is thrown, and every reason, has a text. -/
def Textual : Event → Prop
  | .cancel _ reason | .cancelParent _ reason => reason.isSome = true
  | .runtime _ (.error x) | .verifier _ (.error x) | .hook _ (.error x) => x.isSome = true
  | _ => True

/-- What a step does to one child, where everything that is thrown has a text. -/
inductive Entry.Step : Entry → Entry → Prop
  | begin {e : Entry} (h : e.status = .queued) :
      Step e { e with status := .running, lane := true, stage := .racing }
  | abort (e : Entry) (reason : Thrown) : Step e (e.abort reason)
  | verify {e : Entry} (h : e.stage = .racing) (hreason : e.reason = none)
      (result : ChildRuntimeResult) : Step e { e with stage := .verifying result }
  | succeed {e : Entry} (h : e.status = .running)
      (hstage : (e.stage = .racing ∧ e.reason = none) ∨ ∃ r, e.stage = .verifying r)
      (result : ChildRuntimeResult) : Step e (e.ended .completed (some result) none true)
  | fail {e : Entry} (h : e.status.terminal = false)
      (hstage : e.status = .queued ∨ e.stage = .racing ∨ ∃ r, e.stage = .verifying r)
      {status : DelegationStatus}
      (hstatus : status = .failed ∨ status = .cancelled)
      (hreason : e.stage = .racing → e.reason.isSome = true → status = .cancelled)
      (error : Option String) : Step e (e.ended status none error false)
  | archive {e : Entry} {r r' : DelegationResult} (h : e.stage = .announcing r)
      (errors : List String) : Step e { e with stage := .archiving r' errors }
  | leave {e : Entry} {r r' : DelegationResult} {errors : List String}
      (h : e.stage = .archiving r errors) (hr : r'.announced = r.announced) :
      Step e { e with stage := .finished, lane := false, resolved := e.resolved ++ [r'] }

/-! ### All children -/

/-- Lanes, counters and queue fit together; nothing is said of who takes the next child. A limit
that is not a whole number is exceeded by less than one. -/
structure Steady (o : Options) (m : Manager) : Prop where
  entry : ∀ e ∈ m.entries, e.Ok
  lanes : m.active = m.entries.countP Entry.lane
  bound : (m.active : ℚ) < o.limits.concurrency + 1
  counted : ∀ p, (m.counts.get p).getD 0 = m.entries.countP (Entry.unfinishedOf p)
  children : ∀ p, (m.entries.countP (Entry.unfinishedOf p) : ℚ) < o.limits.maxChildren + 1
  queued : ∀ i, i ∈ m.queue ↔ ∃ e, m.entries[i]? = some e ∧ e.status = .queued
  nodup : m.queue.Nodup

/-- A queued child is taken on, or all lanes are in use. -/
structure Sound (o : Options) (m : Manager) : Prop extends Steady o m where
  moving : m.queue ≠ [] → 0 < m.drains ∨ o.limits.concurrency ≤ m.active

/-- Every child is still there and has gone through some steps. -/
def Evolves (m m' : Manager) : Prop :=
  ∀ (i : Nat) e, m.entries[i]? = some e →
    ∃ e', m'.entries[i]? = some e' ∧ Relation.ReflTransGen Entry.Step e e'

/-- From here on: the manager is sound, and its children have gone through some steps. -/
def Goes (o : Options) (m m' : Manager) : Prop := Sound o m' ∧ Evolves m m'

/-- And child `i`, which was `e`, waits for less. -/
def Moves (o : Options) (m m' : Manager) (i : Nat) (e : Entry) : Prop :=
  Goes o m m' ∧ ∃ e', m'.entries[i]? = some e' ∧ e'.waits < e.waits

variable {o : Options} {m m' m'' : Manager} {i : Nat} {e e' : Entry}

theorem Evolves.refl (m : Manager) : Evolves m m := fun _ e h => ⟨e, h, .refl⟩

theorem Evolves.trans (h : Evolves m m') (h' : Evolves m' m'') : Evolves m m'' := by
  intro i e hi
  obtain ⟨e', hi', hsteps⟩ := h i e hi
  obtain ⟨e'', hi'', hsteps'⟩ := h' i e' hi'
  exact ⟨e'', hi'', hsteps.trans hsteps'⟩

/-- One child goes through some steps. -/
theorem evolves_set (hi : m.entries[i]? = some e) (hsteps : Relation.ReflTransGen Entry.Step e e')
    (hentries : m'.entries = m.entries.set i e') : Evolves m m' := by
  intro j x hx
  rw [hentries]
  by_cases hij : i = j
  · subst hij
    obtain rfl := Option.some.inj (hi.symm.trans hx)
    exact ⟨e', getElem?_set_of_some hi, hsteps⟩
  · exact ⟨x, by rw [List.getElem?_set_ne hij]; exact hx, .refl⟩

theorem evolves_of_entries (h : m'.entries = m.entries) : Evolves m m' :=
  fun _ e hi => ⟨e, by rw [h]; exact hi, .refl⟩

theorem Entry.Step.waits_le (h : Entry.Step e e') : e'.waits ≤ e.waits := by
  cases h with
  | begin h => simp [Entry.waits, h]
  | abort reason => exact le_rfl
  | verify h =>
    unfold Entry.waits
    split
    · exact le_rfl
    · simp [h]
  | succeed h hstage =>
    unfold Entry.waits
    rcases hstage with ⟨hstage, -⟩ | ⟨r, hstage⟩ <;> simp [h, hstage, Entry.ended]
  | fail h hstage hstatus hreason error =>
    rename_i status
    have hnew : (e.ended status none error false).waits = 1 := by
      rcases hstatus with rfl | rfl <;> simp [Entry.waits, Entry.ended]
    rw [hnew]
    unfold Entry.waits
    split
    · omega
    · rcases hstage with hstage | hstage | ⟨r, hstage⟩
      · contradiction
      · simp [hstage]
      · simp [hstage]
  | archive h | leave h =>
    unfold Entry.waits
    split
    · exact le_rfl
    · simp [h]

theorem waits_of_steps (h : Relation.ReflTransGen Entry.Step e e') : e'.waits ≤ e.waits := by
  induction h with
  | refl => exact le_rfl
  | tail _ hstep ih => exact hstep.waits_le.trans ih

/-- The child is one that waits for less, whatever comes after that. -/
theorem Moves.of_set {x : Entry} (hgoes : Goes o m m') (hi : m.entries[i]? = some e)
    {left : Manager} (hleft : left.entries = m.entries.set i x) (hafter : Evolves left m')
    (hlt : x.waits < e.waits) : Moves o m m' i e := by
  obtain ⟨e', hi', hsteps⟩ := hafter i x (by rw [hleft]; exact getElem?_set_of_some hi)
  exact ⟨hgoes, e', hi', (waits_of_steps hsteps).trans_lt hlt⟩

theorem sound_start (o : Options) : Sound o .start where
  entry := by simp [Manager.start]
  lanes := by simp [Manager.start]
  bound := by
    have hpos := o.limits.positive.2.2.2.2
    simpa [Manager.start] using hpos.trans (lt_add_one _)
  counted := by simp [Manager.start]
  children := by
    have hpos := o.limits.positive.2.1
    simpa [Manager.start] using hpos.trans (lt_add_one _)
  queued := by simp [Manager.start]
  nodup := by simp [Manager.start]
  moving := by simp [Manager.start]

theorem Steady.ok (h : Steady o m) (hi : m.entries[i]? = some e) : e.Ok :=
  h.entry e (List.mem_of_getElem? hi)

/-- A child goes on, and neither ends nor gives up its lane. -/
theorem Steady.set (h : Steady o m) (hi : m.entries[i]? = some e) (hok : e'.Ok)
    (hlane : e'.lane = e.lane) (hparent : e'.request.parentSessionId = e.request.parentSessionId)
    (hended : e'.status.terminal = e.status.terminal)
    (hqueued : e'.status = .queued ↔ e.status = .queued) :
    Steady o { m with entries := m.entries.set i e' } where
  entry := forall_mem_set h.entry hok
  lanes := by rw [countP_set_eq _ hi hlane]; exact h.lanes
  bound := h.bound
  counted p := by
    rw [countP_set_eq _ hi (by simp [Entry.unfinishedOf, hparent, hended])]
    exact h.counted p
  children p := by
    rw [countP_set_eq _ hi (by simp [Entry.unfinishedOf, hparent, hended])]
    exact h.children p
  queued j := by
    rw [h.queued j]
    constructor
    · rintro ⟨x, hx, hstatus⟩
      by_cases hij : i = j
      · subst hij
        obtain rfl := Option.some.inj (hi.symm.trans hx)
        exact ⟨e', getElem?_set_of_some hi, hqueued.mpr hstatus⟩
      · exact ⟨x, by rw [List.getElem?_set_ne hij]; exact hx, hstatus⟩
    · rintro ⟨x, hx, hstatus⟩
      rcases getElem?_set_cases hx with ⟨rfl, rfl⟩ | ⟨-, hx⟩
      · exact ⟨e, hi, hqueued.mp hstatus⟩
      · exact ⟨x, hx, hstatus⟩
  nodup := h.nodup

theorem Sound.set (h : Sound o m) (hi : m.entries[i]? = some e) (hok : e'.Ok)
    (hlane : e'.lane = e.lane) (hparent : e'.request.parentSessionId = e.request.parentSessionId)
    (hended : e'.status.terminal = e.status.terminal)
    (hqueued : e'.status = .queued ↔ e.status = .queued) :
    Sound o { m with entries := m.entries.set i e' } :=
  ⟨h.toSteady.set hi hok hlane hparent hended hqueued, h.moving⟩

/-- A child ends: its parent has one unfinished child less. -/
theorem Steady.ended (h : Steady o m) (hi : m.entries[i]? = some e)
    (hunfinished : e.status.terminal = false) (hreason : ∀ reason ∈ e.reason, reason.isSome = true)
    (hresolved : e.resolved = []) {queue : List Nat} (hnodup : queue.Nodup)
    (hqueue : ∀ j, j ∈ queue ↔ j ∈ m.queue ∧ j ≠ i) {status : DelegationStatus}
    (hstatus : status.terminal = true) (result : Option ChildRuntimeResult) (error : Option String)
    (announce : Bool) :
    Steady o { m with
      queue
      entries := m.entries.set i (e.ended status result error announce)
      counts := m.counts.set e.request.parentSessionId
        ((m.counts.get e.request.parentSessionId).getD 1 - 1) } := by
  -- of its parent there is one unfinished child less
  have hcount : ∀ p, (m.entries.set i (e.ended status result error announce)).countP
        (Entry.unfinishedOf p) + (if e.request.parentSessionId = p then 1 else 0) =
      m.entries.countP (Entry.unfinishedOf p) := by
    intro p
    have hadd := countP_set_add (x := e.ended status result error announce)
      (Entry.unfinishedOf p) hi
    simpa [Entry.unfinishedOf, Entry.ended, hunfinished, hstatus] using hadd
  refine ⟨forall_mem_set h.entry ?_, ?_, h.bound, fun p => ?_, fun p => ?_, fun j => ?_, hnodup⟩
  · refine ⟨hreason, ?_⟩
    cases announce <;> exact ⟨hstatus, rfl, rfl, hresolved⟩
  · have hlane : (e.ended status result error announce).lane = e.lane := rfl
    exact h.lanes.trans (countP_set_eq Entry.lane hi hlane).symm
  · have hp := hcount p
    have hold := h.counted p
    rw [OrderedMap.get_set]
    by_cases hparent : e.request.parentSessionId = p
    · subst hparent
      rw [if_pos rfl, Option.getD_some]
      rw [if_pos rfl] at hp
      cases hget : m.counts.get e.request.parentSessionId with
      | none =>
        simp only [hget, Option.getD_none] at hold
        omega
      | some n =>
        simp only [hget, Option.getD_some] at hold ⊢
        omega
    · rw [if_neg hparent] at hp ⊢
      exact hold.trans hp.symm
  · have hle : (m.entries.set i (e.ended status result error announce)).countP
        (Entry.unfinishedOf p) ≤ m.entries.countP (Entry.unfinishedOf p) := by
      have hp := hcount p
      omega
    exact lt_of_le_of_lt (Nat.cast_le.mpr hle) (h.children p)
  · -- an entry that has ended is not queued any more
    rw [hqueue j, h.queued j]
    constructor
    · rintro ⟨⟨x, hx, hxs⟩, hne⟩
      exact ⟨x, by rw [List.getElem?_set_ne (Ne.symm hne)]; exact hx, hxs⟩
    · rintro ⟨x, hx, hxs⟩
      rcases getElem?_set_cases hx with ⟨rfl, rfl⟩ | ⟨hne, hx⟩
      · have hnot : status = .queued := hxs
        simp [hnot, DelegationStatus.terminal] at hstatus
      · exact ⟨⟨x, hx, hxs⟩, hne⟩

/-- A started child finishes. -/
theorem Sound.finish (h : Sound o m) (hi : m.entries[i]? = some e) (hrunning : e.status = .running)
    (hsettled : e.settled = false) (hcounted : e.counted = true) (hresolved : e.resolved = [])
    {status : DelegationStatus} (hstatus : status.terminal = true)
    (result : Option ChildRuntimeResult) (error : Option String) (announce : Bool) :
    Sound o (m.finish i e status result error announce) := by
  have hnot : i ∉ m.queue := by
    intro hmem
    obtain ⟨x, hx, hxs⟩ := (h.queued i).mp hmem
    obtain rfl := Option.some.inj (hi.symm.trans hx)
    simp [hrunning] at hxs
  have hqueue : ∀ j, j ∈ m.queue ↔ j ∈ m.queue ∧ j ≠ i := by
    intro j
    refine ⟨fun hj => ⟨hj, ?_⟩, And.left⟩
    rintro rfl
    exact hnot hj
  unfold Manager.finish
  rw [hsettled, if_neg (by simp), hcounted, if_pos rfl]
  exact ⟨h.toSteady.ended hi (by simp [hrunning, DelegationStatus.terminal]) (h.ok hi).1 hresolved
    h.nodup hqueue hstatus result error announce, h.moving⟩

/-! ### Lanes -/

/-- One more than a number below a limit exceeds the limit by less than one. -/
theorem succ_lt_add_one {k : Nat} {q : ℚ} (h : (k : ℚ) < q) : ((k + 1 : Nat) : ℚ) < q + 1 := by
  rw [Nat.cast_succ]
  exact (add_lt_add_iff_right 1).mpr h

/-- A limit that is a whole number is not exceeded by less than one. -/
theorem le_of_whole {n k : Nat} {q : ℚ} (hq : q = n) (h : (k : ℚ) < q + 1) : (k : ℚ) ≤ q := by
  subst hq
  exact_mod_cast Nat.lt_succ_iff.mp (by exact_mod_cast h)

/-- The next child of the queue starts. -/
theorem Steady.begin {queue : List Nat} (h : Steady o { m with queue := i :: queue })
    (hfree : (m.active : ℚ) < o.limits.concurrency)
    (hi : m.entries[i]? = some e) (hqueued : e.status = .queued) :
    Steady o { m.begin i e with queue } := by
  obtain ⟨hnot, hnodup⟩ := List.nodup_cons.mp h.nodup
  have hok := h.ok hi
  -- a queued entry has no lane yet and has not ended
  have hstage : e.lane = false ∧ e.settled = false ∧ e.counted = true ∧ e.resolved = [] := by
    unfold Entry.Ok at hok
    rw [hqueued] at hok
    cases hstage : e.stage <;> simp_all [DelegationStatus.terminal]
  obtain ⟨hlane, hsettled, hcounted, hresolved⟩ := hstage
  refine ⟨forall_mem_set h.entry ⟨hok.1, rfl, hsettled, hcounted, rfl, hresolved⟩, ?_, ?_,
    fun p => ?_, fun p => ?_, fun j => ?_, hnodup⟩
  · -- the lane that it takes is counted as active
    have hadd := countP_set_add (x := { e with status := .running, lane := true, stage := .racing })
      Entry.lane hi
    have hlanes := h.lanes
    simp only [hlane, Bool.false_eq_true, if_false, if_true, add_zero] at hadd
    simp only [Manager.begin] at hlanes ⊢
    omega
  · exact succ_lt_add_one hfree
  · rw [show ({ m.begin i e with queue } : Manager).entries = m.entries.set i _ from rfl,
      countP_set_eq _ hi (by simp [Entry.unfinishedOf, hqueued, DelegationStatus.terminal])]
    exact h.counted p
  · rw [show ({ m.begin i e with queue } : Manager).entries = m.entries.set i _ from rfl,
      countP_set_eq _ hi (by simp [Entry.unfinishedOf, hqueued, DelegationStatus.terminal])]
    exact h.children p
  · -- it alone leaves the queue
    have hold := h.queued j
    rw [List.mem_cons] at hold
    constructor
    · intro hj
      obtain ⟨x, hx, hxs⟩ := hold.mp (.inr hj)
      refine ⟨x, ?_, hxs⟩
      rw [Manager.begin, List.getElem?_set_ne]
      · exact hx
      · rintro rfl
        exact hnot hj
    · rintro ⟨x, hx, hxs⟩
      rcases getElem?_set_cases hx with ⟨rfl, rfl⟩ | ⟨hne, hx⟩
      · simp at hxs
      · exact (hold.mpr ⟨x, hx, hxs⟩).resolve_left hne

/-- The loop of `#drain` starts children as long as there are lanes. -/
theorem Steady.drainFrom {queue : List Nat} (h : Steady o { m with queue }) :
    Sound o (Manager.drainFrom o queue m) := by
  induction queue generalizing m with
  | nil => exact ⟨h, fun hne => absurd rfl hne⟩
  | cons i queue ih =>
    unfold Manager.drainFrom
    split
    · rename_i hfree
      obtain ⟨e, hi, hqueued⟩ := (h.queued i).mp List.mem_cons_self
      have hi' : m.entries[i]? = some e := hi
      simp only [hi', if_pos hqueued]
      exact ih (h.begin hfree hi' hqueued)
    · rename_i hfull
      exact ⟨h, fun _ => .inr (not_lt.mp hfull)⟩

theorem evolves_drainFrom (queue : List Nat) (m : Manager) :
    Evolves m (Manager.drainFrom o queue m) := by
  induction queue generalizing m with
  | nil => exact evolves_of_entries rfl
  | cons i queue ih =>
    unfold Manager.drainFrom
    split
    · refine Evolves.trans ?_ (ih _)
      split
      · rename_i e hi
        split
        · exact evolves_set hi (.single (.begin ‹_›)) rfl
        · exact .refl m
      · exact .refl m
    · exact evolves_of_entries rfl

/-- Where a child leaves, others may start. -/
theorem leave_eq (i : Nat) (e : Entry) : ∃ left : Manager,
    left.entries = m.entries.set i { e with stage := .finished, lane := false } ∧
      Evolves left (m.leave o i e) := by
  unfold Manager.leave
  split
  · exact ⟨{ m with
      entries := m.entries.set i { e with stage := .finished, lane := false }
      active := m.active - 1 }, rfl, evolves_drainFrom _ _⟩
  · exact ⟨_, rfl, .refl _⟩

/-- A child at its end gives its lane back, and the next one starts. -/
theorem Sound.leave (h : Sound o m)
    (hi : m.entries[i]? = some e) (hreq : e'.request = e.request) (hlane : e'.lane = e.lane)
    (hstatus : e'.status = e.status)
    (hok : ({ e' with stage := .finished, lane := false } : Entry).Ok) : Sound o (m.leave o i e') := by
  have hended : e.status.terminal = true := hstatus ▸ hok.2.1
  have hnot : e.status ≠ .queued := by
    intro heq
    simp [heq, DelegationStatus.terminal] at hended
  unfold Manager.leave
  -- an entry that holds a lane gives it back, and the queue is drained
  by_cases hhas : e.lane = true
  · have hsteady : Steady o { m with
        entries := m.entries.set i { e' with stage := .finished, lane := false }
        active := m.active - 1 } := by
      have hadd := countP_set_add (x := { e' with stage := .finished, lane := false }) Entry.lane hi
      rw [hhas] at hadd
      have hlanes := h.lanes
      have hcount : ∀ p, (m.entries.set i { e' with stage := .finished, lane := false }).countP
          (Entry.unfinishedOf p) = m.entries.countP (Entry.unfinishedOf p) := fun p =>
        countP_set_eq _ hi (by simp [Entry.unfinishedOf, hreq, hstatus])
      refine ⟨forall_mem_set h.entry hok, ?_, ?_, fun p => ?_, fun p => ?_, fun j => ?_, h.nodup⟩
      · simp at hadd
        simp only
        omega
      · exact lt_of_le_of_lt (Nat.cast_le.mpr (Nat.sub_le _ _)) h.bound
      · rw [hcount]
        exact h.counted p
      · rw [hcount]
        exact h.children p
      · rw [h.queued j]
        constructor
        · rintro ⟨x, hx, hxs⟩
          refine ⟨x, ?_, hxs⟩
          rw [List.getElem?_set_ne]
          · exact hx
          · rintro rfl
            obtain rfl := Option.some.inj (hi.symm.trans hx)
            exact hnot hxs
        · rintro ⟨x, hx, hxs⟩
          rcases getElem?_set_cases hx with ⟨rfl, rfl⟩ | ⟨-, hx⟩
          · exact absurd (hstatus.symm.trans hxs) hnot
          · exact ⟨x, hx, hxs⟩
    rw [hlane, if_pos hhas]
    exact Steady.drainFrom (m := { m with
      entries := m.entries.set i { e' with stage := .finished, lane := false }
      active := m.active - 1 }) hsteady
  · rw [hlane, if_neg hhas]
    refine h.set hi hok ?_ (congrArg SpawnRequest.parentSessionId hreq) ?_ ?_
    · simpa using hhas
    · simp [hstatus]
    · simp [hstatus]

/-! ### Events -/

/-- A child that ends while it runs. -/
theorem Sound.goes_finish (h : Sound o m) (hi : m.entries[i]? = some e)
    (hrunning : e.status = .running) {status : DelegationStatus}
    (hstatus : status.terminal = true) {result : Option ChildRuntimeResult} {error : Option String}
    {announce : Bool} (hstage : e.stage = .racing ∨ ∃ r, e.stage = .verifying r)
    (hstep : Entry.Step e (e.ended status result error announce)) :
    Moves o m (m.finish i e status result error announce) i e := by
  have hok := h.ok hi
  have hfields : e.settled = false ∧ e.counted = true ∧ e.resolved = [] := by
    unfold Entry.Ok at hok
    rw [hrunning] at hok
    cases hstage : e.stage <;> simp_all [DelegationStatus.terminal]
  obtain ⟨hsettled, hcounted, hresolved⟩ := hfields
  have hentries : (m.finish i e status result error announce).entries =
      m.entries.set i (e.ended status result error announce) := by
    unfold Manager.finish
    rw [hsettled, if_neg (by simp)]
  refine .of_set ⟨h.finish hi hrunning hsettled hcounted hresolved hstatus result error announce,
    evolves_set hi (.single hstep) hentries⟩ hi hentries (.refl _) ?_
  have hended : status ≠ .queued := by
    rintro rfl
    simp [DelegationStatus.terminal] at hstatus
  unfold Entry.waits
  rcases hstage with hstage | ⟨r, hstage⟩ <;>
  cases announce <;> simp [Entry.ended, hrunning, hstage, hended]

theorem Entry.Ok.running (h : e.Ok) (hstage : e.stage = .racing ∨ ∃ r, e.stage = .verifying r) :
    e.status = .running := by
  rcases hstage with hstage | ⟨r, hstage⟩
  · have hok := h.2
    rw [hstage] at hok
    exact hok.1
  · have hok := h.2
    rw [hstage] at hok
    exact hok.1

/-- What is thrown ends the child, as cancelled if it was aborted. -/
theorem Sound.caught (h : Sound o m) (hi : m.entries[i]? = some e)
    (hstage : e.stage = .racing ∨ ∃ r, e.stage = .verifying r) {x : Thrown}
    (hx : x.isSome = true) : Moves o m (m.caught o i e x) i e := by
  have hrunning := (h.ok hi).running hstage
  obtain ⟨text, htext⟩ : ∃ text, e.reason.getD x = some text := by
    cases hreason : e.reason with
    | none => exact Option.isSome_iff_exists.mp hx
    | some reason => exact Option.isSome_iff_exists.mp ((h.ok hi).1 reason hreason)
  unfold Manager.caught
  rw [htext]
  have hstatus : (if e.reason.isSome then DelegationStatus.cancelled else .failed).terminal =
      true := by
    split <;> rfl
  refine h.goes_finish hi hrunning hstatus hstage
    (.fail (by rw [hrunning]; rfl) (.inr hstage) ?_ (fun _ hr => ?_) _)
  · split
    · exact .inr rfl
    · exact .inl rfl
  · rw [if_pos hr]

theorem Sound.raced (h : Sound o m) (hi : m.entries[i]? = some e) (hstage : e.stage = .racing)
    (outcome : Except Thrown JsValue) (hx : ∀ x, outcome = .error x → x.isSome = true) :
    Moves o m (m.raced o i e outcome) i e := by
  have hrunning := (h.ok hi).running (.inl hstage)
  have hok := (h.ok hi).2
  rw [hstage] at hok
  cases outcome with
  -- the race is lost
  | error x => exact h.caught hi (.inl hstage) (hx x rfl)
  | ok raw =>
    simp only [Manager.raced]
    split
    · -- the race is won, but the entry was aborted meanwhile
      rename_i reason hreason
      exact h.caught hi (.inl hstage) ((h.ok hi).1 reason hreason)
    · rename_i hreason
      split
      · exact h.caught hi (.inl hstage) rfl
      · -- a result that was read goes to the verifier, if there is one
        rename_i result _
        split
        · refine h.goes_finish hi hrunning rfl (.inl hstage)
            (.fail (by rw [hrunning]; rfl) (.inr (.inl hstage)) (.inl rfl) ?_ _)
          intro _ hr
          simp [hreason] at hr
        · split
          · exact h.caught hi (.inl hstage) rfl
          · split
            · refine .of_set ⟨h.set hi ⟨(h.ok hi).1, hok⟩ rfl rfl rfl Iff.rfl,
                evolves_set hi (.single (.verify hstage hreason result)) rfl⟩ hi rfl (.refl _) ?_
              simp [Entry.waits, hrunning, hstage]
            · exact h.goes_finish hi hrunning rfl (.inl hstage)
                (.succeed hrunning (.inl ⟨hstage, hreason⟩) result)

theorem Sound.verified (h : Sound o m) (hi : m.entries[i]? = some e) {result : ChildRuntimeResult}
    (hstage : e.stage = .verifying result) (outcome : Except Thrown Bool)
    (hx : ∀ x, outcome = .error x → x.isSome = true) :
    Moves o m (m.verified o i e result outcome) i e := by
  have hrunning := (h.ok hi).running (.inr ⟨result, hstage⟩)
  have hnot : e.stage = .racing → e.reason.isSome = true → DelegationStatus.failed =
      .cancelled := by
    intro hracing
    simp [hstage] at hracing
  have hverifying : e.stage = .racing ∨ ∃ r, e.stage = .verifying r := .inr ⟨result, hstage⟩
  match outcome, hx with
  | .ok true, _ =>
    exact h.goes_finish hi hrunning rfl hverifying (.succeed hrunning (.inr ⟨result, hstage⟩) result)
  | .ok false, _ | .error (some text), _ =>
    exact h.goes_finish hi hrunning rfl hverifying
      (.fail (by rw [hrunning]; rfl) (.inr hverifying) (.inl rfl) hnot _)
  | .error none, hx => exact absurd (hx none rfl) (by simp)

theorem Sound.announced (h : Sound o m) (hi : m.entries[i]? = some e) {r : DelegationResult}
    (hstage : e.stage = .announcing r) (outcome : Except Thrown Unit)
    (hx : ∀ x, outcome = .error x → x.isSome = true) :
    Moves o m (m.announced o i e r outcome) i e := by
  have hok := (h.ok hi).2
  rw [hstage] at hok
  have hended : e.status ≠ .queued := by
    intro heq
    simp [heq, DelegationStatus.terminal] at hok
  have hlt : ∀ r errors, ({ e with stage := .archiving r errors } : Entry).waits < e.waits := by
    simp [Entry.waits, hstage, hended]
  match outcome, hx with
  | .ok (), _ =>
    exact .of_set ⟨h.set hi ⟨(h.ok hi).1, hok⟩ rfl rfl rfl Iff.rfl,
      evolves_set hi (.single (.archive hstage [])) rfl⟩ hi rfl (.refl _) (hlt _ _)
  | .error (some text), _ =>
    exact .of_set ⟨h.set hi ⟨(h.ok hi).1, hok⟩ rfl rfl rfl Iff.rfl,
      evolves_set hi (.single (.archive hstage [text])) rfl⟩ hi rfl (.refl _) (hlt _ _)
  | .error none, hx => exact absurd (hx none rfl) (by simp)

@[simp] theorem joinErrors_status (r : DelegationResult) (errors : List String) :
    (Manager.joinErrors r errors).status = r.status := by
  unfold Manager.joinErrors
  split <;> rfl

@[simp] theorem joinErrors_announced (r : DelegationResult) (errors : List String) :
    (Manager.joinErrors r errors).announced = r.announced := by
  unfold Manager.joinErrors
  split <;> rfl

/-- The promise of a child is resolved, and the child is over. -/
theorem Sound.resolved (h : Sound o m)
    (hi : m.entries[i]? = some e) {r r' : DelegationResult} {errors : List String}
    (hstage : e.stage = .archiving r errors) (hstatus : r'.status = r.status)
    (hannounced : r'.announced = r.announced) :
    Moves o m (m.leave o i { e with resolved := e.resolved ++ [r'] }) i e := by
  have hok := (h.ok hi).2
  rw [hstage] at hok
  obtain ⟨hended, hsettled, hsame, hresolved⟩ := hok
  obtain ⟨left, hleft, hafter⟩ := leave_eq (o := o) (m := m) i { e with resolved := e.resolved ++ [r'] }
  refine .of_set ⟨h.leave hi rfl rfl rfl ⟨(h.ok hi).1, hended, hsettled, rfl, r', ?_, ?_⟩, ?_⟩ hi hleft
    hafter ?_
  · simp [hresolved]
  · exact hstatus.trans hsame
  · exact (evolves_set hi (.single (.leave hstage hannounced)) hleft).trans hafter
  · have hnot : e.status ≠ .queued := by
      intro heq
      simp [heq, DelegationStatus.terminal] at hended
    simp [Entry.waits, hstage, hnot]

theorem Sound.archived (h : Sound o m)
    (hi : m.entries[i]? = some e) {r : DelegationResult} {errors : List String}
    (hstage : e.stage = .archiving r errors) (outcome : Except Thrown Unit)
    (hx : ∀ x, outcome = .error x → x.isSome = true) :
    Moves o m (m.archived o i e r errors outcome) i e := by
  match outcome, hx with
  | .ok (), _ => exact h.resolved hi hstage (by simp) (by simp)
  | .error (some text), _ => exact h.resolved hi hstage (by simp) (by simp)
  | .error none, hx => exact absurd (hx none rfl) (by simp)

theorem Entry.Ok.abort (h : e.Ok) {reason : Thrown} (hreason : reason.isSome = true) :
    (e.abort reason).Ok := by
  refine ⟨?_, h.2⟩
  intro r hr
  obtain rfl := Option.some.inj hr
  cases he : e.reason with
  | none => exact hreason
  | some r => exact h.1 r he

/-- A child is asked to stop; one that is queued ends at once. -/
theorem Sound.cancel (h : Sound o m) (i : Nat) {reason : Thrown} (hreason : reason.isSome = true) :
    ∃ m', m.cancel i reason = .ok m' ∧ Goes o m m' := by
  unfold Manager.cancel
  cases hi : m.entries[i]? with
  | none => exact ⟨m, rfl, h, .refl m⟩
  | some e =>
    have hok := h.ok hi
    dsimp only
    split
    · exact ⟨m, rfl, h, .refl m⟩
    · rename_i hunfinished
      split
      · -- a queued child is taken out of the queue and finished at once
        rename_i hqueued
        obtain ⟨text, rfl⟩ := Option.isSome_iff_exists.mp hreason
        have hfields : e.settled = false ∧ e.counted = true ∧ e.resolved = [] := by
          unfold Entry.Ok at hok
          rw [hqueued] at hok
          cases hstage : e.stage <;> simp_all [DelegationStatus.terminal]
        obtain ⟨hsettled, hcounted, hresolved⟩ := hfields
        have hset := h.toSteady.set hi (hok.abort hreason) rfl rfl rfl Iff.rfl
        have hended := hset.ended (getElem?_set_of_some hi)
          (show (e.abort (some text)).status.terminal = false by simpa [Entry.abort] using hunfinished)
          (hok.abort hreason).1 hresolved (h.nodup.erase i)
          (fun j => by rw [h.nodup.mem_erase_iff, and_comm])
          (show DelegationStatus.cancelled.terminal = true from rfl) none (some text) false
        refine ⟨_, rfl, ?_⟩
        have hfinish : ({ m with queue := m.queue.erase i } : Manager).finish i
            (e.abort (some text)) .cancelled none (some text) false = { m with
              queue := m.queue.erase i
              entries := (m.entries.set i (e.abort (some text))).set i
                ((e.abort (some text)).ended .cancelled none (some text) false)
              counts := m.counts.set e.request.parentSessionId
                ((m.counts.get e.request.parentSessionId).getD 1 - 1) } := by
          simp [Manager.finish, Entry.abort, hsettled, hcounted]
        rw [hfinish]
        refine ⟨⟨hended, fun hne => h.moving ?_⟩, ?_⟩
        · rintro hnil
          simp [hnil] at hne
        · refine evolves_set hi (.tail (.single (.abort e (some text))) (.fail ?_
            (.inl (show (e.abort (some text)).status = .queued from hqueued)) (.inr rfl) ?_
            (some text))) ?_
          · simpa [Entry.abort] using hunfinished
          · exact fun _ _ => rfl
          · simp
      · -- a child that runs only learns of it
        refine ⟨_, rfl, h.set hi (hok.abort hreason) rfl rfl rfl Iff.rfl,
          evolves_set hi (.single (.abort e reason)) rfl⟩

/-- All children below a session are asked to stop. -/
theorem Sound.visit (h : Sound o m) (depth : Nat) (p : String) {reason : Thrown}
    (hreason : reason.isSome = true) :
    ∃ m', Manager.visit depth p reason m = .ok m' ∧ Goes o m m' := by
  induction depth generalizing p m with
  | zero => exact ⟨m, rfl, h, .refl m⟩
  | succ depth ih =>
    unfold Manager.visit
    -- the list of entries is fixed before any of them is visited
    generalize List.range m.entries.length = l
    induction l generalizing m with
    | nil => exact ⟨m, rfl, h, .refl m⟩
    | cons i l ihl =>
      rw [List.foldlM_cons]
      have hone : ∃ m', Manager.visitEntry p reason
          (fun id m => Manager.visit depth id reason m) m i = .ok m' ∧ Goes o m m' := by
        unfold Manager.visitEntry
        split
        · rename_i e _
          split
          · -- first what is below the entry, then the entry itself
            obtain ⟨m', hvisit, hm', hevolves⟩ := ih h e.id
            obtain ⟨m'', hcancel, hm'', hevolves'⟩ := hm'.cancel i hreason
            refine ⟨m'', ?_, hm'', hevolves.trans hevolves'⟩
            dsimp only
            rw [hvisit]
            exact hcancel
          · exact ⟨m, rfl, h, .refl m⟩
        · exact ⟨m, rfl, h, .refl m⟩
      obtain ⟨m', hm', hsound, hevolves⟩ := hone
      obtain ⟨m'', hm'', hsound', hevolves'⟩ := ihl hsound
      refine ⟨m'', ?_, hsound', hevolves.trans hevolves'⟩
      rw [hm']
      exact hm''

/-- A child is spawned: its parent has one unfinished child more. -/
theorem Sound.spawn (h : Sound o m) {r : SpawnRequest} (hm' : m.spawn o r = .ok m') :
    Goes o m m' := by
  simp only [Manager.spawn, bind_eq_ok, throwIf_eq_ok] at hm'
  obtain ⟨-, -, -, hchildren, -, -, -, -, -, -, heq⟩ := hm'
  -- the new child counts for its own parent
  have hnew : ∀ capabilities p, Entry.unfinishedOf p (r.child capabilities (m.entries.length + 1)) =
      decide (r.parentSessionId = p) := by
    intro capabilities p
    by_cases hp : r.parentSessionId = p <;> simp [Entry.unfinishedOf, hp, DelegationStatus.terminal]
  obtain rfl := Except.ok.inj heq
  refine ⟨⟨⟨?_, ?_, h.bound, fun p => ?_, fun p => ?_, fun i => ?_, ?_⟩, fun _ => .inl (by simp)⟩,
    fun i e hi => ⟨e, getElem?_append_of_some hi _, .refl⟩⟩
  · intro e he
    rcases List.mem_append.mp he with he | he
    · exact h.entry e he
    · obtain rfl := List.mem_singleton.mp he
      exact ⟨by simp, rfl, rfl, rfl, rfl, rfl⟩
  · simpa using h.lanes
  · have hold := h.counted p
    rw [OrderedMap.get_set, List.countP_append, List.countP_singleton, hnew]
    by_cases hparent : r.parentSessionId = p
    · subst hparent
      simp [hold]
    · simp [hparent, hold]
  · rw [List.countP_append, List.countP_singleton, hnew]
    by_cases hparent : r.parentSessionId = p
    · subst hparent
      rw [h.counted] at hchildren
      have hroom := succ_lt_add_one (not_le.mp hchildren)
      simpa using hroom
    · simpa [hparent] using h.children p
  · -- it is queued, under an index that is new
    rw [List.mem_append, List.mem_singleton, h.queued i]
    constructor
    · rintro (⟨e, hi, hqueued⟩ | rfl)
      · exact ⟨e, getElem?_append_of_some hi _, hqueued⟩
      · exact ⟨_, List.getElem?_concat_length, rfl⟩
    · rintro ⟨e, hi, hqueued⟩
      rcases getElem?_append_singleton_cases hi with ⟨rfl, -⟩ | hi
      · exact .inr rfl
      · exact .inl ⟨e, hi, hqueued⟩
  · rw [List.nodup_append]
    refine ⟨h.nodup, by simp, ?_⟩
    rintro i hi j hj rfl
    obtain ⟨e, he, -⟩ := (h.queued i).mp hi
    rw [List.mem_singleton.mp hj] at he
    simp at he

theorem Sound.deadline (h : Sound o m) (hi : m.entries[i]? = some e) {reason : Thrown}
    (hreason : reason.isSome = true) : Goes o m { m with entries := m.entries.set i (e.abort reason) } :=
  ⟨h.set hi ((h.ok hi).abort hreason) rfl rfl rfl Iff.rfl,
    evolves_set hi (.single (.abort e reason)) rfl⟩

/-- What a child does next. -/
theorem Sound.resume (h : Sound o m)
    (hi : m.entries[i]? = some e) {ev : Event} (htextual : Textual ev) :
    Goes o m (m.resume o i e ev) := by
  have hself : Goes o m m := ⟨h, .refl m⟩
  cases ev with
  | spawn r => exact hself
  | drain => exact hself
  | cancel j reason => exact hself
  | cancelParent p reason => exact hself
  | deadline j =>
    simp only [Manager.resume]
    split
    · exact h.deadline hi rfl
    · exact hself
  | runtime j outcome =>
    simp only [Manager.resume]
    split
    · refine (h.raced hi ‹_› outcome ?_).1
      rintro x rfl
      exact htextual
    · exact hself
  | aborted j =>
    simp only [Manager.resume]
    split
    · exact (h.caught hi (.inl ‹_›) ((h.ok hi).1 _ ‹_›)).1
    · exact hself
  | verifier j outcome =>
    simp only [Manager.resume]
    split
    · refine (h.verified hi ‹_› outcome ?_).1
      rintro x rfl
      exact htextual
    · exact hself
  | hook j outcome =>
    have hx : ∀ x, outcome = .error x → x.isSome = true := by
      rintro x rfl
      exact htextual
    simp only [Manager.resume]
    split
    · exact (h.announced hi ‹_› outcome hx).1
    · exact (h.archived hi ‹_› outcome hx).1
    · exact hself

/-- Every event with texts keeps a manager sound. -/
theorem Sound.apply (h : Sound o m) {ev : Event} (htextual : Textual ev) :
    Goes o m (m.apply o ev) := by
  have hself : Goes o m m := ⟨h, .refl m⟩
  cases ev with
  | spawn r =>
    simp only [Manager.apply]
    split
    · exact h.spawn ‹_›
    · exact hself
  | drain =>
    simp only [Manager.apply]
    split
    · exact hself
    · exact ⟨Steady.drainFrom (m := { m with drains := m.drains - 1 })
        ⟨h.entry, h.lanes, h.bound, h.counted, h.children, h.queued, h.nodup⟩,
        evolves_drainFrom m.queue { m with drains := m.drains - 1 }⟩
  | cancel i reason =>
    obtain ⟨m', hm', hgoes⟩ := h.cancel i htextual
    simp only [Manager.apply, hm']
    exact hgoes
  | cancelParent p reason =>
    obtain ⟨m', hm', hgoes⟩ := h.visit m.visitDepth p htextual
    simp only [Manager.apply, Manager.cancelParent, hm']
    exact hgoes
  -- an answer for an entry that is not there changes nothing
  | deadline i | runtime i _ | aborted i | verifier i _ | hook i _ =>
    simp only [Manager.apply]
    split
    · exact h.resume ‹_› htextual
    · exact hself

/-- An answer takes the child that waits for it further. -/
theorem Sound.moves (h : Sound o m) (hi : m.entries[i]? = some e) {ev : Event}
    (htextual : Textual ev) (hanswered : e.isAnswered i ev = true) :
    Moves o m (m.apply o ev) i e := by
  have hok := (h.ok hi).2
  cases ev with
  | runtime j outcome =>
    cases hstage : e.stage <;> simp only [Entry.isAnswered, hstage, decide_eq_true_eq,
      Bool.false_eq_true] at hanswered
    subst hanswered
    simp only [Manager.apply, hi, Manager.resume, hstage]
    refine h.raced hi hstage outcome ?_
    rintro x rfl
    exact htextual
  | aborted j =>
    cases hstage : e.stage <;> simp only [Entry.isAnswered, hstage, Bool.and_eq_true,
      decide_eq_true_eq, Bool.false_eq_true] at hanswered
    obtain ⟨rfl, hsome⟩ := hanswered
    obtain ⟨reason, hreason⟩ := Option.isSome_iff_exists.mp hsome
    simp only [Manager.apply, hi, Manager.resume, hstage, hreason]
    exact h.caught hi (.inl hstage) ((h.ok hi).1 reason hreason)
  | verifier j outcome =>
    cases hstage : e.stage <;> simp only [Entry.isAnswered, hstage, decide_eq_true_eq,
      Bool.false_eq_true] at hanswered
    subst hanswered
    simp only [Manager.apply, hi, Manager.resume, hstage]
    refine h.verified hi hstage outcome ?_
    rintro x rfl
    exact htextual
  | hook j outcome =>
    have hx : ∀ x, outcome = .error x → x.isSome = true := by
      rintro x rfl
      exact htextual
    cases hstage : e.stage <;> simp only [Entry.isAnswered, hstage, decide_eq_true_eq,
      Bool.false_eq_true] at hanswered
    all_goals
      subst hanswered
      simp only [Manager.apply, hi, Manager.resume, hstage]
    · exact h.announced hi hstage outcome hx
    · exact h.archived hi hstage outcome hx
  | spawn | drain | cancel | cancelParent | deadline => simp [Entry.isAnswered] at hanswered

/-- A run of events with texts keeps a manager sound, and its children go on by steps. -/
theorem goes_run {es : List Event} (h : Sound o m) (htextual : ∀ ev ∈ es, Textual ev) :
    Goes o m (run (Manager.apply o) m es) := by
  induction es generalizing m with
  | nil => exact ⟨h, .refl m⟩
  | cons ev es ih =>
    obtain ⟨hsound, hevolves⟩ := h.apply (htextual ev List.mem_cons_self)
    obtain ⟨hsound', hevolves'⟩ := ih hsound fun ev' hev =>
      htextual ev' (List.mem_cons_of_mem ev hev)
    exact ⟨hsound', hevolves.trans hevolves'⟩

/-- Every answer that a child gets in a run takes it further. -/
theorem waits_run {es : List Event} (h : Sound o m) (htextual : ∀ ev ∈ es, Textual ev)
    (hi : m.entries[i]? = some e) (hi' : (run (Manager.apply o) m es).entries[i]? = some e') :
    e'.waits + answers o i m es ≤ e.waits := by
  induction es generalizing m e with
  | nil =>
    obtain rfl := Option.some.inj (hi.symm.trans hi')
    exact le_rfl
  | cons ev es ih =>
    obtain ⟨hsound, hevolves⟩ := h.apply (htextual ev List.mem_cons_self)
    obtain ⟨x, hx, hsteps⟩ := hevolves i e hi
    have hrest := ih hsound (fun ev' hev => htextual ev' (List.mem_cons_of_mem ev hev)) hx hi'
    rw [answers, hi, Option.any_some]
    split
    · rename_i hanswered
      obtain ⟨-, y, hy, hlt⟩ := h.moves hi (htextual ev List.mem_cons_self) hanswered
      obtain rfl := Option.some.inj (hx.symm.trans hy)
      omega
    · have hle := waits_of_steps hsteps
      omega

/-- A child that waits for nothing more is over. -/
theorem Entry.Ok.resolved (h : e.Ok) (hwaits : e.waits = 0) : e.Resolved := by
  have hstage := h.2
  unfold Entry.waits at hwaits
  split at hwaits
  · cases hwaits
  · cases hs : e.stage with
    | finished =>
      rw [hs] at hstage
      exact ⟨hstage.1, hstage.2.2.1, hstage.2.2.2⟩
    | queued | racing | verifying | announcing | archiving => simp [hs] at hwaits

/-! ### The limits hold -/

/-- The limits are whole numbers. -/
def Whole (o : Options) : Prop :=
  ∃ n k : Nat, o.limits.concurrency = n ∧ o.limits.maxChildren = k

/-- The child has not been forgotten. If it is queued, it will be started: it is taken on, or all
lanes are in use. If it was started, then in any run from here in which it gets the answers that it
waits for, its promise is resolved. -/
def Awaited (o : Options) (m : Manager) (i : Nat) (e : Entry) : Prop :=
  if e.status = .queued then i ∈ m.queue ∧ (0 < m.drains ∨ o.limits.concurrency ≤ m.active)
  else ∀ es : List Event, (∀ ev ∈ es, Textual ev) → e.waits ≤ answers o i m es →
    ∃ e', (run (Manager.apply o) m es).entries[i]? = some e' ∧ e'.Resolved

/-- The limits hold, counters are right, the lanes in use are those of children that were started
and are not over, and every promise is resolved once, with the final status, or still waited for. -/
structure Delegated (o : Options) (m : Manager) : Prop where
  running : (m.entries.countP (fun e => e.status = .running) : ℚ) ≤ o.limits.concurrency
  lanes : m.active = m.entries.countP Entry.lane
  children : ∀ p, (m.entries.countP (Entry.unfinishedOf p) : ℚ) ≤ o.limits.maxChildren ∧
    (m.counts.get p).getD 0 = m.entries.countP (Entry.unfinishedOf p)
  promises : ∀ i e, m.entries[i]? = some e → (e.resolved = [] ∧ Awaited o m i e) ∨ e.Resolved

theorem Sound.delegated (h : Sound o m) (hwhole : Whole o) : Delegated o m where
  running := by
    obtain ⟨n, -, hn, -⟩ := hwhole
    refine le_trans ?_ (le_of_whole hn h.bound)
    -- every running entry holds a lane, and there are no more of these than the limit
    rw [h.lanes]
    refine Nat.cast_le.mpr (List.countP_mono_left fun e he hrunning => ?_)
    have hok := (h.entry e he).2
    have hstatus : e.status = .running := of_decide_eq_true hrunning
    rw [hstatus] at hok
    cases hstage : e.stage <;> simp_all [DelegationStatus.terminal]
  children p := by
    obtain ⟨-, k, -, hk⟩ := hwhole
    exact ⟨le_of_whole hk (h.children p), h.counted p⟩
  lanes := h.lanes
  promises i e hi := by
    have hok := (h.ok hi).2
    have hawaited : Awaited o m i e := by
      unfold Awaited
      split
      · -- a queued child waits for its turn
        rename_i hqueued
        have hmem := (h.queued i).mpr ⟨e, hi, hqueued⟩
        exact ⟨hmem, h.moving (List.ne_nil_of_mem hmem)⟩
      · intro es htextual hle
        obtain ⟨hsound, hevolves⟩ := goes_run h htextual
        obtain ⟨e', hi', -⟩ := hevolves i e hi
        have hrun := waits_run h htextual hi hi'
        exact ⟨e', hi', (hsound.ok hi').resolved (by omega)⟩
    cases hstage : e.stage with
    | queued | racing | verifying r =>
      rw [hstage] at hok
      exact .inl ⟨hok.2.2.2.2, hawaited⟩
    | announcing r | archiving r errors =>
      rw [hstage] at hok
      exact .inl ⟨hok.2.2.2, hawaited⟩
    | finished =>
      rw [hstage] at hok
      exact .inr ⟨hok.1, hok.2.2.1, hok.2.2.2⟩

/-- A child that has ended keeps its status. -/
theorem Entry.Step.status (h : Entry.Step e e') (hended : e.status.terminal = true) :
    e'.status = e.status := by
  cases h with
  | begin h => simp [h, DelegationStatus.terminal] at hended
  | abort reason => rfl
  | verify => rfl
  | succeed h => simp [h, DelegationStatus.terminal] at hended
  | fail h => simp [h] at hended
  | archive => rfl
  | leave => rfl

theorem status_of_steps (h : Relation.ReflTransGen Entry.Step e e')
    (hended : e.status.terminal = true) : e'.status = e.status := by
  induction h with
  | refl => rfl
  | tail _ hstep ih => exact (hstep.status (ih ▸ hended)).trans ih

/-- What a promise was resolved with stays. -/
theorem Entry.Step.resolved (h : Entry.Step e e') : e.resolved <+: e'.resolved := by
  cases h with
  | leave h hr => exact List.prefix_append _ _
  | begin | abort | verify | succeed | fail | archive => exact List.prefix_rfl

theorem resolved_of_steps (h : Relation.ReflTransGen Entry.Step e e') :
    e.resolved <+: e'.resolved := by
  induction h with
  | refl => exact List.prefix_rfl
  | tail _ hstep ih => exact ih.trans hstep.resolved

/-- Whatever the order of spawns, cancellations, deadlines, answers and hooks: the limits hold
in every state, every promise is resolved once or still waited for, what it was resolved with
stays, and a child that has ended keeps its status; provided the limits are whole numbers and
everything thrown has a text. -/
theorem delegated_throughout (o : Options) (hwhole : Whole o) (es : List Event)
    (htextual : ∀ ev ∈ es, Textual ev) :
    Throughout (Manager.apply o) (Delegated o) .start es ∧
      ∀ before after, es = before ++ after → ∀ (i : Nat) e,
        (run (Manager.apply o) .start before).entries[i]? = some e →
        ∃ e', (run (Manager.apply o) .start es).entries[i]? = some e' ∧
          e.resolved <+: e'.resolved ∧ (e.status.terminal = true → e'.status = e.status) := by
  constructor
  · rintro before after rfl
    exact (goes_run (sound_start o) fun ev hev =>
      htextual ev (List.mem_append_left _ hev)).1.delegated hwhole
  · rintro before after rfl i e hi
    have hbefore := goes_run (sound_start o) fun ev hev =>
      htextual ev (List.mem_append_left _ hev)
    obtain ⟨e', hi', hsteps⟩ := (goes_run hbefore.1 fun ev hev =>
      htextual ev (List.mem_append_right _ hev)).2 i e hi
    rw [run_append]
    exact ⟨e', hi', resolved_of_steps hsteps, status_of_steps hsteps⟩

/-! ### A lane that is lost -/

/-- One lane, and no verifier. -/
def oneLane : Options where
  limits := ⟨2, 4, 8, 1, 1, by decide⟩
  allowed := ["market:read"]
  verifies := false
  cloneable _ := true

/-- A child of this session that reads the market. -/
def research (parent : String) : SpawnRequest where
  task := "research"
  parentSessionId := parent
  parentCapabilities := ["market:read"]
  requestedCapabilities := ["market:read"]
  depth := none
  context := .undefined
  model := .undefined

/-- Two children are spawned, and the first one is cancelled while it has the lane. -/
def twoChildren : List Event :=
  [.spawn (research "parent"), .spawn (research "other"), .drain, .cancel 0 (some "stop"),
    .aborted 0, .hook 0 (.ok ())]

theorem delegated_throughout_oneLane :
    Throughout (Manager.apply oneLane) (Delegated oneLane) .start twoChildren ∧
      (run (Manager.apply oneLane) .start twoChildren).entries.map
        (fun e => (e.status, e.lane, e.resolved.map DelegationResult.status)) =
          [(.cancelled, false, [.cancelled]), (.running, true, [])] := by
  refine ⟨(delegated_throughout oneLane ⟨1, 4, by decide, by decide⟩ _ ?_).1, by decide +kernel⟩
  intro ev hev
  fin_cases hev <;> trivial

/-- A running child is cancelled with a reason that has no text: its lane is given to the next
one, and both are running. -/
theorem lane_lost : ¬∀ (o : Options), Whole o → ∀ es : List Event,
    Throughout (Manager.apply o) (Delegated o) .start es := by
  intro h
  have hdelegated := h oneLane ⟨1, 4, by decide, by decide⟩
    [.spawn (research "parent"), .spawn (research "other"), .drain, .cancel 0 none, .aborted 0]
    _ [] (List.append_nil _).symm
  have htwo : (run (Manager.apply oneLane) .start
      [.spawn (research "parent"), .spawn (research "other"), .drain, .cancel 0 none,
        .aborted 0]).entries.countP (fun e => e.status = .running) = 2 := by decide +kernel
  have hle := hdelegated.running
  rw [htwo] at hle
  exact absurd hle (by decide)

end AriOs.Autonomy.Delegation
