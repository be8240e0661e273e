import AriOs.Autonomy.Scheduler

/-!
# Occurrences that are fired

Between two upserts of a schedule, the jobs that are enqueued for it are those of its first
occurrences, each once and in order, whatever crashes and whatever throws: a key that is used
again names the same moment. But the loop of a tick ends with the first schedule that throws, and
the schedules after it are not looked at, in this tick and in every later one.
-/

namespace AriOs.Autonomy.Jobs

open AriOs.Async AriOs.Async.Transition AriOs.Js AriOs.Storage

variable {Q : JobQueue} {host : TickHost} {w w' : World} {id : String} {schedule : Schedule}
  {r : ScheduleRow} {now : ℚ}

/-! ### One row of a tick -/

/-- What the jobs are after the row's turn in a tick. -/
theorem enqueueRow_enqueued (Q : JobQueue) (host : TickHost) (r : ScheduleRow) (s : JobStore) :
    Enqueued (host.answers r.id).uuid r.key s (enqueueRow Q host r s) := by
  have hkey : EnqueueOptions.idempotencyKey { idempotencyKey := some r.key } = some r.key := rfl
  exact enqueueNow_enqueued hkey s

/-- The row's turn: nothing happens, its job is there, or it has been moved as well. -/
theorem tickRows_cons (Q : JobQueue) (host : TickHost) (r : ScheduleRow) (rs : List ScheduleRow)
    (left : Option Nat) (w : World) :
    w.tickRows Q host (r :: rs) left = w ∨
    ∃ j jobs, enqueueRow Q host r w.jobs = (.ok j, jobs) ∧
      (w.tickRows Q host (r :: rs) left = { w with jobs } ∨
        ∃ next left', r.next = .ok next ∧ w.tickRows Q host (r :: rs) left =
          (World.move { w with jobs } r.id next).tickRows Q host rs left') := by
  rw [World.tickRows]
  split
  · exact .inl rfl
  · have hspec := enqueueRow_enqueued Q host r w.jobs
    split
    · -- a row that cannot be enqueued ends the tick
      rename_i e jobs heq
      rw [heq] at hspec
      cases hspec
      exact .inl rfl
    · rename_i j jobs heq
      refine .inr ⟨j, jobs, heq, ?_⟩
      split
      · exact .inl rfl
      · split
        · exact .inl rfl
        · -- the row moves on to its next time
          rename_i next hnext
          exact .inr ⟨next, _, hnext, rfl⟩

/-- The rows are those of the table, no two with the same id. -/
def Current (w : World) (rs : List ScheduleRow) : Prop :=
  (rs.map ScheduleRow.id).Nodup ∧ ∀ r ∈ rs, w.schedules.find? r.id = some r

theorem find?_move {next : Option Nat} :
    (w.move r.id next).schedules.find? id =
      (w.schedules.find? id).map fun r' => if r'.id = r.id then r'.moveTo next else r' := by
  simp only [World.move, Table.find?_update, decide_eq_true_eq]

theorem find?_move_of_ne {next : Option Nat} (h : id ≠ r.id) :
    (w.move r.id next).schedules.find? id = w.schedules.find? id := by
  rw [find?_move]
  cases hf : w.schedules.find? id with
  | none => rfl
  | some r' => rw [Option.map_some, if_neg (by rw [(Table.find?_eq_some_iff.mp hf).2]; exact h)]

theorem find?_move_self {next : Option Nat} (h : w.schedules.find? r.id = some r) :
    (w.move r.id next).schedules.find? r.id = some (r.moveTo next) := by
  rw [find?_move, h, Option.map_some, if_pos rfl]

/-- A row that has been moved leaves the others as they are. -/
theorem Current.tail {rs : List ScheduleRow} {next : Option Nat} {jobs : JobStore}
    (h : Current w (r :: rs)) : Current (World.move { w with jobs } r.id next) rs := by
  obtain ⟨hnot, hnodup⟩ := List.nodup_cons.mp h.1
  refine ⟨hnodup, fun r' hr' => ?_⟩
  rw [find?_move_of_ne]
  · exact h.2 r' (List.mem_cons_of_mem r hr')
  · intro heq
    exact hnot (heq ▸ List.mem_map_of_mem hr')

theorem current_due (w : World) (now : ℚ) : Current w (w.due now) := by
  refine ⟨(w.schedules.nodup.sublist (List.filter_sublist.map _)), fun r hr => ?_⟩
  exact Table.mem_rows_iff.mp (List.mem_filter.mp hr).1

/-- What each row's turn keeps, the loop keeps. -/
theorem tickRows_keeps {K : World → Prop} {P : ScheduleRow → Prop}
    (hrow : ∀ w r j jobs, K w → P r → w.schedules.find? r.id = some r →
      enqueueRow Q host r w.jobs = (.ok j, jobs) →
        K { w with jobs } ∧ ∀ next, r.next = .ok next → K (World.move { w with jobs } r.id next))
    {rs : List ScheduleRow} (hP : ∀ r ∈ rs, P r) {left : Option Nat} (hcurrent : Current w rs)
    (hK : K w) : K (w.tickRows Q host rs left) := by
  induction rs generalizing w left with
  | nil => exact hK
  | cons r rs ih =>
    have hr := List.mem_cons_self (a := r) (l := rs)
    rcases tickRows_cons Q host r rs left w with heq | ⟨j, jobs, henq, heq | ⟨next, left', hnext, heq⟩⟩
    · rw [heq]
      exact hK
    · rw [heq]
      exact (hrow w r j jobs hK (hP r hr) (hcurrent.2 r hr) henq).1
    · rw [heq]
      exact ih (fun r' hr' => hP r' (List.mem_cons_of_mem r hr')) hcurrent.tail
        ((hrow w r j jobs hK (hP r hr) (hcurrent.2 r hr) henq).2 next hnext)

/-! ### The keys there are -/

/-- The keys of a schedule, in the order in which its jobs were enqueued. -/
noncomputable def keysOf (id : String) (jobs : List JobIdentity) : List String :=
  open Classical in
  (jobs.filterMap JobIdentity.idempotencyKey).filter fun key => ∃ t, key = scheduleKey id t

theorem keysOf_append (jobs jobs' : List JobIdentity) :
    keysOf id (jobs ++ jobs') = keysOf id jobs ++ keysOf id jobs' := by
  simp [keysOf]

theorem keysOf_singleton {job : JobIdentity} {t : Nat}
    (h : job.idempotencyKey = some (scheduleKey id t)) : keysOf id [job] = [scheduleKey id t] := by
  simp [keysOf, h]

theorem keysOf_eq_nil {job : JobIdentity}
    (h : ∀ t, job.idempotencyKey ≠ some (scheduleKey id t)) : keysOf id [job] = [] := by
  cases hkey : job.idempotencyKey with
  | none => simp [keysOf, hkey]
  | some key =>
    have hne : ∀ t, key ≠ scheduleKey id t := by
      rintro t rfl
      exact h t hkey
    simp [keysOf, hkey, hne]

theorem mem_keysOf {jobs : List JobIdentity} {t : Nat} :
    scheduleKey id t ∈ keysOf id jobs ↔ ∃ job ∈ jobs, job.idempotencyKey = some (scheduleKey id t) := by
  simp [keysOf]

/-- A row that could be enqueued has its job: it was there, or it is the last one now. -/
theorem enqueueRow_ok {s s' : JobStore} {j : Job} (h : enqueueRow Q host r s = (.ok j, s')) :
    (s' = s ∧ ∃ old ∈ s.identities, old.idempotencyKey = some r.key) ∨
    ∃ row : Job, row.idempotencyKey = some r.key ∧ s'.jobs.rows = s.jobs.rows ++ [row] ∧
      (∀ old ∈ s.identities, old.idempotencyKey ≠ some r.key) ∧
      row.id = (host.answers r.id).uuid := by
  have hspec := enqueueRow_enqueued Q host r s
  rw [h] at hspec
  cases hspec with
  | found _ old hold hkey => exact .inl ⟨rfl, old, hold, hkey⟩
  | made _ _ hid hkey hrows hnew => exact .inr ⟨j, hkey, hrows, hnew, hid⟩

theorem identities_append {s s' : JobStore} {rows : List Job}
    (h : s'.jobs.rows = s.jobs.rows ++ rows) :
    s'.identities = s.identities ++ rows.map Job.identity := by
  rw [JobStore.identities, h, List.map_append]
  rfl

/-! ### The first occurrences -/

/-- The first occurrences of a schedule, in order. -/
structure FirstOccurrences (schedule : Schedule) (since : Nat) (times : List Nat) : Prop where
  sorted : times.Pairwise (· < ·)
  occurs : ∀ t ∈ times, schedule.Occurs since t
  first : ∀ t ∈ times, ∀ t' < t, schedule.Occurs since t' → t' ∈ times

/-- What a row says about the times that were fired: all before its own, and that one perhaps. -/
structure FiredUpTo (schedule : Schedule) (since : Nat) (times : List Nat) (nextFire : Nat) :
    Prop where
  sorted : times.Pairwise (· < ·)
  occurs : ∀ t ∈ times, schedule.Occurs since t
  le : ∀ t ∈ times, t ≤ nextFire
  all : ∀ t < nextFire, schedule.Occurs since t → t ∈ times
  due : schedule.Occurs since nextFire

section Fired

variable {since nextFire : Nat} {times : List Nat}

theorem FiredUpTo.first (h : FiredUpTo schedule since times nextFire) :
    FirstOccurrences schedule since times :=
  ⟨h.sorted, h.occurs, fun t ht t' hlt hoccurs => h.all t' (by have := h.le t ht; omega) hoccurs⟩

/-- The row's own time is fired. -/
theorem FiredUpTo.fire (h : FiredUpTo schedule since times nextFire) (hnew : nextFire ∉ times) :
    FiredUpTo schedule since (times ++ [nextFire]) nextFire where
  sorted := by
    refine List.pairwise_append.mpr ⟨h.sorted, List.pairwise_singleton _ _, fun t ht t' ht' => ?_⟩
    obtain rfl := List.mem_singleton.mp ht'
    exact lt_of_le_of_ne (h.le t ht) (by rintro rfl; exact hnew ht)
  occurs t ht := by
    rcases List.mem_append.mp ht with ht | ht
    · exact h.occurs t ht
    · rw [List.mem_singleton.mp ht]
      exact h.due
  le t ht := by
    rcases List.mem_append.mp ht with ht | ht
    · exact h.le t ht
    · exact (List.mem_singleton.mp ht).le
  all t hlt hoccurs := List.mem_append_left _ (h.all t hlt hoccurs)
  due := h.due

/-- The row goes on to its next time once its own is fired. -/
theorem FiredUpTo.advance (h : FiredUpTo schedule since times nextFire) (hmem : nextFire ∈ times)
    {t : Nat} (hnext : schedule.FirstAfter nextFire t) : FiredUpTo schedule since times t where
  sorted := h.sorted
  occurs := h.occurs
  le t' ht' := (h.le t' ht').trans hnext.occurs.lt.le
  all t' hlt hoccurs := by
    rcases Nat.lt_trichotomy t' nextFire with hlt' | rfl | hgt
    · exact h.all t' hlt' hoccurs
    · exact hmem
    · exact absurd ((schedule.occurs_from h.due hgt).mp hoccurs) (hnext.least t' hlt)
  due := (schedule.occurs_from h.due hnext.occurs.lt).mpr hnext.occurs

end Fired

/-- The schedule is there as it was upserted, when `base` jobs were there and none of its own for
a later moment; since then its first occurrences were fired. -/
structure Tracks (id : String) (schedule : Schedule) (since base : Nat) (times : List Nat)
    (w : World) : Prop where
  row : ∃ row, w.schedules.find? id = some row ∧ row.schedule = schedule ∧
    FiredUpTo schedule since times row.nextFire
  length : base ≤ w.jobs.identities.length
  old : ∀ t, scheduleKey id t ∈ keysOf id (w.jobs.identities.take base) → t ≤ since
  keys : keysOf id (w.jobs.identities.drop base) = times.map (scheduleKey id)

section Tracks

variable {since base : Nat} {times : List Nat} {jobs : JobStore}

/-- Jobs for other schedules do not matter. -/
theorem Tracks.other (h : Tracks id schedule since base times w)
    {schedules : Table ScheduleRow.id} {new : List JobIdentity}
    (hschedules : schedules.find? id = w.schedules.find? id)
    (hjobs : jobs.identities = w.jobs.identities ++ new) (hnew : keysOf id new = []) :
    Tracks id schedule since base times ⟨schedules, jobs⟩ where
  row := by
    obtain ⟨row, hrow, hrest⟩ := h.row
    exact ⟨row, hschedules.trans hrow, hrest⟩
  length := by
    rw [hjobs, List.length_append]
    exact h.length.trans (Nat.le_add_right _ _)
  old := by
    rw [hjobs, List.take_append_of_le_length h.length]
    exact h.old
  keys := by
    rw [hjobs, List.drop_append_of_le_length h.length, keysOf_append, hnew, List.append_nil]
    exact h.keys

/-- The schedule's own job is there: its time is one of those that were fired. -/
theorem Tracks.enqueue (h : Tracks id schedule since base times w) {j : Job}
    (hr : w.schedules.find? id = some r)
    (henq : enqueueRow Q host r w.jobs = (.ok j, jobs)) :
    ∃ times', r.nextFire ∈ times' ∧ Tracks id schedule since base times' { w with jobs } := by
  obtain ⟨row, hrow, hschedule, hfired⟩ := h.row
  obtain rfl := Option.some.inj (hr.symm.trans hrow)
  obtain rfl := (Table.find?_eq_some_iff.mp hr).2
  have hsplit : keysOf r.id w.jobs.identities =
      keysOf r.id (w.jobs.identities.take base) ++ times.map (scheduleKey r.id) := by
    rw [← h.keys, ← keysOf_append, List.take_append_drop]
  rcases enqueueRow_ok henq with ⟨rfl, old, hold, hkey⟩ | ⟨new, hkey, hrows, hfree, -⟩
  · -- the key names this moment, and the jobs of earlier versions are for earlier ones
    refine ⟨times, ?_, h⟩
    have hmem : scheduleKey r.id r.nextFire ∈ keysOf r.id w.jobs.identities :=
      mem_keysOf.mpr ⟨old, hold, hkey⟩
    rw [hsplit, List.mem_append] at hmem
    rcases hmem with hmem | hmem
    · exact absurd (h.old _ hmem) (by have := hfired.due.lt; omega)
    · obtain ⟨t, ht, heq⟩ := List.mem_map.mp hmem
      rwa [← (scheduleKey_inj heq).2]
  · have hnew : r.nextFire ∉ times := by
      intro hmem
      have hkeys : scheduleKey r.id r.nextFire ∈ keysOf r.id w.jobs.identities := by
        rw [hsplit]
        exact List.mem_append_right _ (List.mem_map_of_mem hmem)
      obtain ⟨old, hold, hkey⟩ := mem_keysOf.mp hkeys
      exact hfree old hold hkey
    have hjobs := identities_append hrows
    refine ⟨times ++ [r.nextFire], List.mem_append_right _ (List.mem_singleton.mpr rfl),
      ⟨r, hr, hschedule, hfired.fire hnew⟩, ?_, ?_, ?_⟩
    · rw [hjobs, List.length_append]
      exact h.length.trans (Nat.le_add_right _ _)
    · rw [hjobs, List.take_append_of_le_length h.length]
      exact h.old
    · rw [hjobs, List.drop_append_of_le_length h.length, keysOf_append, h.keys, List.map_append]
      exact congrArg _ (keysOf_singleton hkey)

/-- The schedule moves on from a time that was fired. -/
theorem Tracks.move (h : Tracks id schedule since base times w)
    (hr : w.schedules.find? id = some r) (hmem : r.nextFire ∈ times) {next : Option Nat}
    (hnext : r.next = .ok next) : Tracks id schedule since base times (w.move r.id next) where
  row := by
    obtain ⟨row, hrow, rfl, hfired⟩ := h.row
    obtain rfl := Option.some.inj (hr.symm.trans hrow)
    obtain rfl := (Table.find?_eq_some_iff.mp hr).2
    refine ⟨r.moveTo next, find?_move_self hr, ?_⟩
    cases next with
    | none => exact ⟨rfl, hfired⟩
    | some t =>
      refine ⟨rfl, hfired.advance hmem ?_⟩
      -- the next time is the first one after the time that was fired
      unfold ScheduleRow.next at hnext
      split at hnext
      · cases hnext
      · simp only [bind_eq_ok] at hnext
        obtain ⟨t', ht', hret⟩ := hnext
        obtain rfl := Option.some.inj (Except.ok.inj hret)
        exact nextScheduleTime_least ht'
  length := h.length
  old := h.old
  keys := h.keys

/-- A tick fires the schedule's times in order, whatever else it does, and wherever it ends. -/
theorem Tracks.tick (h : Tracks id schedule since base times w) (host : TickHost) (now : ℚ) :
    ∃ times', Tracks id schedule since base times' (w.tick Q host now) := by
  refine tickRows_keeps (K := fun w => ∃ times, Tracks id schedule since base times w)
    (P := fun _ => True) ?_ (fun _ _ => trivial) (current_due w now) ⟨times, h⟩
  rintro w r j jobs ⟨times, h⟩ - hr henq
  by_cases hid : r.id = id
  · subst hid
    obtain ⟨times', hmem, h'⟩ := h.enqueue hr henq
    exact ⟨⟨times', h'⟩, fun next hnext => ⟨times', h'.move hr hmem hnext⟩⟩
  · have hother : ∃ new, jobs.identities = w.jobs.identities ++ new ∧ keysOf id new = [] := by
      rcases enqueueRow_ok henq with ⟨rfl, -⟩ | ⟨new, hkey, hrows, -⟩
      · exact ⟨[], (List.append_nil _).symm, rfl⟩
      · refine ⟨_, identities_append hrows, keysOf_eq_nil fun t heq => ?_⟩
        exact hid (scheduleKey_inj (Option.some.inj (hkey.symm.trans heq))).1
    obtain ⟨new, hjobs, hnew⟩ := hother
    refine ⟨⟨times, h.other rfl hjobs hnew⟩, fun next _ => ⟨times, h.other ?_ hjobs hnew⟩⟩
    exact find?_move_of_ne (Ne.symm hid)

end Tracks

/-! ### Prefixes in every run -/

/-- Every key of a schedule is for a moment that has come. -/
def Come (c : ℚ) (w : World) : Prop :=
  ∀ job ∈ w.jobs.identities, ∀ id t, job.idempotencyKey = some (scheduleKey id t) → (t : ℚ) ≤ c

theorem Come.tick {c : ℚ} (h : Come c w) (hnow : now ≤ c) : Come c (w.tick Q host now) := by
  refine tickRows_keeps (P := fun r => (r.nextFire : ℚ) ≤ c) ?_ (fun r hr => ?_)
    (current_due w now) h
  · intro w r j jobs h hr _ henq
    have hjobs : Come c { w with jobs } := by
      rcases enqueueRow_ok henq with ⟨rfl, -⟩ | ⟨new, hkey, hrows, -⟩
      · exact h
      · intro job hjob id t heq
        rw [identities_append hrows] at hjob
        rcases List.mem_append.mp hjob with hjob | hjob
        · exact h job hjob id t heq
        · obtain rfl := List.mem_singleton.mp hjob
          rw [← (scheduleKey_inj (Option.some.inj (hkey.symm.trans heq))).2]
          exact hr
    exact ⟨hjobs, fun _ _ => hjobs⟩
  · have hdue := (List.mem_filter.mp hr).2
    simp only [Bool.and_eq_true, decide_eq_true_eq] at hdue
    exact hdue.2.trans hnow

/-- What a call of someone else appends is for no schedule. -/
theorem queue_identities (Q : JobQueue) (call : QueueCall) (ans : Answers) (s : JobStore) :
    ∃ new, ((machine Q).handle call.op s (ans call.op)).2.identities = s.identities ++ new ∧
      ∀ job ∈ new, ∀ id t, job.idempotencyKey ≠ some (scheduleKey id t) := by
  obtain ⟨o, hforeign⟩ := call
  by_cases ho : ∃ row, o = .insertJob row
  · obtain ⟨row, rfl⟩ := ho
    -- an insertion adds one row at most, and not under a key of a schedule
    have hinsert : ∀ failure : Option String, ∃ new,
        (transaction s failure (s.insertJob row)).2.identities = s.identities ++ new ∧
          ∀ job ∈ new, ∀ id t, job.idempotencyKey ≠ some (scheduleKey id t) := by
      intro failure
      cases failure with
      | some e => exact ⟨[], (List.append_nil _).symm, by simp⟩
      | none =>
        rw [transaction]
        rcases insertJob_cases s row with ⟨old, -, -, ⟨-, -, heq⟩ | ⟨-, heq⟩⟩ |
          ⟨-, ⟨jobs, hins, heq⟩ | ⟨-, heq⟩⟩
        · exact ⟨[], by rw [heq, List.append_nil], by simp⟩
        · exact ⟨[], by rw [heq, List.append_nil], by simp⟩
        · refine ⟨[row.identity], by rw [heq, identities_of_insert? hins], fun job hjob => ?_⟩
          rw [List.mem_singleton.mp hjob]
          exact hforeign row rfl
        · exact ⟨[], by rw [heq, List.append_nil], by simp⟩
    exact hinsert (insertFailure ans row)
  · refine ⟨[], ?_, by simp⟩
    rw [List.append_nil]
    exact handle_identities Q (ans o) fun row h => ho ⟨row, h⟩

theorem Come.apply {c : ℚ} (h : Come c w) {ev : SchedulerEvent} (hev : ∀ now ∈ ev.now?, now ≤ c) :
    Come c (w.apply Q ev) := by
  cases ev with
  | upsert id type payload schedule now =>
    dsimp only [World.apply]
    split <;> exact h
  | tick host now => exact h.tick (hev now rfl)
  | queue call ans =>
    obtain ⟨new, hjobs, hnew⟩ := queue_identities Q call ans w.jobs
    intro job hjob id t heq
    rw [World.apply, hjobs] at hjob
    rcases List.mem_append.mp hjob with hjob | hjob
    · exact h job hjob id t heq
    · exact absurd heq (hnew job hjob id t)

/-- The event puts another version in the place of the schedule. -/
def SchedulerEvent.Replaces (id : String) : SchedulerEvent → Prop
  | .upsert id' type payload schedule now =>
    id' = id ∧ ∃ row, upsertRow id' type payload schedule now = .ok row
  | _ => False

theorem upsertRow_ok {type : String} {payload : JsValue} {row : ScheduleRow}
    (h : upsertRow id type payload schedule now = .ok row) :
    row.id = id ∧ row.schedule = schedule ∧ ∃ since : Nat, now = since ∧
      schedule.FirstAfter since row.nextFire := by
  simp only [upsertRow, bind_eq_ok] at h
  obtain ⟨next, hnext, payload', -, hret⟩ := h
  obtain rfl := Except.ok.inj hret
  refine ⟨rfl, rfl, ?_⟩
  obtain ⟨since, hsince⟩ : ∃ since, safeTime? (.finite now) = some since := by
    simp only [nextScheduleTime, bind_eq_ok, orThrow_eq_ok] at hnext
    obtain ⟨since, hsince, -⟩ := hnext
    exact ⟨since, hsince⟩
  have hnow : now = since := by simpa [JsNumber.ofInt] using safeTime?_eq_some hsince
  subst hnow
  exact ⟨since, rfl, nextScheduleTime_least (by simpa [JsNumber.ofInt] using hnext)⟩

theorem Tracks.apply {since base : Nat} {times : List Nat}
    (h : Tracks id schedule since base times w) {ev : SchedulerEvent} (hev : ¬ev.Replaces id) :
    ∃ times', Tracks id schedule since base times' (w.apply Q ev) := by
  cases ev with
  | upsert id' type payload schedule' now =>
    refine ⟨times, ?_⟩
    dsimp only [World.apply]
    split
    · rename_i row hrow
      -- another schedule is replaced
      have hne : row.id ≠ id := by
        rw [(upsertRow_ok hrow).1]
        rintro rfl
        exact hev ⟨rfl, row, hrow⟩
      exact h.other (by rw [Table.find?_replace, if_neg hne]) (List.append_nil _).symm rfl
    · exact h
  | tick host now => exact h.tick host now
  | queue call ans =>
    obtain ⟨new, hjobs, hnew⟩ := queue_identities Q call ans w.jobs
    refine ⟨times, h.other rfl hjobs ?_⟩
    -- no job of another caller has a key of this schedule
    rw [List.eq_nil_iff_forall_not_mem]
    intro key hkey
    have hkey' := (List.mem_filter.mp hkey).2
    simp only [decide_eq_true_eq] at hkey'
    obtain ⟨t, rfl⟩ := hkey'
    obtain ⟨job, hjob, heq⟩ := mem_keysOf.mp hkey
    exact hnew job hjob id t heq

/-- Between an upsert of a schedule and the next one, the jobs that are enqueued for it are those
of its first occurrences, each once and in order. -/
def FiresPrefix (Q : JobQueue) (es : List SchedulerEvent) : Prop :=
  ∀ before id type payload schedule now row after,
    es = before ++ .upsert id type payload schedule now :: after →
    upsertRow id type payload schedule now = .ok row → (∀ ev ∈ after, ¬ev.Replaces id) →
    ∃ (since : Nat) (times : List Nat), now = since ∧ FirstOccurrences schedule since times ∧
      keysOf id ((run (World.apply Q) .start es).jobs.identities.drop
        (run (World.apply Q) .start before).jobs.identities.length) = times.map (scheduleKey id)

/-- Schedules fire their first occurrences in every run with a clock that does not go back. -/
theorem firesPrefix (Q : JobQueue) {es : List SchedulerEvent} (hclock : Clocked es) :
    FiresPrefix Q es := by
  rintro before id type payload schedule now row after rfl hrow hafter
  obtain ⟨hid, hschedule, since, rfl, hfirst⟩ := upsertRow_ok hrow
  -- the keys there are, are for moments before the upsert
  have hcome : Come since (run (World.apply Q) .start before) := by
    rw [Clocked, List.filterMap_append, List.pairwise_append] at hclock
    have hbefore : Meets (World.apply Q)
        (fun _ ev => ∀ now ∈ ev.now?, now ≤ (since : ℚ)) .start before := by
      refine meets_of_mem fun ev hev now hnow => ?_
      exact hclock.2.2 now (List.mem_filterMap.mpr ⟨ev, hev, hnow⟩) since
        (List.mem_filterMap.mpr ⟨_, List.mem_cons_self, rfl⟩)
    refine run_induction (fun w ev h hev => h.apply hev) hbefore ?_
    simp [Come, World.start, JobStore.empty, JobStore.identities, Table.empty]
  have hstart : Tracks id schedule since (run (World.apply Q) .start before).jobs.identities.length
      [] ((run (World.apply Q) .start before).apply Q (.upsert id type payload schedule since)) := by
    rw [World.apply, hrow]
    refine ⟨⟨row, ?_, hschedule, ?_⟩, le_rfl, fun t ht => ?_, ?_⟩
    · rw [Table.find?_replace, if_pos hid]
    · exact ⟨.nil, by simp, by simp, fun t hlt hoccurs => absurd hoccurs (hfirst.least t hlt),
        hfirst.occurs⟩
    · rw [List.take_length] at ht
      obtain ⟨job, hjob, hkey⟩ := mem_keysOf.mp ht
      exact_mod_cast hcome job hjob id t hkey
    · simp [keysOf]
  have hend : ∃ times, Tracks id schedule since
      (run (World.apply Q) .start before).jobs.identities.length times
      (run (World.apply Q) .start (before ++ .upsert id type payload schedule since :: after)) := by
    rw [run_append, run_cons]
    refine run_induction (P := fun w => ∃ times, Tracks id schedule since _ times w)
      (fun w ev h hev => ?_) (meets_of_mem hafter) ⟨[], hstart⟩
    obtain ⟨times, h⟩ := h
    exact h.apply hev
  obtain ⟨times, htracks⟩ := hend
  obtain ⟨row', -, -, hfired⟩ := htracks.row
  exact ⟨since, times, rfl, hfired.first, htracks.keys⟩

/-! ### Schedules that fail -/

/-- The row throws when its turn comes: its job cannot be enqueued, or it has no next time. -/
def fails (Q : JobQueue) (host : TickHost) (s : JobStore) (r : ScheduleRow) : Bool :=
  !(enqueueRow Q host r s).1.isOk || !r.next.isOk

/-- The row's job is there, and the row has moved on. -/
structure FiredAndMoved (r : ScheduleRow) (w : World) : Prop where
  job : ∃ job ∈ w.jobs.identities, job.idempotencyKey = some r.key
  moved : ∃ next, r.next = .ok next ∧ w.schedules.find? r.id = some (r.moveTo next)

/-- The tick fires and moves every schedule that is due and does not fail. -/
def TickFires (Q : JobQueue) (host : TickHost) (now : ℚ) (w : World) : Prop :=
  ∀ r ∈ w.due now, fails Q host w.jobs r = false → FiredAndMoved r (w.tick Q host now)

theorem eq_ok_of_isOk {α : Type} {x : Except String α} (h : x.isOk = true) : ∃ a, x = .ok a := by
  cases x with
  | ok a => exact ⟨a, rfl⟩
  | error e => cases h

/-- A row that is enabled does not stay as it is when it moves. -/
theorem moveTo_ne {next : Option Nat} (henabled : r.enabled = true) (hnext : r.next = .ok next) :
    r.moveTo next ≠ r := by
  intro heq
  cases next with
  | none =>
    have hdisabled := congrArg ScheduleRow.enabled heq
    rw [henabled] at hdisabled
    cases hdisabled
  | some t =>
    have htime : t = r.nextFire := congrArg ScheduleRow.nextFire heq
    unfold ScheduleRow.next at hnext
    split at hnext
    · cases hnext
    · simp only [bind_eq_ok] at hnext
      obtain ⟨t', ht', hret⟩ := hnext
      obtain rfl := Option.some.inj (Except.ok.inj hret)
      have := (nextScheduleTime_least ht').occurs.lt
      omega

/-- The rest of a loop takes no job away, and leaves other rows as they are. -/
theorem FiredAndMoved.rest (h : FiredAndMoved r w) {rs : List ScheduleRow} {left : Option Nat}
    (hcurrent : Current w rs) (hnot : r.id ∉ rs.map ScheduleRow.id) :
    FiredAndMoved r (w.tickRows Q host rs left) := by
  refine tickRows_keeps (K := FiredAndMoved r) (P := fun r' => r'.id ≠ r.id) ?_
    (fun r' hr' heq => hnot (heq ▸ List.mem_map_of_mem hr')) hcurrent h
  intro w r' j jobs h hne _ henq
  have hjob : ∃ job ∈ jobs.identities, job.idempotencyKey = some r.key := by
    obtain ⟨job, hjob, hkey⟩ := h.job
    rcases enqueueRow_ok henq with ⟨rfl, -⟩ | ⟨new, -, hrows, -⟩
    · exact ⟨job, hjob, hkey⟩
    · exact ⟨job, by rw [identities_append hrows]; exact List.mem_append_left _ hjob, hkey⟩
  refine ⟨⟨hjob, h.moved⟩, fun next _ => ⟨hjob, ?_⟩⟩
  obtain ⟨next', hnext', hmoved⟩ := h.moved
  exact ⟨next', hnext', by rw [find?_move_of_ne (Ne.symm hne)]; exact hmoved⟩

/-- The jobs that were enqueued in this tick make no difference to the rows to come. -/
def Apart (host : TickHost) (s : JobStore) (rs : List ScheduleRow) (w : World) : Prop :=
  ∃ new, w.jobs.jobs.rows = s.jobs.rows ++ new ∧ ∀ job ∈ new, ∀ r ∈ rs,
    job.id ≠ (host.answers r.id).uuid ∧ job.idempotencyKey ≠ some r.key

theorem Apart.isOk {s : JobStore} {rs : List ScheduleRow} (h : Apart host s rs w)
    (hr : r ∈ rs) : (enqueueRow Q host r w.jobs).1.isOk = (enqueueRow Q host r s).1.isOk := by
  obtain ⟨new, hrows, hnew⟩ := h
  exact isOk_enqueueNow_append hrows fun job hjob => hnew job hjob r hr

/-- The turn of a row that does not fail. -/
theorem tickRows_cons_of_not_fails {s : JobStore} {rs : List ScheduleRow}
    (hcurrent : Current w (r :: rs)) (hapart : Apart host s (r :: rs) w)
    (hr : fails Q host s r = false) :
    ∃ jobs next, r.next = .ok next ∧
      w.tickRows Q host (r :: rs) none =
        (World.move { w with jobs } r.id next).tickRows Q host rs none ∧
      FiredAndMoved r (World.move { w with jobs } r.id next) ∧
      Apart host s rs (World.move { w with jobs } r.id next) := by
  simp only [fails, Bool.or_eq_false_iff, Bool.not_eq_false'] at hr
  rw [← hapart.isOk (Q := Q) List.mem_cons_self] at hr
  obtain ⟨j, hj⟩ := eq_ok_of_isOk hr.1
  obtain ⟨next, hnext⟩ := eq_ok_of_isOk hr.2
  have henq : enqueueRow Q host r w.jobs = (.ok j, (enqueueRow Q host r w.jobs).2) :=
    Prod.ext hj rfl
  refine ⟨(enqueueRow Q host r w.jobs).2, next, hnext, ?_, ⟨?_, next, hnext, ?_⟩, ?_⟩
  · rw [World.tickRows, if_neg (by simp)]
    rw [henq]
    simp only [reduceCtorEq, if_false, hnext, Option.map_none]
  · rcases enqueueRow_ok henq with ⟨heq, old, hold, hkey⟩ | ⟨row, hkey, hrows, -⟩
    · exact ⟨old, by rw [World.move, heq]; exact hold, hkey⟩
    · refine ⟨row.identity, ?_, hkey⟩
      rw [World.move, identities_append hrows]
      exact List.mem_append_right _ (List.mem_singleton.mpr rfl)
  · exact find?_move_self (hcurrent.2 r List.mem_cons_self)
  · -- the job that is new is apart from what the later rows enqueue
    obtain ⟨new, hnew, hother⟩ := hapart
    have hold : ∀ job ∈ new, ∀ r' ∈ rs,
        job.id ≠ (host.answers r'.id).uuid ∧ job.idempotencyKey ≠ some r'.key :=
      fun job hjob r' hr' => hother job hjob r' (List.mem_cons_of_mem r hr')
    rcases enqueueRow_ok henq with ⟨heq, -⟩ | ⟨row, hkey, hrows, -, hid⟩
    · exact ⟨new, by rw [World.move, heq]; exact hnew, hold⟩
    · refine ⟨new ++ [row], by rw [World.move, hrows, hnew, List.append_assoc], ?_⟩
      intro job hjob r' hr'
      rcases List.mem_append.mp hjob with hjob | hjob
      · exact hold job hjob r' hr'
      · obtain rfl := List.mem_singleton.mp hjob
        have hne : r.id ≠ r'.id := fun heq =>
          (List.nodup_cons.mp hcurrent.1).1 (heq ▸ List.mem_map_of_mem hr')
        refine ⟨fun heq => hne (host.fresh (hid.symm.trans heq)), fun heq => hne ?_⟩
        exact (scheduleKey_inj (Option.some.inj (hkey.symm.trans heq))).1

/-- The turn of a row that fails ends the loop, with the schedules as they are. -/
theorem tickRows_cons_of_fails {s : JobStore} {rs : List ScheduleRow}
    (hapart : Apart host s (r :: rs) w) (hr : fails Q host s r = true) :
    (w.tickRows Q host (r :: rs) none).schedules = w.schedules := by
  simp only [fails, Bool.or_eq_true, Bool.not_eq_true'] at hr
  rw [← hapart.isOk (Q := Q) List.mem_cons_self] at hr
  rw [World.tickRows, if_neg (by simp)]
  split
  · rfl
  · rename_i j jobs henq
    rw [if_neg (by simp)]
    split
    · rfl
    · rename_i next hnext
      rw [henq, hnext] at hr
      rcases hr with hr | hr <;> cases hr

/-- A loop fires and moves the rows that do not fail exactly if none of them comes after one that
does. -/
theorem tickRows_fires_iff {s : JobStore} {rs : List ScheduleRow} (hcurrent : Current w rs)
    (henabled : ∀ r ∈ rs, r.enabled = true) (hapart : Apart host s rs w) :
    (∀ r ∈ rs, fails Q host s r = false → FiredAndMoved r (w.tickRows Q host rs none)) ↔
      rs.Pairwise fun r' r => fails Q host s r' = true → fails Q host s r = true := by
  induction rs generalizing w with
  | nil => simp
  | cons r rs ih =>
    have henabled' : ∀ r' ∈ rs, r'.enabled = true := fun r' hr' =>
      henabled r' (List.mem_cons_of_mem r hr')
    rw [List.pairwise_cons]
    cases hr : fails Q host s r with
    | false =>
      obtain ⟨jobs, next, hnext, heq, hfired, hapart'⟩ :=
        tickRows_cons_of_not_fails hcurrent hapart hr
      rw [heq, ← ih hcurrent.tail henabled' hapart']
      constructor
      · intro h
        exact ⟨fun _ _ htrue => Bool.noConfusion htrue,
          fun r' hr' => h r' (List.mem_cons_of_mem r hr')⟩
      · rintro ⟨-, h⟩ r' hr' hnot
        rcases List.mem_cons.mp hr' with rfl | hr'
        · exact hfired.rest hcurrent.tail (List.nodup_cons.mp hcurrent.1).1
        · exact h r' hr' hnot
    | true =>
      constructor
      · intro h
        -- the loop has ended, so no row after this one has moved
        have hrest : ∀ r' ∈ rs, fails Q host s r' = true := by
          intro r' hr'
          by_contra hnot
          obtain ⟨next, hnext, hmoved⟩ :=
            (h r' (List.mem_cons_of_mem r hr') (Bool.not_eq_true _ ▸ hnot)).moved
          rw [tickRows_cons_of_fails hapart hr,
            hcurrent.2 r' (List.mem_cons_of_mem r hr')] at hmoved
          exact moveTo_ne (henabled' r' hr') hnext (Option.some.inj hmoved).symm
        exact ⟨fun r' hr' _ => hrest r' hr',
          List.pairwise_of_forall_mem_list fun _ _ r' hr' _ => hrest r' hr'⟩
      · rintro ⟨h, -⟩ r' hr' hnot
        rcases List.mem_cons.mp hr' with rfl | hr'
        · rw [hr] at hnot
          cases hnot
        · rw [h r' hr' rfl] at hnot
          cases hnot

/-! ### Every run -/

/-- Every tick that the process survives fires and moves the schedules that are due. -/
def TicksFire (Q : JobQueue) (es : List SchedulerEvent) : Prop :=
  ∀ before host now after, es = before ++ .tick host now :: after → host.crash = none →
    TickFires Q host now (run (World.apply Q) .start before)

/-- No schedule that fails is due before one that does not. -/
def Unblocked (Q : JobQueue) (w : World) : SchedulerEvent → Prop
  | .tick host now => host.crash = none → (w.due now).Pairwise fun r' r =>
      fails Q host w.jobs r' = true → fails Q host w.jobs r = true
  | _ => True

instance (Q : JobQueue) (w : World) (ev : SchedulerEvent) : Decidable (Unblocked Q w ev) := by
  cases ev <;> unfold Unblocked <;> infer_instance

theorem tickFires_iff (hcrash : host.crash = none) : TickFires Q host now w ↔
    (w.due now).Pairwise fun r' r =>
      fails Q host w.jobs r' = true → fails Q host w.jobs r = true := by
  unfold TickFires World.tick
  rw [hcrash]
  refine tickRows_fires_iff (current_due w now) (fun r hr => ?_)
    ⟨[], (List.append_nil _).symm, by simp⟩
  have hdue := (List.mem_filter.mp hr).2
  simp only [Bool.and_eq_true] at hdue
  exact hdue.1

/-- **Schedules fire once for each occurrence** in a run whose clock does not go back, and every
tick advances what is due, exactly if no tick finds a schedule that fails due before one that
does not. -/
theorem scheduler_fires_iff (Q : JobQueue) {es : List SchedulerEvent} (hclock : Clocked es) :
    FiresPrefix Q es ∧ TicksFire Q es ↔ Meets (World.apply Q) (Unblocked Q) .start es := by
  rw [meets_iff_forall_split]
  constructor
  · rintro ⟨-, h⟩ before ev after heq
    cases ev with
    | upsert | queue => trivial
    | tick host now =>
      exact fun hcrash => (tickFires_iff hcrash).mp (h before host now after heq hcrash)
  · intro h
    refine ⟨firesPrefix Q hclock, fun before host now after heq hcrash => ?_⟩
    exact (tickFires_iff hcrash).mpr (h before _ after heq hcrash)

/-! ### Two schedules -/

/-- A queue that knows one type of jobs. -/
def oneType : JobQueue where
  schemas type := if type = "known" then some fun _ => .ok "null" else none
  retryDelay _ _ _ _ := .ofInt 0

/-- Ids are drawn afresh for each schedule, and nothing fails. -/
def sampleTick (now : Int) : TickHost where
  answers id
    | .now => JsNumber.ofInt now
    | .randomUUID => id
    | .fail _ _ _ => ((none : Option String), JsNumber.ofInt 0)
    | .get _ | .insertJob _ | .claim _ _ _ | .heartbeat _ _ _ | .complete _ _ _ | .cancel _ _ =>
      (none : Option String)
  fresh := fun _ _ h => h
  crash := none

/-- Two schedules with an interval of ten, and a tick at ten. -/
def twoSchedules (type : String) : List SchedulerEvent :=
  [.upsert "a" type .null (.everyMs (.ofInt 10)) 0,
    .upsert "b" "known" .null (.everyMs (.ofInt 10)) 0, .tick (sampleTick 10) 10]

theorem clocked_twoSchedules (type : String) : Clocked (twoSchedules type) := by
  simp only [Clocked, twoSchedules, List.filterMap_cons, SchedulerEvent.now?, List.filterMap_nil]
  decide

theorem scheduler_fires_two :
    FiresPrefix oneType (twoSchedules "known") ∧ TicksFire oneType (twoSchedules "known") :=
  (scheduler_fires_iff oneType (clocked_twoSchedules "known")).mpr (by decide)

/-- The type of the first schedule is not registered: no job is enqueued for the second one. -/
theorem schedule_blocked : ¬∀ (Q : JobQueue) (es : List SchedulerEvent), Clocked es →
    FiresPrefix Q es ∧ TicksFire Q es := by
  intro h
  have hfires := (h oneType (twoSchedules "unknown") (clocked_twoSchedules "unknown")).2
    ((twoSchedules "unknown").take 2) (sampleTick 10) 10 [] rfl rfl
  have hdue : ((run (World.apply oneType) .start ((twoSchedules "unknown").take 2)).due 10).map
      (fails oneType (sampleTick 10)
        (run (World.apply oneType) .start ((twoSchedules "unknown").take 2)).jobs) =
          [true, false] := by
    decide
  have hjobs : (run (World.apply oneType) .start (twoSchedules "unknown")).jobs.identities = [] := by
    decide
  have hfalse : false ∈ [true, false] := by simp
  rw [← hdue] at hfalse
  obtain ⟨r, hr, hnot⟩ := List.mem_map.mp hfalse
  obtain ⟨job, hjob, -⟩ := (hfires r hr hnot).job
  have hnone : job ∈ (run (World.apply oneType) .start (twoSchedules "unknown")).jobs.identities :=
    hjob
  rw [hjobs] at hnone
  cases hnone

end AriOs.Autonomy.Jobs
