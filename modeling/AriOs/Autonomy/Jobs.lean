import AriOs.Async.Pool
import AriOs.Js.Throw
import AriOs.Js.Value
import AriOs.Storage.Table

/-!
# The job queue

Jobs and their attempts live in two tables of one database. Workers, any number of them in any
number of processes, enqueue jobs, claim one for the time of a lease, extend the lease, and
report how the attempt ended; each of these is one transaction. Only `complete` reads the job
once before it opens its own.

Claiming first recovers every job whose lease has run out: a loop that closes one attempt at a
time until it finds no expired lease. The loop has no bound in the source. Here it is given
one step for each job and one more, and `none` stands for not having ended by then.
-/

namespace AriOs.Autonomy.Jobs

open AriOs.Async AriOs.Js AriOs.Storage

/-! ### Tables -/

inductive JobStatus where
  | scheduled | queued | running | succeeded | failed | cancelled | deadLetter
  deriving DecidableEq, Repr

/-- A job has ended. -/
def JobStatus.Ended (s : JobStatus) : Prop :=
  s = .succeeded ∨ s = .failed ∨ s = .cancelled ∨ s = .deadLetter

instance (s : JobStatus) : Decidable s.Ended := by unfold JobStatus.Ended; infer_instance

/-- A job is waiting to be claimed. -/
def JobStatus.Waiting (s : JobStatus) : Prop := s = .queued ∨ s = .scheduled

instance (s : JobStatus) : Decidable s.Waiting := by unfold JobStatus.Waiting; infer_instance

/-- A row of `jobs`. -/
structure Job where
  id : String
  type : String
  payloadJson : String
  status : JobStatus
  scheduledAt : Int
  attemptCount : Nat := 0
  maxAttempts : Nat
  idempotencyKey : Option String
  backoffMs : Int
  jitter : JsNumber
  workerId : Option String := none
  fencingToken : Nat := 0
  leaseExpiresAt : Option Int := none
  cancelRequested : Bool := false
  resultRef : Option String := none
  error : Option String := none
  createdAt : Int
  updatedAt : Int
  deriving DecidableEq

inductive Outcome where
  | succeeded | failed | cancelled
  deriving DecidableEq, Repr

/-- A row of `job_attempts`. -/
structure Attempt where
  jobId : String
  number : Nat
  workerId : String
  fencingToken : Nat
  startedAt : Int
  finishedAt : Option Int := none
  outcome : Option Outcome := none
  error : Option String := none
  resultRef : Option String := none
  deriving DecidableEq, Repr

/-- `UNIQUE(job_id,number)`. -/
def Attempt.key (a : Attempt) : String × Nat := (a.jobId, a.number)

/-- What a worker is handed for the time of its lease. -/
structure Lease where
  job : Job
  workerId : String
  fencingToken : Nat
  leaseExpiresAt : Int
  deriving DecidableEq

structure JobStore where
  jobs : Table Job.id
  attempts : Table Attempt.key

def JobStore.empty : JobStore := ⟨.empty, .empty⟩

namespace JobStore

variable (s : JobStore)

/-- `UPDATE jobs SET f WHERE id=?`. -/
def updateJob (id : String) (f : Job → Job) (hf : ∀ j, (f j).id = j.id) : JobStore :=
  { s with jobs := s.jobs.update (fun j => j.id = id) f hf }

/-- An attempt that is still open, under a fencing token. -/
def isOpen (id : String) (token : Nat) (a : Attempt) : Bool :=
  a.jobId = id && a.fencingToken = token && a.finishedAt.isNone

/-- `UPDATE job_attempts SET f WHERE job_id=? AND fencing_token=? AND finished_at IS NULL`. -/
def closeAttempt (id : String) (token : Nat) (f : Attempt → Attempt)
    (hf : ∀ a, (f a).key = a.key) : JobStore :=
  { s with attempts := s.attempts.update (isOpen id token) f hf }

/-! #### Enqueue -/

/-- The transaction of `enqueue`. A key that is there wins over the new row, an id that is
there throws. -/
def insertJob (row : Job) : Except String Job × JobStore :=
  match row.idempotencyKey.bind fun key => s.jobs.rows.find? fun j => j.idempotencyKey = some key
    with
  | some old =>
    if old.type ≠ row.type ∨ old.payloadJson ≠ row.payloadJson then
      (.error "Idempotency key conflict", s)
    else (.ok old, s)
  | none =>
    match s.jobs.insert? row with
    | some jobs => (.ok row, { s with jobs })
    | none => (.error "UNIQUE constraint failed: jobs.id", s)

/-! #### Claim -/

/-- `ORDER BY scheduled_at,created_at`. -/
def sooner (a b : Job) : Prop :=
  a.scheduledAt < b.scheduledAt ∨ (a.scheduledAt = b.scheduledAt ∧ a.createdAt ≤ b.createdAt)

instance (a b : Job) : Decidable (sooner a b) := by unfold sooner; infer_instance

/-- `SELECT .. WHERE p ORDER BY scheduled_at,created_at LIMIT 1`. -/
def first (p : Job → Bool) : Option Job := ((s.jobs.rows.filter p).insertionSort sooner).head?

/-- The lease of a running job has run out. -/
def leaseExpired (now : Int) (j : Job) : Bool :=
  j.status = .running && j.leaseExpiresAt.any fun t => t ≤ now

/-- What becomes of a job whose lease has run out. -/
def recoveredStatus (j : Job) : JobStatus :=
  if j.cancelRequested then .cancelled
  else if j.maxAttempts ≤ j.attemptCount then .deadLetter
  else .queued

/-- One round of the recovery loop, on an expired job. -/
def recoverJob (now : Int) (j : Job) : Except String JobStore :=
  let outcome : Outcome := if j.cancelRequested then .cancelled else .failed
  let error : Option String := if j.cancelRequested then none else some "Lease expired"
  if s.attempts.count (isOpen j.id j.fencingToken) ≠ 1 then
    .error "Expired attempt missing or already finalized"
  else
    let s' := s.closeAttempt j.id j.fencingToken
      (fun a => { a with finishedAt := some now, outcome := some outcome, error }) fun _ => rfl
    if s'.jobs.count (fun k => k.id = j.id ∧ k.status = .running ∧
        k.fencingToken = j.fencingToken) ≠ 1 then
      .error "Lease recovery fencing conflict"
    else .ok (s'.updateJob j.id (fun k => { k with
      status := recoveredStatus j, workerId := none, leaseExpiresAt := none, error
      updatedAt := now }) fun _ => rfl)

/-- `for (;;) { .. if (!expired) break; .. }`. -/
def recoverExpired (now : Int) : Nat → JobStore → Option (Except String JobStore)
  | 0, _ => none
  | n + 1, s =>
    match s.first (leaseExpired now) with
    | none => some (.ok s)
    | some j =>
      match s.recoverJob now j with
      | .error e => some (.error e)
      | .ok s' => recoverExpired now n s'

/-- A job that may be claimed. -/
def claimable (now : Int) (j : Job) : Bool :=
  !j.cancelRequested && decide j.status.Waiting && decide (j.scheduledAt ≤ now) &&
    decide (j.attemptCount < j.maxAttempts)

/-- A job as it is once it was claimed. -/
def claimedJob (workerId : String) (leaseMs now : Int) (j : Job) : Job :=
  { j with status := .running, workerId := some workerId, fencingToken := j.fencingToken + 1
           leaseExpiresAt := some (now + leaseMs), attemptCount := j.attemptCount + 1
           updatedAt := now }

/-- The second half of the transaction of `claim`. -/
def claimNext (workerId : String) (leaseMs now : Int) : Except String (Option Lease) × JobStore :=
  match s.first (claimable now) with
  | none => (.ok none, s)
  | some j =>
    let row := claimedJob workerId leaseMs now j
    if s.jobs.count (fun k => k.id = j.id ∧ k.status.Waiting ∧ k.scheduledAt ≤ now ∧
        k.attemptCount < k.maxAttempts) ≠ 1 then (.error "Claim fencing conflict", s)
    else match s.attempts.insert?
        { jobId := j.id, number := row.attemptCount, workerId, fencingToken := row.fencingToken
          startedAt := now } with
      | none => (.error "UNIQUE constraint failed: job_attempts.job_id, job_attempts.number", s)
      | some attempts =>
        (.ok (some ⟨row, workerId, row.fencingToken, now + leaseMs⟩),
          { s.updateJob j.id (claimedJob workerId leaseMs now) (fun _ => rfl) with attempts })

/-- The transaction of `claim`: recover, then claim. What throws is rolled back. -/
def claim (workerId : String) (leaseMs now : Int) : Except String (Option Lease) × JobStore :=
  match recoverExpired now (s.jobs.rows.length + 1) s with
  | none => (.error "recovery does not end", s)
  | some (.error e) => (.error e, s)
  | some (.ok s') =>
    match s'.claimNext workerId leaseMs now with
    | (.ok lease, s'') => (.ok lease, s'')
    | (.error e, _) => (.error e, s)

/-! #### Reports of a worker -/

/-- The job is running under this lease, and the lease has not run out. -/
def holds (l : Lease) (now : Int) (j : Job) : Bool :=
  j.id = l.job.id && j.status = .running && j.workerId = some l.workerId &&
    j.fencingToken = l.fencingToken && j.leaseExpiresAt.any fun t => now < t

/-- The job a worker holds. -/
def held (l : Lease) (now : Int) : Option Job := (s.jobs.find? l.job.id).filter (holds l now)

/-- `heartbeat`. -/
def heartbeat (l : Lease) (leaseMs now : Int) : Bool × JobStore :=
  match s.held l now with
  | some j =>
    if j.cancelRequested then (false, s)
    else (true, s.updateJob l.job.id
      (fun k => { k with leaseExpiresAt := some (now + leaseMs), updatedAt := now }) fun _ => rfl)
  | none => (false, s)

/-- An attempt ends and the job leaves `running`, or nothing happens at all. -/
def finish (l : Lease) (f : Job → Job) (hf : ∀ j, (f j).id = j.id) (g : Attempt → Attempt)
    (hg : ∀ a, (g a).key = a.key) (answer : Bool) : Except String Bool × JobStore :=
  if s.attempts.count (isOpen l.job.id l.fencingToken) ≠ 1 then
    (.error "Attempt finalization failed", s)
  else (.ok answer, (s.updateJob l.job.id f hf).closeAttempt l.job.id l.fencingToken g hg)

/-- The transaction of `complete`. -/
def complete (l : Lease) (resultRef : Option String) (now : Int) : Except String Bool × JobStore :=
  match s.held l now with
  | none => (.ok false, s)
  | some j =>
    let resultRef := if j.cancelRequested then none else resultRef
    s.finish l
      (fun k => { k with
        status := if j.cancelRequested then .cancelled else .succeeded
        resultRef, workerId := none, leaseExpiresAt := none, updatedAt := now }) (fun _ => rfl)
      (fun a => { a with
        finishedAt := some now
        outcome := some (if j.cancelRequested then .cancelled else .succeeded)
        resultRef }) (fun _ => rfl)
      (!j.cancelRequested)

/-- `Math.round`. -/
def round? : JsNumber → Option Int
  | .finite q => some (q + 1 / 2).floor
  | _ => none

/-- The status a job fails into, and when it is due again; `delay` is what the backoff comes
to. -/
def failedStatus (j : Job) (now : Int) (delay : JsNumber) : Except String (JobStatus × Int) :=
  if j.cancelRequested then .ok (.cancelled, now)
  else if j.maxAttempts ≤ j.attemptCount then .ok (.deadLetter, now)
  else match (round? delay).filter fun d => (JsNumber.ofInt (now + d)).isSafeInteger with
    | none => .error "Retry backoff overflow"
    | some d => .ok (.scheduled, now + d)

/-- The transaction of `fail`. -/
def fail (l : Lease) (error : String) (now : Int) (delay : Job → JsNumber) :
    Except String Bool × JobStore :=
  match s.held l now with
  | none => (.ok false, s)
  | some j =>
    match failedStatus j now (delay j) with
    | .error e => (.error e, s)
    | .ok (status, at_) =>
      s.finish l
        (fun k => { k with
          status, scheduledAt := at_, error := some error, workerId := none
          leaseExpiresAt := none, updatedAt := now }) (fun _ => rfl)
        (fun a => { a with
          finishedAt := some now
          outcome := some (if status = .cancelled then .cancelled else .failed)
          error := some error }) (fun _ => rfl)
        true

/-- The transaction of `cancel`. -/
def cancel (id : String) (now : Int) : Bool × JobStore :=
  match s.jobs.find? id with
  | none => (false, s)
  | some j =>
    if j.status.Ended then (false, s)
    else if j.status = .running then
      (true, s.updateJob id (fun k => { k with cancelRequested := true, updatedAt := now })
        fun _ => rfl)
    else
      (true, s.updateJob id (fun k => { k with
        status := .cancelled, cancelRequested := true, updatedAt := now }) fun _ => rfl)

end JobStore

/-! ### Calls -/

/-- What the queue calls. Each call but the first two is one statement or one transaction. -/
inductive Op where
  | now
  | randomUUID
  | get (id : String)
  | insertJob (row : Job)
  | claim (workerId : String) (leaseMs now : Int)
  | heartbeat (l : Lease) (leaseMs now : Int)
  | complete (l : Lease) (resultRef : Option String) (now : Int)
  | fail (l : Lease) (error : String) (now : Int)
  | cancel (id : String) (now : Int)

/-- What the environment contributes: for a transaction, whether it fails; for `fail`, a random
number as well. -/
def Op.Ans : Op → Type
  | now => JsNumber
  | randomUUID => String
  | fail _ _ _ => Option String × JsNumber
  | _ => Option String

/-- What the queue is handed. -/
def Op.Res : Op → Type
  | now => JsNumber
  | randomUUID => String
  | get _ => Except String (Option Job)
  | insertJob _ => Except String Job
  | claim _ _ _ => Except String (Option Lease)
  | heartbeat _ _ _ | complete _ _ _ | fail _ _ _ | cancel _ _ => Except String Bool

/-- The queue's calls. -/
def interface : Interface := ⟨Op, Op.Ans, Op.Res⟩

/-- How a queue was opened: the schemas of the job types, each of which reads a payload and
writes it as canonical JSON, and the host's arithmetic for
`backoff_ms * 2 ** (attempt_count - 1) * (1 + jitter * random)`. -/
structure JobQueue where
  schemas : String → Option (JsValue → Except String String)
  retryDelay : (backoffMs : Int) → (attemptCount : Nat) → (jitter random : JsNumber) → JsNumber

/-- A statement or transaction that may fail, and then changes nothing. -/
def transaction {β : Type} (s : JobStore) (failure : Option String)
    (out : Except String β × JobStore) : Except String β × JobStore :=
  match failure with
  | some e => (.error e, s)
  | none => out

/-- What each call does to the store. -/
def machine (Q : JobQueue) : Machine interface JobStore where
  handle
    | .now, s, a => (a, s)
    | .randomUUID, s, a => (a, s)
    | .get id, s, a => transaction s a (.ok (s.jobs.find? id), s)
    | .insertJob row, s, a => transaction s a (s.insertJob row)
    | .claim workerId leaseMs now, s, a => transaction s a (s.claim workerId leaseMs now)
    | .heartbeat l leaseMs now, s, a =>
      transaction s a (.ok (s.heartbeat l leaseMs now).1, (s.heartbeat l leaseMs now).2)
    | .complete l resultRef now, s, a => transaction s a (s.complete l resultRef now)
    | .fail l error now, s, a => transaction s a.1 (s.fail l error now fun j =>
        Q.retryDelay j.backoffMs j.attemptCount j.jitter a.2)
    | .cancel id now, s, a => transaction s a (.ok (s.cancel id now).1, (s.cancel id now).2)

/-- The queue's code, up to its throws. -/
abbrev Queue (α : Type) := Task interface String α

namespace Queue

def clock : Queue JsNumber := Task.total (I := interface) .now

def randomUUID : Queue String := Task.total (I := interface) .randomUUID

def getRaw (id : String) : Queue (Option Job) :=
  ExceptT.mk (Prog.ask (I := interface) (.get id))

def insertJob (row : Job) : Queue Job :=
  ExceptT.mk (Prog.ask (I := interface) (.insertJob row))

def claimTx (workerId : String) (leaseMs now : Int) : Queue (Option Lease) :=
  ExceptT.mk (Prog.ask (I := interface) (.claim workerId leaseMs now))

def heartbeatTx (l : Lease) (leaseMs now : Int) : Queue Bool :=
  ExceptT.mk (Prog.ask (I := interface) (.heartbeat l leaseMs now))

def completeTx (l : Lease) (resultRef : Option String) (now : Int) : Queue Bool :=
  ExceptT.mk (Prog.ask (I := interface) (.complete l resultRef now))

def failTx (l : Lease) (error : String) (now : Int) : Queue Bool :=
  ExceptT.mk (Prog.ask (I := interface) (.fail l error now))

def cancelTx (id : String) (now : Int) : Queue Bool :=
  ExceptT.mk (Prog.ask (I := interface) (.cancel id now))

/-- Code that makes no call. -/
def check {α : Type} (x : Except String α) : Queue α := Task.ofExcept x

end Queue

open Queue

/-! ### Operations -/

def MAX_TEXT : Nat := 1000000

/-- `validText`. -/
def validText (v name : String) (allowEmpty : Bool) : Except String Unit :=
  throwIf ((allowEmpty = false ∧ v = "") ∨ MAX_TEXT < textLength v)
    ("Invalid or too large " ++ name)

/-- `now()`: a safe integer that is not negative. -/
def now : Queue Int := do
  let x ← clock
  check (orThrow ((JsValue.number x).safeInteger?.filter fun i => 0 ≤ i)
    "Invalid clock timestamp")

structure EnqueueOptions where
  id : Option String := none
  idempotencyKey : Option String := none
  scheduledAt : Option JsNumber := none
  maxAttempts : Option JsNumber := none
  backoffMs : Option JsNumber := none
  jitter : Option JsNumber := none

/-- `Number.isSafeInteger(x) && x >= 0`. -/
def safeNatural? (x : JsNumber) : Option Int :=
  (JsValue.number x).safeInteger?.filter fun i => 0 ≤ i

/-- The options of `enqueue`, checked. -/
def retryOptions (o : EnqueueOptions) (now : Int) : Except String (Int × Nat × Int × JsNumber) := do
  let at_ ← orThrow (safeNatural? (o.scheduledAt.getD (.ofInt now))) "Invalid retry options"
  let max ← orThrow ((o.maxAttempts.getD (.ofInt 3)).toBigInt?.filter fun i => 1 ≤ i)
    "Invalid retry options"
  let back ← orThrow (safeNatural? (o.backoffMs.getD (.ofInt 1000))) "Invalid retry options"
  let jitter := o.jitter.getD (.ofInt 0)
  throwIf (jitter.isFinite = false ∨ jitter.lt (.ofInt 0) = true ∨
    (JsNumber.ofInt 1).lt jitter = true) "Invalid retry options"
  return (at_, max.toNat, back, jitter)

/-- `o.id ?? randomUUID()`. -/
def newId (id : Option String) : Queue String :=
  match id with
  | some id => return id
  | none => randomUUID

/-- `if (o.idempotencyKey !== undefined) validText(..)`. -/
def validKey : Option String → Except String Unit
  | some key => validText key "idempotency key" false
  | none => .ok ()

def enqueue (Q : JobQueue) (type : String) (payload : JsValue) (o : EnqueueOptions) :
    Queue Job := do
  let schema ← check (orThrow (Q.schemas type) ("Unknown job type: " ++ type))
  let payloadJson ← check (schema payload)
  let now ← now
  let id ← newId o.id
  check (validText id "job id" false)
  check (validKey o.idempotencyKey)
  let (at_, max, back, jitter) ← check (retryOptions o now)
  insertJob {
    id, type, payloadJson, status := if now < at_ then .scheduled else .queued
    scheduledAt := at_, maxAttempts := max, idempotencyKey := o.idempotencyKey, backoffMs := back
    jitter, createdAt := now, updatedAt := now }

/-- `Number.isSafeInteger(leaseMs) && leaseMs > 0`. -/
def validLease (leaseMs : JsNumber) : Except String Int :=
  orThrow ((JsValue.number leaseMs).safeInteger?.filter fun i => 0 < i) "Invalid lease"

/-- `Number.isSafeInteger(now + leaseMs)`. -/
def validExpiry (now leaseMs : Int) : Except String Unit :=
  throwIf ((JsNumber.ofInt (now + leaseMs)).isSafeInteger = false) "Invalid lease"

def claim (workerId : String) (leaseMs : JsNumber) : Queue (Option Lease) := do
  check (validText workerId "worker id" false)
  let leaseMs ← check (validLease leaseMs)
  let now ← now
  check (validExpiry now leaseMs)
  claimTx workerId leaseMs now

def heartbeat (l : Lease) (leaseMs : JsNumber) : Queue Bool := do
  let leaseMs ← check (validLease leaseMs)
  let now ← now
  check (validExpiry now leaseMs)
  heartbeatTx l leaseMs now

/-- `if (o.resultRef !== undefined) validText(..)`. -/
def validResult : Option String → Except String Unit
  | some ref => validText ref "result reference" true
  | none => .ok ()

/-- The result of a job that was completed before, if it was. -/
def succeededWith (existing : Option Job) : Option (Option String) :=
  (existing.filter fun j => j.status = .succeeded).map Job.resultRef

def complete (l : Lease) (resultRef : Option String) : Queue Bool := do
  check (validResult resultRef)
  let existing ← getRaw l.job.id
  match succeededWith existing with
  | some ref => return ref = resultRef
  | none => do
    let now ← now
    completeTx l resultRef now

def fail (l : Lease) (error : String) : Queue Bool := do
  check (validText error "error" true)
  let now ← now
  failTx l error now

def cancel (id : String) : Queue Bool := do
  let now ← now
  cancelTx id now

/-! ### Runs -/

/-- An operation with its arguments. -/
inductive Request where
  | enqueue (type : String) (payload : JsValue) (o : EnqueueOptions)
  | claim (workerId : String) (leaseMs : JsNumber)
  | heartbeat (l : Lease) (leaseMs : JsNumber)
  | complete (l : Lease) (resultRef : Option String)
  | fail (l : Lease) (error : String)
  | cancel (id : String)

/-- What an operation returns. -/
inductive Response where
  | job (j : Job)
  | lease (l : Option Lease)
  | done (b : Bool)
  deriving DecidableEq

/-- The body of an operation. -/
def serve (Q : JobQueue) : Request → Queue Response
  | .enqueue type payload o => do return .job (← enqueue Q type payload o)
  | .claim workerId leaseMs => do return .lease (← claim workerId leaseMs)
  | .heartbeat l leaseMs => do return .done (← heartbeat l leaseMs)
  | .complete l resultRef => do return .done (← complete l resultRef)
  | .fail l error => do return .done (← fail l error)
  | .cancel id => do return .done (← cancel id)

abbrev JobPool := Pool interface JobStore Request (Except String Response)

/-- Any number of workers, interleaved in any way, from an empty store. -/
def jobRun (Q : JobQueue) (es : List (Event interface Request)) : JobPool :=
  (Pool.start .empty).run (machine Q) (fun r => (serve Q r).run) es

end AriOs.Autonomy.Jobs
