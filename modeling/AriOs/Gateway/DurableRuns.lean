import AriOs.Gateway.MemoryRuns
import AriOs.Js.Json
import AriOs.Js.Throw
import AriOs.Storage.Table
import Mathlib.Data.List.DropRight
import Mathlib.Data.List.Sort

/-!
# The runs of the agent API in a database

`DurableRunStore` keeps runs, idempotency keys and events in tables. Rows that are there are not
written again, the number of an event follows the greatest one, and what lies further behind than
the number of events to keep is deleted. What an event is read back as is what JSON makes of its
data.
-/

namespace AriOs.Gateway.Api

open AriOs.Js AriOs.Storage

/-! ### Tables -/

structure RunRow where
  id : String
  tenantId : String
  sessionId : String
  status : Status
  createdAt : Int

structure IdempotencyRow where
  tenantId : String
  key : String
  runId : String

/-- A row of `run_events`; the data is what its text is read as. -/
structure EventRow where
  runId : String
  sequence : Int
  type : String
  data : JsValue

def IdempotencyRow.primaryKey (row : IdempotencyRow) : String × String := (row.tenantId, row.key)

def EventRow.primaryKey (row : EventRow) : String × Int := (row.runId, row.sequence)

def EventRow.event (row : EventRow) : RunEvent := ⟨row.sequence, row.type, row.data⟩

/-- `INSERT OR IGNORE`. -/
def insertOrIgnore {κ ρ : Type} [DecidableEq κ] {key : ρ → κ} (t : Table key) (row : ρ) :
    Table key :=
  (t.insert? row).getD t

/-- `JSON.stringify`, of a parameter that a text is bound to. -/
def dataJson (data : JsValue) : Except String JsValue := do
  throwIf (hasBigint data = true) "Do not know how to serialize a BigInt"
  orThrow data.jsonRoundTrip "Provided value cannot be bound to SQLite parameter 4."

/-! ### The store -/

structure DurableRunStore where
  runs : Table RunRow.id
  idempotency : Table IdempotencyRow.primaryKey
  runEvents : Table EventRow.primaryKey
  retention : Nat

namespace DurableRunStore

def empty (retention : Nat) : DurableRunStore := ⟨.empty, .empty, .empty, retention⟩

variable (s : DurableRunStore)

/-- The rows of a run, in no order. -/
def eventsOf (id : String) : List RunEvent :=
  (s.runEvents.rows.filter fun row => row.runId = id).map EventRow.event

/-- `get`. -/
def get (id tenant : String) : Option Run :=
  ((s.runs.find? id).filter fun row => row.tenantId = tenant).map fun row =>
    ⟨row.id, row.tenantId, none, row.sessionId, row.status, row.createdAt,
      (s.eventsOf id).insertionSort fun a b => a.id ≤ b.id⟩

/-- The events of `create`, one after the other; the rows written before one that throws stay. -/
def insertEvents (id : String) :
    List RunEvent → DurableRunStore → DurableRunStore × Except String Unit
  | [], s => (s, .ok ())
  | e :: es, s =>
    match dataJson e.data with
    | .error message => (s, .error message)
    | .ok data =>
      insertEvents id es
        { s with runEvents := insertOrIgnore s.runEvents ⟨id, e.id, e.type, data⟩ }

/-- `create`; an empty key counts as none. -/
def create (r : Run) (key : Option String) : DurableRunStore × Except String (Option Run) :=
  let s := { s with
    runs := insertOrIgnore s.runs ⟨r.id, r.tenantId, r.sessionId, r.status, r.createdAt⟩ }
  let s := if key.getD "" = "" then s else
    { s with idempotency := insertOrIgnore s.idempotency ⟨r.tenantId, key.getD "", r.id⟩ }
  let (s, written) := insertEvents r.id r.events s
  (s, written.map fun _ => s.get r.id r.tenantId)

/-- `idempotent`. -/
def idempotent (tenant key : String) : Option Run :=
  (s.idempotency.find? (tenant, key)).bind fun row => s.get row.runId tenant

/-- `COALESCE(MAX(sequence),0)`. -/
def maxSequence (id : String) : Int := ((s.eventsOf id).map RunEvent.id).max?.getD 0

/-- `emit`. An event of a run that is not there violates a foreign key. -/
def emit (id type : String) (data : JsValue) : DurableRunStore × Except String RunEvent :=
  let n := s.maxSequence id + 1
  match dataJson data with
  | .error message => (s, .error message)
  | .ok stored =>
    if (s.runs.find? id).isNone then (s, .error "FOREIGN KEY constraint failed")
    else
      match s.runEvents.insert? ⟨id, n, type, stored⟩ with
      | none =>
        (s, .error "UNIQUE constraint failed: run_events.run_id, run_events.sequence")
      | some runEvents =>
        let s := { s with runEvents }
        let cutoff := s.maxSequence id - (s.retention : Int)
        ({ s with
          runEvents := s.runEvents.delete fun row => row.runId = id && row.sequence ≤ cutoff },
          .ok ⟨n, type, data⟩)

/-- `active`. -/
def active (tenant : String) : Nat :=
  s.runs.count fun row => row.tenantId = tenant && row.status = .running

/-- `setStatus`. -/
def setStatus (id : String) (status : Status) : DurableRunStore :=
  { s with
    runs := s.runs.update (fun row => row.id = id) (fun row => { row with status }) fun _ => rfl }

end DurableRunStore

/-! ### Calls -/

/-- A call of one of the stores. -/
inductive Op where
  | create (r : Run) (key : Option String)
  | idempotent (tenant key : String)
  | get (id tenant : String)
  | emit (id type : String) (data : JsValue)
  | active (tenant : String)
  | setStatus (id : String) (status : Status)

/-- What a caller is given. -/
inductive Answer where
  | run (r : Option Run)
  | count (n : Nat)
  | done

def MemoryRunStore.perform (s : MemoryRunStore) : Op → MemoryRunStore × Answer
  | .create r key => (s.create r key, .run (some r))
  | .idempotent tenant key => (s, .run (s.idempotent tenant key))
  | .get id tenant => (s, .run (s.get id tenant))
  | .emit id type data => (s.emit id type data, .done)
  | .active tenant => (s, .count (s.active tenant))
  -- the field of the run that is kept is set
  | .setStatus id status => (s.setStatus id status, .done)

def DurableRunStore.perform (s : DurableRunStore) : Op → DurableRunStore × Except String Answer
  | .create r key =>
    let (s, made) := s.create r key
    (s, made.map .run)
  | .idempotent tenant key => (s, .ok (.run (s.idempotent tenant key)))
  | .get id tenant => (s, .ok (.run (s.get id tenant)))
  | .emit id type data =>
    let (s, emitted) := s.emit id type data
    (s, emitted.map fun _ => .done)
  | .active tenant => (s, .ok (.count (s.active tenant)))
  | .setStatus id status => (s.setStatus id status, .ok .done)

end AriOs.Gateway.Api
