import AriOs.Js.Joined
import AriOs.Js.Value
import AriOs.Storage.OrderedMap

/-!
# The runs of the agent API in memory

`MemoryRunStore` keeps each run with its status and the last of its events. What a run emits is kept
without the fields whose keys name transactions or keys; the number of an event follows that of the
last one.
-/

namespace AriOs.Gateway.Api

open AriOs.Js AriOs.Storage

/-! ### Data that may be kept -/

/-- `/(raw.?transaction|signing|private.?key)/i`. -/
def patterns : List (List (Option Char)) :=
  [("raw".toList.map some) ++ none :: "transaction".toList.map some, "signing".toList.map some,
    ("private".toList.map some) ++ none :: "key".toList.map some]

def isSensitive (key : String) : Bool :=
  key.toList.tails.any fun cs => patterns.any fun pattern => matchesAt pattern cs

mutual

/-- `safe`. -/
def safe : JsValue → JsValue
  | .array items => .array (safeItems items)
  | .object fields => .object (safeFields fields)
  | v => v

def safeItems : List JsValue → List JsValue
  | [] => []
  | v :: vs => safe v :: safeItems vs

def safeFields : List (String × JsValue) → List (String × JsValue)
  | [] => []
  | (k, v) :: fields =>
    if isSensitive k then safeFields fields else (k, safe v) :: safeFields fields

end

example : isSensitive "rawTransaction" = true ∧ isSensitive "PRIVATE_KEY" = true ∧
    isSensitive "key" = false := by decide

/-! ### Runs -/

inductive Status where
  | running | completed | failed | cancelled
  deriving DecidableEq, Repr

structure RunEvent where
  id : Int
  type : String
  data : JsValue

structure Run where
  id : String
  tenantId : String
  subject : Option String
  sessionId : String
  status : Status
  createdAt : Int
  events : List RunEvent

/-- A run, as it is created for a request. -/
def newRun (subject : Option String) (id tenant : String) : Run :=
  ⟨id, tenant, subject, "session", .running, 0, []⟩

/-- A store that keeps ids under some naming of tenant and key; a run that is returned is the one
that is kept. -/
structure RunStore (κ : Type) where
  runs : OrderedMap String Run
  keys : OrderedMap κ String
  retention : Nat

namespace RunStore

variable {κ : Type} [DecidableEq κ]

def empty (retention : Nat) : RunStore κ := ⟨Table.empty, Table.empty, retention⟩

variable (keyOf : String → String → κ) (s : RunStore κ)

/-- `create`; an empty key counts as none. -/
def create (r : Run) (key : Option String) : RunStore κ :=
  { s with
    runs := s.runs.set r.id r
    keys := if key.getD "" = "" then s.keys else s.keys.set (keyOf r.tenantId (key.getD "")) r.id }

/-- `idempotent`; an empty id counts as none. -/
def idempotent (tenant key : String) : Option Run :=
  (s.keys.get (keyOf tenant key)).bind fun id => if id = "" then none else s.runs.get id

end RunStore

/-- The store of the API: tenant and key are joined. -/
abbrev MemoryRunStore := RunStore String

namespace MemoryRunStore

def empty (retention : Nat) : MemoryRunStore := RunStore.empty retention

variable (s : MemoryRunStore)

def create (r : Run) (key : Option String) : MemoryRunStore := RunStore.create joined s r key

def idempotent (tenant key : String) : Option Run := RunStore.idempotent joined s tenant key

def get (id tenant : String) : Option Run :=
  (s.runs.get id).filter fun r => r.tenantId = tenant

/-- The fields of a run that is kept are set. -/
def change (id : String) (f : Run → Run) : MemoryRunStore :=
  match s.runs.get id with
  | some r => { s with runs := s.runs.set id (f r) }
  | none => s

def setStatus (id : String) (status : Status) : MemoryRunStore :=
  s.change id fun r => { r with status }

/-- The events after another one, of which the last ones are kept. -/
def retained (retention : Nat) (events : List RunEvent) (type : String) (data : JsValue) :
    List RunEvent :=
  let events := events ++ [⟨(events.getLast?.map RunEvent.id).getD 0 + 1, type, safe data⟩]
  if retention < events.length then events.drop (events.length - retention) else events

def emit (id type : String) (data : JsValue) : MemoryRunStore :=
  s.change id fun r => { r with events := retained s.retention r.events type data }

def active (tenant : String) : Nat :=
  s.runs.rows.countP fun e => e.2.tenantId = tenant && e.2.status = .running

variable {s}

theorem get_runs_change {id i : String} {f : Run → Run} :
    (s.change id f).runs.get i = if id = i then (s.runs.get i).map f else s.runs.get i := by
  unfold change
  cases hget : s.runs.get id with
  | none =>
    by_cases heq : id = i
    · simp [← heq, hget]
    · simp [heq]
  | some r =>
    by_cases heq : id = i
    · simp [← heq, hget]
    · simp [OrderedMap.get_set, heq]

theorem get_runs_create {r : Run} {key : Option String} {i : String} :
    (s.create r key).runs.get i = if r.id = i then some r else s.runs.get i :=
  OrderedMap.get_set

@[simp] theorem retention_change {id : String} {f : Run → Run} :
    (s.change id f).retention = s.retention := by
  unfold change
  split <;> rfl

@[simp] theorem keys_change {id : String} {f : Run → Run} : (s.change id f).keys = s.keys := by
  unfold change
  split <;> rfl

end MemoryRunStore

end AriOs.Gateway.Api
