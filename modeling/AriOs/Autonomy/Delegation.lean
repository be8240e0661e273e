import AriOs.Async.Transition
import AriOs.Js.Throw
import AriOs.Js.Value
import AriOs.Storage.OrderedMap

/-!
# Delegation

`DelegationManager` runs children for a parent session, a limited number at a time. A child is
queued, starts when a lane is free, and goes through waits: for its runtime or an abort, for the
verifier of its result, for the hooks that announce and archive the result. A step is what
happens between two waits.

Children are numbered in the order they were spawned, as their session ids are. A thrown value
or a reason is its text, if it has one: `errorText` throws for one that cannot be made a text. A
runtime factory that throws is a runtime that rejects. The runtime, the verifier and the hooks
do not call the manager back before they return.
-/

namespace AriOs.Autonomy.Delegation

open AriOs.Async AriOs.Js AriOs.Storage

/-! ### Children -/

inductive DelegationStatus where
  | queued | running | completed | failed | cancelled
  deriving DecidableEq, Repr

/-- `terminal`. -/
def DelegationStatus.terminal : DelegationStatus → Bool
  | .completed | .failed | .cancelled => true
  | .queued | .running => false

/-- A reason or a thrown value, by its `errorText`. -/
abbrev Thrown := Option String

/-- What `errorText` throws for a value that has no text. -/
def noText : String := "Cannot convert object to primitive value"

structure SpawnRequest where
  task : String
  parentSessionId : String
  parentCapabilities : List String
  requestedCapabilities : List String
  depth : Option JsNumber
  context : JsValue
  model : JsValue

structure ChildRuntimeResult where
  summary : String
  iterations : ℚ
  costUsd : ℚ
  details : JsValue

/-- `DelegationResult`. -/
structure DelegationResult where
  sessionId : String
  parentSessionId : String
  status : DelegationStatus
  result : Option ChildRuntimeResult
  error : Option String
  announced : Bool
  archived : Bool

/-- Where a child stands. -/
inductive Stage where
  | queued
  /-- before `Promise.race([run, abort])` is settled -/
  | racing
  /-- before the verifier answers or its time is over -/
  | verifying (result : ChildRuntimeResult)
  /-- before the hook `announce` is done -/
  | announcing (result : DelegationResult)
  /-- before the hook `archive` is done, after some errors -/
  | archiving (result : DelegationResult) (errors : List String)
  /-- nothing is waited for any more -/
  | finished

structure Entry where
  request : SpawnRequest
  /-- the number of the child, which its id ends with -/
  sequence : Nat
  depth : JsNumber
  status : DelegationStatus
  /-- what the controller was aborted with -/
  reason : Option Thrown
  settled : Bool
  counted : Bool
  /-- started, and not at the end of `#run` -/
  lane : Bool
  stage : Stage
  /-- what the promise of the result was resolved with -/
  resolved : List DelegationResult

/-- The session id of a child. -/
def Entry.id (e : Entry) : String :=
  e.request.parentSessionId ++ ":child:" ++ toString e.sequence

/-- The depth of a child. -/
def SpawnRequest.childDepth (r : SpawnRequest) : JsNumber :=
  (r.depth.getD (.ofInt 0)).add (.ofInt 1)

/-- The entry of a child, with the capabilities it is granted and its number. -/
def SpawnRequest.child (r : SpawnRequest) (capabilities : List String)
    (sequence : Nat) : Entry where
  request := { r with requestedCapabilities := capabilities }
  sequence
  depth := r.childDepth
  status := .queued
  reason := none
  settled := false
  counted := true
  lane := false
  stage := .queued
  resolved := []

section Child

variable (r : SpawnRequest) (capabilities : List String) (n : Nat)

@[simp] theorem child_reason : (r.child capabilities n).reason = none := rfl

@[simp] theorem child_lane : (r.child capabilities n).lane = false := rfl

@[simp] theorem child_status : (r.child capabilities n).status = .queued := rfl

@[simp] theorem child_parent :
    (r.child capabilities n).request.parentSessionId = r.parentSessionId := rfl

end Child

/-- `controller.abort(reason)`: the first reason counts. -/
def Entry.abort (e : Entry) (reason : Thrown) : Entry :=
  { e with reason := some (e.reason.getD reason) }

/-- The entry that `#finish` leaves before its first wait, with what the result says. -/
def Entry.ended (e : Entry) (status : DelegationStatus) (result : Option ChildRuntimeResult)
    (error : Option String) (announce : Bool) : Entry :=
  let r : DelegationResult := ⟨e.id, e.request.parentSessionId, status, result, error, false, false⟩
  { e with
    status, settled := true, counted := false
    stage := if announce then .announcing r else .archiving r [] }

/-- The numbers that bound a manager, finite and positive. -/
structure Limits where
  maxDepth : ℚ
  maxChildren : ℚ
  maxIterations : ℚ
  maxCostUsd : ℚ
  concurrency : ℚ
  positive : 0 < maxDepth ∧ 0 < maxChildren ∧ 0 < maxIterations ∧ 0 < maxCostUsd ∧ 0 < concurrency

/-- What a manager is constructed with. -/
structure Options where
  limits : Limits
  /-- the names of the capabilities, all of them read-only -/
  allowed : List String
  /-- there is a `verifyResult` -/
  verifies : Bool
  /-- `structuredClone` takes the value -/
  cloneable : JsValue → Bool

structure Manager where
  entries : List Entry
  queue : List Nat
  counts : OrderedMap String Nat
  active : Nat
  /-- the calls of `#drain` that are due -/
  drains : Nat

/-- The state a call leaves behind, whether it throws or not. -/
def after : Except Manager Manager → Manager
  | .ok m => m
  | .error m => m

namespace Manager

/-- A manager as it is constructed. -/
def start : Manager := ⟨[], [], Table.empty, 0, 0⟩

variable (o : Options) (m : Manager)

/-! ### Spawning -/

/-- `boundary` of a value that is passed on: what is not there passes. -/
def passes (v : JsValue) : Bool :=
  match v with
  | .undefined | .null => true
  | _ => o.cloneable v

/-- `spawn`. -/
def spawn (r : SpawnRequest) : Except String Manager := do
  throwIf ((JsNumber.finite o.limits.maxDepth).lt r.childDepth) "maximum delegation depth exceeded"
  let count := (m.counts.get r.parentSessionId).getD 0
  throwIf (o.limits.maxChildren ≤ count) "maximum children exceeded"
  let capabilities := r.requestedCapabilities.filter fun c =>
    c ∈ r.parentCapabilities && c ∈ o.allowed
  throwIf (capabilities = []) "no permitted read-only capabilities"
  throwIf (passes o r.context = false) "context must be cloneable"
  throwIf (passes o r.model = false) "model must be cloneable"
  pure { m with
    entries := m.entries ++ [r.child capabilities (m.entries.length + 1)]
    queue := m.queue ++ [m.entries.length]
    counts := m.counts.set r.parentSessionId (count + 1)
    drains := m.drains + 1 }

/-! ### Lanes -/

/-- The beginning of `#run`, up to its first wait. -/
def begin (i : Nat) (e : Entry) : Manager :=
  { m with
    active := m.active + 1
    entries := m.entries.set i { e with status := .running, lane := true, stage := .racing } }

/-- The loop of `#drain`, with this queue. -/
def drainFrom : List Nat → Manager → Manager
  | [], m => { m with queue := [] }
  | i :: queue, m =>
    if m.active < o.limits.concurrency then
      drainFrom queue (match m.entries[i]? with
        | some e => if e.status = .queued then m.begin i e else m
        | none => m)
    else { m with queue := i :: queue }

/-- `#drain`. -/
def drain : Manager := drainFrom o m.queue m

/-- Nothing is waited for any more; a child that has a lane gives it back. -/
def leave (i : Nat) (e : Entry) : Manager :=
  let left := { m with entries := m.entries.set i { e with stage := .finished, lane := false } }
  if e.lane then drain o { left with active := m.active - 1 } else left

/-! ### Finishing -/

/-- The part of `#finish` before its first wait. -/
def finish (i : Nat) (e : Entry) (status : DelegationStatus) (result : Option ChildRuntimeResult)
    (error : Option String) (announce : Bool) : Manager :=
  if e.settled then m
  else { m with
    entries := m.entries.set i (e.ended status result error announce)
    counts := if e.counted then m.counts.set e.request.parentSessionId
      ((m.counts.get e.request.parentSessionId).getD 1 - 1) else m.counts }

/-- The `catch` of `#run`. -/
def caught (i : Nat) (e : Entry) (x : Thrown) : Manager :=
  match e.reason.getD x with
  | some text =>
    m.finish i e (if e.reason.isSome then .cancelled else .failed) none (some text) false
  | none => m.leave o i e

/-- What passes for the result of a runtime. -/
def runtimeResult? (raw : JsValue) : Option ChildRuntimeResult :=
  match raw.field "summary", raw.field "iterations", raw.field "costUsd" with
  | .string summary, .number (.finite iterations), .number (.finite costUsd) =>
    if isBlank summary ∨ iterations.den ≠ 1 ∨ iterations < 0 ∨ costUsd < 0 then none
    else some ⟨summary, iterations, costUsd, raw.field "details"⟩
  | _, _, _ => none

/-- `#run`, once the race is settled. -/
def raced (i : Nat) (e : Entry) : Except Thrown JsValue → Manager
  | .error x => m.caught o i e x
  | .ok raw =>
    match e.reason with
    | some reason => m.caught o i e reason
    | none =>
      match runtimeResult? raw with
      | none => m.caught o i e (some "invalid runtime result")
      | some result =>
        if o.limits.maxIterations < result.iterations ∨ o.limits.maxCostUsd < result.costUsd then
          m.finish i e .failed none (some "budget exceeded") false
        else if o.cloneable raw = false then
          m.caught o i e (some "runtime result must be cloneable")
        else if o.verifies then
          { m with entries := m.entries.set i { e with stage := .verifying result } }
        else m.finish i e .completed (some result) none true

/-- `#run`, once the verifier has answered or its time is over. -/
def verified (i : Nat) (e : Entry) (result : ChildRuntimeResult) : Except Thrown Bool → Manager
  | .ok true => m.finish i e .completed (some result) none true
  | .ok false => m.finish i e .failed none (some "result verification failed") false
  | .error (some text) => m.finish i e .failed none (some ("verifier error: " ++ text)) false
  | .error none => m.caught o i e (some noText)

/-- `#finish`, once the hook `announce` is done. -/
def announced (i : Nat) (e : Entry) (r : DelegationResult) : Except Thrown Unit → Manager
  | .ok () =>
    { m with entries := m.entries.set i { e with stage := .archiving { r with announced := true } [] } }
  | .error (some text) =>
    { m with entries := m.entries.set i { e with stage := .archiving r [text] } }
  | .error none => m.leave o i e

/-- The text of the errors, the one of the child first. -/
def joinErrors (r : DelegationResult) (errors : List String) : DelegationResult :=
  if errors = [] then r
  else { r with
    error := some (String.intercalate "; " ((r.error.toList ++ errors).filter fun t => t ≠ "")) }

/-- `#finish`, once the hook `archive` is done: the promise is resolved. -/
def archived (i : Nat) (e : Entry) (r : DelegationResult) (errors : List String) :
    Except Thrown Unit → Manager
  | .ok () => m.leave o i
    { e with resolved := e.resolved ++ [joinErrors { r with archived := true } errors] }
  | .error (some text) => m.leave o i
    { e with resolved := e.resolved ++ [joinErrors r (errors ++ [text])] }
  | .error none => m.leave o i e

/-! ### Cancelling -/

/-- `#cancel`; it throws, with this state, where a queued child is given no text. -/
def cancel (i : Nat) (reason : Thrown) : Except Manager Manager :=
  match m.entries[i]? with
  | none => .ok m
  | some e =>
    if e.status.terminal then .ok m
    else if e.status = .queued then
      let removed := { m with queue := m.queue.erase i }
      match reason with
      | some text => .ok (removed.finish i (e.abort reason) .cancelled none (some text) false)
      | none => .error { removed with entries := m.entries.set i (e.abort reason) }
    else .ok { m with entries := m.entries.set i (e.abort reason) }

/-- What `visit` does at one entry, where `deeper` visits the children of a session. -/
def visitEntry (p : String) (reason : Thrown) (deeper : String → Manager → Except Manager Manager)
    (m : Manager) (i : Nat) : Except Manager Manager :=
  match m.entries[i]? with
  | some e =>
    if e.request.parentSessionId = p ∧ e.status.terminal = false then
      deeper e.id m >>= fun m => m.cancel i reason
    else .ok m
  | none => .ok m

/-- `visit`, to a depth that is enough for all chains of sessions. -/
def visit : Nat → String → Thrown → Manager → Except Manager Manager
  | 0, _, _, m => .ok m
  | depth + 1, p, reason, m => (List.range m.entries.length).foldlM
      (visitEntry p reason fun id m => visit depth id reason m) m

/-- No chain of sessions is longer: the id of a child is longer than that of its parent. -/
def visitDepth : Nat := (m.entries.map fun e => e.request.parentSessionId.length + 1).sum

/-- `cancelParent`. -/
def cancelParent (p : String) (reason : Thrown) : Manager :=
  after (visit m.visitDepth p reason m)

/-- `authorizeDispatch`, with what the enforcer answers for the session and its parent. -/
def authorizeDispatch (enforcer : Option (String → String → String → Bool)) (sessionId : String)
    (capability : String) : Bool :=
  match m.entries.find? fun e => e.id = sessionId with
  | none => false
  | some e => e.request.requestedCapabilities.contains capability &&
      o.allowed.contains capability &&
      (enforcer.map fun f => f capability sessionId e.request.parentSessionId).getD true

end Manager

/-! ### Steps -/

inductive Event where
  | spawn (request : SpawnRequest)
  /-- a call of `#drain` that is due -/
  | drain
  | cancel (i : Nat) (reason : Thrown)
  | cancelParent (parent : String) (reason : Thrown)
  /-- the time of a started child is over -/
  | deadline (i : Nat)
  /-- the runtime resolves or rejects -/
  | runtime (i : Nat) (outcome : Except Thrown JsValue)
  /-- an aborted child goes on -/
  | aborted (i : Nat)
  /-- the verifier answers, or its time is over -/
  | verifier (i : Nat) (outcome : Except Thrown Bool)
  /-- the hook that is waited for is done -/
  | hook (i : Nat) (outcome : Except Thrown Unit)

namespace Manager

variable (o : Options) (m : Manager)

/-- What child `i` does next, from what it waited for. -/
def resume (i : Nat) (e : Entry) : Event → Manager
  | .deadline _ =>
    if e.lane then { m with entries := m.entries.set i (e.abort (some "deadline exceeded")) } else m
  | .runtime _ outcome =>
    match e.stage with
    | .racing => m.raced o i e outcome
    | _ => m
  | .aborted _ =>
    match e.stage, e.reason with
    | .racing, some reason => m.caught o i e reason
    | _, _ => m
  | .verifier _ outcome =>
    match e.stage with
    | .verifying result => m.verified o i e result outcome
    | _ => m
  | .hook _ outcome =>
    match e.stage with
    | .announcing r => m.announced o i e r outcome
    | .archiving r errors => m.archived o i e r errors outcome
    | _ => m
  | _ => m

/-- One event. -/
def apply (ev : Event) : Manager :=
  match ev with
  | .spawn r =>
    match m.spawn o r with
    | .ok m' => m'
    | .error _ => m
  | .drain => if m.drains = 0 then m else drain o { m with drains := m.drains - 1 }
  | .cancel i reason => after (m.cancel i reason)
  | .cancelParent p reason => m.cancelParent p reason
  | .deadline i | .runtime i _ | .aborted i | .verifier i _ | .hook i _ =>
    match m.entries[i]? with
    | some e => m.resume o i e ev
    | none => m

end Manager

end AriOs.Autonomy.Delegation
