import AriOs.Async.Pool
import AriOs.Js.Throw
import AriOs.Js.Value

/-!
# The registry of tools

Tools are invoked by name, by the agent and by its other clients, any number of them at a time. An
invocation is checked first: the tool must be known, its capabilities granted, the tool available
and its input valid. Its execution is then raced against a timer and the caller's signal; when one
of these is first, the execution still goes on in the background. That an invocation starts and
finishes is told to an audit, which may take its time, and may fail without a trace.
-/

namespace AriOs.Tools

open AriOs.Async AriOs.Js

/-! ### Tools -/

inductive ToolEffect where
  | read | write | trade | admin
  deriving DecidableEq, Repr

structure Availability where
  available : Bool
  reason : Option String

inductive ErrorCode where
  | unknownTool | capabilityDenied | unavailable | invalidInput | invalidOutput | timeout
  | cancelled | executionError
  deriving DecidableEq, Repr

structure ToolError where
  code : ErrorCode
  message : String
  details : Option JsValue

/-- What a result says beside the names of the invocation and the tool. -/
inductive Outcome where
  | ok (data : JsValue)
  | failed (error : ToolError)

/-- The code of a failure. -/
def Outcome.code? : Outcome → Option ErrorCode
  | .ok _ => none
  | .failed error => some error.code

/-- The `failure` of an invocation. -/
def failure (code : ErrorCode) (message : String) (details : Option JsValue) : Outcome :=
  .failed ⟨code, message, details⟩

structure ToolAuditEvent where
  invocationId : String
  tool : String
  effect : ToolEffect
  parallelSafe : Bool
  /-- for the end of an invocation, the code of its failure if it has one -/
  finish : Option (Option ErrorCode)
  deriving DecidableEq

variable {I : Interface}

/-- A tool, whose execution makes calls of its own. -/
structure ToolDefinition (I : Interface) where
  name : String
  capabilities : List String
  effect : ToolEffect
  parallelSafe : Bool
  /-- the details of the refusal, or the value that is passed on -/
  inputSchema : JsValue → Except JsValue JsValue
  outputSchema : JsValue → Except JsValue JsValue
  /-- what it says of its backend, and what it throws -/
  availability : JsValue → Except String Availability
  execute : JsValue → Task I String JsValue

/-- A registry. No two of its tools have one name. -/
structure ToolRegistry (I : Interface) where
  tools : List (ToolDefinition I)
  nodup : (tools.map ToolDefinition.name).Nodup

namespace ToolRegistry

def empty : ToolRegistry I := ⟨[], List.nodup_nil⟩

variable (R : ToolRegistry I)

/-- The tool of a name. -/
def find? (name : String) : Option (ToolDefinition I) := R.tools.find? fun t => t.name = name

/-- `register`. -/
def register (tool : ToolDefinition I) : Except String (ToolRegistry I) :=
  if h : tool.name ∈ R.tools.map ToolDefinition.name then
    .error ("Tool already registered: " ++ tool.name)
  else .ok ⟨R.tools ++ [tool], by
    rw [List.map_append, List.map_singleton]
    exact List.nodup_append.mpr ⟨R.nodup, List.nodup_singleton _, fun a ha b hb heq =>
      h (List.mem_singleton.mp hb ▸ heq ▸ ha)⟩⟩

/-- What was registered is in the registry, beside what was there. -/
theorem mem_register {R R' : ToolRegistry I} {tool t : ToolDefinition I}
    (h : R.register tool = .ok R') : t ∈ R'.tools ↔ t ∈ R.tools ∨ t = tool := by
  unfold register at h
  split at h
  · cases h
  · cases h
    simp

theorem mem_of_find? {R : ToolRegistry I} {name : String} {t : ToolDefinition I}
    (h : R.find? name = some t) : t ∈ R.tools ∧ t.name = name :=
  ⟨List.mem_of_find?_eq_some h, by simpa using List.find?_some h⟩

end ToolRegistry

/-! ### Invocations -/

/-- What `invoke` is called with. -/
structure Request where
  name : String
  input : JsValue
  capabilities : List String
  invocationId : Option String
  /-- the reason, if the signal was aborted before -/
  aborted : Option String

/-- An invocation of a known tool whose capabilities are granted. -/
structure Permitted (R : ToolRegistry I) where
  request : Request
  tool : ToolDefinition I
  registered : R.find? request.name = some tool
  granted : ∀ cap ∈ tool.capabilities, cap ∈ request.capabilities

/-- One whose input is valid too. -/
structure Granted (R : ToolRegistry I) extends Permitted R where
  config : JsValue
  parsed : tool.inputSchema request.input = .ok config

/-- How far an invocation is. -/
inductive Stage (R : ToolRegistry I) where
  | arrived
  /-- it waits to hear whether the tool is available -/
  | checking (p : Permitted R)
  /-- it waits until the audit was told of the start -/
  | starting (g : Granted R)
  /-- it waits for the execution of this number -/
  | racing (g : Granted R) (execution : Nat)
  /-- it waits until the audit was told of the end -/
  | finishing (outcome : Outcome)
  | done (outcome : Outcome)

structure Invocation (R : ToolRegistry I) where
  request : Request
  id : String
  stage : Stage R
  /-- why the caller's signal is aborted -/
  signalled : Option String
  /-- the reason of its own controller -/
  reason : Option String
  timeoutTriggered : Bool
  /-- what the audit was told of it -/
  trail : List ToolAuditEvent

/-- The invocations so far, the executions they started, and the counter for their ids. -/
structure Registry (R : ToolRegistry I) where
  invocations : List (Invocation R)
  executions : Pool I Unit (Granted R) (Except String JsValue)
  sequence : Nat

section Steps

variable (R : ToolRegistry I)

def Registry.start : Registry R := ⟨[], .start (), 0⟩

variable {R}

namespace Invocation

variable (v : Invocation R)

/-- What the audit is told of a tool. -/
def event (tool : Option (ToolDefinition I)) (finish : Option (Option ErrorCode)) :
    ToolAuditEvent :=
  ⟨v.id, v.request.name, (tool.map ToolDefinition.effect).getD .admin,
    (tool.map ToolDefinition.parallelSafe).getD false, finish⟩

/-- The end of an invocation, of a tool if one is known. -/
def finish (tool : Option (ToolDefinition I)) (outcome : Outcome) : Invocation R :=
  { v with
    stage := .finishing outcome
    trail := v.trail ++ [v.event tool (some outcome.code?)] }

/-- The checks that need no answer. -/
def check : Invocation R :=
  match h : R.find? v.request.name with
  | none => v.finish none
      (failure .unknownTool ("Unknown tool: " ++ v.request.name) none)
  | some tool =>
    if hgranted : ∀ cap ∈ tool.capabilities, cap ∈ v.request.capabilities then
      { v with stage := .checking ⟨v.request, tool, h, hgranted⟩ }
    else v.finish (some tool)
      (failure .capabilityDenied "Required capability not granted" none)

/-- The tool has said whether it is available. -/
def available (p : Permitted R) (seen : JsValue) : Invocation R :=
  match p.tool.availability seen with
  | .error message => v.finish (some p.tool) (failure .unavailable message none)
  | .ok status =>
    if status.available then
      match h : p.tool.inputSchema p.request.input with
      | .error details =>
        v.finish (some p.tool) (failure .invalidInput "Input validation failed" (some details))
      | .ok config =>
        { v with
          stage := .starting ⟨p, config, h⟩
          trail := v.trail ++ [v.event (some p.tool) none] }
    else v.finish (some p.tool)
      (failure .unavailable (status.reason.getD "Tool unavailable") none)

/-- The code of what is thrown while the execution is awaited. -/
def thrown (message : String) : Outcome :=
  failure (match v.reason with
    | some _ => if v.timeoutTriggered then .timeout else .cancelled
    | none => .executionError) message none

/-- The execution ended first. -/
def settle (g : Granted R) : Except String JsValue → Invocation R
  | .ok data => v.finish (some g.tool) (match g.tool.outputSchema data with
    | .ok output => .ok output
    | .error details => failure .invalidOutput "Output validation failed" (some details))
  | .error message => v.finish (some g.tool) (v.thrown message)

/-- The controller is aborted. Once the execution is awaited this ends the invocation. -/
def abort (timeout : Bool) (reason : String) : Invocation R :=
  let w := { v with
    timeoutTriggered := v.timeoutTriggered || timeout, reason := v.reason.or (some reason) }
  match v.stage with
  | .starting _ => w
  | .racing g _ => w.finish (some g.tool) (w.thrown (w.reason.getD reason))
  | _ => v

/-- The caller's signal is aborted, which it is once. -/
def signal (reason : String) : Invocation R :=
  match v.signalled with
  | some _ => v
  | none => { v with signalled := some reason }.abort false reason

/-- The execution `t` was started, and may have ended at once. -/
def started (g : Granted R) (t : Nat) : Option (Except String JsValue) → Invocation R :=
  let v := { v with stage := .racing g t, reason := v.reason.or v.signalled }
  fun
    | some result => v.settle g result
    | none =>
      match v.reason with
      | some reason => v.finish (some g.tool) (v.thrown reason)
      | none => v

end Invocation

/-- What can happen. -/
inductive Event (I : Interface) where
  | invoke (r : Request)
  /-- a tool says whether it is available, from what it sees -/
  | available (i : Nat) (seen : JsValue)
  /-- the audit was told, or has failed -/
  | emitted (i : Nat)
  | abort (i : Nat) (reason : String)
  | timeout (i : Nat)
  /-- an execution makes its next call -/
  | execute (t : Nat) (ans : ∀ o, I.Ans o)

variable (M : Machine I Unit) (s : Registry R)

/-- The code of an execution. -/
def execution (g : Granted R) : Prog I (Except String JsValue) := (g.tool.execute g.config).run

namespace Registry

/-- `invoke`, up to its first call. -/
def invoke (r : Request) : Registry R :=
  let id := r.invocationId.getD ("tool-" ++ toString (s.sequence + 1))
  let v : Invocation R := ⟨r, id, .arrived, r.aborted, none, false, []⟩
  { s with
    invocations := s.invocations ++ [v.check]
    sequence := if r.invocationId.isSome then s.sequence else s.sequence + 1 }

/-- The audit was told; after the start, the execution begins. -/
def emitted (i : Nat) : Registry R :=
  match s.invocations[i]? with
  | none => s
  | some v =>
    match v.stage with
    | .starting g =>
      let executions := s.executions.spawn execution g
      let t := s.executions.calls.length
      { s with
        executions
        invocations := s.invocations.set i
          (v.started g t (executions.calls[t]?.bind Call.result?)) }
    | .finishing outcome =>
      { s with invocations := s.invocations.set i { v with stage := .done outcome } }
    | _ => s

/-- An invocation that waits for an execution that has ended. -/
def awaited (executions : Pool I Unit (Granted R) (Except String JsValue)) (v : Invocation R) :
    Invocation R :=
  match v.stage with
  | .racing g t =>
    match executions.calls[t]?.bind Call.result? with
    | some result => v.settle g result
    | none => v
  | _ => v

end Registry

/-- One thing that happens. -/
def step : Event I → Registry R
  | .invoke r => s.invoke r
  | .available i seen =>
    { s with invocations := s.invocations.modify i fun v =>
        match v.stage with
        | .checking p => v.available p seen
        | _ => v }
  | .emitted i => s.emitted i
  | .abort i reason => { s with invocations := s.invocations.modify i (·.signal reason) }
  | .timeout i =>
    { s with invocations := s.invocations.modify i (·.abort true "Tool timed out") }
  | .execute t ans =>
    let executions := s.executions.step M t ans
    { s with executions, invocations := s.invocations.map (Registry.awaited executions) }

/-- A run of a registry. -/
def run (R : ToolRegistry I) (M : Machine I Unit) (es : List (Event I)) : Registry R :=
  es.foldl (step M) (.start R)

end Steps

end AriOs.Tools
