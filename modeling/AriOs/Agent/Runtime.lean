import AriOs.Async.Routine
import AriOs.Js.Throw
import AriOs.Js.Value
import AriOs.Storage.FiniteMap

/-!
# The agent runtime

A run asks a model for the next message and dispatches the tools the message calls, until a
message calls none. What was said and what became of each call is handed to the callbacks of the
caller, which store it; a cancellation or the deadline may end the run at any call.

The model providers, the tools, the callbacks and the consumer of the events are the environment
of a run. A promise that never settles and is not aborted has no answer: the run waits for it.
-/

namespace AriOs.Agent

open AriOs.Async AriOs.Js AriOs.Storage

/-! ### Messages, records and events -/

inductive ToolEffect where
  | read | proposal | write
  deriving DecidableEq, Repr

structure ToolCall where
  id : String
  name : String
  arguments : JsValue

inductive AgentMessage where
  | system (content : String)
  | user (content : String)
  | assistant (content : String) (toolCalls : Option (List JsValue))
  | tool (content toolCallId name : String)

inductive RuntimeErrorCode where
  | iterationBudgetExceeded | toolBudgetExceeded | loopDetected | deadlineExceeded | modelError
  | unsafeTool | noToolDispatcher | reconciliationRequired
  deriving DecidableEq, Repr

/-- What is thrown: an error of the runtime, another value with the text it is reported by, or a
value that has no text, such as an object without a prototype. -/
inductive Thrown where
  | runtime (code : RuntimeErrorCode) (message : String)
  | other (message : String)
  | unprintable
  deriving DecidableEq, Repr

/-- `error instanceof Error ? error.message : String(error)`, which throws if there is no text. -/
def Thrown.text : Thrown → Except Thrown String
  | .runtime _ message | .other message => .ok message
  | .unprintable => .error (.other "Cannot convert object to primitive value")

/-- The code a failed run reports. -/
def Thrown.code : Thrown → RuntimeErrorCode
  | .runtime code _ => code
  | .other _ | .unprintable => .modelError

inductive LifecycleStatus where
  | planned | started | succeeded | failed | reconciliationRequired
  deriving DecidableEq, Repr

/-- What `persistToolLifecycle` is called with. -/
structure LifecycleRecord where
  status : LifecycleStatus
  call : ToolCall
  result : Option JsValue
  error : Option Thrown

inductive AgentEvent where
  | runStarted
  | iterationStarted (iteration : Nat)
  | modelRequested (provider : String) (iteration : Nat)
  | providerFailed (provider : String) (error : String)
  | modelResponded (provider : String) (response : JsValue)
  | toolStarted (call : ToolCall)
  | toolCompleted (call : ToolCall) (result : JsValue)
  | runCompleted (message : AgentMessage) (iterations toolCalls : Nat)
  | runFailed (code : RuntimeErrorCode) (message : String)
  | runCancelled (reason : Thrown)

/-! ### The abort signal -/

/-- The signal of a run's own controller, and whether its deadline has passed. -/
structure Signal where
  reason : Option Thrown
  timedOut : Bool
  deriving DecidableEq, Repr

/-- What may abort a run while it waits. -/
inductive Interruption where
  | cancel (reason : Thrown)
  | deadline
  deriving DecidableEq, Repr

namespace Signal

def aborted (s : Signal) : Bool := s.reason.isSome

end Signal

def Interruption.reason : Interruption → Thrown
  | .cancel reason => reason
  | .deadline => .other "deadline exceeded"

/-- Only the first abort of a controller has an effect; the timer notes the deadline in any case. -/
def Signal.after (s : Signal) (i : Interruption) : Signal where
  reason := s.reason.or (some i.reason)
  timedOut := s.timedOut || i = .deadline

/-- What happened first of a promise and an abort. `threw` is a throw before there is a promise. -/
inductive Settled (α : Type) where
  | threw (error : Thrown)
  | resolved (value : α)
  | rejected (error : Thrown)
  | interrupted (first : Interruption)

/-- The interruption that came before the promise. -/
def Settled.interruptions {α : Type} : Settled α → List Interruption
  | .interrupted first => [first]
  | _ => []

/-- What is awaited: a signal that is aborted already does not wait for the promise. -/
def abortable {α : Type} (signal : Signal) : Settled α → Except Thrown α
  | .threw error => .error error
  | settled =>
    match signal.reason, settled with
    | some reason, _ => .error reason
    | none, .threw error | none, .rejected error => .error error
    | none, .resolved value => .ok value
    | none, .interrupted first => .error first.reason

/-! ### What the run calls -/

/-- What the consumer of the events does at a `yield`. -/
inductive Resumed where
  | next | returned | threw (error : Thrown)
  deriving DecidableEq, Repr

inductive Op where
  | complete (index : Nat) (messages : List AgentMessage) (signal : Signal)
  | classify (name : String)
  | dispatch (call : ToolCall) (signal : Signal)
  | persistMessage (message : AgentMessage)
  | persistToolLifecycle (r : LifecycleRecord)
  | «yield» (event : AgentEvent)

/-- What a call comes to. -/
abbrev Op.Value : Op → Type
  | .complete .. => Settled JsValue
  | .classify _ => Except Thrown (Option ToolEffect)
  | .dispatch .. => Settled JsValue
  | .persistMessage _ => Except Thrown Unit
  | .persistToolLifecycle _ => Except Thrown Unit
  | .yield _ => Resumed

/-- What a call comes to, and what else happened until the run went on. -/
structure Reply (α : Type) where
  value : α
  interruptions : List Interruption

abbrev interface : Interface where
  Op := Op
  Ans o := Reply o.Value
  Res o := Reply o.Value

/-! ### The runtime -/

/-- What the language provides. `opaqueText` is what is left in a text of a function or a symbol, or
the throw of a structure that contains itself. -/
structure Host where
  stringify : Stringify
  localeLe : String → String → Bool
  opaqueText : Except Thrown String

structure RuntimeOptions where
  providers : List String
  tools : Bool
  maxIterations : Option JsNumber
  maxToolCalls : Option JsNumber
  maxRepeatedToolCalls : Option JsNumber
  persistMessage : Bool
  persistToolLifecycle : Bool

/-- A runtime. Of the providers the ids are kept, and of the parts that may be left out whether they
are there. -/
structure AgentRuntime where
  providers : List String
  providers_ne_nil : providers ≠ []
  tools : Bool
  maxIterations : {n : Nat // 0 < n}
  maxToolCalls : {n : Nat // 0 < n}
  maxRepeatedToolCalls : {n : Nat // 0 < n}
  persistMessage : Bool
  persistToolLifecycle : Bool

/-- One budget of the constructor. -/
def positiveInteger (name : String) (value : JsNumber) : Except Thrown {n : Nat // 0 < n} :=
  match value.toBigInt? with
  | some i =>
    if h : 0 < i then .ok ⟨i.toNat, Int.pos_iff_toNat_pos.mp h⟩
    else .error (.runtime .modelError (name ++ " must be a positive integer"))
  | none => .error (.runtime .modelError (name ++ " must be a positive integer"))

def AgentRuntime.new (options : RuntimeOptions) : Except Thrown AgentRuntime :=
  if h : options.providers = [] then
    .error (.runtime .modelError "At least one provider is required")
  else do
    let maxIterations ← positiveInteger "maxIterations" (options.maxIterations.getD (.ofInt 8))
    let maxToolCalls ← positiveInteger "maxToolCalls" (options.maxToolCalls.getD (.ofInt 16))
    let maxRepeatedToolCalls ←
      positiveInteger "maxRepeatedToolCalls" (options.maxRepeatedToolCalls.getD (.ofInt 3))
    .ok { providers := options.providers, providers_ne_nil := h, tools := options.tools
          maxIterations, maxToolCalls, maxRepeatedToolCalls
          persistMessage := options.persistMessage
          persistToolLifecycle := options.persistToolLifecycle }

/-- A runtime of one provider, with the default budgets. -/
def sampleRuntime : AgentRuntime where
  providers := ["main"]
  providers_ne_nil := by decide
  tools := true
  maxIterations := ⟨8, by decide⟩
  maxToolCalls := ⟨16, by decide⟩
  maxRepeatedToolCalls := ⟨3, by decide⟩
  persistMessage := true
  persistToolLifecycle := true

/-- What a run is given. `aborted` is the reason of a signal that is aborted already. -/
structure RunInput where
  messages : List AgentMessage
  aborted : Option Thrown

/-- The local variables of a run, its controller among them. -/
structure Locals where
  signal : Signal
  messages : List AgentMessage
  toolCount : Nat
  sideEffects : Bool
  activeProvider : Nat
  repeated : FiniteMap String Nat

/-- How a block of the generator is left: by a throw, or because the consumer returned it. -/
inductive Stop where
  | threw (error : Thrown)
  | returned
  deriving DecidableEq, Repr

/-- The code of a run. -/
abbrev Body (α : Type) := Routine interface Locals Stop α

/-! ### The pure parts -/

section Stringify

variable (host : Host)

mutual

/-- A text of a value that does not depend on the order of its fields. -/
def stableStringify : JsValue → Except Thrown String
  | .undefined => .ok "undefined"
  | .null => .ok "null"
  | .bool b => .ok (if b then "true" else "false")
  | .number (.finite q) => .ok (host.stringify.number q)
  | .number _ => .ok "null"
  | .bigint _ => .error (.other "Do not know how to serialize a BigInt")
  | .string s => .ok (host.stringify.string s)
  | .other => host.opaqueText
  | .array items => do
    let texts ← stringifyItems items
    .ok ("[" ++ String.intercalate "," texts ++ "]")
  | .object fields => do
    let texts ← stringifyFields fields
    let sorted := texts.insertionSort fun a b => host.localeLe a.1 b.1 = true
    .ok ("\x7b" ++ String.intercalate "," (sorted.map Prod.snd) ++ "\x7d")

def stringifyItems : List JsValue → Except Thrown (List String)
  | [] => .ok []
  | v :: vs => do
    let text ← stableStringify v
    let texts ← stringifyItems vs
    .ok (text :: texts)

/-- Each field as it is written, under its key. -/
def stringifyFields : List (String × JsValue) → Except Thrown (List (String × String))
  | [] => .ok []
  | (key, item) :: fields => do
    let text ← stableStringify item
    let texts ← stringifyFields fields
    .ok ((key, host.stringify.string key ++ ":" ++ text) :: texts)

end

end Stringify

def deniedWords : List String := ["sign", "signer", "send", "broadcast", "write", "execute"]

/-- The pattern, letters of either case: one of the words between two separators, or `wallet`. -/
def deniedTool (name : String) : Bool :=
  let lower := name.toList.map Char.toLower
  (lower.splitOnP fun c => c ∈ ['.', '_', '-']).any (fun part => part ∈ deniedWords.map String.toList)
    || "wallet".toList <:+: lower

/-- What is read of a response: a value without a message has none of the fields. -/
def validateResponse (value : JsValue) : Except Thrown (String × Option (List JsValue)) :=
  let message := value.field "message"
  match message.field "role", message.field "content", message.field "toolCalls" with
  | .string "assistant", .string content, .undefined => .ok (content, none)
  | .string "assistant", .string content, .array calls => .ok (content, some calls)
  | _, _, _ => .error (.runtime .modelError "Malformed model response")

/-! ### Calls -/

def callOut (o : Op) : Body (Reply o.Value) := Routine.ask (I := interface) o

def raise {α : Type} (error : Thrown) : Body α := throw (.threw error)

def orRaise {α : Type} (x : Except Thrown α) : Body α :=
  Routine.ofExcept (x.mapError Stop.threw)

/-- What aborted the run while it waited. -/
def interrupt (is : List Interruption) : Body Unit :=
  Routine.assign fun l => { l with signal := is.foldl Signal.after l.signal }

def emit (event : AgentEvent) : Body Unit := do
  let reply ← callOut (.yield event)
  interrupt reply.interruptions
  match reply.value with
  | .next => pure ()
  | .returned => throw .returned
  | .threw error => raise error

def complete (index : Nat) : Body JsValue := do
  let l ← Routine.locals
  let reply ← callOut (.complete index l.messages l.signal)
  interrupt (reply.value.interruptions ++ reply.interruptions)
  orRaise (abortable l.signal reply.value)

def classify (name : String) : Body (Option ToolEffect) := do
  let reply ← callOut (.classify name)
  interrupt reply.interruptions
  orRaise reply.value

def dispatch (call : ToolCall) : Body JsValue := do
  let l ← Routine.locals
  let reply ← callOut (.dispatch call l.signal)
  interrupt (reply.value.interruptions ++ reply.interruptions)
  orRaise (abortable l.signal reply.value)

section Run

variable (host : Host) (runtime : AgentRuntime)

def persistMessage (message : AgentMessage) : Body Unit :=
  if runtime.persistMessage then do
    let reply ← callOut (.persistMessage message)
    interrupt reply.interruptions
    orRaise reply.value
  else pure ()

def persistToolLifecycle (r : LifecycleRecord) : Body Unit :=
  if runtime.persistToolLifecycle then do
    let reply ← callOut (.persistToolLifecycle r)
    interrupt reply.interruptions
    orRaise reply.value
  else pure ()

/-! ### The model -/

/-- The handler of one turn of the loop over the providers; it goes on to the next one, if any. -/
def onProviderError (provider : String) (last : Bool) :
    Stop → Body (Option (String × Option (List JsValue)))
  | .returned => throw .returned
  | .threw error => do
    let l ← Routine.locals
    if l.signal.aborted then raise error
    else do
      let message ← orRaise error.text
      emit (.providerFailed provider message)
      -- a proposal may have been made: another model must not make it again
      if l.sideEffects || last then raise (.runtime .modelError message)
      else pure none

/-- The loop over the providers, from the active one on: what the first good answer says. -/
def requestModel (iteration : Nat) : Nat → List String → Body (String × Option (List JsValue))
  | _, [] => raise (.runtime .modelError "No model response")
  | index, provider :: providers => do
    emit (.modelRequested provider iteration)
    let response ← tryCatch
      (do
        let value ← complete index
        let response ← orRaise (validateResponse value)
        Routine.assign fun l => { l with activeProvider := index }
        emit (.modelResponded provider value)
        pure (some response))
      (onProviderError provider providers.isEmpty)
    match response with
    | some response => pure response
    | none => requestModel iteration (index + 1) providers

/-! ### The tools -/

/-- A call that passed the checks. -/
structure ValidatedCall where
  call : ToolCall
  signature : String
  effect : ToolEffect

/-- The checks of one call. A value that is not an object has neither an id nor a name. -/
def validateCall (seen : List String) (value : JsValue) : Body ValidatedCall :=
  match value.field "id", value.field "name" with
  | .string id, .string name =>
    if isBlank id || id ∈ seen || isBlank name then
      raise (.runtime .modelError "Malformed or duplicate tool call")
    else do
      let arguments ← orRaise (stableStringify host (value.field "arguments"))
      let signature := name ++ ":" ++ arguments
      let l ← Routine.locals
      if runtime.maxRepeatedToolCalls < (l.repeated.get signature).getD 0 + 1 then
        raise (.runtime .loopDetected ("Repeated tool call detected: " ++ name))
      else do
        let effect ← classify name
        match effect with
        | some effect =>
          if effect = .write || deniedTool name then
            raise (.runtime .unsafeTool ("Runtime cannot execute tool: " ++ name))
          else
            pure { call := { id, name, arguments := value.field "arguments" }, signature, effect }
        | none => raise (.runtime .unsafeTool ("Runtime cannot execute tool: " ++ name))
  | _, _ => raise (.runtime .modelError "Malformed or duplicate tool call")

def validateCalls : List String → List JsValue → Body (List ValidatedCall)
  | _, [] => pure []
  | seen, value :: values => do
    let first ← validateCall host runtime seen value
    let rest ← validateCalls (first.call.id :: seen) values
    pure (first :: rest)

/-- What is recorded of a call. -/
def recordOf (status : LifecycleStatus) (call : ToolCall) : LifecycleRecord where
  status := status
  call := call
  result := none
  error := none

/-- The handler of the block that dispatches. -/
def onDispatchError (v : ValidatedCall) : Stop → Body JsValue
  | .returned => throw .returned
  | .threw error => do
    let l ← Routine.locals
    if !l.signal.aborted then
      persistToolLifecycle runtime { recordOf .failed v.call with error := some error }
    raise error

/-- The block that dispatches a call and records what came of it. -/
def dispatchTool (v : ValidatedCall) : Body JsValue :=
  tryCatch
    (do
      let result ← dispatch v.call
      Routine.assign fun l => { l with
        toolCount := l.toolCount + 1, sideEffects := l.sideEffects || v.effect = .proposal }
      persistToolLifecycle runtime { recordOf .succeeded v.call with result := some result }
      pure result)
    (onDispatchError runtime v)

/-- The handler of the block that stores the message with the result. -/
def onStoreError (v : ValidatedCall) (result : JsValue) : Stop → Body Unit
  | .returned => throw .returned
  | .threw error => do
    persistToolLifecycle runtime
      { recordOf .reconciliationRequired v.call with result := some result, error := some error }
    raise (.runtime .reconciliationRequired "Tool executed but result persistence failed")

/-- The message with the result is stored. -/
def storeResult (v : ValidatedCall) (result : JsValue) : Body Unit := do
  let content ← orRaise (stableStringify host result)
  let toolMessage := .tool content v.call.id v.call.name
  tryCatch
    (do
      persistMessage runtime toolMessage
      Routine.assign fun l => { l with messages := l.messages ++ [toolMessage] })
    (onStoreError runtime v result)

/-- One call of a tool. -/
def runTool (v : ValidatedCall) : Body Unit := do
  Routine.assign fun l => { l with
    repeated := l.repeated.set v.signature ((l.repeated.get v.signature).getD 0 + 1) }
  persistToolLifecycle runtime (recordOf .planned v.call)
  emit (.toolStarted v.call)
  persistToolLifecycle runtime (recordOf .started v.call)
  let result ← dispatchTool runtime v
  emit (.toolCompleted v.call result)
  storeResult host runtime v result

def runTools : List ValidatedCall → Body Unit
  | [] => pure ()
  | v :: vs => do
    runTool host runtime v
    runTools vs

/-! ### The run -/

/-- The iterations that are left. -/
def iterate : List Nat → Body Unit
  | [] => raise (.runtime .iterationBudgetExceeded "Iteration budget exceeded")
  | iteration :: rest => do
    let l ← Routine.locals
    match l.signal.reason with
    | some reason => raise reason
    | none => do
      emit (.iterationStarted iteration)
      let l ← Routine.locals
      let (content, toolCalls) ←
        requestModel iteration l.activeProvider (runtime.providers.drop l.activeProvider)
      let assistant := .assistant content toolCalls
      let calls := toolCalls.getD []
      let l ← Routine.locals
      if calls.isEmpty then do
        persistMessage runtime assistant
        emit (.runCompleted assistant iteration l.toolCount)
      else if iteration = runtime.maxIterations then
        raise (.runtime .iterationBudgetExceeded "Iteration budget exceeded")
      else if runtime.maxToolCalls < l.toolCount + calls.length then
        raise (.runtime .toolBudgetExceeded "Tool-call budget exceeded")
      else if !runtime.tools then
        raise (.runtime .noToolDispatcher "Model requested tools but no dispatcher is configured")
      else do
        let validated ← validateCalls host runtime [] calls
        persistMessage runtime assistant
        Routine.assign fun l => { l with messages := l.messages ++ [assistant] }
        runTools host runtime validated
        iterate rest

/-- How a run that threw is reported. -/
def report : Stop → Body Unit
  | .returned => throw .returned
  | .threw error => do
    let l ← Routine.locals
    match l.signal.reason with
    | some reason =>
      if l.signal.timedOut then emit (.runFailed .deadlineExceeded "Run deadline exceeded")
      else emit (.runCancelled reason)
    | none => do
      let message ← orRaise error.text
      emit (.runFailed error.code message)

/-- A run. The first event is outside the block whose throws are reported. -/
def run : Body Unit := do
  emit .runStarted
  tryCatch (iterate host runtime (List.range' 1 runtime.maxIterations)) report

/-- The local variables a run starts with. -/
def Locals.start (input : RunInput) : Locals where
  signal := ⟨input.aborted, false⟩
  messages := input.messages
  toolCount := 0
  sideEffects := false
  activeProvider := 0
  repeated := .empty

/-- The calls of a run, with their answers. -/
def transcript (input : RunInput) (env : Environment interface) : List (Entry interface) :=
  ((run host runtime).prog (.start input)).transcript env []

end Run

/-! ### What is awaited -/

/-- A signal is aborted after anything that would abort it. -/
theorem aborted_foldl (is : List Interruption) (s : Signal) :
    (is.foldl Signal.after s).aborted = (s.aborted || !is.isEmpty) := by
  induction is generalizing s with
  | nil => simp
  | cons i is ih =>
    rw [List.foldl_cons, ih]
    cases hs : s.reason <;> simp [Signal.after, Signal.aborted, hs]

/-- The local variables once what aborted the run has been noted. -/
def Locals.interrupted (l : Locals) (is : List Interruption) : Locals :=
  { l with signal := is.foldl Signal.after l.signal }

theorem ends_orRaise {V α : Type} {D : Discipline interface V} {Q : V → Locals → α → Prop}
    {E : V → Locals → Stop → Prop} {v : V} {l : Locals} {x : Except Thrown α} :
    (orRaise x).Ends D Q E v l ↔
      (∀ a, x = .ok a → Q v l a) ∧ ∀ error, x = .error error → E v l (.threw error) := by
  rw [orRaise, Routine.ends_ofExcept]
  cases x <;> simp [Except.mapError]

end AriOs.Agent
