import AriOs.Async.Transition
import AriOs.Js.Joined
import AriOs.Js.Throw
import AriOs.Js.Value
import AriOs.Storage.OrderedMap

/-!
# The request gateway

`GatewayCore.handle` checks the frame of a request, has its sender authenticated, looks the
request up among the responses it has recorded, and otherwise has a handler run and records
what that returns. It waits three times: for the verifier, for the pairing store and for the
handler. What stands between two waits is one step.

The records are kept under a text made of the principal, the session and the idempotency key.
The gateway is stated for any such naming of a caller, so that it can be compared with one that
keeps them under the caller itself.
-/

namespace AriOs.Gateway

open AriOs.Async AriOs.Js AriOs.Storage

/-! ### Frames -/

/-- The schema `identifier`. -/
def isIdentifier (s : String) : Bool :=
  1 ≤ textLength s && textLength s ≤ 128 &&
    s.toList.all fun c => c.isAlphanum || c ∈ ['.', '_', ':', '-']

/-- A text that passes for an identifier. -/
abbrev Identifier : Type := { s : String // isIdentifier s = true }

/-- The schema `version`. -/
def isVersion (s : String) : Bool :=
  match s.toList.span Char.isDigit with
  | (major, '.' :: minor) => !major.isEmpty && !minor.isEmpty && minor.all Char.isDigit
  | _ => false

/-- `RequestFrame`, without its `kind`. -/
structure RequestFrame where
  version : String
  id : Identifier
  method : Identifier
  idempotencyKey : Identifier
  sessionId : Option String
  runId : Option String
  params : JsValue

/-- `ResponseFrame`, as far as `handle` sets it: `kind` is `response`, and there is no error. -/
structure ResponseFrame where
  version : String
  id : Identifier
  ok : Bool
  result : JsValue

/-- A text that passes `identifier`. -/
def JsValue.identifier? (v : JsValue) : Option Identifier :=
  v.text?.bind fun s => if h : isIdentifier s = true then some ⟨s, h⟩ else none

/-- `z.string().optional()`. -/
def optionalText? : JsValue → Option (Option String)
  | .undefined => some none
  | .string s => some (some s)
  | _ => none

/-- The keys a strict request frame may have. -/
def requestKeys : List String :=
  ["version", "id", "kind", "method", "idempotencyKey", "sessionId", "runId", "params"]

/-- `requestFrameSchema.safeParse`. -/
def requestFrameSchema (value : JsValue) : Option RequestFrame :=
  match value with
  | .object fields => do
    let version ← (value.field "version").text?
    let id ← JsValue.identifier? (value.field "id")
    let kind ← (value.field "kind").text?
    let method ← JsValue.identifier? (value.field "method")
    let idempotencyKey ← JsValue.identifier? (value.field "idempotencyKey")
    let sessionId ← optionalText? (value.field "sessionId")
    let runId ← optionalText? (value.field "runId")
    if isVersion version ∧ kind = "request" ∧ ∀ kv ∈ fields, kv.1 ∈ requestKeys then
      some { version, id, method, idempotencyKey, sessionId, runId
             params := value.field "params" }
    else none
  | _ => none

/-! ### Principals -/

structure Principal where
  id : String
  roles : List String
  scopes : List String
  capabilities : List String
  deriving DecidableEq, Repr

inductive PairingState where
  | pending | paired | revoked
  deriving DecidableEq, Repr

structure PairingRecord where
  deviceId : String
  principalId : String
  state : PairingState
  deriving DecidableEq, Repr

structure AuthInput where
  credential : String
  deviceId : Option String
  deriving DecidableEq, Repr

/-- What a call fails with: a `GatewayError`, or what something it calls throws. -/
inductive Failure where
  | gatewayError (code message : String)
  | thrown (error : String)
  deriving DecidableEq, Repr

/-- The host: JSON and SHA-256. `stringify` may throw, and some values have no text. -/
structure Host where
  parse : String → Option JsValue
  stringify : JsValue → Except String (Option String)
  sha256Hex : String → String

structure Config where
  supportedVersions : List String
  maxRequestBytes : Nat

/-! ### A call, between its waits -/

/-- Whom a record is for. -/
structure Caller where
  principalId : String
  sessionId : Option String
  idempotencyKey : Identifier
  deriving DecidableEq

/-- The text a record is kept under. -/
def recordKey (c : Caller) : String :=
  joined (joined c.principalId (c.sessionId.getD "-")) c.idempotencyKey.val

/-- A recorded response. -/
structure Recorded where
  hash : String
  response : ResponseFrame

/-- Where a call stands. -/
inductive Stage where
  /-- before the answer of the verifier -/
  | verifying (request : RequestFrame) (auth : AuthInput)
  /-- before the answer of the pairing store -/
  | pairing (request : RequestFrame) (principal : Principal)
  /-- before the answer of the handler -/
  | handling (request : RequestFrame) (caller : Caller) (hash : String)
  /-- returned what its own handler or an earlier one gave -/
  | returned (caller : Caller) (own : Bool) (response : ResponseFrame)
  | failed (caller : Option Caller) (failure : Failure)

/-- Whom the records of a call are for, once it has looked there. -/
def Stage.caller? : Stage → Option Caller
  | .verifying _ _ | .pairing _ _ => none
  | .handling _ caller _ | .returned caller _ _ => some caller
  | .failed caller _ => caller

@[simp] theorem Stage.caller?_verifying (request : RequestFrame) (auth : AuthInput) :
    (Stage.verifying request auth).caller? = none := rfl

@[simp] theorem Stage.caller?_handling (request : RequestFrame) (caller : Caller) (hash : String) :
    (Stage.handling request caller hash).caller? = some caller := rfl

@[simp] theorem Stage.caller?_returned (caller : Caller) (own : Bool) (response : ResponseFrame) :
    (Stage.returned caller own response).caller? = some caller := rfl

section Sections

variable (host : Host) (config : Config)

/-- What `handle` makes of its argument before it first waits. -/
def receive (raw : JsValue) : Except Failure RequestFrame := do
  let value ← match raw with
    | .string text => do
      throwIf (config.maxRequestBytes < text.utf8ByteSize)
        (.gatewayError "REQUEST_TOO_LARGE" "request exceeds size limit")
      orThrow (host.parse text) (.gatewayError "INVALID_FRAME" "request is not valid JSON")
    | _ => do
      let encoded ← match host.stringify raw with
        | .ok encoded => Except.ok encoded
        | .error _ => .error (.gatewayError "INVALID_FRAME" "request is not serializable")
      -- `Buffer.byteLength` of a value without a text
      let encoded ← orThrow encoded (.thrown "ERR_INVALID_ARG_TYPE")
      throwIf (config.maxRequestBytes < encoded.utf8ByteSize)
        (.gatewayError "REQUEST_TOO_LARGE" "request exceeds size limit")
      pure raw
  let request ← orThrow (requestFrameSchema value)
    (.gatewayError "INVALID_FRAME" "invalid request frame")
  throwIf (request.version ∉ config.supportedVersions)
    (.gatewayError "VERSION_NOT_SUPPORTED" "unsupported request version")
  pure request

/-- The hash of what the handler is given. -/
def requestHash (request : RequestFrame) : Except Failure String :=
  match host.stringify (.object [
    ("method", .string request.method.val),
    ("params", request.params),
    ("sessionId", (request.sessionId.map JsValue.string).getD .undefined),
    ("runId", (request.runId.map JsValue.string).getD .undefined)]) with
  | .ok text => .ok (host.sha256Hex (text.getD ""))
  | .error e => .error (.thrown e)

/-- `responseFrameSchema.parse`, of a frame that has the version and the id of a request. -/
def respond (request : RequestFrame) (result : JsValue) : ResponseFrame :=
  { version := request.version, id := request.id, ok := true, result }

end Sections

/-! ### The gateway -/

/-- The gateway: its handlers, what it has recorded, and the calls of `handle`. -/
structure Core (κ : Type) where
  handlers : List Identifier
  idempotency : OrderedMap κ Recorded
  calls : List Stage

/-- What a call waited for. -/
inductive Answer where
  | verifier (principal : Except String (Option Principal))
  | pairingStore (device : Except String (Option PairingRecord))
  | handler (result : Except String JsValue)

inductive Event where
  | register (method : String)
  | handle (raw : JsValue) (auth : AuthInput)
  /-- call `i` goes on with an answer -/
  | answer (i : Nat) (a : Answer)

/-- What a request goes on with, from what is recorded for its caller. -/
def replay (request : RequestFrame) (caller : Caller) (hash : String) : Option Recorded → Stage
  | some prior =>
    if prior.hash ≠ hash then
      .failed (some caller) (.gatewayError "IDEMPOTENCY_CONFLICT"
        "idempotency key reused with different request")
    else .returned caller false prior.response
  | none => .handling request caller hash

@[simp] theorem caller?_replay {request : RequestFrame} {caller : Caller} {hash : String}
    (prior : Option Recorded) : (replay request caller hash prior).caller? = some caller := by
  cases prior with
  | none => rfl
  | some prior =>
    unfold replay
    dsimp only
    split <;> rfl

namespace Core

variable {κ : Type}

/-- A gateway as it is constructed. -/
def start : Core κ := ⟨[], Table.empty, []⟩

variable [DecidableEq κ] (host : Host) (config : Config) (keyOf : Caller → κ) (s : Core κ)

/-- What an authenticated request goes on with. -/
def lookup (request : RequestFrame) (principal : Principal) : Stage :=
  if request.method ∉ s.handlers then
    .failed none (.gatewayError "METHOD_NOT_FOUND" "gateway method not found")
  else
    match requestHash host request with
    | .error e => .failed none e
    | .ok hash =>
      let caller : Caller := ⟨principal.id, request.sessionId, request.idempotencyKey⟩
      replay request caller hash (s.idempotency.get (keyOf caller))

/-- `authenticate`, after the verifier's answer. -/
def verified (request : RequestFrame) (auth : AuthInput) :
    Except String (Option Principal) → Stage
  | .error e => .failed none (.thrown e)
  | .ok none =>
    .failed none (.gatewayError "UNAUTHENTICATED" "invalid authentication credential")
  | .ok (some principal) =>
    if auth.deviceId.getD "" = "" then s.lookup host keyOf request principal
    else .pairing request principal

/-- `authenticate`, after the pairing store's answer. -/
def paired (request : RequestFrame) (principal : Principal) :
    Except String (Option PairingRecord) → Stage
  | .error e => .failed none (.thrown e)
  | .ok device =>
    if device.all fun d => d.state ≠ .paired || d.principalId ≠ principal.id then
      .failed none (.gatewayError "DEVICE_NOT_PAIRED" "device is not paired to this principal")
    else s.lookup host keyOf request principal

/-- What a waiting call does with an answer, if it is the one it waits for. -/
def advance (i : Nat) : Stage → Answer → Core κ
  | .verifying request auth, .verifier a =>
    { s with calls := s.calls.set i (s.verified host keyOf request auth a) }
  | .pairing request principal, .pairingStore a =>
    { s with calls := s.calls.set i (s.paired host keyOf request principal a) }
  | .handling _ caller _, .handler (.error e) =>
    { s with calls := s.calls.set i (.failed (some caller) (.thrown e)) }
  | .handling request caller hash, .handler (.ok result) =>
    { s with
      idempotency := s.idempotency.set (keyOf caller) ⟨hash, respond request result⟩
      calls := s.calls.set i (.returned caller true (respond request result)) }
  | _, _ => s

/-- One event. -/
def apply : Event → Core κ
  | .register method =>
    if h : isIdentifier method = true then
      if ⟨method, h⟩ ∈ s.handlers then s else { s with handlers := s.handlers ++ [⟨method, h⟩] }
    else s
  | .handle raw auth =>
    { s with calls := s.calls ++ [match receive host config raw with
      | .ok request => .verifying request auth
      | .error e => .failed none e] }
  | .answer i a =>
    match s.calls[i]? with
    | some stage => s.advance host keyOf i stage a
    | none => s

end Core

end AriOs.Gateway
