import AriOs.Js.Throw
import AriOs.Js.Value
import AriOs.Storage.Table

/-!
# The approval engine

Requests, the operators' decisions on them, revocation, expiry and one-time consumption,
as statements on two tables. Every operation runs to its end before the next one starts,
and every transaction is taken immediately, so a run is a sequence of operations; each
reading of the clock inside an operation is its own.

An operation opens a transaction and closes it on the way out, except for one path of
`consume`; the connection remembers whether a transaction was left open, because the next
one cannot be started then.

The audit events are left out: nothing but the audit report reads them.
-/

namespace AriOs.Execution.Approvals

open AriOs.Js AriOs.Storage

/-! ### Canonical text -/

mutual

/-- `canonicalSerialize`: keys in order, nothing but plain data. -/
def canonicalSerialize (j : Stringify) : JsValue → Except String String
  | .null => .ok "null"
  | .bool b => .ok (if b then "true" else "false")
  | .number (.finite q) => .ok (j.number q)
  | .string s => .ok (j.string s)
  | .array items => do
    let parts ← serializeItems j items
    .ok ("[" ++ String.intercalate "," parts ++ "]")
  | .object fields => do
    let parts ← serializeFields j fields
    .ok ("\x7b" ++ String.intercalate ","
      ((parts.insertionSort fun a b => textLe a.1 b.1 = true).map fun kv =>
        j.string kv.1 ++ ":" ++ kv.2) ++ "\x7d")
  | _ => .error "Transaction is not serializable"

/-- The items of an array. -/
def serializeItems (j : Stringify) : List JsValue → Except String (List String)
  | [] => .ok []
  | v :: vs => do
    let s ← canonicalSerialize j v
    let rest ← serializeItems j vs
    .ok (s :: rest)

/-- The fields of an object, each with its key. -/
def serializeFields (j : Stringify) :
    List (String × JsValue) → Except String (List (String × String))
  | [] => .ok []
  | (k, v) :: fields => do
    let s ← canonicalSerialize j v
    let rest ← serializeFields j fields
    .ok ((k, s) :: rest)

end

/-! ### Data -/

/-- What an approval is for; `other` is any text outside the list. -/
inductive ApprovalType where
  | sign | broadcast | allowance | bridge | withdraw | policyChange
  | other (name : String)
  deriving DecidableEq, Repr

/-- The text form of a type. -/
def ApprovalType.name : ApprovalType → String
  | sign => "sign"
  | broadcast => "broadcast"
  | allowance => "allowance"
  | bridge => "bridge"
  | withdraw => "withdraw"
  | policyChange => "policy-change"
  | other s => s

/-- `TYPES.has`. -/
def ApprovalType.isKnown : ApprovalType → Bool
  | other _ => false
  | _ => true

inductive ApprovalStatus where
  | pending | approved | denied | expired | revoked | consumed
  deriving DecidableEq, Repr

/-- The text form of a status. -/
def ApprovalStatus.name : ApprovalStatus → String
  | pending => "pending"
  | approved => "approved"
  | denied => "denied"
  | expired => "expired"
  | revoked => "revoked"
  | consumed => "consumed"

/-- A request that can still be approved or used. -/
def ApprovalStatus.IsOpen (s : ApprovalStatus) : Prop := s = .pending ∨ s = .approved

instance (s : ApprovalStatus) : Decidable s.IsOpen := by
  unfold ApprovalStatus.IsOpen; infer_instance

/-- The transaction an approval is bound to. -/
structure BoundTransaction where
  chain : String
  serializedTransaction : JsValue
  intentHash : String
  policyHash : String
  policyVersion : String
  simulationHash : String
  simulationBlock : String
  simulationState : String
  account : String
  nonce : String
  value : String
  calldata : String
  router : String

structure ApprovalRequestInput extends BoundTransaction where
  id : String
  type : ApprovalType
  proposerId : String
  expiresAt : JsNumber
  displayImpact : Option String

/-- Options of `request`; the engine refuses a challenge chosen by the caller. -/
structure RequestOptions where
  quorum : JsNumber
  hasChallenge : Bool

structure Operator where
  id : String
  roles : List String
  scopes : List String

/-- What an operator decides; `other` is any text outside the list. -/
inductive Decision where
  | approve | deny
  | other (name : String)
  deriving DecidableEq, Repr

structure DecisionInput where
  operatorId : String
  decision : Decision
  challenge : String
  nonce : String
  expectedRevision : JsNumber
  timestamp : Option JsNumber
  proof : Option String
  reason : Option String

/-- What a decision proof is checked against. -/
structure DecisionProof extends DecisionInput where
  requestId : String
  revision : JsNumber
  at_ : JsNumber
  operatorConfigVersion : String
  operatorConfigHash : String

structure RevokeInput where
  operatorId : String
  reason : String
  expectedRevision : JsNumber

/-- A row of `approval_requests`. -/
structure RequestRow where
  id : String
  type : ApprovalType
  proposerId : String
  binding : String
  tx : String
  displayImpact : Option String
  expiresAt : Int
  quorum : Int
  challenge : String
  status : ApprovalStatus
  revision : Int
  createdAt : Int
  configVersion : String
  configHash : String
  deriving DecidableEq, Repr

/-- A row of `approval_decisions`. -/
structure DecisionRow where
  requestId : String
  operatorId : String
  decision : Decision
  challenge : String
  nonce : String
  reason : Option String
  createdAt : Int
  proof : Option String
  deriving DecidableEq, Repr

/-- `UNIQUE(request_id, operator_id)`. -/
def DecisionRow.key (d : DecisionRow) : String × String := (d.requestId, d.operatorId)

/-- The database as one connection sees it. -/
structure ApprovalDb where
  requests : Table RequestRow.id
  decisions : Table DecisionRow.key
  /-- a transaction was left open on the connection -/
  inTransaction : Bool

def ApprovalDb.empty : ApprovalDb := ⟨.empty, .empty, false⟩

/-- An engine: its operators, no two with the same id, the configuration they were loaded
from, the proof verifier, and the host's JSON text and hash. -/
structure Engine where
  operators : Table Operator.id
  configVersion : String
  configHash : String
  verifyDecisionProof : DecisionProof → Bool
  stringify : Stringify
  sha256Hex : String → String

namespace Engine

variable (E : Engine)

/-- `canonicalHash`. -/
def canonicalHash (v : JsValue) : Except String String := do
  let text ← canonicalSerialize E.stringify v
  .ok (E.sha256Hex ("approval-v1\x00" ++ text))

/-- `boundKeys`: what of a transaction an approval is bound to. -/
def boundKeys (i : BoundTransaction) : Except String JsValue := do
  let transactionHash ← E.canonicalHash i.serializedTransaction
  .ok (.object [
    ("chain", .string i.chain),
    ("transactionHash", .string transactionHash),
    ("intentHash", .string i.intentHash),
    ("policyHash", .string i.policyHash),
    ("policyVersion", .string i.policyVersion),
    ("simulationHash", .string i.simulationHash),
    ("simulationBlock", .string i.simulationBlock),
    ("simulationState", .string i.simulationState),
    ("account", .string i.account),
    ("nonce", .string i.nonce),
    ("value", .string i.value),
    ("calldata", .string i.calldata),
    ("router", .string i.router)])

/-- The canonical text of a binding. -/
def binding (i : BoundTransaction) : Except String String := do
  let keys ← E.boundKeys i
  canonicalSerialize E.stringify keys

end Engine

/-- `text`. -/
def text (v name : String) (max : Nat) : Except String Unit :=
  throwIf (isBlank v ∨ textLength v > max) ("Invalid " ++ name)

/-! ### Operations -/

/-- What an operation returns or throws, and the database after it. -/
abbrev Outcome := Except String (Option RequestRow) × ApprovalDb

/-- The value has the field `key`. -/
def hasField (key : String) : JsValue → Bool
  | .object fields => fields.any fun kv => kv.1 = key
  | _ => false

/-- The texts of a request. -/
def validateTexts (i : ApprovalRequestInput) : Except String Unit := do
  text i.id "request id" 128
  text i.proposerId "proposer id" 128
  text i.chain "chain" 128
  text i.intentHash "intentHash hash" 256
  text i.policyHash "policyHash hash" 256
  text i.simulationHash "simulationHash hash" 256
  text i.policyVersion "policyVersion" 8192
  text i.simulationBlock "simulationBlock" 8192
  text i.simulationState "simulationState" 8192
  text i.account "account" 8192
  text i.nonce "nonce" 8192
  text i.value "value" 8192
  text i.calldata "calldata" 8192
  text i.router "router" 8192

/-- `validate`. -/
def validate (i : ApprovalRequestInput) : Except String Unit := do
  validateTexts i
  throwIf (¬ i.expiresAt.isSafeInteger) "Invalid expiry"
  throwIf (¬ (["to", "data", "value", "nonce"].all fun k => hasField k i.serializedTransaction))
    "Invalid canonical transaction"

/-- An operator who may decide on a request of this type. -/
def Operator.mayDecide (o : Operator) (type : ApprovalType) : Bool :=
  o.roles.contains "approver" && (o.scopes.contains "*" || o.scopes.contains type.name)

namespace ApprovalDb

variable (db : ApprovalDb)

/-- `raw`. -/
def raw (id : String) : Option RequestRow := db.requests.find? id

/-- Change the request `id` in place. -/
def setRequest (id : String) (f : RequestRow → RequestRow) (hf : ∀ r, (f r).id = r.id) :
    ApprovalDb :=
  { db with requests := db.requests.update (fun r => r.id = id) f hf }

/-- Move the request `id` on to `status`, as its next revision. -/
def advance (id : String) (status : ApprovalStatus) : ApprovalDb :=
  db.setRequest id (fun r => { r with status, revision := r.revision + 1 }) fun _ => rfl

/-- `expire`: the update is fenced by the revision that was read and by an open status. -/
def expire (r : RequestRow) : ApprovalDb :=
  { db with
    requests := db.requests.update
      (fun r' => r'.id = r.id ∧ r'.revision = r.revision ∧ r'.status.IsOpen)
      (fun r' => { r' with status := .expired, revision := r'.revision + 1 }) fun _ => rfl }

/-- How many operators approved the request. -/
def approvals (id : String) : Nat :=
  db.decisions.count fun d => d.requestId = id ∧ d.decision = .approve

end ApprovalDb

/-- What starting a transaction inside another one throws. -/
def nestedTransaction : String := "cannot start a transaction within a transaction"

/-- `get`: reading a request that is past its deadline expires it. `clock` is the reading
it takes. -/
def get (id : String) (clock : Int) (db : ApprovalDb) : Outcome :=
  match db.raw id with
  | none => (.ok none, db)
  | some r =>
    if r.status.IsOpen ∧ r.expiresAt ≤ clock then
      if db.inTransaction then (.error nestedTransaction, db)
      else (.ok ((db.expire r).raw id), db.expire r)
    else (.ok (some r), db)

namespace Engine

variable (E : Engine)

/-- A whole number of approvals that the operators other than the proposer can give. -/
def feasibleQuorum (input : ApprovalRequestInput) (quorum : JsNumber) : Except String Int :=
  let eligible := E.operators.count fun o => o.id ≠ input.proposerId ∧ o.mayDecide input.type
  match quorum.toBigInt? with
  | some q => if q < 1 ∨ q > eligible then .error "Invalid or infeasible quorum" else .ok q
  | none => .error "Invalid or infeasible quorum"

/-- The checks of `request`, and the row it writes. The first reading of the clock is
compared with the deadline, the second is the moment of creation. -/
def newRequest (input : ApprovalRequestInput) (options : RequestOptions) (challenge : String)
    (clock : Nat → Int) : Except String RequestRow := do
  validate input
  throwIf options.hasChallenge "Caller-supplied challenge is forbidden"
  throwIf (¬ input.type.isKnown) "Invalid request type"
  let quorum ← E.feasibleQuorum input options.quorum
  let expiresAt := input.expiresAt.toBigInt?.getD 0
  throwIf (expiresAt ≤ clock 0) "Request already expired"
  let tx ← canonicalSerialize E.stringify input.serializedTransaction
  let binding ← E.binding input.toBoundTransaction
  .ok {
    id := input.id, type := input.type, proposerId := input.proposerId, binding, tx
    displayImpact := input.displayImpact, expiresAt, quorum, challenge
    status := .pending, revision := 0, createdAt := clock 1
    configVersion := E.configVersion, configHash := E.configHash }

/-- `INSERT INTO approval_requests`: the id and the challenge are unique. -/
def insertRequest (row : RequestRow) (db : ApprovalDb) : Except String ApprovalDb :=
  if db.requests.rows.any fun r => r.challenge = row.challenge then
    .error "UNIQUE constraint failed: approval_requests.challenge"
  else match db.requests.insert? row with
    | some requests => .ok { db with requests }
    | none => .error "UNIQUE constraint failed: approval_requests.id"

/-- Register a request. `challenge` is what the random source returns. -/
def request (input : ApprovalRequestInput) (options : RequestOptions) (challenge : String)
    (clock : Nat → Int) (db : ApprovalDb) : Outcome :=
  match E.newRequest input options challenge clock with
  | .error e => (.error e, db)
  | .ok row =>
    match insertRequest row db with
    | .error e => (.error e, db)
    | .ok db' => get input.id (clock 2) db'

/-- `operator`: who may decide on, or revoke, a request of this type. -/
def operator (id : String) (type : ApprovalType) : Except String Unit :=
  match E.operators.find? id with
  | some o => throwIf (¬ o.mayDecide type) "Operator lacks approver role or scope"
  | none => .error "Operator lacks approver role or scope"

/-- The timestamp of a decision: its own, or the next reading of the clock. -/
def timestampOf (input : DecisionInput) (clock : Nat → Int) : JsNumber :=
  input.timestamp.getD (.ofInt (clock 1))

/-- What the proof of a decision is checked against. -/
def proofOf (requestId configVersion configHash : String) (input : DecisionInput)
    (clock : Nat → Int) : DecisionProof where
  toDecisionInput := input
  requestId := requestId
  revision := input.expectedRevision
  at_ := timestampOf input clock
  operatorConfigVersion := configVersion
  operatorConfigHash := configHash

/-- The decision carries a proof that verifies. -/
def proofVerifies (requestId configVersion configHash : String) (input : DecisionInput)
    (clock : Nat → Int) : Bool :=
  input.proof.getD "" ≠ "" &&
    E.verifyDecisionProof (proofOf requestId configVersion configHash input clock)

/-- The timestamp is a safe integer within five minutes of the clock. -/
def timestampFresh (timestamp : JsNumber) (now : Int) : Bool :=
  timestamp.isSafeInteger && match timestamp.toBigInt? with
    | some t => decide ((now - t).natAbs ≤ 300000)
    | none => false

/-- The checks of `decide` on the row it read. -/
def checkDecision (r : RequestRow) (input : DecisionInput) (clock : Nat → Int)
    (db : ApprovalDb) : Except String Unit := do
  throwIf (r.expiresAt ≤ clock 0) "Approval expired"
  throwIf (r.status ≠ .pending) ("Approval is " ++ r.status.name)
  throwIf (.ofInt r.revision ≠ input.expectedRevision) "Revision conflict"
  throwIf (input.operatorId = r.proposerId) "Self-approval is forbidden"
  E.operator input.operatorId r.type
  throwIf (input.challenge ≠ r.challenge) "Challenge mismatch"
  throwIf (¬ timestampFresh (timestampOf input clock) (clock 2)) "Invalid proof timestamp"
  throwIf (¬ E.proofVerifies r.id r.configVersion r.configHash input clock)
    "Invalid decision proof"
  throwIf (db.decisions.find? (r.id, input.operatorId)).isSome "Distinct operator required"

/-- `INSERT INTO approval_decisions`: nonces are unique, and an operator decides once. -/
def insertDecision (row : DecisionRow) (db : ApprovalDb) : Except String ApprovalDb :=
  if db.decisions.rows.any fun d => d.nonce = row.nonce then .error "Decision nonce replay"
  else match db.decisions.insert? row with
    | some decisions => .ok { db with decisions }
    | none => .error "UNIQUE constraint failed: approval_decisions.request_id"

/-- The status after a decision: a denial is final, and the approval that completes the
quorum approves. -/
def statusAfter (decision : Decision) (approvals : Nat) (quorum : Int) : ApprovalStatus :=
  if decision = .deny then .denied else if approvals ≥ quorum then .approved else .pending

/-- The transaction of `decide`. -/
def decideIn (id : String) (input : DecisionInput) (clock : Nat → Int) (db : ApprovalDb) :
    Except String ApprovalDb :=
  match db.raw id with
  | none => .error "Unknown approval"
  | some r => do
    E.checkDecision r input clock db
    let db' ← insertDecision ⟨id, input.operatorId, input.decision, input.challenge, input.nonce,
      input.reason, clock 3, input.proof⟩ db
    .ok (db'.advance id (statusAfter input.decision (db'.approvals id) r.quorum))

/-- An operator decides. -/
def decide (id : String) (input : DecisionInput) (clock : Nat → Int) (db : ApprovalDb) :
    Outcome :=
  match text input.nonce "decision nonce" 256 with
  | .error e => (.error e, db)
  | .ok () =>
    match input.decision with
    | .other _ => (.error "Invalid decision", db)
    | _ =>
      if db.inTransaction then (.error nestedTransaction, db)
      else match E.decideIn id input clock db with
        | .ok db' => get id (clock 4) db'
        | .error e => (.error e, db)

/-- The transaction of `revoke`. -/
def revokeIn (id : String) (input : RevokeInput) (db : ApprovalDb) : Except String ApprovalDb :=
  match db.raw id with
  | none => .error "Unknown approval"
  | some r => do
    E.operator input.operatorId r.type
    throwIf (.ofInt r.revision ≠ input.expectedRevision) "Revision conflict"
    throwIf (¬ r.status.IsOpen) ("Approval is " ++ r.status.name)
    .ok (db.advance id .revoked)

/-- An operator revokes a request. -/
def revoke (id : String) (input : RevokeInput) (clock : Nat → Int) (db : ApprovalDb) : Outcome :=
  match text input.reason "reason" 2048 with
  | .error e => (.error e, db)
  | .ok () =>
    if db.inTransaction then (.error nestedTransaction, db)
    else match E.revokeIn id input db with
      | .ok db' => get id (clock 0) db'
      | .error e => (.error e, db)

/-- The checks of `consume` on a request that is within its deadline. -/
def checkConsumption (r : RequestRow) (input : BoundTransaction) : Except String Unit := do
  throwIf (r.status ≠ .approved) ("Approval is " ++ r.status.name)
  let binding ← E.binding input
  throwIf (binding ≠ r.binding) "Exact transaction mismatch"

/-- Use an approval. A refused request that already was `expired` is the one exit that
leaves the transaction open. -/
def consume (id : String) (input : BoundTransaction) (clock : Nat → Int) (db : ApprovalDb) :
    Outcome :=
  if db.inTransaction then (.error nestedTransaction, db)
  else match db.raw id with
    | none => (.error "Unknown approval", db)
    | some r =>
      if r.expiresAt ≤ clock 0 then (.error "Approval expired", db.expire r)
      else match E.checkConsumption r input with
        | .ok () => get id (clock 1) (db.advance id .consumed)
        | .error e => (.error e, { db with inTransaction := r.status = .expired })

end Engine

/-! ### Runs -/

/-- An operation with its arguments and the readings of the clock it takes. -/
inductive Command where
  | request (input : ApprovalRequestInput) (options : RequestOptions) (challenge : String)
      (clock : Nat → Int)
  | decide (id : String) (input : DecisionInput) (clock : Nat → Int)
  | revoke (id : String) (input : RevokeInput) (clock : Nat → Int)
  | consume (id : String) (input : BoundTransaction) (clock : Nat → Int)
  | get (id : String) (clock : Nat → Int)

def Engine.perform (E : Engine) (db : ApprovalDb) : Command → Outcome
  | .request input options challenge clock => E.request input options challenge clock db
  | .decide id input clock => E.decide id input clock db
  | .revoke id input clock => E.revoke id input clock db
  | .consume id input clock => E.consume id input clock db
  | .get id clock => get id (clock 0) db

/-- A performed operation and whether it returned or threw. -/
structure Performed where
  command : Command
  result : Except String (Option RequestRow)

/-- The database and everything performed on it so far, oldest first. -/
structure Session where
  db : ApprovalDb
  log : List Performed

def Session.start : Session := ⟨.empty, []⟩

def Engine.step (E : Engine) (s : Session) (c : Command) : Session :=
  let out := E.perform s.db c
  ⟨out.2, s.log ++ [⟨c, out.1⟩]⟩

/-- Any sequence of operations on a new database. -/
def Engine.run (E : Engine) (cs : List Command) : Session := cs.foldl E.step .start

end AriOs.Execution.Approvals
