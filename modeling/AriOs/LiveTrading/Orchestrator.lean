import AriOs.Async.Pool
import AriOs.Execution.Approvals
import AriOs.Js.Throw
import AriOs.LiveTrading.Store

/-!
# The trading orchestrator

Every operation of the orchestrator is a body of calls: statements on the store, the
reservation port, the approval engine, the authorization issuer, the isolated signer and the
RPC. The approval engine, the issuer, the risk check, the signer and the RPC may answer
anything, or throw; so may the clock.

A call says which execution it is made for where the code knows it and the call itself does
not say it: the read of which function it is, the execution whose signature is looked up, the
execution an envelope is for.
-/

namespace AriOs.LiveTrading

open AriOs.Async AriOs.Execution AriOs.Execution.Approvals AriOs.Js AriOs.Storage

/-! ### Calls -/

/-- Which function reads an execution. -/
inductive Caller where
  | approval | submit | submitFailed | expire | recover | reconcile
  deriving DecidableEq, Repr

/-- What the signer returns for an envelope. -/
structure SignerSignResponse where
  transaction : Option String
  signature : Option String
  broadcast : Option String
  deriving DecidableEq, Repr

inductive SignerResultState where
  | signed | expired | notFound
  | other (name : String)
  deriving DecidableEq, Repr

/-- What the signer says about an authorization. -/
structure SignerResultResponse where
  state : SignerResultState
  transaction : Option String
  signature : Option String
  deriving DecidableEq, Repr

/-- What a simulation returns: evidence for an exact transaction, or a plain verdict. -/
inductive SimulationAnswer where
  | evidence (e : SimulationEvidence)
  | plain (success : Bool)
  deriving DecidableEq, Repr

/-- What the cluster says about a signature it has seen. -/
structure SignatureStatus where
  slot : Int
  confirmationStatus : Commitment
  err : Bool
  deriving DecidableEq, Repr

structure RiskVerdict where
  hash : String
  allowed : Bool
  deriving DecidableEq, Repr

/-- What the orchestrator calls. -/
inductive Op where
  | now
  | byIdempotency (key : String)
  | get (caller : Caller) (id : String)
  | list (states : List TradeState)
  | create (x : NewExecution) (state : TradeState)
  | transition (id : String) (source : List TradeState) (patch : Patch)
  | reserve (quoteHash messageHash : String)
  | valid (id : String)
  | commit (id : String)
  | release (id : String)
  | simulate (q : Quote)
  | assessRisk (q : Quote)
  | requestApproval (approvalId actor : String) (q : Quote) (evidence : SimulationEvidence)
  | approvalStatus (approvalId : String)
  | decide (approvalId : String) (input : DecisionInput)
  | consumeApproval (approvalId : String) (q : Quote) (evidence : SimulationEvidence)
  | issue (x : Execution) (q : Quote)
  | sign (executionId transaction authorizationId : String)
  | signerResult (authorizationId messageHash : String)
  | broadcast (wire : String)
  | status (x : Execution)
  | blockHeight
  | heightFor (x : Execution)

/-- What the environment contributes. The risk check may read the ledger on the way, which
expires rows; it says at which reading of the clock. -/
def Op.Ans : Op → Type
  | now => Int
  | create _ _ => String × Int
  | transition _ _ _ | reserve _ _ | commit _ => Int
  | simulate _ => Except String SimulationAnswer
  | assessRisk _ => Option Int × Except String RiskVerdict
  | requestApproval _ _ _ _ | decide _ _ | consumeApproval _ _ _ => Except String Unit
  | approvalStatus _ => Except String (Option ApprovalStatus)
  | issue _ _ | broadcast _ => Except String String
  | sign _ _ _ => Except String SignerSignResponse
  | signerResult _ _ => Except String SignerResultResponse
  | status _ => Except String (Option SignatureStatus)
  | blockHeight | heightFor _ => Except String JsNumber
  | _ => Unit

/-- What the orchestrator is handed. -/
def Op.Res : Op → Type
  | byIdempotency _ | get _ _ => Option Execution
  | list _ => List Execution
  | create _ _ | transition _ _ _ => Except String Execution
  | reserve _ _ => Except String String
  | valid _ | commit _ | release _ => Bool
  | assessRisk _ => Except String RiskVerdict
  | o => o.Ans

/-- The orchestrator's calls. -/
def interface : Interface := ⟨Op, Op.Ans, Op.Res⟩

/-- What each call does to the store. -/
def machine (cfg : Config) : Machine interface LiveStore where
  handle
    | .byIdempotency key, s, _ => (s.byIdempotency key, s)
    | .get _ id, s, _ => (s.executions.find? id, s)
    | .list states, s, _ => (s.list states, s)
    | .create x state, s, a => s.create x state a.1 a.2
    | .transition id source patch, s, a => s.transition id source patch a
    | .reserve quoteHash messageHash, s, a => s.reserve cfg quoteHash messageHash a
    | .valid id, s, _ => (s.valid id, s)
    | .commit id, s, a => s.commit id a
    | .release id, s, _ => s.release id
    | .assessRisk _, s, a =>
      (a.2, match a.1 with
        | some now => { s with ledger := s.ledger.expire now }
        | none => s)
    | .now, s, a => (a, s)
    | .simulate _, s, a => (a, s)
    | .requestApproval _ _ _ _, s, a => (a, s)
    | .approvalStatus _, s, a => (a, s)
    | .decide _ _, s, a => (a, s)
    | .consumeApproval _ _ _, s, a => (a, s)
    | .issue _ _, s, a => (a, s)
    | .sign _ _ _, s, a => (a, s)
    | .signerResult _ _, s, a => (a, s)
    | .broadcast _, s, a => (a, s)
    | .status _, s, a => (a, s)
    | .blockHeight, s, a => (a, s)
    | .heightFor _, s, a => (a, s)

/-! ### Calls in the types the orchestrator uses them at -/

/-- The orchestrator's code, up to its throws. -/
abbrev Live (α : Type) := Task interface String α

namespace Live

def now : Live Int := Task.total (I := interface) .now

def byIdempotency (key : String) : Live (Option Execution) :=
  Task.total (I := interface) (.byIdempotency key)

def get (caller : Caller) (id : String) : Live (Option Execution) :=
  Task.total (I := interface) (.get caller id)

def list (states : List TradeState) : Live (List Execution) :=
  Task.total (I := interface) (.list states)

def valid (id : String) : Live Bool := Task.total (I := interface) (.valid id)

def create (x : NewExecution) (state : TradeState) : Live Execution :=
  ExceptT.mk (Prog.ask (I := interface) (.create x state))

def transition (id : String) (source : List TradeState) (patch : Patch) : Live Execution :=
  ExceptT.mk (Prog.ask (I := interface) (.transition id source patch))

def reserve (quoteHash messageHash : String) : Live String :=
  ExceptT.mk (Prog.ask (I := interface) (.reserve quoteHash messageHash))

def simulate (q : Quote) : Live SimulationAnswer :=
  ExceptT.mk (Prog.ask (I := interface) (.simulate q))

def assessRisk (q : Quote) : Live RiskVerdict :=
  ExceptT.mk (Prog.ask (I := interface) (.assessRisk q))

def requestApproval (approvalId actor : String) (q : Quote) (evidence : SimulationEvidence) :
    Live Unit :=
  ExceptT.mk (Prog.ask (I := interface) (.requestApproval approvalId actor q evidence))

def approvalStatus (approvalId : String) : Live (Option ApprovalStatus) :=
  ExceptT.mk (Prog.ask (I := interface) (.approvalStatus approvalId))

def decide (approvalId : String) (input : DecisionInput) : Live Unit :=
  ExceptT.mk (Prog.ask (I := interface) (.decide approvalId input))

def consumeApproval (approvalId : String) (q : Quote) (evidence : SimulationEvidence) : Live Unit :=
  ExceptT.mk (Prog.ask (I := interface) (.consumeApproval approvalId q evidence))

def issue (x : Execution) (q : Quote) : Live String :=
  ExceptT.mk (Prog.ask (I := interface) (.issue x q))

def sign (executionId transaction authorizationId : String) : Live SignerSignResponse :=
  ExceptT.mk (Prog.ask (I := interface) (.sign executionId transaction authorizationId))

def signerResult (authorizationId messageHash : String) : Live SignerResultResponse :=
  ExceptT.mk (Prog.ask (I := interface) (.signerResult authorizationId messageHash))

def broadcast (wire : String) : Live String :=
  ExceptT.mk (Prog.ask (I := interface) (.broadcast wire))

def status (x : Execution) : Live (Option SignatureStatus) :=
  ExceptT.mk (Prog.ask (I := interface) (.status x))

def blockHeight : Live JsNumber := ExceptT.mk (Prog.ask (I := interface) .blockHeight)

def heightFor (x : Execution) : Live JsNumber :=
  ExceptT.mk (Prog.ask (I := interface) (.heightFor x))

/-- Code that makes no call. -/
def check {α : Type} (x : Except String α) : Live α := Task.ofExcept x

end Live

open Live

/-- `require`. -/
def require (caller : Caller) (id : String) : Live Execution := do
  let x ← get caller id
  check (orThrow x "execution_not_found")

/-- `height > lastValidBlockHeight`. -/
def isPast (height : JsNumber) (lastValidBlockHeight : Int) : Bool :=
  (JsNumber.ofInt lastValidBlockHeight).lt height

section

variable (cfg : Config)

/-! ### From a quote to an approved execution -/

/-- The evidence `execute` goes on with. -/
def simulated (q : Quote) : Live (Option SimulationEvidence) := do
  let answer ← simulate q
  match q.request, answer with
  | some _, .evidence e => return some e
  | some _, .plain _ => throw "simulation_evidence_required"
  | none, .plain true => return q.evidence
  | none, _ => throw "simulation_failed"

/-- `this.c.risk?.assess(..)`, and its refusal. -/
def assessed (q : Quote) : Live (Option RiskVerdict) :=
  if cfg.hasRisk then do
    let verdict ← assessRisk q
    check (throwIf (verdict.allowed = false) "risk_denied")
    return some verdict
  else return none

/-- `this.c.reservations?.reserve(..)`. -/
def reserved (q : Quote) (request : SimulationRequest) : Live (Option String) :=
  if cfg.hasReservations then do
    let id ← reserve q.quoteHash request.messageHash
    return some id
  else return none

/-- What `execute` creates an execution from. -/
def newExecution (q : Quote) (actor key : String) (dryRun : Bool) : NewExecution where
  quoteId := q.id
  quoteHash := q.quoteHash
  intentHash := q.intentHash
  policyHash := q.policyHash
  actor := actor
  dryRun := dryRun
  idempotencyKey := key

/-- `this.c.approvalEngine?.request(..)`, under the id of the execution. -/
def registerApproval (q : Quote) (evidence : SimulationEvidence) (actor : String)
    (x : Execution) : Live Unit :=
  if cfg.hasApprovalEngine then requestApproval x.id actor q evidence else pure ()

/-- The execution is there: approve it outright, or ask for an approval. -/
def awaitApproval (q : Quote) (evidence : SimulationEvidence) (actor : String) (x : Execution) :
    Live Execution :=
  if cfg.approvalRequired then do
    registerApproval cfg q evidence actor x
    transition x.id [.awaitingApproval] { approvalId := some x.id }
  else transition x.id [.awaitingApproval] { state := some .approved }

/-- The live half of `execute`: check that the transaction can still land, assess the risk,
reserve, create the execution. -/
def executeLive (q : Quote) (actor key : String) (evidence : Option SimulationEvidence) :
    Live Execution := do
  let request ← check (orThrow q.request "exact_transaction_required")
  let evidence ← check (orThrow evidence "exact_transaction_required")
  check (throwIf (evidence.messageHash ≠ request.messageHash) "simulation_transaction_mismatch")
  let height ← blockHeight
  check (throwIf (isPast height q.lastValidBlockHeight = true) "blockhash_expired")
  let risk ← assessed cfg q
  let reservationId ← reserved cfg q request
  let x ← create { newExecution q actor key false with
    riskHash := risk.map RiskVerdict.hash, reservationId
    simulationHash := some evidence.hash
    lastValidBlockHeight := some q.lastValidBlockHeight } .awaitingApproval
  awaitApproval cfg q evidence actor x

def execute (quoteId key actor : String) (dryRun : Bool) : Live Execution := do
  match ← byIdempotency key with
  | some old => return old
  | none => do
    let q ← check (orThrow (cfg.quotes.find? quoteId) "quote_not_found")
    let at_ ← now
    check (throwIf (q.expiresAt < at_) "quote_expired")
    check (throwIf (dryRun = false ∧ cfg.liveEnabled = false) "live_trading_disabled")
    let evidence ← simulated q
    if dryRun then
      create { newExecution q actor key true with
        simulationHash := evidence.map SimulationEvidence.hash } .dryRun
    else executeLive cfg q actor key evidence

/-- `refreshApproval`: take over what the approval engine says. -/
def refreshApproval (id : String) (operator : Option String) : Live Execution := do
  let x ← require .approval id
  if x.state ≠ .awaitingApproval then return x
  else do
    let approvalId ← check (orThrow (if cfg.hasApprovalEngine then x.approvalId else none)
      "approval unavailable")
    let answer ← approvalStatus approvalId
    let status ← check (orThrow answer "approval record missing")
    match status with
    | .denied => transition id [.awaitingApproval] { state := some .denied, approver := operator }
    | .approved => transition id [.awaitingApproval] { state := some .approved, approver := operator }
    | _ => return x

/-- The decision of `approve`; without an approval engine none is taken. -/
def recordApproval (operator : String) (input : Option DecisionInput)
    (approvalId : Option String) : Live Unit :=
  match input, approvalId with
  | some input, some approvalId =>
    if cfg.hasApprovalEngine then decide approvalId { input with operatorId := operator }
    else pure ()
  | _, _ => check (throwIf (cfg.hasApprovalEngine = true) "decision proof required")

def approve (id operator : String) (input : Option DecisionInput) : Live Execution := do
  let x ← require .approval id
  check (throwIf (x.actor = operator) "self approval prohibited")
  check (throwIf (x.state ≠ .awaitingApproval) "not awaiting approval")
  recordApproval cfg operator input x.approvalId
  refreshApproval cfg id (some operator)

def deny (id operator : String) (input : Option DecisionInput) : Live Execution := do
  let x ← require .approval id
  check (throwIf (x.state ≠ .awaitingApproval) "not awaiting approval")
  let input ← check (orThrow input "decision proof required")
  let approvalId ← check (orThrow (if cfg.hasApprovalEngine then x.approvalId else none)
    "decision proof required")
  decide approvalId { input with operatorId := operator, decision := .deny }
  refreshApproval cfg id (some operator)

/-! ### From an approved execution to a broadcast one -/

/-- `if (x.reservationId) await this.c.reservations?.release(x.reservationId)`. -/
def releaseIfHeld (reservationId : Option String) : Live Unit :=
  match reservationId with
  | some rid => if cfg.hasReservations then Task.perform (I := interface) (.release rid) else pure ()
  | none => pure ()

/-- `await this.c.reservations?.commit(x.reservationId!)`. -/
def commitHeld (reservationId : Option String) : Live Unit :=
  if cfg.hasReservations then
    match reservationId with
    | some rid => Task.perform (I := interface) (.commit rid)
    | none => throw "Provided value cannot be bound to SQLite parameter"
  else pure ()

/-- `expire`: burn the execution because its blockhash can no longer land. -/
def expire (id : String) (source : List TradeState) : Live Execution := do
  let x ← get .expire id
  releaseIfHeld cfg (x.bind (·.reservationId))
  transition id source { state := some .expired }

/-- `assertSignedTransaction`: the wire bytes, with the signature that is on them. -/
def assertSignedTransaction (transaction signature : Option String) :
    Except String (String × String) := do
  let transaction ← orThrow transaction "invalid_signer_response"
  let signature ← orThrow (signature.filter fun s => s ≠ "") "invalid_signer_response"
  let attached ← (Signer.signatureOf cfg.web3 cfg.encodings transaction).mapError fun _ =>
    "invalid_signer_response"
  throwIf (attached ≠ signature) "invalid_signer_response"
  .ok (transaction, attached)

/-- What is written once a signature exists, before it is sent. -/
def submittingPatch (q : Quote) (request : SimulationRequest) (signature : String)
    (authorizationId : Option String) : Patch where
  state := some .submitting
  authorizationId := authorizationId
  messageHash := some request.messageHash
  signature := some signature
  lastValidBlockHeight := some q.lastValidBlockHeight

/-- The broadcast was acknowledged: commit the reservation, and say so. -/
def acknowledge (id : String) (x : Execution) (landed : String) : Live Execution := do
  commitHeld cfg x.reservationId
  transition id [.submitting] { state := some .broadcast, signature := some landed }

/-- `signed.broadcast ?? (await this.c.rpc.broadcast(signed.transaction))`. -/
def sent (reported : Option String) (wire : String) : Live String :=
  match reported with
  | some s => pure s
  | none => broadcast wire

/-- The `try` block of `submit`. -/
def signAndSend (id : String) (q : Quote) (request : SimulationRequest) (x : Execution) :
    Live Execution := do
  let authorizationId ← issue x q
  let _ ← transition id [.signing] { authorizationId := some authorizationId }
  let signed ← sign id request.transaction authorizationId
  let proven ← check (assertSignedTransaction cfg signed.transaction signed.signature)
  let x ← transition id [.signing] (submittingPatch q request proven.2 (some authorizationId))
  let landed ← sent signed.broadcast proven.1
  check (throwIf (landed ≠ proven.2) "broadcast_signature_mismatch")
  acknowledge cfg id x landed

/-- The `catch` block of `submit`: after the signature was stored its outcome is open. -/
def submitFailed (id : String) (e : String) : Live Execution := do
  let current ← require .submitFailed id
  if current.state = .submitting then do
    let _ ← transition id [.submitting] { state := some .reconciliationRequired }
    throw e
  else throw e

/-- `x.reservationId && this.c.reservations && !(await this.c.reservations.valid(..))`. -/
def checkReservation (reservationId : Option String) : Live Unit :=
  match reservationId with
  | some rid =>
    if cfg.hasReservations then do
      let held ← valid rid
      check (throwIf (held = false) "reservation_invalid")
    else pure ()
  | none => pure ()

/-- Consume the approval unless that was done before. -/
def ensureConsumed (q : Quote) (evidence : SimulationEvidence) (x : Execution) : Live Unit := do
  let approvalId ← check (orThrow (if cfg.hasApprovalEngine then x.approvalId else none)
    "approval unavailable")
  let answer ← approvalStatus approvalId
  if answer = some .consumed then pure () else consumeApproval approvalId q evidence

/-- The move to `signing`; an execution found there stays there. -/
def enterSigning (id : String) (x : Execution) : Live Execution :=
  if x.state = .approved then transition id [.approved] { state := some .signing } else pure x

def submit (id : String) : Live Execution := do
  let x ← require .submit id
  check (throwIf (x.state ≠ .approved ∧ x.state ≠ .signing)
    (if x.state = .submitting then "submission in progress" else "not approved"))
  let q ← check (orThrow (cfg.quotes.find? x.quoteId) "exact_transaction_required")
  let request ← check (orThrow q.request "exact_transaction_required")
  let evidence ← check (orThrow q.evidence "exact_transaction_required")
  check (throwIf (cfg.liveEnabled = false ∨ cfg.hasSigner = false ∨
    cfg.hasAuthorizationIssuer = false) "signer unavailable")
  let at_ ← now
  check (throwIf (q.expiresAt ≤ at_) "quote_expired")
  let height ← blockHeight
  if isPast height q.lastValidBlockHeight then do
    let _ ← expire cfg id [x.state]
    throw "blockhash_expired"
  else do
    checkReservation cfg x.reservationId
    ensureConsumed cfg q evidence x
    let x ← enterSigning id x
    (signAndSend cfg id q request x).orCatch (submitFailed id) pure

/-! ### Recovery and settlement -/

def recover (id : String) : Live Execution := do
  let x ← require .recover id
  if x.state = .submitting then
    transition id [.submitting] { state := some .reconciliationRequired }
  else return x

/-- A signature that was recovered is stored, sent once and acknowledged. -/
def sendRecovered (id : String) (q : Quote) (request : SimulationRequest)
    (wire signature : String) : Live Execution := do
  let x ← transition id [.signing] (submittingPatch q request signature none)
  let landed ← broadcast wire
  if landed ≠ signature then do
    let _ ← transition id [.submitting] { state := some .reconciliationRequired }
    throw "broadcast_signature_mismatch"
  else acknowledge cfg id x landed

/-- `recoverSigning`: retrieve what the signer may have signed, never authorize it again. -/
def recoverSigning (row : Execution) : Live Execution := do
  let q ← check (orThrow (cfg.quotes.find? row.quoteId) "exact_transaction_required")
  let request ← check (orThrow q.request "exact_transaction_required")
  match row.authorizationId with
  | none => submit cfg row.id
  | some authorizationId => do
    check (throwIf (cfg.hasSigner = false ∨ cfg.hasSignerResult = false)
      "signer_result_unavailable")
    let signed ← signerResult authorizationId request.messageHash
    match signed.state with
    | .expired => do
      let _ ← expire cfg row.id [.signing]
      throw "authorization_expired"
    | .notFound => throw "signer_result_not_found"
    | .other _ => throw "signer_result_invalid"
    | .signed => do
      check (throwIf (signed.transaction.getD "" = "") "signer_result_raw_unavailable")
      let proven ← check (assertSignedTransaction cfg signed.transaction signed.signature)
      sendRecovered cfg row.id q request proven.1 proven.2

/-- The state a status of the cluster settles an execution in. -/
def settledState (st : SignatureStatus) : TradeState :=
  if st.err then .failed
  else if st.confirmationStatus = .finalized ∨
      (cfg.finalityCommitment = .confirmed ∧ st.confirmationStatus = .confirmed) then .finalized
  else .confirmed

/-- The blockhash of an execution can no longer land. -/
def blockhashDead (x : Execution) : Live Bool :=
  match x.lastValidBlockHeight with
  | some last => do
    let height ← heightFor x
    return isPast height last
  | none => return false

/-- A signature the cluster has not seen: dropped once its blockhash is dead. -/
def settleUnseen (id : String) (x : Execution) : Live Execution := do
  let dead ← blockhashDead x
  if dead then do
    releaseIfHeld cfg x.reservationId
    transition id [x.state] { state := some .dropped }
  else if x.state = .reconciliationRequired then return x
  else transition id [x.state] { state := some .reconciliationRequired }

/-- `reconcile`: settle an execution by what the cluster says about its signature. -/
def reconcile (id : String) : Live Execution := do
  let x ← require .reconcile id
  let signature ← check (orThrow x.signature "transaction_not_broadcast")
  match ← status x with
  | none => settleUnseen cfg id x
  | some st =>
    transition id [x.state]
      { state := some (settledState cfg st), signature := some signature, slot := some st.slot }

structure Recovery where
  scanned : Nat
  recovered : Nat
  reconciled : Nat
  failed : Nat
  deriving DecidableEq, Repr

/-- What is done about one row, and how it is counted. -/
def recoverRow (row : Execution) : Live (Recovery → Recovery) :=
  match row.state with
  | .signing => do
    let _ ← recoverSigning cfg row
    return fun r => { r with recovered := r.recovered + 1 }
  | .submitting => do
    let _ ← recover row.id
    return fun r => { r with recovered := r.recovered + 1 }
  | _ => do
    let _ ← reconcile cfg row.id
    return fun r => { r with reconciled := r.reconciled + 1 }

/-- The loop of `recoverAndReconcile`: a row that throws is counted and passed over. -/
def recoverRows : List Execution → Recovery → Live Recovery
  | [], r => return r
  | row :: rows, r =>
    (recoverRow cfg row).orCatch
      (fun _ => recoverRows rows { r with failed := r.failed + 1 })
      fun count => recoverRows rows (count r)

def recoverAndReconcile (limit : Nat) : Live Recovery := do
  let rows ← list [.signing, .submitting, .reconciliationRequired, .broadcast, .confirmed]
  let rows := rows.take limit
  recoverRows cfg rows ⟨rows.length, 0, 0, 0⟩

end

/-! ### Runs -/

/-- An operation with its arguments. -/
inductive Request where
  | execute (quoteId key actor : String) (dryRun : Bool)
  | approve (id operator : String) (input : Option DecisionInput)
  | deny (id operator : String) (input : Option DecisionInput)
  | refreshApproval (id : String) (operator : Option String)
  | submit (id : String)
  | recover (id : String)
  | recoverSigning (row : Execution)
  | recoverAndReconcile (limit : Nat)
  | reconcile (id : String)

/-- What an operation returns. -/
inductive Response where
  | execution (x : Execution)
  | recovery (r : Recovery)
  deriving DecidableEq, Repr

/-- An operation that returns an execution. -/
def reply (x : Live Execution) : Live Response := do
  let x ← x
  return .execution x

/-- The body of an operation. -/
def serve (cfg : Config) : Request → Live Response
  | .execute quoteId key actor dryRun => reply (execute cfg quoteId key actor dryRun)
  | .approve id operator input => reply (approve cfg id operator input)
  | .deny id operator input => reply (deny cfg id operator input)
  | .refreshApproval id operator => reply (refreshApproval cfg id operator)
  | .submit id => reply (submit cfg id)
  | .recover id => reply (recover id)
  | .recoverSigning row => reply (recoverSigning cfg row)
  | .recoverAndReconcile limit => do
    let r ← recoverAndReconcile cfg limit
    return .recovery r
  | .reconcile id => reply (reconcile cfg id)

abbrev LivePool := Pool interface LiveStore Request (Except String Response)

abbrev LiveCall := Call interface Request (Except String Response)

/-- Any number of operations, interleaved in any way, from an empty store. -/
def liveRun (cfg : Config) (es : List (Event interface Request)) : LivePool :=
  (Pool.start .empty).run (machine cfg) (fun r => (serve cfg r).run) es

/-- Every event of such a run meets a condition in the state it finds. -/
abbrev liveMeets (cfg : Config) (cond : LivePool → Event interface Request → Prop)
    (es : List (Event interface Request)) : Prop :=
  Pool.Meets (machine cfg) (fun r => (serve cfg r).run) cond (Pool.start .empty) es

/-! ### A sample composition

One quote, to spend 5 of `mint` under a cap of 5; what the collaborators answer is written
out once, and the runs further on change an answer at a time. -/

/-- What a simulation of the sample transaction is recorded as. -/
def sampleEvidence : SimulationEvidence where
  hash := "evidence"
  messageHash := "message"
  slot := 5
  blockhash := "hash"
  unitsConsumed := 1000
  feeLamports := 5000
  logs := []
  accountStates := []
  assetDeltas := []
  capabilities := ⟨true, true, true, true⟩

def sampleSimulation : SimulationRequest where
  cluster := "devnet"
  transaction := "AQ=="
  message := "Bw=="
  messageHash := "message"
  feePayer := "payer"
  recentBlockhash := "hash"
  lastValidBlockHeight := 100
  programIds := ["program"]
  accountKeys := ["payer", "program"]
  instructions := [⟨"program", [some "payer"], "02"⟩]
  addressTableLookups := []
  policyHash := "policy"

def sampleQuote : Quote where
  id := "q1"
  side := .buy
  cluster := "devnet"
  inputMint := "mint"
  amountIn := 5
  lastValidBlockHeight := 100
  expiresAt := 1000
  intentHash := "intent"
  quoteHash := "quote"
  policyHash := "policy"
  request := some sampleSimulation
  evidence := some sampleEvidence

/-- The transaction of the sample quote, signed. -/
def sampleSigned : Signer.VersionedTransaction where
  message := {
    version := .legacy, numRequiredSignatures := 1, staticAccountKeys := ["payer", "program"]
    recentBlockhash := "hash", compiledInstructions := [⟨1, [0], [2]⟩], addressTableLookups := [] }
  signatures := [List.replicate 64 1]

def sampleConfig : Config where
  quotes := ⟨[sampleQuote], by simp⟩
  approvalRequired := true
  policyVersion := 1
  finalityCommitment := .finalized
  liveEnabled := true
  hasSigner := true
  hasSignerResult := true
  hasApprovalEngine := true
  hasAuthorizationIssuer := true
  hasRisk := false
  hasReservations := true
  ledger := ⟨60, none⟩
  maxReservedPerToken _ := some 5
  web3 := {
    deserialize := fun raw => if raw = [1] then .ok sampleSigned else .error "no transaction"
    serialize := fun _ => .ok [1]
    serializeMessage := fun _ => .ok [7] }
  encodings := {
    fromBase64 := fun s => if s = "AQ==" then [1] else []
    toBase64 := fun b => if b = [1] then "AQ==" else "Bw=="
    base58 := fun _ => "signature"
    sha256 := fun _ => "ab" }
  sha256 s := s
  separates a b h := by simpa using congrArg String.toList h

/-- The signer signs, the cluster takes the transaction, sees it as final, and is at height
90. -/
def sampleAnswers : ∀ o, interface.Ans o
  | .now => (10 : Int)
  | .create _ _ => (("x1", 10) : String × Int)
  | .transition _ _ _ | .reserve _ _ | .commit _ => (10 : Int)
  | .simulate _ => (.ok (.evidence sampleEvidence) : Except String SimulationAnswer)
  | .assessRisk _ => ((none, .error "no risk check") : Option Int × Except String RiskVerdict)
  | .requestApproval _ _ _ _ | .decide _ _ | .consumeApproval _ _ _ =>
    (.ok () : Except String Unit)
  | .approvalStatus _ => (.ok (some .approved) : Except String (Option ApprovalStatus))
  | .issue _ _ => (.ok "a1" : Except String String)
  | .broadcast _ => (.ok "signature" : Except String String)
  | .sign _ _ _ => (.ok ⟨some "AQ==", some "signature", none⟩ : Except String SignerSignResponse)
  | .signerResult _ _ =>
    (.ok ⟨.signed, some "AQ==", some "signature"⟩ : Except String SignerResultResponse)
  | .status _ => (.ok (some ⟨7, .finalized, false⟩) : Except String (Option SignatureStatus))
  | .blockHeight | .heightFor _ => (.ok (.ofInt 90) : Except String JsNumber)
  | .byIdempotency _ | .get _ _ | .list _ | .valid _ | .release _ => ()

/-- Operation `t` is requested, and makes its calls with the answers `ans`. -/
def sampleCall (t : Nat) (r : Request) (n : Nat) (ans : ∀ o, interface.Ans o) :
    List (Event interface Request) :=
  .spawn r :: List.replicate n (.step t ans)

def sampleDecision : DecisionInput where
  operatorId := "operator"
  decision := .approve
  challenge := "challenge"
  nonce := "nonce"
  expectedRevision := .ofInt 0
  timestamp := none
  proof := some "proof"
  reason := none

/-- The execution `x1` is created and approved. -/
def sampleApproved : List (Event interface Request) :=
  sampleCall 0 (.execute "q1" "key" "agent" false) 8 sampleAnswers ++
    sampleCall 1 (.approve "x1" "operator" (some sampleDecision)) 5 sampleAnswers

/-- It is also signed, sent and acknowledged. -/
def sampleBroadcast : List (Event interface Request) :=
  sampleApproved ++ sampleCall 2 (.submit "x1") 14 sampleAnswers

example : (liveRun sampleConfig sampleBroadcast).shared.stateOf "x1" = some .broadcast := by
  decide

end AriOs.LiveTrading
