import AriOs.Execution.Control
import AriOs.Execution.Simulation

/-!
# What live trading stores

Executions live in one table, changed only by compare-and-set on their state; spend
reservations live in the ledger. A revoke moves no money and holds its reservation in a set
in memory instead.

Quotes are written once, under a random id, and never changed: the table of all quotes of a
run is part of its configuration.
-/

namespace AriOs.LiveTrading

open AriOs.Execution AriOs.Storage

/-! ### Data -/

inductive TradeState where
  | awaitingApproval | approved | dryRun | signing | submitting | reconciliationRequired
  | broadcast | confirmed | finalized | failed | denied | expired | dropped
  deriving DecidableEq, Repr

/-- The states with no way forward. -/
def TradeState.Terminal (s : TradeState) : Prop :=
  s = .failed ∨ s = .denied ∨ s = .expired ∨ s = .dropped ∨ s = .finalized

instance (s : TradeState) : Decidable s.Terminal := by
  unfold TradeState.Terminal; infer_instance

inductive Commitment where
  | processed | confirmed | finalized
  deriving DecidableEq, Repr

inductive QuoteSide where
  | buy | sell | revoke
  deriving DecidableEq, Repr

structure Quote where
  id : String
  side : QuoteSide
  cluster : String
  inputMint : String
  amountIn : Int
  lastValidBlockHeight : Int
  expiresAt : Int
  intentHash : String
  quoteHash : String
  policyHash : String
  request : Option SimulationRequest
  evidence : Option SimulationEvidence
  deriving DecidableEq, Repr

/-- What an execution is created with. -/
structure NewExecution where
  quoteId : String
  quoteHash : String
  intentHash : String
  policyHash : String
  riskHash : Option String := none
  reservationId : Option String := none
  simulationHash : Option String := none
  actor : String
  dryRun : Bool
  idempotencyKey : String
  lastValidBlockHeight : Option Int := none
  deriving DecidableEq, Repr

structure Execution extends NewExecution where
  id : String
  version : Nat
  state : TradeState
  approvalId : Option String := none
  authorizationId : Option String := none
  approver : Option String := none
  messageHash : Option String := none
  signature : Option String := none
  slot : Option Int := none
  createdAt : Int
  updatedAt : Int
  deriving DecidableEq, Repr

/-- What a transition may write. -/
structure Patch where
  state : Option TradeState := none
  approvalId : Option String := none
  authorizationId : Option String := none
  approver : Option String := none
  messageHash : Option String := none
  signature : Option String := none
  slot : Option Int := none
  lastValidBlockHeight : Option Int := none
  deriving DecidableEq, Repr

/-- `{ ...old, ...p, version: old.version + 1, updatedAt }`. -/
def Patch.apply (p : Patch) (updatedAt : Int) (old : Execution) : Execution :=
  { old with
    state := p.state.getD old.state
    approvalId := p.approvalId.or old.approvalId
    authorizationId := p.authorizationId.or old.authorizationId
    approver := p.approver.or old.approver
    messageHash := p.messageHash.or old.messageHash
    signature := p.signature.or old.signature
    slot := p.slot.or old.slot
    lastValidBlockHeight := p.lastValidBlockHeight.or old.lastValidBlockHeight
    version := old.version + 1
    updatedAt }

@[simp] theorem Patch.apply_id (p : Patch) (updatedAt : Int) (old : Execution) :
    (p.apply updatedAt old).id = old.id := rfl

@[simp] theorem Patch.apply_reservationId (p : Patch) (updatedAt : Int) (old : Execution) :
    (p.apply updatedAt old).reservationId = old.reservationId := rfl

@[simp] theorem Patch.apply_state (p : Patch) (updatedAt : Int) (old : Execution) :
    (p.apply updatedAt old).state = p.state.getD old.state := rfl

/-- How an orchestrator is composed. The hash tells the two kinds of reservation apart. -/
structure Config where
  quotes : Table Quote.id
  approvalRequired : Bool
  policyVersion : Int
  finalityCommitment : Commitment
  liveEnabled : Bool
  hasSigner : Bool
  hasSignerResult : Bool
  hasApprovalEngine : Bool
  hasAuthorizationIssuer : Bool
  hasRisk : Bool
  hasReservations : Bool
  ledger : LedgerOptions
  maxReservedPerToken : String → Option Int
  web3 : Signer.Web3
  encodings : Signer.Encodings
  sha256 : String → String
  separates : ∀ a b, sha256 ("reservation-v1\x00" ++ a) ≠ sha256 ("revoke-reservation-v1\x00" ++ b)

namespace Config

variable (cfg : Config)

/-- The id a quote's spend is reserved under. -/
def spendId (quoteHash messageHash : String) : String :=
  cfg.sha256 ("reservation-v1\x00" ++ (quoteHash ++ "\x00" ++ messageHash))

/-- The id a revoke is reserved under. -/
def revokeId (quoteHash messageHash : String) : String :=
  cfg.sha256 ("revoke-reservation-v1\x00" ++ (quoteHash ++ "\x00" ++ messageHash))

/-- The reservation is the spend of one of the quotes. -/
def IsSpend (id : String) : Prop :=
  ∃ q ∈ cfg.quotes.rows, ∃ request ∈ q.request, id = cfg.spendId q.quoteHash request.messageHash

instance (id : String) : Decidable (cfg.IsSpend id) := by unfold IsSpend; infer_instance

/-- `findQuoteByHash`: the oldest quote with this hash. -/
def findQuoteByHash (hash : String) : Option Quote :=
  cfg.quotes.rows.find? fun q => q.quoteHash = hash

end Config

/-! ### The store -/

structure LiveStore where
  executions : Table Execution.id
  ledger : Ledger
  /-- reservations of revokes, held in memory -/
  revokeReservations : List String

def LiveStore.empty : LiveStore := ⟨.empty, .empty, []⟩

namespace LiveStore

variable (s : LiveStore)

/-- `byIdempotency`. -/
def byIdempotency (key : String) : Option Execution :=
  s.executions.rows.find? fun x => x.idempotencyKey = key

/-- `list`: the executions in one of the states, oldest first. -/
def list (states : List TradeState) : List Execution :=
  s.executions.rows.filter fun x => x.state ∈ states

/-- `create`: ids and idempotency keys are unique. -/
def create (x : NewExecution) (state : TradeState) (id : String) (now : Int) :
    Except String Execution × LiveStore :=
  let row : Execution := { x with id, version := 0, state, createdAt := now, updatedAt := now }
  if (s.byIdempotency x.idempotencyKey).isSome then
    (.error "UNIQUE constraint failed: executions.idempotency_key", s)
  else match s.executions.insert? row with
    | some executions => (.ok row, { s with executions })
    | none => (.error "UNIQUE constraint failed: executions.id", s)

/-- `transition`: compare-and-set on the state. -/
def transition (id : String) (source : List TradeState) (p : Patch) (now : Int) :
    Except String Execution × LiveStore :=
  match s.executions.find? id with
  | none => (.error "execution_not_found", s)
  | some old =>
    if old.state ∈ source then
      (.ok (p.apply now old), { s with
        executions := s.executions.update (fun x => x.id = id) (p.apply now) (p.apply_id now) })
    else (.error "state conflict", s)

/-- The state of an execution. -/
def stateOf (id : String) : Option TradeState := (s.executions.find? id).map Execution.state

/-! #### The reservation port -/

/-- `reserve`: a revoke is noted, any other quote reserves its input leg within the cap. -/
def reserve (cfg : Config) (quoteHash messageHash : String) (now : Int) :
    Except String String × LiveStore :=
  match cfg.findQuoteByHash quoteHash with
  | none => (.error "reservation_quote_missing", s)
  | some q =>
    if q.side = .revoke then
      (.ok (cfg.revokeId quoteHash messageHash), { s with
        revokeReservations := s.revokeReservations.insert (cfg.revokeId quoteHash messageHash) })
    else
      let id := cfg.spendId quoteHash messageHash
      let out := s.ledger.reserveWithin cfg.ledger ⟨id, now, q.inputMint, "live", q.amountIn⟩
        ⟨(cfg.maxReservedPerToken q.inputMint).getD 0, none⟩
      (if out.1 then .ok id else .error "reservation_failed", { s with ledger := out.2 })

/-- `valid`. -/
def valid (id : String) : Bool := s.revokeReservations.contains id || s.ledger.has id

/-- `revokeReservations.delete(id) || reservations.commit(id)`. -/
def commit (id : String) (now : Int) : Bool × LiveStore :=
  if id ∈ s.revokeReservations then
    (true, { s with revokeReservations := s.revokeReservations.erase id })
  else ((s.ledger.commit id now).1, { s with ledger := (s.ledger.commit id now).2 })

/-- `revokeReservations.delete(id) || reservations.release(id)`. -/
def release (id : String) : Bool × LiveStore :=
  if id ∈ s.revokeReservations then
    (true, { s with revokeReservations := s.revokeReservations.erase id })
  else ((s.ledger.release id).1, { s with ledger := (s.ledger.release id).2 })

end LiveStore

end AriOs.LiveTrading
