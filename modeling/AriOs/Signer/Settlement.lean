import AriOs.Async.Sum
import AriOs.Signer.Service

/-!
# After signing

The daemon also broadcasts what it has signed, asks the cluster what became of it, and looks up
signatures it has produced. All of this works on the records of the replay store: every step
rewrites the data of a record together with its state, and the lookup reads both.
-/

namespace AriOs.Signer

open AriOs.Async AriOs.Js AriOs.Storage

/-! ### Calls -/

/-- What the cluster says of a signature: whether it carries an error, and how far it has got. -/
structure ClusterStatus where
  err : Bool
  confirmationStatus : Option String
  deriving DecidableEq, Repr

/-- What the daemon calls besides the signer's calls. -/
inductive DaemonOp where
  | list (states : List ExecutionState)
  | recoverSigned (id : String)
  | sendTransaction (transaction : String)
  | getSignatureStatus (signature : String)
  | getBlockHeight

/-- What the environment contributes: for a statement of the store, whether it fails. -/
def DaemonOp.Ans : DaemonOp → Type
  | list _ | recoverSigned _ => Option String
  | sendTransaction _ => Except String JsValue
  | getSignatureStatus _ => Except String (Option ClusterStatus)
  | getBlockHeight => Except String JsValue

/-- What the daemon is handed. -/
def DaemonOp.Res : DaemonOp → Type
  | list _ => Except String (List ReplayRow)
  | recoverSigned _ => Except String (Option ReplayRow)
  | o => o.Ans

/-- Release the signed bytes to exactly one caller. -/
def ReplayStore.recoverSigned (s : ReplayStore) (id : String) : Option ReplayRow × ReplayStore :=
  (s.rows.find? fun r => r.id = id ∧ r.state = .signed ∧ r.recovered = false,
    s.update (fun r => r.id = id ∧ r.state = .signed ∧ r.recovered = false)
      (fun r => { r with recovered := true, version := r.version + 1 }) fun _ => rfl)

/-- The rows in one of the given states. -/
def ReplayStore.list (s : ReplayStore) (states : List ExecutionState) : List ReplayRow :=
  s.rows.filter fun r => r.state ∈ states

def daemonInterface : Interface := ⟨DaemonOp, DaemonOp.Ans, DaemonOp.Res⟩

/-- The calls of the signer and of the daemon. -/
abbrev daemon : Interface := interface.sum daemonInterface

def daemonMachine : Machine daemon ReplayStore := machine.sum {
  handle
    | .list states, s, a => statement s a (s.list states, s)
    | .recoverSigned id, s, a => statement s a (s.recoverSigned id)
    | .sendTransaction _, s, a => (a, s)
    | .getSignatureStatus _, s, a => (a, s)
    | .getBlockHeight, s, a => (a, s) }

/-- The daemon's code, up to its throws. -/
abbrev Daemon (α : Type) := Task daemon String α

namespace Daemon

/-- Code of the signer. -/
def signer {α : Type} (x : Signing α) : Daemon α := x.inl daemonInterface

def list (states : List ExecutionState) : Daemon (List ReplayRow) :=
  ExceptT.mk (Prog.ask (I := daemon) (.inr (.list states)))

def recoverSigned (id : String) : Daemon (Option ReplayRow) :=
  ExceptT.mk (Prog.ask (I := daemon) (.inr (.recoverSigned id)))

def sendTransaction (transaction : String) : Daemon JsValue :=
  ExceptT.mk (Prog.ask (I := daemon) (.inr (.sendTransaction transaction)))

def getSignatureStatus (signature : String) : Daemon (Option ClusterStatus) :=
  ExceptT.mk (Prog.ask (I := daemon) (.inr (.getSignatureStatus signature)))

def getBlockHeight : Daemon JsValue := ExceptT.mk (Prog.ask (I := daemon) (.inr .getBlockHeight))

/-- Code that makes no call. -/
def check {α : Type} (x : Except String α) : Daemon α := Task.ofExcept x

end Daemon

open Daemon

/-! ### Broadcasting -/

/-- The last valid block height on record, if the record can be read. -/
def priorHeight (answer : Except String (Option ReplayRow)) : Option Int :=
  match answer with
  | .ok row => (row.bind ReplayRow.data).bind ReplayData.lastValidBlockHeight
  | .error _ => none

/-- `broadcastSigned`, once the cluster has answered. -/
def settleBroadcast (id transaction expected : String) (lastValidBlockHeight : Option Int)
    (returned : JsValue) : Daemon String := do
  if returned.text? ≠ some expected then
    let _ ← signer (Signing.transition id .signed .reconciliation
      (some { expected := some expected, lastValidBlockHeight }))
    throw "broadcast_signature_mismatch"
  else
    let won ← signer (Signing.transition id .signed .broadcast
      (some { signature := some expected, transaction := some transaction, lastValidBlockHeight }))
    check (throwIf (won = false) "broadcast_state_invalid")
    return expected

/-- Broadcast an already-signed, already-persisted transaction. -/
def broadcastSigned (W : Web3) (enc : Encodings) (id transaction : String) : Daemon String := do
  let expected ← check (signatureOf W enc transaction)
  -- a record that cannot be read has no height, and the broadcast goes on
  let prior ← ExceptT.lift (signer (Signing.get id)).attempt
  let returned ← sendTransaction transaction
  settleBroadcast id transaction expected (priorHeight prior) returned

/-! ### Reconciliation -/

/-- The signature a record was broadcast under. -/
def ReplayData.signatureText (data : ReplayData) : Option String :=
  configured (data.signature.or data.expected)

/-- What a status settles a record as, if it does. -/
def ClusterStatus.settles (status : ClusterStatus) (state : ExecutionState) :
    Option ExecutionState :=
  if status.err then some .reverted
  else if status.confirmationStatus = some "finalized" ∨
      status.confirmationStatus = some "confirmed" then some .confirmed
  else if state = .reconciliation then some .broadcast
  else none

/-- A record the cluster has a status for. -/
def settleSeen (row : ReplayRow) (data : ReplayData) (signature : String)
    (status : ClusterStatus) : Daemon Unit :=
  match status.settles row.state with
  | some settled => do
    let _ ← signer (Signing.transition row.id row.state settled (some {
      signature := some signature, transaction := configured data.transaction
      lastValidBlockHeight := data.lastValidBlockHeight }))
    return ()
  | none => return ()

/-- A record the cluster has never seen: dropped once its blockhash is dead. -/
def settleUnseen (row : ReplayRow) (data : ReplayData) (signature : String) : Daemon Unit :=
  match data.lastValidBlockHeight.filter fun h => (JsNumber.ofInt h).isSafeInteger with
  | none => return ()
  | some last => do
    let height ← getBlockHeight
    match height.safeInteger?.filter fun h => last < h with
    | none => return ()
    | some height =>
      let _ ← signer (Signing.transition row.id row.state .dropped (some {
        signature := some signature, lastValidBlockHeight := some last
        blockHeight := some height }))
      return ()

/-- One round of `reconcileTransactions`. -/
def reconcileRow (row : ReplayRow) : Daemon Unit := do
  let data := row.data.getD {}
  match data.signatureText with
  | none => return ()
  | some signature =>
    match ← getSignatureStatus signature with
    | some status => settleSeen row data signature status
    | none => settleUnseen row data signature

def reconcileRows : List ReplayRow → Daemon Unit
  | [] => return ()
  | row :: rows => do
    reconcileRow row
    reconcileRows rows

/-- Settle durable broadcast records without ever signing or resubmitting. -/
def reconcileTransactions : Daemon Unit := do
  let rows ← list [.broadcast, .reconciliation]
  reconcileRows rows

/-! ### Looking up a signature -/

inductive LookupResult where
  | expired
  | notFound
  | signed (signature : String) (transaction : Option String)
  deriving DecidableEq, Repr

/-- The signed bytes, if this call is the one they are released to. -/
def recoverRawBytes (id : String) : Daemon (Option String) := do
  match ← recoverSigned id with
  | none => return none
  | some row =>
    let transaction ← check (orThrow (configured (row.data.bind ReplayData.transaction))
      "signed_result_invalid")
    return some transaction

/-- Durable result lookup. -/
def result (id requestHash : String) (recoverRaw : Bool) : Daemon LookupResult := do
  let row ← signer (Signing.get id)
  if row.map ReplayRow.state = some .expired then return .expired
  else
    match ← signer (stored id requestHash) with
    | none => return .notFound
    | some data =>
      if recoverRaw then return .signed data.signature (← recoverRawBytes id)
      else return .signed data.signature none

/-! ### Runs -/

/-- An operation of the daemon. -/
inductive Request where
  | sign (r : SignRequest)
  | broadcast (id transaction : String)
  | reconcile
  | result (id requestHash : String) (recoverRaw : Bool)

/-- What an operation returns. -/
inductive Response where
  | signed (r : SignResult)
  | broadcast (signature : String)
  | reconciled
  | result (r : LookupResult)
  deriving DecidableEq, Repr

/-- The body of an operation. -/
def serve (S : SignerService) : Request → Daemon Response
  | .sign r => do return .signed (← signer (signEnvelope S r))
  | .broadcast id transaction => do
    return .broadcast (← broadcastSigned S.web3 S.encodings id transaction)
  | .reconcile => do
    reconcileTransactions
    return .reconciled
  | .result id requestHash recoverRaw => do return .result (← result id requestHash recoverRaw)

abbrev DaemonPool := Pool daemon ReplayStore Request (Except String Response)

/-- Any number of operations, interleaved in any way, against one store. -/
def daemonRun (S : SignerService) (store : ReplayStore) (es : List (Event daemon Request)) :
    DaemonPool :=
  (Pool.start store).run daemonMachine (fun r => (serve S r).run) es

end AriOs.Signer
