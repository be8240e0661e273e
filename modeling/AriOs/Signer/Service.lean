import AriOs.Async.Pool
import AriOs.Signer.Authorization
import AriOs.Storage.Table

/-!
# The signer service

`signEnvelope` decodes the transaction, checks that the envelope describes exactly it,
re-applies the policy, claims the one-time authorization id, fences the blockhash and only
then signs. The replay store is the one thing requests share: claiming is an insert that
loses against an existing row, and every later change of a record is a compare-and-set on
its state. A statement of the store may fail, and then changes nothing.
-/

namespace AriOs.Signer

open AriOs.Async AriOs.Js AriOs.Storage

/-! ### The replay store -/

inductive ExecutionState where
  | issued | claimed | signing | signed | broadcast | reconciliation | confirmed | reverted
  | expired | dropped | failed
  deriving DecidableEq, Repr

/-- What is written with a record, as JSON text. -/
structure ReplayData where
  requestHash : Option String := none
  transaction : Option String := none
  signature : Option String := none
  expected : Option String := none
  lastValidBlockHeight : Option Int := none
  blockHeight : Option Int := none
  deriving DecidableEq, Repr

/-- A row of `signer_replay`. -/
structure ReplayRow where
  id : String
  expiresAt : Int
  state : ExecutionState
  version : Nat
  data : Option ReplayData
  recovered : Bool
  deriving DecidableEq, Repr

/-- The records, one for each authorization id. -/
abbrev ReplayStore := Table ReplayRow.id

namespace ReplayStore

variable (s : ReplayStore)

/-- `INSERT OR IGNORE`: claims an id that has no record yet. -/
def consume (id : String) (expiresAt : Int) : Bool × ReplayStore :=
  if id = "" then (false, s)
  else match s.insert? ⟨id, expiresAt, .claimed, 1, none, false⟩ with
    | some s' => (true, s')
    | none => (false, s)

/-- Compare-and-set on the state of a record, and whether it changed one. -/
def transition (id : String) (source target : ExecutionState) (data : Option ReplayData) :
    Bool × ReplayStore :=
  (s.count (fun r => r.id = id ∧ r.state = source) = 1,
    s.update (fun r => r.id = id ∧ r.state = source)
      (fun r => { r with state := target, data, version := r.version + 1 }) fun _ => rfl)

/-- The state of a record. -/
def stateOf (id : String) : Option ExecutionState := (s.find? id).map ReplayRow.state

end ReplayStore

/-! ### Calls -/

/-- What the service calls. -/
inductive Op where
  | get (id : String)
  | now
  | verify (canonicalClaims : Option String) (signature keyId : JsValue)
  | consume (id : String) (expiresAt : Int)
  | blockHeight
  | transition (id : String) (source target : ExecutionState) (data : Option ReplayData)
  | signMessage (message : Bytes)

/-- What the environment contributes: for a statement of the store, whether it fails. -/
def Op.Ans : Op → Type
  | get _ | consume _ _ | transition _ _ _ _ => Option String
  | now => JsNumber
  | verify _ _ _ => Except String Bool
  | blockHeight => Except String JsNumber
  | signMessage _ => Except String Bytes

/-- What the service is handed. -/
def Op.Res : Op → Type
  | get _ => Except String (Option ReplayRow)
  | consume _ _ | transition _ _ _ _ => Except String Bool
  | o => o.Ans

/-- The service's calls. -/
def interface : Interface := ⟨Op, Op.Ans, Op.Res⟩

/-- A statement of the store. -/
def statement {β : Type} (s : ReplayStore) (failure : Option String) (out : β × ReplayStore) :
    Except String β × ReplayStore :=
  match failure with
  | some e => (.error e, s)
  | none => (.ok out.1, out.2)

/-- What each call does to the store. -/
def machine : Machine interface ReplayStore where
  handle
    | .get id, s, a => statement s a (s.find? id, s)
    | .now, s, a => (a, s)
    | .verify _ _ _, s, a => (a, s)
    | .consume id expiresAt, s, a => statement s a (s.consume id expiresAt)
    | .blockHeight, s, a => (a, s)
    | .transition id source target data, s, a =>
      statement s a (s.transition id source target data)
    | .signMessage _, s, a => (a, s)

/-- The service's code, up to its throws. -/
abbrev Signing (α : Type) := Task interface String α

namespace Signing

def get (id : String) : Signing (Option ReplayRow) :=
  ExceptT.mk (Prog.ask (I := interface) (.get id))

def now : Signing JsNumber := Task.total (I := interface) .now

def verifySignature (canonicalClaims : Option String) (signature keyId : JsValue) : Signing Bool :=
  ExceptT.mk (Prog.ask (I := interface) (.verify canonicalClaims signature keyId))

def consume (id : String) (expiresAt : Int) : Signing Bool :=
  ExceptT.mk (Prog.ask (I := interface) (.consume id expiresAt))

def blockHeight : Signing JsNumber := ExceptT.mk (Prog.ask (I := interface) .blockHeight)

def transition (id : String) (source target : ExecutionState) (data : Option ReplayData) :
    Signing Bool :=
  ExceptT.mk (Prog.ask (I := interface) (.transition id source target data))

def signMessage (message : Bytes) : Signing Bytes :=
  ExceptT.mk (Prog.ask (I := interface) (.signMessage message))

/-- Code that makes no call. -/
def check {α : Type} (x : Except String α) : Signing α := Task.ofExcept x

end Signing

open Signing

/-! ### The service -/

/-- How the service verifies envelopes. -/
structure Wire where
  audience : String
  cluster : Option String
  signerKeyId : Option String
  authorizationKeyIds : Option (List String)
  policyHash : Option String
  policyVersion : Option Int
  /-- a source of block heights is configured -/
  hasBlockHeight : Bool

/-- The service's verifier: the longest lifetime of an envelope is the default one. -/
def Wire.dependencies (w : Wire) : VerifierDependencies where
  audience := w.audience
  cluster := w.cluster
  signerKeyId := w.signerKeyId
  authorizationKeyIds := w.authorizationKeyIds
  policyHash := w.policyHash
  policyVersion := w.policyVersion
  maxTtlMs := none

structure SignerService where
  publicKey : String
  policy : SignPolicy
  wire : Option Wire
  web3 : Web3
  encodings : Encodings
  json : JsonHost

/-- What a record must hold for a signature to be handed out again. -/
def storedResult (row : ReplayRow) (requestHash : String) : Except String (Option SignResult) :=
  if row.state = .expired then .error "authorization_expired"
  else match row.data with
    | none => .ok none
    | some data => do
      throwIf (data.requestHash.map toLowerCase ≠ some (toLowerCase requestHash))
        "authorization_request_mismatch"
      throwIf (row.state ≠ .signed) "authorization_in_progress"
      let transaction ← orThrow (configured data.transaction) "authorization_in_progress"
      .ok (some ⟨transaction, data.signature.getD ""⟩)

/-- `stored`: a signature the signer has already produced and recorded. -/
def stored (id requestHash : String) : Signing (Option SignResult) := do
  check (throwIf (requestHash = "") "request_hash_invalid")
  match ← get id with
  | none => return none
  | some row => check (storedResult row requestHash)

/-- `SignerWireVerifier.verify`. -/
def verify (J : JsonHost) (d : VerifierDependencies) (decoded : DecodedTransaction)
    (envelope : JsValue) : Signing Unit := do
  let c := envelope.field "claims"
  let now ← now
  check (checkClaims d c now)
  let valid ← verifySignature (canonicalClaims J c) (envelope.field "signature")
    (c.field "signerKeyId")
  check (throwIf (valid = false) "envelope_signature_invalid")
  check (checkBinding J d c decoded)

/-- `fenceBlockhash`: a blockhash that can no longer land burns the authorization. -/
def fenceBlockhash (hasBlockHeight : Bool) (id : String) (lastValidBlockHeight : Option Int) :
    Signing Unit :=
  match lastValidBlockHeight with
  | none => pure ()
  | some last =>
    if hasBlockHeight then do
      let answer ← blockHeight
      let height ← check (orThrow ((JsValue.number answer).safeInteger?.filter fun h => 0 ≤ h)
        "block_height_invalid")
      if height ≤ last then pure ()
      else do
        let _ ← transition id .claimed .expired
          (some { lastValidBlockHeight := some last, blockHeight := some height })
        throw "blockhash_expired"
    else pure ()

/-- The `try` block of `signClaimed`. -/
def produce (S : SignerService) (id : String) (decoded : DecodedTransaction)
    (lastValidBlockHeight : Option Int) : Signing SignResult := do
  let raw ← signMessage decoded.messageBytes
  let result ← check (attachSignature S.web3 S.encodings decoded raw)
  let won ← transition id .claimed .signed (some {
    requestHash := some decoded.messageHash, transaction := some result.transaction
    signature := some result.signature, lastValidBlockHeight })
  check (throwIf (won = false) "replay_fencing_lost")
  return result

/-- `signClaimed`. -/
def signClaimed (S : SignerService) (id : String) (decoded : DecodedTransaction)
    (lastValidBlockHeight : Option Int) : Signing SignResult :=
  (produce S id decoded lastValidBlockHeight).orCatch
    (fun e => do
      let _ ← transition id .claimed .failed none
      throw e)
    pure

structure SignRequest where
  transaction : String
  envelope : JsValue

/-- The authorization id of a request, if it has one. -/
def SignRequest.authorizationId (r : SignRequest) : Option String :=
  configured ((r.envelope.field "claims").field "id").text?

/-- After the checks: claim the authorization, fence the blockhash, sign. -/
def claimAndSign (S : SignerService) (wire : Wire) (id : String) (decoded : DecodedTransaction)
    (claims : JsValue) : Signing SignResult := do
  -- both numbers were checked by `verify`
  let claimed ← consume id ((claims.field "expiresAt").safeInteger?.getD 0)
  check (throwIf (claimed = false) "envelope_replayed")
  fenceBlockhash wire.hasBlockHeight id (lastValidBlockHeight? claims)
  signClaimed S id decoded (lastValidBlockHeight? claims)

/-- The daemon path. A request the policy rejects never consumes its authorization. -/
def signEnvelope (S : SignerService) (r : SignRequest) : Signing SignResult := do
  let wire ← check (orThrow S.wire "wire_verifier_required")
  let decoded ← check (decodeTransaction S.web3 S.encodings r.transaction)
  let id ← check (orThrow r.authorizationId "envelope_invalid")
  let prior ← stored id decoded.messageHash
  verify S.json wire.dependencies decoded r.envelope
  let _ ← check (evaluatePolicy decoded S.policy S.publicKey)
  match prior with
  | some p => return p
  | none => claimAndSign S wire id decoded (r.envelope.field "claims")

/-! ### Runs -/

/-- Any number of requests, interleaved in any way, against one store. -/
abbrev SignerPool := Pool interface ReplayStore SignRequest (Except String SignResult)

def signerRun (S : SignerService) (store : ReplayStore) (es : List (Event interface SignRequest)) :
    SignerPool :=
  (Pool.start store).run machine (fun r => (signEnvelope S r).run) es

end AriOs.Signer
