import AriOs.Execution.Simulation
import AriOs.Js.Json

/-!
# Issuing authorization envelopes

The issuing side of the custody boundary. An envelope binds the references of one decision to
one exact transaction, for a limited time, under a signature over the canonical text of its
claims.

The checks are ports: each one answers, or throws. Time and the random id are arguments.
-/

namespace AriOs.Execution

open AriOs.Js AriOs.Signer

/-! ### Data -/

/-- What an envelope refers to, and who it is for. -/
structure AuthorizationReferences where
  quoteHash : String
  policyHash : String
  policyVersion : Int
  riskHash : String
  reservationId : String
  approvalId : String
  audience : String
  signerKeyId : Option String
  deriving DecidableEq, Repr

structure AuthorizationClaims extends AuthorizationReferences where
  protocol : String
  version : Int
  id : String
  cluster : String
  feePayer : String
  transaction : String
  message : String
  messageHash : String
  recentBlockhash : String
  lastValidBlockHeight : Int
  programIds : List String
  accountKeys : List String
  instructions : List InstructionSummary
  addressTableLookups : List String
  simulationHash : String
  issuedAt : JsNumber
  expiresAt : JsNumber

structure AuthorizationEnvelope where
  claims : AuthorizationClaims
  signature : String

/-- The instructions as a value. -/
def instructionsValue (l : List InstructionSummary) : JsValue :=
  .array (l.map fun i => .object [
    ("programId", .string i.programId),
    ("accounts", .array (i.accounts.map fun a => (a.map JsValue.string).getD .null)),
    ("data", .string i.data)])

/-- The references as fields. -/
def AuthorizationReferences.fields (refs : AuthorizationReferences) : List (String × JsValue) := [
  ("quoteHash", .string refs.quoteHash),
  ("policyHash", .string refs.policyHash),
  ("policyVersion", .number (.ofInt refs.policyVersion)),
  ("riskHash", .string refs.riskHash),
  ("reservationId", .string refs.reservationId),
  ("approvalId", .string refs.approvalId),
  ("audience", .string refs.audience)] ++
  (refs.signerKeyId.map fun k => ("signerKeyId", .string k)).toList

/-- The claims as fields. -/
def AuthorizationClaims.claimFields (c : AuthorizationClaims) : List (String × JsValue) :=
  c.fields ++ [
    ("protocol", .string c.protocol),
    ("version", .number (.ofInt c.version)),
    ("id", .string c.id),
    ("cluster", .string c.cluster),
    ("feePayer", .string c.feePayer),
    ("transaction", .string c.transaction),
    ("message", .string c.message),
    ("messageHash", .string c.messageHash),
    ("recentBlockhash", .string c.recentBlockhash),
    ("lastValidBlockHeight", .number (.ofInt c.lastValidBlockHeight)),
    ("programIds", texts c.programIds),
    ("accountKeys", texts c.accountKeys),
    ("instructions", instructionsValue c.instructions),
    ("addressTableLookups", texts c.addressTableLookups),
    ("simulationHash", .string c.simulationHash),
    ("issuedAt", .number c.issuedAt),
    ("expiresAt", .number c.expiresAt)]

/-- The claims as a value. -/
def AuthorizationClaims.toValue (c : AuthorizationClaims) : JsValue := .object c.claimFields

def AuthorizationEnvelope.toValue (env : AuthorizationEnvelope) : JsValue :=
  .object [("claims", env.claims.toValue), ("signature", .string env.signature)]

/-! ### The text of a request -/

def textsJson (l : List String) : Json := .array (l.map .string)

/-- A request as `JSON.stringify` writes it. -/
def SimulationRequest.toJson (r : SimulationRequest) : Json :=
  .object [
    ("cluster", .string r.cluster),
    ("transaction", .string r.transaction),
    ("message", .string r.message),
    ("messageHash", .string r.messageHash),
    ("feePayer", .string r.feePayer),
    ("recentBlockhash", .string r.recentBlockhash),
    ("lastValidBlockHeight", .number r.lastValidBlockHeight),
    ("programIds", textsJson r.programIds),
    ("accountKeys", textsJson r.accountKeys),
    ("instructions", .array (r.instructions.map fun i => .object [
      ("programId", .string i.programId),
      ("accounts", .array (i.accounts.map fun a => (a.map Json.string).getD .null)),
      ("data", .string i.data)])),
    ("addressTableLookups", textsJson r.addressTableLookups),
    ("policyHash", .string r.policyHash)]

/-! ### The issuer -/

/-- What the block height port answers: a height, or whether the blockhash is alive. -/
inductive BlockhashAnswer where
  | flag (alive : Bool)
  | height (h : JsNumber)

/-- The ports of the issuer. The snapshot version is read before the checks and after them. -/
structure AuthorizationChecks where
  quote : String → Except String Bool
  policy : String → Except String Bool
  risk : String → Except String Bool
  reservation : String → Except String Bool
  approval : String → Except String Bool
  simulation : String → Except String Bool
  blockhash : String → Except String BlockhashAnswer
  consumeApprovalReservation : Option (String → String → String → Except String Bool)
  snapshotVersion : Option (Except String String × Except String String)

/-- The issuer, with the host's libraries it runs on. -/
structure AuthorizationIssuer where
  checks : AuthorizationChecks
  sign : String → Except String String
  signerKeyId : Option String
  ttlMs : Option JsNumber
  maxTtlMs : Option Int
  web3 : Web3
  encodings : Encodings
  json : JsonHost
  sha256 : String → String

namespace AuthorizationIssuer

variable (I : AuthorizationIssuer)

/-- How long an envelope lives. -/
def ttl : Except String Int := do
  let ttl ← orThrow (JsValue.number (I.ttlMs.getD (.ofInt 30000))).safeInteger?
    "authorization_ttl_invalid"
  throwIf (ttl ≤ 0 ∨ ttl > I.maxTtlMs.getD 60000) "authorization_ttl_invalid"
  return ttl

/-- The request describes the bytes it carries: its projection is derived again. -/
def checkRequest (r : SimulationRequest) : Except String Unit := do
  let decoded ← decodeTransaction I.web3 I.encodings r.transaction
  throwIf ((SimulationRequest.toJson (simulationRequestOf decoded r.cluster r.lastValidBlockHeight
      r.policyHash)).text I.json.toStringify ≠ (SimulationRequest.toJson r).text I.json.toStringify)
    "authorization_transaction_invalid"

/-- The evidence is of the request, and its hash is of the evidence. -/
def checkEvidence (r : SimulationRequest) (e : SimulationEvidence) : Except String Unit :=
  throwIf (e.hash ≠ simulationEvidenceHash I.json I.sha256 e ∨ e.messageHash ≠ r.messageHash)
    "authorization_simulation_invalid"

/-- `if (!(await p)) throw`. -/
def validated (name : String) (answer : Except String Bool) : Except String Unit := do
  let valid ← answer
  throwIf (valid = false) ("authorization_" ++ name ++ "_invalid")

/-- The blockhash of the request can still land. -/
def isAlive (lastValidBlockHeight : Int) : BlockhashAnswer → Bool
  | .flag alive => alive
  | .height h => h.isSafeInteger && h.le (.ofInt lastValidBlockHeight)

/-- The checks, one after the other. -/
def validations (r : SimulationRequest) (e : SimulationEvidence) (refs : AuthorizationReferences) :
    Except String Unit := do
  validated "quote" (I.checks.quote refs.quoteHash)
  validated "policy" (I.checks.policy refs.policyHash)
  validated "risk" (I.checks.risk refs.riskHash)
  validated "reservation" (I.checks.reservation refs.reservationId)
  validated "approval" (I.checks.approval refs.approvalId)
  validated "simulation" (I.checks.simulation e.hash)
  validated "blockhash" ((I.checks.blockhash r.cluster).map (isAlive r.lastValidBlockHeight))

/-- The checks, all made under one version of what they read. -/
def validate (r : SimulationRequest) (e : SimulationEvidence) (refs : AuthorizationReferences) :
    Except String Unit :=
  match I.checks.snapshotVersion with
  | none => I.validations r e refs
  | some (before, after) => do
    let start ← before
    I.validations r e refs
    let stop ← after
    throwIf (start ≠ stop) "authorization_snapshot_changed"

/-- `consumeApprovalReservation`, where there is one. -/
def consume (refs : AuthorizationReferences) (id : String) : Except String Unit :=
  match I.checks.consumeApprovalReservation with
  | none => return ()
  | some consume => validated "consumption" (consume refs.approvalId refs.reservationId id)

/-- The key id that an envelope names: the issuer's, or the one of the references. -/
def keyId (refs : AuthorizationReferences) : Option String :=
  (configured I.signerKeyId).or refs.signerKeyId

/-- The claims of an envelope. -/
def claims (r : SimulationRequest) (e : SimulationEvidence) (refs : AuthorizationReferences)
    (id : String) (issuedAt : JsNumber) (ttl : Int) : AuthorizationClaims where
  toAuthorizationReferences := { refs with signerKeyId := I.keyId refs }
  protocol := AUTHORIZATION_PROTOCOL
  version := 1
  id := id
  cluster := r.cluster
  feePayer := r.feePayer
  transaction := r.transaction
  message := r.message
  messageHash := r.messageHash
  recentBlockhash := r.recentBlockhash
  lastValidBlockHeight := r.lastValidBlockHeight
  programIds := r.programIds
  accountKeys := r.accountKeys
  instructions := r.instructions
  addressTableLookups := r.addressTableLookups
  simulationHash := e.hash
  issuedAt := issuedAt
  expiresAt := issuedAt.add (.ofInt ttl)

/-- Issue an envelope. `id` is what the random source returns, `now` the reading of the clock. -/
def issue (r : SimulationRequest) (e : SimulationEvidence) (refs : AuthorizationReferences)
    (id : String) (now : JsNumber) : Except String AuthorizationEnvelope := do
  let ttl ← I.ttl
  throwIf (refs.policyHash ≠ r.policyHash) "authorization_policy_invalid"
  I.checkRequest r
  I.checkEvidence r e
  I.validate r e refs
  I.consume refs id
  let claims := I.claims r e refs id now ttl
  let signature ← I.sign ((canonicalClaims I.json claims.toValue).getD "")
  return ⟨claims, signature⟩

/-- An envelope that was issued has the claims of its request, under the issuer's signature. -/
theorem issue_eq_ok {I : AuthorizationIssuer} {r : SimulationRequest} {e : SimulationEvidence}
    {refs : AuthorizationReferences} {id : String} {now : JsNumber} {env : AuthorizationEnvelope}
    (h : I.issue r e refs id now = .ok env) :
    ∃ ttl, I.ttl = .ok ttl ∧ env.claims = I.claims r e refs id now ttl ∧
      I.sign ((canonicalClaims I.json env.claims.toValue).getD "") = .ok env.signature := by
  simp only [issue, bind_eq_ok] at h
  -- the checks in between play no part in what the envelope says
  obtain ⟨ttl, httl, -, -, -, -, -, -, -, -, -, -, signature, hsign, henv⟩ := h
  obtain rfl := Except.ok.inj henv
  exact ⟨ttl, httl, rfl, hsign⟩

end AuthorizationIssuer

end AriOs.Execution
