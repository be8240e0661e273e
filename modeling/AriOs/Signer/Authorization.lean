import AriOs.Signer.Policy

/-!
# Authorization envelopes

An envelope claims what is being signed. It arrives as a value of unknown shape, so every
field is read as the code reads it; the verifier refuses unless the claims are signed, in
date, and agree with what was decoded out of the wire bytes.
-/

namespace AriOs.Signer

open AriOs.Js

def AUTHORIZATION_PROTOCOL : String := "ari-solana-execution-authorization"

/-- The host's JSON text and its `localeCompare`. -/
structure JsonHost extends Stringify where
  localeLe : String → String → Bool

/-! ### Canonical text -/

mutual

/-- `JSON.stringify(normalize(v))`; `none` for a value that has no JSON text. Values out of
JSON text have neither functions nor cycles in them. -/
def normalizedText (J : JsonHost) : JsValue → Option String
  | .undefined | .other => none
  | .null => some "null"
  | .bool b => some (if b then "true" else "false")
  | .number (.finite q) => some (J.number q)
  | .number _ => some "null"
  | .bigint i => some (J.string (toString i))
  | .string s => some (J.string s)
  | .array items => some ("[" ++ String.intercalate "," (normalizedItems J items) ++ "]")
  | .object fields =>
    some ("\x7b" ++ String.intercalate ","
      (((normalizedFields J fields).insertionSort fun a b => J.localeLe a.1 b.1 = true).map
        fun kv => J.string kv.1 ++ ":" ++ kv.2) ++ "\x7d")

/-- The items of an array. -/
def normalizedItems (J : JsonHost) : List JsValue → List String
  | [] => []
  | v :: vs => (normalizedText J v).getD "null" :: normalizedItems J vs

/-- The fields of an object that have a text. -/
def normalizedFields (J : JsonHost) : List (String × JsValue) → List (String × String)
  | [] => []
  | (k, v) :: fields =>
    match normalizedText J v with
    | some s => (k, s) :: normalizedFields J fields
    | none => normalizedFields J fields

end

/-- `canonicalClaims`. -/
def canonicalClaims (J : JsonHost) (c : JsValue) : Option String := normalizedText J c

/-- `eq`. -/
def eq (J : JsonHost) (a b : JsValue) : Bool := normalizedText J a == normalizedText J b

/-! ### Verification -/

/-- What a verifier was configured with, the signature check and the clock apart. -/
structure VerifierDependencies where
  audience : String
  cluster : Option String
  signerKeyId : Option String
  authorizationKeyIds : Option (List String)
  policyHash : Option String
  policyVersion : Option Int
  maxTtlMs : Option Int

/-- A configured text; the empty text counts as absent. -/
def configured (s : Option String) : Option String := s.filter fun t => t ≠ ""

/-- `hash?.toLowerCase() !== expected.toLowerCase()`. A value that is there but is no text has
no `toLowerCase`, so comparing it throws as well, and both refuse. -/
def hashDiffers (hash : JsValue) (expected : String) : Prop :=
  hash.text?.map toLowerCase ≠ some (toLowerCase expected)

instance (hash : JsValue) (expected : String) : Decidable (hashDiffers hash expected) := by
  unfold hashDiffers; infer_instance

/-- Issue and expiry of the claims, against a reading of the clock. -/
def checkDates (d : VerifierDependencies) (c : JsValue) (now : JsNumber) : Except String Unit := do
  let issuedAt ← orThrow (c.field "issuedAt").safeInteger? "envelope_version_invalid"
  let expiresAt ← orThrow (c.field "expiresAt").safeInteger? "envelope_version_invalid"
  throwIf (now.lt (.ofInt issuedAt)) "envelope_issued_in_future"
  throwIf ((JsNumber.ofInt expiresAt).le now ∨ expiresAt - issuedAt > d.maxTtlMs.getD 60000)
    "envelope_expired"

/-- Who the claims are for, and under which policy and key. -/
def checkAudience (d : VerifierDependencies) (c : JsValue) : Except String Unit := do
  throwIf ((c.field "audience").text? ≠ some d.audience) "envelope_audience_mismatch"
  throwIf (∃ k ∈ configured d.signerKeyId, (c.field "signerKeyId").text? ≠ some k)
    "envelope_signer_mismatch"
  throwIf ((∃ h ∈ configured d.policyHash, hashDiffers (c.field "policyHash") h) ∨
      ∃ v ∈ d.policyVersion, (c.field "policyVersion").number? ≠ some (.ofInt v))
    "envelope_policy_mismatch"
  throwIf (∃ ids ∈ d.authorizationKeyIds,
      ¬ ∃ k ∈ configured (c.field "signerKeyId").text?, k ∈ ids)
    "envelope_authorization_key_unknown"

/-- `v && typeof v === "object"`. -/
def isObject : JsValue → Bool
  | .object _ | .array _ => true
  | _ => false

/-- The checks made before the signature of the envelope is verified. -/
def checkClaims (d : VerifierDependencies) (c : JsValue) (now : JsNumber) :
    Except String Unit := do
  throwIf (¬ isObject c) "envelope_invalid"
  throwIf ((c.field "protocol").text? ≠ some AUTHORIZATION_PROTOCOL ∨
      (c.field "version").number? ≠ some (.ofInt 1)) "envelope_version_invalid"
  checkDates d c now
  checkAudience d c

/-- `[...new Set(ids)].sort()`. -/
def sortedUnique (ids : List String) : List String :=
  ids.eraseDups.insertionSort fun a b => textLe a b = true

def texts (l : List String) : JsValue := .array (l.map .string)

/-- The instructions as an envelope claims them. -/
def claimedInstructions (l : List DecodedInstruction) : JsValue :=
  .array (l.map fun i => .object [
    ("programId", .string i.programId),
    ("accounts", .array (i.accounts.map fun a => (a.map JsValue.string).getD .null)),
    ("data", .string i.dataHex)])

/-- The claims describe exactly the decoded transaction. -/
def describes (J : JsonHost) (c : JsValue) (t : DecodedTransaction) : Prop :=
  (c.field "transaction").text? = some t.wireBase64 ∧
  (c.field "message").text? = some t.messageBase64 ∧
  ¬ hashDiffers (c.field "messageHash") t.messageHash ∧
  (c.field "feePayer").text? = some t.feePayer ∧
  (c.field "recentBlockhash").text? = some t.recentBlockhash ∧
  eq J (c.field "accountKeys") (texts t.staticAccountKeys) ∧
  eq J (c.field "programIds") (texts (sortedUnique (t.instructions.map (·.programId)))) ∧
  eq J (c.field "addressTableLookups") (texts (t.addressTableLookups.map (·.accountKey))) ∧
  eq J (c.field "instructions") (claimedInstructions t.instructions)

instance (J : JsonHost) (c : JsValue) (t : DecodedTransaction) : Decidable (describes J c t) := by
  unfold describes; infer_instance

/-- The last block height at which the claimed blockhash can land. -/
def lastValidBlockHeight? (c : JsValue) : Option Int :=
  (c.field "lastValidBlockHeight").safeInteger?.filter fun h => 0 ≤ h

/-- The checks made after the signature of the envelope has been verified. -/
def checkBinding (J : JsonHost) (d : VerifierDependencies) (c : JsValue)
    (t : DecodedTransaction) : Except String Unit := do
  throwIf (∃ cluster ∈ d.cluster, (c.field "cluster").text? ≠ some cluster)
    "envelope_cluster_mismatch"
  throwIf (lastValidBlockHeight? c).isNone "envelope_blockhash_invalid"
  throwIf (¬ describes J c t) "envelope_transaction_mismatch"

/-- What the binding check establishes. -/
theorem checkBinding_eq_ok {J : JsonHost} {d : VerifierDependencies} {c : JsValue}
    {t : DecodedTransaction} {u : Unit} (h : checkBinding J d c t = .ok u) :
    (∃ last, lastValidBlockHeight? c = some last) ∧ describes J c t := by
  simp only [checkBinding, bind_eq_ok, throwIf_eq_ok, not_not] at h
  obtain ⟨-, -, -, hlast, hdescribes⟩ := h
  exact ⟨Option.ne_none_iff_exists'.mp (by simpa using hlast), hdescribes⟩

end AriOs.Signer
