import AriOs.Execution.AuthorizationVerification
import AriOs.Js.Stringify
import AriOs.Signer.SingleUse

/-!
# Issuer and signer agree on envelopes

The issuer writes the claims of an envelope from a request that was decoded on its side, and
signs their canonical text. The signer decodes the transaction again and compares the claims
field by field, each through the same canonical text. What one side writes the other accepts,
for the transaction it was issued for and while it is in date, and nothing else.

Two things set a limit to this. The verifier refuses dates that are not safe integers, which the
issuer does not rule out. And JSON text has no infinite numbers: the canonical text of a value
that holds one reads as if it were `null`, so claims that hold one can pass for others.
-/

namespace AriOs.Execution

open AriOs.Async AriOs.Js AriOs.Signer

/-- What arrives of an envelope that is sent over the socket. -/
def received (env : AuthorizationEnvelope) : JsValue := env.toValue.jsonRoundTrip.getD .undefined

/-- An envelope whose dates are finite arrives as it was. -/
theorem received_of_finite {env : AuthorizationEnvelope} {i x : ℚ}
    (hissuedAt : env.claims.issuedAt = .finite i) (hexpiresAt : env.claims.expiresAt = .finite x) :
    received env = env.toValue := by
  have hjson : env.toValue.IsJson :=
    ⟨by simp, AuthorizationClaims.isJson hissuedAt hexpiresAt, trivial, trivial⟩
  rw [received, hjson.jsonRoundTrip_eq, Option.getD_some]

theorem received_eq {env : AuthorizationEnvelope}
    (hissuedAt : env.claims.issuedAt.isSafeInteger = true)
    (hexpiresAt : env.claims.expiresAt.isSafeInteger = true) : received env = env.toValue := by
  obtain ⟨i, hi⟩ := JsNumber.exists_ofInt_of_isSafeInteger hissuedAt
  obtain ⟨x, hx⟩ := JsNumber.exists_ofInt_of_isSafeInteger hexpiresAt
  exact received_of_finite hi hx

/-- A field that is there is one of the fields of an object. -/
theorem mem_of_field_eq {fields : List (String × JsValue)} {k : String} {v : JsValue}
    (h : (JsValue.object fields).field k = v) (hne : v ≠ .undefined) : (k, v) ∈ fields := by
  rw [JsValue.field] at h
  cases hlookup : fields.lookup k with
  | none =>
    rw [hlookup] at h
    exact absurd h.symm hne
  | some w =>
    obtain ⟨l₁, l₂, rfl, -⟩ := List.lookup_eq_some_iff.mp hlookup
    rw [hlookup, Option.getD_some] at h
    subst h
    simp

/-- Claims that pass the first checks are an object with two dates. -/
theorem exists_dates_of_checkClaims {d : VerifierDependencies} {c : JsValue} {now : JsNumber}
    (h : checkClaims d c now = .ok ()) : ∃ fields i x, c = .object fields ∧
      ("issuedAt", .number (.ofInt i)) ∈ fields ∧ ("expiresAt", .number (.ofInt x)) ∈ fields := by
  simp only [checkClaims, checkDates, bind_eq_ok, throwIf_eq_ok, orThrow_eq_ok,
    JsValue.safeInteger?_eq_some] at h
  obtain ⟨-, -, -, -, -, ⟨i, ⟨hi, -⟩, x, ⟨hx, -⟩, -⟩, -⟩ := h
  cases c with
  | object fields =>
    exact ⟨fields, i, x, rfl, mem_of_field_eq hi (by simp), mem_of_field_eq hx (by simp)⟩
  -- nothing else has fields
  | undefined | null | bool | number | bigint | string | array | other => cases hi

section Agree

variable {I : AuthorizationIssuer} {d : VerifierDependencies} {check : EnvelopeVerifier}
  {issued : AuthorizationEnvelope → Prop} {t : PreparedTransaction} {policyHash : String}
  {r : SimulationRequest} {e : SimulationEvidence} {refs : AuthorizationReferences} {id : String}
  {issuedAt : JsNumber} {env : AuthorizationEnvelope}

/-- A date that is written as that of the claims is a finite one. -/
theorem finite_of_toJson_eq {le : String → String → Bool} {c : AuthorizationClaims}
    {fields : List (String × JsValue)}
    (h : (JsValue.object fields).toJson le = c.toValue.toJson le) {k : String} {i : Int}
    {n : JsNumber} (hmem : (k, .number (.ofInt i)) ∈ fields) (hn : (k, .number n) ∈ c.claimFields) :
    n = .ofInt i := by
  obtain ⟨w, hw, htext⟩ := JsValue.exists_field_of_toJson_eq h hmem (x := .number i) rfl
  have heq : JsValue.number n = w := by
    rw [← AuthorizationClaims.field_of_mem hn, AuthorizationClaims.field_of_mem hw]
  subst heq
  cases n with
  | finite q => simpa [JsValue.toJson, JsNumber.ofInt] using htext
  | nan | infinity => simp [JsValue.toJson] at htext

/-- Claims under a signature are those of an envelope that was issued. -/
theorem issued_of_accepts (hJ : I.json.toStringify.Lawful) (hscheme : SignsOnly I check refs issued)
    {now : JsNumber} {transaction : String} {envelope : JsValue}
    (hjson : (envelope.field "claims").IsJson)
    (h : Accepts I.json I.web3 I.encodings d check now transaction envelope) :
    ∃ env, issued env ∧ (envelope.field "claims").Same env.claims.toValue := by
  obtain ⟨decoded, -, hclaims, hsignature, -⟩ := accepts_iff.mp h
  obtain ⟨fields, i, x, hfields, hi, hx⟩ := exists_dates_of_checkClaims hclaims
  rw [hfields] at hjson hsignature ⊢
  -- the text that was verified is that of claims that were signed
  obtain ⟨text, htext⟩ : ∃ text, canonicalClaims I.json (.object fields) = some text := ⟨_, rfl⟩
  rw [htext] at hsignature
  obtain ⟨env, hissued, henv⟩ := hscheme.only text _ _ hsignature
  have hsame := toJson_eq_of_normalizedText_eq hJ (htext.trans henv.symm)
  -- so they are written alike, and the signed ones are JSON because these are
  have hissuedAt := finite_of_toJson_eq hsame hi
    (show ("issuedAt", .number env.claims.issuedAt) ∈ env.claims.claimFields by
      simp [AuthorizationClaims.claimFields])
  have hexpiresAt := finite_of_toJson_eq hsame hx
    (show ("expiresAt", .number env.claims.expiresAt) ∈ env.claims.claimFields by
      simp [AuthorizationClaims.claimFields])
  exact ⟨env, hissued, JsValue.same_of_toJson_eq _ _ hjson
    (AuthorizationClaims.isJson hissuedAt hexpiresAt) hsame⟩

/-- An envelope is accepted for the transaction it was issued for, while it is in date. -/
theorem accepts_received_iff
    (hbuilt : buildSimulationRequest I.web3 I.encodings t policyHash = .ok r)
    (hissue : I.issue r e refs id issuedAt = .ok env) (hshares : Shares I d r refs)
    (hscheme : SignsOnly I check refs issued)
    (hissuedAt : env.claims.issuedAt.isSafeInteger = true)
    (hexpiresAt : env.claims.expiresAt.isSafeInteger = true) (now : ℚ) (transaction : String) :
    Accepts I.json I.web3 I.encodings d check (.finite now) transaction (received env) ↔
      transaction = t.transaction ∧ env.claims.issuedAt.le (.finite now) = true ∧
        (JsNumber.finite now).lt env.claims.expiresAt = true := by
  obtain ⟨decoded, last, hdecode, hsafe, hpos, rfl⟩ := buildSimulationRequest_eq_ok hbuilt
  obtain ⟨ttl, httl, hclaims, hsign⟩ := AuthorizationIssuer.issue_eq_ok hissue
  rw [hclaims] at hissuedAt hexpiresAt ⊢
  have hdates := checkClaims_claims hshares httl hissuedAt hexpiresAt now
  obtain ⟨text, htext⟩ : ∃ text, canonicalClaims I.json env.claims.toValue = some text := ⟨_, rfl⟩
  have hsigned : check (canonicalClaims I.json env.claims.toValue) (.string env.signature)
      (env.claims.toValue.field "signerKeyId") = true := by
    rw [htext, Option.getD_some] at hsign
    rw [htext, AuthorizationClaims.field_signerKeyId, hclaims]
    exact hscheme.signed text env.signature hsign
  have hwire : (env.claims.toValue.field "transaction").text? = some t.transaction := by
    rw [← decodeTransaction_wireBase64 hdecode, hclaims]
    exact AuthorizationClaims.text_of_mem (List.mem_append_right _
      (by simp [AuthorizationIssuer.claims, simulationRequestOf]))
  rw [accepts_iff, received_eq (by rwa [hclaims]) (by rwa [hclaims])]
  change (∃ decoded, _ ∧ checkClaims d env.claims.toValue _ = _ ∧
    check (canonicalClaims I.json env.claims.toValue) (.string env.signature)
      (env.claims.toValue.field "signerKeyId") = true ∧
    checkBinding I.json d env.claims.toValue decoded = _) ↔ _
  rw [hclaims] at hsigned hwire ⊢
  constructor
  · rintro ⟨decoded', hdecode', hok, -, hbinding⟩
    obtain ⟨-, hdescribes⟩ := checkBinding_eq_ok hbinding
    refine ⟨?_, hdates.mp hok⟩
    rw [← decodeTransaction_wireBase64 hdecode']
    exact Option.some_inj.mp (hdescribes.1.symm.trans hwire)
  · rintro ⟨rfl, hnow⟩
    exact ⟨decoded, hdecode, hdates.mpr hnow, hsigned, checkBinding_claims hshares hsafe hpos⟩

/-- Issuer and signer agree on envelopes. What was issued is accepted for its transaction, from
its issue until it expires, and at no other time and for no other transaction; what claims
anything that was not issued is not accepted. -/
theorem issuer_and_signer_agree (hJ : I.json.toStringify.Lawful)
    (hbuilt : buildSimulationRequest I.web3 I.encodings t policyHash = .ok r)
    (hissue : I.issue r e refs id issuedAt = .ok env) (hshares : Shares I d r refs)
    (hscheme : SignsOnly I check refs issued)
    (hissuedAt : env.claims.issuedAt.isSafeInteger = true)
    (hexpiresAt : env.claims.expiresAt.isSafeInteger = true) :
    (∀ (now : ℚ) (transaction : String),
      Accepts I.json I.web3 I.encodings d check (.finite now) transaction (received env) ↔
        transaction = t.transaction ∧ env.claims.issuedAt.le (.finite now) = true ∧
          (JsNumber.finite now).lt env.claims.expiresAt = true) ∧
    ∀ (now : JsNumber) (transaction : String) (envelope : JsValue),
      (envelope.field "claims").IsJson →
      (∀ env', issued env' → ¬ (envelope.field "claims").Same env'.claims.toValue) →
      ¬ Accepts I.json I.web3 I.encodings d check now transaction envelope := by
  refine ⟨accepts_received_iff hbuilt hissue hshares hscheme hissuedAt hexpiresAt, ?_⟩
  intro now transaction envelope hjson hdiffer haccepts
  obtain ⟨env', hissued, hsame⟩ := issued_of_accepts hJ hscheme hjson haccepts
  exact hdiffer env' hissued hsame

end Agree

/-! ### An envelope of a transaction with an address lookup table -/

/-- A transaction of one instruction, with an account that has to be looked up. -/
def lookupTransaction : VersionedTransaction where
  message := {
    version := .version 0, numRequiredSignatures := 1, staticAccountKeys := ["payer", "program"]
    recentBlockhash := "hash", compiledInstructions := [⟨1, [0, 2], [2]⟩]
    addressTableLookups := [⟨"table", [0], []⟩] }
  signatures := [List.replicate 64 0]

/-- What the decoder reads out of it. -/
def lookupDecoded : DecodedTransaction where
  version := .version 0
  feePayer := "payer"
  recentBlockhash := "hash"
  numRequiredSignatures := 1
  staticAccountKeys := ["payer", "program"]
  signatures := [none]
  addressTableLookups := [⟨"table", [0], []⟩]
  instructions := [⟨"program", 1, [0, 2], [some "payer", none], [2], "02"⟩]
  messageBytes := [7]
  messageBase64 := "Bw=="
  messageHash := "0xab"
  wireBase64 := "AQ=="
  transaction := lookupTransaction

def lookupWeb3 : Web3 where
  deserialize := fun raw => if raw = [1] then .ok lookupTransaction else .error "no transaction"
  serialize := fun tx => .ok (if tx = lookupTransaction then [1] else [2])
  serializeMessage := fun _ => .ok [7]

def sampleJson : JsonHost := { stringify with localeLe := textLe }

def lookupRequest : SimulationRequest := simulationRequestOf lookupDecoded "devnet" 100 "0xcd"

def lookupEvidence : SimulationEvidence where
  hash := "0xef"
  messageHash := "0xab"
  slot := 1
  blockhash := "hash"
  unitsConsumed := 450
  feeLamports := 5000
  logs := []
  accountStates := []
  assetDeltas := []
  capabilities := ⟨true, true, true, true⟩

def lookupReferences : AuthorizationReferences where
  quoteHash := "0x01"
  policyHash := "0xcd"
  policyVersion := 1
  riskHash := "0x02"
  reservationId := "r1"
  approvalId := "p1"
  audience := "signer"
  signerKeyId := some "operator"

/-- An issuer whose checks all pass, signing with `sign`. -/
def issuerWith (sign : String → Except String String) : AuthorizationIssuer where
  checks := {
    quote := fun _ => .ok true, policy := fun _ => .ok true, risk := fun _ => .ok true
    reservation := fun _ => .ok true, approval := fun _ => .ok true
    simulation := fun _ => .ok true, blockhash := fun _ => .ok (.height (.ofInt 90))
    consumeApprovalReservation := some fun _ _ _ => .ok true, snapshotVersion := none }
  sign := sign
  signerKeyId := none
  ttlMs := none
  maxTtlMs := none
  web3 := lookupWeb3
  encodings := sampleService.encodings
  json := sampleJson
  sha256 := fun _ => "ef"

/-- The claims of an envelope issued at a time. -/
def sampleClaims (issuedAt : JsNumber) : AuthorizationClaims :=
  (issuerWith .ok).claims lookupRequest lookupEvidence lookupReferences "a1" issuedAt 30000

/-- The issuer signs these claims, and no others. -/
def sampleIssuer (issuedAt : JsNumber) : AuthorizationIssuer :=
  issuerWith fun text =>
    if canonicalClaims sampleJson (sampleClaims issuedAt).toValue = some text then .ok "signature"
    else .error "not to be signed"

def sampleCheck (issuedAt : JsNumber) : EnvelopeVerifier := fun text signature keyId =>
  canonicalClaims sampleJson (sampleClaims issuedAt).toValue == text &&
    signature.text? == some "signature" && keyId.text? == some "operator"

def sampleVerifier : VerifierDependencies where
  audience := "signer"
  cluster := some "devnet"
  signerKeyId := some "operator"
  authorizationKeyIds := some ["operator"]
  policyHash := some "0xCD"
  policyVersion := some 1
  maxTtlMs := none

def sampleEnvelope (issuedAt : JsNumber) : AuthorizationEnvelope :=
  ⟨sampleClaims issuedAt, "signature"⟩

theorem decodeTransaction_sample :
    decodeTransaction lookupWeb3 sampleService.encodings "AQ==" = .ok lookupDecoded := by
  decide

theorem build_sample : buildSimulationRequest lookupWeb3 sampleService.encodings
    ⟨"devnet", "AQ==", .ofInt 100⟩ "0xcd" = .ok lookupRequest := by
  rfl

theorem issue_sample (issuedAt : JsNumber) :
    (sampleIssuer issuedAt).issue lookupRequest lookupEvidence lookupReferences "a1" issuedAt =
      .ok (sampleEnvelope issuedAt) := by
  have httl : (sampleIssuer issuedAt).ttl = .ok 30000 := by
    rfl
  have hrequest : (sampleIssuer issuedAt).checkRequest lookupRequest = .ok () :=
    checkRequest_of_built build_sample
  have hevidence : (sampleIssuer issuedAt).checkEvidence lookupRequest lookupEvidence = .ok () := by
    rw [AuthorizationIssuer.checkEvidence, throwIf_eq_ok]
    rintro (hhash | hmessage)
    · exact hhash (by decide : "0xef" = "0x" ++ "ef")
    · exact hmessage rfl
  obtain ⟨text, htext⟩ : ∃ text,
      canonicalClaims sampleJson (sampleClaims issuedAt).toValue = some text := ⟨_, rfl⟩
  have hclaims : (sampleIssuer issuedAt).claims lookupRequest lookupEvidence lookupReferences "a1"
      issuedAt 30000 = sampleClaims issuedAt := rfl
  have hsign : (sampleIssuer issuedAt).sign text = .ok "signature" := if_pos htext
  simp only [AuthorizationIssuer.issue, httl, hrequest, hevidence, bind_eq_ok, throwIf_eq_ok]
  refine ⟨30000, rfl, (), by decide, (), trivial, (), trivial, (), rfl, (), rfl,
    "signature", ?_, rfl⟩
  rw [hclaims, show (sampleIssuer issuedAt).json = sampleJson from rfl, htext, Option.getD_some,
    hsign]

theorem shares_sample (issuedAt : JsNumber) :
    Shares (sampleIssuer issuedAt) sampleVerifier lookupRequest lookupReferences where
  audience := rfl
  cluster := by rintro _ ⟨⟩; rfl
  signerKeyId := by rintro _ ⟨⟩; rfl
  authorizationKeyIds := by rintro _ ⟨⟩; exact ⟨"operator", rfl, List.mem_singleton_self _⟩
  policyHash := by rintro _ ⟨⟩; decide
  policyVersion := by rintro _ ⟨⟩; rfl
  ttl := by rintro _ ⟨⟩; decide

theorem sign_sample {issuedAt : JsNumber} {text signature : String}
    (h : (sampleIssuer issuedAt).sign text = .ok signature) :
    canonicalClaims sampleJson (sampleClaims issuedAt).toValue = some text ∧
      "signature" = signature := by
  have hite : (if canonicalClaims sampleJson (sampleClaims issuedAt).toValue = some text then
      Except.ok "signature" else .error "not to be signed") = .ok signature := h
  split at hite
  next htext => exact ⟨htext, Except.ok.inj hite⟩
  next => cases hite

theorem signsOnly_sample (issuedAt : JsNumber) :
    SignsOnly (sampleIssuer issuedAt) (sampleCheck issuedAt) lookupReferences
      (· = sampleEnvelope issuedAt) where
  signed text signature h := by
    obtain ⟨htext, hsignature⟩ := sign_sample h
    simp only [sampleCheck, htext, ← hsignature, beq_self_eq_true]
    rfl
  only text signature key h := by
    simp only [sampleCheck, Bool.and_eq_true, beq_iff_eq] at h
    exact ⟨_, rfl, h.1.1⟩


/-- What the sample issuer issued, with another reservation in the claims. -/
def otherReservation (issuedAt : JsNumber) : AuthorizationEnvelope :=
  ⟨{ sampleClaims issuedAt with reservationId := "r2" }, "signature"⟩

theorem issuer_and_signer_agree_sample :
    Accepts sampleJson lookupWeb3 sampleService.encodings sampleVerifier (sampleCheck (.ofInt 0))
      (.finite 10) "AQ==" (received (sampleEnvelope (.ofInt 0))) ∧
    ¬ Accepts sampleJson lookupWeb3 sampleService.encodings sampleVerifier (sampleCheck (.ofInt 0))
      (.finite 30000) "AQ==" (received (sampleEnvelope (.ofInt 0))) ∧
    ¬ Accepts sampleJson lookupWeb3 sampleService.encodings sampleVerifier (sampleCheck (.ofInt 0))
      (.finite 10) "AQ==" (received (otherReservation (.ofInt 0))) := by
  have hagree := issuer_and_signer_agree (I := sampleIssuer (.ofInt 0)) stringify_lawful
    build_sample (issue_sample (.ofInt 0)) (shares_sample (.ofInt 0)) (signsOnly_sample (.ofInt 0))
    (by decide) (by decide +kernel)
  refine ⟨(hagree.1 10 "AQ==").mpr ⟨rfl, by decide, by decide +kernel⟩, fun h => ?_, ?_⟩
  · exact absurd ((hagree.1 30000 "AQ==").mp h).2.2 (by decide +kernel)
  · have hreceived : received (otherReservation (.ofInt 0)) =
        (otherReservation (.ofInt 0)).toValue :=
      received_eq (by decide) (by decide +kernel)
    rw [hreceived]
    refine hagree.2 (.finite 10) "AQ==" _
      (AuthorizationClaims.isJson (i := 0) (x := 30000) rfl (by decide +kernel)) ?_
    rintro env' rfl hsame
    -- the reservation that was signed is another one
    have hreservation := JsValue.Same.field hsame (k := "reservationId") (v := .string "r2")
      (by simp [otherReservation, AuthorizationClaims.claimFields, AuthorizationReferences.fields])
    rw [show (JsValue.object _).field "reservationId" = .string "r1" from rfl] at hreservation
    exact absurd hreservation (by decide : "r2" ≠ "r1")

/-- Claims that differ in one account, which is not `null` but a number that has no text. -/
def forgedClaims : JsValue :=
  .object ((sampleClaims (.ofInt 0)).claimFields.map fun kv =>
    if kv.1 = "instructions" then
      (kv.1, .array [.object [
        ("programId", .string "program"),
        ("accounts", .array [.string "payer", .number (.infinity false)]),
        ("data", .string "02")]])
    else kv)

def forgedEnvelope : JsValue :=
  .object [("claims", forgedClaims), ("signature", .string "signature")]

/-- An infinite number is written as `null` is. -/
theorem canonicalClaims_forged (J : JsonHost) :
    canonicalClaims J forgedClaims = canonicalClaims J (sampleClaims (.ofInt 0)).toValue := by
  rfl

theorem forged_accepted :
    Accepts sampleJson lookupWeb3 sampleService.encodings sampleVerifier (sampleCheck (.ofInt 0))
      (.finite 10) "AQ==" forgedEnvelope := by
  refine accepts_iff.mpr ⟨lookupDecoded, decodeTransaction_sample, ?_, ?_, ?_⟩
  · decide +kernel
  · rw [show forgedEnvelope.field "claims" = forgedClaims from rfl, canonicalClaims_forged]
    simp only [sampleCheck, beq_self_eq_true]
    rfl
  · decide

/-- An envelope that was issued at a fractional reading of the clock is refused. -/
theorem fractional_refused (now : JsNumber) (transaction : String) :
    ¬ Accepts sampleJson lookupWeb3 sampleService.encodings sampleVerifier
      (sampleCheck (.finite (1 / 2))) now transaction
      (received (sampleEnvelope (.finite (1 / 2)))) := by
  intro h
  obtain ⟨decoded, -, hclaims, -⟩ := accepts_iff.mp h
  rw [received_of_finite rfl rfl] at hclaims
  obtain ⟨fields, i, x, hfields, hi, -⟩ := exists_dates_of_checkClaims hclaims
  obtain rfl : (sampleClaims (.finite (1 / 2))).claimFields = fields := JsValue.object.inj hfields
  -- the date that was issued is no integer
  have hdate := AuthorizationClaims.field_of_mem hi
  rw [AuthorizationClaims.field_of_mem (v := .number (.finite (1 / 2)))
    (by simp [AuthorizationClaims.claimFields, sampleClaims, AuthorizationIssuer.claims])] at hdate
  have hden := congrArg Rat.den (JsNumber.finite.inj (JsValue.number.inj hdate))
  rw [Rat.den_intCast] at hden
  exact absurd hden (by decide +kernel)

/-- Without safe dates an envelope that was issued is refused, and claims with an infinite number
in them pass for claims that were signed. -/
theorem fractional_refused_and_forged_accepted :
    stringify.Lawful ∧
    buildSimulationRequest lookupWeb3 sampleService.encodings ⟨"devnet", "AQ==", .ofInt 100⟩ "0xcd" =
      .ok lookupRequest ∧
    (∀ issuedAt ∈ [JsNumber.finite (1 / 2), .ofInt 0],
      (sampleIssuer issuedAt).issue lookupRequest lookupEvidence lookupReferences "a1" issuedAt =
        .ok (sampleEnvelope issuedAt) ∧
      Shares (sampleIssuer issuedAt) sampleVerifier lookupRequest lookupReferences ∧
      SignsOnly (sampleIssuer issuedAt) (sampleCheck issuedAt) lookupReferences
        (· = sampleEnvelope issuedAt)) ∧
    ¬ Accepts sampleJson lookupWeb3 sampleService.encodings sampleVerifier
      (sampleCheck (.finite (1 / 2))) (.finite (1 / 2)) "AQ=="
      (received (sampleEnvelope (.finite (1 / 2)))) ∧
    Accepts sampleJson lookupWeb3 sampleService.encodings sampleVerifier (sampleCheck (.ofInt 0))
      (.finite 10) "AQ==" forgedEnvelope ∧
    ¬ forgedClaims.Same (sampleClaims (.ofInt 0)).toValue := by
  refine ⟨stringify_lawful, build_sample, fun issuedAt _ => ⟨issue_sample issuedAt,
    shares_sample issuedAt, signsOnly_sample issuedAt⟩, fractional_refused _ _, forged_accepted, ?_⟩
  intro hsame
  have hinstructions := JsValue.Same.field hsame (List.mem_map.mpr
    ⟨("instructions", instructionsValue (sampleClaims (.ofInt 0)).instructions),
      by simp [AuthorizationClaims.claimFields], rfl⟩)
  -- the second account of the one instruction is `null` in what was signed
  change (JsValue.array _).Same (instructionsValue [⟨"program", [some "payer", none], "02"⟩])
    at hinstructions
  have haccounts := JsValue.Same.field hinstructions.1 (k := "accounts")
    (v := .array [.string "payer", .number (.infinity false)]) (by simp)
  exact haccounts.2.1

end AriOs.Execution
