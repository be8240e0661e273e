import AriOs.Execution.AuthorizationIssuer
import AriOs.Signer.Service

/-!
# What the verifier asks of an envelope

The verifier as one check of a transaction and an envelope, at a time. What it reads of the claims
it reads field by field, each as it is or through its canonical text, which is the JSON text of
the value with its keys in order.

An issuer writes the same fields, from a request that was decoded on its side. For a verifier that
is configured alike, every check but that of the dates passes.
-/

namespace AriOs.Signer

open AriOs.Async AriOs.Js

/-! ### Canonical text -/

section Text

variable (J : JsonHost)

mutual

/-- The canonical text of a value is the JSON text of the value with its keys in order. -/
theorem normalizedText_eq : ∀ v : JsValue,
    normalizedText J v = (v.toJson J.localeLe).map (Json.text J.toStringify)
  | .undefined | .other | .null | .bool _ | .bigint _ | .string _ => rfl
  | .number (.finite _) | .number .nan | .number (.infinity _) => rfl
  | .array items => by
    rw [normalizedText, normalizedItems_eq items]
    rfl
  | .object fields => by
    simp only [normalizedText, JsValue.toJson, Option.map_some, Json.text, Json.fieldTexts_eq,
      normalizedFields_eq fields]
    rw [← List.map_insertionSort (fun a b => J.localeLe a.1 b.1 = true) _ _ _
      fun _ _ _ _ => Iff.rfl, List.map_map]
    rfl

theorem normalizedItems_eq : ∀ items : List JsValue,
    normalizedItems J items = Json.itemTexts J.toStringify (JsValue.itemsToJson J.localeLe items)
  | [] => rfl
  | v :: vs => by
    rw [normalizedItems, normalizedText_eq v, normalizedItems_eq vs, JsValue.itemsToJson,
      Json.itemTexts]
    cases v.toJson J.localeLe <;> rfl

theorem normalizedFields_eq : ∀ fields : List (String × JsValue),
    normalizedFields J fields =
      (JsValue.fieldsToJson J.localeLe fields).map fun kv => (kv.1, kv.2.text J.toStringify)
  | [] => rfl
  | (k, v) :: fields => by
    rw [normalizedFields, normalizedText_eq v, normalizedFields_eq fields, JsValue.fieldsToJson]
    cases v.toJson J.localeLe <;> rfl

end

/-- Values with the same canonical text are written as the same JSON value. -/
theorem toJson_eq_of_normalizedText_eq {J : JsonHost} (hJ : J.toStringify.Lawful) {v w : JsValue}
    (h : normalizedText J v = normalizedText J w) :
    v.toJson J.localeLe = w.toJson J.localeLe := by
  rw [normalizedText_eq, normalizedText_eq] at h
  exact Option.map_injective (Json.text_injective hJ) h

end Text

/-! ### The verifier -/

/-- What verifies the signature of an envelope: the canonical claims, the signature, the key. -/
abbrev EnvelopeVerifier := Option String → JsValue → JsValue → Bool

/-- `SignerWireVerifier.verify`, for a transaction in its wire form. -/
def verifyWire (J : JsonHost) (W : Web3) (enc : Encodings) (d : VerifierDependencies)
    (transaction : String) (envelope : JsValue) : Signing DecodedTransaction := do
  let decoded ← Signing.check (decodeTransaction W enc transaction)
  verify J d decoded envelope
  return decoded

/-- What the verifier is handed: the time, and whether the signature is valid. It asks for
nothing else. -/
def wireAnswers (check : EnvelopeVerifier) (now : JsNumber) : ∀ o, interface.Res o
  | .now => now
  | .verify text signature keyId => (.ok (check text signature keyId) : Except String Bool)
  | .get _ => (.ok none : Except String (Option ReplayRow))
  | .consume _ _ | .transition _ _ _ _ => (.ok false : Except String Bool)
  | .blockHeight => (.ok .nan : Except String JsNumber)
  | .signMessage _ => (.ok [] : Except String Bytes)

/-- The verifier accepts the envelope for the transaction, at a time. -/
def Accepts (J : JsonHost) (W : Web3) (enc : Encodings) (d : VerifierDependencies)
    (check : EnvelopeVerifier) (now : JsNumber) (transaction : String) (envelope : JsValue) :
    Prop :=
  ∃ decoded, (verifyWire J W enc d transaction envelope).run.answered (wireAnswers check now) =
    .ok decoded

section Accepts

variable {J : JsonHost} {W : Web3} {enc : Encodings} {d : VerifierDependencies}
  {check : EnvelopeVerifier} {now : JsNumber} {transaction : String} {envelope : JsValue}

/-- The checks of the verifier, one after the other. -/
theorem answered_verify (decoded : DecodedTransaction) :
    (verify J d decoded envelope).run.answered (wireAnswers check now) = (do
      checkClaims d (envelope.field "claims") now
      throwIf (check (canonicalClaims J (envelope.field "claims")) (envelope.field "signature")
        ((envelope.field "claims").field "signerKeyId") = false) "envelope_signature_invalid"
      checkBinding J d (envelope.field "claims") decoded) := by
  simp only [verify, Task.answered_bind]
  rfl

/-- What has to hold for an envelope to be accepted. -/
theorem accepts_iff :
    Accepts J W enc d check now transaction envelope ↔ ∃ decoded,
      decodeTransaction W enc transaction = .ok decoded ∧
      checkClaims d (envelope.field "claims") now = .ok () ∧
      check (canonicalClaims J (envelope.field "claims")) (envelope.field "signature")
        ((envelope.field "claims").field "signerKeyId") = true ∧
      checkBinding J d (envelope.field "claims") decoded = .ok () := by
  have hanswered : (verifyWire J W enc d transaction envelope).run.answered (wireAnswers check now) =
      (decodeTransaction W enc transaction >>= fun decoded =>
        (verify J d decoded envelope).run.answered (wireAnswers check now) >>= fun _ =>
          .ok decoded) := by
    simp only [verifyWire, Task.answered_bind]
    rfl
  simp only [Accepts, hanswered, answered_verify, bind_eq_ok, throwIf_eq_ok, Bool.not_eq_false]
  constructor
  · rintro ⟨decoded, d', hdecode, _, ⟨_, hclaims, _, hsignature, hbinding⟩, hok⟩
    exact ⟨d', hdecode, hclaims, hsignature, hbinding⟩
  · rintro ⟨decoded, hdecode, hclaims, hsignature, hbinding⟩
    exact ⟨decoded, decoded, hdecode, (), ⟨(), hclaims, (), hsignature, hbinding⟩, rfl⟩

/-- A decoded transaction is the one that was asked for. -/
theorem decodeTransaction_wireBase64 {decoded : DecodedTransaction}
    (h : decodeTransaction W enc transaction = .ok decoded) : decoded.wireBase64 = transaction := by
  simp only [decodeTransaction, bind_eq_ok, throwIf_eq_ok] at h
  obtain ⟨-, -, -, hencoding, tx, -, canonical, -, -, hcanonical, feePayer, -, -, -, -, -, -, -,
    instructions, -, messageBytes, -, heq⟩ := h
  obtain rfl := Except.ok.inj heq
  rw [not_or, not_not] at hencoding
  rw [not_not] at hcanonical
  subst hcanonical
  exact hencoding.2

end Accepts

end AriOs.Signer

namespace AriOs.Execution

open AriOs.Async AriOs.Js AriOs.Signer

/-! ### The request -/

/-- A request that was built is one the issuer derives again. -/
theorem checkRequest_of_built {I : AuthorizationIssuer} {t : PreparedTransaction}
    {policyHash : String} {r : SimulationRequest}
    (h : buildSimulationRequest I.web3 I.encodings t policyHash = .ok r) :
    I.checkRequest r = .ok () := by
  obtain ⟨decoded, last, hdecode, -, -, rfl⟩ := buildSimulationRequest_eq_ok h
  have hwire : (simulationRequestOf decoded t.cluster last policyHash).transaction =
      t.transaction := decodeTransaction_wireBase64 hdecode
  rw [AuthorizationIssuer.checkRequest, hwire, hdecode]
  simp only [bind_eq_ok, throwIf_eq_ok]
  exact ⟨decoded, rfl, not_not.mpr rfl⟩

/-! ### The fields of the claims -/

theorem AuthorizationClaims.keys_nodup (c : AuthorizationClaims) :
    (c.claimFields.map Prod.fst).Nodup := by
  cases h : c.signerKeyId <;>
    simp [AuthorizationClaims.claimFields, AuthorizationReferences.fields, h]

/-- What a field of the claims reads as. -/
theorem AuthorizationClaims.field_of_mem {c : AuthorizationClaims} {k : String} {v : JsValue}
    (hmem : (k, v) ∈ c.claimFields) : c.toValue.field k = v := by
  rw [AuthorizationClaims.toValue, JsValue.field, JsValue.lookup_of_mem c.keys_nodup hmem,
    Option.getD_some]

theorem AuthorizationClaims.text_of_mem {c : AuthorizationClaims} {k t : String}
    (hmem : (k, JsValue.string t) ∈ c.claimFields) : (c.toValue.field k).text? = some t := by
  rw [field_of_mem hmem, JsValue.text?]

theorem texts_isJson (l : List String) : (texts l).IsJson := by
  refine JsValue.itemsJson_iff.mpr fun v hv => ?_
  obtain ⟨s, -, rfl⟩ := List.mem_map.mp hv
  trivial

theorem instructionsValue_isJson (l : List InstructionSummary) : (instructionsValue l).IsJson := by
  refine JsValue.itemsJson_iff.mpr fun v hv => ?_
  obtain ⟨i, -, rfl⟩ := List.mem_map.mp hv
  refine ⟨by simp, trivial, JsValue.itemsJson_iff.mpr fun w hw => ?_, trivial, trivial⟩
  obtain ⟨a, -, rfl⟩ := List.mem_map.mp hw
  cases a <;> trivial

/-- Claims with finite dates are JSON. -/
theorem AuthorizationClaims.isJson {c : AuthorizationClaims} {i x : ℚ}
    (hissuedAt : c.issuedAt = .finite i) (hexpiresAt : c.expiresAt = .finite x) :
    c.toValue.IsJson := by
  refine ⟨c.keys_nodup, ?_⟩
  cases h : c.signerKeyId <;>
    simp [AuthorizationClaims.claimFields, AuthorizationReferences.fields, h, JsValue.FieldsJson,
      JsValue.IsJson, hissuedAt, hexpiresAt, texts_isJson, instructionsValue_isJson, JsNumber.ofInt]

/-- What the verifier reads, whatever the dates are. -/
theorem AuthorizationClaims.field_signerKeyId (c : AuthorizationClaims) :
    c.toValue.field "signerKeyId" = (c.signerKeyId.map JsValue.string).getD .undefined := by
  cases h : c.signerKeyId with
  | some k =>
    exact field_of_mem (by simp [AuthorizationClaims.claimFields, AuthorizationReferences.fields, h])
  | none =>
    simp [AuthorizationClaims.toValue, AuthorizationClaims.claimFields,
      AuthorizationReferences.fields, h, JsValue.field, List.lookup_cons]

/-! ### Configured for each other -/

/-- Issuer and verifier share audience, cluster, key and policy, and the issuer's envelopes live
no longer than the verifier allows. -/
structure Shares (I : AuthorizationIssuer) (d : VerifierDependencies) (r : SimulationRequest)
    (refs : AuthorizationReferences) : Prop where
  audience : refs.audience = d.audience
  cluster : ∀ cluster ∈ d.cluster, r.cluster = cluster
  signerKeyId : ∀ k ∈ configured d.signerKeyId, I.keyId refs = some k
  authorizationKeyIds : ∀ ids ∈ d.authorizationKeyIds, ∃ k ∈ configured (I.keyId refs), k ∈ ids
  policyHash : ∀ h ∈ configured d.policyHash, toLowerCase refs.policyHash = toLowerCase h
  policyVersion : ∀ v ∈ d.policyVersion, refs.policyVersion = v
  ttl : ∀ ttl, I.ttl = .ok ttl → ttl ≤ d.maxTtlMs.getD 60000

/-- The signature check accepts what the issuer signed, under the key the envelope names, and
nothing but the claims of issued envelopes. -/
structure SignsOnly (I : AuthorizationIssuer) (check : EnvelopeVerifier)
    (refs : AuthorizationReferences) (issued : AuthorizationEnvelope → Prop) : Prop where
  signed : ∀ text signature, I.sign text = .ok signature → check (some text) (.string signature)
    (((I.keyId refs).map JsValue.string).getD .undefined) = true
  only : ∀ text signature key, check (some text) signature key = true →
    ∃ env, issued env ∧ canonicalClaims I.json env.claims.toValue = some text

section Issued

variable {I : AuthorizationIssuer} {d : VerifierDependencies} {r : SimulationRequest}
  {e : SimulationEvidence} {refs : AuthorizationReferences} {id : String} {issuedAt : JsNumber}
  {ttl : Int}

/-- Who an issued envelope is for is who the verifier is. -/
theorem checkAudience_claims (hshares : Shares I d r refs) :
    checkAudience d (I.claims r e refs id issuedAt ttl).toValue = .ok () := by
  -- the claims hold what the issuer took from its references
  have haudience : ((I.claims r e refs id issuedAt ttl).toValue.field "audience").text? =
      some refs.audience := AuthorizationClaims.text_of_mem
    (by simp [AuthorizationClaims.claimFields, AuthorizationReferences.fields,
      AuthorizationIssuer.claims])
  have hhash : ((I.claims r e refs id issuedAt ttl).toValue.field "policyHash").text? =
      some refs.policyHash := AuthorizationClaims.text_of_mem
    (by simp [AuthorizationClaims.claimFields, AuthorizationReferences.fields,
      AuthorizationIssuer.claims])
  have hversion : (I.claims r e refs id issuedAt ttl).toValue.field "policyVersion" =
      .number (.ofInt refs.policyVersion) := AuthorizationClaims.field_of_mem
    (by simp [AuthorizationClaims.claimFields, AuthorizationReferences.fields,
      AuthorizationIssuer.claims])
  have hkey : ((I.claims r e refs id issuedAt ttl).toValue.field "signerKeyId").text? =
      I.keyId refs := by
    rw [AuthorizationClaims.field_signerKeyId]
    simp only [AuthorizationIssuer.claims]
    cases I.keyId refs <;> rfl
  simp only [checkAudience, bind_eq_ok, throwIf_eq_ok, haudience, hhash, hversion, hkey,
    JsValue.number?, hashDiffers, Option.map_some]
  -- and the signer expects the same where it expects anything
  refine ⟨(), by simp [hshares.audience], (), ?_, (), ?_, ?_⟩
  · rintro ⟨k, hk, hne⟩
    exact hne (hshares.signerKeyId k hk)
  · rintro (⟨h, hh, hne⟩ | ⟨v, hv, hne⟩)
    · exact hne (congrArg some (hshares.policyHash h hh))
    · exact hne (by rw [hshares.policyVersion v hv])
  · rintro ⟨ids, hids, hnot⟩
    exact hnot (hshares.authorizationKeyIds ids hids)

/-- An issued envelope is in date from its issue on, and until it expires. -/
theorem checkDates_claims (hshares : Shares I d r refs) (httl : I.ttl = .ok ttl)
    (hissuedAt : (I.claims r e refs id issuedAt ttl).issuedAt.isSafeInteger = true)
    (hexpiresAt : (I.claims r e refs id issuedAt ttl).expiresAt.isSafeInteger = true) (now : ℚ) :
    checkDates d (I.claims r e refs id issuedAt ttl).toValue (.finite now) = .ok () ↔
      (I.claims r e refs id issuedAt ttl).issuedAt.le (.finite now) = true ∧
      JsNumber.lt (.finite now) (I.claims r e refs id issuedAt ttl).expiresAt = true := by
  obtain ⟨i, hi⟩ := JsNumber.exists_ofInt_of_isSafeInteger hissuedAt
  -- a safe integer plus a whole number of milliseconds
  have hx : (I.claims r e refs id issuedAt ttl).expiresAt = .ofInt (i + ttl) := by
    change issuedAt.add (.ofInt ttl) = _
    rw [show issuedAt = .ofInt i from hi]
    simp [JsNumber.ofInt, JsNumber.add]
  rw [hi] at hissuedAt
  rw [hx] at hexpiresAt
  have hissued : ((I.claims r e refs id issuedAt ttl).toValue.field "issuedAt").safeInteger? =
      some i := by
    rw [AuthorizationClaims.field_of_mem (v := .number (.ofInt i))
      (by simp [AuthorizationClaims.claimFields, hi])]
    simp [JsValue.safeInteger?, hissuedAt]
  have hexpires : ((I.claims r e refs id issuedAt ttl).toValue.field "expiresAt").safeInteger? =
      some (i + ttl) := by
    rw [AuthorizationClaims.field_of_mem (v := .number (.ofInt (i + ttl)))
      (by simp [AuthorizationClaims.claimFields, hx])]
    simp [JsValue.safeInteger?, hexpiresAt]
  -- the issuer lets no authorization live longer than the signer does
  have hlife : i + ttl ≤ d.maxTtlMs.getD 60000 + i := by
    have := hshares.ttl ttl httl
    omega
  rw [hi, hx]
  simp only [checkDates, hissued, hexpires, orThrow, bind_eq_ok, throwIf_eq_ok, JsNumber.ofInt,
    JsNumber.lt_finite, JsNumber.le_finite]
  simp [hlife]

/-- What an issued envelope claims, apart from its dates, is what the verifier asks for. -/
theorem checkClaims_claims (hshares : Shares I d r refs) (httl : I.ttl = .ok ttl)
    (hissuedAt : (I.claims r e refs id issuedAt ttl).issuedAt.isSafeInteger = true)
    (hexpiresAt : (I.claims r e refs id issuedAt ttl).expiresAt.isSafeInteger = true) (now : ℚ) :
    checkClaims d (I.claims r e refs id issuedAt ttl).toValue (.finite now) = .ok () ↔
      (I.claims r e refs id issuedAt ttl).issuedAt.le (.finite now) = true ∧
      JsNumber.lt (.finite now) (I.claims r e refs id issuedAt ttl).expiresAt = true := by
  have hprotocol : ((I.claims r e refs id issuedAt ttl).toValue.field "protocol").text? =
      some AUTHORIZATION_PROTOCOL := AuthorizationClaims.text_of_mem
    (by simp [AuthorizationClaims.claimFields, AuthorizationIssuer.claims])
  have hversion : (I.claims r e refs id issuedAt ttl).toValue.field "version" =
      .number (.ofInt 1) := AuthorizationClaims.field_of_mem
    (by simp [AuthorizationClaims.claimFields, AuthorizationIssuer.claims])
  have hobject : isObject (I.claims r e refs id issuedAt ttl).toValue = true := rfl
  rw [← checkDates_claims hshares httl hissuedAt hexpiresAt now]
  simp only [checkClaims, bind_eq_ok, throwIf_eq_ok, hobject, hprotocol, hversion,
    JsValue.number?, checkAudience_claims hshares]
  constructor
  · rintro ⟨-, -, -, -, _, hdates, -⟩
    exact hdates
  · exact fun hdates => ⟨(), by simp, (), by simp, (), hdates, trivial⟩

theorem eq_self (J : JsonHost) (v : JsValue) : Signer.eq J v v = true := by simp [Signer.eq]

theorem instructionsValue_ofDecoded (l : List DecodedInstruction) :
    instructionsValue (l.map .ofDecoded) = claimedInstructions l := by
  rw [instructionsValue, claimedInstructions, List.map_map]
  rfl

/-- The claims that describe a transaction. -/
def describingFields (decoded : DecodedTransaction) : List (String × JsValue) := [
  ("transaction", .string decoded.wireBase64),
  ("message", .string decoded.messageBase64),
  ("messageHash", .string decoded.messageHash),
  ("feePayer", .string decoded.feePayer),
  ("recentBlockhash", .string decoded.recentBlockhash),
  ("accountKeys", texts decoded.staticAccountKeys),
  ("programIds", texts (sortedUnique (decoded.instructions.map (·.programId)))),
  ("addressTableLookups", texts (decoded.addressTableLookups.map (·.accountKey))),
  ("instructions", claimedInstructions decoded.instructions)]

/-- Claims with these fields describe the transaction. -/
theorem describes_of_fields {J : JsonHost} {c : JsValue} {decoded : DecodedTransaction}
    (h : ∀ kv ∈ describingFields decoded, c.field kv.1 = kv.2) : describes J c decoded := by
  simp only [describingFields, List.forall_mem_cons, List.not_mem_nil, false_implies,
    implies_true, and_true] at h
  obtain ⟨htransaction, hmessage, hhash, hpayer, hblockhash, hkeys, hprograms, hlookups,
    hinstructions⟩ := h
  simp only [describes, hashDiffers, htransaction, hmessage, hhash, hpayer, hblockhash, hkeys,
    hprograms, hlookups, hinstructions, JsValue.text?, eq_self]
  simp

/-- An envelope describes the transaction its request was decoded from. -/
theorem checkBinding_claims {decoded : DecodedTransaction} {cluster policyHash : String}
    {last : Int} (hshares : Shares I d (simulationRequestOf decoded cluster last policyHash) refs)
    (hlast : (JsNumber.ofInt last).isSafeInteger = true) (hpos : 0 ≤ last) :
    checkBinding I.json d (I.claims (simulationRequestOf decoded cluster last policyHash) e refs id
      issuedAt ttl).toValue decoded = .ok () := by
  set c := I.claims (simulationRequestOf decoded cluster last policyHash) e refs id issuedAt ttl
    with hc
  have hfield : ∀ k v, (k, v) ∈ c.claimFields → c.toValue.field k = v :=
    fun _ _ => AuthorizationClaims.field_of_mem
  -- the claims describe the transaction that they were made from
  have hdescribes : describes I.json c.toValue decoded := by
    refine describes_of_fields fun kv hkv => hfield kv.1 kv.2 (List.mem_append_right _ ?_)
    revert kv
    simp [describingFields, hc, AuthorizationIssuer.claims, simulationRequestOf,
      instructionsValue_ofDecoded]
  have hheight : lastValidBlockHeight? c.toValue = some last := by
    rw [lastValidBlockHeight?, hfield "lastValidBlockHeight" (.number (.ofInt last))
      (List.mem_append_right _ (by simp [hc, AuthorizationIssuer.claims, simulationRequestOf]))]
    simp [JsValue.safeInteger?, hlast, hpos]
  have hcluster : (c.toValue.field "cluster").text? = some cluster :=
    AuthorizationClaims.text_of_mem (List.mem_append_right _
      (by simp [hc, AuthorizationIssuer.claims, simulationRequestOf]))
  simp only [checkBinding, bind_eq_ok, throwIf_eq_ok, hheight, hcluster]
  refine ⟨(), ?_, (), by simp, not_not.mpr hdescribes⟩
  -- the signer expects no other cluster than the issuer writes
  rintro ⟨cluster', hcluster', hne⟩
  exact hne (congrArg some (hshares.cluster cluster' hcluster'))

end Issued

end AriOs.Execution
