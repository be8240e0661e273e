import AriOs.Execution.AuthorizationAgreement
import AriOs.Execution.RpcSimulator
import AriOs.LiveTrading.Persistence

/-!
# Simulation evidence in a stored quote

A quote carries its request and the evidence of its simulation to the issuer of authorizations
through the store. What the evidence says comes back as it was, whatever the route of the quote
does to its row, as long as the row can be read. The evidence names the message the result named,
and the result may write the hash of the message in another case than the request: it is compared
without regard to case when the evidence is created, and exactly when the authorization is issued.
-/

namespace AriOs.LiveTrading.Persistence

open AriOs.Execution AriOs.Js AriOs.Signer

/-- `createSimulationEvidence`. -/
def createSimulationEvidence (J : JsonHost) (sha256 : String → String) (request : SimulationRequest)
    (result : SimulationResult) : Except String SimulationEvidence := do
  throwIf (toLowerCase result.messageHash ≠ toLowerCase request.messageHash)
    "simulation_transaction_mismatch"
  let body : SimulationEvidence := {
    hash := ""
    messageHash := result.messageHash
    slot := result.slot
    blockhash := result.blockhash
    unitsConsumed := result.unitsConsumed
    feeLamports := result.feeLamports
    logs := result.logs
    accountStates := result.accountStates
    assetDeltas := result.assetDeltas
    capabilities := result.capabilities }
  return { body with hash := simulationEvidenceHash J sha256 body }

/-! ### Reading records -/

def items? : JsValue → Option (List JsValue)
  | .array items => some items
  | _ => none

def bigint? : JsValue → Option Int
  | .bigint i => some i
  | _ => none

def bool? : JsValue → Option Bool
  | .bool b => some b
  | _ => none

/-- A text or `null`. -/
def nullable? : JsValue → Option (Option String)
  | .null => some none
  | .string s => some (some s)
  | _ => none

def texts? (v : JsValue) : Option (List String) := do (← items? v).mapM JsValue.text?

def accountState? (v : JsValue) : Option AccountState := do
  return {
    address := ← (v.field "address").text?
    lamports := ← bigint? (v.field "lamports")
    owner := ← (v.field "owner").text?
    data := ← nullable? (v.field "data") }

def assetDelta? (v : JsValue) : Option AssetDelta := do
  return {
    asset := ← (v.field "asset").text?
    owner := ← (v.field "owner").text?
    amount := ← bigint? (v.field "amount") }

def capabilities? (v : JsValue) : Option SimulationCapabilities := do
  return {
    balances := ← bool? (v.field "balances")
    logs := ← bool? (v.field "logs")
    fee := ← bool? (v.field "fee")
    addressTableLookups := ← bool? (v.field "addressTableLookups") }

def evidenceOf? (v : JsValue) : Option SimulationEvidence := do
  return {
    hash := ← (v.field "hash").text?
    messageHash := ← (v.field "messageHash").text?
    slot := ← bigint? (v.field "slot")
    blockhash := ← (v.field "blockhash").text?
    unitsConsumed := ← bigint? (v.field "unitsConsumed")
    feeLamports := ← bigint? (v.field "feeLamports")
    logs := ← texts? (v.field "logs")
    accountStates := ← (← items? (v.field "accountStates")).mapM accountState?
    assetDeltas := ← (← items? (v.field "assetDeltas")).mapM assetDelta?
    capabilities := ← capabilities? (v.field "capabilities") }

def instruction? (v : JsValue) : Option InstructionSummary := do
  return {
    programId := ← (v.field "programId").text?
    accounts := ← (← items? (v.field "accounts")).mapM nullable?
    data := ← (v.field "data").text? }

def requestOf? (v : JsValue) : Option SimulationRequest := do
  return {
    cluster := ← (v.field "cluster").text?
    transaction := ← (v.field "transaction").text?
    message := ← (v.field "message").text?
    messageHash := ← (v.field "messageHash").text?
    feePayer := ← (v.field "feePayer").text?
    recentBlockhash := ← (v.field "recentBlockhash").text?
    lastValidBlockHeight := ← (← (v.field "lastValidBlockHeight").number?).toBigInt?
    programIds := ← texts? (v.field "programIds")
    accountKeys := ← texts? (v.field "accountKeys")
    instructions := ← (← items? (v.field "instructions")).mapM instruction?
    addressTableLookups := ← texts? (v.field "addressTableLookups")
    policyHash := ← (v.field "policyHash").text? }

/-- A list is read as it was written if each item is. -/
theorem mapM_map_eq_some {α : Type} (write : α → JsValue) (read : JsValue → Option α)
    (h : ∀ a, read (write a) = some a) (l : List α) : (l.map write).mapM read = some l := by
  induction l with
  | nil => rfl
  | cons a l ih => rw [List.map_cons, List.mapM_cons, h, ih]; rfl

theorem texts?_texts (l : List String) : texts? (texts l) = some l :=
  mapM_map_eq_some .string JsValue.text? (fun _ => rfl) l

theorem nullable?_text (s : Option String) :
    nullable? ((s.map JsValue.string).getD .null) = some s := by
  cases s <;> rfl

theorem evidenceOf?_evidenceValue (e : SimulationEvidence) :
    evidenceOf? (evidenceValue e) = some e := by
  have hstates := mapM_map_eq_some (fun a : AccountState => .object [
      ("address", .string a.address), ("lamports", .bigint a.lamports),
      ("owner", .string a.owner), ("data", (a.data.map JsValue.string).getD .null)])
    accountState? (fun a => by
      simp [accountState?, JsValue.field, JsValue.text?, bigint?, nullable?_text, List.lookup])
    e.accountStates
  have hdeltas := mapM_map_eq_some (fun d : AssetDelta => .object [
      ("asset", .string d.asset), ("owner", .string d.owner), ("amount", .bigint d.amount)])
    assetDelta? (fun d => by
      simp [assetDelta?, JsValue.field, JsValue.text?, bigint?, List.lookup])
    e.assetDeltas
  rw [evidenceValue, evidenceBody, evidenceOf?]
  simp [JsValue.field, List.lookup, JsValue.text?, bigint?, texts?_texts, items?, hstates, hdeltas,
    capabilities?, bool?]

theorem requestOf?_requestValue (r : SimulationRequest) :
    requestOf? (requestValue r) = some r := by
  have haccounts : ∀ l : List (Option String),
      (l.map fun a => (a.map JsValue.string).getD .null).mapM nullable? = some l :=
    mapM_map_eq_some _ nullable? nullable?_text
  have hinstructions := mapM_map_eq_some instructionValue instruction?
    (fun i => by
      simp [instruction?, instructionValue, JsValue.field, JsValue.text?, items?, haccounts,
        List.lookup])
    r.instructions
  rw [requestValue, requestOf?]
  simp [JsValue.field, List.lookup, JsValue.text?, JsValue.number?, texts?_texts, items?,
    hinstructions]

/-! ### Evidence and its hash -/

section Evidence

variable {J : JsonHost} {sha256 : String → String} {request : SimulationRequest}
  {result : SimulationResult} {e : SimulationEvidence}

theorem createSimulationEvidence_eq_ok
    (h : createSimulationEvidence J sha256 request result = .ok e) :
    toLowerCase result.messageHash = toLowerCase request.messageHash ∧
      e.messageHash = result.messageHash ∧ e.hash = simulationEvidenceHash J sha256 e := by
  simp only [createSimulationEvidence, bind_eq_ok, throwIf_eq_ok, not_not] at h
  obtain ⟨-, hcase, heq⟩ := h
  obtain rfl := Except.ok.inj heq
  exact ⟨hcase, rfl, rfl⟩

theorem plain_comesBack {S : Stringify} {v : JsValue} (h : Plain v) : ComesBack (revive S) v := by
  rw [revived_tagged_iff reviver]
  exact ⟨h.1, (everyObject_congr (fun _ => leftAlone_iff) v).mpr h.2⟩

/-- Whatever is plain can be read. -/
theorem readable_of_plain {S : Stringify} {v : JsValue} (h : Plain v) :
    EveryObject (Readable S) v := by
  obtain ⟨w, hw, hread⟩ := plain_comesBack (S := S) h
  rw [← everyObject_congr (fun _ => accepted_iff), ← exists_revived_iff reviver hw]
  exact ⟨v, hread⟩

end Evidence

/-! ### A stored quote -/

section Quote

variable {S : Stringify} {q : StoredQuote} {v : JsValue}

theorem lookup_append_optional {fields : List (String × JsValue)} {key key' : String}
    {w : Option JsValue} (h : key' ≠ key) :
    (fields ++ optional key' w).lookup key = fields.lookup key := by
  cases w with
  | none => simp [optional]
  | some w => simp [optional, List.lookup_append, List.lookup, beq_eq_false_iff_ne.mpr h.symm]

theorem request_of_reload {r : SimulationRequest} (h : reload S q.toValue = .ok v)
    (hrequest : q.request = some r) : requestOf? (v.field "request") = some r := by
  have hlookup : q.fields.lookup "request" = some (requestValue r) := by
    rw [StoredQuote.fields, lookup_append_optional (by decide), lookup_append_optional (by decide),
      lookup_append_optional (by decide), hrequest]
    cases q.route <;> simp [optional, List.lookup]
  rw [field_of_reload h (untagged_quote q) hlookup (plain_comesBack (plain_requestValue r)),
    requestOf?_requestValue]

theorem evidence_of_reload {e : SimulationEvidence} (h : reload S q.toValue = .ok v)
    (hevidence : q.evidence = some e) : evidenceOf? (v.field "evidence") = some e := by
  have hlookup : q.fields.lookup "evidence" = some (evidenceValue e) := by
    rw [StoredQuote.fields, lookup_append_optional (by decide), lookup_append_optional (by decide),
      hevidence]
    cases q.route <;> cases q.request <;> simp [optional, List.lookup]
  rw [field_of_reload h (untagged_quote q) hlookup (plain_comesBack (plain_evidenceValue e)),
    evidenceOf?_evidenceValue]

/-- A quote can be read exactly if its route can. -/
theorem exists_reload_quote_iff : (∃ v, reload S q.toValue = .ok v) ↔
    ∀ route ∈ q.route, EveryObject (Readable S) route := by
  rw [StoredQuote.toValue, exists_reload_record_iff (untagged_quote q)]
  simp only [StoredQuote.fields, List.forall_mem_append, forall_mem_optional]
  have hrequest : ∀ r, EveryObject (Readable S) (requestValue r) := fun r =>
    readable_of_plain (plain_requestValue r)
  have hevidence : ∀ e, EveryObject (Readable S) (evidenceValue e) := fun e =>
    readable_of_plain (plain_evidenceValue e)
  simp [EveryObject, hrequest, hevidence]

end Quote

/-! ### What stored evidence passes -/

/-- A request that was projected from a decode is one the issuer derives again. -/
theorem checkRequest_of_decoded {I : AuthorizationIssuer} {wire : String} {d : DecodedTransaction}
    (h : decodeTransaction I.web3 I.encodings wire = .ok d) (cluster : String) (last : Int)
    (policyHash : String) : I.checkRequest (simulationRequestOf d cluster last policyHash) = .ok () := by
  have hwire : (simulationRequestOf d cluster last policyHash).transaction = wire :=
    decodeTransaction_wireBase64 h
  rw [AuthorizationIssuer.checkRequest, hwire, h]
  simp only [bind_eq_ok, throwIf_eq_ok]
  exact ⟨d, rfl, not_not.mpr rfl⟩

theorem checkEvidence_iff {I : AuthorizationIssuer} {r : SimulationRequest}
    {e : SimulationEvidence} (h : e.hash = simulationEvidenceHash I.json I.sha256 e) :
    I.checkEvidence r e = .ok () ↔ e.messageHash = r.messageHash := by
  rw [AuthorizationIssuer.checkEvidence, throwIf_eq_ok, not_or, not_not, not_not, and_iff_right h]

theorem toLowerCase_append (s t : String) :
    toLowerCase (s ++ t) = toLowerCase s ++ toLowerCase t := by
  simp [toLowerCase]

/-- The hash of a message is in lower case, as the digests of the host are. -/
theorem toLowerCase_messageHash {W : Web3} {enc : Encodings} {wire : String}
    {d : DecodedTransaction} (hlower : ∀ b, toLowerCase (enc.sha256 b) = enc.sha256 b)
    (h : decodeTransaction W enc wire = .ok d) : toLowerCase d.messageHash = d.messageHash := by
  rw [(decodeTransaction_message h).1, sha256Hex, toLowerCase_append, hlower]
  rfl

/-- Evidence of a result, stored in a quote with the request for the transaction. The row can be
read exactly if the route can. Whenever it is read, request and evidence are what they were, the
hash over the evidence is the same, the request is derived again, and the evidence passes exactly
if the result named the hash of the message as the request does, case included. For a message
whose digest is another, it does not pass. -/
theorem evidence_survives {S : Stringify} {I : AuthorizationIssuer}
    (hlower : ∀ b, toLowerCase (I.encodings.sha256 b) = I.encodings.sha256 b)
    {wire cluster policyHash : String} {last : Int} {d : DecodedTransaction}
    (hdecode : decodeTransaction I.web3 I.encodings wire = .ok d)
    {result : SimulationResult} {e : SimulationEvidence} {q : StoredQuote}
    (hcreate : createSimulationEvidence I.json I.sha256
      (simulationRequestOf d cluster last policyHash) result = .ok e)
    (hrequest : q.request = some (simulationRequestOf d cluster last policyHash))
    (hevidence : q.evidence = some e) :
    ((∃ v, reload S q.toValue = .ok v) ↔ ∀ route ∈ q.route, EveryObject (Readable S) route) ∧
    ∀ v, reload S q.toValue = .ok v → ∃ r e',
      requestOf? (v.field "request") = some r ∧ evidenceOf? (v.field "evidence") = some e' ∧
      r = simulationRequestOf d cluster last policyHash ∧
      simulationEvidenceHash I.json I.sha256 e' = simulationEvidenceHash I.json I.sha256 e ∧
      I.checkRequest r = .ok () ∧
      (I.checkEvidence r e' = .ok () ↔ result.messageHash = r.messageHash) ∧
      ∀ wire' d' cluster' last' policyHash',
        decodeTransaction I.web3 I.encodings wire' = .ok d' →
        I.encodings.sha256 d'.messageBytes ≠ I.encodings.sha256 d.messageBytes →
        I.checkEvidence (simulationRequestOf d' cluster' last' policyHash') e' ≠ .ok () := by
  obtain ⟨hcase, hnamed, hhash⟩ := createSimulationEvidence_eq_ok hcreate
  refine ⟨exists_reload_quote_iff, fun v hv => ?_⟩
  refine ⟨_, e, request_of_reload hv hrequest, evidence_of_reload hv hevidence, rfl, rfl,
    checkRequest_of_decoded hdecode cluster last policyHash, ?_, ?_⟩
  · rw [checkEvidence_iff hhash, hnamed]
  · intro wire' d' cluster' last' policyHash' hdecode' hdigest hpasses
    rw [checkEvidence_iff hhash, hnamed] at hpasses
    -- both hashes are in lower case, and the result named one of them for the other
    have hsame : d'.messageHash = d.messageHash := by
      have hpasses' : result.messageHash = d'.messageHash := hpasses
      have hcase' : toLowerCase result.messageHash = toLowerCase d.messageHash := hcase
      rw [← toLowerCase_messageHash hlower hdecode', ← hpasses', hcase',
        toLowerCase_messageHash hlower hdecode]
    rw [(decodeTransaction_message hdecode').1, (decodeTransaction_message hdecode).1,
      sha256Hex, sha256Hex] at hsame
    exact hdigest (String.append_right_inj "0x" |>.mp hsame)

/-- The digest of the message `07`. -/
def MESSAGE_DIGEST : String := "ca358758f6d27e6cf45272937977a748fd88391db679ceda7dc7bf1f005ee879"

/-- An issuer on a host with that digest, and the digest of the evidence below. -/
def storageIssuer : AuthorizationIssuer :=
  { issuerWith .ok with
    encodings := { sampleService.encodings with sha256 := fun _ => MESSAGE_DIGEST }
    sha256 := fun _ => "51ec5915d32fd8a0f7fde28725c4d421ca98b124ea786acf3aaeb747a2c6a37c" }

/-- What is decoded on that host. -/
def storageDecoded : DecodedTransaction :=
  { lookupDecoded with messageHash := "0x" ++ MESSAGE_DIGEST }

def storageRequest : SimulationRequest := simulationRequestOf storageDecoded "devnet" 100 "0xcd"

/-- A result that names the hash of the message as `messageHash`. -/
def resultNaming (messageHash : String) : SimulationResult where
  success := true
  slot := 1
  blockhash := "hash"
  messageHash := messageHash
  unitsConsumed := 450
  feeLamports := 5000
  logs := []
  accountStates := []
  assetDeltas := []
  capabilities := ⟨true, true, true, true⟩

/-- The evidence of it. -/
def evidenceNaming (messageHash : String) : SimulationEvidence :=
  { lookupEvidence with hash := "0x" ++ storageIssuer.sha256 "", messageHash }

/-- A quote without a route. -/
def quoteWith (e : SimulationEvidence) : StoredQuote :=
  { quoteAlong .null with route := none, request := some storageRequest, evidence := some e }

theorem decodeTransaction_storage :
    decodeTransaction storageIssuer.web3 storageIssuer.encodings "AQ==" = .ok storageDecoded := by
  decide

theorem reload_quoteWith (e : SimulationEvidence) :
    reload stringify (quoteWith e).toValue = .ok (quoteWith e).toValue :=
  ((reload_iff stringify).1 (quoteWith e)).mpr ⟨⟨rfl, rfl, rfl⟩, by simp [quoteWith]⟩

theorem createSimulationEvidence_naming (messageHash : String)
    (h : toLowerCase messageHash = toLowerCase storageRequest.messageHash) :
    createSimulationEvidence storageIssuer.json storageIssuer.sha256 storageRequest
      (resultNaming messageHash) = .ok (evidenceNaming messageHash) := by
  rw [createSimulationEvidence, resultNaming, throwIf, if_neg (not_not.mpr h)]
  rfl

/-- Evidence of a result that names the hash exactly passes after it was stored. -/
theorem evidence_survives_exact : ∃ v,
    reload stringify (quoteWith (evidenceNaming storageRequest.messageHash)).toValue = .ok v ∧
    ∃ r e, requestOf? (v.field "request") = some r ∧ evidenceOf? (v.field "evidence") = some e ∧
      storageIssuer.checkRequest r = .ok () ∧ storageIssuer.checkEvidence r e = .ok () := by
  have hlower : toLowerCase MESSAGE_DIGEST = MESSAGE_DIGEST := by decide
  have hcreate := createSimulationEvidence_naming storageRequest.messageHash rfl
  have hsurvives : _ ∧ _ := evidence_survives (S := stringify) (I := storageIssuer)
    (fun _ => hlower) decodeTransaction_storage hcreate
    (q := quoteWith (evidenceNaming storageRequest.messageHash)) rfl rfl
  obtain ⟨-, h⟩ := hsurvives
  obtain ⟨r, e, hr, he, hrequest, -, hcheck, hpasses, -⟩ := h _ (reload_quoteWith _)
  exact ⟨_, reload_quoteWith _, r, e, hr, he, hcheck, hpasses.mpr (by rw [hrequest]; rfl)⟩

/-- A result that names the hash in upper case has evidence, and it is refused. -/
theorem evidence_in_upper_case :
    ¬ ∀ (S : Stringify) (I : AuthorizationIssuer) (wire : String) (d : DecodedTransaction)
        (result : SimulationResult) (e : SimulationEvidence) (q : StoredQuote) (v : JsValue),
      decodeTransaction I.web3 I.encodings wire = .ok d → result.success = true →
      createSimulationEvidence I.json I.sha256 (simulationRequestOf d "devnet" 100 "0xcd") result =
        .ok e →
      q.request = some (simulationRequestOf d "devnet" 100 "0xcd") → q.evidence = some e →
      reload S q.toValue = .ok v →
      ∃ r e', requestOf? (v.field "request") = some r ∧
        evidenceOf? (v.field "evidence") = some e' ∧ I.checkEvidence r e' = .ok () := by
  intro h
  let upper : String := "0xCA358758F6D27E6CF45272937977A748FD88391DB679CEDA7DC7BF1F005EE879"
  obtain ⟨r, e', hr, he', hpasses⟩ := h stringify storageIssuer "AQ==" storageDecoded
    (resultNaming upper) (evidenceNaming upper) (quoteWith (evidenceNaming upper)) _
    decodeTransaction_storage rfl (createSimulationEvidence_naming upper (by decide)) rfl rfl
    (reload_quoteWith _)
  rw [request_of_reload (reload_quoteWith _) rfl] at hr
  rw [evidence_of_reload (reload_quoteWith _) rfl] at he'
  obtain rfl := Option.some.inj hr
  obtain rfl := Option.some.inj he'
  rw [AuthorizationIssuer.checkEvidence, throwIf_eq_ok] at hpasses
  -- the hash of the request is in lower case
  have hdiffer : (evidenceNaming upper).messageHash ≠ storageRequest.messageHash := by
    decide
  exact hpasses (Or.inr hdiffer)

end AriOs.LiveTrading.Persistence
