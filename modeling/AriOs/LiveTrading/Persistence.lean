import AriOs.Autonomy.EventPayload
import AriOs.LiveTrading.ExecutionStore

/-!
# What comes back of a quote and of an execution

Quotes and executions are stored as JSON in which a `bigint` is an object with its text under
`$bigint`. Every object that has that key, whatever else it has, is read as a `bigint`: `BigInt`
is called with what the key holds, and throws where that is not the text of one. The records
themselves have no such key, and a `route` may be anything.
-/

namespace AriOs.LiveTrading.Persistence

open AriOs.Autonomy.Events AriOs.Execution AriOs.Js

/-! ### Writing and reading -/

section Parse

variable (J : Stringify)

mutual

/-- `BigInt(v)`, for what JSON can hold. -/
def bigIntOf? : JsValue → Option Int
  | .bool b => some (if b then 1 else 0)
  | .number n => n.toBigInt?
  | .bigint i => some i
  | .string s => bigInt? s
  | .array items => bigIntOfItems? items
  | .undefined | .null | .object _ | .other => none

/-- An array is read by its text. No number has a comma in its text. -/
def bigIntOfItems? : List JsValue → Option Int
  | [] => some 0
  | v :: items => if items.isEmpty then bigIntOfItem? v else none

/-- The only item of an array is read by its text, which is empty for `null`. -/
def bigIntOfItem? : JsValue → Option Int
  | .undefined | .null => some 0
  | .number (.finite q) => bigInt? (J.number q)
  | .bigint i => some i
  | .string s => bigInt? s
  | .array items => bigIntOfItems? items
  | .number _ | .bool _ | .object _ | .other => none

end

/-- The reviver of `parse`. -/
def revive : JsValue → Except String JsValue
  | .object fields =>
    match fields.lookup "$bigint" with
    | some v => do return .bigint (← orThrow (bigIntOf? J v) "Cannot convert the value to a BigInt")
    | none => .ok (.object fields)
  | v => .ok v

/-- `json`. -/
def json (x : JsValue) : Option JsValue := tagged x

/-- `parse`. -/
def parse (x : JsValue) : Except String JsValue := revived (revive J) x

/-- What is stored for `x`, read again. -/
def reload (x : JsValue) : Except String JsValue := parse J ((json x).getD .undefined)

end Parse

/-- None of the fields is one that `parse` takes for the text of a `bigint`. -/
def Untagged (fields : List (String × JsValue)) : Prop := ∀ kv ∈ fields, kv.1 ≠ "$bigint"

section Reload

variable {J : Stringify}

theorem revive_of_untagged {fields : List (String × JsValue)} (h : Untagged fields) :
    revive J (.object fields) = .ok (.object fields) := by
  have hnone : fields.lookup "$bigint" = none := by
    rw [List.lookup_eq_none_iff]
    intro kv hkv
    exact bne_iff_ne.mpr (h kv hkv).symm
  rw [revive, hnone]

/-- An object with the key is never read as an object. -/
theorem revive_of_tagged {fields fields' : List (String × JsValue)} (h : ¬ Untagged fields) :
    revive J (.object fields) ≠ .ok (.object fields') := by
  intro heq
  cases hlookup : fields.lookup "$bigint" with
  | none =>
    rw [List.lookup_eq_none_iff] at hlookup
    refine h fun kv hkv hkey => ?_
    simpa [hkey] using hlookup kv hkv
  | some v =>
    rw [revive, hlookup] at heq
    simp only [bind_eq_ok] at heq
    obtain ⟨i, -, hi⟩ := heq
    cases hi

theorem leftAlone_iff {fields : List (String × JsValue)} :
    LeftAlone (revive J) fields ↔ Untagged fields := by
  constructor
  · intro h
    by_contra htag
    exact revive_of_tagged htag h
  · exact revive_of_untagged

theorem reviver : Reviver (revive J) where
  tag i := by
    have hread : bigIntOf? J (.string (toString i)) = some i := bigInt?_toString i
    rw [bigintTag, BIGINT_KEY, revive]
    simp only [List.lookup_cons_self, hread]
    rfl
  object {fields fields'} h := by
    by_cases htag : Untagged fields
    · rw [revive_of_untagged htag] at h
      exact (JsValue.object.inj (Except.ok.inj h)).symm
    · exact absurd h (revive_of_tagged htag)

/-- An object comes back exactly if it is built from JSON values and `bigint`s, without the key. -/
theorem reload_object_iff {fields : List (String × JsValue)} :
    reload J (.object fields) = .ok (.object fields) ↔
      Portable (.object fields) ∧ EveryObject Untagged (.object fields) := by
  rw [← everyObject_congr (fun _ => leftAlone_iff (J := J)), ← revived_tagged_iff reviver]
  simp [reload, json, parse, ComesBack, tagged]

/-- What was read of a field of an object. -/
theorem lookup_of_revivedFields {x : JsValue} {key : String} (hx : ComesBack (revive J) x) :
    ∀ {fields fields' : List (String × JsValue)},
      revivedFields (revive J) (taggedFields fields) = .ok fields' →
      fields.lookup key = some x → fields'.lookup key = some x
  | [], _, _, hlookup => by cases hlookup
  | (k, v) :: fields, fields', h, hlookup => by
    rw [List.lookup_cons] at hlookup
    cases htag : tagged v with
    | none =>
      rw [taggedFields, htag] at h
      cases hk : key == k with
      | true =>
        -- the field itself is written
        rw [hk] at hlookup
        obtain ⟨w, hw, -⟩ := hx
        rw [← Option.some.inj hlookup, htag] at hw
        cases hw
      | false =>
        rw [hk] at hlookup
        exact lookup_of_revivedFields hx h hlookup
    | some w =>
      rw [taggedFields, htag] at h
      simp only [revivedFields, bind_eq_ok] at h
      obtain ⟨v', hv', rest, hrest, heq⟩ := h
      cases heq
      rw [List.lookup_cons]
      cases hk : key == k with
      | true =>
        rw [hk] at hlookup
        obtain rfl := Option.some.inj hlookup
        obtain ⟨w', hw', hback⟩ := hx
        obtain rfl := Option.some.inj (htag.symm.trans hw')
        rw [hv'] at hback
        rw [Except.ok.inj hback]
      | false =>
        rw [hk] at hlookup
        exact lookup_of_revivedFields hx hrest hlookup

/-- Reading adds no keys. -/
theorem untagged_of_revivedFields : ∀ {fields fields' : List (String × JsValue)},
    revivedFields (revive J) (taggedFields fields) = .ok fields' → Untagged fields →
      Untagged fields'
  | [], _, h, _ => by
    cases h
    simp [Untagged]
  | (k, v) :: fields, fields', h, hfields => by
    rw [Untagged, List.forall_mem_cons] at hfields
    cases htag : tagged v with
    | none =>
      rw [taggedFields, htag] at h
      exact untagged_of_revivedFields h hfields.2
    | some w =>
      rw [taggedFields, htag] at h
      simp only [revivedFields, bind_eq_ok] at h
      obtain ⟨v', -, rest, hrest, heq⟩ := h
      cases heq
      rw [Untagged, List.forall_mem_cons]
      exact ⟨hfields.1, untagged_of_revivedFields hrest hfields.2⟩

/-- A field of a record that comes back by itself is there when the record is read. -/
theorem field_of_reload {fields : List (String × JsValue)} {v x : JsValue} {key : String}
    (h : reload J (.object fields) = .ok v) (hfields : Untagged fields)
    (hlookup : fields.lookup key = some x) (hx : ComesBack (revive J) x) : v.field key = x := by
  simp only [reload, json, parse, tagged, Option.getD_some, revived, bind_eq_ok] at h
  obtain ⟨fields', hread, hrevive⟩ := h
  rw [revive_of_untagged (untagged_of_revivedFields hread hfields)] at hrevive
  obtain rfl := Except.ok.inj hrevive
  rw [JsValue.field, lookup_of_revivedFields hx hread hlookup, Option.getD_some]

/-- What the key of a tag holds, if the object has it, is read as a `bigint`. -/
def Readable (J : Stringify) (fields : List (String × JsValue)) : Prop :=
  ∀ fields' v, revivedFields (revive J) (taggedFields fields) = .ok fields' →
    fields'.lookup "$bigint" = some v → ∃ i, bigIntOf? J v = some i

theorem accepted_iff {fields : List (String × JsValue)} :
    Accepted (revive J) fields ↔ Readable J fields := by
  have hrevive : ∀ fields', (∃ r, revive J (.object fields') = .ok r) ↔
      ∀ v, fields'.lookup "$bigint" = some v → ∃ i, bigIntOf? J v = some i := by
    intro fields'
    rw [revive]
    cases fields'.lookup "$bigint" with
    | none => simp
    | some v => simp [pure, Except.pure]
  simp only [Accepted, Readable, hrevive]
  exact ⟨fun h fields' v hread => h fields' hread v, fun h fields' hread v => h fields' v hread⟩

/-- A record can be read exactly if its fields can. -/
theorem exists_reload_record_iff {fields : List (String × JsValue)} (h : Untagged fields) :
    (∃ v, reload J (.object fields) = .ok v) ↔
      ∀ kv ∈ fields, EveryObject (Readable J) kv.2 := by
  have hself : Accepted (revive J) fields := fun fields' hread =>
    ⟨_, revive_of_untagged (untagged_of_revivedFields hread h)⟩
  have hrevived := exists_revived_iff (reviver (J := J)) (v := .object fields) rfl
  rw [reload, json, parse, tagged, Option.getD_some, hrevived, EveryObject, and_iff_right hself,
    everyObjectFields_iff]
  exact forall₂_congr fun kv _ => everyObject_congr (fun _ => accepted_iff) kv.2

end Reload

/-! ### Records -/

def sideText : QuoteSide → String
  | .buy => "buy"
  | .sell => "sell"
  | .revoke => "revoke"

/-- A field that may be missing. -/
def optional (key : String) (v : Option JsValue) : List (String × JsValue) :=
  (v.map (Prod.mk key)).toList

/-- A quote. Its slot is that of a simulation, a `bigint`; the block height and the time it expires
at are numbers that were read from elsewhere. -/
structure StoredQuote where
  id : String
  side : QuoteSide
  cluster : String
  inputMint : String
  outputMint : String
  amountIn : Int
  amountOut : Int
  minimumOut : Int
  slippageBps : JsNumber
  slot : Int
  lastValidBlockHeight : JsNumber
  expiresAt : JsNumber
  intentHash : String
  quoteHash : String
  policyHash : String
  route : Option JsValue
  request : Option SimulationRequest
  evidence : Option SimulationEvidence
  transaction : Option String
  messageHash : Option String

def instructionValue (i : InstructionSummary) : JsValue :=
  .object [
    ("programId", .string i.programId),
    ("accounts", .array (i.accounts.map fun a => (a.map JsValue.string).getD .null)),
    ("data", .string i.data)]

def requestValue (r : SimulationRequest) : JsValue :=
  .object [
    ("cluster", .string r.cluster),
    ("transaction", .string r.transaction),
    ("message", .string r.message),
    ("messageHash", .string r.messageHash),
    ("feePayer", .string r.feePayer),
    ("recentBlockhash", .string r.recentBlockhash),
    ("lastValidBlockHeight", .number (.ofInt r.lastValidBlockHeight)),
    ("programIds", Signer.texts r.programIds),
    ("accountKeys", Signer.texts r.accountKeys),
    ("instructions", .array (r.instructions.map instructionValue)),
    ("addressTableLookups", Signer.texts r.addressTableLookups),
    ("policyHash", .string r.policyHash)]

/-- `{ ...body, hash }`. -/
def evidenceValue (e : SimulationEvidence) : JsValue :=
  match evidenceBody e with
  | .object fields => .object (fields ++ [("hash", .string e.hash)])
  | v => v

def StoredQuote.fields (q : StoredQuote) : List (String × JsValue) :=
  [("id", .string q.id),
    ("side", .string (sideText q.side)),
    ("cluster", .string q.cluster),
    ("inputMint", .string q.inputMint),
    ("outputMint", .string q.outputMint),
    ("amountIn", .bigint q.amountIn),
    ("amountOut", .bigint q.amountOut),
    ("minimumOut", .bigint q.minimumOut),
    ("slippageBps", .number q.slippageBps),
    ("slot", .bigint q.slot),
    ("lastValidBlockHeight", .number q.lastValidBlockHeight),
    ("expiresAt", .number q.expiresAt),
    ("intentHash", .string q.intentHash),
    ("quoteHash", .string q.quoteHash),
    ("policyHash", .string q.policyHash)] ++
  optional "route" q.route ++
  optional "request" (q.request.map requestValue) ++
  optional "evidence" (q.evidence.map evidenceValue) ++
  optional "transaction" (q.transaction.map .string) ++
  optional "messageHash" (q.messageHash.map .string)

def StoredQuote.toValue (q : StoredQuote) : JsValue := .object q.fields

/-- All numbers of a quote are finite. -/
def StoredQuote.FiniteNumbers (q : StoredQuote) : Prop :=
  q.slippageBps.isFinite = true ∧ q.lastValidBlockHeight.isFinite = true ∧
    q.expiresAt.isFinite = true

/-- The value of a field of an execution, if it has one. -/
def scalarValue : Scalar → Option JsValue
  | .undefined => none
  | .null => some .null
  | .bool b => some (.bool b)
  | .number n => some (.number n)
  | .bigint i => some (.bigint i)
  | .string s => some (.string s)

/-- An execution as a value. A field that is undefined is as good as none. -/
def executionValue (x : Fields) : JsValue :=
  .object (x.rows.filterMap fun kv => (scalarValue kv.2).map (Prod.mk kv.1.text))

/-- All numbers of an execution are finite. -/
def FiniteFields (x : Fields) : Prop := ∀ k n, x.get k = some (.number n) → n.isFinite = true

/-! ### What records are made of -/

/-- A value that comes back whatever it is a part of. -/
def Plain (v : JsValue) : Prop := Portable v ∧ EveryObject Untagged v

theorem plain_string (s : String) : Plain (.string s) := by simp [Plain, Portable, EveryObject]

theorem plain_bigint (i : Int) : Plain (.bigint i) := by simp [Plain, Portable, EveryObject]

theorem plain_bool (b : Bool) : Plain (.bool b) := by simp [Plain, Portable, EveryObject]

theorem plain_null : Plain .null := by simp [Plain, Portable, EveryObject]

theorem plain_number_iff {n : JsNumber} : Plain (.number n) ↔ n.isFinite = true := by
  simp [Plain, Portable, EveryObject]

theorem plain_array_iff {items : List JsValue} : Plain (.array items) ↔ ∀ v ∈ items, Plain v := by
  simp only [Plain, Portable, EveryObject, portableItems_iff, everyObjectItems_iff]
  exact ⟨fun h v hv => ⟨h.1 v hv, h.2 v hv⟩,
    fun h => ⟨fun v hv => (h v hv).1, fun v hv => (h v hv).2⟩⟩

theorem plain_object_iff {fields : List (String × JsValue)} :
    Plain (.object fields) ↔ Untagged fields ∧ ∀ kv ∈ fields, Plain kv.2 := by
  simp only [Plain, Portable, EveryObject, portableFields_iff, everyObjectFields_iff]
  constructor
  · rintro ⟨hportable, htag, hevery⟩
    exact ⟨htag, fun kv hkv => ⟨hportable kv hkv, hevery kv hkv⟩⟩
  · rintro ⟨htag, h⟩
    exact ⟨fun kv hkv => (h kv hkv).1, htag, fun kv hkv => (h kv hkv).2⟩

/-- A record comes back exactly if its fields are plain. -/
theorem reload_record_iff {J : Stringify} {fields : List (String × JsValue)}
    (h : Untagged fields) :
    reload J (.object fields) = .ok (.object fields) ↔ ∀ kv ∈ fields, Plain kv.2 := by
  rw [reload_object_iff, ← Plain, plain_object_iff, and_iff_right h]

theorem plain_texts (l : List String) : Plain (Signer.texts l) := by
  rw [Signer.texts, plain_array_iff]
  simp [plain_string]

theorem plain_instructionValue (i : InstructionSummary) : Plain (instructionValue i) := by
  have haccounts : Plain (.array (i.accounts.map fun a => (a.map JsValue.string).getD .null)) := by
    rw [plain_array_iff, List.forall_mem_map]
    intro a _
    cases a with
    | none => exact plain_null
    | some key => exact plain_string key
  rw [instructionValue, plain_object_iff]
  refine ⟨by simp [Untagged], ?_⟩
  simp [plain_string, haccounts]

theorem plain_requestValue (r : SimulationRequest) : Plain (requestValue r) := by
  rw [requestValue, plain_object_iff]
  have hinstructions : Plain (.array (r.instructions.map instructionValue)) := by
    rw [plain_array_iff, List.forall_mem_map]
    exact fun i _ => plain_instructionValue i
  have hheight : Plain (.number (.ofInt r.lastValidBlockHeight)) := by
    rw [plain_number_iff]
    rfl
  refine ⟨by simp [Untagged], ?_⟩
  simp [plain_string, plain_texts, hinstructions, hheight]

theorem plain_evidenceValue (e : SimulationEvidence) : Plain (evidenceValue e) := by
  rw [evidenceValue, evidenceBody, plain_object_iff]
  -- none of the objects in it has the key of a tag
  have hstates : Plain (.array (e.accountStates.map fun a => .object [
      ("address", .string a.address), ("lamports", .bigint a.lamports),
      ("owner", .string a.owner), ("data", (a.data.map JsValue.string).getD .null)])) := by
    rw [plain_array_iff, List.forall_mem_map]
    intro a _
    rw [plain_object_iff]
    refine ⟨by simp [Untagged], ?_⟩
    cases h : a.data <;> simp [plain_string, plain_bigint, plain_null]
  have hdeltas : Plain (.array (e.assetDeltas.map fun d => .object [
      ("asset", .string d.asset), ("owner", .string d.owner), ("amount", .bigint d.amount)])) := by
    rw [plain_array_iff, List.forall_mem_map]
    intro d _
    rw [plain_object_iff]
    exact ⟨by simp [Untagged], by simp [plain_string, plain_bigint]⟩
  have hcapabilities : Plain (.object [
      ("balances", .bool e.capabilities.balances), ("logs", .bool e.capabilities.logs),
      ("fee", .bool e.capabilities.fee),
      ("addressTableLookups", .bool e.capabilities.addressTableLookups)]) := by
    rw [plain_object_iff]
    exact ⟨by simp [Untagged], by simp [plain_bool]⟩
  refine ⟨by simp [Untagged], ?_⟩
  simp [plain_string, plain_bigint, plain_texts, hstates, hdeltas, hcapabilities]

theorem forall_mem_optional {P : String × JsValue → Prop} {key : String} {v : Option JsValue} :
    (∀ kv ∈ optional key v, P kv) ↔ ∀ w ∈ v, P (key, w) := by
  cases v <;> simp [optional]

theorem untagged_quote (q : StoredQuote) : Untagged q.fields := by
  simp only [Untagged, StoredQuote.fields, List.forall_mem_append, forall_mem_optional]
  simp

theorem plain_quote_iff {q : StoredQuote} : (∀ kv ∈ q.fields, Plain kv.2) ↔
    q.FiniteNumbers ∧ ∀ route ∈ q.route, Plain route := by
  simp only [StoredQuote.fields, List.forall_mem_append, forall_mem_optional,
    StoredQuote.FiniteNumbers]
  simp [plain_string, plain_bigint, plain_number_iff, plain_requestValue, plain_evidenceValue,
    and_assoc]

theorem executionKey_ne_tag (k : ExecutionKey) : k.text ≠ "$bigint" := by
  cases k <;> simp [ExecutionKey.text]

theorem untagged_execution (x : Fields) :
    Untagged (x.rows.filterMap fun kv => (scalarValue kv.2).map (Prod.mk kv.1.text)) := by
  intro kv hkv
  obtain ⟨row, -, hrow⟩ := List.mem_filterMap.mp hkv
  obtain ⟨v, -, rfl⟩ := Option.map_eq_some_iff.mp hrow
  exact executionKey_ne_tag row.1

theorem plain_scalarValue_iff {v : Scalar} :
    (∀ w ∈ scalarValue v, Plain w) ↔ ∀ n, v = .number n → n.isFinite = true := by
  cases v <;>
    simp [scalarValue, plain_null, plain_bool, plain_bigint, plain_string, plain_number_iff]

theorem plain_execution_iff {x : Fields} :
    (∀ kv ∈ x.rows.filterMap fun kv => (scalarValue kv.2).map (Prod.mk kv.1.text), Plain kv.2) ↔
      FiniteFields x := by
  constructor
  · intro h k n hk
    rw [Record.get_eq_some_iff] at hk
    have hplain := h (k.text, .number n) (List.mem_filterMap.mpr ⟨(k, .number n), hk, rfl⟩)
    exact plain_number_iff.mp hplain
  · intro h kv hkv
    obtain ⟨row, hmem, hrow⟩ := List.mem_filterMap.mp hkv
    obtain ⟨w, hw, rfl⟩ := Option.map_eq_some_iff.mp hrow
    refine plain_scalarValue_iff.mpr (fun n hn => ?_) w hw
    exact h row.1 n (Record.get_eq_some_iff.mpr (hn ▸ hmem))

/-! ### The round trip -/

/-- A quote comes back as it was exactly if its numbers are finite and its route is built from JSON
values and `bigint`s without an object that has the key `$bigint`. An execution comes back exactly
if its numbers are finite. -/
theorem reload_iff (J : Stringify) :
    (∀ q : StoredQuote, reload J q.toValue = .ok q.toValue ↔ q.FiniteNumbers ∧
      ∀ route ∈ q.route, Portable route ∧ EveryObject Untagged route) ∧
    ∀ x : Fields, reload J (executionValue x) = .ok (executionValue x) ↔ FiniteFields x := by
  constructor
  · intro q
    rw [StoredQuote.toValue, reload_record_iff (untagged_quote q), plain_quote_iff]
    rfl
  · intro x
    rw [executionValue, reload_record_iff (untagged_execution x), plain_execution_iff]

/-- A quote of one lamport, along a route. -/
def quoteAlong (route : JsValue) : StoredQuote where
  id := "q1"
  side := .buy
  cluster := "devnet"
  inputMint := "So11111111111111111111111111111111111111112"
  outputMint := "EPjFWdd5AufqSSqeM2qN1xzybapC8G4wEGGkZwyTDt1v"
  amountIn := 1
  amountOut := 1
  minimumOut := 1
  slippageBps := .ofInt 0
  slot := 1
  lastValidBlockHeight := .ofInt 1
  expiresAt := .ofInt 1
  intentHash := "intent"
  quoteHash := "quote"
  policyHash := "policy"
  route := some route
  request := none
  evidence := none
  transaction := none
  messageHash := none

/-- A route with a text under `$bigint` that is not one makes its row unreadable; beside another
field, a text that is one replaces the whole object. -/
theorem reload_collision :
    ¬ (∀ (J : Stringify) (q : StoredQuote), q.FiniteNumbers →
      (∀ route ∈ q.route, Portable route) → ∃ v, reload J q.toValue = .ok v) ∧
    reload stringify (.object [("$bigint", .string "5"), ("pool", .string "a")]) =
      .ok (.bigint 5) := by
  refine ⟨fun h => ?_, rfl⟩
  obtain ⟨v, hv⟩ := h stringify (quoteAlong (.object [("$bigint", .string "x")]))
    ⟨rfl, rfl, rfl⟩ (by simp [quoteAlong, Portable, PortableFields])
  have hx : reload stringify (quoteAlong (.object [("$bigint", .string "x")])).toValue =
    .error "Cannot convert the value to a BigInt" := rfl
  rw [hx] at hv
  cases hv

end AriOs.LiveTrading.Persistence
