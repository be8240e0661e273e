import AriOs.Js.Json
import AriOs.Js.Throw
import AriOs.Storage.Blocks

/-!
# Compiling a context

The messages of a conversation are cut into units: an assistant message that asks for tools with
the results of its calls, a question with its answer, or a single message. Units without a message
that has to stay are removed, the oldest first, until the rest fits into the budget. In the place of
what is removed a summary may be put, built from the answer of a summarizer that is not trusted.
Estimates are whole, but they have no limit: totals are rounded as the code's numbers are.

## Main results

* `buildUnits_ok_iff` — units can be built exactly if every request is followed by its results
-/

namespace AriOs.Cognition.Context

open AriOs.Js AriOs.Storage

inductive ContextRole where
  | system | user | assistant | tool
  deriving DecidableEq

/-- `FinancialMessageKind`, and the kind of a summary. -/
inductive MessageKind where
  | approval | policy | simulation | transaction | receipt | handoffSummary
  deriving DecidableEq

def ContextRole.text : ContextRole → String
  | .system => "system"
  | .user => "user"
  | .assistant => "assistant"
  | .tool => "tool"

def MessageKind.text : MessageKind → String
  | .approval => "approval"
  | .policy => "policy"
  | .simulation => "simulation"
  | .transaction => "transaction"
  | .receipt => "receipt"
  | .handoffSummary => "handoff-summary"

structure ContextToolCall where
  id : String
  name : String
  arguments : JsValue

/-- A message. A message is cloned before anything else, which throws if the arguments of a call
hold a function: what is left for `other` in them is a reference back. -/
structure ContextMessage where
  id : String
  role : ContextRole
  content : String
  name : Option String := none
  toolCallId : Option String := none
  toolCalls : Option (List ContextToolCall) := none
  kind : Option MessageKind := none
  evidenceRef : Option String := none

structure SummaryReference where
  messageId : String
  description : String
  evidenceRef : Option String := none

structure HandoffSummary where
  overview : String
  references : List SummaryReference

/-- The options. An estimator that throws gives `none`. What the summarizer is told has no bearing
on what it may answer, so the options that only go into that are left out. -/
structure CompileOptions where
  maxTokens : JsNumber
  headMessages : Option JsNumber := none
  tailMessages : Option JsNumber := none
  estimateTokens : Option (ContextMessage → Option JsNumber) := none
  summarizer : Bool := false

structure ContextDiagnostics where
  initialTokens : JsNumber
  finalTokens : JsNumber
  prunedMessageIds : List String
  protectedMessageIds : List String
  evidenceReferences : List String
  overBudget : Bool
  summarized : Bool

structure CompiledContext where
  messages : List ContextMessage
  summary : Option HandoffSummary
  diagnostics : ContextDiagnostics

/-- What is used of the host: how it writes JSON, and `String(v)`, which may throw. -/
structure Host where
  json : Stringify
  string : JsValue → Option String

/-! ### Estimates -/

mutual

/-- The JSON value that `JSON.stringify` writes, if it writes one; throws at a `bigint` and at a
reference back. -/
def stringified : JsValue → Except String (Option Json)
  | .undefined => .ok none
  | .bigint _ | .other => .error "TypeError"
  | .null => .ok (some .null)
  | .bool b => .ok (some (.bool b))
  | .number (.finite q) => .ok (some (.number q))
  | .number _ => .ok (some .null)
  | .string s => .ok (some (.string s))
  | .array items => do .ok (some (.array (← stringifiedItems items)))
  | .object fields => do .ok (some (.object (← stringifiedFields fields)))

def stringifiedItems : List JsValue → Except String (List Json)
  | [] => .ok []
  | v :: vs => do
    let x ← stringified v
    let xs ← stringifiedItems vs
    .ok (x.getD .null :: xs)

def stringifiedFields : List (String × JsValue) → Except String (List (String × Json))
  | [] => .ok []
  | (k, v) :: fields => do
    let x ← stringified v
    let fs ← stringifiedFields fields
    .ok ((x.map fun x => (k, x)).toList ++ fs)

end

/-- A field whose value may be left out. -/
def optionalField (key : String) (v : Option String) : List (String × JsValue) :=
  (v.map fun v => (key, JsValue.string v)).toList

def ContextToolCall.value (c : ContextToolCall) : JsValue :=
  .object [("id", .string c.id), ("name", .string c.name), ("arguments", c.arguments)]

/-- What an estimate without an estimator measures of a message. -/
def ContextMessage.value (m : ContextMessage) : JsValue :=
  .object ([("role", .string m.role.text), ("id", .string m.id), ("content", .string m.content)] ++
    optionalField "name" m.name ++ optionalField "toolCallId" m.toolCallId ++
    (m.toolCalls.map fun calls =>
      ("toolCalls", JsValue.array (calls.map ContextToolCall.value))).toList ++
    optionalField "kind" (m.kind.map MessageKind.text) ++
    optionalField "evidenceRef" m.evidenceRef)

def defaultEstimate (host : Host) (m : ContextMessage) : Option JsNumber :=
  match stringified m.value with
  | .ok (some x) => some (.ofInt (((textLength (x.text host.json) + 3) / 4 + 8 : Nat) : Int))
  | _ => none

def validatedEstimate (fn : ContextMessage → Option JsNumber) (m : ContextMessage) :
    Except String Int := do
  let n ← orThrow (fn m) "estimateTokens threw"
  let i ← orThrow n.toBigInt? "estimateTokens must return a finite non-negative integer"
  throwIf (i < 0) "estimateTokens must return a finite non-negative integer"
  .ok i

def baseEstimate (host : Host) (options : CompileOptions) : ContextMessage → Option JsNumber :=
  options.estimateTokens.getD (defaultEstimate host)

/-! ### Units -/

/-- `current.role === "assistant" && current.toolCalls?.length`. -/
def ContextMessage.asks (m : ContextMessage) : Bool :=
  m.role = .assistant && !(m.toolCalls.getD []).isEmpty

def ContextMessage.callIds (m : ContextMessage) : List String :=
  (m.toolCalls.getD []).map ContextToolCall.id

/-- The message is the result of the call with this id. -/
def ContextMessage.answers (m : ContextMessage) (callId : String) : Bool :=
  m.role = .tool && m.toolCallId = some callId

/-- The messages begin with the results of the calls, in their order. -/
def answered : List String → List ContextMessage → Bool
  | [], _ => true
  | _ :: _, [] => false
  | callId :: callIds, result :: rest => result.answers callId && answered callIds rest

/-- The loop of `buildUnits` at index `i`, over the messages from there on. What a unit takes with
it is skipped. -/
def unitsFrom : Nat → Nat → List ContextMessage → Except String (List (List Nat))
  | _, _, [] => .ok []
  | i, skip + 1, _ :: rest => unitsFrom (i + 1) skip rest
  | i, 0, current :: rest =>
    if current.role = .tool then .error "Invalid tool exchange: orphan or delayed result"
    else if current.asks then do
      let callIds := current.callIds
      throwIf ("" ∈ callIds ∨ ¬ callIds.Nodup)
        "Invalid tool exchange: duplicate or empty call id"
      throwIf (answered callIds rest = false)
        "Invalid tool exchange: missing, delayed, or reordered result"
      throwIf (rest[callIds.length]?.any fun after => after.role = .tool)
        "Invalid tool exchange: duplicate or orphan result"
      let units ← unitsFrom (i + 1) callIds.length rest
      .ok (List.range' i (callIds.length + 1) :: units)
    else if current.role = .user &&
        rest.head?.any fun next => next.role = .assistant && !next.asks then do
      let units ← unitsFrom (i + 1) 1 rest
      .ok (List.range' i 2 :: units)
    else do
      let units ← unitsFrom (i + 1) 0 rest
      .ok (List.range' i 1 :: units)

def buildUnits (messages : List ContextMessage) : Except String (List (List Nat)) :=
  unitsFrom 0 0 messages

/-- The check of the ids, and the units. -/
def accept (messages : List ContextMessage) : Except String (List (List Nat)) := do
  throwIf ("" ∈ messages.map ContextMessage.id ∨ ¬ (messages.map ContextMessage.id).Nodup)
    "Message id must be non-empty and unique"
  buildUnits messages

/-! ### Pruning -/

/-- The characters of an evidence reference after its scheme. -/
def isEvidenceChar (c : Char) : Bool :=
  c.isAlphanum || c ∈ "._~!$&'()*+,;=:@%/-".toList

def safeEvidenceRef (ref : Option String) : Bool :=
  ref.any fun ref => "evidence://".toList.isPrefixOf ref.toList &&
    !(ref.toList.drop 11).isEmpty && (ref.toList.drop 11).all isEvidenceChar &&
    textLength ref ≤ 512

/-- `financialKinds.has(m.kind)`. -/
def ContextMessage.financial (m : ContextMessage) : Bool :=
  m.kind.any fun kind => kind ∈ [.approval, .policy, .simulation, .transaction, .receipt]

/-- A tool result with an evidence reference that is not safe. -/
def ContextMessage.unsafeEvidence (m : ContextMessage) : Bool :=
  m.role = .tool && m.evidenceRef.any (fun ref => ref ≠ "") && !safeEvidenceRef m.evidenceRef

/-- `Math.max(0, Math.floor(n))`. -/
def messageCount (n : JsNumber) : JsNumber := JsNumber.max (.ofInt 0) n.floor

def CompileOptions.head (options : CompileOptions) : JsNumber :=
  messageCount (options.headMessages.getD (.ofInt 1))

def CompileOptions.tail (options : CompileOptions) : JsNumber :=
  messageCount (options.tailMessages.getD (.ofInt 4))

/-- The messages have one at the index that the test holds of. -/
def hasAt (messages : List ContextMessage) (test : ContextMessage → Bool) (i : Nat) : Bool :=
  messages[i]?.any test

def protectedUnit (options : CompileOptions) (messages : List ContextMessage) (unit : List Nat) :
    Bool :=
  unit.any fun i =>
    (JsNumber.ofInt i).lt options.head ||
      (options.head.max ((JsNumber.ofInt messages.length).sub options.tail)).le (.ofInt i) ||
      hasAt messages ContextMessage.financial i || hasAt messages ContextMessage.unsafeEvidence i

def protectedIndexes (options : CompileOptions) (messages : List ContextMessage)
    (units : List (List Nat)) : List Nat :=
  (units.filter (protectedUnit options messages)).flatten

/-- `tokens + n`. -/
def addTokens (tokens : JsNumber) (n : Int) : JsNumber := (tokens.add (.ofInt n)).rounded

/-- `estimates.reduce((a, b) => a + b, 0)`. -/
def totalTokens (estimates : List Int) : JsNumber := estimates.foldl addTokens (.ofInt 0)

/-- The tokens less the estimates of the messages at the given indexes, one after the other. -/
def lessUnit (estimates : List Int) (tokens : JsNumber) (unit : List Nat) : JsNumber :=
  unit.foldl (fun tokens i => (tokens.sub (.ofInt (estimates[i]?.getD 0))).rounded) tokens

/-- The loop over the units: what is left of the tokens, and the indexes removed. -/
def prune (maxTokens : Int) (estimates : List Int) (protectedSet : List Nat) (tokens : JsNumber)
    (removed : List Nat) : List (List Nat) → JsNumber × List Nat
  | [] => (tokens, removed)
  | unit :: units =>
    if tokens.le (.ofInt maxTokens) then (tokens, removed)
    else if unit.any (· ∈ protectedSet) then
      prune maxTokens estimates protectedSet tokens removed units
    else
      prune maxTokens estimates protectedSet (lessUnit estimates tokens unit) (removed ++ unit)
        units

/-! ### The summary -/

def TRUSTED_OVERVIEW : String :=
  "Pruned context is available only through the listed message and evidence references."

def requiredReferences (pruned : List ContextMessage) : List SummaryReference :=
  (pruned.filter fun m => m.role = .tool && safeEvidenceRef m.evidenceRef).map fun m =>
    { messageId := m.id, description := "Evidence reference", evidenceRef := m.evidenceRef }

/-- The references of the answer that name a pruned message, each once and none twice over. -/
def optionalReferences (host : Host) (allowed : List String) :
    List String → List JsValue → Except String (List SummaryReference)
  | _, [] => .ok []
  | used, .object fields :: items => do
    let messageId := (JsValue.object fields).field "messageId"
    let id ← match messageId with
      | .undefined | .null => .ok ""
      | v => orThrow (host.string v) "TypeError"
    if id ∈ allowed ∧ id ∉ used then do
      let refs ← optionalReferences host allowed (id :: used) items
      .ok ({ messageId := id, description := "Archived message reference" } :: refs)
    else optionalReferences host allowed used items
  | used, _ :: items => optionalReferences host allowed used items

/-- The summary that is made of the answer, if one is made. -/
def handoffSummary (host : Host) (pruned : List ContextMessage) (raw : JsValue) :
    Except String (Option HandoffSummary) :=
  match raw, raw.field "references" with
  | .object _, .array items => do
    let required := requiredReferences pruned
    let optional ← optionalReferences host (pruned.map ContextMessage.id)
      (required.map SummaryReference.messageId) items
    .ok (some { overview := TRUSTED_OVERVIEW, references := required ++ optional })
  | _, _ => .ok none

def SummaryReference.json (r : SummaryReference) : Json :=
  .object ([("messageId", .string r.messageId), ("description", .string r.description)] ++
    (r.evidenceRef.map fun ref => ("evidenceRef", Json.string ref)).toList)

def HandoffSummary.json (s : HandoffSummary) : Json :=
  .object [("version", .number 1), ("overview", .string s.overview),
    ("references", .array (s.references.map SummaryReference.json))]

def HANDOFF_ID : String := "context-handoff-summary"

def summaryMessage (host : Host) (s : HandoffSummary) : ContextMessage where
  id := HANDOFF_ID
  role := .system
  kind := some .handoffSummary
  content := "TRUSTED_CONTEXT_REFERENCE_V1\n" ++ s.json.text host.json

/-- Where `splice` starts. -/
def spliceStart (start : JsNumber) (length : Nat) : Nat :=
  match start with
  | .finite q => min q.floor.toNat length
  | .infinity false => length
  | _ => 0

/-- `compiled.splice(Math.min(head, compiled.length), 0, m)`. -/
def insertAtHead (head : JsNumber) (m : ContextMessage) (compiled : List ContextMessage) :
    List ContextMessage :=
  let start := spliceStart (head.min (.ofInt compiled.length)) compiled.length
  compiled.take start ++ m :: compiled.drop start

/-- What is left when units have been removed. -/
structure Pruned where
  removed : List Nat
  tokens : JsNumber
  pruned : List ContextMessage
  compiled : List ContextMessage

def pruneMessages (options : CompileOptions) (maxTokens : Int) (messages : List ContextMessage)
    (units : List (List Nat)) (estimates : List Int) : Pruned :=
  let (tokens, removed) := prune maxTokens estimates (protectedIndexes options messages units)
    (totalTokens estimates) [] units
  { removed, tokens,
    pruned := Blocks.keepAt (fun i => decide (i ∈ removed)) messages,
    compiled := Blocks.keepAt (fun i => decide (i ∉ removed)) messages }

/-- The summary that is put in, if one is. -/
def placedSummary (host : Host) (options : CompileOptions) (maxTokens : Int) (p : Pruned)
    (raw : JsValue) : Except String (Option HandoffSummary) := do
  if options.summarizer ∧ p.pruned ≠ [] then do
    match ← handoffSummary host p.pruned raw with
    | none => .ok none
    | some s =>
      let summaryTokens ← validatedEstimate (baseEstimate host options) (summaryMessage host s)
      .ok (if (addTokens p.tokens summaryTokens).le (.ofInt maxTokens) then some s else none)
  else .ok none

def withSummary (host : Host) (options : CompileOptions) (p : Pruned) :
    Option HandoffSummary → List ContextMessage
  | none => p.compiled
  | some s => insertAtHead options.head (summaryMessage host s) p.compiled

def evidenceReferences (p : Pruned) : List String :=
  ((requiredReferences p.pruned).filterMap SummaryReference.evidenceRef ++
    (p.compiled.filter fun m => safeEvidenceRef m.evidenceRef).filterMap
      ContextMessage.evidenceRef).eraseDups

def checkBudget (options : CompileOptions) : Except String Int := do
  let maxTokens ← orThrow options.maxTokens.toBigInt? "maxTokens must be a non-negative integer"
  throwIf (maxTokens < 0) "maxTokens must be a non-negative integer"
  .ok maxTokens

/-- The compiler. `raw` is what comes of asking the summarizer: `undefined` if it fails or takes too
long. Only the references of an answer are looked at, so an answer that refers back to itself stands
for one in which they are written out. -/
def compileContext (host : Host) (messages : List ContextMessage) (options : CompileOptions)
    (raw : JsValue) : Except String CompiledContext := do
  let maxTokens ← checkBudget options
  let allUnits ← accept messages
  let estimates ← messages.mapM (validatedEstimate (baseEstimate host options))
  let p := pruneMessages options maxTokens messages allUnits estimates
  let summary ← placedSummary host options maxTokens p raw
  let compiled := withSummary host options p summary
  let finalEstimates ← compiled.mapM (validatedEstimate (baseEstimate host options))
  .ok { messages := compiled, summary,
        diagnostics := {
          initialTokens := totalTokens estimates
          finalTokens := totalTokens finalEstimates
          prunedMessageIds := p.pruned.map ContextMessage.id
          protectedMessageIds :=
            (Blocks.keepAt (fun i => decide (i ∈ protectedIndexes options messages allUnits))
              messages).map ContextMessage.id
          evidenceReferences := evidenceReferences p
          overBudget := (JsNumber.ofInt maxTokens).lt (totalTokens finalEstimates)
          summarized := summary.isSome } }

/-! ### Well-formed messages -/

/-- Every request for tools is followed by the results of its calls, in their order, and there are
no other results. -/
inductive Exchanges : List ContextMessage → Prop
  | nil : Exchanges []
  | plain {m : ContextMessage} {rest : List ContextMessage} : m.role ≠ .tool → m.asks = false →
      Exchanges rest → Exchanges (m :: rest)
  | exchange {m : ContextMessage} {results rest : List ContextMessage} : m.asks = true →
      "" ∉ m.callIds → m.callIds.Nodup →
      List.Forall₂ (fun callId result => result.answers callId = true) m.callIds results →
      Exchanges rest → Exchanges (m :: (results ++ rest))

/-- Messages have ids of their own, and every request for tools is followed by its results. -/
structure WellFormed (messages : List ContextMessage) : Prop where
  ids : "" ∉ messages.map ContextMessage.id
  unique : (messages.map ContextMessage.id).Nodup
  exchanges : Exchanges messages

section Units

variable {m : ContextMessage} {l l' messages rest : List ContextMessage} {units : List (List Nat)}
  {i skip : Nat}

theorem answered_iff {callIds : List String} : answered callIds rest = true ↔
    ∃ results rest', rest = results ++ rest' ∧
      List.Forall₂ (fun callId result => result.answers callId = true) callIds results := by
  induction callIds generalizing rest with
  -- each call takes one result, in their order
  | nil => exact ⟨fun _ => ⟨[], rest, rfl, .nil⟩, fun _ => rfl⟩
  | cons callId callIds ih =>
    cases rest with
    | nil =>
      constructor
      · intro h
        cases h
      · rintro ⟨results, rest', hrest, hresults⟩
        obtain ⟨rfl, -⟩ := List.append_eq_nil_iff.mp hrest.symm
        cases hresults
    | cons result rest =>
      rw [answered, Bool.and_eq_true, ih]
      constructor
      · rintro ⟨hresult, results, rest', rfl, hresults⟩
        exact ⟨result :: results, rest', rfl, hresults.cons hresult⟩
      · rintro ⟨results, rest', hrest, hresults⟩
        cases hresults with
        | cons hresult hresults =>
          obtain ⟨rfl, rfl⟩ := List.cons_eq_cons.mp hrest
          exact ⟨hresult, _, rest', rfl, hresults⟩

theorem role_of_asks (h : m.asks = true) : m.role = .assistant := by
  simpa using (Bool.and_eq_true_iff.mp h).1

theorem role_of_answers {callId : String} (h : m.answers callId = true) : m.role = .tool := by
  simpa using (Bool.and_eq_true_iff.mp h).1

theorem Exchanges.append (hl : Exchanges l) (hl' : Exchanges l') : Exchanges (l ++ l') := by
  induction hl with
  | nil => exact hl'
  | plain hrole hasks _ ih => exact .plain hrole hasks ih
  | exchange hasks hne hnodup hresults _ ih =>
    rw [List.cons_append, List.append_assoc]
    exact .exchange hasks hne hnodup hresults ih

theorem Exchanges.flatten {blocks : List (List ContextMessage)}
    (h : ∀ b ∈ blocks, Exchanges b) : Exchanges blocks.flatten := by
  induction blocks with
  | nil => exact .nil
  | cons b blocks ih =>
    obtain ⟨hb, hblocks⟩ := List.forall_mem_cons.mp h
    exact hb.append (ih hblocks)

/-- No result stands at the beginning. -/
theorem Exchanges.role_head (h : Exchanges l) (hm : l.head? = some m) : m.role ≠ .tool := by
  cases h with
  | nil => cases hm
  | plain hrole =>
    obtain rfl := Option.some.inj hm
    exact hrole
  | exchange hasks =>
    obtain rfl := Option.some.inj hm
    rw [role_of_asks hasks]
    decide

theorem role_of_mem_results {callIds : List String} {results : List ContextMessage}
    (h : List.Forall₂ (fun callId result => result.answers callId = true) callIds results)
    (hm : m ∈ results) : m.role = .tool := by
  induction h with
  | nil => cases hm
  | cons hresult _ ih =>
    rcases List.mem_cons.mp hm with rfl | hm
    · exact role_of_answers hresult
    · exact ih hm

/-- In front of a message that is no result, messages may be cut. -/
theorem Exchanges.split (h : Exchanges messages) (hl : messages = l ++ l')
    (hhead : ∀ m ∈ l'.head?, m.role ≠ .tool) : Exchanges l ∧ Exchanges l' := by
  induction h generalizing l with
  | nil =>
    obtain ⟨rfl, rfl⟩ := List.append_eq_nil_iff.mp hl.symm
    exact ⟨.nil, .nil⟩
  | @plain m rest hrole hasks hrest ih =>
    cases l with
    | nil =>
      rw [List.nil_append] at hl
      exact ⟨.nil, hl ▸ .plain hrole hasks hrest⟩
    | cons _ l =>
      obtain ⟨rfl, hl'⟩ := List.cons_eq_cons.mp hl
      obtain ⟨hbefore, hafter⟩ := ih hl'
      exact ⟨.plain hrole hasks hbefore, hafter⟩
  | @exchange m results rest hasks hne hnodup hresults hrest ih =>
    cases l with
    | nil =>
      rw [List.nil_append] at hl
      exact ⟨.nil, hl ▸ .exchange hasks hne hnodup hresults hrest⟩
    | cons _ l =>
      obtain ⟨rfl, hl'⟩ := List.cons_eq_cons.mp hl
      rcases List.append_eq_append_iff.mp hl' with ⟨c, rfl, hc⟩ | ⟨c, rfl, rfl⟩
      · -- the cut is behind the results
        obtain ⟨hbefore, hafter⟩ := ih hc
        exact ⟨.exchange hasks hne hnodup hresults hbefore, hafter⟩
      · cases c with
        | nil =>
          rw [List.append_nil] at hresults
          have hbefore := Exchanges.exchange hasks hne hnodup hresults .nil
          rw [List.append_nil] at hbefore
          exact ⟨hbefore, hrest⟩
        | cons result c =>
          -- the cut is in front of a result
          have hmem : result ∈ l ++ result :: c :=
            List.mem_append_right _ List.mem_cons_self
          exact absurd (role_of_mem_results hresults hmem) (hhead result rfl)

/-- A message that neither asks nor answers may stand exactly where messages may be cut. -/
theorem Exchanges.insert_iff (h : Exchanges (l ++ l')) (hrole : m.role ≠ .tool)
    (hasks : m.asks = false) :
    Exchanges (l ++ m :: l') ↔ ∀ next ∈ l'.head?, next.role ≠ .tool := by
  constructor
  · intro hinserted next hnext
    have hcut := (hinserted.split rfl (l := l) fun m' hm' => by
      obtain rfl := Option.some.inj hm'
      exact hrole).2
    cases hcut with
    | plain _ _ hrest => exact hrest.role_head hnext
    | exchange hasks' => exact absurd (hasks.symm.trans hasks') (by decide)
  · intro hhead
    have hcut := h.split rfl hhead
    exact hcut.1.append (.plain hrole hasks hcut.2)

/-! ### The units of well-formed messages -/

/-- A unit: consecutive indexes, at which every request is followed by its results. -/
structure IsUnit (messages : List ContextMessage) (unit : List Nat) : Prop where
  consecutive : ∃ first more, unit = List.range' first (more + 1)
  exchanges : Exchanges (Blocks.pick messages unit)

theorem unitsFrom_skip :
    unitsFrom i skip messages = unitsFrom (i + skip) 0 (messages.drop skip) := by
  induction skip generalizing i messages with
  | zero => rfl
  | succ skip ih =>
    cases messages with
    | nil => simp only [unitsFrom, List.drop_nil]
    | cons m rest =>
      rw [unitsFrom, ih, List.drop_succ_cons]
      congr 1
      omega

/-- What the units from index `i` on say about the messages there. -/
structure UnitsAt (messages : List ContextMessage) (i : Nat) (l : List ContextMessage)
    (units : List (List Nat)) : Prop where
  exchanges : Exchanges l
  cover : units.flatten = List.range' i l.length
  isUnit : ∀ unit ∈ units, IsUnit messages unit

/-- A unit in front of the others. -/
theorem UnitsAt.cons {block : List ContextMessage} {more : Nat}
    (hl : messages.drop i = block ++ rest) (hlength : block.length = more + 1)
    (hblock : Exchanges block) (h : UnitsAt messages (i + (more + 1)) rest units) :
    UnitsAt messages i (block ++ rest) (List.range' i (more + 1) :: units) where
  exchanges := hblock.append h.exchanges
  cover := by
    rw [List.flatten_cons, h.cover, List.length_append, hlength, List.range'_append_1]
  isUnit := by
    refine List.forall_mem_cons.mpr ⟨⟨⟨i, more, rfl⟩, ?_⟩, h.isUnit⟩
    rwa [Blocks.pick_range', hl, ← hlength, List.take_left]

theorem Exchanges.single (hrole : m.role ≠ .tool) (hasks : m.asks = false) : Exchanges [m] :=
  .plain hrole hasks .nil

/-- The units that are built cover the messages one after the other. -/
theorem unitsFrom_spec (hl : messages.drop i = l) (h : unitsFrom i 0 l = .ok units) :
    UnitsAt messages i l units := by
  -- a unit takes its other messages with it, so the induction is on how many are left
  induction hn : l.length using Nat.strong_induction_on generalizing i l units with
  | h n ih =>
    subst hn
    cases l with
    | nil =>
      obtain rfl := Except.ok.inj h
      exact ⟨.nil, rfl, by simp⟩
    | cons m rest =>
      -- the first unit and the units of the rest
      have hnext : ∀ {k : Nat} {block rest' : List ContextMessage} {units' : List (List Nat)},
          m :: rest = block ++ rest' → block.length = k + 1 → Exchanges block →
          unitsFrom (i + 1) k rest = .ok units' →
          UnitsAt messages i (m :: rest) (List.range' i (k + 1) :: units') := by
        intro k block rest' units' hcons hlength hblock hunits
        have hdrop : rest.drop k = rest' := by
          have h := congrArg (List.drop (k + 1)) hcons
          rwa [List.drop_succ_cons, ← hlength, List.drop_left] at h
        rw [unitsFrom_skip, hdrop, Nat.add_assoc, Nat.add_comm 1 k] at hunits
        rw [hcons] at hl ⊢
        have hlater : messages.drop (i + (k + 1)) = rest' := by
          rw [← List.drop_drop, hl, ← hlength, List.drop_left]
        refine .cons hl hlength hblock (ih rest'.length ?_ hlater hunits rfl)
        rw [hcons, List.length_append]
        omega
      rw [unitsFrom] at h
      by_cases hrole : m.role = .tool
      · rw [if_pos hrole] at h
        cases h
      · rw [if_neg hrole] at h
        -- a message that asks takes its results with it, others may take the next message
        by_cases hasks : m.asks = true
        · rw [if_pos hasks] at h
          simp only [bind_eq_ok, throwIf_eq_ok, not_or, not_not] at h
          obtain ⟨-, ⟨hne, hnodup⟩, -, hanswered, -, -, units', hunits, hcons⟩ := h
          obtain rfl := Except.ok.inj hcons
          obtain ⟨results, rest', rfl, hresults⟩ :=
            answered_iff.mp (Bool.not_eq_false _ ▸ hanswered)
          have hblock := Exchanges.exchange hasks hne hnodup hresults .nil
          rw [List.append_nil] at hblock
          refine @hnext _ (m :: results) rest' _ rfl ?_ hblock hunits
          rw [List.length_cons, hresults.length_eq]
        · rw [if_neg hasks] at h
          have hplain : m.asks = false := Bool.not_eq_true _ ▸ hasks
          split at h
          · rename_i hpair
            simp only [bind_eq_ok] at h
            obtain ⟨units', hunits, hcons⟩ := h
            obtain rfl := Except.ok.inj hcons
            cases rest with
            | nil => simp at hpair
            | cons next rest =>
              simp only [List.head?_cons, Option.any_some, Bool.and_eq_true, Bool.not_eq_true',
                decide_eq_true_eq] at hpair
              obtain ⟨-, hassistant, hnextAsks⟩ := hpair
              have hnextRole : next.role ≠ .tool := by
                rw [hassistant]
                decide
              exact @hnext _ [m, next] _ _ rfl rfl
                (.plain hrole hplain (.single hnextRole hnextAsks)) hunits
          · simp only [bind_eq_ok] at h
            obtain ⟨units', hunits, hcons⟩ := h
            obtain rfl := Except.ok.inj hcons
            exact @hnext _ [m] _ _ rfl rfl (.single hrole hplain) hunits

/-- Where every request is followed by its results, units can be built. -/
theorem Exchanges.exists_unitsFrom (h : Exchanges l) : ∃ units, unitsFrom i 0 l = .ok units := by
  -- a unit takes its other messages with it, so the induction is on how many are left
  induction hn : l.length using Nat.strong_induction_on generalizing i l with
  | h n ih =>
    subst hn
    cases h with
    | nil => exact ⟨[], rfl⟩
    | @plain m rest hrole hasks hrest =>
      rw [unitsFrom, if_neg hrole, if_neg (by simp [hasks])]
      split
      · -- the next message comes into the unit
        rename_i hpair
        cases rest with
        | nil => simp at hpair
        | cons next rest =>
          simp only [List.head?_cons, Option.any_some, Bool.and_eq_true, Bool.not_eq_true',
            decide_eq_true_eq] at hpair
          have hlater : Exchanges rest := by
            cases hrest with
            | plain _ _ hlater => exact hlater
            | exchange hnextAsks => exact absurd (hpair.2.2.symm.trans hnextAsks) (by decide)
          have hshorter : rest.length < (m :: next :: rest).length := by
            simp only [List.length_cons]
            omega
          obtain ⟨units, hunits⟩ := ih rest.length hshorter hlater rfl
          rw [unitsFrom_skip, List.drop_succ_cons, List.drop_zero, hunits]
          exact ⟨_, rfl⟩
      · obtain ⟨units, hunits⟩ := ih rest.length (by simp) hrest rfl
        rw [hunits]
        exact ⟨_, rfl⟩
    | @exchange m results rest hasks hne hnodup hresults hrest =>
      have hrole : m.role ≠ .tool := by
        rw [role_of_asks hasks]
        decide
      have hlength : m.callIds.length = results.length := hresults.length_eq
      have hshorter : rest.length < (m :: (results ++ rest)).length := by
        simp only [List.length_cons, List.length_append]
        omega
      obtain ⟨units, hunits⟩ := ih rest.length hshorter hrest rfl
      rw [unitsFrom, if_neg hrole, if_pos hasks]
      refine ⟨List.range' i (m.callIds.length + 1) :: units, ?_⟩
      simp only [bind_eq_ok, throwIf_eq_ok, not_or, not_not]
      refine ⟨(), ⟨hne, hnodup⟩, (), ?_, (), ?_, units, ?_, rfl⟩
      · rw [answered_iff.mpr ⟨results, rest, rfl, hresults⟩]
        decide
      · rw [hlength, List.getElem?_append_right le_rfl, Nat.sub_self]
        intro hafter
        obtain ⟨after, hget, htool⟩ := (Option.any_eq_true _ _).mp hafter
        rw [← List.head?_eq_getElem?] at hget
        exact hrest.role_head hget (of_decide_eq_true htool)
      · rw [unitsFrom_skip, hlength, List.drop_left]
        exact hunits

theorem buildUnits_ok_iff : (∃ units, buildUnits messages = .ok units) ↔ Exchanges messages := by
  constructor
  · rintro ⟨units, h⟩
    exact (unitsFrom_spec rfl h).exchanges
  · exact Exchanges.exists_unitsFrom

theorem accept_eq_ok_iff : accept messages = .ok units ↔
    ("" ∉ messages.map ContextMessage.id ∧ (messages.map ContextMessage.id).Nodup) ∧
      buildUnits messages = .ok units := by
  simp only [accept, bind_eq_ok, throwIf_eq_ok, not_or, not_not, exists_const]

/-- What is accepted is what is well formed. -/
theorem accept_iff : (∃ units, accept messages = .ok units) ↔ WellFormed messages := by
  constructor
  · rintro ⟨units, h⟩
    obtain ⟨⟨hne, hnodup⟩, hunits⟩ := accept_eq_ok_iff.mp h
    exact ⟨hne, hnodup, buildUnits_ok_iff.mp ⟨units, hunits⟩⟩
  · intro h
    obtain ⟨units, hunits⟩ := buildUnits_ok_iff.mpr h.exchanges
    exact ⟨units, accept_eq_ok_iff.mpr ⟨⟨h.ids, h.unique⟩, hunits⟩⟩

/-- The units cover the messages one after the other. -/
theorem buildUnits_blocks (h : accept messages = .ok units) :
    units.flatten = List.range messages.length ∧ ∀ unit ∈ units, IsUnit messages unit := by
  have hunits : UnitsAt messages 0 messages units :=
    unitsFrom_spec rfl (accept_eq_ok_iff.mp h).2
  rw [List.range_eq_range']
  exact ⟨hunits.cover, hunits.isUnit⟩

/-- A result is not the first message of its unit. -/
theorem IsUnit.pred_mem {unit : List Nat} (h : IsUnit messages unit) (hi : i ∈ unit)
    (hm : messages[i]? = some m) (hrole : m.role = .tool) : ∃ j ∈ unit, i = j + 1 := by
  obtain ⟨⟨first, more, rfl⟩, hexchanges⟩ := h
  obtain ⟨hfirst, hlast⟩ := List.mem_range'_1.mp hi
  rcases hfirst.eq_or_lt with rfl | hlt
  · have hhead : (Blocks.pick messages (List.range' first (more + 1))).head? = some m := by
      rw [Blocks.pick_range', List.head?_take, List.head?_drop, hm]
      simp
    exact absurd hrole (hexchanges.role_head hhead)
  · exact ⟨i - 1, List.mem_range'_1.mpr ⟨by omega, by omega⟩, by omega⟩

end Units

end AriOs.Cognition.Context
