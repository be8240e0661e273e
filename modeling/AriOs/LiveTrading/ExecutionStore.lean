import AriOs.Async.Pool
import AriOs.Js.Record
import AriOs.Js.Stringify
import AriOs.LiveTrading.Store

/-!
# The executions as they are stored

An execution is stored as the JSON text of its record, with the state once more in a column of
its own. A transition takes the write lock, reads the record, checks state and version, spreads
the patch over it, and replaces text and column together where the text is still the one that
was read.

Text and value correspond: two payloads have the same text only if they are the same, so the
payload is kept as the JSON value behind its text, and texts are compared where the statement
compares them.

## Main results

* `Payload.text_injective` — the text determines the payload
-/

namespace AriOs.LiveTrading

open AriOs.Async AriOs.Js AriOs.Storage

/-! ### Records -/

inductive ExecutionKey where
  | id | version | quoteId | quoteHash | intentHash | policyHash | riskHash | reservationId
  | simulationHash | approvalId | authorizationId | actor | dryRun | idempotencyKey | state
  | approver | messageHash | signature | slot | lastValidBlockHeight | createdAt | updatedAt
  deriving DecidableEq, Repr

def ExecutionKey.text : ExecutionKey → String
  | id => "id"
  | version => "version"
  | quoteId => "quoteId"
  | quoteHash => "quoteHash"
  | intentHash => "intentHash"
  | policyHash => "policyHash"
  | riskHash => "riskHash"
  | reservationId => "reservationId"
  | simulationHash => "simulationHash"
  | approvalId => "approvalId"
  | authorizationId => "authorizationId"
  | actor => "actor"
  | dryRun => "dryRun"
  | idempotencyKey => "idempotencyKey"
  | state => "state"
  | approver => "approver"
  | messageHash => "messageHash"
  | signature => "signature"
  | slot => "slot"
  | lastValidBlockHeight => "lastValidBlockHeight"
  | createdAt => "createdAt"
  | updatedAt => "updatedAt"

def TradeState.text : TradeState → String
  | awaitingApproval => "awaiting-approval"
  | approved => "approved"
  | dryRun => "dry-run"
  | signing => "signing"
  | submitting => "submitting"
  | reconciliationRequired => "reconciliation-required"
  | broadcast => "broadcast"
  | confirmed => "confirmed"
  | finalized => "finalized"
  | failed => "failed"
  | denied => "denied"
  | expired => "expired"
  | dropped => "dropped"

/-- What a field of an execution can be. -/
inductive Scalar where
  | undefined
  | null
  | bool (b : Bool)
  | number (n : JsNumber)
  | bigint (i : Int)
  | string (s : String)
  deriving DecidableEq

abbrev Fields := Record ExecutionKey Scalar

/-- The JSON value of an execution. -/
abbrev Payload := Record ExecutionKey Json

/-- `json` of a field: a big integer is an object with its digits, `undefined` is left out. -/
def Scalar.json : Scalar → Option Json
  | undefined => none
  | null => some .null
  | bool b => some (.bool b)
  | number (.finite q) => some (.number q)
  | number _ => some .null
  | bigint i => some (.object [("$bigint", .string (toString i))])
  | string s => some (.string s)

/-- `parse` of a field: `none` where `BigInt` throws, or where no field is of that form. -/
def Scalar.parse : Json → Option Scalar
  | .null => some null
  | .bool b => some (bool b)
  | .number q => some (number (.finite q))
  | .string s => some (string s)
  | .object [("$bigint", .string digits)] => digits.toInt?.map bigint
  | .object _ | .array _ => none

/-- `json`. -/
def json (x : Fields) : Payload := x.filterMap Scalar.json

/-- `parse`. -/
def parse (payload : Payload) : Except String Fields :=
  if payload.rows.all fun kv => (Scalar.parse kv.2).isSome then
    .ok (payload.filterMap Scalar.parse)
  else .error "SyntaxError"

/-- The text of a payload. -/
def Payload.text (payload : Payload) : String :=
  (Json.object (payload.rows.map fun kv => (kv.1.text, kv.2))).text stringify

/-- A row of `executions`. -/
structure ExecutionRow where
  id : String
  idempotencyKey : String
  payload : Payload
  state : String

abbrev ExecutionRows := Table ExecutionRow.id

/-- What can be bound to a text column. The fields that are bound are texts or not set. -/
def bindText : Option Scalar → Except String String
  | some (.string s) => .ok s
  | _ => .error "Provided value cannot be bound to SQLite parameter"

/-! ### Methods -/

/-- What a transition may write: any fields, the state and the version among them. -/
structure FieldPatch where
  fields : Fields
  state_typed : ∀ v, fields.get .state = some v →
    v = .undefined ∨ ∃ s : TradeState, v = .string s.text

/-- `old.version + 1`; a version is a number in every execution. -/
def nextVersion (old : Fields) : JsNumber :=
  match old.get .version with
  | some (.number n) => n.add (.ofInt 1)
  | _ => .nan

/-- `old.version === version`. -/
def isVersion (old : Fields) (version : JsNumber) : Bool :=
  version != .nan && old.get .version == some (.number version)

/-- `from.includes(old.state)`. -/
def inStates (old : Fields) (source : List TradeState) : Bool :=
  source.any fun s => old.get .state == some (.string s.text)

namespace ExecutionRows

variable (t : ExecutionRows)

/-- `create`. -/
def create (x : Fields) (state : TradeState) (id : String) (now : JsNumber) :
    Except String Fields × ExecutionRows :=
  let r : Fields := ((((x.set .id (.string id)).set .version (.number (.ofInt 0))).set .state
    (.string state.text)).set .createdAt (.number now)).set .updatedAt (.number now)
  match bindText (r.get .idempotencyKey) with
  | .error e => (.error e, t)
  | .ok key =>
    if t.rows.any fun row => row.idempotencyKey = key then
      (.error "UNIQUE constraint failed: executions.idempotency_key", t)
    else match t.insert? ⟨id, key, json r, state.text⟩ with
      | some t' => (.ok r, t')
      | none => (.error "UNIQUE constraint failed: executions.id", t)

/-- `get`. -/
def get (id : String) : Except String (Option Fields) :=
  match t.find? id with
  | some row => (parse row.payload).map some
  | none => .ok none

/-- `byIdempotency`. -/
def byIdempotency (key : String) : Except String (Option Fields) :=
  match t.rows.find? fun row => row.idempotencyKey = key with
  | some row => (parse row.payload).map some
  | none => .ok none

/-- `list`: by the column, oldest first. -/
def list (states : List TradeState) : Except String (List Fields) :=
  (t.rows.filter fun row => states.any fun s => row.state = s.text).mapM fun row => parse row.payload

/-- `{ ...old, ...p, version: old.version + 1, updatedAt }`. -/
def patched (old : Fields) (p : FieldPatch) (now : JsNumber) : Fields :=
  ((old.spread p.fields).set .version (.number (nextVersion old))).set .updatedAt (.number now)

/-- `transition`. Whatever it throws, the transaction is rolled back. -/
def transition (id : String) (source : List TradeState) (p : FieldPatch)
    (version : Option JsNumber) (now : JsNumber) : Except String Fields × ExecutionRows :=
  match t.get id with
  | .error e => (.error e, t)
  | .ok none => (.error "execution_not_found", t)
  | .ok (some old) =>
    if ¬ inStates old source ∨ version.any fun v => ¬ isVersion old v then
      (.error "state conflict", t)
    else
      let x := patched old p now
      match bindText (x.get .state) with
      | .error e => (.error e, t)
      | .ok state =>
        let here := fun row : ExecutionRow => row.id = id ∧ row.payload.text = (json old).text
        if t.count (fun row => here row) ≠ 1 then (.error "state conflict", t)
        else (.ok x, t.update (fun row => here row)
          (fun row => { row with payload := json x, state }) fun _ => rfl)

end ExecutionRows

/-! ### The store in use -/

/-- A statement, or the transaction of a transition. -/
inductive ExecutionOp where
  | create (x : Fields) (state : TradeState)
  | get (id : String)
  | byIdempotency (key : String)
  | list (states : List TradeState)
  | transition (id : String) (source : List TradeState) (p : FieldPatch) (version : Option JsNumber)

/-- What is contributed to a statement: whether it fails, the clock, and a random id. -/
structure ExecutionAnswer where
  fails : Bool
  now : JsNumber
  uuid : String

abbrev ExecutionOp.Res : ExecutionOp → Type
  | .create _ _ | .transition _ _ _ _ => Except String Fields
  | .get _ | .byIdempotency _ => Except String (Option Fields)
  | .list _ => Except String (List Fields)

abbrev ExecutionI : Interface := ⟨ExecutionOp, fun _ => ExecutionAnswer, ExecutionOp.Res⟩

/-- A statement that fails throws and changes nothing. -/
def executionMachine : Machine ExecutionI ExecutionRows where
  handle
    | .create x state, t, a =>
      if a.fails then (.error "database is locked", t) else t.create x state a.uuid a.now
    | .get id, t, a => (if a.fails then .error "database is locked" else t.get id, t)
    | .byIdempotency key, t, a =>
      (if a.fails then .error "database is locked" else t.byIdempotency key, t)
    | .list states, t, a => (if a.fails then .error "database is locked" else t.list states, t)
    | .transition id source p version, t, a =>
      if a.fails then (.error "database is locked", t) else t.transition id source p version a.now

inductive ExecutionRequest where
  | create (x : Fields) (state : TradeState)
  | get (id : String)
  | byIdempotency (key : String)
  | list (states : List TradeState)
  | transition (id : String) (source : List TradeState) (p : FieldPatch) (version : Option JsNumber)
  | update (id : String) (p : FieldPatch)

/-- What a call returns. -/
inductive ExecutionResult where
  | execution (x : Fields)
  | found (x : Option Fields)
  | executions (xs : List Fields)

abbrev ExecutionTask (α : Type) := Task ExecutionI String α

/-- A statement whose failure is thrown on. -/
def query {α : Type} (o : ExecutionOp) (h : ExecutionI.Res o = Except String α) : ExecutionTask α :=
  ExceptT.mk (.call (I := ExecutionI) o fun r => .pure (cast h r))

/-- The state of an execution that was read, as a `from` of one state. -/
def stateOfFields (x : Fields) : List TradeState :=
  [.awaitingApproval, .approved, .dryRun, .signing, .submitting, .reconciliationRequired,
    .broadcast, .confirmed, .finalized, .failed, .denied, .expired, .dropped].filter fun s =>
      x.get .state = some (.string s.text)

/-- The version of an execution that was read. -/
def versionOfFields (x : Fields) : Option JsNumber :=
  match x.get .version with
  | some (.number n) => some n
  | _ => none

/-- `update`: whatever came between the reading and the transition makes it fail. -/
def update (id : String) (p : FieldPatch) : ExecutionTask Fields := do
  let x ← query (.get id) rfl
  match x with
  | none => throw "execution_not_found"
  | some x => query (.transition id (stateOfFields x) p (versionOfFields x)) rfl

def executionTask : ExecutionRequest → ExecutionTask ExecutionResult
  | .create x state => .execution <$> query (.create x state) rfl
  | .get id => .found <$> query (.get id) rfl
  | .byIdempotency key => .found <$> query (.byIdempotency key) rfl
  | .list states => .executions <$> query (.list states) rfl
  | .transition id source p version =>
    .execution <$> query (.transition id source p version) rfl
  | .update id p => .execution <$> update id p

def executionBody (r : ExecutionRequest) : Prog ExecutionI (Except String ExecutionResult) :=
  (executionTask r).run

abbrev ExecutionPool :=
  Pool ExecutionI ExecutionRows ExecutionRequest (Except String ExecutionResult)

/-- A run on a fresh database. -/
def executionRun (es : List (Event ExecutionI ExecutionRequest)) : ExecutionPool :=
  (Pool.start Table.empty).run executionMachine executionBody es

/-! ### Consistency -/

theorem get_json {x : Fields} {k : ExecutionKey} : (json x).get k = (x.get k).bind Scalar.json :=
  Record.get_filterMap

theorem get_parse {payload : Payload} {x : Fields} (h : parse payload = .ok x) {k : ExecutionKey} :
    x.get k = (payload.get k).bind Scalar.parse := by
  unfold parse at h
  split at h
  · obtain rfl := Except.ok.inj h
    exact Record.get_filterMap
  · cases h

/-- The column is the state of the payload, and the payload has a version. -/
structure ExecutionRow.Consistent (row : ExecutionRow) : Prop where
  state : row.payload.get .state = some (.string row.state)
  version : ∃ k : Nat, row.payload.get .version = some (.number k)

namespace ExecutionRows

variable {t t' : ExecutionRows} {id j : String} {source : List TradeState} {p : FieldPatch}
  {version : Option JsNumber} {now : JsNumber} {x : Fields}

theorem bindText_eq_ok {v : Option Scalar} {s : String} (h : bindText v = .ok s) :
    v = some (.string s) := by
  unfold bindText at h
  split at h
  · rw [Except.ok.inj h]
  · cases h

theorem get_eq_ok {old : Fields} (h : t.get id = .ok (some old)) :
    ∃ row, t.find? id = some row ∧ parse row.payload = .ok old := by
  unfold get at h
  split at h
  · rename_i row hrow
    refine ⟨row, hrow, ?_⟩
    cases hp : parse row.payload with
    | error e => rw [hp] at h; cases h
    | ok y => rw [hp] at h; cases h; rfl
  · cases h

/-- What a transition that succeeds found under its id, and what it left there. -/
theorem transition_spec (h : t.transition id source p version now = (.ok x, t')) :
    ∃ row old state, t.find? id = some row ∧ parse row.payload = .ok old ∧
      inStates old source = true ∧ (∀ v ∈ version, isVersion old v = true) ∧
      x = patched old p now ∧ x.get .state = some (.string state) ∧
      ∀ j, t'.find? j = (t.find? j).map fun row =>
        if row.id = id then { row with payload := json x, state } else row := by
  unfold transition at h
  split at h
  · cases h
  · cases h
  rename_i old hget
  split at h
  · cases h
  rename_i hpasses
  rw [not_or, not_not] at hpasses
  dsimp only at h
  split at h
  · cases h
  rename_i state hbind
  split at h
  · cases h
  rename_i hcount
  obtain ⟨hx, ht⟩ := Prod.mk.inj h
  obtain rfl := Except.ok.inj hx
  -- the execution that was read is the row with this id
  obtain ⟨row, hrow, hparse⟩ := get_eq_ok hget
  refine ⟨row, old, state, hrow, hparse, hpasses.1, ?_, rfl, bindText_eq_ok hbind, ?_⟩
  · intro v hv
    obtain rfl := Option.mem_def.mp hv
    simpa using hpasses.2
  · -- and the one row the statement selects
    have hhere : row.payload.text = (json old).text := by
      rw [not_not] at hcount
      have hpos : 0 < t.count fun r => r.id = id ∧ r.payload.text = (json old).text := by omega
      obtain ⟨r, hr, hsel⟩ := List.countP_pos_iff.mp hpos
      rw [decide_eq_true_eq] at hsel
      have hsame : t.find? id = some r := Table.find?_eq_some_iff.mpr ⟨hr, hsel.1⟩
      obtain rfl := Option.some.inj (hrow.symm.trans hsame)
      exact hsel.2
    intro j
    rw [← ht, Table.find?_update]
    cases hj : t.find? j with
    | none => rfl
    | some r =>
      by_cases hid : r.id = id
      · have hjid : j = id := (Table.find?_eq_some_iff.mp hj).2.symm.trans hid
        rw [hjid] at hj
        obtain rfl := Option.some.inj (hrow.symm.trans hj)
        simp [hid, hhere]
      · simp [hid]

/-- A transition throws and leaves everything as it was, or it succeeds. -/
theorem transition_cases (t : ExecutionRows) (id : String) (source : List TradeState)
    (p : FieldPatch) (version : Option JsNumber) (now : JsNumber) :
    (∃ e, t.transition id source p version now = (.error e, t)) ∨
      ∃ x t', t.transition id source p version now = (.ok x, t') := by
  unfold transition
  split
  · exact .inl ⟨_, rfl⟩
  · exact .inl ⟨_, rfl⟩
  · split
    · exact .inl ⟨_, rfl⟩
    · dsimp only
      split
      · exact .inl ⟨_, rfl⟩
      · split
        · exact .inl ⟨_, rfl⟩
        · exact .inr ⟨_, _, rfl⟩

/-- A creation throws and leaves everything as it was, or it adds a row under a free id. -/
theorem create_cases (t : ExecutionRows) (x : Fields) (state : TradeState) (id : String)
    (now : JsNumber) :
    (∃ e, t.create x state id now = (.error e, t)) ∨
      ∃ r t' row, t.create x state id now = (.ok r, t') ∧ row.Consistent ∧
        row.payload.get .version = some (.number 0) ∧ t.insert? row = some t' := by
  unfold create
  dsimp only
  split
  · exact .inl ⟨_, rfl⟩
  · split
    · exact .inl ⟨_, rfl⟩
    · split
      · rename_i t' hins
        refine .inr ⟨_, _, _, rfl, ⟨?_, 0, ?_⟩, ?_, hins⟩
        · simp [get_json, Record.get_set, Scalar.json]
        · simp [get_json, Record.get_set, Scalar.json, JsNumber.ofInt]
        · simp [get_json, Record.get_set, Scalar.json, JsNumber.ofInt]
      · exact .inl ⟨_, rfl⟩

/-- The version of an execution. -/
def versionOf (t : ExecutionRows) (id : String) : Option Json :=
  (t.find? id).bind fun row => row.payload.get .version

/-- All rows are consistent. -/
def Consistent (t : ExecutionRows) : Prop := ∀ row ∈ t.rows, row.Consistent

/-- What a transition finds and leaves of a consistent row. -/
theorem patched_consistent {row : ExecutionRow} {old : Fields} {state : String} {k : Nat}
    (hk : row.payload.get .version = some (.number k)) (hparse : parse row.payload = .ok old)
    (hstate : (patched old p now).get .state = some (.string state)) :
    old.get .version = some (.number (.finite k)) ∧
      (json (patched old p now)).get .state = some (.string state) ∧
      (json (patched old p now)).get .version = some (.number ((k + 1 : Nat) : ℚ)) := by
  have hversion : old.get .version = some (.number (.finite k)) := by
    rw [get_parse hparse, hk]
    rfl
  refine ⟨hversion, by rw [get_json, hstate]; rfl, ?_⟩
  rw [get_json, patched, Record.get_set, if_neg (by decide), Record.get_set, if_pos rfl,
    nextVersion, hversion]
  simp [Scalar.json, JsNumber.add, JsNumber.ofInt]

end ExecutionRows

open ExecutionRows

/-- The answer of a statement is that of a transition of this execution that succeeded. -/
def ExecutionOp.Moves (id : String) : (o : ExecutionOp) → o.Res → Prop
  | .transition id' _ _ _, .ok _ => id' = id
  | _, _ => False

/-- What one statement does: the rows stay consistent, and the version of an execution goes up
by one if it is moved, and stays if it is not. -/
theorem executionMachine_spec (o : ExecutionOp) (a : ExecutionAnswer) {t : ExecutionRows}
    (ht : t.Consistent) :
    (executionMachine.handle o t a).2.Consistent ∧
      ∀ id (k : Nat), t.versionOf id = some (.number k) →
        (o.Moves id (executionMachine.handle o t a).1 →
          (executionMachine.handle o t a).2.versionOf id = some (.number ((k + 1 : Nat) : ℚ))) ∧
        (¬ o.Moves id (executionMachine.handle o t a).1 →
          (executionMachine.handle o t a).2.versionOf id = some (.number k)) := by
  cases o with
  | get | byIdempotency | list => exact ⟨ht, fun id k hk => ⟨False.elim, fun _ => hk⟩⟩
  | create x state =>
    cases hfails : a.fails with
    | true =>
      simp only [executionMachine, hfails, if_true]
      exact ⟨ht, fun id k hk => ⟨False.elim, fun _ => hk⟩⟩
    | false =>
      simp only [executionMachine, hfails, Bool.false_eq_true, if_false]
      obtain ⟨e, heq⟩ | ⟨r, t', row, heq, hrow, -, hins⟩ := create_cases t x state a.uuid a.now
      · rw [heq]
        exact ⟨ht, fun id k hk => ⟨False.elim, fun _ => hk⟩⟩
      · rw [heq]
        refine ⟨fun r' hr' => ?_, fun id k hk => ⟨False.elim, fun _ => ?_⟩⟩
        · rw [Table.rows_of_insert? hins, List.mem_append, List.mem_singleton] at hr'
          obtain hr' | rfl := hr'
          · exact ht r' hr'
          · exact hrow
        · -- the id was free, so it is another execution's version
          obtain ⟨r', hr', hversion⟩ := Option.bind_eq_some_iff.mp hk
          rw [versionOf, Table.find?_insert?_of_some hins hr', Option.bind_some, hversion]
  | transition id source p version =>
    cases hfails : a.fails with
    | true =>
      simp only [executionMachine, hfails, if_true]
      exact ⟨ht, fun id k hk => ⟨False.elim, fun _ => hk⟩⟩
    | false =>
      simp only [executionMachine, hfails, Bool.false_eq_true, if_false]
      -- the row is found under its id and written with the next version
      obtain ⟨e, heq⟩ | ⟨x, t', heq⟩ := transition_cases t id source p version a.now
      · rw [heq]
        exact ⟨ht, fun id k hk => ⟨False.elim, fun _ => hk⟩⟩
      · rw [heq]
        obtain ⟨row, old, state, hrow, hparse, -, -, rfl, hstate, hfind⟩ := transition_spec heq
        have hmem := (Table.find?_eq_some_iff.mp hrow)
        obtain ⟨k₀, hk₀⟩ := (ht row hmem.1).version
        obtain ⟨-, hnewState, hnewVersion⟩ := patched_consistent hk₀ hparse hstate
        refine ⟨fun r' hr' => ?_, fun j k hk => ⟨?_, ?_⟩⟩
        · have hr'' := Table.mem_rows_iff.mp hr'
          rw [hfind, Option.map_eq_some_iff] at hr''
          obtain ⟨r, hr, heq'⟩ := hr''
          have hcons := ht r (Table.find?_eq_some_iff.mp hr).1
          split at heq'
          · rw [← heq']
            exact ⟨hnewState, _, hnewVersion⟩
          · rw [← heq']
            exact hcons
        · -- the execution that was moved
          rintro rfl
          rw [versionOf, hrow, Option.bind_some, hk₀] at hk
          obtain rfl : k₀ = k := by simpa using hk
          rw [versionOf, hfind, hrow, Option.map_some, if_pos hmem.2, Option.bind_some]
          exact hnewVersion
        · -- the others keep theirs
          intro hother
          obtain ⟨r, hr, hversion⟩ := Option.bind_eq_some_iff.mp hk
          have hne : r.id ≠ id := by
            rintro hid
            exact hother (hid.symm.trans (Table.find?_eq_some_iff.mp hr).2)
          rw [versionOf, hfind, hr, Option.map_some, if_neg hne, Option.bind_some, hversion]

/-- An event is a transition of this execution, from these states and at this version, that
succeeds. -/
def Transitions (p : ExecutionPool) (e : Event ExecutionI ExecutionRequest) (id : String)
    (source : List TradeState) (version : Option JsNumber) : Prop :=
  ∃ t ans patch x, e = .step t ans ∧
    p.next? t = some (.transition id source patch version) ∧
    (executionMachine.handle (.transition id source patch version) p.shared
      (ans (.transition id source patch version))).1 = .ok x

/-- One event of a run. -/
theorem apply_spec {p : ExecutionPool} (hp : p.shared.Consistent)
    (e : Event ExecutionI ExecutionRequest) :
    (p.apply executionMachine executionBody e).shared.Consistent ∧
      ∀ id (k : Nat), p.shared.versionOf id = some (.number k) →
        ((∃ source version, Transitions p e id source version) →
          (p.apply executionMachine executionBody e).shared.versionOf id =
            some (.number ((k + 1 : Nat) : ℚ))) ∧
        ((¬ ∃ source version, Transitions p e id source version) →
          (p.apply executionMachine executionBody e).shared.versionOf id = some (.number k)) := by
  cases e with
  | spawn r =>
    exact ⟨hp, fun id k hk => ⟨fun ⟨_, _, _, _, _, _, h, _⟩ => (nomatch h), fun _ => hk⟩⟩
  | kill t =>
    exact ⟨hp, fun id k hk => ⟨fun ⟨_, _, _, _, _, _, h, _⟩ => (nomatch h), fun _ => hk⟩⟩
  | step t ans =>
    obtain hnone | ⟨o, hnext⟩ : p.next? t = none ∨ ∃ o, p.next? t = some o := by
      cases p.next? t <;> simp
    · rw [show p.apply executionMachine executionBody (.step t ans) = p from
        Pool.step_eq_self hnone ans]
      refine ⟨hp, fun id k hk => ⟨?_, fun _ => hk⟩⟩
      rintro ⟨_, _, _, _, _, _, h, hnext, _⟩
      cases h
      rw [hnone] at hnext
      cases hnext
    · rw [show (p.apply executionMachine executionBody (.step t ans)).shared = _ from
        Pool.step_shared hnext ans]
      obtain ⟨hcons, hversions⟩ := executionMachine_spec o (ans o) hp
      refine ⟨hcons, fun id k hk => ?_⟩
      -- the step moves the execution exactly if its operation does
      have hiff : (∃ source version, Transitions p (.step t ans) id source version) ↔
          o.Moves id (executionMachine.handle o p.shared (ans o)).1 := by
        constructor
        · rintro ⟨source, version, t', ans', patch, x, he, hnext', hok⟩
          obtain ⟨rfl, rfl⟩ := Event.step.inj he
          obtain rfl := Option.some.inj (hnext.symm.trans hnext')
          rw [hok]
          rfl
        · intro hmoves
          cases o with
          | transition id' source patch version =>
            cases hok : (executionMachine.handle (.transition id' source patch version) p.shared
                (ans (.transition id' source patch version))).1 with
            | error e => rw [hok] at hmoves; exact hmoves.elim
            | ok x =>
              rw [hok] at hmoves
              obtain rfl : id' = id := hmoves
              exact ⟨source, version, t, ans, patch, x, rfl, hnext, hok⟩
          | _ => exact hmoves.elim
      rw [hiff]
      exact hversions id k hk

theorem run_consistent {p : ExecutionPool} (hp : p.shared.Consistent)
    (es : List (Event ExecutionI ExecutionRequest)) :
    (p.run executionMachine executionBody es).shared.Consistent :=
  Pool.run_induction (P := fun p => p.shared.Consistent) (fun _ e hp _ => (apply_spec hp e).1)
    (Pool.meets_true p es) hp

/-- No run takes a version back. -/
theorem run_versionOf {p : ExecutionPool} (hp : p.shared.Consistent)
    (es : List (Event ExecutionI ExecutionRequest)) {id : String} {k : Nat}
    (hk : p.shared.versionOf id = some (.number k)) :
    ∃ k', k ≤ k' ∧
      (p.run executionMachine executionBody es).shared.versionOf id = some (.number k') := by
  induction es generalizing p k with
  | nil => exact ⟨k, le_rfl, hk⟩
  | cons e es ih =>
    obtain ⟨hcons, hversions⟩ := apply_spec hp e
    obtain ⟨hmoved, hkept⟩ := hversions id k hk
    by_cases h : ∃ source version, Transitions p e id source version
    · obtain ⟨k', hle, hk'⟩ := ih hcons (hmoved h)
      exact ⟨k', by omega, hk'⟩
    · exact ih hcons (hkept h)

/-- A transition that succeeds finds an execution in one of its states, at its version. -/
theorem Transitions.found {p : ExecutionPool} (hp : p.shared.Consistent)
    {e : Event ExecutionI ExecutionRequest} {id : String} {source : List TradeState}
    {version : Option JsNumber} (h : Transitions p e id source version) :
    ∃ row ∈ p.shared.rows, row.id = id ∧ (∃ s ∈ source, row.state = s.text) ∧
      ∃ k : Nat, p.shared.versionOf id = some (.number k) ∧
        ∀ v ∈ version, v = .finite k := by
  obtain ⟨t, ans, patch, x, rfl, -, hok⟩ := h
  cases hfails : (ans (.transition id source patch version)).fails with
  | true => simp [executionMachine, hfails] at hok
  | false =>
    simp only [executionMachine, hfails, Bool.false_eq_true, if_false] at hok
    -- a transition that succeeds has read its row
    obtain ⟨row, old, state, hrow, hparse, hsource, hversion, -⟩ :=
      transition_spec (Prod.ext hok rfl)
    obtain ⟨hmem, hid⟩ := Table.find?_eq_some_iff.mp hrow
    obtain ⟨hstate, k, hk⟩ := hp row hmem
    refine ⟨row, hmem, hid, ?_, k, ?_, ?_⟩
    · obtain ⟨s, hs, heq⟩ := List.any_eq_true.mp hsource
      rw [beq_iff_eq, get_parse hparse, hstate] at heq
      exact ⟨s, hs, by simpa [Scalar.parse] using heq⟩
    · rw [versionOf, hrow, Option.bind_some, hk]
    · intro v hv
      have hv' := hversion v hv
      rw [isVersion, Bool.and_eq_true, beq_iff_eq, get_parse hparse, hk] at hv'
      simpa [Scalar.parse] using hv'.2.symm

/-- **The store is consistent in every run.** The column is the state of the payload; the version
of an execution goes up by one with every transition that succeeds, and at no other time; and
of the transitions that succeed no two find the execution at the same version, so that of those
attempted from one state and version at most one succeeds. -/
theorem store_consistent (es : List (Event ExecutionI ExecutionRequest)) :
    (∀ row ∈ (executionRun es).shared.rows,
      row.payload.get .state = some (.string row.state)) ∧
    (∀ before e after, es = before ++ e :: after → ∀ id (k : Nat),
      (executionRun before).shared.versionOf id = some (.number k) →
      ((∃ source version, Transitions (executionRun before) e id source version) →
        (executionRun (before ++ [e])).shared.versionOf id = some (.number ((k + 1 : Nat) : ℚ))) ∧
      ((¬ ∃ source version, Transitions (executionRun before) e id source version) →
        (executionRun (before ++ [e])).shared.versionOf id = some (.number k))) ∧
    (∀ before e after, es = before ++ e :: after → ∀ id source version,
      Transitions (executionRun before) e id source version →
      ∃ row ∈ (executionRun before).shared.rows, row.id = id ∧
        (∃ s ∈ source, row.state = s.text) ∧
        ∃ k : Nat, (executionRun before).shared.versionOf id = some (.number k) ∧
          ∀ v ∈ version, v = .finite k) ∧
    (∀ before e between e' after, es = before ++ e :: between ++ e' :: after →
      ∀ id source version source' version',
      Transitions (executionRun before) e id source version →
      Transitions (executionRun (before ++ e :: between)) e' id source' version' →
      (executionRun before).shared.versionOf id ≠
        (executionRun (before ++ e :: between)).shared.versionOf id) := by
  have hcons : ∀ es, (executionRun es).shared.Consistent := fun es =>
    run_consistent (fun row hrow => absurd hrow (by simp [Pool.start])) es
  have hstep : ∀ before e, executionRun (before ++ [e]) =
      (executionRun before).apply executionMachine executionBody e :=
    fun before e => Pool.run_append _ _ _
  refine ⟨fun row hrow => (hcons es row hrow).state, ?_, ?_, ?_⟩
  · intro before e after _ id k hk
    rw [hstep]
    exact (apply_spec (hcons before) e).2 id k hk
  · intro before e after _ id source version h
    exact h.found (hcons before)
  · intro before e between e' after _ id source version source' version' h h' hsame
    -- the first took the version past the one both are supposed to have found
    obtain ⟨-, -, -, -, k, hk, -⟩ := h.found (hcons before)
    have hnext := ((apply_spec (hcons before) e).2 id k hk).1 ⟨source, version, h⟩
    obtain ⟨k', hle, hk'⟩ := run_versionOf (apply_spec (hcons before) e).1 between hnext
    have hrun : executionRun (before ++ e :: between) =
        ((executionRun before).apply executionMachine executionBody e).run executionMachine
          executionBody between := Pool.run_append _ _ _
    rw [hrun, hk', hk] at hsame
    have hkk : k = k' := by simpa using hsame
    omega

end AriOs.LiveTrading
