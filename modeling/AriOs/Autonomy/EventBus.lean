import AriOs.Async.Pool
import AriOs.Js.Numeral
import AriOs.Js.Throw
import AriOs.Storage.Table

/-!
# The durable event bus

Publishing writes an event to the outbox and hands it at once to every consumer that is
subscribed; delivering hands a consumer, in cursor order, what lies past its offset. One
delivery is one database transaction, open while the handler runs, and deliveries wait for
each other. Publishing does not wait: all calls share one connection, so a statement made
while a delivery is open becomes part of its transaction.

A call that waits is not stepped until it may go on; one that is stepped too early stays where
it is for good, and so does a loop that has used up its `rounds`.
-/

namespace AriOs.Autonomy.Events

open AriOs.Async AriOs.Js AriOs.Storage

/-! ### Stored text -/

mutual

/-- The JSON value that `JSON.stringify(v, encode)` writes, if it writes one. -/
def encode : JsValue → Option JsValue
  | .undefined | .other => none
  | .null => some .null
  | .bool b => some (.bool b)
  | .number n => some (if n.isFinite then .number n else .null)
  | .bigint i => some (.object [("$bigint", .string (toString i))])
  | .string s => some (.string s)
  | .array items => some (.array (encodeItems items))
  | .object fields => some (.object (encodeFields fields))

/-- An item without a value is written as `null`. -/
def encodeItems : List JsValue → List JsValue
  | [] => []
  | v :: items => (encode v).getD .null :: encodeItems items

/-- A field without a value is left out. -/
def encodeFields : List (String × JsValue) → List (String × JsValue)
  | [] => []
  | (key, v) :: fields =>
    match encode v with
    | some json => (key, json) :: encodeFields fields
    | none => encodeFields fields

end

/-- `decode`, on a value whose parts were decoded before. -/
def revive : JsValue → Except String JsValue
  | .object [("$bigint", .string s)] =>
    match bigInt? s with
    | some i => .ok (.bigint i)
    | none => .error ("Cannot convert " ++ s ++ " to a BigInt")
  | v => .ok v

mutual

/-- `JSON.parse(text, decode)`. -/
def decode : JsValue → Except String JsValue
  | .array items => do return .array (← decodeItems items)
  | .object fields => do revive (.object (← decodeFields fields))
  | v => .ok v

def decodeItems : List JsValue → Except String (List JsValue)
  | [] => .ok []
  | v :: items => do return (← decode v) :: (← decodeItems items)

def decodeFields : List (String × JsValue) → Except String (List (String × JsValue))
  | [] => .ok []
  | (key, v) :: fields => do return (key, ← decode v) :: (← decodeFields fields)

end

/-! ### Events and consumers -/

/-- An event. The bus reads its id, type, version and payload; `rest` stands for the other
fields, which it carries along. -/
structure Envelope where
  id : String
  type : String
  version : Nat
  payload : JsValue
  rest : JsValue := .object []

/-- The versions of one type of event. -/
structure EventSchema where
  latest : Nat
  validate : JsValue → Except String Bool
  upcast : Option (JsValue → Nat → Except String JsValue) := none

/-- How a bus was opened. A subscription's filter is known by its source text, which is what
the subscription's stored definition holds of it; `filter` is what that text computes. -/
structure Bus where
  maxAttempts : Nat := 5
  batchSize : Nat := 100
  schemas : String → Option EventSchema := fun _ => none
  filter : String → Envelope → Except String Bool := fun _ _ => .ok true

/-- `JSON.stringify({ types, version, filter })`. -/
structure Definition where
  types : Option (List String) := none
  version : String := "1"
  filter : Option String := none
  deriving DecidableEq, Repr

/-- A subscription; what its handler does is up to the environment. -/
structure Sub where
  name : String
  options : Definition := {}
  deriving DecidableEq, Repr

/-- An event with its place in the outbox. -/
structure StoredEvent where
  cursor : Nat
  envelope : Envelope

namespace Bus

variable (B : Bus)

/-- The payload in the latest version. -/
def upcast (schema : EventSchema) (e : Envelope) : Except String JsValue :=
  match schema.upcast with
  | some upcast => if e.version < schema.latest then upcast e.payload e.version else .ok e.payload
  | none => .ok e.payload

def normalize (e : Envelope) : Except String Envelope :=
  match B.schemas e.type with
  | none => .ok e
  | some schema => do
    throwIf (schema.latest < e.version) ("unsupported schema version " ++ toString e.version)
    let payload ← upcast schema e
    let valid ← schema.validate payload
    throwIf (valid = false) ("schema validation failed for " ++ e.type)
    return { e with version := schema.latest, payload }

/-- What the text written for an event reads back as. -/
def reload (e : Envelope) : Except String Envelope := do
  let payload ← decode ((encode e.payload).getD .undefined)
  let rest ← decode ((encode e.rest).getD .undefined)
  B.normalize { e with payload, rest }

/-- `matches`. -/
def isMatch (e : Envelope) (o : Definition) : Except String Bool :=
  if o.types.any fun types => e.type ∉ types then .ok false
  else match o.filter with
    | none => .ok true
    | some text => B.filter text e

end Bus

/-! ### Tables -/

/-- `UNIQUE(event_id)`. -/
def StoredEvent.key (x : StoredEvent) : String := x.envelope.id

structure DeadLetter where
  consumer : String
  cursor : Nat
  eventId : String
  error : String
  deriving DecidableEq, Repr

/-- The database. `seq` is the last cursor handed out; a consumer without a row has offset
zero, and a delivery without one has failed no time. -/
structure BusDb where
  outbox : Table StoredEvent.key := .empty
  seq : Nat := 0
  offsets : String → Nat := fun _ => 0
  retries : String → Nat → Nat := fun _ _ => 0
  deadLetters : List DeadLetter := []
  subscriptions : String → Option Definition := fun _ => none

namespace BusDb

variable (d : BusDb)

/-- `INSERT OR IGNORE INTO outbox`, and the cursor of the row with this id. A row that is
ignored uses up a cursor. -/
def insertEvent (e : Envelope) : (Nat × Bool) × BusDb :=
  let seq := d.seq + 1
  match d.outbox.insert? ⟨seq, e⟩ with
  | some outbox => ((seq, true), { d with outbox, seq })
  | none => (((d.outbox.find? e.id).elim seq (·.cursor), false), { d with seq })

/-- `SELECT .. WHERE cursor>? ORDER BY cursor LIMIT ?`. -/
def rowsAfter (cursor limit : Nat) : List StoredEvent :=
  ((d.outbox.rows.filter fun x => cursor < x.cursor).insertionSort
    fun x y => x.cursor ≤ y.cursor).take limit

def setOffset (consumer : String) (cursor : Nat) : BusDb :=
  { d with offsets := fun c => if c = consumer then cursor else d.offsets c }

def setAttempts (consumer : String) (cursor attempts : Nat) : BusDb :=
  { d with retries := fun c k => if c = consumer ∧ k = cursor then attempts else d.retries c k }

/-- `INSERT OR IGNORE INTO dead_letters`. -/
def insertDeadLetter (letter : DeadLetter) : BusDb :=
  if d.deadLetters.any fun l => l.consumer = letter.consumer ∧ l.cursor = letter.cursor then d
  else { d with deadLetters := d.deadLetters ++ [letter] }

end BusDb

/-- What a bus with its connection holds. `saved` is the database as a rollback would restore
it, while a transaction is open; `subs` are the subscriptions in the order they were made, an
ended one leaving its slot empty; `handled` records every handler that returned. -/
structure BusState where
  db : BusDb := {}
  saved : Option BusDb := none
  subs : List (Option Sub) := []
  locked : Bool := false
  handled : List (String × Nat) := []

namespace BusState

variable (s : BusState)

/-- The database as others, and a rollback, see it. -/
def committed : BusDb := s.saved.getD s.db

/-- The whole of `subscribe`, which does not wait. -/
def subscribe (sub : Sub) : Except String Unit × BusState :=
  if s.subs.any fun slot => slot.any fun other => other.name = sub.name then
    (.error ("duplicate consumer " ++ sub.name), s)
  else match s.db.subscriptions sub.name with
    | some old =>
      if old ≠ sub.options then
        (.error ("subscription definition changed for " ++ sub.name), s)
      else (.ok (), { s with subs := s.subs ++ [some sub] })
    | none =>
      (.ok (), { s with
        subs := s.subs ++ [some sub]
        db := { s.db with subscriptions := fun c =>
          if c = sub.name then some sub.options else s.db.subscriptions c } })

/-- `this.subscriptions.delete(name)`. -/
def unsubscribe (name : String) : BusState :=
  { s with subs := s.subs.map fun slot => slot.filter fun sub => sub.name ≠ name }

/-- The first subscription at or after a slot, as the iterator of a map finds it. -/
def nextSub (i : Nat) : Option (Nat × Sub) :=
  (s.subs.zipIdx.drop i).findSome? fun slot => slot.1.map fun sub => (slot.2, sub)

end BusState

/-! ### Calls -/

/-- What the bus calls. Each call is one statement, or several that are made without waiting in
between; those of a delivery say which event goes to which consumer. -/
inductive Op where
  | insert (e : Envelope)
  | subscribe (sub : Sub)
  | unsubscribe (name : String)
  | nextSub (i : Nat)
  | acquire
  | release
  | offset (name : String)
  | replay (cursor limit : Nat)
  | begin (sub : Sub) (x : StoredEvent)
  | handler (sub : Sub) (x : StoredEvent)
  | acknowledge (sub : Sub) (x : StoredEvent)
  | rollback
  | retry (sub : Sub) (x : StoredEvent) (msg : String)
  | deadLetter (sub : Sub) (x : StoredEvent) (msg : String)

/-- What the environment contributes: whether a statement, or the handler, fails. -/
def Op.Ans : Op → Type
  | subscribe _ | unsubscribe _ | nextSub _ | acquire | release | rollback => Unit
  | _ => Option String

/-- What the bus is handed. -/
def Op.Res : Op → Type
  | insert _ => Except String (Nat × Bool)
  | subscribe _ => Except String Unit
  | unsubscribe _ | release | rollback => Unit
  | nextSub _ => Option (Nat × Sub)
  | acquire => Bool
  | offset _ | retry _ _ _ => Except String Nat
  | replay _ _ => Except String (List StoredEvent)
  | begin _ _ | handler _ _ | acknowledge _ _ | deadLetter _ _ _ => Except String Unit

/-- The bus's calls. -/
def interface : Interface := ⟨Op, Op.Ans, Op.Res⟩

/-- A call that may fail, and then changes nothing. -/
def statement {β : Type} (s : BusState) (failure : Option String) (out : β × BusState) :
    Except String β × BusState :=
  match failure with
  | some e => (.error e, s)
  | none => (.ok out.1, out.2)

namespace BusState

variable (s : BusState)

/-- `BEGIN IMMEDIATE`. -/
def begin : Except String Unit × BusState :=
  match s.saved with
  | some _ => (.error "cannot start a transaction within a transaction", s)
  | none => (.ok (), { s with saved := some s.db })

/-- The rows from `inbox` on to `COMMIT`. -/
def acknowledge (sub : Sub) (x : StoredEvent) : BusState :=
  { s with
    db := (s.db.setOffset sub.name x.cursor).setAttempts sub.name x.cursor 0
    saved := none }

/-- `ROLLBACK`. -/
def rollback : BusState := { s with db := s.saved.getD s.db, saved := none }

/-- The transaction that gives an event up. -/
def deadLetter (sub : Sub) (x : StoredEvent) (msg : String) : Except String Unit × BusState :=
  match s.saved with
  | some _ => (.error "cannot start a transaction within a transaction", s)
  | none =>
    (.ok (), { s with
      db := (s.db.insertDeadLetter ⟨sub.name, x.cursor, x.envelope.id, msg⟩).setOffset sub.name
        x.cursor })

end BusState

/-- `Math.max(1, Math.min(limit, 1000))`. -/
def replayLimit (limit : Nat) : Nat := max 1 (min limit 1000)

/-- What each call does. -/
def machine (B : Bus) : Machine interface BusState where
  handle
    | .insert e, s, a =>
      statement s a ((s.db.insertEvent e).1, { s with db := (s.db.insertEvent e).2 })
    | .subscribe sub, s, _ => s.subscribe sub
    | .unsubscribe name, s, _ => ((), s.unsubscribe name)
    | .nextSub i, s, _ => (s.nextSub i, s)
    | .acquire, s, _ => if s.locked then (false, s) else (true, { s with locked := true })
    | .release, s, _ => ((), { s with locked := false })
    | .offset name, s, a => statement s a (s.db.offsets name, s)
    | .replay cursor limit, s, a =>
      -- a row that does not read back is left out
      statement s a ((s.db.rowsAfter cursor (replayLimit limit)).filterMap fun x =>
        (B.reload x.envelope).toOption.map (StoredEvent.mk x.cursor), s)
    | .begin _ _, s, a =>
      match a with
      | some e => (.error e, s)
      | none => s.begin
    | .handler sub x, s, a =>
      statement s a ((), { s with handled := s.handled ++ [(sub.name, x.cursor)] })
    | .acknowledge sub x, s, a => statement s a ((), s.acknowledge sub x)
    | .rollback, s, _ => ((), s.rollback)
    | .retry sub x _, s, a =>
      statement s a (s.db.retries sub.name x.cursor + 1,
        { s with
          db := s.db.setAttempts sub.name x.cursor (s.db.retries sub.name x.cursor + 1) })
    | .deadLetter sub x msg, s, a =>
      match a with
      | some e => (.error e, s)
      | none => s.deadLetter sub x msg

/-! ### Operations -/

/-- How a body can end without returning: it throws, or it is still waiting. -/
inductive BusError where
  | thrown (message : String)
  | pending
  deriving DecidableEq, Repr

/-- The bus's code, up to its throws. -/
abbrev BusTask (α : Type) := Task interface BusError α

/-- A call whose failure is thrown. -/
def orThrown {α : Type} (p : Prog interface (Except String α)) : BusTask α :=
  ExceptT.mk (p.bind fun
    | .ok a => .pure (.ok a)
    | .error e => .pure (.error (.thrown e)))

namespace BusTask

def insert (e : Envelope) : BusTask (Nat × Bool) := orThrown (Prog.ask (I := interface) (.insert e))

def subscribe (sub : Sub) : BusTask Unit := orThrown (Prog.ask (I := interface) (.subscribe sub))

def unsubscribe (name : String) : BusTask Unit := Task.total (I := interface) (.unsubscribe name)

def nextSub (i : Nat) : BusTask (Option (Nat × Sub)) := Task.total (I := interface) (.nextSub i)

def acquire : BusTask Bool := Task.total (I := interface) .acquire

def release : BusTask Unit := Task.total (I := interface) .release

def offset (name : String) : BusTask Nat := orThrown (Prog.ask (I := interface) (.offset name))

def replay (cursor limit : Nat) : BusTask (List StoredEvent) :=
  orThrown (Prog.ask (I := interface) (.replay cursor limit))

def begin (sub : Sub) (x : StoredEvent) : BusTask Unit :=
  orThrown (Prog.ask (I := interface) (.begin sub x))

def handler (sub : Sub) (x : StoredEvent) : BusTask Unit :=
  orThrown (Prog.ask (I := interface) (.handler sub x))

def acknowledge (sub : Sub) (x : StoredEvent) : BusTask Unit :=
  orThrown (Prog.ask (I := interface) (.acknowledge sub x))

def rollback : BusTask Unit := Task.total (I := interface) .rollback

def retry (sub : Sub) (x : StoredEvent) (msg : String) : BusTask Nat :=
  orThrown (Prog.ask (I := interface) (.retry sub x msg))

def deadLetter (sub : Sub) (x : StoredEvent) (msg : String) : BusTask Unit :=
  orThrown (Prog.ask (I := interface) (.deadLetter sub x msg))

/-- Code that makes no call. -/
def check {α : Type} (x : Except String α) : BusTask α := Task.ofExcept (x.mapError .thrown)

/-- Still waiting. -/
def pending {α : Type} : BusTask α := throw .pending

end BusTask

open BusTask

/-- The part of `process` inside the block that catches. -/
def tryHandle (B : Bus) (sub : Sub) (x : StoredEvent) : BusTask Unit := do
  let wanted ← check (B.isMatch x.envelope sub.options)
  if wanted then handler sub x
  acknowledge sub x

/-- What `process` does with an error it caught. -/
def giveUp (B : Bus) (sub : Sub) (x : StoredEvent) (msg : String) : BusTask Unit := do
  rollback
  let attempts ← retry sub x msg
  if B.maxAttempts ≤ attempts then deadLetter sub x msg else throw (.thrown msg)

def process (B : Bus) (sub : Sub) (x : StoredEvent) : BusTask Unit := do
  let offset ← offset sub.name
  if x.cursor ≤ offset then return ()
  else
    begin sub x
    (tryHandle B sub x).orCatch
      (fun
        | .thrown msg => giveUp B sub x msg
        | .pending => pending)
      pure

/-- `serialized`: wait for the deliveries before this one, and let the next one go on however
this one ends. -/
def serialized (body : BusTask Unit) : BusTask Unit := do
  if ← acquire then
    body.orCatch
      (fun
        | .thrown msg => do
          release
          throw (.thrown msg)
        | .pending => pending)
      fun _ => release
  else pending

/-- The loop of `publish`. What a delivery throws is dropped. -/
def dispatch (B : Bus) (x : StoredEvent) : Nat → Nat → BusTask Unit
  | 0, _ => pending
  | rounds + 1, i => do
    match ← nextSub i with
    | none => return ()
    | some (j, sub) =>
      (serialized (process B sub x)).orCatch
        (fun
          | .thrown _ => dispatch B x rounds (j + 1)
          | .pending => pending)
        fun _ => dispatch B x rounds (j + 1)

def publish (B : Bus) (input : Envelope) (rounds : Nat) : BusTask StoredEvent := do
  let envelope ← check (B.normalize input)
  let (cursor, _) ← insert envelope
  dispatch B ⟨cursor, envelope⟩ rounds 0
  return ⟨cursor, envelope⟩

/-- The rows of one batch, one after the other. -/
def processRows (B : Bus) (sub : Sub) : List StoredEvent → BusTask Unit
  | [] => return ()
  | x :: rows => do
    process B sub x
    processRows B sub rows

/-- `for (;;)`: one batch after the other, until one is not full. -/
def drain (B : Bus) (sub : Sub) : Nat → BusTask Unit
  | 0 => pending
  | rounds + 1 => do
    let offset ← offset sub.name
    let rows ← replay offset B.batchSize
    if rows.isEmpty then return ()
    else
      processRows B sub rows
      if rows.length < B.batchSize then return () else drain B sub rounds

/-- The loop of `deliver`. -/
def deliverFrom (B : Bus) : Nat → Nat → BusTask Unit
  | 0, _ => pending
  | rounds + 1, i => do
    match ← nextSub i with
    | none => return ()
    | some (j, sub) =>
      serialized (drain B sub rounds)
      deliverFrom B rounds (j + 1)

def deliver (B : Bus) (rounds : Nat) : BusTask Unit := deliverFrom B rounds 0

/-! ### Runs -/

/-- An operation with its arguments. -/
inductive Request where
  | publish (input : Envelope) (rounds : Nat)
  | deliver (rounds : Nat)
  | subscribe (sub : Sub)
  | unsubscribe (name : String)

/-- The body of an operation; only `publish` returns something. -/
def serve (B : Bus) : Request → BusTask (Option StoredEvent)
  | .publish input rounds => do return some (← publish B input rounds)
  | .deliver rounds => do
    deliver B rounds
    return none
  | .subscribe sub => do
    BusTask.subscribe sub
    return none
  | .unsubscribe name => do
    BusTask.unsubscribe name
    return none

abbrev BusPool := Pool interface BusState Request (Except BusError (Option StoredEvent))

/-- Any number of operations, interleaved in any way, on a bus over an empty database. -/
def busRun (B : Bus) (es : List (Event interface Request)) : BusPool :=
  (Pool.start {}).run (machine B) (fun r => (serve B r).run) es

end AriOs.Autonomy.Events
