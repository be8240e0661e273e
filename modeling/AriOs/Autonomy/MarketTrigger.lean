import AriOs.Arith.Binary64
import AriOs.Autonomy.EventPayload
import AriOs.Storage.OrderedMap

/-!
# Triggers on market events

The engine turns some events into triggers: each event once, and for each key no more often than
a cooldown allows. With a debounce, an event first waits for a while, and others with its key
that come in the meantime are dropped. What the engine remembers it keeps in memory or in a
database; the two ways are written apart, and everything else is the same code over either.

The differences of clock readings are doubles, so they are rounded.

## Main results

* `Pending.exists_reparse` — what comes back from the database differs in the provenance only
-/

namespace AriOs.Autonomy.Triggers

open AriOs.Arith AriOs.Autonomy.Events AriOs.Js AriOs.Storage

/-! ### Events and settings -/

inductive Finality where
  | notSafe | safe | finalized

structure ChainPosition where
  number : ℤ
  hash : String
  parentHash : String
  finality : Finality

/-- Where an event is from. `others` are the fields that each provider has of its own. -/
structure Provenance where
  provider : String
  observedAt : String
  others : List (String × JsValue)

/-- `EventEnvelope`. -/
structure MarketEvent where
  id : String
  type : String
  version : ℕ
  source : String
  correlationId : String
  causationId : Option String
  occurredAt : String
  block : Option ChainPosition
  provenance : Option Provenance
  payload : JsValue

structure TriggerConfig where
  cooldownMs : Option JsNumber := none
  debounceMs : Option JsNumber := none
  priceAbove : Option JsNumber := none
  volumeAbove : Option JsNumber := none
  liquidityAbove : Option JsNumber := none

/-- What the constructor accepts, with its defaults. -/
structure Settings where
  cooldown : ℚ
  debounce : ℚ
  priceAbove : JsNumber
  volumeAbove : JsNumber
  liquidityAbove : JsNumber
  cooldown_nonneg : 0 ≤ cooldown
  debounce_nonneg : 0 ≤ debounce

/-- Finite and not negative. -/
def isAmount (n : JsNumber) : Bool := n.isFinite && !n.lt (.ofInt 0)

/-- `new MarketTriggerEngine(config)`. -/
def TriggerConfig.new (config : TriggerConfig) : Except String Settings :=
  match config.cooldownMs.getD (.ofInt 0), config.debounceMs.getD (.ofInt 0) with
  | .finite cooldown, .finite debounce =>
    if h : 0 ≤ cooldown ∧ 0 ≤ debounce ∧ config.priceAbove.all isAmount ∧
        config.volumeAbove.all isAmount ∧ config.liquidityAbove.all isAmount then
      .ok {
        cooldown, debounce
        priceAbove := config.priceAbove.getD (.infinity false)
        volumeAbove := config.volumeAbove.getD (.infinity false)
        liquidityAbove := config.liquidityAbove.getD (.infinity false)
        cooldown_nonneg := h.1
        debounce_nonneg := h.2.1 }
    else .error "invalid trigger configuration"
  | _, _ => .error "invalid trigger configuration"

/-- `p.key`. -/
def prop (p : JsValue) (key : String) : Except String JsValue :=
  match p with
  | .null => .error ("Cannot read properties of null (reading '" ++ key ++ "')")
  | .undefined => .error ("Cannot read properties of undefined (reading '" ++ key ++ "')")
  | p => .ok (p.field key)

/-- `a ?? b`. -/
def orElse (a b : JsValue) : JsValue :=
  match a with
  | .undefined | .null => b
  | a => a

/-- The type of trigger for an event whose value has to reach a threshold. -/
def atLeast (threshold : JsNumber) (type : String) (p : JsValue) :
    Except String (Option String) := do
  match ← prop p "value" with
  | .number n => return if n.isFinite && threshold.le n then some type else none
  | _ => return none

/-- The type of trigger an event asks for, if any. -/
def triggerType (s : Settings) (e : MarketEvent) : Except String (Option String) :=
  match e.type with
  | "market.token.launch" => do
    match ← prop e.payload "token" with
    | .string token => return if token ≠ "" then some "trigger.token.launch" else none
    | _ => return none
  | "market.liquidity" => atLeast s.liquidityAbove "trigger.liquidity.threshold" e.payload
  | "market.price" => atLeast s.priceAbove "trigger.price.threshold" e.payload
  | "market.volume" => atLeast s.volumeAbove "trigger.volume.threshold" e.payload
  | "risk.alert" => .ok (some "trigger.risk.alert")
  | "policy.alert" => .ok (some "trigger.policy.alert")
  | _ => .ok none

/-- An event on its way to a trigger. -/
structure Pending where
  start : ℤ
  event : MarketEvent
  type : String
  key : String

/-! ### What the engine remembers -/

/-- A way to remember. -/
structure Store (σ : Type) where
  empty : σ
  /-- Whether an id was seen before; from now on it was. -/
  seen : String → σ → Bool × σ
  getFired : String → σ → Option ℤ
  setFired : String → ℤ → σ → σ
  /-- Unless one with its key is there. -/
  addPending : Pending → σ → σ
  /-- Those that have waited for a debounce by now, which no longer wait. -/
  takeDue : ℚ → ℤ → σ → Except String (List Pending) × σ

/-- The maps and the set of an engine without a database. -/
structure Memory where
  pending : OrderedMap String Pending := .empty
  fired : OrderedMap String ℤ := .empty
  ids : List String := []

def memory : Store Memory where
  empty := {}
  seen id m := if id ∈ m.ids then (true, m) else (false, { m with ids := m.ids ++ [id] })
  getFired key m := m.fired.get key
  setFired key now m := { m with fired := m.fired.set key now }
  addPending p m :=
    if (m.pending.get p.key).isSome then m else { m with pending := m.pending.set p.key p }
  takeDue debounce now m :=
    let due : String × Pending → Bool := fun x => debounce ≤ toDouble (now - x.2.start)
    (.ok ((m.pending.rows.filter due).map Prod.snd), { m with pending := m.pending.delete due })

/-- The tables of an engine with a database. -/
structure Db where
  triggerIds : Table (id : String → String) := .empty
  triggerPending : Table Pending.key := .empty
  triggerFired : OrderedMap String ℤ := .empty

def Provenance.reparse (p : Provenance) : Except String Provenance := do
  let others ← decodeFields (encodeFields p.others)
  return { p with others }

/-- What is read back of an event that was written into the database. Texts and numbers come back
as they were, and so does the number of a block, which is written as a tag. -/
def MarketEvent.reparse (e : MarketEvent) : Except String MarketEvent := do
  let payload ← payloadRead e.payload
  let provenance ← match e.provenance with
    | none => pure none
    | some p => do pure (some (← p.reparse))
  return { e with payload, provenance }

def Pending.reparse (p : Pending) : Except String Pending := do
  let event ← p.event.reparse
  return { p with event }

def sqlite : Store Db where
  empty := {}
  seen id d :=
    match d.triggerIds.insert? id with
    | some triggerIds => (false, { d with triggerIds })
    | none => (true, d)
  getFired key d := d.triggerFired.get key
  setFired key now d := { d with triggerFired := d.triggerFired.set key now }
  addPending p d := { d with triggerPending := (d.triggerPending.insert? p).getD d.triggerPending }
  takeDue debounce now d :=
    let rows := d.triggerPending.rows.filter fun r => (r.start : ℚ) ≤ toDouble (now - debounce)
    match rows.mapM Pending.reparse with
    | .error e => (.error e, d)
    | .ok due =>
      let left := due.foldl (fun t p => t.delete fun r => r.key = p.key) d.triggerPending
      (.ok due, { d with triggerPending := left })

/-! ### Calls -/

/-- What the engine hands out, as far as it does not vary. -/
structure Trigger where
  type : String
  correlationId : String
  causationId : Option String
  payload : JsValue

/-- A trigger, with the event and the key it is for and the time it is from. -/
structure Emission where
  eventId : String
  key : String
  time : ℤ
  trigger : Trigger

/-- The envelope of a trigger; an empty id causes nothing. -/
def Pending.trigger (p : Pending) : Trigger where
  type := p.type
  correlationId := p.event.correlationId
  causationId := if p.event.id = "" then none else some p.event.id
  payload := .object [("trigger", .string p.event.type), ("input", p.event.payload)]

/-- An engine at work: what it remembers, and how often it has read the clock. -/
structure Session (σ : Type) where
  store : σ
  reads : ℕ := 0

inductive Call where
  | evaluate (e : MarketEvent)
  | flush

abbrev Outcome := Except String (List Emission)

section Engine

variable {σ : Type} (S : Store σ) (s : Settings) (text : JsValue → Except String String)
  (clock : ℕ → ℤ)

/-- The key of a trigger. `text` is `String(v)`. -/
def keyOf (type : String) (p : JsValue) : Except String String := do
  let symbol ← prop p "symbol"
  let token ← prop p "token"
  return type ++ ":" ++ (← text (orElse symbol (orElse token (.string ""))))

def emit (p : Pending) (x : Session σ) : List Emission × Session σ :=
  let now := clock x.reads
  let fire : List Emission × Session σ :=
    ([⟨p.event.id, p.key, now, p.trigger⟩], ⟨S.setFired p.key now x.store, x.reads + 1⟩)
  match S.getFired p.key x.store with
  | some last =>
    if toDouble (now - last) < s.cooldown then ([], ⟨x.store, x.reads + 1⟩) else fire
  | none => fire

/-- One after the other. -/
def emitAll : List Pending → Session σ → List Emission × Session σ
  | [], x => ([], x)
  | p :: ps, x =>
    let first := emit S s clock p x
    let rest := emitAll ps first.2
    (first.1 ++ rest.1, rest.2)

def flush (x : Session σ) : Outcome × Session σ :=
  match S.takeDue s.debounce (clock x.reads) x.store with
  | (.error e, store) => (.error e, ⟨store, x.reads + 1⟩)
  | (.ok due, store) =>
    let all := emitAll S s clock due ⟨store, x.reads + 1⟩
    (.ok all.1, all.2)

def evaluate (e : MarketEvent) (x : Session σ) : Outcome × Session σ :=
  match S.seen e.id x.store with
  | (true, store) => (.ok [], { x with store })
  | (false, store) =>
    match triggerType s e with
    | .error err => (.error err, { x with store })
    | .ok none => (.ok [], { x with store })
    | .ok (some type) =>
      match keyOf text type e.payload with
      | .error err => (.error err, { x with store })
      | .ok key =>
        let item : Pending := ⟨clock x.reads, e, type, key⟩
        if 0 < s.debounce then
          flush S s clock ⟨S.addPending item store, x.reads + 1⟩
        else
          let fired := emit S s clock item ⟨store, x.reads + 1⟩
          (.ok fired.1, fired.2)

def serve (x : Session σ) : Call → Outcome × Session σ
  | .evaluate e => evaluate S s text clock e x
  | .flush => flush S s clock x

/-- What each of some calls returns, and the engine after them. -/
def run : List Call → Session σ → List Outcome × Session σ
  | [], x => ([], x)
  | c :: calls, x =>
    let first := serve S s text clock x c
    let rest := run calls first.2
    (first.1 :: rest.1, rest.2)

/-- What a call has handed out. -/
def Outcome.emissions : Outcome → List Emission
  | .ok es => es
  | .error _ => []

/-- All that a new engine hands out over some calls. -/
def emitted (calls : List Call) : List Emission :=
  (run S s text clock calls ⟨S.empty, 0⟩).1.flatMap Outcome.emissions

end Engine

/-! ### Payloads and provenances -/

/-- A value that comes back as it was: one of JSON values and `bigint`s, in which no object is one
that stands for a `bigint`. -/
def Plain (v : JsValue) : Prop := Portable v ∧ EveryObject (fun fields => ¬ LooksTagged fields) v

theorem payloadRead_of_plain {v : JsValue} (h : Plain v) : payloadRead v = .ok v := by
  rw [payloadRead_eq_ok_iff h.1, revived_tagged_iff reviver]
  exact ⟨h.1, (everyObject_congr (fun _ => leftAlone_iff) v).mpr h.2⟩

/-- A provenance that can be read back: no object in it is written as a text under `$bigint` that
`BigInt` does not read. -/
def Provenance.Legible (p : Provenance) : Prop := EveryObjectFields Readable p.others

theorem Provenance.exists_reparse_iff {p : Provenance} :
    (∃ p', p.reparse = .ok p') ↔ p.Legible := by
  rw [Legible, ← everyObjectFields_congr (fun _ => accepted_iff),
    ← exists_revivedFields_iff reviver]
  simp only [reparse, bind_eq_ok, decodeFields_eq_revived, encodeFields_eq_tagged]
  constructor
  · rintro ⟨p', others, hothers, -⟩
    exact ⟨others, hothers⟩
  · rintro ⟨others, hothers⟩
    exact ⟨{ p with others }, others, hothers, rfl⟩

/-- Nothing but the provenance of the event differs. -/
def Pending.Alike (p q : Pending) : Prop :=
  ∃ provenance, q = { p with event := { p.event with provenance } }

theorem Pending.exists_reparse {p : Pending} (hpayload : Plain p.event.payload)
    (hprovenance : ∀ x ∈ p.event.provenance, x.Legible) :
    ∃ q, p.reparse = .ok q ∧ p.Alike q := by
  simp only [reparse, MarketEvent.reparse, payloadRead_of_plain hpayload]
  cases hp : p.event.provenance with
  | none => exact ⟨_, rfl, none, rfl⟩
  | some x =>
    obtain ⟨x', hx⟩ := Provenance.exists_reparse_iff.mpr (hprovenance x hp)
    simp only [hx]
    exact ⟨_, rfl, some x', rfl⟩

/-- A provenance that cannot be read stops the row from being read. -/
theorem Pending.reparse_of_not_legible {p : Pending} {x : Provenance}
    (hx : p.event.provenance = some x) (h : ¬ x.Legible) : ∀ q, p.reparse ≠ .ok q := by
  intro q hq
  cases hread : x.reparse with
  | ok x' => exact h (Provenance.exists_reparse_iff.mp ⟨x', hread⟩)
  | error err =>
    simp only [Pending.reparse, MarketEvent.reparse, hx, hread, bind_eq_ok] at hq
    obtain ⟨_, ⟨_, _, _, ⟨_, herror, _⟩, _⟩, _⟩ := hq

end AriOs.Autonomy.Triggers
