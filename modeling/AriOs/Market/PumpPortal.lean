import AriOs.Js.Value

/-!
# The live feed of trades

`PumpPortalWatcher` holds one socket at a time. A socket that closes is replaced after a delay that
grows with every attempt, and one from which nothing arrives is dropped by a watchdog. Listeners of
a socket cannot be removed: each knows the generation it was made in, and does nothing in another.
-/

namespace AriOs.Market.PumpPortal

open AriOs.Js

def MAX_BACKOFF_MS : ℚ := 30000

def STALE_TIMEOUT_MS : ℚ := 60000

/-- `WebSocket.OPEN`. -/
def OPEN : Nat := 1

/-! ### Frames -/

structure TapeTrade where
  mint : String
  solAmount : JsNumber
  isBuy : Bool
  trader : JsValue
  ts : Int
  priceSol : Option JsNumber

/-- A command to the service. -/
structure Command where
  method : String
  keys : Option (List String)
  deriving DecidableEq

def subscribeNewToken : Command := ⟨"subscribeNewToken", none⟩

def subscribeTokenTrade (mint : String) : Command := ⟨"subscribeTokenTrade", some [mint]⟩

def unsubscribeTokenTrade (mint : String) : Command := ⟨"unsubscribeTokenTrade", some [mint]⟩

/-- What a socket is sent, and what callbacks are called with. -/
inductive Output where
  | sent (socket : Nat) (payload : Command)
  | onTrade (t : TapeTrade)
  | onNewToken (mint : String) (launch : JsValue)

/-- A callback is called. -/
def Output.IsCall : Output → Prop
  | .sent .. => False
  | .onTrade _ | .onNewToken .. => True

/-- What the host does with the data of a frame: the text it has, `JSON.parse` and `Number`. Each
may throw. -/
structure Host (δ : Type) where
  text : δ → Option String
  parse : String → Option JsValue
  number : JsValue → Option JsNumber

/-- The callbacks that are given. -/
structure Options where
  onTrade : Bool
  onNewToken : Bool

/-- `a ?? b`. -/
def orElse (a b : JsValue) : JsValue :=
  match a with
  | .undefined | .null => b
  | v => v

/-- The number of a field that may be missing. -/
def price? {δ : Type} (host : Host δ) : JsValue → Option (Option JsNumber)
  | .undefined | .null => some none
  | v => (host.number v).map fun n => if n.isFinite then some n else none

def isUndefined : JsValue → Bool
  | .undefined => true
  | _ => false

/-- `#handleMessage`, with the time it reads; nothing where it throws. -/
def handleMessage {δ : Type} (host : Host δ) (opts : Options) (data : δ) (now : Int) :
    Option Output := do
  let text ← host.text data
  let d ← host.parse text
  let kind := (orElse (d.field "txType") (d.field "type")).text?
  let mint ← (d.field "mint").text?
  if mint = "" then none
  else if (kind = some "buy" ∨ kind = some "sell") ∧
      ¬(isUndefined (d.field "solAmount") ∧ isUndefined (d.field "sol_amount")) then
    let solAmount ← host.number
      (orElse (orElse (d.field "solAmount") (d.field "sol_amount")) (.number (.ofInt 0)))
    if ¬solAmount.isFinite ∨ solAmount.lt (.ofInt 0) then none
    else
      let priceSol ← price? host (d.field "price")
      let trader := orElse (orElse (d.field "traderPublicKey") (d.field "trader")) (.string "")
      if opts.onTrade then
        some (.onTrade ⟨mint, solAmount, kind = some "buy", trader, now, priceSol⟩)
      else none
  else if kind ≠ some "buy" ∧ kind ≠ some "sell" ∧ opts.onNewToken then some (.onNewToken mint d)
  else none

/-! ### The watcher -/

/-- A socket, with the generation its listeners were made in. -/
structure Socket where
  generation : Nat
  readyState : Nat

/-- A timeout or an interval that is set. -/
structure Timer where
  handle : Nat
  delay : ℚ

/-- The watcher's own fields, then the sockets that were created and the timers of the host. Sockets
are known by their positions, timers by their handles. -/
structure Feed where
  ws : Option Nat
  generation : Nat
  stopped : Bool
  attempt : Nat
  reconnectTimer : Option Nat
  staleTimer : Option Nat
  lastMessageAt : Int
  connected : Bool
  tokenSubs : List String
  sockets : List Socket
  timeouts : List Timer
  intervals : List Timer
  handles : Nat

def Feed.new : Feed := ⟨none, 0, false, 0, none, none, 0, false, [], [], [], [], 0⟩

namespace Feed

def subscriptions (s : Feed) : List String := s.tokenSubs

/-- The listeners of a socket may act. -/
def Mine (s : Feed) (k : Nat) : Prop :=
  (s.sockets[k]?).map Socket.generation = some s.generation ∧ s.stopped = false

instance (s : Feed) (k : Nat) : Decidable (s.Mine k) := inferInstanceAs (Decidable (_ ∧ _))

/-- The base of the delay doubles with each attempt up to a maximum; at least half of it passes. -/
def backoff (attempt : Nat) (random : ℚ) : ℚ :=
  let base := min MAX_BACKOFF_MS (1000 * 2 ^ attempt)
  base / 2 + random * (base / 2)

/-- `#scheduleReconnect`, with the number `Math.random()` gives. -/
def scheduleReconnect (s : Feed) (random : ℚ) : Feed :=
  if s.stopped ∨ s.reconnectTimer.isSome then s
  else
    { s with
      attempt := s.attempt + 1
      reconnectTimer := some s.handles
      timeouts := s.timeouts ++ [⟨s.handles, backoff s.attempt random⟩]
      handles := s.handles + 1 }

/-- `#clearReconnect`. -/
def clearReconnect (s : Feed) : Feed :=
  match s.reconnectTimer with
  | none => s
  | some h =>
    { s with timeouts := s.timeouts.filter (·.handle ≠ h), reconnectTimer := none }

/-- `#clearWatchdog`. -/
def clearWatchdog (s : Feed) : Feed :=
  match s.staleTimer with
  | none => s
  | some h => { s with intervals := s.intervals.filter (·.handle ≠ h), staleTimer := none }

/-- `#startWatchdog`. -/
def startWatchdog (s : Feed) : Feed :=
  let s := s.clearWatchdog
  { s with
    staleTimer := some s.handles
    intervals := s.intervals ++ [⟨s.handles, STALE_TIMEOUT_MS / 2⟩]
    handles := s.handles + 1 }

/-- `#connect`. The socket that is created is in some state, or its creation throws. -/
def connect (s : Feed) (created : Option Nat) (random : ℚ) : Feed :=
  if s.stopped then s
  else
    let s := s.clearReconnect
    let s := { s with generation := s.generation + 1 }
    match created with
    | none => s.scheduleReconnect random
    | some readyState =>
      { s with
        sockets := s.sockets ++ [⟨s.generation, readyState⟩]
        ws := some s.sockets.length }

/-- `start`. -/
def start (s : Feed) (created : Option Nat) (random : ℚ) : Feed :=
  let s := { s with stopped := false }
  if s.ws.isSome then s else s.connect created random

/-- `stop`. -/
def stop (s : Feed) : Feed :=
  let s := { s with stopped := true }.clearReconnect.clearWatchdog
  { s with connected := false, ws := none, generation := s.generation + 1 }

/-- `#send`. -/
def send (s : Feed) (payload : Command) : List Output :=
  match s.ws with
  | none => []
  | some k =>
    if (s.sockets[k]?).map Socket.readyState = some OPEN then [.sent k payload] else []

/-- The socket is in another state from now on. -/
def ready (s : Feed) (k readyState : Nat) : Feed :=
  { s with sockets := s.sockets.modify k fun x => { x with readyState } }

/-- The listener of `open`. -/
def opened (s : Feed) (k : Nat) (now : Int) : Feed × List Output :=
  if ¬s.Mine k then (s, [])
  else
    let s := { s with attempt := 0, connected := true, lastMessageAt := now }.startWatchdog
    (s, s.send subscribeNewToken ++
      s.tokenSubs.flatMap fun mint => s.send (subscribeTokenTrade mint))

/-- The listener of `close`. -/
def closed (s : Feed) (k : Nat) (random : ℚ) : Feed :=
  if ¬s.Mine k then s
  else
    let s := { s with connected := false }.clearWatchdog
    let s := if s.ws = some k then { s with ws := none } else s
    s.scheduleReconnect random

/-- The watchdog: a socket from which nothing has arrived for long is dropped. -/
def watchdog (s : Feed) (now : Int) (random : ℚ) : Feed :=
  if s.stopped then s
  else if STALE_TIMEOUT_MS < now - s.lastMessageAt then
    let s' := { s.clearWatchdog with connected := false }
    let s' := if s.ws.isSome then { s' with ws := none, generation := s'.generation + 1 } else s'
    s'.scheduleReconnect random
  else s

end Feed

/-! ### What happens -/

/-- What happens, with what the clock, the source of random numbers and the creation of a socket
give where they are asked. Events of a socket come at any time, whatever became of it; that a socket
is told to close shows in its state only, which may change at any time. -/
inductive Event (δ : Type) where
  | start (created : Option Nat) (random : ℚ)
  | stop
  | subscribeTokenTrade (mint : String)
  | unsubscribeTokenTrade (mint : String)
  /-- the socket is open from now on, and its listener is told -/
  | opened (socket : Nat) (now : Int)
  /-- a frame arrives; the clock is read twice -/
  | message (socket : Nat) (data : δ) (now ts : Int)
  | closed (socket : Nat) (random : ℚ)
  | error (socket : Nat)
  /-- the state of a socket changes and no listener is told -/
  | ready (socket readyState : Nat)
  /-- the time of a timeout has come -/
  | timeout (timer : Nat) (created : Option Nat) (random : ℚ)
  /-- the time of an interval has come -/
  | interval (timer : Nat) (now : Int) (random : ℚ)

variable {δ : Type} (host : Host δ) (opts : Options)

/-- What an event does, and what it gives out. -/
def handle (s : Feed) : Event δ → Feed × List Output
  | .start created random => (s.start created random, [])
  | .stop => (s.stop, [])
  | .subscribeTokenTrade mint =>
    let s := { s with
      tokenSubs := if mint ∈ s.tokenSubs then s.tokenSubs else s.tokenSubs ++ [mint] }
    (s, s.send (subscribeTokenTrade mint))
  | .unsubscribeTokenTrade mint =>
    let s := { s with tokenSubs := s.tokenSubs.filter (· ≠ mint) }
    (s, s.send (unsubscribeTokenTrade mint))
  | .opened k now => (s.ready k OPEN).opened k now
  | .message k data now ts =>
    if ¬s.Mine k then (s, [])
    else ({ s with lastMessageAt := now }, (handleMessage host opts data ts).toList)
  | .closed k random => (s.closed k random, [])
  -- a `close` follows and drives the reconnect
  | .error _ => (s, [])
  | .ready k readyState => (s.ready k readyState, [])
  | .timeout h created random =>
    -- a timeout that was cleared does not fire
    if h ∈ s.timeouts.map Timer.handle then
      let s := { s with timeouts := s.timeouts.filter (·.handle ≠ h), reconnectTimer := none }
      (s.connect created random, [])
    else (s, [])
  | .interval h now random =>
    if h ∈ s.intervals.map Timer.handle then (s.watchdog now random, []) else (s, [])

def step (s : Feed) (e : Event δ) : Feed := (handle host opts s e).1

end AriOs.Market.PumpPortal
