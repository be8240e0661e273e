import AriOs.Tools.Registry
import AriOs.Async.Outcome

/-!
# The tools of the agent

Which tools the program registers, and what they do. The tools of the venues declare what they are
capable of and have two entry points: one builds an intent and stops, the other one hands it to the
trade gateway. The bridge registers such a tool twice, and takes what a model must not choose from
the runtime: the idempotency key, and whether a human has confirmed.

What the tools read, quote and record is the environment, and so are the schemas of their
configurations; what moves value are calls of their own.
-/

namespace AriOs.Tools

open AriOs.Async AriOs.Js

/-! ### Calls -/

/-- What the tools call. -/
inductive ToolOp where
  /-- `runtime.context` -/
  | context
  | newIdempotencyKey
  /-- `runtime.confirmedByUser`; where there is none, the answer is no -/
  | confirmedByUser (tool : String) (config : JsValue)
  /-- a venue, a market source or a ledger is asked -/
  | read (what : JsValue)
  | now
  /-- `ctx.gateway.execute` -/
  | execute (intent : JsValue) (idempotencyKey : String) (confirmedByUser : Bool)
  /-- `trading.quote` -/
  | quote (request : JsValue)
  /-- `trading.execute` -/
  | trade (quoteId : JsValue) (options : JsValue)

def ToolOp.Ans : ToolOp → Type
  | context => Except String Unit
  | newIdempotencyKey => String
  | confirmedByUser _ _ => Except String Bool
  | now => JsNumber
  | read _ | execute _ _ _ | quote _ | trade _ _ => Except String JsValue

/-- The calls of the tools. -/
def tooling : Interface := ⟨ToolOp, ToolOp.Ans, ToolOp.Ans⟩

/-- The environment answers. -/
def toolMachine : Machine tooling Unit := ⟨fun _ _ a => (a, ())⟩

/-- A call that may be rejected. -/
def called {α : Type} (x : Task tooling String (Except String α)) : Task tooling String α := do
  match ← x with
  | .ok a => return a
  | .error message => throw message

/-- Code that only reads. -/
abbrev Reading (α : Type) :=
  Task ⟨JsValue, fun _ => Except String JsValue, fun _ => Except String JsValue⟩ String α

/-- Such code, in a tool. -/
def reading {α : Type} (x : Reading α) : Task tooling String α :=
  x.interpret fun what => Prog.ask (I := tooling) (.read what)

/-- A configuration's schema: the details of a refusal, or the parsed value. -/
abbrev Schema := JsValue → Except JsValue JsValue

/-- `wrap`. -/
def wrap (source : String) (data : JsValue) : Task tooling String JsValue := do
  let observedAt ← Task.total (I := tooling) .now
  return .object [("data", data), ("provenance",
    .object [("observedAt", .number observedAt), ("source", .string source)])]

/-! ### The tools of the venues -/

namespace TRADING_CAPABILITIES

def MARKET_DATA := "trading:market-data"
def PORTFOLIO_READ := "trading:portfolio-read"
def RISK_ANALYSIS := "trading:risk-analysis"
def ORDER_SIMULATE := "trading:order-simulate"
def ORDER_WRITE := "trading:order-write"
def POSITION_WRITE := "trading:position-write"

end TRADING_CAPABILITIES

open TRADING_CAPABILITIES

inductive ToolCapability where
  | read | sign | spend | network | readState | writeState
  deriving DecidableEq, Repr

inductive ToolCategory where
  | data | swap | perps | lending | lp | launchpad | staking | nft | wallet | notify
  deriving DecidableEq, Repr

structure ToolExecOptions where
  idempotencyKey : String
  confirmedByUser : Bool

structure ToolOutcome where
  isError : Bool
  text : String
  data : JsValue

structure IntentToolDefinition where
  name : String
  category : ToolCategory
  capabilities : List ToolCapability
  idempotent : Bool
  configSchema : Schema
  simulate : JsValue → Task tooling String JsValue
  execute : JsValue → ToolExecOptions → Task tooling String ToolOutcome

/-- `movesValue`. -/
def movesValue (caps : List ToolCapability) : Bool := caps.contains .sign || caps.contains .spend

/-- What a tool needs, on its two surfaces. -/
def capabilityFor (tool : IntentToolDefinition) (preview : Bool) : String :=
  if preview then ORDER_SIMULATE
  else if !movesValue tool.capabilities then
    if tool.capabilities.contains .readState then PORTFOLIO_READ else MARKET_DATA
  else if tool.category = .perps then POSITION_WRITE
  else ORDER_WRITE

/-- What a tool that reads is made of. -/
structure ReadBackend where
  configSchema : Schema
  simulate : JsValue → Reading JsValue
  execute : JsValue → Reading ToolOutcome

/-- A tool that only reads, or that builds a proposal and hands it back. -/
def makeReadTool (name : String) (category : ToolCategory) (capabilities : List ToolCapability)
    (idempotent : Bool) (b : ReadBackend) : IntentToolDefinition where
  name := name
  category := category
  capabilities := capabilities
  idempotent := idempotent
  configSchema := b.configSchema
  simulate cfg := reading (b.simulate cfg)
  execute cfg _ := reading (b.execute cfg)

/-- What the `build` of a tool returns. -/
inductive Built where
  /-- nothing is to be done, or another tool is to do it -/
  | nothing (outcome : ToolOutcome) (preview : JsValue)
  /-- an intent, and what is said of its execution -/
  | intent (intent preview : JsValue) (report : JsValue → Reading ToolOutcome)

def Built.preview : Built → JsValue
  | nothing _ preview | intent _ preview _ => preview

structure SpendBackend where
  configSchema : Schema
  build : JsValue → Reading Built

/-- A tool that builds an intent and hands it to the gateway. -/
def makeSpendTool (name : String) (category : ToolCategory) (b : SpendBackend) :
    IntentToolDefinition where
  name := name
  category := category
  capabilities := [.sign, .spend, .network]
  idempotent := false
  configSchema := b.configSchema
  simulate cfg := do return (← reading (b.build cfg)).preview
  execute cfg opts := do
    match ← reading (b.build cfg) with
    | .nothing outcome _ => return outcome
    | .intent intent _ report =>
      let r ← called (Task.total (I := tooling)
        (.execute intent opts.idempotencyKey opts.confirmedByUser))
      reading (report r)

/-- The tools of the perps. None of them executes. -/
structure PerpsToolDeps where
  markets : ReadBackend
  positions : ReadBackend
  openPosition : ReadBackend
  closePosition : ReadBackend
  adjustPosition : ReadBackend

def createPerpsTools (d : PerpsToolDeps) : List IntentToolDefinition :=
  [makeReadTool "perps_markets" .perps [.read, .readState, .network] true d.markets,
    makeReadTool "perps_positions" .perps [.read, .readState, .network] true d.positions,
    makeReadTool "perps_open" .perps [.sign, .spend, .network] false d.openPosition,
    makeReadTool "perps_close" .perps [.sign, .spend, .network] false d.closePosition,
    makeReadTool "perps_adjust" .perps [.sign, .spend, .network] false d.adjustPosition]

/-- The tools of the pools and the bonding curves. -/
structure PoolsDeps where
  list : ReadBackend
  position : ReadBackend
  curve : ReadBackend
  openPosition : SpendBackend
  rebalance : SpendBackend
  closePosition : SpendBackend
  buy : SpendBackend
  sell : SpendBackend

def makePoolsTools (d : PoolsDeps) : List IntentToolDefinition :=
  [makeReadTool "pools_list" .lp [.read, .network] true d.list,
    makeReadTool "pools_position" .lp [.read, .readState, .network] true d.position,
    makeReadTool "pumpfun_curve" .launchpad [.read, .network] true d.curve,
    makeSpendTool "pools_open" .lp d.openPosition,
    makeSpendTool "pools_rebalance" .lp d.rebalance,
    makeSpendTool "pools_close" .lp d.closePosition,
    makeSpendTool "pumpfun_buy" .launchpad d.buy,
    makeSpendTool "pumpfun_sell" .launchpad d.sell]

/-! ### The bridge -/

section Registration

variable (envelope : Schema)

/-- A tool that is always available. -/
def alwaysAvailable : JsValue → Except String Availability := fun _ => .ok ⟨true, none⟩

/-- The surface of a tool that executes. -/
def executeTool (tool : IntentToolDefinition) : ToolDefinition tooling where
  name := tool.name
  capabilities := [capabilityFor tool false]
  effect := if movesValue tool.capabilities then .trade else .read
  parallelSafe := !movesValue tool.capabilities && tool.idempotent
  inputSchema := tool.configSchema
  outputSchema := envelope
  availability := alwaysAvailable
  execute config := do
    called (Task.total (I := tooling) .context)
    let idempotencyKey ← Task.total (I := tooling) .newIdempotencyKey
    let confirmedByUser ← called (Task.total (I := tooling) (.confirmedByUser tool.name config))
    let outcome ← tool.execute config ⟨idempotencyKey, confirmedByUser⟩
    if outcome.isError then throw outcome.text
    wrap tool.name (.object [("text", .string outcome.text), ("result", outcome.data)])

/-- The surface of a tool that previews. -/
def previewTool (tool : IntentToolDefinition) : ToolDefinition tooling where
  name := tool.name ++ ".preview"
  capabilities := [capabilityFor tool true]
  effect := .read
  parallelSafe := true
  inputSchema := tool.configSchema
  outputSchema := envelope
  availability := alwaysAvailable
  execute config := do
    called (Task.total (I := tooling) .context)
    let preview ← tool.simulate config
    wrap (tool.name ++ ".preview") preview

/-- `registerIntentTool`. -/
def registerIntentTool (R : ToolRegistry tooling) (tool : IntentToolDefinition) :
    Except String (ToolRegistry tooling) := do
  let R ← R.register (executeTool envelope tool)
  if movesValue tool.capabilities then R.register (previewTool envelope tool) else return R

/-- `registerIntentTools`. -/
def registerIntentTools (R : ToolRegistry tooling) (tools : List IntentToolDefinition) :
    Except String (ToolRegistry tooling) :=
  tools.foldlM (registerIntentTool envelope) R

structure VenueMounts where
  perps : Option PerpsToolDeps
  pools : Option PoolsDeps

/-- `registerVenueTools`. -/
def registerVenueTools (R : ToolRegistry tooling) (mounts : VenueMounts) :
    Except String (ToolRegistry tooling) := do
  let R ← registerIntentTools envelope R ((mounts.perps.map createPerpsTools).getD [])
  registerIntentTools envelope R ((mounts.pools.map makePoolsTools).getD [])

/-! ### The built-in tools -/

/-- What the built-in tools are made of, by their names. They have an envelope of their own. -/
structure BuiltInDependencies where
  input : String → Schema
  output : Schema
  backend : String → Option (JsValue → Reading JsValue)
  venues : Option VenueMounts

/-- The `reg` of one built-in tool. -/
def builtInTool (d : BuiltInDependencies) (name : String) (effect : ToolEffect)
    (capability : String) : ToolDefinition tooling where
  name := name
  capabilities := [capability]
  effect := effect
  parallelSafe := effect = .read
  inputSchema := d.input name
  outputSchema := d.output
  availability _ := .ok <| if (d.backend name).isSome then ⟨true, none⟩
    else ⟨false, some (name ++ " backend is not configured")⟩
  execute x := match d.backend name with
    | some fn => do wrap name (← reading (fn x))
    | none => throw (name ++ " backend is not configured")

/-- The names of the market tools. -/
def marketTools : List String :=
  ["market.networks", "market.search", "market.trending", "market.new-pairs", "market.token",
    "market.pair", "market.ohlcv", "market.trades", "market.holders"]

def builtInTools (d : BuiltInDependencies) : List (ToolDefinition tooling) :=
  (marketTools.map fun name => builtInTool d name .read MARKET_DATA) ++
    [builtInTool d "risk.analyze" .read RISK_ANALYSIS,
      builtInTool d "simulation.transaction" .trade ORDER_SIMULATE]

/-- `registerBuiltInTools`. -/
def registerBuiltInTools (R : ToolRegistry tooling) (d : BuiltInDependencies) :
    Except String (ToolRegistry tooling) := do
  let R ← (builtInTools d).foldlM ToolRegistry.register R
  match d.venues with
  | some mounts => registerVenueTools envelope R mounts
  | none => return R

/-! ### The tools of the orchestrator -/

/-- The schemas of the trading tools. -/
structure TradingSchemas where
  input : Schema
  output : Schema
  status : Schema

def tradeTool (schemas : TradingSchemas) (side : String) : ToolDefinition tooling where
  name := "trade." ++ side
  capabilities := [ORDER_WRITE]
  effect := .trade
  parallelSafe := false
  inputSchema := schemas.input
  outputSchema := schemas.output
  availability := alwaysAvailable
  execute x := do
    let q ← called (Task.total (I := tooling) (.quote (.object
      [("side", .string side), ("inputMint", x.field "inputMint"),
        ("outputMint", x.field "outputMint"), ("amountIn", x.field "amountIn"),
        ("slippageBps", x.field "slippageBps")])))
    called (Task.total (I := tooling) (.trade (q.field "id") (.object
      [("idempotencyKey", x.field "idempotencyKey"), ("actor", .string "agent-tool"),
        ("dryRun", x.field "dryRun")])))

def statusTool (schemas : TradingSchemas) : ToolDefinition tooling where
  name := "trade.status"
  capabilities := [PORTFOLIO_READ]
  effect := .read
  parallelSafe := true
  inputSchema := schemas.status
  outputSchema := schemas.output
  availability := alwaysAvailable
  execute x := called (Task.total (I := tooling) (.read (.object [("status", x.field "id")])))

/-- `registerTradingTools`. -/
def registerTradingTools (schemas : TradingSchemas) (R : ToolRegistry tooling) :
    Except String (ToolRegistry tooling) :=
  [tradeTool schemas "buy", tradeTool schemas "sell", statusTool schemas].foldlM
    ToolRegistry.register R

/-- The registry that the application is composed with. -/
def createRegistry (d : BuiltInDependencies) (trading : Option TradingSchemas) :
    Except String (ToolRegistry tooling) := do
  let R ← registerBuiltInTools envelope .empty d
  match trading with
  | some schemas => registerTradingTools schemas R
  | none => return R

end Registration

/-- What every client of the stdio server may do. -/
def MCP_CAPABILITIES : List String :=
  [MARKET_DATA, RISK_ANALYSIS, ORDER_SIMULATE, PORTFOLIO_READ]

end AriOs.Tools
