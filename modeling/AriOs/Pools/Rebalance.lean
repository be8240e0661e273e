import AriOs.Async.Pool
import AriOs.Kernel.Contracts
import AriOs.Pools.Intent
import AriOs.Storage.OrderedMap
import AriOs.Storage.RollingWindow

/-!
# Rebalancing a position

The tool that moves the range of a liquidity position: it reads the pool and the position,
decides with four brakes (drift, interval, daily cap, economics), builds the exit, hands it to
the gateway and writes down what was executed. What was executed is kept by a ledger in memory,
which remembers as far back as its window.

The two parts of the tool that call nobody, the decision and the record, are one call each: they
read the clock and the ledger without letting anyone in between.
-/

namespace AriOs.Pools.Rebalance

open AriOs.Async AriOs.Js AriOs.Kernel AriOs.Storage

/-! ### The ledger -/

/-- What the decision is told of the rebalances of a position. -/
structure RebalanceHistory where
  lastAt : Option ℚ
  countInWindow : Nat
  deriving DecidableEq

def EMPTY_HISTORY : RebalanceHistory := ⟨none, 0⟩

def DAY_MS : ℚ := 86400000

/-- The rebalances of each position, oldest first, as far as they are remembered. -/
structure RebalanceLedger where
  windowMs : ℚ
  byPosition : OrderedMap String (List ℚ)

namespace RebalanceLedger

/-- `new RebalanceLedger(windowMs)`. -/
def new (windowMs : ℚ) : RebalanceLedger := ⟨max 1 windowMs.floor, Table.empty⟩

/-- The times kept for a position. -/
def times (l : RebalanceLedger) (positionAddress : String) : List ℚ :=
  (l.byPosition.get positionAddress).getD []

/-- `#prune`: drop the front of a list of times, as it stands in the map. -/
def prune (l : RebalanceLedger) (list : List ℚ) (now : ℚ) : List ℚ :=
  RollingWindow.prune (now - l.windowMs) list

def record (l : RebalanceLedger) (positionAddress : String) (at_ : ℚ) : RebalanceLedger :=
  { l with byPosition :=
      l.byPosition.set positionAddress (l.prune (l.times positionAddress ++ [at_]) at_) }

/-- The history, and the ledger with the position's list pruned. -/
def history (l : RebalanceLedger) (positionAddress : String) (now : ℚ) :
    RebalanceHistory × RebalanceLedger :=
  match l.byPosition.get positionAddress with
  | none => (EMPTY_HISTORY, l)
  | some [] => (EMPTY_HISTORY, l)
  | some list =>
    let list := l.prune list now
    (if list = [] then EMPTY_HISTORY else ⟨list.max?, list.length⟩,
      { l with byPosition := l.byPosition.set positionAddress list })

end RebalanceLedger

/-! ### Bins -/

/-- A range of bins, both ends included. -/
structure BinRange where
  lowerBinId : JsNumber
  upperBinId : JsNumber
  deriving DecidableEq

def MAX_BIN_PER_POSITION : Int := 70
def MAX_BIN_STEP : Int := 400
def MAX_BIN_ID : Int := 351639
def MIN_BIN_ID : Int := -351639

/-- A bin step that is not an integer in range. -/
def assertBinStep (binStep : JsNumber) : Except PoolError Int :=
  match binStep.toBigInt? with
  | some n =>
    if n ≤ 0 ∨ n > MAX_BIN_STEP then
      .error (.other s!"binStep must be an integer in 1..{MAX_BIN_STEP}, got {binStep}")
    else .ok n
  | none => .error (.other s!"binStep must be an integer in 1..{MAX_BIN_STEP}, got {binStep}")

def assertBinId (binId : JsNumber) : Except PoolError Int :=
  match binId.toBigInt? with
  | some n =>
    if n < MIN_BIN_ID ∨ n > MAX_BIN_ID then
      .error (.other s!"binId must be an integer in {MIN_BIN_ID}..{MAX_BIN_ID}, got {binId}")
    else .ok n
  | none => .error (.other s!"binId must be an integer in {MIN_BIN_ID}..{MAX_BIN_ID}, got {binId}")

/-- `(1 + binStep / 10000) ** binId`. -/
def priceOfBin (binId binStep : JsNumber) : Except PoolError ℚ := do
  let step ← assertBinStep binStep
  let id ← assertBinId binId
  return (1 + step / 10000) ^ id

def uiPriceOfBin (binId binStep : JsNumber) (baseDecimals quoteDecimals : Int) :
    Except PoolError ℚ := do
  let price ← priceOfBin binId binStep
  return price * 10 ^ (baseDecimals - quoteDecimals)

/-- Inclusive bin count of a range. -/
def binSpan (lowerBinId upperBinId : JsNumber) : JsNumber :=
  (upperBinId.sub lowerBinId).add (.ofInt 1)

/-- One turn of the loop that makes a range fit, the wider side first. -/
def shrinkStep (cap : Nat) (sides : Nat × Nat) : Nat × Nat :=
  if sides.1 + sides.2 + 1 > cap then
    if sides.1 ≥ sides.2 then (sides.1 - 1, sides.2) else (sides.1, sides.2 - 1)
  else sides

/-- The loop: it ends within `lo + hi` turns, and a turn more changes nothing. -/
def shrink (cap lo hi : Nat) : Nat × Nat := (shrinkStep cap)^[lo + hi] (lo, hi)

/-- A range around the active bin, no wider than a position account holds. -/
def rangeAroundActive (activeBinId below above : JsNumber) : Except PoolError BinRange := do
  let active ← assertBinId activeBinId
  match below.toBigInt?, above.toBigInt? with
  | some lo, some hi =>
    throwIf (lo < 0 ∨ hi < 0)
      (.other s!"below/above must be non-negative integers, got {below}/{above}")
    let fitted := shrink MAX_BIN_PER_POSITION.toNat lo.toNat hi.toNat
    return ⟨.ofInt (max MIN_BIN_ID (active - fitted.1)), .ofInt (min MAX_BIN_ID (active + fitted.2))⟩
  | _, _ => .error (.other s!"below/above must be non-negative integers, got {below}/{above}")

/-- Signed drift of the active bin relative to a range, in bins. -/
def binDrift (range : BinRange) (activeBinId : JsNumber) : JsNumber :=
  if range.upperBinId.lt activeBinId then activeBinId.sub range.upperBinId
  else if activeBinId.lt range.lowerBinId then activeBinId.sub range.lowerBinId
  else .ofInt 0

def isActiveInRange (range : BinRange) (activeBinId : JsNumber) : Bool :=
  range.lowerBinId.le activeBinId && activeBinId.le range.upperBinId

/-- How far through the range the active bin sits; `none` outside of it. -/
def activePositionInRange (range : BinRange) (activeBinId : JsNumber) : Option JsNumber :=
  if ¬ isActiveInRange range activeBinId then none
  else
    let span := binSpan range.lowerBinId range.upperBinId
    if span.le (.ofInt 1) then some (.finite (1 / 2))
    else some ((activeBinId.sub range.lowerBinId).div (span.sub (.ofInt 1)))

/-- `divergenceLossPct`, with the square root of the host. -/
def divergenceLossPct (sqrt : ℚ → ℚ) (priceRatio : JsNumber) : Except PoolError ℚ :=
  match priceRatio with
  | .finite r =>
    if r ≤ 0 then .error (.other s!"priceRatio must be finite and positive, got {priceRatio}")
    else .ok ((2 * sqrt r / (1 + r) - 1) * 100)
  | _ => .error (.other s!"priceRatio must be finite and positive, got {priceRatio}")

/-! ### The decision -/

structure RebalancePolicy where
  driftBins : JsNumber
  edgeTriggerPct : JsNumber
  minIntervalMs : JsNumber
  maxPerDay : JsNumber
  horizonMs : JsNumber
  requireIlRecovery : Bool
  minNetBenefitQuote : Int
  targetBelowBins : JsNumber
  targetAboveBins : JsNumber

def defaultRebalancePolicy : RebalancePolicy where
  driftBins := .ofInt 2
  edgeTriggerPct := .finite (1 / 10)
  minIntervalMs := .ofInt 3600000
  maxPerDay := .ofInt 4
  horizonMs := .ofInt 86400000
  requireIlRecovery := true
  minNetBenefitQuote := 0
  targetBelowBins := .ofInt 10
  targetAboveBins := .ofInt 10

/-- What the decision is told of costs and benefits, in base units of the quote. -/
structure RebalanceEconomics where
  projectedFeesPerDayQuote : Option Int
  txCostQuote : Option Int
  inventorySwapCostQuote : Option Int
  positionNotionalQuote : Option Int
  entryUiPrice : Option JsNumber
  claimableFeesQuote : Int

structure EconomicsBreakdown where
  projectedFeesQuote : Int
  cashCostQuote : Int
  divergenceCostQuote : Int
  netBenefitQuote : Int
  claimableFeesQuote : Int
  divergenceLossPct : Option ℚ
  deriving DecidableEq

structure PoolSummary where
  address : String
  quoteMint : String
  baseDecimals : Int
  quoteDecimals : Int
  levelStepBps : JsNumber
  activeLevel : JsNumber
  activePrice : JsNumber
  baseFeeBps : JsNumber
  feeApr24hPct : Option JsNumber

structure LpPosition where
  poolAddress : String
  owner : String
  baseDecimals : Int
  quoteDecimals : Int
  lowerLevel : JsNumber
  upperLevel : JsNumber
  baseAmount : Int
  quoteAmount : Int
  unclaimedFeeQuote : Int

inductive RebalanceAction where
  | rebalance | hold
  deriving DecidableEq, Repr

structure RebalanceDecision where
  action : RebalanceAction
  code : String
  reason : String
  targetRange : Option BinRange
  currentRange : BinRange
  drift : JsNumber
  rangeFraction : Option JsNumber
  economics : Option EconomicsBreakdown
  deriving DecidableEq

structure RebalanceSubject where
  position : LpPosition
  pool : PoolSummary
  policy : RebalancePolicy
  economics : RebalanceEconomics
  history : RebalanceHistory
  now : ℚ

/-- A decision to leave the position where it is. -/
def hold (code reason : String) (currentRange : BinRange) (drift : JsNumber)
    (rangeFraction : Option JsNumber) (economics : Option EconomicsBreakdown) :
    RebalanceDecision :=
  ⟨.hold, code, reason, none, currentRange, drift, rangeFraction, economics⟩

/-- What the divergence term costs, where the policy asks for it: `none` if it cannot be told. -/
def divergenceCost (sqrt : ℚ → ℚ) (s : RebalanceSubject) :
    Except PoolError (Option (Int × Option ℚ)) :=
  if s.policy.requireIlRecovery then
    match s.economics.positionNotionalQuote, s.economics.entryUiPrice with
    | some notional, some entry =>
      if notional < 0 ∨ ¬ entry.isFinite ∨ entry.le (.ofInt 0) then return none
      else do
        let nowPrice ← uiPriceOfBin s.pool.activeLevel s.pool.levelStepBps s.pool.baseDecimals
          s.pool.quoteDecimals
        let ilPct ← divergenceLossPct sqrt ((JsNumber.finite nowPrice).div entry)
        let lossBps := (JsNumber.finite (|ilPct| * 100)).round.floor?.getD 0
        return some ((notional * lossBps).tdiv 10000, some ilPct)
    | _, _ => return none
  else return some (0, none)

/-- The trade-off; `none` if an input is missing, which is a refusal. -/
def computeEconomics (sqrt : ℚ → ℚ) (s : RebalanceSubject) (targetRange : BinRange) :
    Except PoolError (Option EconomicsBreakdown) :=
  match s.economics.projectedFeesPerDayQuote, s.economics.txCostQuote,
    s.economics.inventorySwapCostQuote with
  | some feesPerDay, some txCost, some swapCost =>
    if feesPerDay < 0 ∨ txCost < 0 ∨ swapCost < 0 then return none
    else if ¬ s.policy.horizonMs.isFinite ∨ s.policy.horizonMs.le (.ofInt 0) then return none
    else do
      let targetSpan := binSpan targetRange.lowerBinId targetRange.upperBinId
      let currentSpan := binSpan s.position.lowerLevel s.position.upperLevel
      let concentration :=
        if (JsNumber.ofInt 0).lt currentSpan ∧ (JsNumber.ofInt 0).lt targetSpan then
          currentSpan.div targetSpan
        else .ofInt 1
      let horizonDays := s.policy.horizonMs.div (.ofInt 86400000)
      let scaled := ((horizonDays.mul concentration).mul (.ofInt 1000000)).round
      let scale ← ((JsNumber.ofInt 0).max scaled).bigInt .other
      let projectedFeesQuote := (feesPerDay * scale).tdiv 1000000
      let cashCostQuote := txCost + swapCost
      match ← divergenceCost sqrt s with
      | none => return none
      | some (divergenceCostQuote, ilPct) =>
        return some ⟨projectedFeesQuote, cashCostQuote, divergenceCostQuote,
          projectedFeesQuote - cashCostQuote - divergenceCostQuote,
          s.economics.claimableFeesQuote, ilPct⟩
  | _, _, _ => return none

/-- `Math.round(ms / 1000)`, as it is written into a reason. -/
def seconds (ms : JsNumber) : JsNumber := (ms.div (.ofInt 1000)).round

/-- The second brake: a last rebalance that is too recent. -/
def tooSoon (policy : RebalancePolicy) (history : RebalanceHistory) (now : ℚ) : Option ℚ :=
  match history.lastAt with
  | some lastAt =>
    if (JsNumber.finite (now - lastAt)).lt policy.minIntervalMs then some (now - lastAt) else none
  | none => none

/-- Economics, the last brake, and the decision to move. -/
def decideEconomics (sqrt : ℚ → ℚ) (s : RebalanceSubject) (currentRange targetRange : BinRange)
    (drift : JsNumber) (rangeFraction : Option JsNumber) : Except PoolError RebalanceDecision := do
  match ← computeEconomics sqrt s targetRange with
  | none =>
    return hold "REBALANCE_UNECONOMIC"
      "economic inputs incomplete (fees, cost or notional unknown) — refusing to rebalance blind"
      currentRange drift rangeFraction none
  | some econ =>
    if econ.netBenefitQuote ≤ 0 ∨ econ.netBenefitQuote < s.policy.minNetBenefitQuote then
      return hold "REBALANCE_UNECONOMIC"
        (s!"projected fees {econ.projectedFeesQuote} do not cover cost {econ.cashCostQuote}" ++
          (if s.policy.requireIlRecovery then s!" + divergence {econ.divergenceCostQuote}"
            else "") ++
          s!" (net {econ.netBenefitQuote})")
        currentRange drift rangeFraction (some econ)
    else
      return ⟨.rebalance, "REBALANCE_OK",
        s!"active bin {s.pool.activeLevel} is " ++
          (if drift = .ofInt 0 then "at the edge of" else s!"{drift.abs} bins outside") ++
          s!" {currentRange.lowerBinId}..{currentRange.upperBinId}; re-centre on " ++
          s!"{targetRange.lowerBinId}..{targetRange.upperBinId} (net +{econ.netBenefitQuote} " ++
          s!"quote over {(s.policy.horizonMs.div (.ofInt 3600000)).round}h)",
        some targetRange, currentRange, drift, rangeFraction, some econ⟩

/-- The brakes that look at the past: interval and daily cap. -/
def limited (s : RebalanceSubject) (currentRange : BinRange) (drift : JsNumber)
    (rangeFraction : Option JsNumber) : Option RebalanceDecision :=
  match tooSoon s.policy s.history s.now with
  | some since =>
    some (hold "REBALANCE_TOO_SOON"
      (s!"last rebalance was {seconds (.finite since)}s ago; minimum interval is " ++
        s!"{seconds s.policy.minIntervalMs}s") currentRange drift rangeFraction none)
  | none =>
    if s.policy.maxPerDay.le (.ofInt s.history.countInWindow) then
      some (hold "REBALANCE_DAILY_CAP"
        (s!"already rebalanced {s.history.countInWindow} times in the last 24h " ++
          s!"(cap {s.policy.maxPerDay})") currentRange drift rangeFraction none)
    else none

/-- The active bin is still inside, but as close to an edge as the policy acts on. -/
def nearEdge (policy : RebalancePolicy) (range : BinRange) : Option JsNumber → Bool
  | some fraction => (JsNumber.ofInt 0).lt policy.edgeTriggerPct &&
      (JsNumber.ofInt 1).lt (binSpan range.lowerBinId range.upperBinId) &&
      (fraction.le policy.edgeTriggerPct ||
        ((JsNumber.ofInt 1).sub policy.edgeTriggerPct).le fraction)
  | none => false

/-- `decideRebalance`. -/
def decideRebalance (sqrt : ℚ → ℚ) (s : RebalanceSubject) : Except PoolError RebalanceDecision :=
  let currentRange : BinRange := ⟨s.position.lowerLevel, s.position.upperLevel⟩
  if ¬ currentRange.lowerBinId.isInteger ∨ ¬ currentRange.upperBinId.isInteger ∨
      currentRange.upperBinId.lt currentRange.lowerBinId then
    return hold "POOL_RANGE_INVALID" "position range is malformed — refusing to act on it"
      currentRange (.ofInt 0) none none
  else if s.position.poolAddress ≠ s.pool.address then
    return hold "POOL_VENUE_ERROR" "position and pool do not match" currentRange (.ofInt 0) none none
  else
    let activeBinId := s.pool.activeLevel
    let drift := binDrift currentRange activeBinId
    let rangeFraction := activePositionInRange currentRange activeBinId
    let exited := s.policy.driftBins.lt drift.abs
    if ¬ exited ∧ ¬ nearEdge s.policy currentRange rangeFraction then
      return hold "REBALANCE_NOT_DRIFTED"
        (if drift = .ofInt 0 then
          s!"active bin {activeBinId} is comfortably inside " ++
            s!"{currentRange.lowerBinId}..{currentRange.upperBinId}"
        else
          s!"active bin drifted {drift} bins, within the {s.policy.driftBins}-bin no-churn band")
        currentRange drift rangeFraction none
    else
      match limited s currentRange drift rangeFraction with
      | some held => return held
      | none => do
        let targetRange ← rangeAroundActive activeBinId s.policy.targetBelowBins
          s.policy.targetAboveBins
        if targetRange = currentRange then
          return hold "REBALANCE_NOT_DRIFTED"
            "target range equals the current range — nothing to do"
            currentRange drift rangeFraction none
        else decideEconomics sqrt s currentRange targetRange drift rangeFraction

/-! ### The tool -/

/-- A venue-built transaction. -/
structure VenueTxDraft where
  unsignedTxBase64 : String
  lastValidBlockHeight : Int
  priorityFeeLamports : JsNumber
  extraSigners : List String

/-- What the tools of the pools share. -/
structure PoolsDeps where
  rebalancePolicy : RebalancePolicy
  maxLevelSpan : JsNumber
  priorityFeeLamports : Option JsNumber
  /-- the host's square root -/
  sqrt : ℚ → ℚ

/-- A call of the tool. -/
structure RebalanceRequest where
  ownerWallet : String
  poolAddress : String
  positionAddress : String
  dryRun : Bool
  entryPrice : Option JsNumber
  idempotencyKey : String
  confirmedByUser : Bool

/-- What the venue is asked to build. -/
structure RemoveRequest where
  poolAddress : String
  positionAddress : String
  owner : String
  bpsToRemove : Int
  claimFees : Bool
  closePosition : Bool
  priorityFeeLamports : JsNumber

/-- `shortAddr`. -/
def shortAddr (addr : String) : String :=
  if addr.length > 10 then
    String.ofList (addr.toList.take 4) ++ "…" ++ String.ofList (addr.toList.drop (addr.length - 4))
  else addr

/-- Every call of the tool. -/
inductive Op where
  | getPoolAndPosition (poolAddress positionAddress ownerWallet : String)
  | history (positionAddress : String)
  | buildRemove (request : RemoveRequest)
  /-- with the position whose exit the intent is -/
  | gatewayExecute (positionAddress : String) (intent : TradeIntent) (opts : ExecuteOptions)
  | record (positionAddress : String)

/-- What came of an intent: what the gateway answers or throws and, for the statements, when the
exit landed, if it did. The tool does not see that. -/
structure Execution where
  result : Except PoolError ExecuteResult
  landedAt : Option ℚ

/-- What the environment contributes: what the venue and the gateway answer or throw, and the
readings of the clock. -/
def Op.Ans : Op → Type
  | getPoolAndPosition _ _ _ => Except PoolError (PoolSummary × Option LpPosition)
  | history _ => ℚ
  | buildRemove _ => Except PoolError VenueTxDraft
  | gatewayExecute _ _ _ => Execution
  | record _ => ℚ

/-- What a look at the ledger yields: the time of the look and the history. How many rebalances
had landed and how many had been recorded by then is for the statements; the tool does not see
it. -/
structure Look where
  now : ℚ
  history : RebalanceHistory
  executed : Nat
  recorded : Nat

/-- What the tool is handed. -/
def Op.Res : Op → Type
  | history _ => Look
  | record _ => Unit
  | o => o.Ans

/-- The calls of the tool. -/
def interface : Interface := ⟨Op, Op.Ans, Op.Res⟩

/-- The ledger in use. -/
structure Desk where
  ledger : RebalanceLedger
  /-- every rebalance that landed so far, oldest first, with its position, and every one that was
  recorded; kept for the statements -/
  executed : List (String × ℚ)
  recorded : List (String × ℚ)
  /-- the latest reading of the clock -/
  clock : ℚ

namespace Desk

/-- A look at the history of a position. -/
def look (s : Desk) (positionAddress : String) (now : ℚ) : Look × Desk :=
  let (history, ledger) := s.ledger.history positionAddress now
  (⟨now, history, s.executed.length, s.recorded.length⟩,
    { s with ledger, clock := max s.clock now })

/-- The exit of a position lands, or nothing does. -/
def land (s : Desk) (positionAddress : String) : Option ℚ → Desk
  | some at_ =>
    { s with executed := s.executed ++ [(positionAddress, at_)], clock := max s.clock at_ }
  | none => s

def record (s : Desk) (positionAddress : String) (now : ℚ) : Desk :=
  { s with
    ledger := s.ledger.record positionAddress now
    recorded := s.recorded ++ [(positionAddress, now)]
    clock := max s.clock now }

end Desk

/-- What each call does to the ledger. -/
def machine : Machine interface Desk where
  handle
    | .getPoolAndPosition _ _ _, s, a => (a, s)
    | .history positionAddress, s, now => s.look positionAddress now
    | .buildRemove _, s, a => (a, s)
    | .gatewayExecute positionAddress _ _, s, x => (x, s.land positionAddress x.landedAt)
    | .record positionAddress, s, now => ((), s.record positionAddress now)

/-- The tool's code, up to its throws. -/
abbrev Tool (α : Type) := Task interface PoolError α

def getPoolAndPosition (r : RebalanceRequest) : Tool (PoolSummary × Option LpPosition) :=
  ExceptT.mk (Prog.ask (I := interface)
    (.getPoolAndPosition r.poolAddress r.positionAddress r.ownerWallet))

/-- `now()` and `ledger.history(positionAddress, now)`. -/
def lookAt (positionAddress : String) : Tool Look :=
  Task.total (I := interface) (.history positionAddress)

def buildRemove (request : RemoveRequest) : Tool VenueTxDraft :=
  ExceptT.mk (Prog.ask (I := interface) (.buildRemove request))

def gatewayExecute (positionAddress : String) (intent : TradeIntent) (opts : ExecuteOptions) :
    Tool ExecuteResult :=
  ExceptT.mk (.call (I := interface) (.gatewayExecute positionAddress intent opts) fun x =>
    .pure (Execution.result x))

/-- `ledger.record(positionAddress, now())`. -/
def record (positionAddress : String) : Tool Unit :=
  Task.perform (I := interface) (.record positionAddress)

/-- `baseValuedInQuote`: nothing, where the price is of no use. -/
def baseValuedInQuote (position : LpPosition) (uiPrice : JsNumber) : Int :=
  if position.baseAmount ≤ 0 then 0
  else
    match uiPrice with
    | .finite price =>
      if price ≤ 0 then 0
      else
        let value := (position.baseAmount / (10 : ℚ) ^ position.baseDecimals) * price *
          (10 : ℚ) ^ position.quoteDecimals
        if value < 0 then 0 else (JsNumber.finite value).round.floor?.getD 0
    | _ => 0

/-- `quoteCostOfLamports`. -/
def quoteCostOfLamports (lamports : Int) (pool : PoolSummary) : Int :=
  if pool.quoteDecimals = 9 then lamports
  else lamports.tdiv (10 ^ (max 0 (9 - pool.quoteDecimals)).toNat)

/-- The economic inputs of the decision. -/
def economicsOf (d : PoolsDeps) (r : RebalanceRequest) (pool : PoolSummary)
    (position : LpPosition) : Except PoolError RebalanceEconomics := do
  let priorityFeeLamports := d.priorityFeeLamports.getD (.ofInt 200000)
  let notionalQuote := position.quoteAmount + baseValuedInQuote position pool.activePrice
  let projectedFeesPerDayQuote := match pool.feeApr24hPct with
    | some (.finite apr) =>
      if 0 ≤ apr then
        some ((notionalQuote * (JsNumber.finite (apr * 1000000)).round.floor?.getD 0).tdiv 100000000)
      else none
    | _ => none
  let fee ← (priorityFeeLamports.add (.ofInt 10000)).bigInt .other
  let baseFee ← ((JsNumber.ofInt 1).max pool.baseFeeBps).bigInt .other
  return {
    projectedFeesPerDayQuote
    txCostQuote := some (quoteCostOfLamports (2 * fee) pool)
    inventorySwapCostQuote := some ((notionalQuote * baseFee).tdiv 10000)
    positionNotionalQuote := some notionalQuote
    entryUiPrice := r.entryPrice
    claimableFeesQuote := position.unclaimedFeeQuote }

/-- `decide`: read the pool and the position, look at the ledger, and decide. -/
def decide (d : PoolsDeps) (r : RebalanceRequest) :
    Tool (PoolSummary × LpPosition × RebalanceDecision) := do
  let (pool, found) ← getPoolAndPosition r
  let position ← Task.ofExcept (orThrow found
    (.guard "POOL_VENUE_ERROR" s!"position {r.positionAddress} not found"))
  Task.ofExcept (throwIf (position.owner ≠ r.ownerWallet)
    (.guard "POOL_VENUE_ERROR" "that position is not owned by this wallet"))
  -- The costs are worked out between the reading of the clock and the decision, with no call in
  -- between; what they throw is thrown after the look.
  let look ← lookAt r.positionAddress
  let economics ← Task.ofExcept (economicsOf d r pool position)
  let decision ← Task.ofExcept (decideRebalance d.sqrt
    ⟨position, pool, d.rebalancePolicy, economics, look.history, look.now⟩)
  pure (pool, position, decision)

/-- `guardLevelRange`. -/
def guardLevelRange (d : PoolsDeps) (target : BinRange) (activeLevel : JsNumber) :
    Except PoolError Unit := do
  throwIf (¬ target.lowerBinId.isInteger) (.guard "POOL_RANGE_INVALID"
    s!"lowerLevel must be an integer level, got {target.lowerBinId}")
  throwIf (¬ target.upperBinId.isInteger) (.guard "POOL_RANGE_INVALID"
    s!"upperLevel must be an integer level, got {target.upperBinId}")
  throwIf (¬ activeLevel.isInteger) (.guard "POOL_RANGE_INVALID"
    s!"activeLevel must be an integer level, got {activeLevel}")
  throwIf (target.upperBinId.lt target.lowerBinId) (.guard "POOL_RANGE_INVALID"
    s!"upperLevel {target.upperBinId} is below lowerLevel {target.lowerBinId}")
  let span := binSpan target.lowerBinId target.upperBinId
  let cap := d.maxLevelSpan.min (.ofInt MAX_BIN_PER_POSITION)
  throwIf (cap.lt span) (.guard "POOL_RANGE_INVALID"
    s!"range spans {span} levels, above the {cap} maximum")

/-- `assertWalletSignableAlone`. -/
def assertWalletSignableAlone (draft : VenueTxDraft) (source : String) : Except PoolError Unit :=
  throwIf (draft.extraSigners.length > 0) (.guard "POOL_EXTRA_SIGNER"
    (s!"{source}: this transaction needs {draft.extraSigners.length} signer(s) beyond the wallet " ++
      "(" ++ String.intercalate ", " draft.extraSigners ++
      "); the kernel signs one key and will not be handed a second"))

/-- The intent of the exit half. -/
def exitIntent (r : RebalanceRequest) (pool : PoolSummary)
    (position : LpPosition) (target : BinRange) (draft : VenueTxDraft) :
    Except PoolError TradeIntent := do
  assertWalletSignableAlone draft "pools_rebalance"
  let input ← withdrawInputLeg ⟨draft.priorityFeeLamports, none, none⟩
  toTradeIntent {
    kind := .lpRebalance
    source := "pools_rebalance"
    input
    outputMint := pool.quoteMint
    outputProvenance := some .untrusted
    unsignedTxBase64 := draft.unsignedTxBase64
    lastValidBlockHeight := draft.lastValidBlockHeight
    priorityFeeLamports := draft.priorityFeeLamports
    summary := s!"Rebalance step 1/2 — exit {shortAddr r.positionAddress} " ++
      s!"(bins {position.lowerLevel}..{position.upperLevel}), then re-open on bins " ++
      s!"{target.lowerBinId}..{target.upperBinId} around active {pool.activeLevel}"
    expectedOut := 0
    minOut := 0
    slippageBps := .ofInt 0 }

/-- `build`: the decision, and the intent where the position is to be moved. -/
def build (d : PoolsDeps) (r : RebalanceRequest) :
    Tool (RebalanceDecision × Option TradeIntent) := do
  let (pool, position, decision) ← decide d r
  if decision.action = .hold ∨ r.dryRun then
    pure (decision, none)
  else
    match decision.targetRange with
    | none => pure (decision, none)
    | some target => do
      Task.ofExcept (guardLevelRange d target pool.activeLevel)
      let draft ← buildRemove ⟨r.poolAddress, r.positionAddress, r.ownerWallet, 10000, true, true,
        d.priorityFeeLamports.getD (.ofInt 200000)⟩
      let intent ← Task.ofExcept (exitIntent r pool position target draft)
      pure (decision, some intent)

/-- What `execute` returns. -/
structure ToolOutcome where
  isError : Bool
  decision : Option RebalanceDecision
  result : Option ExecuteResult

/-- `simulate`: decide and build. -/
def simulate (d : PoolsDeps) (r : RebalanceRequest) : Tool ToolOutcome := do
  let (decision, _) ← build d r
  pure ⟨false, some decision, none⟩

/-- The gateway refused: an error, and no confirmed trade. -/
def Refused (result : ExecuteResult) : Prop := result.error.isSome ∧ result.state ≠ .confirmed

instance (result : ExecuteResult) : Decidable (Refused result) :=
  inferInstanceAs (Decidable (_ ∧ _))

/-- `execute`: decide, build, hand the intent to the gateway, and record what was executed. -/
def execute (d : PoolsDeps) (r : RebalanceRequest) : Tool ToolOutcome := do
  let (decision, built) ← build d r
  match built with
  | none => pure ⟨false, some decision, none⟩
  | some intent => do
    let result ← gatewayExecute r.positionAddress intent
      ⟨r.idempotencyKey, false, r.confirmedByUser⟩
    if Refused result then
      pure ⟨true, none, some result⟩
    else do
      record r.positionAddress
      pure ⟨false, some decision, some result⟩

/-- A call of either kind. -/
inductive Invocation where
  | execute (r : RebalanceRequest)
  | simulate (r : RebalanceRequest)

def Invocation.body (d : PoolsDeps) : Invocation → Prog interface (Except PoolError ToolOutcome)
  | .execute r => (Rebalance.execute d r).run
  | .simulate r => (Rebalance.simulate d r).run

end AriOs.Pools.Rebalance
