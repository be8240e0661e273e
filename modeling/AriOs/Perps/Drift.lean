import AriOs.Js.Numeral
import AriOs.Js.Throw
import AriOs.Kernel.Contracts
import Mathlib.Data.List.DropRight

/-!
# Positions at the Drift venue

The venue reads a user account and turns each of its perp positions into one of the domain's,
priced at the oracle of its market. The client of the venue's SDK is a parameter: every call of it
may fail, and every number it returns is whatever its `toString` says.
-/

namespace AriOs.Perps

open AriOs.Js AriOs.Kernel

/-! ### The SDK -/

/-- A big number of the SDK; its `toString` is the only member that is relied on. -/
structure Bn where
  text : Except String String

structure DriftOraclePriceData where
  price : Option Bn

structure DriftAmm where
  baseAssetAmountStepSize : Option Bn
  minOrderSize : Option Bn
  orderStepSize : Option Bn

structure DriftPerpMarketAccount where
  marketIndex : Nat
  /-- ASCII bytes, space padded -/
  name : List JsNumber
  /-- the single key of the status object -/
  status : Option String
  marginRatioInitial : JsNumber
  marginRatioMaintenance : JsNumber
  amm : DriftAmm

structure DriftPerpPosition where
  marketIndex : Nat
  /-- signed: negative is short -/
  baseAssetAmount : Option Bn
  quoteEntryAmount : Option Bn
  quoteAssetAmount : Option Bn

structure DriftUser where
  /-- the positions of the user account -/
  getUserAccount : Except String (List DriftPerpPosition)
  getTotalCollateral : Except String (Option Bn)
  liquidationPrice : Nat → Except String (Option Bn)

/-- What the client answers to the calls that read. -/
structure DriftClient where
  getPerpMarketAccounts : Except String (List DriftPerpMarketAccount)
  getOracleDataForPerpMarket : Nat → Except String DriftOraclePriceData
  getUser : Int → Except String DriftUser

def BASE_PRECISION : Int := 1000000000
def QUOTE_PRECISION : Int := 1000000
def PRICE_PRECISION : Int := 1000000
def MARGIN_PRECISION : Int := 10000
def BASE_DECIMALS : Nat := 9
def QUOTE_DECIMALS : Nat := 6
def DRIFT_VENUE_ID : String := "drift"
def DEFAULT_TAKER_FEE_BPS : JsNumber := .ofInt 10

def bnToBigInt (value : Option Bn) : Option Int := do
  let bn ← value
  let text ← bn.text.toOption
  bigInt? text

def bnToNumber (value : Option Bn) (precision : Int) : Option JsNumber := do
  let raw ← bnToBigInt value
  let n := (JsNumber.ofBigInt raw).div (.ofBigInt precision)
  if n.isFinite then some n else none

/-- A character of a market name; other codes than those of ASCII are left out. -/
def nameChar (c : JsNumber) : Option Char := do
  let code ← c.toBigInt?
  if 0 < code ∧ code < 128 then some (Char.ofNat code.toNat) else none

def decodeMarketName (name : List JsNumber) : Option String :=
  let s := trim (name.filterMap nameChar)
  if s = [] then none else some (String.ofList (s.map Char.toUpper))

/-! ### Markets -/

inductive PerpMarketStatus where
  | active | reduceOnly | halted | unknown
  deriving DecidableEq, Repr

/-- A status that is not known is no status to trade in. -/
def driftMarketStatus : Option String → PerpMarketStatus
  | some "active" => .active
  | some "reduceOnly" => .reduceOnly
  | some key =>
    if key ∈ ["initialized", "paused", "fillPaused", "ammPaused", "fundingPaused",
      "withdrawPaused", "settlement", "delisted"] then .halted else .unknown
  | none => .unknown

/-- The domain wants a fraction, from zero up to but not including one. -/
def marginRatioToFraction (ratio : JsNumber) : Option ℚ := do
  let r ← ratio.toBigInt?
  let f : ℚ := r / MARGIN_PRECISION
  if 0 ≤ r ∧ 0 ≤ f ∧ f < 1 then some f else none

def maxLeverageFromInitialMargin (initial : ℚ) : Option ℚ :=
  if initial ≤ 0 then none else some (1 / initial)

structure PerpMarket where
  venue : String
  symbol : String
  venueMarketIndex : Nat
  baseSymbol : String
  baseDecimals : Nat
  quoteSymbol : String
  quoteDecimals : Nat
  minBaseAmount : Int
  baseStep : Int
  maxLeverage : ℚ
  initialMarginRatio : ℚ
  maintenanceMarginRatio : ℚ
  takerFeeBps : JsNumber
  status : PerpMarketStatus

def baseSymbolOf (symbol : String) : String :=
  if "-PERP".toList <:+ symbol.toList then String.ofList (symbol.toList.rdrop 5) else symbol

/-- A market account as a market; where something is missing that matters, the problem. -/
def toPerpMarket (account : DriftPerpMarketAccount) (takerFeeBps : JsNumber) :
    Except String PerpMarket := do
  let symbol ← orThrow (decodeMarketName account.name)
    s!"market {account.marketIndex} has no decodable name"
  let initial ← orThrow (marginRatioToFraction account.marginRatioInitial)
    s!"{symbol}: unusable margin ratios"
  let maintenance ← orThrow (marginRatioToFraction account.marginRatioMaintenance)
    s!"{symbol}: unusable margin ratios"
  let maxLeverage ← orThrow (maxLeverageFromInitialMargin initial)
    s!"{symbol}: unusable initial margin ratio"
  let step := (bnToBigInt (account.amm.orderStepSize.or account.amm.baseAssetAmountStepSize)).getD 0
  let minSize := (bnToBigInt account.amm.minOrderSize).getD step
  .ok {
    venue := DRIFT_VENUE_ID, symbol, venueMarketIndex := account.marketIndex
    baseSymbol := baseSymbolOf symbol, baseDecimals := BASE_DECIMALS
    quoteSymbol := "USDC", quoteDecimals := QUOTE_DECIMALS
    minBaseAmount := if minSize > 0 then minSize else 0
    baseStep := if step > 0 then step else 1
    maxLeverage, initialMarginRatio := initial, maintenanceMarginRatio := maintenance, takerFeeBps
    status := driftMarketStatus account.status }

/-! ### Positions -/

inductive PerpSide where
  | long | short
  deriving DecidableEq, Repr

structure TokenAmount where
  mint : String
  amount : Int
  decimals : Nat
  deriving DecidableEq, Repr

def quoteAmount (amount : Int) : TokenAmount := ⟨USDC_MINT, amount, QUOTE_DECIMALS⟩

structure PerpPosition where
  venue : String
  symbol : String
  side : PerpSide
  /-- absolute: the side carries the direction -/
  baseAmount : Int
  baseDecimals : Nat
  entryPrice : JsNumber
  markPrice : JsNumber
  notional : TokenAmount
  collateral : TokenAmount
  unrealizedPnl : Int
  liquidationPrice : Option JsNumber
  leverage : JsNumber
  deriving DecidableEq

structure PerpAccountRef where
  owner : String
  subAccountId : Int

/-- Absolute size and side of a signed position. -/
def splitSignedBase (signed : Int) : PerpSide × Int :=
  if signed < 0 then (.short, -signed) else (.long, signed)

def notionalQuoteUnits (baseUnits price : Int) : Int :=
  ((if baseUnits < 0 then -baseUnits else baseUnits) * price).tdiv BASE_PRECISION

/-- A price; negative means there is none. -/
def priceFrom (value : Option Bn) : Option JsNumber := do
  let raw ← bnToBigInt value
  if raw < 0 then none else bnToNumber value PRICE_PRECISION

/-- An SDK call; its failure becomes one of the venue. -/
def call {α : Type} (answer : Except String α) (what : String) : Except String α :=
  answer.mapError fun err => s!"{what} failed: {err}"

/-- The price of an oracle, in units and as a number, if it can be used. -/
def usablePrice (oracle : DriftOraclePriceData) : Option (Int × JsNumber) := do
  let units ← bnToBigInt oracle.price
  let mark ← priceFrom oracle.price
  if mark.le (.ofInt 0) then none else some (units, mark)

variable (client : DriftClient)

/-- The markets that can be converted; the others are dropped. -/
def listMarkets (takerFeeBps : Option JsNumber) : Except String (List PerpMarket) := do
  let accounts ← call client.getPerpMarketAccounts "getPerpMarketAccounts"
  .ok (accounts.filterMap fun account =>
    (toPerpMarket account (takerFeeBps.getD DEFAULT_TAKER_FEE_BPS)).toOption)

/-- A position as the domain has it. -/
def perpPosition (user : DriftUser) (raw : DriftPerpPosition) (market : PerpMarket) (signed : Int)
    (priceUnits : Int) (markPrice : JsNumber) : PerpPosition :=
  let (side, magnitude) := splitSignedBase signed
  let notionalUnits := notionalQuoteUnits magnitude priceUnits
  let quoteEntry := (bnToBigInt raw.quoteEntryAmount).getD 0
  let entryPrice : JsNumber :=
    if magnitude > 0 then
      ((JsNumber.ofBigInt quoteEntry).div (.ofBigInt QUOTE_PRECISION)).abs.div
        ((JsNumber.ofBigInt magnitude).div (.ofBigInt BASE_PRECISION))
    else .ofInt 0
  let collateralUnits := (user.getTotalCollateral.toOption.bind bnToBigInt).getD 0
  let leverage : JsNumber :=
    if collateralUnits > 0 then (JsNumber.ofBigInt notionalUnits).div (.ofBigInt collateralUnits)
    else .ofInt 0
  { venue := DRIFT_VENUE_ID, symbol := market.symbol, side, baseAmount := magnitude
    baseDecimals := market.baseDecimals
    entryPrice := if entryPrice.isFinite ∧ (JsNumber.ofInt 0).lt entryPrice then entryPrice
      else markPrice
    markPrice, notional := quoteAmount notionalUnits, collateral := quoteAmount collateralUnits
    unrealizedPnl := (bnToBigInt raw.quoteAssetAmount).getD 0 +
      (signed * priceUnits).tdiv BASE_PRECISION
    liquidationPrice := (user.liquidationPrice raw.marketIndex).toOption.bind priceFrom
    leverage := if leverage.isFinite then leverage else .ofInt 0 }

/-- One position of the account. One without a base amount, without a market or without a price is
passed over. -/
def positionOf (user : DriftUser) (markets : List PerpMarket) (raw : DriftPerpPosition) :
    Except String (Option PerpPosition) :=
  match (bnToBigInt raw.baseAssetAmount).filter (· ≠ 0) with
  | none => .ok none
  | some signed =>
    match markets.find? (·.venueMarketIndex = raw.marketIndex) with
    | none => .ok none
    | some market => do
      let oracle ← call (client.getOracleDataForPerpMarket raw.marketIndex)
        "getOracleDataForPerpMarket"
      .ok ((usablePrice oracle).map fun price =>
        perpPosition user raw market signed price.1 price.2)

/-- `getPositions`; before the venue is connected there is no client. -/
def getPositions (client : Option DriftClient) (takerFeeBps : Option JsNumber)
    (account : PerpAccountRef) : Except String (List PerpPosition) := do
  let client ← orThrow client "DriftVenue.connect() must be awaited before use"
  let user ← call (client.getUser account.subAccountId) "getUser"
  let raws ← call user.getUserAccount "getUserAccount"
  let markets ← listMarkets client takerFeeBps
  let positions ← raws.mapM (positionOf client user markets)
  .ok positions.reduceOption

end AriOs.Perps
