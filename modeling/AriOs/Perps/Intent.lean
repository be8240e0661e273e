import AriOs.Perps.Liquidation

/-!
# Perp intents

The perp half of an intent and the check of its shape, which runs before any policy is compared.
What the types of the source exclude is excluded by the types here.

## Main results

* `Shaped`, `shaped_of_assertPerpIntentShape` — what the guards may rely on
-/

namespace AriOs.Perps

open AriOs.Js AriOs.Kernel

inductive PerpGuardCode where
  | perpsDisabled | killSwitch | windDownOnly | invalidPerpIntent | marketDenied
  | marketNotTradeable | collateralMintDenied | collateralNotCappable | leverageExceeded
  | collateralCapExceeded | notionalCapExceeded | portfolioExposureExceeded
  | positionCountExceeded | exposureUnknown | liquidationTooClose | liquidationUnknown
  | fundingRateUnsane | fundingRateAdverse | fundingRateUnknown | oracleDivergence
  | slippageExceeded | noPosition | positionSideMismatch | sizeExceedsPosition
  | accountNotInitialized
  deriving DecidableEq, Repr

/-- What is thrown here: a refusal with its code, or anything else with its message. -/
inductive PerpError where
  | guard (code : PerpGuardCode) (message : String)
  | other (message : String)
  deriving DecidableEq, Repr

/-! ### The intent -/

/-- An amount of a mint; its decimals are whatever number the builder put there. -/
structure LegAmount where
  mint : String
  amount : Int
  decimals : JsNumber
  deriving DecidableEq

inductive PerpOrderType where
  | market | limit
  deriving DecidableEq, Repr

structure PerpLeg where
  venue : String
  market : String
  accountSubId : Int
  side : PerpSide
  orderType : PerpOrderType
  limitPrice : Option JsNumber
  reduceOnly : Bool
  leverage : JsNumber
  slippageBps : JsNumber
  expectedBaseAmount : Int
  minBaseAmount : Int
  /-- the margin that leaves the wallet -/
  collateral : LegAmount
  notional : LegAmount
  entryPrice : JsNumber
  markPrice : JsNumber
  oraclePrice : JsNumber
  maintenanceMarginRatio : JsNumber
  marketStatus : PerpMarketStatus
  venueLiquidationPrice : Option JsNumber
  fundingBpsPerHour : Option JsNumber
  deriving DecidableEq

structure PerpIntent where
  kind : IntentKind
  source : String
  unsignedTxBase64 : String
  recentBlockhash : String
  lastValidBlockHeight : JsNumber
  priorityFeeLamports : JsNumber
  input : LegAmount
  perp : PerpLeg
  deriving DecidableEq

/-- Kinds that may still run under wind-down or the kill switch. -/
def isReducingKind (kind : IntentKind) : Bool := kind = .perpReduce ∨ kind = .perpClose

/-- Kinds that add risk. -/
def isOpeningKind (kind : IntentKind) : Bool := kind = .perpOpen ∨ kind = .perpIncrease

/-! ### The shape -/

/-- Refuse for the shape, if the condition holds. -/
def badIf (c : Prop) [Decidable c] (why : String) : Except PerpError Unit :=
  throwIf c (.guard .invalidPerpIntent s!"perp intent failed structural validation: {why}")

/-- A number that is not finite, or not positive. -/
def notPositive (n : JsNumber) : Bool := ¬ n.isFinite ∨ n.le (.ofInt 0)

def assertLegShape (p : PerpLeg) (input : LegAmount) (kind : IntentKind) :
    Except PerpError Unit := do
  badIf (p.venue = "") "missing venue"
  badIf (p.market = "") "missing market"
  badIf (notPositive p.leverage) "invalid leverage"
  badIf (¬ p.slippageBps.isInteger ∨ p.slippageBps.lt (.ofInt 0)) "invalid slippage"
  badIf (p.expectedBaseAmount ≤ 0) "invalid expected base size"
  badIf (p.minBaseAmount < 0) "invalid minimum base size"
  badIf (p.minBaseAmount > p.expectedBaseAmount) "minimum base size exceeds the expected size"
  badIf (p.collateral.mint ≠ input.mint ∨ p.collateral.amount ≠ input.amount)
    "perp collateral does not match the intent input leg"
  badIf (p.notional.amount < 0) "invalid notional"
  badIf (p.notional.mint ≠ input.mint) "notional is not denominated in the input leg"
  badIf (notPositive p.entryPrice) "invalid entry price"
  badIf (notPositive p.markPrice) "invalid mark price"
  badIf (notPositive p.oraclePrice) "invalid oracle price"
  badIf (¬ p.maintenanceMarginRatio.isFinite ∨ p.maintenanceMarginRatio.lt (.ofInt 0) ∨
      (JsNumber.ofInt 1).le p.maintenanceMarginRatio) "invalid maintenance margin ratio"
  badIf (p.orderType = .limit ∧ (p.limitPrice.elim true notPositive))
    "limit order without a usable limit price"
  badIf (p.reduceOnly ≠ isReducingKind kind)
    s!"reduceOnly={p.reduceOnly} is inconsistent with kind {kind.name}"

/-- Structural validation, before any later check can read a number that is none. -/
def assertPerpIntentShape (i : PerpIntent) : Except PerpError Unit := do
  badIf (¬ i.kind.isPerpIntentKind) s!"unsupported kind {i.kind.name}"
  badIf (i.source = "") "missing source"
  badIf (i.unsignedTxBase64 = "") "missing built transaction"
  badIf (i.recentBlockhash = "") "missing recent blockhash"
  badIf (¬ i.lastValidBlockHeight.isInteger ∨ i.lastValidBlockHeight.le (.ofInt 0))
    "missing block height"
  badIf (¬ i.priorityFeeLamports.isFinite ∨ i.priorityFeeLamports.lt (.ofInt 0))
    "invalid priority fee"
  badIf (i.input.mint = "") "missing input mint"
  badIf (i.input.amount < 0) "invalid collateral amount"
  badIf (¬ i.input.decimals.isInteger) "invalid collateral decimals"
  assertLegShape i.perp i.input i.kind

/-- What the guards may rely on. -/
structure Shaped (i : PerpIntent) : Prop where
  kind : i.kind.isPerpIntentKind = true
  leverage : ∃ l : ℚ, i.perp.leverage = .finite l ∧ 0 < l
  expected : 0 < i.perp.expectedBaseAmount
  collateral : 0 ≤ i.perp.collateral.amount
  notional : 0 ≤ i.perp.notional.amount
  entryPrice : ∃ e : ℚ, i.perp.entryPrice = .finite e ∧ 0 < e
  marginRatio : ∃ m : ℚ, i.perp.maintenanceMarginRatio = .finite m ∧ 0 ≤ m ∧ m < 1

theorem not_notPositive {n : JsNumber} :
    ¬ notPositive n = true ↔ ∃ q : ℚ, n = .finite q ∧ 0 < q := by
  cases n with
  | finite q => simp [notPositive, JsNumber.isFinite, JsNumber.ofInt, JsNumber.le_finite]
  | nan | infinity => simp [notPositive, JsNumber.isFinite]

theorem shaped_of_assertPerpIntentShape {i : PerpIntent} {u : Unit}
    (h : assertPerpIntentShape i = .ok u) : Shaped i := by
  simp only [assertPerpIntentShape, assertLegShape, badIf, bind_eq_ok, throwIf_eq_ok,
    exists_and_left, exists_const, not_notPositive, not_le, not_lt, not_not] at h
  obtain ⟨hkind, -, -, -, -, -, -, hinput, -, -, -, hleverage, -, hexpected, -, -, hcollateral,
    hnotional, -, hentry, -, -, hmargin, -⟩ := h
  have hmatch : i.perp.collateral.amount = i.input.amount := by
    by_contra hne
    exact hcollateral (.inr hne)
  refine ⟨hkind, hleverage, hexpected, by omega, hnotional, hentry, ?_⟩
  cases hm : i.perp.maintenanceMarginRatio with
  | finite m =>
    simp only [hm, JsNumber.isFinite, JsNumber.ofInt, JsNumber.lt_finite, JsNumber.le_finite,
      Int.cast_zero, Int.cast_one, decide_eq_true_eq, not_true, false_or, not_or, not_lt,
      not_le] at hmargin
    exact ⟨m, rfl, hmargin⟩
  | nan => simp [hm, JsNumber.isFinite] at hmargin
  | infinity => simp [hm, JsNumber.isFinite] at hmargin

end AriOs.Perps
