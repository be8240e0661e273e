import AriOs.Perps.Exposure
import AriOs.Perps.Intent

/-!
# Perp guards

Rules over an intent and what was read of the account: each rule lets the intent pass or names a
violation, and may throw where it formats an amount. Enforcement runs the shape check and then the
rules in order, and throws the first violation.

Names of markets are compared in upper case; what upper case is, is a parameter.

## Main results

* `armState_eq_pass_iff`, …, `liquidationDistanceOk_eq_pass_iff` — what the rules let pass
-/

namespace AriOs.Perps

open AriOs.Js AriOs.Kernel

/-! ### The policy -/

structure PerpsCaps where
  maxCollateralPerPosition : Int
  maxNotionalPerPosition : Int
  maxPortfolioNotional : Int
  deriving DecidableEq

structure PerpsPolicy where
  perpsEnabled : Bool
  windDownOnly : Bool
  maxLeverage : JsNumber
  minLiquidationDistanceBps : JsNumber
  maxFundingRateBpsPerHour : JsNumber
  maxAdverseFundingBpsPerHour : JsNumber
  maxSlippageBps : JsNumber
  maxOracleDivergenceBps : JsNumber
  liquidationToleranceBps : JsNumber
  maxOpenPositions : JsNumber
  capsSol : PerpsCaps
  capsUsdc : PerpsCaps
  /-- `none` allows any market, subject to the denylist -/
  marketAllowlist : Option (List String)
  marketDenylist : List String
  allowedCollateralMints : List String

def PerpsPolicy.capsFor (policy : PerpsPolicy) : QuoteBucket → PerpsCaps
  | .sol => policy.capsSol
  | .usdc => policy.capsUsdc

/-- Leverage as a whole number of basis points. -/
def leverageToBps (leverage : JsNumber) : Option JsNumber :=
  if ¬ leverage.isFinite ∨ leverage.le (.ofInt 0) then none
  else
    let bps := (leverage.mul (.ofInt 10000)).rounded.round
    if (JsNumber.ofInt 0).lt bps then some bps else none

/-- Collateral times leverage, in the units of the collateral. -/
def notionalFromCollateral (collateralBaseUnits : Int) (leverage : JsNumber) :
    Except PerpError (Option Int) :=
  match leverageToBps leverage with
  | none => .ok none
  | some bps =>
    if collateralBaseUnits < 0 then .ok none
    else do
      let bps ← bps.bigInt .other
      return some ((collateralBaseUnits * bps).tdiv 10000)

/-! ### Rules -/

structure PerpGuardContext where
  policy : PerpsPolicy
  killSwitch : Bool
  executionEnabled : Bool
  exposure : PortfolioExposure
  /-- the position in the market of the intent, if there is one -/
  position : Option PerpPosition
  accountInitialized : Bool
  dryRun : Bool

structure PerpViolation where
  code : PerpGuardCode
  message : String
  deriving DecidableEq

/-- What a rule makes of an intent. -/
abbrev Rule := PerpIntent → PerpGuardContext → Except PerpError (Option PerpViolation)

def pass : Except PerpError (Option PerpViolation) := .ok none

def violate (code : PerpGuardCode) (message : String) : Except PerpError (Option PerpViolation) :=
  .ok (some ⟨code, message⟩)

def PerpSide.name : PerpSide → String
  | .long => "long"
  | .short => "short"

def PerpMarketStatus.name : PerpMarketStatus → String
  | .active => "active"
  | .reduceOnly => "reduce-only"
  | .halted => "halted"
  | .unknown => "unknown"

/-- An amount in whole units of its token; decimals that are no exponent make it throw. -/
def fmt (amount : Int) (decimals : JsNumber) : Except PerpError String := do
  let d ← decimals.bigInt .other
  throwIf (d < 0) (.other "Exponent must be non-negative")
  return (JsNumber.finite (amount / 10 ^ d.toNat)).text

def bucketOf (i : PerpIntent) : Option QuoteBucket := quoteBucketFor i.perp.collateral.mint

/-- Kill switch and wind-down both let risk go down only. -/
def armState : Rule := fun i ctx =>
  if ctx.killSwitch ∧ isOpeningKind i.kind then
    violate .killSwitch "kill switch is engaged — perp exposure may only be reduced"
  else if ¬ ctx.dryRun ∧ ¬ ctx.executionEnabled then
    violate .perpsDisabled "execution is disabled — Aetheria is in dry-run. Use /enable to arm."
  else if ¬ ctx.policy.perpsEnabled ∧ isOpeningKind i.kind then
    violate .perpsDisabled
      "perps are not enabled — only reducing an existing position is permitted"
  else if ctx.policy.windDownOnly ∧ isOpeningKind i.kind then
    violate .windDownOnly
      "wind-down mode is active — reduce-only intents may proceed, opens may not"
  else pass

def accountReady : Rule := fun i ctx =>
  if ctx.accountInitialized then pass
  else violate .accountNotInitialized
    (s!"no {i.perp.venue} subaccount {i.perp.accountSubId} — initialise it as a separate, " ++
      "explicit step")

/-- The market lists, for every kind. -/
def marketAllowed (toUpperCase : String → String) : Rule := fun i ctx =>
  let market := toUpperCase i.perp.market
  if ∃ denied ∈ ctx.policy.marketDenylist, toUpperCase denied = market then
    violate .marketDenied s!"market {i.perp.market} is on the denylist"
  else
    match ctx.policy.marketAllowlist with
    | some allow =>
      if ¬ ∃ allowed ∈ allow, toUpperCase allowed = market then
        violate .marketDenied s!"market {i.perp.market} is not on the allowlist"
      else pass
    | none => pass

/-- A market that only lets positions shrink still permits that. -/
def marketTradeable : Rule := fun i _ =>
  if i.perp.marketStatus = .active then pass
  else if i.perp.marketStatus = .reduceOnly ∧ isReducingKind i.kind then pass
  else violate .marketNotTradeable
    s!"market {i.perp.market} status is '{i.perp.marketStatus.name}'"

/-- The collateral list, for every kind. -/
def collateralAllowed : Rule := fun i ctx =>
  if ctx.policy.allowedCollateralMints = [] then
    violate .collateralMintDenied "no collateral mint is permitted for perps"
  else if i.perp.collateral.mint ∉ ctx.policy.allowedCollateralMints then
    violate .collateralMintDenied
      s!"collateral mint {i.perp.collateral.mint} is not permitted as perp margin"
  else pass

/-- Collateral without a cap bucket cannot be bounded. -/
def collateralCappable : Rule := fun i _ =>
  if (bucketOf i).isSome then pass
  else violate .collateralNotCappable
    (s!"collateral {i.perp.collateral.mint} has no spend-cap bucket — cannot be bounded without " ++
      "a price oracle")

def slippageWithinClamp : Rule := fun i ctx =>
  if i.perp.slippageBps.le ctx.policy.maxSlippageBps then pass
  else violate .slippageExceeded
    s!"slippage {i.perp.slippageBps}bps exceeds max {ctx.policy.maxSlippageBps}bps"

/-- A reduction has a position in the market, faces the other way and is no larger. -/
def reduceIsAReduction (toUpperCase : String → String) : Rule := fun i ctx =>
  if ¬ isReducingKind i.kind then pass
  else
    match ctx.position with
    | none => violate .noPosition
        (s!"no open {i.perp.market} position to " ++
          (if i.kind = .perpClose then "close" else "reduce"))
    | some pos =>
      if toUpperCase pos.symbol ≠ toUpperCase i.perp.market then
        violate .positionSideMismatch "position context is for a different market"
      else if pos.side = i.perp.side then
        violate .positionSideMismatch
          (s!"a {i.perp.side.name} order does not reduce a {pos.side.name} position — it " ++
            "increases it")
      else if i.perp.expectedBaseAmount > pos.baseAmount then
        violate .sizeExceedsPosition
          ("order size exceeds the position it targets — this would flip the side, not " ++
            "reduce it")
      else pass

/-- An increase faces the same way as the position. -/
def increaseMatchesPosition : Rule := fun i ctx =>
  if i.kind ≠ .perpIncrease then pass
  else
    match ctx.position with
    | none => violate .noPosition s!"no open {i.perp.market} position to increase"
    | some pos =>
      if pos.side ≠ i.perp.side then
        violate .positionSideMismatch
          s!"cannot increase a {pos.side.name} position with a {i.perp.side.name} order"
      else pass

def leverageWithinCap : Rule := fun i ctx =>
  if ¬ isOpeningKind i.kind then pass
  else if ctx.policy.maxLeverage.lt i.perp.leverage then
    violate .leverageExceeded
      s!"leverage {i.perp.leverage}× exceeds the {ctx.policy.maxLeverage}× cap"
  else pass

/-- The violation of a cap, which writes both sums. -/
def exceeds (code : PerpGuardCode) (what : String) (sum cap : Int) (decimals : JsNumber)
    (text : String → String → String) : Except PerpError (Option PerpViolation) := do
  let sum ← fmt sum decimals
  let cap ← fmt cap decimals
  violate code (what ++ text sum cap)

def collateralWithinCap : Rule := fun i ctx =>
  match bucketOf i with
  | none => pass
  | some bucket =>
    if i.perp.collateral.amount = 0 then pass
    else
      let cap := (ctx.policy.capsFor bucket).maxCollateralPerPosition
      if i.perp.collateral.amount > cap then
        exceeds .collateralCapExceeded "collateral " i.perp.collateral.amount cap
          i.perp.collateral.decimals fun sum cap => s!"{sum} exceeds the per-position cap of {cap}"
      else pass

/-- The larger of what the venue claims and what the collateral makes. -/
def larger (claimed derived : Int) : Int := if claimed > derived then claimed else derived

def notionalWithinCap : Rule := fun i ctx =>
  if ¬ isOpeningKind i.kind then pass
  else
    match bucketOf i with
    | none => pass
    | some bucket => do
      match ← notionalFromCollateral i.perp.collateral.amount i.perp.leverage with
      | none =>
        violate .notionalCapExceeded
          "notional could not be derived from the collateral and leverage"
      | some derived =>
        let effective := larger i.perp.notional.amount derived
        let cap := (ctx.policy.capsFor bucket).maxNotionalPerPosition
        if effective > cap then
          exceeds .notionalCapExceeded "notional " effective cap i.perp.notional.decimals
            fun sum cap => s!"{sum} exceeds the per-position cap of {cap}"
        else pass

def portfolioWithinCap : Rule := fun i ctx =>
  if ¬ isOpeningKind i.kind then pass
  else
    match bucketOf i with
    | none => pass
    | some bucket =>
      if ctx.exposure.stale then
        violate .exposureUnknown
          ("portfolio perp exposure is unknown (" ++ ctx.exposure.staleReason.getD "stale snapshot" ++
            ") — refusing to add to an unbounded total")
      else do
        let derived := (← notionalFromCollateral i.perp.collateral.amount i.perp.leverage).getD
          i.perp.notional.amount
        let add := larger i.perp.notional.amount derived
        let current := ctx.exposure.notionalByBucket bucket
        let cap := (ctx.policy.capsFor bucket).maxPortfolioNotional
        if current + add > cap then
          exceeds .portfolioExposureExceeded "total perp notional " (current + add) cap
            i.perp.notional.decimals
            fun sum cap => s!"{sum} would exceed the {cap} portfolio cap"
        else pass

def positionCountWithinCap : Rule := fun i ctx =>
  if i.kind ≠ .perpOpen then pass
  else if ctx.exposure.stale then
    violate .exposureUnknown "portfolio snapshot is stale — cannot count open positions"
  else if ctx.position.isSome then pass
  else if ctx.policy.maxOpenPositions.le (.ofInt ctx.exposure.openPositions) then
    violate .positionCountExceeded
      (s!"already holding {ctx.exposure.openPositions} perp positions (max " ++
        s!"{ctx.policy.maxOpenPositions})")
  else pass

/-- The estimate that the liquidation rule judges. -/
def reconciledOf (i : PerpIntent) (ctx : PerpGuardContext) : ReconciledLiquidation :=
  reconcileLiquidation i.perp.side i.perp.entryPrice i.perp.venueLiquidationPrice
    (modelLiquidationPrice i.perp.side i.perp.entryPrice i.perp.leverage
      i.perp.maintenanceMarginRatio)
    ctx.policy.liquidationToleranceBps

/-- The minimum liquidation distance, on the worse of the venue's estimate and the model's. -/
def liquidationDistanceOk : Rule := fun i ctx =>
  if ¬ isOpeningKind i.kind then pass
  else
    let reconciled := reconciledOf i ctx
    match reconciled.ambiguity, reconciled.distanceBps with
    | none, some distanceBps =>
      if distanceBps.lt ctx.policy.minLiquidationDistanceBps then
        violate .liquidationTooClose
          (s!"entry sits {distanceBps}bps from liquidation, inside the " ++
            s!"{ctx.policy.minLiquidationDistanceBps}bps floor")
      else pass
    | ambiguity, _ => violate .liquidationUnknown
        ("liquidation price is unusable: " ++ ambiguity.getD "no distance could be computed")

def oracleAgreesWithMark : Rule := fun i ctx =>
  if ¬ isOpeningKind i.kind then pass
  else
    match oracleDivergenceBps i.perp.markPrice i.perp.oraclePrice with
    | none => violate .oracleDivergence "mark or oracle price is unusable"
    | some div =>
      if ctx.policy.maxOracleDivergenceBps.lt div then
        violate .oracleDivergence
          s!"mark and oracle diverge by {div}bps (max {ctx.policy.maxOracleDivergenceBps}bps)"
      else pass

/-- A funding reading is there, sane, and not too much for the side that pays it. -/
def fundingSane : Rule := fun i ctx =>
  if ¬ isOpeningKind i.kind then pass
  else
    match i.perp.fundingBpsPerHour.filter JsNumber.isFinite with
    | none => violate .fundingRateUnknown
        "no funding-rate reading for this market — refusing to open blind"
    | some f =>
      if ctx.policy.maxFundingRateBpsPerHour.lt f.abs then
        violate .fundingRateUnsane
          (s!"funding {f}bps/h is beyond the {ctx.policy.maxFundingRateBpsPerHour}bps/h " ++
            "sanity bound")
      else
        let adverse := if i.perp.side = .long then f else f.neg
        if ctx.policy.maxAdverseFundingBpsPerHour.lt adverse then
          violate .fundingRateAdverse
            (s!"a {i.perp.side.name} here pays {adverse}bps/h funding, above the " ++
              s!"{ctx.policy.maxAdverseFundingBpsPerHour}bps/h budget")
        else pass

/-- The rules, in the order in which they are reported and thrown. -/
def PERP_RULES (toUpperCase : String → String) : List Rule :=
  [armState, accountReady, marketAllowed toUpperCase, marketTradeable, collateralAllowed,
    collateralCappable, slippageWithinClamp, reduceIsAReduction toUpperCase,
    increaseMatchesPosition, leverageWithinCap, collateralWithinCap, notionalWithinCap,
    portfolioWithinCap, positionCountWithinCap, liquidationDistanceOk, oracleAgreesWithMark,
    fundingSane]

/-- Run rules until one is violated. -/
def enforce (i : PerpIntent) (ctx : PerpGuardContext) : List Rule → Except PerpError Unit
  | [] => .ok ()
  | rule :: rules => do
    match ← rule i ctx with
    | some violation => .error (.guard violation.code violation.message)
    | none => enforce i ctx rules

/-- Enforcement: the shape, then the rules. -/
def perpGuards (toUpperCase : String → String) (i : PerpIntent) (ctx : PerpGuardContext) :
    Except PerpError Unit := do
  assertPerpIntentShape i
  enforce i ctx (PERP_RULES toUpperCase)

/-! ### What the rules let pass -/

section Rules

variable {i : PerpIntent} {ctx : PerpGuardContext} {toUpperCase : String → String}

theorem enforce_eq_ok_iff {rules : List Rule} :
    enforce i ctx rules = .ok () ↔ ∀ rule ∈ rules, rule i ctx = pass := by
  induction rules with
  | nil => simp [enforce]
  | cons rule rules ih =>
    simp only [enforce, bind_eq_ok, List.forall_mem_cons]
    constructor
    · rintro ⟨violation, hrule, hrest⟩
      cases violation with
      | none => exact ⟨hrule, ih.mp hrest⟩
      | some violation => cases hrest
    · rintro ⟨hrule, hrest⟩
      exact ⟨none, hrule, ih.mpr hrest⟩

/-- An intent is accepted exactly if it has a shape and passes every rule. -/
theorem perpGuards_eq_ok_iff : perpGuards toUpperCase i ctx = .ok () ↔
    assertPerpIntentShape i = .ok () ∧ ∀ rule ∈ PERP_RULES toUpperCase, rule i ctx = pass := by
  simp only [perpGuards, bind_eq_ok, enforce_eq_ok_iff]
  constructor
  · rintro ⟨_, hshape, hrules⟩
    exact ⟨hshape, hrules⟩
  · rintro ⟨hshape, hrules⟩
    exact ⟨(), hshape, hrules⟩

@[simp] theorem violate_ne_pass {code : PerpGuardCode} {message : String} :
    ¬ violate code message = pass := by
  simp [violate, pass]

@[simp] theorem exceeds_ne_pass {code : PerpGuardCode} {what : String} {sum cap : Int}
    {decimals : JsNumber} {text : String → String → String} :
    ¬ exceeds code what sum cap decimals text = pass := by
  simp [exceeds, pass, violate]

/-- A kind that reduces does not open. -/
theorem not_opening_of_reducing (h : isReducingKind i.kind = true) :
    isOpeningKind i.kind = false := by
  simp only [isReducingKind, decide_eq_true_eq] at h
  obtain h | h := h <;> rw [h] <;> rfl

theorem armState_eq_pass_iff : armState i ctx = pass ↔
    (isOpeningKind i.kind = true →
      ctx.killSwitch = false ∧ ctx.policy.perpsEnabled = true ∧ ctx.policy.windDownOnly = false) ∧
    (ctx.dryRun = true ∨ ctx.executionEnabled = true) := by
  unfold armState
  cases isOpeningKind i.kind <;> cases ctx.killSwitch <;> cases ctx.dryRun <;>
    cases ctx.executionEnabled <;> cases ctx.policy.perpsEnabled <;>
    cases ctx.policy.windDownOnly <;> simp

/-- The lists of the policy permit the market. -/
def MarketListed (toUpperCase : String → String) (policy : PerpsPolicy) (market : String) : Prop :=
  (∀ denied ∈ policy.marketDenylist, toUpperCase denied ≠ toUpperCase market) ∧
    ∀ allow, policy.marketAllowlist = some allow →
      ∃ allowed ∈ allow, toUpperCase allowed = toUpperCase market

theorem marketAllowed_eq_pass_iff : marketAllowed toUpperCase i ctx = pass ↔
    MarketListed toUpperCase ctx.policy i.perp.market := by
  unfold marketAllowed MarketListed
  dsimp only
  split
  · rename_i hdenied
    simp only [violate_ne_pass, false_iff, not_and]
    intro hnone
    obtain ⟨denied, hmem, heq⟩ := hdenied
    exact absurd heq (hnone denied hmem)
  · rename_i hdenied
    -- the denylist comes first, then the allowlist if there is one
    have hnone : ∀ denied ∈ ctx.policy.marketDenylist,
        toUpperCase denied ≠ toUpperCase i.perp.market :=
      fun denied hmem heq => hdenied ⟨denied, hmem, heq⟩
    cases ctx.policy.marketAllowlist with
    | none => simpa using hnone
    | some allow =>
      dsimp only
      split
      · rename_i hlist
        simp only [violate_ne_pass, false_iff, not_and]
        exact fun _ hall => hlist (hall allow rfl)
      · rename_i hlist
        refine iff_of_true rfl ⟨hnone, fun allow' heq => ?_⟩
        obtain rfl := Option.some.inj heq
        exact not_not.mp hlist

theorem marketTradeable_eq_pass_iff : marketTradeable i ctx = pass ↔
    i.perp.marketStatus = .active ∨
      i.perp.marketStatus = .reduceOnly ∧ isReducingKind i.kind = true := by
  unfold marketTradeable
  split
  · simp_all
  · split <;> simp_all

theorem collateralAllowed_eq_pass_iff : collateralAllowed i ctx = pass ↔
    i.perp.collateral.mint ∈ ctx.policy.allowedCollateralMints := by
  unfold collateralAllowed
  split
  · simp_all
  · split <;> simp_all

theorem collateralCappable_eq_pass_iff : collateralCappable i ctx = pass ↔
    (bucketOf i).isSome = true := by
  unfold collateralCappable
  split <;> simp_all

theorem reduceIsAReduction_eq_pass_iff (h : isReducingKind i.kind = true) :
    reduceIsAReduction toUpperCase i ctx = pass ↔ ∃ pos, ctx.position = some pos ∧
      toUpperCase pos.symbol = toUpperCase i.perp.market ∧ pos.side ≠ i.perp.side ∧
      i.perp.expectedBaseAmount ≤ pos.baseAmount := by
  unfold reduceIsAReduction
  rw [if_neg (not_not.mpr h)]
  cases ctx.position with
  | none => simp
  | some pos =>
    simp only [Option.some.injEq, exists_eq_left']
    split
    · simp_all
    · split
      · simp_all
      · split <;> simp_all

theorem notionalWithinCap_eq_pass_iff {bucket : QuoteBucket} (h : isOpeningKind i.kind = true)
    (hbucket : bucketOf i = some bucket) : notionalWithinCap i ctx = pass ↔
      ∃ derived,
        notionalFromCollateral i.perp.collateral.amount i.perp.leverage = .ok (some derived) ∧
        larger i.perp.notional.amount derived ≤
          (ctx.policy.capsFor bucket).maxNotionalPerPosition := by
  unfold notionalWithinCap
  rw [if_neg (not_not.mpr h), hbucket]
  rcases notionalFromCollateral i.perp.collateral.amount i.perp.leverage with e | _ | derived
  · simp [pass, bind, Except.bind]
  · simp [bind, Except.bind]
  · simp only [bind, Except.bind, Except.ok.injEq, Option.some.injEq, exists_eq_left']
    split <;> simp_all

theorem portfolioWithinCap_eq_pass_iff {bucket : QuoteBucket} {derived : Int}
    (h : isOpeningKind i.kind = true) (hbucket : bucketOf i = some bucket)
    (hderived : notionalFromCollateral i.perp.collateral.amount i.perp.leverage =
      .ok (some derived)) :
    portfolioWithinCap i ctx = pass ↔ ctx.exposure.stale = false ∧
      ctx.exposure.notionalByBucket bucket + larger i.perp.notional.amount derived ≤
        (ctx.policy.capsFor bucket).maxPortfolioNotional := by
  unfold portfolioWithinCap
  rw [if_neg (not_not.mpr h), hbucket, hderived]
  simp only [bind, Except.bind, Option.getD_some]
  split
  · simp_all
  · split <;> simp_all

theorem liquidationDistanceOk_eq_pass_iff (h : isOpeningKind i.kind = true) :
    liquidationDistanceOk i ctx = pass ↔ (reconciledOf i ctx).ambiguity = none ∧
      ∃ distance, (reconciledOf i ctx).distanceBps = some distance ∧
        distance.lt ctx.policy.minLiquidationDistanceBps = false := by
  unfold liquidationDistanceOk
  rw [if_neg (not_not.mpr h)]
  generalize reconciledOf i ctx = reconciled
  obtain ⟨price, distanceBps, source, ambiguity, disagreementBps, disagrees⟩ := reconciled
  cases ambiguity with
  | some why => simp
  | none =>
    cases distanceBps with
    | none => simp
    | some distance =>
      simp only [Option.some.injEq, exists_eq_left', true_and]
      split <;> simp_all

end Rules

end AriOs.Perps
