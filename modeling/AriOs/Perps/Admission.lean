import AriOs.Perps.Guards

/-!
# What the perp guards admit

Three things that an accepted intent is expected to keep, and exactly when it does.

The liquidation rule judges the worse of two estimates, but of those that are there. Where a
position would start with less margin than it has to keep, the model has none, and the venue's
number alone decides. The market and the collateral lists are asked of every kind, so a position
can no longer be closed in a market that was put on the denylist. And the cap on the notional of a
position is compared with what is added to it, not with what it then holds.
-/

namespace AriOs.Perps

open AriOs.Js AriOs.Kernel

variable {i : PerpIntent} {ctx : PerpGuardContext} {toUpperCase : String → String}

/-! ### Leverage -/

theorem le_of_not_lt_of_le {a : JsNumber} {p q : ℚ} (hlt : a.lt (.finite p) = false)
    (hle : a.le (.finite q) = true) : p ≤ q := by
  cases a with
  | nan => simp [JsNumber.le, JsNumber.lt] at hle
  | infinity negative => cases negative <;> simp [JsNumber.le, JsNumber.lt] at hlt hle
  | finite r =>
    rw [JsNumber.lt_finite, decide_eq_false_iff_not, not_lt] at hlt
    rw [JsNumber.le_finite, decide_eq_true_eq] at hle
    exact hlt.trans hle

theorem le_ofInt_refl (n : Int) : (JsNumber.ofInt n).le (.ofInt n) = true := by
  rw [JsNumber.ofInt, JsNumber.le_finite]
  simp

/-- Where the model has a distance, the reconciled one is no larger. -/
theorem reconcile_le_model {side : PerpSide} {reference tolerance distance : JsNumber}
    {venue model : Option JsNumber} {n : Int}
    (hmodel : model.bind (liquidationDistanceBps side reference) = some (.ofInt n))
    (h : (reconcileLiquidation side reference venue model tolerance).distanceBps =
      some distance) : distance.le (.ofInt n) = true := by
  unfold reconcileLiquidation at h
  rw [hmodel] at h
  split at h
  · cases h
  · cases hvenue : venue.bind (liquidationDistanceBps side reference) with
    | none =>
      rw [hvenue] at h
      obtain rfl := Option.some.inj h
      exact le_ofInt_refl n
    | some venueDist =>
      rw [hvenue] at h
      obtain rfl := Option.some.inj h
      split
      · assumption
      · exact le_ofInt_refl n

/-- **No venue number buys leverage** exactly where the leverage leaves the position the margin it
has to keep. An accepted opening is within the bound of the minimum distance iff its leverage times
the maintenance ratio is at most one. -/
theorem leverage_bounded_iff {bound : JsNumber} (h : perpGuards toUpperCase i ctx = .ok ())
    (hopen : isOpeningKind i.kind = true)
    (hbound : maxLeverageForDistance ctx.policy.minLiquidationDistanceBps i.perp.side
      i.perp.maintenanceMarginRatio = some bound) :
    i.perp.leverage.le bound = true ↔
      (i.perp.leverage.mul i.perp.maintenanceMarginRatio).le (.ofInt 1) = true := by
  obtain ⟨hshape, hrules⟩ := perpGuards_eq_ok_iff.mp h
  have hshaped := shaped_of_assertPerpIntentShape hshape
  obtain ⟨l, hl, hlpos⟩ := hshaped.leverage
  obtain ⟨e, he, hepos⟩ := hshaped.entryPrice
  obtain ⟨m, hm, hm0, hm1⟩ := hshaped.marginRatio
  rw [hm] at hbound
  obtain ⟨d, hmin, hd0, hd1, hpos, rfl⟩ := maxLeverageForDistance_eq_some hbound
  rw [hl, hm, JsNumber.mul_finite, JsNumber.le_finite, JsNumber.ofInt, JsNumber.le_finite,
    decide_eq_true_eq, decide_eq_true_eq, Int.cast_one]
  constructor
  · intro hle
    by_contra hunder
    exact absurd hle (not_le.mpr (maxLeverage_lt_of_underwater hm0 hm1 hd0 hpos
      (not_le.mp hunder)))
  · intro hmargin
    by_cases hlong : i.perp.side = .long ∧ l < 1
    · -- the model has no price, but so little leverage is always within the bound
      rw [hlong.1] at hpos ⊢
      exact le_maxLeverage_of_lt_one hm1 hd1 hpos hlong.2
    · refine le_maxLeverage_of_distance hlpos hm0 hm1 hpos ?_
      obtain ⟨-, distance, hdistance, hfar⟩ := (liquidationDistanceOk_eq_pass_iff hopen).mp
        (hrules _ (by simp [PERP_RULES]))
      have hmodel := modelDistance_eq i.perp.side hepos hlpos hm0 hm1
      rw [if_neg (not_or.mpr ⟨hlong, not_lt.mpr hmargin⟩), ← he, ← hl, ← hm] at hmodel
      have hworst := reconcile_le_model hmodel hdistance
      rw [hmin] at hfar
      have hfloor := le_of_not_lt_of_le hfar hworst
      have := hfloor.trans (Int.floor_le (modelGap i.perp.side l m * 10000))
      linarith

/-! ### Samples -/

/-- The default policy, with perps enabled and so much leverage permitted. -/
def armedPerpsPolicy (maxLeverage : JsNumber) (marketDenylist : List String) : PerpsPolicy where
  perpsEnabled := true
  windDownOnly := false
  maxLeverage
  minLiquidationDistanceBps := .ofInt 2000
  maxFundingRateBpsPerHour := .ofInt 5
  maxAdverseFundingBpsPerHour := .ofInt 2
  maxSlippageBps := .ofInt 100
  maxOracleDivergenceBps := .ofInt 100
  liquidationToleranceBps := .ofInt 500
  maxOpenPositions := .ofInt 3
  capsSol := ⟨1000000000, 3000000000, 10000000000⟩
  capsUsdc := ⟨200000000, 600000000, 2000000000⟩
  marketAllowlist := none
  marketDenylist
  allowedCollateralMints := [USDC_MINT, WSOL_MINT]

/-- An armed account that holds this. -/
def armedContext (policy : PerpsPolicy) (position : Option PerpPosition) : PerpGuardContext where
  policy
  killSwitch := false
  executionEnabled := true
  exposure := exposureFrom position.toList
  position
  accountInitialized := true
  dryRun := false

/-- An order on a market at a hundred dollars, with these numbers of its own. -/
def sampleLeg (side : PerpSide) (reduceOnly : Bool) (leverage margin : ℚ)
    (collateral notional : Int)
    (venueLiquidationPrice : Option JsNumber) : PerpLeg where
  venue := DRIFT_VENUE_ID
  market := "SOL-PERP"
  accountSubId := 0
  side
  orderType := .market
  limitPrice := none
  reduceOnly
  leverage := .finite leverage
  slippageBps := .ofInt 50
  expectedBaseAmount := 2000000000
  minBaseAmount := 1900000000
  collateral := ⟨USDC_MINT, collateral, .ofInt 6⟩
  notional := ⟨USDC_MINT, notional, .ofInt 6⟩
  entryPrice := .ofInt 100
  markPrice := .ofInt 100
  oraclePrice := .ofInt 100
  maintenanceMarginRatio := .finite margin
  marketStatus := .active
  venueLiquidationPrice
  fundingBpsPerHour := some (.ofInt 0)

def samplePerpIntent (kind : IntentKind) (leg : PerpLeg) : PerpIntent where
  kind
  source := "perps"
  unsignedTxBase64 := "AQ=="
  recentBlockhash := "hash"
  lastValidBlockHeight := .ofInt 100
  priorityFeeLamports := .ofInt 5000
  input := leg.collateral
  perp := leg

/-- A long of five SOL. -/
def heldLong : PerpPosition where
  venue := DRIFT_VENUE_ID
  symbol := "SOL-PERP"
  side := .long
  baseAmount := 5000000000
  baseDecimals := 9
  entryPrice := .ofInt 100
  markPrice := .ofInt 100
  notional := quoteAmount 500000000
  collateral := quoteAmount 200000000
  unrealizedPnl := 0
  liquidationPrice := some (.ofInt 50)
  leverage := .finite (5 / 2)

/-- Upper case of the letters that market names are made of. -/
def asciiUpper (s : String) : String := String.ofList (s.toList.map Char.toUpper)

theorem leverage_bounded_iff_threefold :
    (JsNumber.finite 3).le (.finite (1000 / 224)) = true :=
  (@leverage_bounded_iff (samplePerpIntent .perpOpen (sampleLeg .long false 3 (3 / 100) 20000000
    60000000 (some (.ofInt 69)))) (armedContext (armedPerpsPolicy (.ofInt 3) []) none) asciiUpper _
    (by decide +kernel) rfl (by decide +kernel)).mpr (by decide +kernel)

/-- With a tenth to keep and fifteen times leverage the position starts below its margin, so the
model has no distance. The venue's price is far away, and the intent passes, at four times what the
minimum distance allows. -/
theorem rosy_venue_price :
    let i := samplePerpIntent .perpOpen
      (sampleLeg .long false 15 (1 / 10) 20000000 300000000 (some (.ofInt 10)))
    let ctx := armedContext (armedPerpsPolicy (.ofInt 20) []) none
    perpGuards asciiUpper i ctx = .ok () ∧
      maxLeverageForDistance ctx.policy.minLiquidationDistanceBps i.perp.side
        i.perp.maintenanceMarginRatio = some (.finite (25 / 7)) ∧
      i.perp.leverage.le (.finite (25 / 7)) = false := by
  decide +kernel

/-! ### Exits -/

/-- An order that gets smaller, where nothing but the entry side of the policy could stand in its
way. -/
structure ExitRequest (toUpperCase : String → String) (i : PerpIntent) (ctx : PerpGuardContext)
    (pos : PerpPosition) : Prop where
  shape : assertPerpIntentShape i = .ok ()
  reducing : isReducingKind i.kind = true
  collateral : i.perp.collateral.amount = 0
  position : ctx.position = some pos
  market : toUpperCase pos.symbol = toUpperCase i.perp.market
  side : pos.side ≠ i.perp.side
  size : i.perp.expectedBaseAmount ≤ pos.baseAmount
  slippage : i.perp.slippageBps.le ctx.policy.maxSlippageBps = true
  account : ctx.accountInitialized = true
  execution : ctx.executionEnabled = true
  status : i.perp.marketStatus = .active ∨ i.perp.marketStatus = .reduceOnly

/-- **When an exit is admitted.** Of everything on the entry side three rules are asked of exits
too: the market passes the market lists, the collateral is on the collateral list, and it has a cap
bucket. An exit is admitted exactly if they are met. -/
theorem exit_admitted_iff {pos : PerpPosition} (h : ExitRequest toUpperCase i ctx pos) :
    perpGuards toUpperCase i ctx = .ok () ↔
      MarketListed toUpperCase ctx.policy i.perp.market ∧
        i.perp.collateral.mint ∈ ctx.policy.allowedCollateralMints ∧
        (quoteBucketFor i.perp.collateral.mint).isSome = true := by
  have hnot := not_opening_of_reducing h.reducing
  have hkind : i.kind ≠ .perpIncrease ∧ i.kind ≠ .perpOpen := by
    constructor <;> intro heq <;> simp [heq, isOpeningKind] at hnot
  rw [perpGuards_eq_ok_iff]
  simp only [h.shape, true_and, PERP_RULES, List.forall_mem_cons, List.not_mem_nil, false_imp_iff,
    forall_const, and_true]
  -- what the request says, and what is not asked of a reduction
  have harm : armState i ctx = pass :=
    armState_eq_pass_iff.mpr ⟨fun hopen => absurd hopen (by simp [hnot]), .inr h.execution⟩
  have haccount : accountReady i ctx = pass := by simp [accountReady, h.account]
  have hstatus : marketTradeable i ctx = pass :=
    marketTradeable_eq_pass_iff.mpr (h.status.imp id fun hreduce => ⟨hreduce, h.reducing⟩)
  have hslippage : slippageWithinClamp i ctx = pass := by
    simp [slippageWithinClamp, h.slippage]
  have hreduces : reduceIsAReduction toUpperCase i ctx = pass :=
    (reduceIsAReduction_eq_pass_iff h.reducing).mpr ⟨pos, h.position, h.market, h.side, h.size⟩
  have hincrease : increaseMatchesPosition i ctx = pass := by
    simp [increaseMatchesPosition, hkind.1]
  have hcollateral : collateralWithinCap i ctx = pass := by
    unfold collateralWithinCap
    split <;> simp [h.collateral]
  have hcount : positionCountWithinCap i ctx = pass := by
    simp [positionCountWithinCap, hkind.2]
  have hopening : leverageWithinCap i ctx = pass ∧ notionalWithinCap i ctx = pass ∧
      portfolioWithinCap i ctx = pass ∧ liquidationDistanceOk i ctx = pass ∧
      oracleAgreesWithMark i ctx = pass ∧ fundingSane i ctx = pass := by
    simp [leverageWithinCap, notionalWithinCap, portfolioWithinCap, liquidationDistanceOk,
      oracleAgreesWithMark, fundingSane, hnot]
  simp only [harm, haccount, hstatus, hslippage, hreduces, hincrease, hcollateral, hcount, hopening,
    marketAllowed_eq_pass_iff, collateralAllowed_eq_pass_iff, collateralCappable_eq_pass_iff,
    bucketOf, and_true, true_and]

/-- A full close of the long. -/
def closeLong : PerpIntent :=
  samplePerpIntent .perpClose (sampleLeg .short true 1 (3 / 100) 0 0 none)

theorem closeLong_request (policy : PerpsPolicy) (h : policy.maxSlippageBps = .ofInt 100) :
    ExitRequest asciiUpper closeLong (armedContext policy (some heldLong)) heldLong where
  shape := by decide +kernel
  reducing := rfl
  collateral := rfl
  position := rfl
  market := rfl
  side := by decide
  size := by decide
  slippage := by
    show JsNumber.le _ policy.maxSlippageBps = true
    rw [h]
    decide
  account := rfl
  execution := rfl
  status := .inl rfl

theorem exit_admitted_iff_close :
    perpGuards asciiUpper closeLong
      (armedContext (armedPerpsPolicy (.ofInt 3) ["BONK-PERP"]) (some heldLong)) = .ok () :=
  (exit_admitted_iff (closeLong_request _ rfl)).mpr
    ⟨⟨by decide, fun _ h => by cases h⟩, by decide, by decide⟩

/-- The market of an open position is put on the denylist: the position cannot be closed. -/
theorem exit_trapped :
    ExitRequest asciiUpper closeLong
      (armedContext (armedPerpsPolicy (.ofInt 3) ["SOL-PERP"]) (some heldLong)) heldLong ∧
    perpGuards asciiUpper closeLong
      (armedContext (armedPerpsPolicy (.ofInt 3) ["SOL-PERP"]) (some heldLong)) =
        .error (.guard .marketDenied "market SOL-PERP is on the denylist") :=
  ⟨closeLong_request _ rfl, by decide +kernel⟩

/-! ### Sizes -/

/-- The notional that is already held on the side of the order. -/
def heldNotional (i : PerpIntent) (ctx : PerpGuardContext) : Int :=
  match ctx.position with
  | some pos => if pos.side = i.perp.side then pos.notional.amount else 0
  | none => 0

/-- The signed position after a fill. -/
def afterFill (pos : PerpPosition) (side : PerpSide) (fill : Int) : Int :=
  pos.signedBase + match side with
    | .long => fill
    | .short => -fill

/-- What an accepted intent is expected to keep: a reduction leaves the position flat or smaller on
its side, whatever part of it is filled; an opening stays within the cap of the portfolio and
within that of the position it makes. -/
structure KeepsBounds (i : PerpIntent) (ctx : PerpGuardContext) : Prop where
  reduces : isReducingKind i.kind = true → ∃ pos, ctx.position = some pos ∧
    ∀ fill, 0 ≤ fill → fill ≤ i.perp.expectedBaseAmount →
      (afterFill pos i.perp.side fill = 0 ∨
        (afterFill pos i.perp.side fill).sign = pos.signedBase.sign) ∧
      |afterFill pos i.perp.side fill| ≤ |pos.signedBase|
  opens : isOpeningKind i.kind = true → ∃ bucket derived, bucketOf i = some bucket ∧
    notionalFromCollateral i.perp.collateral.amount i.perp.leverage = .ok (some derived) ∧
    ctx.exposure.notionalByBucket bucket + larger i.perp.notional.amount derived ≤
      (ctx.policy.capsFor bucket).maxPortfolioNotional ∧
    heldNotional i ctx + larger i.perp.notional.amount derived ≤
      (ctx.policy.capsFor bucket).maxNotionalPerPosition

/-- Whatever part of a reduction is filled, the position stays on its side or is flat. -/
theorem afterFill_reduces {pos : PerpPosition} {side : PerpSide} {fill : Int}
    (hside : pos.side ≠ side) (hfill : 0 ≤ fill) (hle : fill ≤ pos.baseAmount) :
    (afterFill pos side fill = 0 ∨ (afterFill pos side fill).sign = pos.signedBase.sign) ∧
      |afterFill pos side fill| ≤ |pos.signedBase| := by
  unfold afterFill PerpPosition.signedBase
  cases hpos : pos.side <;> cases side
  · exact absurd hpos hside
  · dsimp only
    refine ⟨?_, abs_le_abs (by omega) (by omega)⟩
    rcases hle.eq_or_lt with rfl | hlt
    · exact .inl (by omega)
    · exact .inr (by rw [Int.sign_eq_one_of_pos (by omega), Int.sign_eq_one_of_pos (by omega)])
  · dsimp only
    refine ⟨?_, ?_⟩
    · rcases hle.eq_or_lt with rfl | hlt
      · exact .inl (by omega)
      · exact .inr (by
          rw [Int.sign_eq_neg_one_of_neg (by omega), Int.sign_eq_neg_one_of_neg (by omega)])
    · rw [abs_of_nonpos (by omega), abs_of_nonpos (by omega)]
      omega
  · exact absurd hpos hside

theorem larger_le_iff {claimed derived cap : Int} :
    larger claimed derived ≤ cap ↔ claimed ≤ cap ∧ derived ≤ cap := by
  unfold larger
  split <;> omega

/-- What an accepted opening is known to satisfy of both caps. -/
theorem exists_of_opening (h : perpGuards toUpperCase i ctx = .ok ())
    (hopen : isOpeningKind i.kind = true) : ∃ bucket derived, bucketOf i = some bucket ∧
      notionalFromCollateral i.perp.collateral.amount i.perp.leverage = .ok (some derived) ∧
      larger i.perp.notional.amount derived ≤
        (ctx.policy.capsFor bucket).maxNotionalPerPosition ∧
      ctx.exposure.notionalByBucket bucket + larger i.perp.notional.amount derived ≤
        (ctx.policy.capsFor bucket).maxPortfolioNotional := by
  obtain ⟨-, hrules⟩ := perpGuards_eq_ok_iff.mp h
  have hcappable := collateralCappable_eq_pass_iff.mp (hrules _ (by simp [PERP_RULES]))
  obtain ⟨bucket, hbucket⟩ := Option.isSome_iff_exists.mp hcappable
  obtain ⟨derived, hderived, hnotional⟩ := (notionalWithinCap_eq_pass_iff hopen hbucket).mp
    (hrules _ (by simp [PERP_RULES]))
  obtain ⟨-, hportfolio⟩ := (portfolioWithinCap_eq_pass_iff hopen hbucket hderived).mp
    (hrules _ (by simp [PERP_RULES]))
  exact ⟨bucket, derived, hbucket, hderived, hnotional, hportfolio⟩

/-- **When an accepted intent keeps to the caps.** A reduction always does. An opening does exactly
if what is already held on its side leaves room for what the venue claims and for what the
collateral makes. -/
theorem keepsBounds_iff (h : perpGuards toUpperCase i ctx = .ok ()) :
    KeepsBounds i ctx ↔
      ∀ pos bucket derived, isOpeningKind i.kind = true → ctx.position = some pos →
        pos.side = i.perp.side → bucketOf i = some bucket →
        notionalFromCollateral i.perp.collateral.amount i.perp.leverage = .ok (some derived) →
        i.perp.notional.amount ≤
            (ctx.policy.capsFor bucket).maxNotionalPerPosition - pos.notional.amount ∧
          derived ≤ (ctx.policy.capsFor bucket).maxNotionalPerPosition - pos.notional.amount := by
  constructor
  · intro hkeeps pos bucket derived hopen hpos hside hbucket hderived
    obtain ⟨bucket', derived', hbucket', hderived', -, hroom⟩ := hkeeps.opens hopen
    obtain rfl := Option.some.inj (hbucket.symm.trans hbucket')
    obtain rfl := Option.some.inj (Except.ok.inj (hderived.symm.trans hderived'))
    rw [heldNotional, hpos, ← le_sub_iff_add_le'] at hroom
    simp only [hside, if_true] at hroom
    exact larger_le_iff.mp hroom
  · intro hroom
    constructor
    · -- a rule has already compared the size with the position
      intro hreducing
      obtain ⟨-, hrules⟩ := perpGuards_eq_ok_iff.mp h
      obtain ⟨pos, hpos, -, hside, hsize⟩ := (reduceIsAReduction_eq_pass_iff hreducing).mp
        (hrules (reduceIsAReduction toUpperCase) (by simp [PERP_RULES]))
      exact ⟨pos, hpos, fun fill hfill hle => afterFill_reduces hside hfill (hle.trans hsize)⟩
    · intro hopen
      obtain ⟨bucket, derived, hbucket, hderived, hnotional, hportfolio⟩ :=
        exists_of_opening h hopen
      refine ⟨bucket, derived, hbucket, hderived, hportfolio, ?_⟩
      unfold heldNotional
      -- the two differ only where the order adds to a position on its own side
      split
      · rename_i pos hpos
        split
        · rename_i hside
          rw [← le_sub_iff_add_le']
          exact larger_le_iff.mpr (hroom pos bucket derived hopen hpos hside hbucket hderived)
        · omega
      · omega

/-- An increase of the long, for so much more notional. -/
def increaseLong (collateral notional : Int) : PerpIntent :=
  samplePerpIntent .perpIncrease
    (sampleLeg .long false 2 (3 / 100) collateral notional (some (.ofInt 60)))

theorem keepsBounds_iff_increase :
    KeepsBounds (increaseLong 50000000 100000000)
      (armedContext (armedPerpsPolicy (.ofInt 3) []) (some heldLong)) := by
  refine (@keepsBounds_iff _ _ asciiUpper (by decide +kernel)).mpr ?_
  intro pos bucket derived _ hpos _ hbucket hderived
  obtain rfl := Option.some.inj hpos
  obtain rfl : QuoteBucket.usdc = bucket := Option.some.inj hbucket
  obtain rfl : 100000000 = derived := by
    have hvalue : notionalFromCollateral 50000000 (.finite 2) = .ok (some 100000000) := by
      decide +kernel
    exact Option.some.inj (Except.ok.inj (hvalue.symm.trans hderived))
  decide

/-- Two hundred dollars more on a position of five hundred pass a cap of six hundred. -/
theorem increase_beyond_cap :
    perpGuards asciiUpper (increaseLong 100000000 200000000)
      (armedContext (armedPerpsPolicy (.ofInt 3) []) (some heldLong)) = .ok () ∧
    ¬ KeepsBounds (increaseLong 100000000 200000000)
      (armedContext (armedPerpsPolicy (.ofInt 3) []) (some heldLong)) := by
  refine ⟨by decide +kernel, fun hkeeps => ?_⟩
  obtain ⟨bucket, derived, hbucket, hderived, -, hcap⟩ := hkeeps.opens rfl
  obtain rfl : QuoteBucket.usdc = bucket := Option.some.inj hbucket
  have : (500000000 : Int) + larger 200000000 derived ≤ 600000000 := hcap
  rw [add_comm, ← le_sub_iff_add_le, larger_le_iff] at this
  omega

end AriOs.Perps
