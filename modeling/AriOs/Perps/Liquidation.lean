import AriOs.Perps.Drift
import Mathlib.Tactic.FieldSimp
import Mathlib.Tactic.Linarith
import Mathlib.Tactic.Ring

/-!
# Liquidation

Where a position is liquidated, from the leverage it is opened at and from what the venue says.
The model looks at one position alone. It yields no price where its inputs are unusable, and no
distance where the price lies on the wrong side of the entry, which is where the margin that the
position starts with is below what it has to keep.
-/

namespace AriOs.Perps

open AriOs.Js

/-! ### The functions -/

/-- A number from the network can be trusted if it is finite and positive. -/
def isUsablePrice (x : JsNumber) : Bool := x.isFinite ∧ (JsNumber.ofInt 0).lt x

/-- The liquidation price by leverage, unless an input is unusable. -/
def modelLiquidationPrice (side : PerpSide) (entryPrice leverage m : JsNumber) : Option JsNumber :=
  let one := JsNumber.ofInt 1
  if ¬ isUsablePrice entryPrice then none
  else if ¬ leverage.isFinite ∨ leverage.le (.ofInt 0) then none
  else if ¬ m.isFinite ∨ m.lt (.ofInt 0) ∨ one.le m then none
  else
    let price := match side with
      | .long => (entryPrice.mul (one.sub (one.div leverage))).div (one.sub m)
      | .short => (entryPrice.mul (one.add (one.div leverage))).div (one.add m)
    if ¬ price.isFinite ∨ price.lt (.ofInt 0) then none else some price

/-- The distance to a liquidation price in basis points, unless the price cannot be used or lies on
the wrong side. -/
def liquidationDistanceBps (side : PerpSide) (referencePrice liquidationPrice : JsNumber) :
    Option JsNumber :=
  if ¬ isUsablePrice referencePrice then none
  else if ¬ liquidationPrice.isFinite ∨ liquidationPrice.lt (.ofInt 0) then none
  else
    let signedGap := match side with
      | .long => referencePrice.sub liquidationPrice
      | .short => liquidationPrice.sub referencePrice
    if signedGap.lt (.ofInt 0) then none
    else
      let bps := (signedGap.div referencePrice).mul (.ofInt 10000)
      if ¬ bps.isFinite then none else some bps.floor

/-- The largest leverage at which a position still sits that far from liquidation. -/
def maxLeverageForDistance (minDistanceBps : JsNumber) (side : PerpSide) (m : JsNumber) :
    Option JsNumber :=
  let one := JsNumber.ofInt 1
  if ¬ minDistanceBps.isFinite ∨ minDistanceBps.lt (.ofInt 0) ∨
      (JsNumber.ofInt 10000).le minDistanceBps then none
  else if ¬ m.isFinite ∨ m.lt (.ofInt 0) ∨ one.le m then none
  else
    let d := minDistanceBps.div (.ofInt 10000)
    let denom := match side with
      | .long => one.sub ((one.sub d).mul (one.sub m))
      | .short => ((one.add d).mul (one.add m)).sub one
    if denom.le (.ofInt 0) then none
    else
      let l := one.div denom
      if l.isFinite ∧ (JsNumber.ofInt 0).lt l then some l else none

inductive LiquidationSource where
  | venue | model
  deriving DecidableEq, Repr

structure ReconciledLiquidation where
  liquidationPrice : Option JsNumber
  distanceBps : Option JsNumber
  source : LiquidationSource
  /-- set when there is no usable estimate -/
  ambiguity : Option String
  disagreementBps : Option JsNumber
  disagrees : Bool

/-- No estimate, and why. -/
def ReconciledLiquidation.none (why : String) : ReconciledLiquidation :=
  ⟨Option.none, Option.none, .model, some why, Option.none, false⟩

/-- The estimate that puts liquidation closest, of those that are there. -/
def reconcileLiquidation (side : PerpSide) (referencePrice : JsNumber)
    (venuePrice modelPrice : Option JsNumber) (toleranceBps : JsNumber) : ReconciledLiquidation :=
  if ¬ isUsablePrice referencePrice then
    .none "reference price is missing or non-positive"
  else
    match venuePrice.bind (liquidationDistanceBps side referencePrice),
      modelPrice.bind (liquidationDistanceBps side referencePrice) with
    | Option.none, Option.none =>
      .none "neither the venue nor the model produced a usable liquidation price"
    | some venueDist, some modelDist =>
      let disagreementBps := (venueDist.sub modelDist).abs
      let useVenue := venueDist.le modelDist
      ⟨if useVenue then venuePrice else modelPrice,
        some (if useVenue then venueDist else modelDist),
        if useVenue then .venue else .model, Option.none, some disagreementBps,
        toleranceBps.lt disagreementBps⟩
    | some venueDist, Option.none =>
      ⟨venuePrice, some venueDist, .venue, Option.none, Option.none, false⟩
    | Option.none, some modelDist =>
      ⟨modelPrice, some modelDist, .model, Option.none, Option.none, false⟩

/-- How far mark and oracle are apart, in basis points of the oracle price. -/
def oracleDivergenceBps (markPrice oraclePrice : JsNumber) : Option JsNumber :=
  if ¬ isUsablePrice markPrice ∨ ¬ isUsablePrice oraclePrice then none
  else some ((((markPrice.sub oraclePrice).abs.div oraclePrice).mul (.ofInt 10000)).floor)

/-! ### The model in exact numbers -/

section Exact

variable {side : PerpSide} {e l m d : ℚ}

/-- What a margin ratio scales the price by, on either side. -/
def marginFactor (m : ℚ) : PerpSide → ℚ
  | .long => 1 - m
  | .short => 1 + m

theorem marginFactor_pos (hm : 0 ≤ m) (hm1 : m < 1) : 0 < marginFactor m side := by
  cases side <;> simp only [marginFactor] <;> linarith

/-- How far the model's price is from the entry, as a fraction of it. -/
def modelGap (side : PerpSide) (l m : ℚ) : ℚ := (l⁻¹ - m) / marginFactor m side

theorem isUsablePrice_finite : isUsablePrice (.finite e) = true ↔ 0 < e := by
  simp [isUsablePrice, JsNumber.isFinite, JsNumber.ofInt, JsNumber.lt_finite]

/-- The model's price in exact numbers; a long below full margin has none. -/
theorem modelLiquidationPrice_eq (he : 0 < e) (hl : 0 < l) (hm : 0 ≤ m) (hm1 : m < 1) :
    modelLiquidationPrice side (.finite e) (.finite l) (.finite m) =
      match side with
      | .long => if l < 1 then none else some (.finite (e * (1 - l⁻¹) / (1 - m)))
      | .short => some (.finite (e * (1 + l⁻¹) / (1 + m))) := by
  have hlong : (1 : ℚ) - m ≠ 0 := by linarith
  have hshort : (1 : ℚ) + m ≠ 0 := by linarith
  have hl' : ¬ l ≤ 0 := not_le.mpr hl
  have hm' : ¬ (m < 0 ∨ 1 ≤ m) := by rw [not_or, not_lt, not_le]; exact ⟨hm, hm1⟩
  have hprice : isUsablePrice (.finite e) = true := isUsablePrice_finite.mpr he
  cases side with
  | long =>
    -- below a leverage of one the price of a long position would be negative
    have hsign : e * (1 - l⁻¹) / (1 - m) < 0 ↔ l < 1 := by
      rw [div_lt_iff₀ (by linarith), zero_mul, mul_neg_iff, ← one_lt_inv₀ hl]
      constructor
      · rintro (⟨-, hneg⟩ | ⟨hneg, -⟩) <;> linarith
      · exact fun h => .inl ⟨he, by linarith⟩
    simp [modelLiquidationPrice, hprice, JsNumber.ofInt, JsNumber.isFinite, JsNumber.le_finite,
      JsNumber.lt_finite, hl', hm', JsNumber.sub_finite, JsNumber.mul_finite,
      JsNumber.div_finite _ hl.ne', JsNumber.div_finite _ hlong, hsign]
  | short =>
    have hsign : 0 ≤ e * (1 + l⁻¹) / (1 + m) := by positivity
    simp [modelLiquidationPrice, hprice, JsNumber.ofInt, JsNumber.isFinite, JsNumber.le_finite,
      JsNumber.lt_finite, hl', hm', JsNumber.add_finite, JsNumber.mul_finite,
      JsNumber.div_finite _ hl.ne', JsNumber.div_finite _ hshort, hsign]

/-- The distance of a price in exact numbers. -/
theorem liquidationDistanceBps_eq {p : ℚ} (he : 0 < e) (hp : 0 ≤ p) :
    liquidationDistanceBps side (.finite e) (.finite p) =
      let gap := match side with
        | .long => e - p
        | .short => p - e
      if gap < 0 then none else some (.ofInt (gap / e * 10000).floor) := by
  have hp' : ¬ p < 0 := not_lt.mpr hp
  cases side <;>
    simp [liquidationDistanceBps, isUsablePrice_finite, he, JsNumber.ofInt, JsNumber.isFinite,
      JsNumber.lt_finite, hp', JsNumber.sub_finite, JsNumber.mul_finite,
      JsNumber.div_finite _ he.ne', JsNumber.floor]

theorem modelGap_neg_iff (hl : 0 < l) (hm : 0 ≤ m) (hm1 : m < 1) :
    modelGap side l m < 0 ↔ 1 < l * m := by
  rw [modelGap, div_lt_iff₀ (marginFactor_pos hm hm1), zero_mul, sub_neg,
    inv_lt_iff_one_lt_mul₀' hl]

/-- When the model has a distance, and which: none for a long below full margin, and none for a
position that starts with less margin than it has to keep. -/
theorem modelDistance_eq (side : PerpSide) (he : 0 < e) (hl : 0 < l) (hm : 0 ≤ m) (hm1 : m < 1) :
    (modelLiquidationPrice side (.finite e) (.finite l) (.finite m)).bind
        (liquidationDistanceBps side (.finite e)) =
      if (side = .long ∧ l < 1) ∨ 1 < l * m then none
      else some (.ofInt (modelGap side l m * 10000).floor) := by
  -- the price is on the wrong side exactly if the margin is below what is to be kept
  have hneg : e * modelGap side l m < 0 ↔ 1 < l * m := by
    have hgap : modelGap side l m < 0 ↔ 1 < l * m := modelGap_neg_iff hl hm hm1
    rw [← hgap]
    constructor <;> intro h <;> nlinarith
  rw [modelLiquidationPrice_eq he hl hm hm1]
  cases side with
  | long =>
    have hfactor : (1 : ℚ) - m ≠ 0 := by linarith
    have hgap : e - e * (1 - l⁻¹) / (1 - m) = e * modelGap .long l m := by
      rw [modelGap, marginFactor]
      field_simp
      ring
    -- a long position at less than its own money has a negative price
    rcases lt_or_ge l 1 with hlt | hge
    · simp [hlt]
    · have hprice : 0 ≤ e * (1 - l⁻¹) / (1 - m) := by
        have : l⁻¹ ≤ 1 := inv_le_one_of_one_le₀ hge
        exact div_nonneg (mul_nonneg he.le (by linarith)) (by linarith)
      simp only [not_lt.mpr hge, if_false, Option.bind_some, liquidationDistanceBps_eq he hprice,
        hgap, hneg, and_false, false_or, mul_div_cancel_left₀ _ he.ne']
  | short =>
    have hfactor : (1 : ℚ) + m ≠ 0 := by linarith
    have hgap : e * (1 + l⁻¹) / (1 + m) - e = e * modelGap .short l m := by
      rw [modelGap, marginFactor]
      field_simp
      ring
    have hprice : 0 ≤ e * (1 + l⁻¹) / (1 + m) := by positivity
    simp only [Option.bind_some, liquidationDistanceBps_eq he hprice, hgap, hneg, reduceCtorEq,
      false_and, false_or, mul_div_cancel_left₀ _ he.ne']

/-- What the margin and the distance take together, in the form the source computes. -/
theorem leverageDenom_eq (q : ℚ) :
    (match side with
      | .long => (JsNumber.ofInt 1).sub (((JsNumber.ofInt 1).sub
          ((JsNumber.finite q).div (.ofInt 10000))).mul ((JsNumber.ofInt 1).sub (.finite m)))
      | .short => (((JsNumber.ofInt 1).add ((JsNumber.finite q).div (.ofInt 10000))).mul
          ((JsNumber.ofInt 1).add (.finite m))).sub (.ofInt 1)) =
      .finite (m + q / 10000 * marginFactor m side) := by
  have h10000 : ((10000 : Int) : ℚ) ≠ 0 := by norm_num
  cases side
  all_goals
    simp only [JsNumber.ofInt, JsNumber.div_finite _ h10000, JsNumber.sub_finite,
      JsNumber.add_finite, JsNumber.mul_finite, marginFactor, JsNumber.finite.injEq]
    push_cast
    ring

/-- The bound is the reciprocal of what the margin and the distance take together. -/
theorem maxLeverageForDistance_eq_some {minDistanceBps bound : JsNumber}
    (h : maxLeverageForDistance minDistanceBps side (.finite m) = some bound) :
    ∃ d, minDistanceBps = .finite (d * 10000) ∧ 0 ≤ d ∧ d < 1 ∧
      0 < m + d * marginFactor m side ∧ bound = .finite (m + d * marginFactor m side)⁻¹ := by
  unfold maxLeverageForDistance at h
  by_cases hdistance : ¬ minDistanceBps.isFinite = true ∨ minDistanceBps.lt (.ofInt 0) = true ∨
      (JsNumber.ofInt 10000).le minDistanceBps = true
  · rw [if_pos hdistance] at h
    cases h
  rw [if_neg hdistance] at h
  cases minDistanceBps with
  -- neither passes the first check
  | nan => simp [JsNumber.isFinite] at hdistance
  | infinity => simp [JsNumber.isFinite] at hdistance
  | finite q =>
    simp only [JsNumber.isFinite, JsNumber.ofInt, JsNumber.lt_finite, JsNumber.le_finite, not_true,
      decide_eq_true_eq, false_or, not_or, not_lt, not_le, Int.cast_zero] at hdistance
    obtain ⟨hq, hq'⟩ := hdistance
    norm_num at hq'
    by_cases hmargin : ¬ (JsNumber.finite m).isFinite = true ∨ (JsNumber.finite m).lt (.ofInt 0) = true
        ∨ (JsNumber.ofInt 1).le (.finite m) = true
    · rw [if_pos hmargin] at h
      cases h
    rw [if_neg hmargin] at h
    dsimp only at h
    rw [leverageDenom_eq] at h
    -- the quotient is finite exactly where the denominator is positive
    by_cases hpos : 0 < m + q / 10000 * marginFactor m side
    · simp only [JsNumber.ofInt, JsNumber.le_finite, JsNumber.div_finite _ hpos.ne',
        JsNumber.isFinite, JsNumber.lt_finite, Int.cast_zero, Int.cast_one, one_div, inv_pos, hpos,
        not_le.mpr hpos, decide_true, decide_false, Bool.false_eq_true, and_self, if_true, if_false,
        Option.some.injEq] at h
      exact ⟨q / 10000, by rw [div_mul_cancel₀]; norm_num, by positivity, by linarith, hpos, h.symm⟩
    · simp only [JsNumber.ofInt, JsNumber.le_finite, Int.cast_zero, not_lt.mp hpos, decide_true,
        if_true] at h
      cases h

/-- A distance that is kept bounds the leverage. -/
theorem le_maxLeverage_of_distance (hl : 0 < l) (hm : 0 ≤ m) (hm1 : m < 1)
    (hpos : 0 < m + d * marginFactor m side) (h : d ≤ modelGap side l m) :
    l ≤ (m + d * marginFactor m side)⁻¹ := by
  rw [modelGap, le_div_iff₀ (marginFactor_pos hm hm1)] at h
  rw [le_inv_comm₀ hl hpos]
  linarith

/-- A position that starts with less margin than it has to keep is above every bound. -/
theorem maxLeverage_lt_of_underwater (hm : 0 ≤ m) (hm1 : m < 1) (hd : 0 ≤ d)
    (hpos : 0 < m + d * marginFactor m side) (h : 1 < l * m) :
    (m + d * marginFactor m side)⁻¹ < l := by
  have hl : 0 < l := by
    by_contra hle
    nlinarith
  have hfactor : 0 < marginFactor m side := marginFactor_pos hm hm1
  have : l⁻¹ < m := (inv_lt_iff_one_lt_mul₀' hl).mpr h
  rw [inv_lt_comm₀ hpos hl]
  nlinarith [mul_nonneg hd hfactor.le]

/-- A long below full margin is within every bound. -/
theorem le_maxLeverage_of_lt_one (hm1 : m < 1) (hd : d < 1)
    (hpos : 0 < m + d * marginFactor m .long) (h : l < 1) :
    l ≤ (m + d * marginFactor m .long)⁻¹ := by
  have hle : m + d * marginFactor m .long ≤ 1 := by
    simp only [marginFactor]
    nlinarith
  exact h.le.trans ((one_le_inv₀ hpos).mpr hle)

end Exact

end AriOs.Perps
