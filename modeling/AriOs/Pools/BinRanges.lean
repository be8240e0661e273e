import AriOs.Pools.Rebalance

/-!
# Choosing a range of bins

A range around the active bin takes some bins below it and some above, as many as were asked for
if a position account holds them. A loop takes bins off the wider side until it does, so the
sides end up as even as what was asked for allows. The limits of the protocol may then cut either
side further.

## Main results

* `fit_returns` — the loop ends, and what it leaves
-/

namespace AriOs.Pools.Rebalance

open AriOs.Js

/-- The loop that makes two sides fit under a cap, the wider one first, for so many turns. -/
def fit (cap : JsNumber) : ℕ → ℕ × ℕ → Option (ℕ × ℕ)
  | 0, _ => none
  | turns + 1, (lo, hi) =>
    if cap.lt (.ofInt (lo + hi + 1)) then
      if lo ≥ hi then fit cap turns (lo - 1, hi) else fit cap turns (lo, hi - 1)
    else some (lo, hi)

/-- `Math.max(1, Math.min(maxSpan, MAX_BIN_PER_POSITION))`. -/
def spanCap (maxSpan : JsNumber) : JsNumber :=
  .max (.ofInt 1) (.min maxSpan (.ofInt MAX_BIN_PER_POSITION))

/-- `rangeAroundActive` where no more than `maxSpan` bins are wanted; `none` if the loop is not
through after so many turns. -/
def rangeAroundActiveWithin (turns : ℕ) (activeBinId below above maxSpan : JsNumber) :
    Option (Except PoolError BinRange) :=
  match assertBinId activeBinId with
  | .error e => some (.error e)
  | .ok active =>
    match below.toBigInt?, above.toBigInt? with
    | some lo, some hi =>
      if lo < 0 ∨ hi < 0 then
        some (.error (.other s!"below/above must be non-negative integers, got {below}/{above}"))
      else
        (fit (spanCap maxSpan) turns (lo.toNat, hi.toNat)).map fun fitted =>
          .ok ⟨.ofInt (max MIN_BIN_ID (active - fitted.1)),
            .ofInt (min MAX_BIN_ID (active + fitted.2))⟩
    | _, _ =>
      some (.error (.other s!"below/above must be non-negative integers, got {below}/{above}"))

/-! ### The loop -/

/-- Sides that differ by at most one, or the smaller of them is still what it was. -/
def Balanced (lo hi : ℕ) (sides : ℕ × ℕ) : Prop :=
  sides.1 ≤ sides.2 + 1 ∧ sides.2 ≤ sides.1 + 1 ∨
    sides.1 < sides.2 ∧ sides.1 = lo ∨ sides.2 < sides.1 ∧ sides.2 = hi

/-- What holds of the sides while the loop runs: it never takes off more than it has to. -/
structure Shrinking (cap lo hi : ℕ) (sides : ℕ × ℕ) : Prop where
  below : sides.1 ≤ lo
  above : sides.2 ≤ hi
  span : sides.1 + sides.2 = lo + hi ∨ cap ≤ sides.1 + sides.2 + 1
  balanced : Balanced lo hi sides

/-- What the loop leaves of two sides. -/
structure Fitted (cap lo hi : ℕ) (sides : ℕ × ℕ) : Prop where
  below : sides.1 ≤ lo
  above : sides.2 ≤ hi
  span_eq : sides.1 + sides.2 + 1 = min (lo + hi + 1) cap
  balanced : Balanced lo hi sides

variable {cap lo hi : ℕ} {sides : ℕ × ℕ}

theorem Shrinking.start : Shrinking cap lo hi (lo, hi) where
  below := le_rfl
  above := le_rfl
  span := .inl rfl
  balanced := by
    -- neither side has been touched, so the smaller one is whole
    rcases Nat.lt_trichotomy lo hi with hlt | heq | hlt
    · exact .inr (.inl ⟨hlt, rfl⟩)
    · exact .inl ⟨by simp [heq], by simp [heq]⟩
    · exact .inr (.inr ⟨hlt, rfl⟩)

/-- A turn takes one bin off the wider side. -/
theorem Shrinking.step (h : Shrinking cap lo hi sides) (hwide : sides.1 + sides.2 + 1 > cap)
    (hcap : 1 ≤ cap) : Shrinking cap lo hi (shrinkStep cap sides) := by
  obtain ⟨below, above⟩ := sides
  have hbelow := h.below
  have habove := h.above
  have hbalanced := h.balanced
  rw [shrinkStep, if_pos hwide]
  dsimp only [Balanced] at hwide hbelow habove hbalanced ⊢
  split
  · exact ⟨by dsimp only; omega, habove, by dsimp only; omega, by dsimp only [Balanced]; omega⟩
  · exact ⟨hbelow, by dsimp only; omega, by dsimp only; omega, by dsimp only [Balanced]; omega⟩

theorem shrinkStep_sum (hwide : sides.1 + sides.2 + 1 > cap) (hcap : 1 ≤ cap) :
    (shrinkStep cap sides).1 + (shrinkStep cap sides).2 + 1 = sides.1 + sides.2 := by
  rw [shrinkStep, if_pos hwide]
  split <;> dsimp only <;> omega

/-- When no turn is due any more, as much is left as fits. -/
theorem Shrinking.fitted (h : Shrinking cap lo hi sides) (hfits : sides.1 + sides.2 + 1 ≤ cap) :
    Fitted cap lo hi sides where
  below := h.below
  above := h.above
  span_eq := by
    have hbelow := h.below
    have habove := h.above
    rcases h.span with hspan | hspan <;> omega
  balanced := h.balanced

/-- A turn of the loop is one of `shrinkStep`. -/
theorem fit_succ (turns : ℕ) :
    fit (.ofInt cap) (turns + 1) sides =
      if sides.1 + sides.2 + 1 > cap then fit (.ofInt cap) turns (shrinkStep cap sides)
      else some sides := by
  obtain ⟨lo, hi⟩ := sides
  rw [fit, JsNumber.lt_ofInt]
  by_cases hwide : lo + hi + 1 > cap
  · rw [if_pos (decide_eq_true (by omega)), if_pos hwide, shrinkStep, if_pos hwide]
    split <;> rfl
  · rw [if_neg (by rw [decide_eq_true_iff]; omega), if_neg hwide]

/-- The loop ends within as many turns as there are bins, and one to see it. -/
theorem Shrinking.fit_returns {turns : ℕ} (h : Shrinking cap lo hi sides) (hcap : 1 ≤ cap)
    (hturns : sides.1 + sides.2 < turns) :
    ∃ kept, fit (.ofInt cap) turns sides = some kept ∧ Fitted cap lo hi kept := by
  induction turns generalizing sides with
  | zero => omega
  | succ turns ih =>
    rw [fit_succ]
    by_cases hwide : sides.1 + sides.2 + 1 > cap
    · have hsum := shrinkStep_sum hwide hcap
      rw [if_pos hwide]
      exact ih (h.step hwide hcap) (by omega)
    · rw [if_neg hwide]
      exact ⟨sides, rfl, h.fitted (by omega)⟩

/-! ### The range -/

/-- The cap of a whole number of bins. -/
def capOf (maxSpan : ℤ) : ℤ := max 1 (min maxSpan MAX_BIN_PER_POSITION)

theorem spanCap_ofInt (maxSpan : ℤ) : spanCap (.ofInt maxSpan) = .ofInt (capOf maxSpan) := by
  rw [spanCap, JsNumber.min_ofInt, JsNumber.max_ofInt, capOf]

theorem one_le_capOf (maxSpan : ℤ) : 1 ≤ capOf maxSpan := le_max_left _ _

theorem assertBinId_ofInt {active : ℤ} (hmin : MIN_BIN_ID ≤ active) (hmax : active ≤ MAX_BIN_ID) :
    assertBinId (.ofInt active) = .ok active := by
  rw [assertBinId, JsNumber.toBigInt?_ofInt]
  exact if_neg (by omega)

/-- For whole arguments, the range is what the loop leaves, cut to the limits. -/
theorem rangeAroundActiveWithin_eq {active : ℤ} (hmin : MIN_BIN_ID ≤ active)
    (hmax : active ≤ MAX_BIN_ID) (turns lo hi : ℕ) (maxSpan : JsNumber) :
    rangeAroundActiveWithin turns (.ofInt active) (.ofInt lo) (.ofInt hi) maxSpan =
      (fit (spanCap maxSpan) turns (lo, hi)).map fun fitted =>
        .ok ⟨.ofInt (max MIN_BIN_ID (active - fitted.1)),
          .ofInt (min MAX_BIN_ID (active + fitted.2))⟩ := by
  rw [rangeAroundActiveWithin, assertBinId_ofInt hmin hmax]
  simp only [JsNumber.toBigInt?_ofInt]
  rw [if_neg (by omega), Int.toNat_natCast, Int.toNat_natCast]

/-- A range around the active bin is returned, within the limits of the protocol, what was asked
for and what an account holds; and it is as wide and as even as these allow. -/
theorem rangeAroundActiveWithin_fits (active below above maxSpan : ℤ) (turns : ℕ)
    (hactive : MIN_BIN_ID ≤ active ∧ active ≤ MAX_BIN_ID)
    (hbelow : 0 ≤ below ∧ below ≤ JsNumber.maxSafeInteger)
    (habove : 0 ≤ above ∧ above ≤ JsNumber.maxSafeInteger) (hturns : below + above < turns) :
    ∃ lower upper : ℤ, ∃ kept : ℕ × ℕ,
      rangeAroundActiveWithin turns (.ofInt active) (.ofInt below) (.ofInt above)
          (.ofInt maxSpan) = some (.ok ⟨.ofInt lower, .ofInt upper⟩) ∧
        lower = max MIN_BIN_ID (active - kept.1) ∧ upper = min MAX_BIN_ID (active + kept.2) ∧
        (lower ≤ active ∧ active ≤ upper) ∧
        (MIN_BIN_ID ≤ lower ∧ upper ≤ MAX_BIN_ID) ∧
        (active - below ≤ lower ∧ upper ≤ active + above) ∧
        upper - lower + 1 ≤ max 1 (min maxSpan 70) ∧
        (MIN_BIN_ID ≤ active - kept.1 → active + kept.2 ≤ MAX_BIN_ID →
          upper - lower + 1 = min (below + above + 1) (max 1 (min maxSpan 70))) ∧
        (max 1 (min maxSpan 70) < below + above + 1 →
          |(kept.1 : ℤ) - kept.2| ≤ 1 ∨
            (kept.1 < kept.2 ∧ kept.1 = below) ∨ (kept.2 < kept.1 ∧ kept.2 = above)) := by
  -- the counts of bins are natural numbers, and every turn takes one away
  obtain ⟨lo, rfl⟩ := Int.eq_ofNat_of_zero_le hbelow.1
  obtain ⟨hi, rfl⟩ := Int.eq_ofNat_of_zero_le habove.1
  have hone := one_le_capOf maxSpan
  obtain ⟨cap, hcap⟩ := Int.eq_ofNat_of_zero_le (by omega : 0 ≤ capOf maxSpan)
  have hstart : Shrinking cap lo hi (lo, hi) := .start
  have henough : (lo, hi).1 + (lo, hi).2 < turns := by dsimp only; omega
  -- what the loop keeps up tells the rest
  obtain ⟨kept, hfit, h⟩ := hstart.fit_returns (by omega) henough
  have hmax : max 1 (min maxSpan 70) = (cap : ℤ) := hcap
  rw [hmax]
  have h1 := h.below
  have h2 := h.above
  have h3 := h.span_eq
  refine ⟨_, _, kept, ?_, rfl, rfl, ⟨by omega, by omega⟩, ⟨by omega, by omega⟩,
    ⟨by omega, by omega⟩, by omega, by omega, fun _ => ?_⟩
  · rw [rangeAroundActiveWithin_eq hactive.1 hactive.2, spanCap_ofInt, hcap, hfit, Option.map_some]
  · rw [abs_le]
    rcases h.balanced with hclose | hkept | hkept <;> omega

/-- One bin below is too few to share evenly, so the other side gives way; the limit is near. -/
theorem rangeAroundActiveWithin_fits_near_limit :
    ∃ lower upper : ℤ,
      rangeAroundActiveWithin 200 (.ofInt 351600) (.ofInt 1) (.ofInt 100) (.ofInt 1000) =
        some (.ok ⟨.ofInt lower, .ofInt upper⟩) ∧
      upper - lower + 1 ≤ 70 := by
  obtain ⟨lower, upper, -, hrange, -, -, -, -, -, hspan, -⟩ :=
    rangeAroundActiveWithin_fits 351600 1 100 1000 200 (by decide) (by decide) (by decide)
      (by decide)
  exact ⟨lower, upper, hrange, hspan⟩

end AriOs.Pools.Rebalance
