import AriOs.Perps.Admission

/-!
# Advice on perp intents

The advisory evaluation runs every rule where enforcement stops at the first violation, so it also
runs rules on values that an earlier violation speaks about: a leverage far beyond the cap, whose
basis points are infinite, or decimals that no amount can be written with. Such a rule throws, and
the evaluation with it.
-/

namespace AriOs.Perps

open AriOs.Js AriOs.Kernel

structure PerpGuardVerdict where
  ok : Bool
  violations : List PerpViolation
  deriving DecidableEq

/-- Run all rules, and keep what they find. -/
def evaluate (i : PerpIntent) (ctx : PerpGuardContext) :
    List Rule → Except PerpError (List PerpViolation)
  | [] => .ok []
  | rule :: rules => do
    let violation ← rule i ctx
    let violations ← evaluate i ctx rules
    return violation.toList ++ violations

/-- The advisory evaluation: the shape, then every rule. -/
def evaluatePerpGuards (toUpperCase : String → String) (i : PerpIntent) (ctx : PerpGuardContext) :
    Except PerpError PerpGuardVerdict :=
  match assertPerpIntentShape i with
  | .error (.guard code message) => .ok ⟨false, [⟨code, message⟩]⟩
  | .error (.other message) => .ok ⟨false, [⟨.invalidPerpIntent, message⟩]⟩
  | .ok () => do
    let violations ← evaluate i ctx (PERP_RULES toUpperCase)
    return ⟨violations.isEmpty, violations⟩

section Evaluation

variable {i : PerpIntent} {ctx : PerpGuardContext} {toUpperCase : String → String}

/-- The rule returns. -/
def Returns (i : PerpIntent) (ctx : PerpGuardContext) (rule : Rule) : Prop :=
  ∃ violation, rule i ctx = .ok violation

/-- All rules are run exactly if none of them throws, and nothing is found exactly if all of them
let the intent pass. -/
theorem evaluate_spec (rules : List Rule) :
    ((∃ violations, evaluate i ctx rules = .ok violations) ↔
      ∀ rule ∈ rules, Returns i ctx rule) ∧
    ∀ violations, evaluate i ctx rules = .ok violations →
      (violations.isEmpty = true ↔ ∀ rule ∈ rules, rule i ctx = pass) := by
  induction rules with
  | nil => simp [evaluate]
  | cons rule rules ih =>
    obtain ⟨hreturns, hpass⟩ := ih
    simp only [evaluate, bind_eq_ok, List.forall_mem_cons, ← hreturns]
    constructor
    · -- the rules are asked in turn, and one that throws ends it
      constructor
      · rintro ⟨_, violation, hrule, rest, hrest, _⟩
        exact ⟨⟨violation, hrule⟩, rest, hrest⟩
      · rintro ⟨⟨violation, hrule⟩, rest, hrest⟩
        exact ⟨_, violation, hrule, rest, hrest, rfl⟩
    · rintro _ ⟨violation, hrule, rest, hrest, heq⟩
      obtain rfl := Except.ok.inj heq
      rw [hrule, ← hpass rest hrest]
      cases violation with
      | none => simp [pass]
      | some violation => simp [pass]

/-! ### Rules that throw -/

/-- Decimals that an amount can be written with. -/
def IsExponent (decimals : JsNumber) : Prop := ∃ d : ℕ, decimals = .ofInt d

theorem exists_fmt_iff {amount : Int} {decimals : JsNumber} :
    (∃ text, fmt amount decimals = .ok text) ↔ IsExponent decimals := by
  simp only [fmt, IsExponent, bind_eq_ok, JsNumber.bigInt_eq_ok, throwIf_eq_ok]
  constructor
  · rintro ⟨_, d, hd, -, hneg, -⟩
    rw [JsNumber.eq_ofInt_of_toBigInt? hd]
    exact ⟨d.toNat, by rw [Int.toNat_of_nonneg (not_lt.mp hneg)]⟩
  · rintro ⟨d, rfl⟩
    exact ⟨_, d, JsNumber.toBigInt?_ofInt d, (), by omega, rfl⟩

theorem returns_exceeds_iff {code : PerpGuardCode} {what : String} {sum cap : Int}
    {decimals : JsNumber} {text : String → String → String} :
    (∃ violation, exceeds code what sum cap decimals text = .ok violation) ↔
      IsExponent decimals := by
  rw [exceeds]
  simp only [bind_eq_ok, violate]
  constructor
  · rintro ⟨_, s, hs, -⟩
    exact exists_fmt_iff.mp ⟨s, hs⟩
  · intro h
    obtain ⟨s, hs⟩ : ∃ s, fmt sum decimals = .ok s := exists_fmt_iff.mpr h
    obtain ⟨c, hc⟩ : ∃ c, fmt cap decimals = .ok c := exists_fmt_iff.mpr h
    exact ⟨_, s, hs, c, hc, rfl⟩

theorem returns_pass : ∃ violation, pass = .ok violation := ⟨none, rfl⟩

/-- A cap throws only where it is exceeded. -/
theorem returns_unless_iff {code : PerpGuardCode} {what : String} {sum cap : Int}
    {decimals : JsNumber} {text : String → String → String} :
    (∃ violation, (if sum > cap then exceeds code what sum cap decimals text else pass) =
      .ok violation) ↔ (cap < sum → IsExponent decimals) := by
  by_cases hover : sum > cap
  · rw [if_pos hover, returns_exceeds_iff]
    exact ⟨fun h _ => h, fun h => h hover⟩
  · rw [if_neg hover]
    exact iff_of_true returns_pass fun h => absurd h hover

/-- Basis points of the leverage are in the range of a double. -/
def LeverageInRange (leverage : JsNumber) : Prop :=
  ∀ l : ℚ, leverage = .finite l → l * 10000 < 2 ^ 1024 - 2 ^ 970

/-- The notional of an intent with a shape is derived unless the leverage is out of range. -/
theorem exists_notional_iff {amount : Int} {l : ℚ} (hl : 0 < l) (hamount : 0 ≤ amount) :
    (∃ derived, notionalFromCollateral amount (.finite l) = .ok derived) ↔
      LeverageInRange (.finite l) := by
  have hrange : LeverageInRange (.finite l) ↔ l * 10000 < 2 ^ 1024 - 2 ^ 970 := by
    simp [LeverageInRange]
  have hproduct : (JsNumber.finite l).mul (.ofInt 10000) = .finite (l * 10000) := by
    simp [JsNumber.mul, JsNumber.ofInt]
  have hpositive : ¬ (¬ (JsNumber.finite l).isFinite ∨ (JsNumber.finite l).le (.ofInt 0)) := by
    simpa [JsNumber.isFinite, JsNumber.ofInt, JsNumber.le_finite] using hl
  have hpos : 0 < l * 10000 := mul_pos hl (by norm_num)
  have habs : |l * 10000| = l * 10000 := abs_of_pos hpos
  rw [hrange, notionalFromCollateral, leverageToBps, if_neg hpositive, hproduct,
    JsNumber.rounded, nearest, habs]
  dsimp only
  by_cases hover : (2 : ℚ) ^ 1024 - 2 ^ 970 ≤ l * 10000
  · -- `BigInt(Infinity)`
    rw [if_pos hover]
    refine iff_of_false ?_ (not_lt.mpr hover)
    have hneg : decide (l * 10000 < 0) = false := decide_eq_false_iff_not.mpr (lt_asymm hpos)
    rw [hneg]
    simp [JsNumber.round, JsNumber.lt, JsNumber.ofInt, not_lt.mpr hamount, JsNumber.toBigInt?,
      JsNumber.bigInt, orThrow, Functor.map, Except.map]
  · rw [if_neg hover]
    refine iff_of_true ?_ (not_le.mp hover)
    rw [JsNumber.round]
    split
    · exact ⟨_, rfl⟩
    · rename_i bps hbps
      obtain ⟨-, hround⟩ := Option.ite_none_right_eq_some.mp hbps
      obtain rfl := Option.some.inj hround
      rw [if_neg (not_lt.mpr hamount), JsNumber.bigInt, JsNumber.toBigInt?_ofInt]
      exact ⟨_, rfl⟩

/-! ### What the rules return -/

/-- A rule whose every branch lets the intent pass or names a violation returns. -/
theorem returns_of_simple :
    ∀ rule ∈ [armState, accountReady, marketAllowed toUpperCase, marketTradeable, collateralAllowed,
      collateralCappable, slippageWithinClamp, reduceIsAReduction toUpperCase,
      increaseMatchesPosition, leverageWithinCap, positionCountWithinCap, liquidationDistanceOk,
      oracleAgreesWithMark, fundingSane], Returns i ctx rule := by
  simp only [List.forall_mem_cons, Returns, armState, accountReady, marketAllowed, marketTradeable,
    collateralAllowed, collateralCappable, slippageWithinClamp, reduceIsAReduction,
    increaseMatchesPosition, leverageWithinCap, positionCountWithinCap, liquidationDistanceOk,
    oracleAgreesWithMark, fundingSane]
  refine ⟨?_, ?_, ?_, ?_, ?_, ?_, ?_, ?_, ?_, ?_, ?_, ?_, ?_, ?_, by simp⟩
  all_goals
    repeat' split
    all_goals exact ⟨_, rfl⟩

/-- No rule throws: the leverage of an opening has basis points in the range of a double, and where
a cap is exceeded, the sums can be written with the decimals they come with. -/
structure Evaluable (i : PerpIntent) (ctx : PerpGuardContext) : Prop where
  collateral : ∀ bucket, bucketOf i = some bucket → i.perp.collateral.amount ≠ 0 →
    (ctx.policy.capsFor bucket).maxCollateralPerPosition < i.perp.collateral.amount →
    IsExponent i.perp.collateral.decimals
  leverage : isOpeningKind i.kind = true → (bucketOf i).isSome = true →
    LeverageInRange i.perp.leverage
  notional : ∀ bucket derived, isOpeningKind i.kind = true → bucketOf i = some bucket →
    notionalFromCollateral i.perp.collateral.amount i.perp.leverage = .ok (some derived) →
    (ctx.policy.capsFor bucket).maxNotionalPerPosition < larger i.perp.notional.amount derived →
    IsExponent i.perp.notional.decimals
  portfolio : ∀ bucket derived, isOpeningKind i.kind = true → bucketOf i = some bucket →
    ctx.exposure.stale = false →
    notionalFromCollateral i.perp.collateral.amount i.perp.leverage = .ok derived →
    (ctx.policy.capsFor bucket).maxPortfolioNotional <
      ctx.exposure.notionalByBucket bucket +
        larger i.perp.notional.amount (derived.getD i.perp.notional.amount) →
    IsExponent i.perp.notional.decimals

theorem returns_collateralWithinCap_iff : Returns i ctx collateralWithinCap ↔
    ∀ bucket, bucketOf i = some bucket → i.perp.collateral.amount ≠ 0 →
      (ctx.policy.capsFor bucket).maxCollateralPerPosition < i.perp.collateral.amount →
      IsExponent i.perp.collateral.decimals := by
  unfold Returns collateralWithinCap
  cases bucketOf i with
  | none => exact iff_of_true returns_pass fun bucket h => nomatch h
  | some bucket =>
    simp only [Option.some.injEq, forall_eq']
    by_cases hzero : i.perp.collateral.amount = 0
    · rw [if_pos hzero]
      exact iff_of_true returns_pass fun h => absurd hzero h
    · rw [if_neg hzero]
      rw [returns_unless_iff]
      exact ⟨fun h _ => h, fun h => h hzero⟩

/-- The two caps on the notional of an opening throw where it cannot be derived, or where they are
exceeded and cannot be written. -/
theorem returns_notional_iff :
    (Returns i ctx notionalWithinCap ∧ Returns i ctx portfolioWithinCap) ↔
      (isOpeningKind i.kind = true → ∀ bucket, bucketOf i = some bucket →
        (∃ derived, notionalFromCollateral i.perp.collateral.amount i.perp.leverage = .ok derived ∧
          (∀ d, derived = some d →
            (ctx.policy.capsFor bucket).maxNotionalPerPosition < larger i.perp.notional.amount d →
              IsExponent i.perp.notional.decimals) ∧
          (ctx.exposure.stale = false → (ctx.policy.capsFor bucket).maxPortfolioNotional <
            ctx.exposure.notionalByBucket bucket +
              larger i.perp.notional.amount (derived.getD i.perp.notional.amount) →
            IsExponent i.perp.notional.decimals))) := by
  unfold Returns notionalWithinCap portfolioWithinCap
  cases isOpeningKind i.kind with
  | false => simp [pass]
  | true =>
    simp only [not_true_eq_false, if_false, true_implies]
    cases bucketOf i with
    | none => simp [pass]
    | some bucket =>
      simp only [Option.some.injEq, forall_eq']
      rcases hnotional : notionalFromCollateral i.perp.collateral.amount i.perp.leverage with
        e | derived
      · -- a notional that cannot be derived makes the first of them throw
        refine iff_of_false ?_ ?_
        · rintro ⟨⟨_, h⟩, -⟩
          cases h
        · rintro ⟨derived, hderived, -⟩
          cases hderived
      · simp only [Except.ok.injEq, exists_eq_left', bind, Except.bind]
        refine and_congr ?_ ?_
        · cases derived with
          | none => exact iff_of_true ⟨_, rfl⟩ fun d h => nomatch h
          | some derived =>
            simp only [Option.some.injEq, forall_eq']
            exact returns_unless_iff
        · cases ctx.exposure.stale with
          | true => exact iff_of_true ⟨_, rfl⟩ fun h => nomatch h
          | false =>
            simp only [Bool.false_eq_true, if_false, true_implies]
            exact returns_unless_iff

/-- Where the intent has a shape, no rule throws exactly if it can be evaluated. -/
theorem returns_rules_iff (hshaped : Shaped i) :
    (∀ rule ∈ PERP_RULES toUpperCase, Returns i ctx rule) ↔ Evaluable i ctx := by
  have hsimple := @returns_of_simple i ctx toUpperCase
  -- all rules but three return whatever they are given
  have hcaps : (∀ rule ∈ PERP_RULES toUpperCase, Returns i ctx rule) ↔
      Returns i ctx collateralWithinCap ∧
        Returns i ctx notionalWithinCap ∧ Returns i ctx portfolioWithinCap := by
    simp only [PERP_RULES, List.forall_mem_cons] at hsimple ⊢
    tauto
  obtain ⟨l, hl, hpos⟩ := hshaped.leverage
  -- where the quotient is in range there is a notional
  have hrange := exists_notional_iff hpos hshaped.collateral
  rw [← hl] at hrange
  rw [hcaps, returns_collateralWithinCap_iff, returns_notional_iff]
  constructor
  · rintro ⟨hcollateral, hopening⟩
    refine ⟨hcollateral, ?_, ?_, ?_⟩
    · intro hopen hbucket
      obtain ⟨bucket, hbucket⟩ := Option.isSome_iff_exists.mp hbucket
      obtain ⟨derived, hderived, -⟩ := hopening hopen bucket hbucket
      exact hrange.mp ⟨derived, hderived⟩
    · intro bucket derived hopen hbucket hderived hover
      obtain ⟨_, heq, hnotional, -⟩ := hopening hopen bucket hbucket
      obtain rfl := Except.ok.inj (hderived.symm.trans heq)
      exact hnotional derived rfl hover
    · intro bucket derived hopen hbucket hfresh hderived hover
      obtain ⟨_, heq, -, hportfolio⟩ := hopening hopen bucket hbucket
      obtain rfl := Except.ok.inj (hderived.symm.trans heq)
      exact hportfolio hfresh hover
  · intro h
    refine ⟨h.collateral, fun hopen bucket hbucket => ?_⟩
    obtain ⟨derived, hderived⟩ := hrange.mpr
      (h.leverage hopen (Option.isSome_iff_exists.mpr ⟨bucket, hbucket⟩))
    refine ⟨derived, hderived, ?_, ?_⟩
    · rintro derived rfl hover
      exact h.notional bucket derived hopen hbucket hderived hover
    · intro hfresh hover
      exact h.portfolio bucket derived hopen hbucket hfresh hderived hover

/-- **Advice agrees with enforcement** exactly where no rule throws. The evaluation returns, and
says that an intent is fine iff enforcement lets it pass, exactly for the intents that have no
shape and for those that can be evaluated. -/
theorem evaluate_agrees_iff (toUpperCase : String → String) (i : PerpIntent)
    (ctx : PerpGuardContext) :
    (∃ verdict, evaluatePerpGuards toUpperCase i ctx = .ok verdict ∧
      (verdict.ok = true ↔ perpGuards toUpperCase i ctx = .ok ())) ↔
    assertPerpIntentShape i ≠ .ok () ∨ Evaluable i ctx := by
  rw [perpGuards_eq_ok_iff, evaluatePerpGuards]
  cases hshape : assertPerpIntentShape i with
  | error e =>
    -- both refuse
    refine iff_of_true ?_ (.inl (by simp))
    cases e <;> exact ⟨_, rfl, by simp⟩
  | ok =>
    rw [← returns_rules_iff (shaped_of_assertPerpIntentShape hshape)]
    obtain ⟨hreturns, hpass⟩ := @evaluate_spec i ctx (PERP_RULES toUpperCase)
    rw [← hreturns]
    simp only [bind_eq_ok, ne_eq, not_true_eq_false, false_or, true_and]
    constructor
    · rintro ⟨_, ⟨violations, hviolations, -⟩, -⟩
      exact ⟨violations, hviolations⟩
    · rintro ⟨violations, hviolations⟩
      exact ⟨_, ⟨violations, hviolations, rfl⟩, hpass violations hviolations⟩

end Evaluation

/-- An opening of a hundred dollars with so much leverage. -/
def openLong (leverage : ℚ) : PerpIntent :=
  samplePerpIntent .perpOpen
    (sampleLeg .long false leverage (3 / 100) 50000000 100000000 (some (.ofInt 60)))

/-- A leverage of `2 ^ 1020` is finite, and passes the shape. Its basis points are not, so the
evaluation throws where enforcement refuses. -/
theorem evaluate_throws_on_leverage :
    perpGuards asciiUpper (openLong (2 ^ 1020))
        (armedContext (armedPerpsPolicy (.ofInt 3) []) none) ≠ .ok () ∧
      ¬ ∃ verdict, evaluatePerpGuards asciiUpper (openLong (2 ^ 1020))
          (armedContext (armedPerpsPolicy (.ofInt 3) []) none) = .ok verdict ∧
        (verdict.ok = true ↔ perpGuards asciiUpper (openLong (2 ^ 1020))
          (armedContext (armedPerpsPolicy (.ofInt 3) []) none) = .ok ()) := by
  have hthrows : (evaluatePerpGuards asciiUpper (openLong (2 ^ 1020))
      (armedContext (armedPerpsPolicy (.ofInt 3) []) none)).toOption = none := by decide +kernel
  refine ⟨by decide +kernel, ?_⟩
  rintro ⟨verdict, hverdict, -⟩
  rw [hverdict] at hthrows
  cases hthrows

end AriOs.Perps
