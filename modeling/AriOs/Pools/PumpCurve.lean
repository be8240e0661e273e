import AriOs.Arith.ConstantProduct
import AriOs.Pools.Intent
import Mathlib.Algebra.Order.BigOperators.Group.List

/-!
# The bonding curve

Quotes on a pump.fun curve: a constant product over virtual reserves, in whole lamports and
token units, with the fee and the slippage bound on top. A purchase is sized by the sum that is
to be spent. The fee is stripped from it first, what remains is turned into a token amount, and
the amount is priced again, because that is what the instruction takes.

## Main results

* `tokensForSol_eq_ok_iff`, `solCostForTokens_eq_ok_iff`, `solForTokens_eq_ok_iff` — the three
  functions in terms of a constant-product market
-/

namespace AriOs.Pools.Pumpfun

open AriOs.Js AriOs.Arith

/-! ### The curve -/

structure CurveReserves where
  virtualSolReserves : Int
  virtualTokenReserves : Int
  realSolReserves : Int
  realTokenReserves : Int
  tokenTotalSupply : Int
  complete : Bool
  deriving DecidableEq

def assertPositive (name : String) (v : Int) : Except PoolError Unit :=
  throwIf (v ≤ 0) (.other s!"{name} must be positive, got {v}")

/-- Both virtual reserves are positive, which every function here asks first. -/
def assertReserves (r : CurveReserves) : Except PoolError Unit := do
  assertPositive "virtualSolReserves" r.virtualSolReserves
  assertPositive "virtualTokenReserves" r.virtualTokenReserves

/-- Tokens for `solIn` lamports before fees, no more than the curve holds. -/
def tokensForSol (r : CurveReserves) (solIn : Int) : Except PoolError Int := do
  assertReserves r
  if solIn ≤ 0 then
    return 0
  let k := r.virtualSolReserves * r.virtualTokenReserves
  let newSol := r.virtualSolReserves + solIn
  let newTokens := k.tdiv newSol + 1
  let out := if r.virtualTokenReserves > newTokens then r.virtualTokenReserves - newTokens else 0
  return if out < r.realTokenReserves then out else r.realTokenReserves

/-- Lamports the curve charges for exactly `tokenAmount` tokens, before fees. -/
def solCostForTokens (r : CurveReserves) (tokenAmount : Int) : Except PoolError Int := do
  assertReserves r
  if tokenAmount ≤ 0 then
    return 0
  throwIf (tokenAmount ≥ r.virtualTokenReserves)
    (.other "token amount would drain the virtual token reserve")
  let k := r.virtualSolReserves * r.virtualTokenReserves
  let newSol := k.tdiv (r.virtualTokenReserves - tokenAmount) + 1
  return newSol - r.virtualSolReserves

/-- Lamports returned for selling `tokenAmount`, before fees. -/
def solForTokens (r : CurveReserves) (tokenAmount : Int) : Except PoolError Int := do
  assertReserves r
  if tokenAmount ≤ 0 then
    return 0
  return (tokenAmount * r.virtualSolReserves).tdiv (r.virtualTokenReserves + tokenAmount)

/-! ### Quotes -/

structure BuyQuote where
  tokenAmount : Int
  solCostLamports : Int
  feeLamports : Int
  totalLamports : Int
  maxSolCostLamports : Int
  feeBps : Int
  deriving DecidableEq

/-- `10_000 + Math.round(slippageBps)`. What is added is too small to make the sum infinite. -/
def wholeAndSlippage (slippageBps : JsNumber) : JsNumber :=
  match (JsNumber.ofInt 10000).add slippageBps.round with
  | .finite q => .finite (toDouble q)
  | n => n

/-- What a purchase of a positive amount is quoted at. -/
def quoteBuyOf (r : CurveReserves) (tokenAmount feeBps : Int) (slippageBps : JsNumber) :
    Except PoolError BuyQuote := do
  let solCostLamports ← solCostForTokens r tokenAmount
  let feeLamports := (solCostLamports * feeBps).tdiv 10000
  let totalLamports := solCostLamports + feeLamports
  let bound ← (wholeAndSlippage slippageBps).bigInt .other
  let maxSolCostLamports := (totalLamports * bound).tdiv 10000
  return ⟨tokenAmount, solCostLamports, feeLamports, totalLamports, maxSolCostLamports, feeBps⟩

/-- Quote a purchase sized by the sum to spend. -/
def quoteBuyForSolBudget (r : CurveReserves) (solBudgetLamports feeBps : Int)
    (slippageBps : JsNumber) : Except PoolError BuyQuote := do
  throwIf (solBudgetLamports ≤ 0) (.other "sol budget must be positive")
  throwIf (feeBps < 0) (.other "feeBps must be non-negative")
  throwIf (¬ slippageBps.isFinite ∨ slippageBps.lt (.ofInt 0))
    (.other "slippageBps must be finite and non-negative")
  throwIf r.complete (.other "curve has completed — it no longer accepts buys")
  -- the budget includes the fee
  let curveBudget := (solBudgetLamports * 10000).tdiv (10000 + feeBps)
  let tokenAmount ← tokensForSol r curveBudget
  throwIf (tokenAmount ≤ 0) (.other "budget too small to buy a single token unit")
  quoteBuyOf r tokenAmount feeBps slippageBps

structure SellQuote where
  tokenAmount : Int
  grossSolLamports : Int
  feeLamports : Int
  netSolLamports : Int
  minSolOutputLamports : Int
  feeBps : Int
  deriving DecidableEq

/-- Quote a sale sized by its token amount. -/
def quoteSell (r : CurveReserves) (tokenAmount feeBps : Int) (slippageBps : JsNumber) :
    Except PoolError SellQuote := do
  throwIf (tokenAmount ≤ 0) (.other "token amount must be positive")
  throwIf (feeBps < 0) (.other "feeBps must be non-negative")
  throwIf (¬ slippageBps.isFinite ∨ slippageBps.lt (.ofInt 0))
    (.other "slippageBps must be finite and non-negative")
  throwIf ((JsNumber.ofInt 10000).le slippageBps) (.other "slippageBps must be below 100%")
  throwIf r.complete (.other "curve has completed — it no longer accepts sells")
  let grossSolLamports ← solForTokens r tokenAmount
  let feeLamports := (grossSolLamports * feeBps).tdiv 10000
  let netSolLamports := grossSolLamports - feeLamports
  let bound ← ((JsNumber.ofInt 10000).sub slippageBps.round).bigInt .other
  let minSolOutputLamports := (netSolLamports * bound).tdiv 10000
  return ⟨tokenAmount, grossSolLamports, feeLamports, netSolLamports, minSolOutputLamports, feeBps⟩

/-! ### The functions of the curve as a market -/

section Curve

variable {r : CurveReserves} {solIn tokenAmount t c g : Int}

@[simp] theorem assertReserves_eq_ok {u : Unit} : assertReserves r = .ok u ↔
    0 < r.virtualSolReserves ∧ 0 < r.virtualTokenReserves := by
  simp [assertReserves, assertPositive]

theorem tokensForSol_eq_ok_iff : tokensForSol r solIn = .ok t ↔
    (0 < r.virtualSolReserves ∧ 0 < r.virtualTokenReserves) ∧
      t = if solIn ≤ 0 then 0
        else min (bought r.virtualSolReserves r.virtualTokenReserves solIn) r.realTokenReserves := by
  simp only [tokensForSol, bind_eq_ok, assertReserves_eq_ok, exists_const, gt_iff_lt]
  refine and_congr_right fun hreserves => ?_
  obtain ⟨hsol, htoken⟩ := hreserves
  split
  · simp [pure, Except.pure, eq_comm]
  · rename_i hpos
    have hk := Int.tdiv_eq_ediv_of_nonneg (mul_pos hsol htoken).le
      (b := r.virtualSolReserves + solIn)
    have hnonneg := bought_nonneg hsol htoken (not_le.mp hpos)
    rw [bought] at hnonneg ⊢
    simp only [pure, Except.pure, Except.ok.injEq, hk]
    constructor <;> intro h <;> subst h <;> split <;> split <;> omega

theorem solCostForTokens_eq_ok_iff : solCostForTokens r tokenAmount = .ok c ↔
    (0 < r.virtualSolReserves ∧ 0 < r.virtualTokenReserves) ∧
      tokenAmount < r.virtualTokenReserves ∧
      c = if tokenAmount ≤ 0 then 0
        else cost r.virtualSolReserves r.virtualTokenReserves tokenAmount := by
  simp only [solCostForTokens, bind_eq_ok, assertReserves_eq_ok, exists_const]
  refine and_congr_right fun hreserves => ?_
  obtain ⟨hsol, htoken⟩ := hreserves
  split
  · have : tokenAmount < r.virtualTokenReserves := by omega
    simp [pure, Except.pure, eq_comm, this]
  · have hk := Int.tdiv_eq_ediv_of_nonneg (mul_pos hsol htoken).le
      (b := r.virtualTokenReserves - tokenAmount)
    simp only [bind_eq_ok, throwIf_eq_ok, ge_iff_le, not_le, exists_const, pure, Except.pure,
      Except.ok.injEq, hk, cost, eq_comm (a := c)]

theorem solForTokens_eq_ok_iff : solForTokens r tokenAmount = .ok g ↔
    (0 < r.virtualSolReserves ∧ 0 < r.virtualTokenReserves) ∧
      g = if tokenAmount ≤ 0 then 0
        else proceeds r.virtualSolReserves r.virtualTokenReserves tokenAmount := by
  simp only [solForTokens, bind_eq_ok, assertReserves_eq_ok, exists_const]
  refine and_congr_right fun hreserves => ?_
  obtain ⟨hsol, -⟩ := hreserves
  split
  · simp [pure, Except.pure, eq_comm]
  · rename_i hpos
    have hk := Int.tdiv_eq_ediv_of_nonneg (mul_pos (not_le.mp hpos) hsol).le
      (b := r.virtualTokenReserves + tokenAmount)
    simp [pure, Except.pure, eq_comm, hk, proceeds]

end Curve

/-! ### Quotes of a purchase -/

section Buy

variable {r : CurveReserves} {budget budget' feeBps tokenAmount : Int} {slippageBps : JsNumber}
  {solIn : Int} {x : ℚ} {q q' : BuyQuote}

/-- The token amount that a budget is turned into. -/
def budgetTokens (r : CurveReserves) (budget feeBps : Int) : Int :=
  min (bought r.virtualSolReserves r.virtualTokenReserves (budget * 10000 / (10000 + feeBps)))
    r.realTokenReserves

/-- What an amount is quoted at, with `slippage` basis points of headroom. -/
def pricedBuy (r : CurveReserves) (tokenAmount feeBps slippage : Int) : BuyQuote :=
  let c := cost r.virtualSolReserves r.virtualTokenReserves tokenAmount
  ⟨tokenAmount, c, c * feeBps / 10000, markup c feeBps, markup (markup c feeBps) slippage, feeBps⟩

/-- The basis points on top of the whole. -/
def headroom (x : ℚ) : Int := (toDouble (10000 + (x + 1 / 2).floor : ℤ)).num - 10000

theorem wholeAndSlippage_finite :
    wholeAndSlippage (.finite x) = .ofInt (10000 + headroom x) := by
  have hsum : (JsNumber.ofInt 10000).add (JsNumber.finite x).round =
      .finite ((10000 + (x + 1 / 2).floor : ℤ) : ℚ) := by
    simp [JsNumber.ofInt, JsNumber.add, JsNumber.round]
  obtain ⟨n, hn⟩ := exists_toDouble_intCast (10000 + (x + 1 / 2).floor)
  rw [wholeAndSlippage, hsum, headroom, hn, Rat.num_intCast, add_sub_cancel]
  exact congrArg JsNumber.finite hn

theorem headroom_nonneg (hx : 0 ≤ x) : 0 ≤ headroom x := by
  have hround : 0 ≤ (x + 1 / 2).floor :=
    Int.floor_nonneg.mpr (by linarith : (0 : ℚ) ≤ x + 1 / 2)
  have hle : ((10000 : ℤ) : ℚ) ≤ toDouble (10000 + (x + 1 / 2).floor : ℤ) :=
    le_toDouble (by norm_num) (by norm_num) (Int.cast_le.mpr (by omega))
  obtain ⟨n, hn⟩ := exists_toDouble_intCast (10000 + (x + 1 / 2).floor)
  rw [hn, Int.cast_le] at hle
  rw [headroom, hn, Rat.num_intCast]
  omega

theorem quoteBuyOf_eq (hsol : 0 < r.virtualSolReserves) (htokens : 0 < tokenAmount)
    (hlt : tokenAmount < r.virtualTokenReserves) (hfee : 0 ≤ feeBps) (hx : 0 ≤ x) :
    quoteBuyOf r tokenAmount feeBps (.finite x) =
      .ok (pricedBuy r tokenAmount feeBps (headroom x)) := by
  have hcost := cost_pos hsol htokens.le hlt
  have hmarkup := le_markup hcost.le hfee
  have hround := headroom_nonneg hx
  have hquoted : solCostForTokens r tokenAmount =
      .ok (cost r.virtualSolReserves r.virtualTokenReserves tokenAmount) := by
    rw [solCostForTokens_eq_ok_iff, if_neg (not_le.mpr htokens)]
    exact ⟨⟨hsol, by omega⟩, hlt, rfl⟩
  -- nothing here is negative, so every quotient is rounded down
  have hfeeLamports := Int.tdiv_eq_ediv_of_nonneg (mul_nonneg hcost.le hfee) (b := 10000)
  have hbound := Int.tdiv_eq_ediv_of_nonneg (b := 10000)
    (mul_nonneg (hcost.le.trans hmarkup) (by omega : 0 ≤ 10000 + headroom x))
  rw [markup_eq_add] at hbound
  simp only [quoteBuyOf, hquoted, wholeAndSlippage_finite, JsNumber.bigInt,
    JsNumber.toBigInt?_ofInt, orThrow, hfeeLamports, pricedBuy, bind, Except.bind,
    pure, Except.pure, markup_eq_add (a := cost _ _ _)]
  rw [hbound, markup]

/-- What is left of a budget without the fee buys a positive amount, or none. -/
theorem tokensForSol_budget (hbudget : 0 < budget) (hfee : 0 ≤ feeBps) :
    tokensForSol r ((budget * 10000).tdiv (10000 + feeBps)) = .ok tokenAmount ∧ 0 < tokenAmount ↔
      (0 < r.virtualSolReserves ∧ 0 < r.virtualTokenReserves) ∧
        tokenAmount = budgetTokens r budget feeBps ∧ 0 < tokenAmount := by
  have hnonneg := Int.ediv_nonneg (by omega : 0 ≤ budget * 10000) (by omega : 0 ≤ 10000 + feeBps)
  rw [Int.tdiv_eq_ediv_of_nonneg (by omega), tokensForSol_eq_ok_iff, and_assoc]
  refine and_congr_right fun ⟨hsol, htoken⟩ => ?_
  split
  · -- nothing is left of the budget
    have hzero : budget * 10000 / (10000 + feeBps) = 0 := by omega
    have hnone : budgetTokens r budget feeBps ≤ -1 := by
      rw [budgetTokens, hzero, bought, add_zero, Int.mul_ediv_cancel_left _ hsol.ne']
      exact (min_le_left _ _).trans (by omega)
    constructor <;> rintro ⟨rfl, hpos⟩ <;> omega
  · rfl

/-- What the check of a slippage bound leaves. -/
theorem finite_nonneg_iff {n : JsNumber} :
    ¬ (¬ n.isFinite = true ∨ n.lt (.ofInt 0) = true) ↔ ∃ x : ℚ, 0 ≤ x ∧ n = .finite x := by
  cases n with
  | finite q => simp [JsNumber.isFinite, JsNumber.ofInt, JsNumber.lt_finite]
  | nan | infinity => simp [JsNumber.isFinite]

theorem ne_drain (h : tokensForSol r solIn = .ok tokenAmount) (hpos : 0 < tokenAmount) :
    tokenAmount < r.virtualTokenReserves := by
  obtain ⟨⟨hsol, htoken⟩, heq⟩ := tokensForSol_eq_ok_iff.mp h
  split at heq
  · omega
  · rename_i hin
    have := bought_lt hsol htoken (not_le.mp hin)
    omega

/-- A quote is the priced amount that the budget is turned into. -/
theorem quoteBuyForSolBudget_eq_ok_iff :
    quoteBuyForSolBudget r budget feeBps slippageBps = .ok q ↔
      0 < budget ∧ 0 ≤ feeBps ∧ r.complete = false ∧
      (0 < r.virtualSolReserves ∧ 0 < r.virtualTokenReserves) ∧
      0 < budgetTokens r budget feeBps ∧ ∃ x : ℚ, 0 ≤ x ∧ slippageBps = .finite x ∧
        q = pricedBuy r (budgetTokens r budget feeBps) feeBps (headroom x) := by
  simp only [quoteBuyForSolBudget, bind_eq_ok, throwIf_eq_ok, finite_nonneg_iff, exists_and_left,
    exists_const, not_le, not_lt]
  rw [Bool.not_eq_true]
  constructor
  · rintro ⟨hbudget, hfee, ⟨x, hx, rfl⟩, hcomplete, tokenAmount, htokens, hpos, hquote⟩
    have hlt := ne_drain htokens hpos
    obtain ⟨hreserves, rfl, -⟩ := (tokensForSol_budget hbudget hfee).mp ⟨htokens, hpos⟩
    rw [quoteBuyOf_eq hreserves.1 hpos hlt hfee hx] at hquote
    exact ⟨hbudget, hfee, hcomplete, hreserves, hpos, x, hx, rfl, (Except.ok.inj hquote).symm⟩
  · rintro ⟨hbudget, hfee, hcomplete, hreserves, hpos, x, hx, rfl, rfl⟩
    obtain ⟨htokens, -⟩ := (tokensForSol_budget hbudget hfee).mpr ⟨hreserves, rfl, hpos⟩
    exact ⟨hbudget, hfee, ⟨x, hx, rfl⟩, hcomplete, _, htokens, hpos,
      quoteBuyOf_eq hreserves.1 hpos (ne_drain htokens hpos) hfee hx⟩

/-- Where no token unit can be bought, this is what is thrown. -/
theorem quoteBuyForSolBudget_of_nonpos (hbudget : 0 < budget) (hfee : 0 ≤ feeBps)
    (hcomplete : r.complete = false)
    (hreserves : 0 < r.virtualSolReserves ∧ 0 < r.virtualTokenReserves) (hx : 0 ≤ x)
    (hnone : budgetTokens r budget feeBps ≤ 0) :
    quoteBuyForSolBudget r budget feeBps (.finite x) =
      .error (.other "budget too small to buy a single token unit") := by
  obtain ⟨tokenAmount, htokens⟩ : ∃ tokenAmount,
      tokensForSol r ((budget * 10000).tdiv (10000 + feeBps)) = .ok tokenAmount :=
    ⟨_, tokensForSol_eq_ok_iff.mpr ⟨hreserves, rfl⟩⟩
  have hle : tokenAmount ≤ 0 := by
    by_contra hpos
    have := ((tokensForSol_budget hbudget hfee).mp ⟨htokens, not_le.mp hpos⟩).2.1
    omega
  have hslippage := finite_nonneg_iff.mpr ⟨x, hx, rfl⟩
  simp only [quoteBuyForSolBudget, throwIf, if_neg (not_le.mpr hbudget), if_neg (not_lt.mpr hfee),
    if_neg hslippage, hcomplete, htokens, hle, if_true, if_false, Bool.false_eq_true, bind,
    Except.bind]

theorem budgetTokens_mono (hreserves : 0 < r.virtualSolReserves ∧ 0 < r.virtualTokenReserves)
    (hfee : 0 ≤ feeBps) (hpos : 0 < budgetTokens r budget feeBps) (h : budget ≤ budget')
    (hbudget : 0 < budget) : budgetTokens r budget feeBps ≤ budgetTokens r budget' feeBps := by
  have hle : budget * 10000 / (10000 + feeBps) ≤ budget' * 10000 / (10000 + feeBps) :=
    Int.ediv_le_ediv (by omega) (by omega)
  -- something is bought, so something of the budget is left without the fee
  have hleft : 0 < budget * 10000 / (10000 + feeBps) := by
    obtain ⟨htokens, -⟩ := (tokensForSol_budget hbudget hfee).mpr ⟨hreserves, rfl, hpos⟩
    rw [Int.tdiv_eq_ediv_of_nonneg (by omega), tokensForSol_eq_ok_iff] at htokens
    obtain ⟨-, heq⟩ := htokens
    split at heq <;> omega
  exact min_le_min_right _ (bought_mono hreserves.1 hreserves.2 hleft hle)

/-- An amount that a budget is turned into costs no more than the budget, the fee included. -/
theorem total_le_budget (hreserves : 0 < r.virtualSolReserves ∧ 0 < r.virtualTokenReserves)
    (hbudget : 0 < budget) (hfee : 0 ≤ feeBps)
    (hlt : budgetTokens r budget feeBps < r.virtualTokenReserves) :
    markup (cost r.virtualSolReserves r.virtualTokenReserves (budgetTokens r budget feeBps)) feeBps
      ≤ budget := by
  have hnonneg := Int.ediv_nonneg (by omega : 0 ≤ budget * 10000) (by omega : 0 ≤ 10000 + feeBps)
  rw [markup_le_iff hfee]
  refine le_trans ?_ (strip_le_unmarked hfee)
  exact (cost_le_iff (by omega) hlt).mpr (min_le_left _ _)

/-- **A purchase is quoted within its budget.** On a live curve a positive budget is either too
small for a single unit, and nothing else is thrown, or it is quoted a positive amount that the
curve holds, at a positive cost and a total within the budget and within the slippage bound. A
larger budget is quoted at least as much. -/
theorem quoteBuyForSolBudget_total (r : CurveReserves) (budget feeBps : Int) (slippageBps : Nat)
    (hsol : 0 < r.virtualSolReserves) (htoken : 0 < r.virtualTokenReserves)
    (hcomplete : r.complete = false) (hbudget : 0 < budget) (hfee : 0 ≤ feeBps) :
    (quoteBuyForSolBudget r budget feeBps (.ofInt slippageBps) =
        .error (.other "budget too small to buy a single token unit") ∨
      ∃ q, quoteBuyForSolBudget r budget feeBps (.ofInt slippageBps) = .ok q ∧
        0 < q.tokenAmount ∧ q.tokenAmount ≤ r.realTokenReserves ∧
        q.tokenAmount < r.virtualTokenReserves ∧ 0 < q.solCostLamports ∧
        q.totalLamports ≤ budget ∧ q.totalLamports ≤ q.maxSolCostLamports) ∧
    ∀ budget' q, budget ≤ budget' →
      quoteBuyForSolBudget r budget feeBps (.ofInt slippageBps) = .ok q →
      ∃ q', quoteBuyForSolBudget r budget' feeBps (.ofInt slippageBps) = .ok q' ∧
        q.tokenAmount ≤ q'.tokenAmount := by
  have hreserves := And.intro hsol htoken
  have hslippage : (0 : ℚ) ≤ ((slippageBps : Int) : ℚ) := by positivity
  constructor
  · -- the budget buys no unit, or the quote passes every check
    rcases le_or_gt (budgetTokens r budget feeBps) 0 with hnone | hpos
    · exact .inl (quoteBuyForSolBudget_of_nonpos hbudget hfee hcomplete hreserves hslippage hnone)
    · right
      obtain ⟨htokens, -⟩ := (tokensForSol_budget hbudget hfee).mpr ⟨hreserves, rfl, hpos⟩
      have hlt := ne_drain htokens hpos
      have hcost := cost_pos hsol hpos.le hlt
      refine ⟨_, quoteBuyForSolBudget_eq_ok_iff.mpr
        ⟨hbudget, hfee, hcomplete, hreserves, hpos, _, hslippage, rfl, rfl⟩, hpos,
        min_le_right _ _, hlt, hcost, total_le_budget hreserves hbudget hfee hlt, ?_⟩
      exact le_markup (hcost.le.trans (le_markup hcost.le hfee)) (headroom_nonneg hslippage)
  · -- the tokens grow with the budget, and with them the larger quote passes
    rintro budget' q hle hquote
    obtain ⟨-, -, -, -, hpos, x, hx, hfinite, rfl⟩ := quoteBuyForSolBudget_eq_ok_iff.mp hquote
    have hmono := budgetTokens_mono hreserves hfee hpos hle hbudget
    exact ⟨_, quoteBuyForSolBudget_eq_ok_iff.mpr ⟨hbudget.trans_le hle, hfee, hcomplete, hreserves,
      hpos.trans_le hmono, x, hx, hfinite, rfl⟩, hmono⟩

/-- A curve that has taken in two SOL since its launch. -/
def youngCurve : CurveReserves where
  virtualSolReserves := 32000000000
  virtualTokenReserves := 1005937500000000
  realSolReserves := 2000000000
  realTokenReserves := 726037500000000
  tokenTotalSupply := 1000000000000000
  complete := false

/-- What half a SOL is quoted there. -/
def youngQuote : BuyQuote where
  tokenAmount := 15332543276834
  solCostLamports := 495294700
  feeLamports := 4705299
  totalLamports := 499999999
  maxSolCostLamports := 507499998
  feeBps := 95

theorem quoteBuyForSolBudget_young :
    quoteBuyForSolBudget youngCurve 500000000 95 (.ofInt (150 : Nat)) = .ok youngQuote := by
  decide +kernel

theorem quoteBuyForSolBudget_total_young :
    ∃ q, quoteBuyForSolBudget youngCurve 600000000 95 (.ofInt (150 : Nat)) = .ok q ∧
      youngQuote.tokenAmount ≤ q.tokenAmount :=
  (quoteBuyForSolBudget_total youngCurve 500000000 95 150 (by decide) (by decide) rfl (by decide)
    (by decide)).2 600000000 youngQuote (by decide) quoteBuyForSolBudget_young

end Buy

/-! ### Trades -/

section Trades

variable {r : CurveReserves} {t c : Int} {ts : List Int}

/-- The product that the curve keeps. -/
def CurveReserves.k (r : CurveReserves) : Int := r.virtualSolReserves * r.virtualTokenReserves

/-- The reserves after `t` tokens were bought for `c` lamports. -/
def CurveReserves.buy (r : CurveReserves) (t c : Int) : CurveReserves :=
  { r with
    virtualSolReserves := r.virtualSolReserves + c
    virtualTokenReserves := r.virtualTokenReserves - t
    realSolReserves := r.realSolReserves + c
    realTokenReserves := r.realTokenReserves - t }

/-- The reserves after `t` tokens were sold for `g` lamports. -/
def CurveReserves.sell (r : CurveReserves) (t g : Int) : CurveReserves :=
  { r with
    virtualSolReserves := r.virtualSolReserves - g
    virtualTokenReserves := r.virtualTokenReserves + t
    realSolReserves := r.realSolReserves - g
    realTokenReserves := r.realTokenReserves + t }

/-- Buy amounts one after the other: what they cost together, and the reserves after them. -/
def buyAll : CurveReserves → List Int → Except PoolError (Int × CurveReserves)
  | r, [] => .ok (0, r)
  | r, t :: ts => do
    let c ← solCostForTokens r t
    let rest ← buyAll (r.buy t c) ts
    return (c + rest.1, rest.2)

/-- What a purchase does to the reserves. -/
theorem solCostForTokens_buy (h : solCostForTokens r t = .ok c) (ht : 0 ≤ t) :
    0 ≤ c ∧ r.k ≤ (r.buy t c).k ∧
      (0 < (r.buy t c).virtualSolReserves ∧ 0 < (r.buy t c).virtualTokenReserves) := by
  obtain ⟨⟨hsol, htoken⟩, hlt, hc⟩ := solCostForTokens_eq_ok_iff.mp h
  simp only [CurveReserves.k, CurveReserves.buy]
  rcases ht.eq_or_lt with rfl | hpos
  · rw [if_pos le_rfl] at hc
    subst hc
    simp [hsol, htoken]
  · rw [if_neg (not_le.mpr hpos)] at hc
    have hcost := cost_pos hsol ht hlt
    have hproduct := product_lt_buy r.virtualSolReserves hlt
    rw [← hc] at hcost hproduct
    exact ⟨hcost.le, hproduct.le, by omega, by omega⟩

/-- Bought in two parts, an amount costs no less; a part may be empty. -/
theorem solCostForTokens_add {u c' c'' : Int} (ht : 0 ≤ t) (hu : 0 ≤ u)
    (h : solCostForTokens r (t + u) = .ok c) (hfirst : solCostForTokens r t = .ok c')
    (hrest : solCostForTokens (r.buy t c') u = .ok c'') : c ≤ c' + c'' := by
  obtain ⟨-, hlt, rfl⟩ := solCostForTokens_eq_ok_iff.mp h
  obtain ⟨-, -, rfl⟩ := solCostForTokens_eq_ok_iff.mp hfirst
  obtain ⟨-, -, rfl⟩ := solCostForTokens_eq_ok_iff.mp hrest
  rcases ht.eq_or_lt with rfl | htpos
  · simp [CurveReserves.buy]
  rcases hu.eq_or_lt with rfl | hupos
  · simp
  rw [if_neg (by omega), if_neg (by omega), if_neg (by omega)]
  exact cost_add_le hu hlt

/-- Piece by piece an amount can be bought where it can be bought at once, for no less. -/
theorem buyAll_cost (hts : ∀ t ∈ ts, 0 ≤ t) (h : solCostForTokens r ts.sum = .ok c) :
    ∃ c' r', buyAll r ts = .ok (c', r') ∧ c ≤ c' ∧ r.k ≤ r'.k := by
  induction ts generalizing r c with
  | nil =>
    obtain ⟨-, -, rfl⟩ := solCostForTokens_eq_ok_iff.mp h
    exact ⟨0, r, rfl, by simp, le_rfl⟩
  | cons t ts ih =>
    rw [List.sum_cons] at h
    have ht := hts t (List.mem_cons_self)
    have hsum : 0 ≤ ts.sum := List.sum_nonneg fun u hu => hts u (List.mem_cons_of_mem _ hu)
    obtain ⟨hreserves, hlt, -⟩ := solCostForTokens_eq_ok_iff.mp h
    -- the first piece, and after it the rest at once
    obtain ⟨c', hfirst⟩ : ∃ c', solCostForTokens r t = .ok c' :=
      ⟨_, solCostForTokens_eq_ok_iff.mpr ⟨hreserves, by omega, rfl⟩⟩
    obtain ⟨hc', hk, hreserves'⟩ := solCostForTokens_buy hfirst ht
    obtain ⟨c'', hrest⟩ : ∃ c'', solCostForTokens (r.buy t c') ts.sum = .ok c'' :=
      ⟨_, solCostForTokens_eq_ok_iff.mpr
        ⟨hreserves', by simp only [CurveReserves.buy]; omega, rfl⟩⟩
    obtain ⟨rest, r', hall, hle, hk'⟩ := ih (fun u hu => hts u (List.mem_cons_of_mem _ hu)) hrest
    refine ⟨c' + rest, r', ?_, ?_, hk.trans hk'⟩
    · simp [buyAll, hfirst, hall, bind, Except.bind, pure, Except.pure]
    · have := solCostForTokens_add ht hsum h hfirst hrest
      omega

/-- **The curve gives nothing away.** Whatever amount can be bought, selling it back returns at
most what was paid; no purchase and no sale lowers the product of the virtual reserves; and bought
in pieces, in any number of them, an amount costs at least what it costs at once. -/
theorem no_free_lunch (r : CurveReserves) (tokenAmount : Int) (hsol : 0 < r.virtualSolReserves)
    (htoken : 0 < r.virtualTokenReserves) (hnonneg : 0 ≤ tokenAmount)
    (hlt : tokenAmount < r.virtualTokenReserves) :
    ∃ c, solCostForTokens r tokenAmount = .ok c ∧
      (∃ g, solForTokens (r.buy tokenAmount c) tokenAmount = .ok g ∧ g ≤ c) ∧
      r.k ≤ (r.buy tokenAmount c).k ∧
      (∀ sold, 0 ≤ sold → ∃ g, solForTokens r sold = .ok g ∧ r.k ≤ (r.sell sold g).k) ∧
      ∀ ts : List Int, (∀ t ∈ ts, 0 ≤ t) → ts.sum = tokenAmount →
        ∃ c' r', buyAll r ts = .ok (c', r') ∧ c ≤ c' := by
  obtain ⟨c, hcost⟩ : ∃ c, solCostForTokens r tokenAmount = .ok c :=
    ⟨_, solCostForTokens_eq_ok_iff.mpr ⟨⟨hsol, htoken⟩, hlt, rfl⟩⟩
  obtain ⟨hc, hk, hreserves⟩ := solCostForTokens_buy hcost hnonneg
  refine ⟨c, hcost, ⟨_, solForTokens_eq_ok_iff.mpr ⟨hreserves, rfl⟩, ?_⟩, hk, ?_, ?_⟩
  · -- the cost is rounded up and what a sale yields down
    obtain ⟨-, -, rfl⟩ := solCostForTokens_eq_ok_iff.mp hcost
    split
    · omega
    · exact (proceeds_lt_cost htoken hlt).le
  · intro sold hsold
    refine ⟨_, solForTokens_eq_ok_iff.mpr ⟨⟨hsol, htoken⟩, rfl⟩, ?_⟩
    simp only [CurveReserves.k, CurveReserves.sell]
    split
    · nlinarith
    · exact product_le_sell htoken hsold
  · rintro ts hts rfl
    obtain ⟨c', r', hall, hle, -⟩ := buyAll_cost hts hcost
    exact ⟨c', r', hall, hle⟩

theorem no_free_lunch_young :
    ∃ c, solCostForTokens youngCurve 1000000000000 = .ok c ∧
      ∃ g, solForTokens (youngCurve.buy 1000000000000 c) 1000000000000 = .ok g ∧ g ≤ c := by
  obtain ⟨c, hcost, hback, -⟩ := no_free_lunch youngCurve 1000000000000 (by decide) (by decide)
    (by decide) (by decide)
  exact ⟨c, hcost, hback⟩

end Trades

end AriOs.Pools.Pumpfun
