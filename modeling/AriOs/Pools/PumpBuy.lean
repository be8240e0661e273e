import AriOs.Pools.PriorityFee
import AriOs.Pools.PumpAccount

/-!
# Buying on the curve

`pumpfun_buy` takes a sum to spend, has the guards look at it, quotes it and builds an intent.
The guards see the sum; the intent authorises the maximum cost of the quote, which has the
slippage bound on top of the total. At a sum close to the cap the one is within it and the other
is not.

## Main results

* `buildBuy_eq_ok` — what stands behind a built intent
-/

namespace AriOs.Pools.Pumpfun

open AriOs.Js AriOs.Arith AriOs.Kernel

/-! ### Guards -/

structure Refusal where
  code : String
  message : String
  deriving DecidableEq, Repr

def throwRefusal (r : Refusal) : PoolError := .guard r.code r.message

/-- The first refusal of a sequence of checks. -/
def first (checks : List (Option Refusal)) : Option Refusal := checks.findSome? id

/-- A refusal, if the condition holds. -/
def refuseIf (c : Prop) [Decidable c] (code message : String) : Option Refusal :=
  if c then some ⟨code, message⟩ else none

/-- The cap on what one action spends of a quote asset. -/
structure QuoteLimits where
  maxSpendPerAction : Int

structure PoolGuardConfig where
  sol : QuoteLimits
  usdc : QuoteLimits
  maxRugHeat : JsNumber
  maxCurveSlippageBps : JsNumber
  minCurveRealSolLamports : Int
  authorityAllowlist : List String
  allowToken2022 : Bool

def limitsFor (cfg : PoolGuardConfig) (mint : String) : Option QuoteLimits :=
  (quoteBucketFor mint).map fun
    | .sol => cfg.sol
    | .usdc => cfg.usdc

/-- The spend cap; an input that is no quote asset is not capped here. -/
def guardSpend (cfg : PoolGuardConfig) (input : TokenAmount) : Option Refusal :=
  first [
    refuseIf (input.amount ≤ 0) "POOL_SPEND_CAP" "input amount must be positive",
    (limitsFor cfg input.mint).bind fun limits =>
      refuseIf (input.amount > limits.maxSpendPerAction) "POOL_SPEND_CAP"
        s!"spend {input.amount} exceeds the per-action cap {limits.maxSpendPerAction}"]

structure MintInfo where
  mint : String
  isToken2022 : Bool
  freezeAuthority : Option String
  mintAuthority : Option String

/-- A text that is there and not empty. -/
def present (s : Option String) : Bool := (s.getD "") ≠ ""

/-- The authorities of one mint; what could not be read is refused. -/
def guardMint (cfg : PoolGuardConfig) : Option MintInfo → Option Refusal
  | none => some ⟨"POOL_MINT_AUTHORITY",
      "mint record unavailable — refusing rather than assuming it is clean"⟩
  | some info => first [
      refuseIf (¬ cfg.allowToken2022 ∧ info.isToken2022) "POOL_TOKEN2022"
        s!"{info.mint} is a Token-2022 mint (transfer fees/hooks); refused",
      refuseIf (info.mint ∉ cfg.authorityAllowlist ∧ present info.mintAuthority)
        "POOL_MINT_AUTHORITY"
        s!"{info.mint} still has a live mint authority (supply can be inflated)",
      refuseIf (info.mint ∉ cfg.authorityAllowlist ∧ present info.freezeAuthority)
        "POOL_FREEZE_AUTHORITY"
        s!"{info.mint} still has a live freeze authority (your tokens can be frozen)"]

def guardTokenAuthorities (cfg : PoolGuardConfig) (mints : List (Option MintInfo)) :
    Option Refusal :=
  if mints = [] then
    some ⟨"POOL_MINT_AUTHORITY", "no mint records supplied — cannot verify authorities"⟩
  else first (mints.map (guardMint cfg))

structure RugHeat where
  score : JsNumber
  reasons : List String

def guardRugHeat (cfg : PoolGuardConfig) : Option RugHeat → Option Refusal
  | none => some ⟨"POOL_RUG_HEAT",
      "no rug-heat reading available — refusing rather than trading blind"⟩
  | some heat => first [
      refuseIf (¬ heat.score.isFinite) "POOL_RUG_HEAT"
        "no rug-heat reading available — refusing rather than trading blind",
      refuseIf (cfg.maxRugHeat.le heat.score) "POOL_RUG_HEAT"
        s!"rug-heat {heat.score}/100 is at or above the {cfg.maxRugHeat} rejection threshold"]

/-- Slippage must be finite, not negative and within the bound. -/
def guardCurveSlippage (cfg : PoolGuardConfig) (slippageBps : JsNumber) : Option Refusal :=
  first [
    refuseIf (¬ slippageBps.isFinite ∨ slippageBps.lt (.ofInt 0)) "POOL_SLIPPAGE"
      s!"slippage must be a finite non-negative bps value, got {slippageBps}",
    refuseIf (cfg.maxCurveSlippageBps.lt slippageBps) "POOL_SLIPPAGE"
      s!"slippage {slippageBps}bps exceeds the {cfg.maxCurveSlippageBps}bps bound"]

/-- The liquidity floor, on what the curve really holds. -/
def guardCurveLiquidity (cfg : PoolGuardConfig) (realSolReserves : Int) (complete : Bool) :
    Option Refusal :=
  first [
    refuseIf complete "POOL_MIGRATED"
      "this curve has completed and migrated — route it through the Jupiter swap path",
    refuseIf (realSolReserves < cfg.minCurveRealSolLamports) "POOL_LIQUIDITY_FLOOR"
      s!"curve holds {realSolReserves} lamports, below the {cfg.minCurveRealSolLamports} floor"]

structure CurveTradeSubject where
  input : TokenAmount
  slippageBps : JsNumber
  realSolReserves : Int
  complete : Bool
  mints : List (Option MintInfo)
  rugHeat : Option RugHeat

/-- Every guard that must pass before a purchase is built. -/
def guardCurveBuy (cfg : PoolGuardConfig) (s : CurveTradeSubject) : Option Refusal :=
  first [
    guardTokenAuthorities cfg s.mints,
    guardRugHeat cfg s.rugHeat,
    guardCurveLiquidity cfg s.realSolReserves s.complete,
    guardCurveSlippage cfg s.slippageBps,
    guardSpend cfg s.input]

/-! ### Routing -/

/-- The curve as the client reads it. -/
structure CurveState extends CurveReserves where
  mint : String
  creator : Option PublicKey
  feeBps : Int
  tokenProgramId : String
  solPaired : Bool
  isMayhemMode : Option Bool
  isCashbackCoin : Option Bool
  raw : BondingCurveAccount

inductive CurveRoute where
  | bondingCurve | jupiter
  deriving DecidableEq

structure RoutingDecision where
  route : CurveRoute
  reason : String
  refusal : Option Refusal

def routeForMissingCurve (mint : String) : RoutingDecision :=
  ⟨.jupiter, s!"{mint} has no pump.fun bonding curve — route it through swap_jupiter", none⟩

def TOKEN_PROGRAM : String := "TokenkegQfeZyiNwAJbNbGKPFXCWuBvf9Ss623VQ5DA"

/-- How a token is traded whose curve could be read. -/
def routeForCurve (curve : CurveState) : RoutingDecision :=
  if curve.complete then
    ⟨.jupiter, s!"{curve.mint} has completed its bonding curve and migrated — " ++
      "route it through swap_jupiter", none⟩
  else if ¬ curve.solPaired then
    ⟨.bondingCurve, "curve is quoted in a non-SOL asset", some ⟨"POOL_UNSUPPORTED_CURVE",
      s!"{curve.mint} is quoted in " ++ (curve.raw.quoteMint.map toBase58).getD "a non-SOL asset" ++
        " and needs pump's buy_v2 path"⟩⟩
  else if curve.tokenProgramId ≠ TOKEN_PROGRAM then
    ⟨.bondingCurve, "Token-2022 base mint", some ⟨"POOL_TOKEN2022",
      s!"{curve.mint} is a Token-2022 mint; the legacy buy/sell instructions do not cover it"⟩⟩
  else if curve.creator = none then
    ⟨.bondingCurve, "curve predates the creator field", some ⟨"POOL_UNSUPPORTED_CURVE",
      s!"{curve.mint} is a pre-creator-fee curve ({curve.raw.rawLength}-byte account); " ++
        "its creator_vault cannot be derived"⟩⟩
  else if curve.isMayhemMode = some true ∨ curve.isCashbackCoin = some true then
    ⟨.bondingCurve, "mayhem/cashback coin", some ⟨"POOL_UNSUPPORTED_CURVE",
      s!"{curve.mint} is a mayhem/cashback coin and needs pump's buy_v2 account layout"⟩⟩
  else
    ⟨.bondingCurve, "live SOL-paired curve", none⟩

/-! ### Building -/

def SOL_DECIMALS : Nat := 9

/-- `toBaseUnits` of a number: the halves of the last digit go up, and a text with a sign or an
exponent is refused. -/
def toBaseUnits (amount : JsNumber) (decimals : Nat) : Except PoolError Int :=
  match amount with
  | .finite q =>
    if q < 0 ∨ 10 ^ 21 ≤ q then
      .error (.other s!"invalid amount for {decimals} decimals: {amount}")
    else .ok (q * 10 ^ decimals + 1 / 2).floor
  | _ => .error (.other s!"invalid amount for {decimals} decimals: {amount}")

structure BuyConfig where
  mint : String
  /-- SOL to spend, all-in -/
  amountUi : JsNumber
  slippageBps : Option JsNumber

def DEFAULT_CURVE_SLIPPAGE_BPS : JsNumber := .ofInt 100

/-- A request that is answered by naming another tool. -/
structure DelegationPayload where
  reason : String
  inputMint : String
  outputMint : String
  amountUi : JsNumber
  slippageBps : Option JsNumber
  deriving DecidableEq

structure PoolsDeps where
  guards : PoolGuardConfig
  priorityFeeLamports : Option JsNumber

/-- What is read while a purchase is built, and the code outside of the repository that puts a
transaction together. -/
structure BuyReads where
  readCurve : Except PoolError (Option CurveState)
  /-- `none` if it could not be read -/
  mintInfo : Option MintInfo
  /-- `none` without a signals engine, or if it throws -/
  rugHeat : Option RugHeat
  /-- the blockhash and its last valid block height -/
  latestBlockhash : Except PoolError (String × Int)
  ownerWallet : String
  ensureUserAtaInstruction : CurveState → Instruction
  computeBudget : ComputeBudgetProgram
  compile : Compile
  summarize : CurveState → BuyQuote → String

def PUMP_PROGRAM_ID : String := "6EF8rrecthR5Dkzon8Nwu78hRvfCKubJ14M5uBEwF6P"

def BUY_DISCRIMINATOR : List UInt8 := [102, 6, 61, 18, 1, 218, 235, 234]

def u64le (v : Int) : Except PoolError (List UInt8) := do
  throwIf (v < 0 ∨ v > 0xffffffffffffffff) (.other s!"value out of u64 range: {v}")
  return toBytes 8 v.toNat

def buildBuyInstruction (tokenAmount maxSolCostLamports : Int) :
    Except PoolError Instruction := do
  let amount ← u64le tokenAmount
  let bound ← u64le maxSolCostLamports
  return ⟨PUMP_PROGRAM_ID, BUY_DISCRIMINATOR ++ amount ++ bound ++ [1]⟩

/-- The accounts of the instruction need the creator of the curve. -/
def ixContext (curve : CurveState) : Except PoolError Unit :=
  throwIf (curve.creator = none) (.guard "POOL_UNSUPPORTED_CURVE"
    s!"{curve.mint}: curve has no creator field; creator_vault cannot be derived")

/-- The intent of a quoted purchase. The amount is exact and the price is bounded, so the
slippage lies on the input leg. -/
def buyDraft (cfg : BuyConfig) (curve : CurveState) (reads : BuyReads) (quote : BuyQuote)
    (slippageBps : JsNumber) (lastValidBlockHeight : Int) (built : BuiltTx) :
    IntentDraft where
  kind := .curveBuy
  source := "pumpfun_buy"
  input := ⟨WSOL_MINT, quote.maxSolCostLamports⟩
  outputMint := cfg.mint
  outputProvenance := some .untrusted
  unsignedTxBase64 := built.unsignedTxBase64
  lastValidBlockHeight
  priorityFeeLamports := .ofInt built.priorityFeeLamports
  summary := reads.summarize curve quote
  expectedOut := quote.tokenAmount
  minOut := quote.tokenAmount
  slippageBps

/-- A purchase on a curve that is traded here. -/
def buildOnCurve (deps : PoolsDeps) (cfg : BuyConfig) (reads : BuyReads) (curve : CurveState) :
    Except PoolError TradeIntent := do
  let slippageBps := cfg.slippageBps.getD DEFAULT_CURVE_SLIPPAGE_BPS
  let solBudget ← toBaseUnits cfg.amountUi SOL_DECIMALS
  match guardCurveBuy deps.guards ⟨⟨WSOL_MINT, solBudget⟩, slippageBps, curve.realSolReserves,
      curve.complete, [reads.mintInfo], reads.rugHeat⟩ with
  | some refusal => .error (throwRefusal refusal)
  | none => do
    let quote ← quoteBuyForSolBudget curve.toCurveReserves solBudget curve.feeBps slippageBps
    let (blockhash, lastValidBlockHeight) ← reads.latestBlockhash
    ixContext curve
    let buy ← buildBuyInstruction quote.tokenAmount quote.maxSolCostLamports
    let built ← (buildUnsignedTx reads.computeBudget reads.compile
      ⟨reads.ownerWallet, [reads.ensureUserAtaInstruction curve, buy], blockhash,
        deps.priorityFeeLamports.getD (.ofInt 200000), none⟩).mapError .other
    toTradeIntent (buyDraft cfg curve reads quote slippageBps lastValidBlockHeight built)

/-- `build` of `pumpfun_buy`: an intent, or the tool to use instead. -/
def buildBuy (deps : PoolsDeps) (cfg : BuyConfig) (reads : BuyReads) :
    Except PoolError (DelegationPayload ⊕ TradeIntent) := do
  let delegated (reason : String) : DelegationPayload :=
    ⟨reason, WSOL_MINT, cfg.mint, cfg.amountUi, cfg.slippageBps⟩
  match ← reads.readCurve with
  | none => return .inl (delegated (routeForMissingCurve cfg.mint).reason)
  | some curve =>
    let route := routeForCurve curve
    if route.route = .jupiter then
      return .inl (delegated route.reason)
    match route.refusal with
    | some refusal => .error (throwRefusal refusal)
    | none => return .inr (← buildOnCurve deps cfg reads curve)

/-! ### What a built intent spends -/

section Spend

variable {deps : PoolsDeps} {cfg : BuyConfig} {reads : BuyReads} {curve : CurveState}
  {intent : TradeIntent} {budget cap slippage : Int} {r : CurveReserves}

theorem first_eq_none {checks : List (Option Refusal)} :
    first checks = none ↔ ∀ c ∈ checks, c = none := by
  simp [first, List.findSome?_eq_none_iff]

theorem refuseIf_eq_none {c : Prop} [Decidable c] {code message : String} :
    refuseIf c code message = none ↔ ¬ c := by
  unfold refuseIf
  split <;> simp_all

/-- The spend guard on SOL: the sum is positive and within the cap. -/
theorem guardSpend_sol {guards : PoolGuardConfig} :
    guardSpend guards ⟨WSOL_MINT, budget⟩ = none ↔
      0 < budget ∧ budget ≤ guards.sol.maxSpendPerAction := by
  have hlimits : limitsFor guards WSOL_MINT = some guards.sol := rfl
  simp [guardSpend, first_eq_none, refuseIf_eq_none, hlimits]

/-- What stands behind a built intent. -/
theorem buildOnCurve_eq_ok (h : buildOnCurve deps cfg reads curve = .ok intent) :
    ∃ budget quote, toBaseUnits cfg.amountUi SOL_DECIMALS = .ok budget ∧
      (0 < budget ∧ budget ≤ deps.guards.sol.maxSpendPerAction) ∧
      quoteBuyForSolBudget curve.toCurveReserves budget curve.feeBps
        (cfg.slippageBps.getD DEFAULT_CURVE_SLIPPAGE_BPS) = .ok quote ∧
      intent.input = ⟨WSOL_MINT, quote.maxSolCostLamports⟩ := by
  simp only [buildOnCurve, bind_eq_ok] at h
  obtain ⟨budget, hbudget, h⟩ := h
  split at h
  · cases h
  · rename_i hguards
    simp only [bind_eq_ok] at h
    obtain ⟨quote, hquote, _, -, -, -, _, -, tx, -, hintent⟩ := h
    have hspend : guardSpend deps.guards ⟨WSOL_MINT, budget⟩ = none :=
      first_eq_none.mp hguards _ (by simp)
    exact ⟨budget, quote, hbudget, guardSpend_sol.mp hspend, hquote,
      (toTradeIntent_eq_ok hintent).2.1⟩

theorem buildBuy_eq_ok (hcurve : reads.readCurve = .ok (some curve))
    (h : buildBuy deps cfg reads = .ok (.inr intent)) :
    buildOnCurve deps cfg reads curve = .ok intent := by
  simp only [buildBuy, hcurve, bind, Except.bind] at h
  split at h
  · simp [pure, Except.pure] at h
  · split at h
    · cases h
    · split at h
      · cases h
      · rename_i built hbuilt
        simp only [pure, Except.pure, Except.ok.injEq, Sum.inr.injEq] at h
        rw [hbuilt, h]

/-- A sum pays for `n` of the tokens that the curve really holds, fees aside. -/
def Affords (r : CurveReserves) (n sum : Int) : Prop :=
  n ≤ r.realTokenReserves ∧
    r.virtualSolReserves * r.virtualTokenReserves <
      (r.virtualSolReserves + sum) * (r.virtualTokenReserves - n)

/-- The largest sum on the curve that the cap still covers with the fee and the slippage. -/
def coveredSum (cap feeBps slippage : Int) : Int := unmarked (unmarked cap slippage) feeBps

/-- The maximum cost of a quote is within a cap exactly if what the budget pays for, the cap pays
for with the slippage. -/
theorem maxSolCost_le_iff {x : ℚ} {quote : BuyQuote} {feeBps : Int} (hcap : 0 ≤ cap)
    (hquote : quoteBuyForSolBudget r budget feeBps (.finite x) = .ok quote) :
    quote.maxSolCostLamports ≤ cap ↔
      ∀ n, Affords r n (budget * 10000 / (10000 + feeBps)) →
        Affords r n (coveredSum cap feeBps (headroom x)) := by
  obtain ⟨hbudget, hfee, -, hreserves, hpos, y, hy, heq, rfl⟩ :=
    quoteBuyForSolBudget_eq_ok_iff.mp hquote
  obtain rfl : x = y := JsNumber.finite.inj heq
  have hround := headroom_nonneg hy
  obtain ⟨htokens, -⟩ := (tokensForSol_budget hbudget hfee).mpr ⟨hreserves, rfl, hpos⟩
  have hlt := ne_drain htokens hpos
  have hleft := Int.ediv_nonneg (by omega : 0 ≤ budget * 10000) (by omega : 0 ≤ 10000 + feeBps)
  have hcovered : 0 ≤ coveredSum cap feeBps (headroom x) :=
    unmarked_nonneg (unmarked_nonneg hcap hround) hfee
  -- the bound is kept exactly if the amount costs no more than the covered sum
  have hcost : (pricedBuy r (budgetTokens r budget feeBps) feeBps
      (headroom x)).maxSolCostLamports ≤ cap ↔
      r.virtualSolReserves * r.virtualTokenReserves <
        (r.virtualSolReserves + coveredSum cap feeBps (headroom x)) *
          (r.virtualTokenReserves - budgetTokens r budget feeBps) := by
    rw [pricedBuy, markup_le_iff hround, markup_le_iff hfee, cost_le_iff_lt hlt, coveredSum]
  rw [hcost]
  constructor
  · rintro hcheap n ⟨hreal, hpays⟩
    have hn : n ≤ budgetTokens r budget feeBps :=
      le_min ((le_bought_iff_lt (by omega)).mpr hpays) hreal
    exact ⟨hreal, hcheap.trans_le (mul_le_mul_of_nonneg_left (by omega) (by omega))⟩
  · intro hall
    refine (hall _ ⟨min_le_right _ _, ?_⟩).2
    exact (le_bought_iff_lt (by omega)).mp (min_le_left _ _)

/-- **What `pumpfun_buy` spends.** The input amount of a built intent is within the cap of the
guards exactly if every amount of tokens that the budget pays for, less the fee, is one that the
cap pays for, less the slippage and the fee. -/
theorem buy_within_cap_iff {x : ℚ} (hcurve : reads.readCurve = .ok (some curve))
    (hbudget : toBaseUnits cfg.amountUi SOL_DECIMALS = .ok budget)
    (hslippage : cfg.slippageBps.getD DEFAULT_CURVE_SLIPPAGE_BPS = .finite x)
    (h : buildBuy deps cfg reads = .ok (.inr intent)) :
    intent.input.amount ≤ deps.guards.sol.maxSpendPerAction ↔
      ∀ n, Affords curve.toCurveReserves n (budget * 10000 / (10000 + curve.feeBps)) →
        Affords curve.toCurveReserves n
          (coveredSum deps.guards.sol.maxSpendPerAction curve.feeBps (headroom x)) := by
  obtain ⟨budget', quote, hbudget', ⟨hpos, hguard⟩, hquote, hinput⟩ :=
    buildOnCurve_eq_ok (buildBuy_eq_ok hcurve h)
  obtain rfl : budget = budget' := Except.ok.inj (hbudget.symm.trans hbudget')
  rw [hslippage] at hquote
  rw [hinput]
  exact maxSolCost_le_iff (hpos.le.trans hguard) hquote

end Spend

/-! ### The default guards -/

/-- The limits that the tools start with. -/
def defaultPoolGuardConfig : PoolGuardConfig where
  sol := ⟨500000000⟩
  usdc := ⟨100000000⟩
  maxRugHeat := .ofInt 60
  maxCurveSlippageBps := .ofInt 300
  minCurveRealSolLamports := 2000000000
  authorityAllowlist := []
  allowToken2022 := false

/-- The young curve, as the client reads it. -/
def youngState : CurveState where
  toCurveReserves := youngCurve
  mint := "pumpMint"
  creator := some (List.replicate 32 7)
  feeBps := 95
  tokenProgramId := TOKEN_PROGRAM
  solPaired := true
  isMayhemMode := none
  isCashbackCoin := none
  raw := ⟨youngCurve, some (List.replicate 32 7), none, none, none, 81⟩

def youngReads : BuyReads where
  readCurve := .ok (some youngState)
  mintInfo := some ⟨"pumpMint", false, none, none⟩
  rugHeat := some ⟨.ofInt 10, []⟩
  latestBlockhash := .ok ("hash", 100)
  ownerWallet := "payer"
  ensureUserAtaInstruction := fun _ => ⟨"ata", [1]⟩
  computeBudget := sampleBudget
  compile := fun _ _ _ => .ok "AQ=="
  summarize := fun _ _ => "Buy"

/-- A request for so much SOL, at one and a half percent of slippage. -/
def youngBuy (amountUi : ℚ) : BuyConfig := ⟨"pumpMint", .finite amountUi, some (.ofInt 150)⟩

/-- The intent for it. -/
def youngIntent (spent tokens : Int) : TradeIntent where
  kind := .curveBuy
  source := "pumpfun_buy"
  input := ⟨WSOL_MINT, spent⟩
  outputMint := "pumpMint"
  inputProvenance := .user
  outputProvenance := .untrusted
  unsignedTxBase64 := "AQ=="
  lastValidBlockHeight := 100
  landMode := .selfRpc
  landHandle := none
  priorityFeeLamports := .ofInt 200000
  quote := ⟨tokens, tokens, .ofInt 150⟩
  perp := none
  summary := "Buy"

theorem buy_within_cap_iff_quarter :
    {n | Affords youngCurve n (250000000 * 10000 / (10000 + 95))} ⊆
      {n | Affords youngCurve n (coveredSum 500000000 95 (headroom (150 : Int)))} :=
  (@buy_within_cap_iff ⟨defaultPoolGuardConfig, none⟩ (youngBuy (1 / 4)) youngReads youngState
    (youngIntent 253749998 7725145138087) 250000000 _ rfl (by decide +kernel) rfl
    (by decide +kernel)).mp (by decide)

/-- Half a SOL is the cap, and passes the guards. What the intent authorises is more. -/
theorem buy_beyond_cap :
    buildBuy ⟨defaultPoolGuardConfig, none⟩ (youngBuy (1 / 2)) youngReads =
      .ok (.inr (youngIntent 507499998 15332543276834)) ∧
    defaultPoolGuardConfig.sol.maxSpendPerAction <
      (youngIntent 507499998 15332543276834).input.amount := by
  refine ⟨by decide +kernel, by decide⟩

end AriOs.Pools.Pumpfun
