import AriOs.Kernel.Contracts

/-!
# Static guards

The checks of an intent that need no network: sourced from the policy and from the
intent's own claims, first failure wins.
-/

namespace AriOs.Kernel

open AriOs.Js

/-- Tolerance between the route's encoded min-out and the clamped slippage. -/
def MIN_OUT_TOLERANCE_BPS : JsNumber := .ofInt 50

structure GuardOptions where
  dryRun : Bool
  confirmedByUser : Bool

/-- The input leg must be a real outflow for every kind that has one. -/
def inputAmountGuard (intent : TradeIntent) : Except KernelError Unit :=
  if intent.kind.postsZeroCollateral then
    throwIf (intent.input.amount < 0) (.guard .invalidIntent "input amount must not be negative")
  else
    throwIf (intent.input.amount ≤ 0) (.guard .invalidIntent "input amount must be positive")

/-- A perp leg is required for a perp kind and forbidden for anything else. -/
def perpLegGuard (intent : TradeIntent) : Except KernelError Unit :=
  if intent.kind.isPerpIntentKind then
    match intent.perp with
    | none =>
      .error (.guard .invalidIntent s!"intent kind {intent.kind.name} is missing its perp leg")
    | some perp => do
      throwIf (perp.minBaseAmount > perp.expectedBaseAmount)
        (.guard .invalidIntent "perp minimum base size exceeds the expected size")
      throwIf (perp.expectedBaseAmount ≤ 0)
        (.guard .invalidIntent "perp expected base size must be positive")
  else
    throwIf (intent.perp ≠ none)
      (.guard .invalidIntent s!"intent kind {intent.kind.name} must not carry a perp leg")

/-- The priority fee is capped by an absolute ceiling and, where there is a quote-asset
notional, by a fraction of it. -/
def priorityFeeGuard (policy : PolicyConfig) (intent : TradeIntent) :
    Except KernelError Unit := do
  throwIf (intent.priorityFeeLamports.lt (.ofInt 0) ∨ ¬ intent.priorityFeeLamports.isFinite)
    (.guard .priorityFeeInvalid "priority fee must be a finite, non-negative lamport amount")
  let feeLamports := intent.priorityFeeLamports.floor?.getD 0
  throwIf (feeLamports > policy.priorityFeeMaxLamports)
    (.guard .priorityFeeExceeded
      s!"priority fee {feeLamports} lamports exceeds the {policy.priorityFeeMaxLamports} lamport ceiling")
  if (quoteBucketFor intent.input.mint).isSome ∧ intent.input.amount > 0 then
    let bps ← policy.priorityFeeMaxBps.bigInt .other
    let bpsCeiling := (intent.input.amount * bps).tdiv 10000
    throwIf (feeLamports > bpsCeiling)
      (.guard .priorityFeeExceeded
        s!"priority fee {feeLamports} lamports exceeds {bps}bps of notional ({bpsCeiling})")
  else
    .ok ()

/-- Slippage is clamped, and the route's worst-case output must agree with the clamp. -/
def slippageGuard (policy : PolicyConfig) (intent : TradeIntent) : Except KernelError Unit := do
  throwIf (policy.maxSlippageBps.lt intent.quote.slippageBps)
    (.guard .slippageExceeded
      s!"slippage {intent.quote.slippageBps}bps exceeds max {policy.maxSlippageBps}bps")
  let impliedBps := slippageBps intent.quote.outAmount intent.quote.minOutAmount
  throwIf ((policy.maxSlippageBps.add MIN_OUT_TOLERANCE_BPS).lt impliedBps)
    (.guard .minOutMismatch
      s!"route min-out implies {impliedBps}bps slippage, above the clamp")

/-- Mint allow and deny lists, on both legs. -/
def mintGuard (policy : PolicyConfig) (mint : String) : Except KernelError Unit := do
  throwIf (policy.mintDenylist.contains mint)
    (.guard .mintDenied s!"mint {mint} is on the denylist")
  throwIf (∃ allowed ∈ policy.mintAllowlist, ¬ allowed.contains mint)
    (.guard .mintDenied s!"mint {mint} is not on the allowlist")

/-- The guards that need no network, in the order they are checked. -/
def staticGuards (policy : PolicyConfig) (intent : TradeIntent) (opts : GuardOptions) :
    Except KernelError Unit := do
  throwIf policy.killSwitch
    (.guard .killSwitch "kill switch is engaged — all trading is halted")
  throwIf (¬ opts.dryRun ∧ ¬ policy.executionEnabled)
    (.guard .executionDisabled
      "execution is disabled — the kernel is in dry-run; arm it before trading")
  throwIf (¬ intent.kind.isIntentKind)
    (.guard .invalidIntent s!"unsupported intent kind: {intent.kind.name}")
  inputAmountGuard intent
  perpLegGuard intent
  throwIf (intent.unsignedTxBase64 = "")
    (.guard .invalidIntent "intent is missing its built transaction")
  throwIf ((intent.inputProvenance = .untrusted ∨ intent.outputProvenance = .untrusted) ∧
      ¬ opts.confirmedByUser)
    (.guard .mintNotPinned
      "a mint in this trade is not pinned by you — explicit confirmation required")
  priorityFeeGuard policy intent
  slippageGuard policy intent
  mintGuard policy intent.input.mint
  mintGuard policy intent.outputMint

theorem inputAmountGuard_nonneg {intent : TradeIntent} {u : Unit}
    (h : inputAmountGuard intent = .ok u) : 0 ≤ intent.input.amount := by
  unfold inputAmountGuard at h
  split at h <;> rw [throwIf_eq_ok] at h <;> omega

/-- What the caps are charged with is never negative. -/
theorem staticGuards_amount_nonneg {policy : PolicyConfig} {intent : TradeIntent}
    {opts : GuardOptions} {u : Unit} (h : staticGuards policy intent opts = .ok u) :
    0 ≤ intent.input.amount := by
  cases hin : inputAmountGuard intent with
  | ok u => exact inputAmountGuard_nonneg hin
  | error e =>
    -- the guards before it do not matter: after them the sequence stops here
    unfold staticGuards at h
    simp only [hin, bind, Except.bind] at h
    repeat' split at h
    all_goals simp at h

end AriOs.Kernel
