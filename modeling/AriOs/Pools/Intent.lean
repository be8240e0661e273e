import AriOs.Kernel.PolicyEngine

/-!
# Intents of the pool tools

A built pool transaction becomes a trade intent of the kernel. An action that withdraws moves
nothing out of the wallet but the cost of its own transaction, so that cost is what it declares
as its input leg.

The kernel takes its proportional fee ceiling relative to the input leg, which here is not much
more than the fee itself: a withdrawal passes only if the fee fits into the configured fraction
of its own cost.
-/

namespace AriOs.Pools

open AriOs.Js AriOs.Kernel

/-! ### Building an intent -/

/-- Base fee of a signature, in lamports. -/
def BASE_FEE_LAMPORTS : Int := 5000

/-- What is thrown here: a refusal with its code, or anything else with its message. -/
inductive PoolError where
  | guard (code message : String)
  | other (message : String)
  deriving DecidableEq, Repr

structure WithdrawArgs where
  priorityFeeLamports : JsNumber
  signatures : Option Int := none
  rentAllowanceLamports : Option Int := none

/-- `BigInt(Math.max(0, Math.floor(n)))`. -/
def atLeastZero (n : JsNumber) : Except PoolError Int :=
  match n with
  | .finite q => .ok (max 0 q.floor)
  | .infinity true => .ok 0
  | n => n.bigInt .other

/-- What a withdrawal costs, with `fee` lamports of priority fee. -/
def withdrawCost (args : WithdrawArgs) (fee : Int) : Int :=
  fee + BASE_FEE_LAMPORTS * max 1 (args.signatures.getD 1) + args.rentAllowanceLamports.getD 0

/-- The input leg of a withdrawal: the transaction's own cost ceiling. -/
def withdrawInputLeg (args : WithdrawArgs) : Except PoolError TokenAmount := do
  let fee ← atLeastZero args.priorityFeeLamports
  let amount := withdrawCost args fee
  return ⟨WSOL_MINT, if amount > 0 then amount else 1⟩

structure IntentDraft where
  kind : IntentKind
  source : String
  input : TokenAmount
  outputMint : String
  inputProvenance : Option MintProvenance := none
  outputProvenance : Option MintProvenance := none
  unsignedTxBase64 : String
  lastValidBlockHeight : Int
  priorityFeeLamports : JsNumber
  summary : String
  expectedOut : Int
  minOut : Int
  slippageBps : JsNumber

/-- Assemble an intent, with the checks that name the builder. -/
def toTradeIntent (d : IntentDraft) : Except PoolError TradeIntent := do
  throwIf (d.input.amount ≤ 0)
    (.guard "POOL_SPEND_CAP" s!"{d.source}: input leg must be positive")
  throwIf (d.minOut > d.expectedOut)
    (.guard "POOL_SLIPPAGE" s!"{d.source}: minOut {d.minOut} exceeds expectedOut {d.expectedOut}")
  throwIf (d.unsignedTxBase64 = "")
    (.guard "POOL_VENUE_ERROR" s!"{d.source}: no transaction was built")
  throwIf (¬ d.priorityFeeLamports.isFinite ∨ d.priorityFeeLamports.lt (.ofInt 0))
    (.guard "POOL_VENUE_ERROR" s!"{d.source}: priority fee must be finite and non-negative")
  return {
    kind := d.kind
    source := d.source
    input := d.input
    outputMint := d.outputMint
    inputProvenance := d.inputProvenance.getD .user
    outputProvenance := d.outputProvenance.getD .untrusted
    unsignedTxBase64 := d.unsignedTxBase64
    lastValidBlockHeight := d.lastValidBlockHeight
    landMode := .selfRpc
    landHandle := none
    priorityFeeLamports := d.priorityFeeLamports.floor
    quote := ⟨d.expectedOut, d.minOut, d.slippageBps.round⟩
    perp := none
    summary := d.summary }

/-- The actions that withdraw. The intent of a rebalance is its exit half. -/
def Withdraws (k : IntentKind) : Prop :=
  k = .lpRemove ∨ k = .lpClose ∨ k = .lpClaim ∨ k = .lpRebalance

/-! ### Refusals for the priority fee -/

/-- The refusal is for the priority fee: it is invalid or too high, or the fraction it may be of
the input leg is none. -/
def FeeRefusal : KernelError → Prop
  | .guard .priorityFeeInvalid _ | .guard .priorityFeeExceeded _ | .other _ => True
  | .guard _ _ => False

section Guards

variable {policy : PolicyConfig} {intent : TradeIntent} {opts : GuardOptions} {e : KernelError}

theorem not_feeRefusal_inputAmountGuard (h : inputAmountGuard intent = .error e) :
    ¬ FeeRefusal e := by
  unfold inputAmountGuard at h
  split at h <;> obtain ⟨-, rfl⟩ := throwIf_eq_error.mp h <;> exact id

theorem not_feeRefusal_perpLegGuard (h : perpLegGuard intent = .error e) : ¬ FeeRefusal e := by
  unfold perpLegGuard at h
  split at h
  · split at h
    · obtain rfl := Except.error.inj h
      exact id
    · simp only [bind_eq_error, throwIf_eq_error] at h
      obtain ⟨-, rfl⟩ | ⟨-, -, -, rfl⟩ := h <;> exact id
  · obtain ⟨-, rfl⟩ := throwIf_eq_error.mp h
    exact id

theorem not_feeRefusal_slippageGuard (h : slippageGuard policy intent = .error e) :
    ¬ FeeRefusal e := by
  simp only [slippageGuard, bind_eq_error, throwIf_eq_error] at h
  obtain ⟨-, rfl⟩ | ⟨-, -, -, rfl⟩ := h <;> exact id

theorem not_feeRefusal_mintGuard {mint : String} (h : mintGuard policy mint = .error e) :
    ¬ FeeRefusal e := by
  simp only [mintGuard, bind_eq_error, throwIf_eq_error] at h
  obtain ⟨-, rfl⟩ | ⟨-, -, -, rfl⟩ := h <;> exact id

/-- Only the fee guard refuses for the fee. -/
theorem priorityFeeGuard_of_feeRefusal (h : staticGuards policy intent opts = .error e)
    (hfee : FeeRefusal e) : priorityFeeGuard policy intent = .error e := by
  simp only [staticGuards, bind_eq_error, throwIf_eq_error] at h
  rcases h with ⟨-, rfl⟩ | ⟨-, -, ⟨-, rfl⟩ | ⟨-, -, ⟨-, rfl⟩ | ⟨-, -, h | ⟨-, -, h | ⟨-, -, h⟩⟩⟩⟩⟩
  · exact hfee.elim
  · exact hfee.elim
  · exact hfee.elim
  · exact absurd hfee (not_feeRefusal_inputAmountGuard h)
  · exact absurd hfee (not_feeRefusal_perpLegGuard h)
  · rcases h with ⟨-, rfl⟩ | ⟨-, -, ⟨-, rfl⟩ | ⟨-, -, h | ⟨-, -, h | ⟨-, -, h | ⟨-, -, h⟩⟩⟩⟩⟩
    · exact hfee.elim
    · exact hfee.elim
    · exact h
    · exact absurd hfee (not_feeRefusal_slippageGuard h)
    · exact absurd hfee (not_feeRefusal_mintGuard h)
    · exact absurd hfee (not_feeRefusal_mintGuard h)

theorem feeRefusal_of_priorityFeeGuard (h : priorityFeeGuard policy intent = .error e) :
    FeeRefusal e := by
  simp only [priorityFeeGuard, bind_eq_error, throwIf_eq_error] at h
  obtain ⟨-, rfl⟩ | ⟨-, -, ⟨-, rfl⟩ | ⟨-, -, h⟩⟩ := h
  · trivial
  · trivial
  · split at h
    · simp only [bind_eq_error, JsNumber.bigInt_eq_error, throwIf_eq_error] at h
      obtain ⟨-, rfl⟩ | ⟨_, -, -, rfl⟩ := h <;> trivial
    · cases h

/-- With the kill switch off and the user's confirmation, nothing stands before the fee guard
that a well-formed intent does not pass. -/
theorem staticGuards_of_priorityFeeGuard (hkill : policy.killSwitch = false)
    (hkind : intent.kind.isIntentKind = true) (hinput : inputAmountGuard intent = .ok ())
    (hperp : perpLegGuard intent = .ok ()) (htx : intent.unsignedTxBase64 ≠ "")
    (h : priorityFeeGuard policy intent = .error e) :
    staticGuards policy intent ⟨true, true⟩ = .error e := by
  simp only [staticGuards, bind_eq_error, throwIf_eq_error, throwIf_eq_ok]
  refine .inr ⟨(), by simp [hkill], .inr ⟨(), by simp, .inr ⟨(), by simp [hkind], ?_⟩⟩⟩
  refine .inr ⟨(), hinput, .inr ⟨(), hperp, .inr ⟨(), htx, .inr ⟨(), by simp, .inl h⟩⟩⟩⟩

/-- What the fee guard asks of an intent that spends the native asset. -/
theorem priorityFeeGuard_eq_ok_iff {fee : Int} (hfee : intent.priorityFeeLamports = .ofInt fee)
    (hpos : 0 ≤ fee) (hmax : fee ≤ policy.priorityFeeMaxLamports)
    (hmint : intent.input.mint = WSOL_MINT) (hamount : 0 < intent.input.amount) :
    priorityFeeGuard policy intent = .ok () ↔ ∃ bps, policy.priorityFeeMaxBps.toBigInt? = some bps ∧
      fee ≤ (intent.input.amount * bps).tdiv 10000 := by
  have hbucket : (quoteBucketFor intent.input.mint).isSome = true := by
    rw [hmint]
    decide
  -- the fee is whole, and within the absolute maximum
  have hfloor : (JsNumber.ofInt fee).floor? = some fee := by simp [JsNumber.ofInt, JsNumber.floor?]
  have hvalid : ¬ ((JsNumber.ofInt fee).lt (.ofInt 0) = true ∨
      ¬ (JsNumber.ofInt fee).isFinite = true) := by
    simp [JsNumber.ofInt, JsNumber.lt_finite, JsNumber.isFinite, hpos]
  simp only [priorityFeeGuard, bind_eq_ok, throwIf_eq_ok, hfee, hfloor, Option.getD_some,
    if_pos (And.intro hbucket hamount)]
  simp only [JsNumber.bigInt_eq_ok, not_lt]
  constructor
  · rintro ⟨_, _, _, _, h⟩
    exact h
  · intro h
    exact ⟨(), hvalid, (), by omega, h⟩

end Guards

/-! ### Withdrawals -/

/-- What the assembled intent takes over from its draft. -/
theorem toTradeIntent_eq_ok {d : IntentDraft} {intent : TradeIntent}
    (h : toTradeIntent d = .ok intent) :
    0 < d.input.amount ∧ intent.input = d.input ∧ intent.kind = d.kind ∧
      intent.unsignedTxBase64 ≠ "" ∧ intent.perp = none ∧
      ∃ q, d.priorityFeeLamports = .finite q ∧ 0 ≤ q ∧
        intent.priorityFeeLamports = .ofInt q.floor := by
  simp only [toTradeIntent, bind_eq_ok, throwIf_eq_ok, not_le] at h
  obtain ⟨-, hamount, -, -, -, htx, -, hfee, heq⟩ := h
  obtain rfl := Except.ok.inj heq
  refine ⟨hamount, rfl, rfl, htx, rfl, ?_⟩
  cases hq : d.priorityFeeLamports with
  | finite q =>
    rw [hq] at hfee
    simp only [JsNumber.isFinite, JsNumber.ofInt, JsNumber.lt_finite, not_true, false_or,
      decide_eq_true_eq, Int.cast_zero, not_lt] at hfee
    exact ⟨q, rfl, hfee, rfl⟩
  | nan | infinity => simp [hq, JsNumber.isFinite] at hfee

/-- A withdrawal within the lamport ceiling is not refused for its priority fee, whatever the
caller confirms, iff the kill switch refuses it before or the fee fits into the fraction of its
own cost. -/
theorem withdraw_not_refused_iff {policy : PolicyConfig} {args : WithdrawArgs} {d : IntentDraft}
    {intent : TradeIntent} {q : ℚ} (hleg : withdrawInputLeg args = .ok d.input)
    (hfee : d.priorityFeeLamports = args.priorityFeeLamports) (hkind : Withdraws d.kind)
    (hintent : toTradeIntent d = .ok intent) (hq : d.priorityFeeLamports = .finite q)
    (hmax : q.floor ≤ policy.priorityFeeMaxLamports) :
    (∀ opts e, staticGuards policy intent opts = .error e → ¬ FeeRefusal e) ↔
      policy.killSwitch = true ∨ ∃ bps, policy.priorityFeeMaxBps.toBigInt? = some bps ∧
        q.floor ≤ ((if withdrawCost args q.floor > 0 then withdrawCost args q.floor else 1) *
          bps).tdiv 10000 := by
  obtain ⟨hamount, hinput, hkind', htx, hperp, q', hq', hpos, hfee'⟩ := toTradeIntent_eq_ok hintent
  obtain rfl : q = q' := JsNumber.finite.inj (hq.symm.trans hq')
  have hfloor : 0 ≤ q.floor := Int.floor_nonneg.mpr hpos
  -- the leg is the cost of the transaction
  have hcost : d.input = ⟨WSOL_MINT,
      if withdrawCost args q.floor > 0 then withdrawCost args q.floor else 1⟩ := by
    have hzero : atLeastZero (.finite q) = .ok q.floor := by
      rw [atLeastZero, max_eq_right hfloor]
    rw [withdrawInputLeg, ← hfee, hq, hzero] at hleg
    exact (Except.ok.inj hleg).symm
  have hguard := priorityFeeGuard_eq_ok_iff hfee' hfloor hmax (by rw [hinput, hcost])
    (by rwa [hinput])
  rw [hinput] at hguard
  rw [show d.input.amount = _ from congrArg TokenAmount.amount hcost] at hguard
  rw [← hguard]
  constructor
  · intro hnever
    by_contra hnot
    rw [not_or, Bool.not_eq_true] at hnot
    -- with the switch off nothing else keeps the fee guard from refusing
    cases hout : priorityFeeGuard policy intent with
    | ok u => exact hnot.2 hout
    | error e =>
      refine hnever ⟨true, true⟩ e (staticGuards_of_priorityFeeGuard hnot.1 ?_ ?_ ?_ htx hout)
        (feeRefusal_of_priorityFeeGuard hout)
      · rw [hkind']
        obtain h | h | h | h := hkind <;> rw [h] <;> rfl
      · have hpays : intent.kind.postsZeroCollateral = false := by
          rw [hkind']
          obtain h | h | h | h := hkind <;> rw [h] <;> rfl
        rw [inputAmountGuard, hpays, if_neg (by simp), throwIf_eq_ok, hinput]
        omega
      · have hswap : intent.kind.isPerpIntentKind = false := by
          rw [hkind']
          obtain h | h | h | h := hkind <;> rw [h] <;> rfl
        rw [perpLegGuard, hswap, if_neg (by simp), throwIf_eq_ok, hperp]
        exact not_not.mpr rfl
  · rintro (hkill | hok) opts e herr hrefusal
    · -- an engaged kill switch is the first thing that is looked at
      simp only [staticGuards, hkill, throwIf, if_true] at herr
      obtain rfl := Except.error.inj herr
      exact hrefusal
    · rw [priorityFeeGuard_of_feeRefusal herr hrefusal] at hok
      cases hok

/-! ### The default policy -/

/-- The fractions and ceilings a kernel starts with, armed. -/
def armedPolicy (priorityFeeMaxBps : JsNumber) : PolicyConfig where
  executionEnabled := true
  killSwitch := false
  maxSlippageBps := .ofInt 100
  capsSol := ⟨1000000000, 5000000000, 10000000000⟩
  capsUsdc := ⟨200000000, 1000000000, 2000000000⟩
  mintAllowlist := none
  mintDenylist := []
  allowToken2022 := false
  priorityFeeMaxLamports := 5000000
  priorityFeeMaxBps := priorityFeeMaxBps

/-- Closing a position, at the fee the tool uses by default. -/
def closeDraft : IntentDraft where
  kind := .lpClose
  source := "pools_close"
  input := ⟨WSOL_MINT, 205000⟩
  outputMint := USDC_MINT
  unsignedTxBase64 := "AQ=="
  lastValidBlockHeight := 100
  priorityFeeLamports := .ofInt 200000
  summary := "Withdraw 100.00%"
  expectedOut := 0
  minOut := 0
  slippageBps := .ofInt 0

def closeIntent : TradeIntent where
  kind := .lpClose
  source := "pools_close"
  input := ⟨WSOL_MINT, 205000⟩
  outputMint := USDC_MINT
  inputProvenance := .user
  outputProvenance := .untrusted
  unsignedTxBase64 := "AQ=="
  lastValidBlockHeight := 100
  landMode := .selfRpc
  landHandle := none
  priorityFeeLamports := .ofInt 200000
  quote := ⟨0, 0, .ofInt 0⟩
  perp := none
  summary := "Withdraw 100.00%"

theorem withdraw_not_refused_iff_sample :
    {e | ∃ opts, staticGuards (armedPolicy (.ofInt 9800)) closeIntent opts = .error e ∧
      FeeRefusal e} = ∅ := by
  have hpass := (@withdraw_not_refused_iff (armedPolicy (.ofInt 9800)) ⟨.ofInt 200000, none, none⟩
    closeDraft closeIntent _ rfl rfl (.inr (.inl rfl)) (by decide +kernel) rfl
    (by decide)).mpr (.inr ⟨9800, by decide, by decide⟩)
  rw [Set.eq_empty_iff_forall_notMem]
  rintro e ⟨opts, herror, hfee⟩
  exact hpass opts e herror hfee

/-- Under the default policy the default fee of a close is refused. -/
theorem default_close_refused :
    withdrawInputLeg ⟨.ofInt 200000, none, none⟩ = .ok closeDraft.input ∧
    toTradeIntent closeDraft = .ok closeIntent ∧
    (200000 : Int) ≤ (armedPolicy (.ofInt 50)).priorityFeeMaxLamports ∧
    staticGuards (armedPolicy (.ofInt 50)) closeIntent ⟨false, true⟩ = .error (.guard
      .priorityFeeExceeded "priority fee 200000 lamports exceeds 50bps of notional (1025)") := by
  refine ⟨by decide +kernel, by decide +kernel, by decide, by decide +kernel⟩

end AriOs.Pools
