import AriOs.Execution.Control
import AriOs.Storage.Total
import Mathlib.Data.List.Induction

/-!
# Trading control

`TradingControl` decides about a trade in one transaction on the ledger: it expires what has
lapsed, checks the request against the policy and against what the ledger holds, and reserves
the amount if nothing speaks against it. The hourly and daily limits are checked nowhere else,
while rows lapse, are committed with a new time and the windows slide on.

That the limits hold at every moment all the same rests on one bound kept by every
transaction: what is still reserved, lapsed or not, together with what was committed within a
window, is within the limit. A row that has lapsed but is still there may yet be committed, so
it has to stay in the sum; and no trade is let in past such a row, since deciding about one
deletes it first.
-/

namespace AriOs.Execution

open AriOs.Storage

/-! ### Policies and requests -/

structure AllowLists where
  chains : List Int
  accounts : List String
  tokens : List String
  routers : List String
  targets : List String
  selectors : List String
  recipients : List String
  deriving DecidableEq, Repr

structure PolicyLimits where
  perTrade : Int
  assetHourly : Int
  assetDaily : Int
  strategyHourly : Int
  strategyDaily : Int
  totalExposure : Int
  assetExposure : Int
  concentrationBps : Int
  drawdown : Int
  totalLoss : Int
  deriving DecidableEq, Repr

structure MarketLimits where
  maxQuoteAge : Int
  maxSlippageBps : Int
  maxImpactBps : Int
  maxGas : Int
  maxFees : Int
  minLiquidity : Int
  maxTaxBps : Int
  allowProxy : Bool
  maxOracleAge : Int
  requireSequencerUp : Bool
  deriving DecidableEq, Repr

structure PolicyDocument where
  version : String
  effectiveAt : Int
  expiresAt : Int
  allow : AllowLists
  limits : PolicyLimits
  market : MarketLimits
  deadManAfter : Int
  globalKill : Bool
  strategyKills : List String
  deriving DecidableEq, Repr

structure TradeRequest where
  id : String
  now : Int
  chain : Int
  account : String
  tokenIn : String
  tokenOut : String
  router : String
  target : String
  selector : String
  recipient : String
  strategy : String
  amount : Int
  approvalAmount : Int
  quoteAt : Int
  slippageBps : Int
  impactBps : Int
  gas : Int
  fees : Int
  liquidity : Int
  taxBps : Int
  isProxy : Bool
  oracleAt : Int
  sequencerUp : Bool
  portfolioExposure : Int
  assetExposure : Int
  portfolioValue : Int
  peakValue : Int
  realizedLoss : Int
  unrealizedLoss : Int
  lastHeartbeat : Int
  deriving DecidableEq, Repr

/-- An allow list is neither empty nor does it repeat itself, and names no empty text. -/
def validNames (l : List String) : Bool := l ≠ [] && decide l.Nodup && l.all (· ≠ "")

/-- `validatePolicy`. -/
def validatePolicy (p : PolicyDocument) : Bool :=
  p.version = "1" && 0 ≤ p.effectiveAt && p.effectiveAt < p.expiresAt &&
  p.allow.chains ≠ [] && decide p.allow.chains.Nodup &&
  [p.allow.accounts, p.allow.tokens, p.allow.routers, p.allow.targets, p.allow.selectors,
    p.allow.recipients].all validNames &&
  [p.limits.perTrade, p.limits.assetHourly, p.limits.assetDaily, p.limits.strategyHourly,
    p.limits.strategyDaily, p.limits.totalExposure, p.limits.assetExposure,
    p.limits.concentrationBps, p.limits.drawdown, p.limits.totalLoss, p.market.maxQuoteAge,
    p.market.maxSlippageBps, p.market.maxImpactBps, p.market.maxGas, p.market.maxFees,
    p.market.minLiquidity, p.market.maxTaxBps, p.market.maxOracleAge, p.deadManAfter].all
      (0 ≤ ·) &&
  p.limits.concentrationBps ≤ 10000 && p.market.maxSlippageBps ≤ 10000 &&
  p.market.maxImpactBps ≤ 10000 && p.market.maxTaxBps ≤ 10000

/-- A control with a policy its constructor accepted, over a ledger. -/
structure TradingControl where
  p : PolicyDocument
  valid : validatePolicy p = true
  ledger : LedgerOptions

/-! ### The decision -/

/-- `if (x) r.push(s)`. -/
def bad (x : Prop) [Decidable x] (s : String) : List String := if x then [s] else []

/-- `usage`: what the rows selected by `p` add up to in the window of width `w`. -/
def Ledger.usage (l : Ledger) (now w : Int) (p : Reservation → Bool) : Int :=
  l.total (fun r => now - w < r.at_ && r.at_ ≤ now && p r) Reservation.amount

/-- `reserve`: an entry that makes no sense, an id that is there and what fits no column are
all refused. -/
def Ledger.reserve (l : Ledger) (o : LedgerOptions) (e : LedgerEntry) : Bool × Ledger :=
  if e.id = "" ∨ e.at_ < 0 ∨ e.amount ≤ 0 ∨ ¬ fitsInt64 e.at_ ∨ ¬ fitsInt64 e.amount ∨
      ¬ fitsInt64 (e.at_ + o.reservationTtl) then (false, l)
  else match l.insert? (reservedRow o e ⟨0, none⟩) with
    | some l' => (true, l')
    | none => (false, l)

structure Decision where
  allowed : Bool
  reasons : List String
  reservationId : Option String
  deriving DecidableEq, Repr

namespace TradingControl

variable (C : TradingControl)

/-- What the request says by itself. -/
def requestReasons (t : TradeRequest) (policySigned : Bool) : List String :=
  let p := C.p
  bad (policySigned = false) "policy_signature_invalid" ++
  bad ((∃ x ∈ [t.now, t.chain, t.amount, t.approvalAmount, t.quoteAt, t.slippageBps, t.impactBps,
    t.gas, t.fees, t.liquidity, t.taxBps, t.oracleAt, t.portfolioExposure, t.assetExposure,
    t.portfolioValue, t.peakValue, t.realizedLoss, t.unrealizedLoss, t.lastHeartbeat],
      x < 0) ∨ t.amount = 0) "invalid_numeric_input" ++
  bad (t.amount ≤ 0) "invalid_amount" ++
  bad (t.now < t.quoteAt) "quote_future" ++
  bad (t.now < t.oracleAt) "oracle_future" ++
  bad (t.now < t.lastHeartbeat) "heartbeat_future" ++
  bad (t.now < p.effectiveAt ∨ p.expiresAt ≤ t.now) "policy_inactive" ++
  bad (p.globalKill = true) "global_kill_switch" ++
  bad (t.strategy ∈ p.strategyKills) "strategy_kill_switch" ++
  bad (t.chain ∉ p.allow.chains) "chain_not_allowed" ++
  bad (t.account ∉ p.allow.accounts) "account_not_allowed" ++
  bad (t.tokenIn ∉ p.allow.tokens ∨ t.tokenOut ∉ p.allow.tokens) "token_not_allowed" ++
  bad (t.router ∉ p.allow.routers) "router_not_allowed" ++
  bad (t.target ∉ p.allow.targets) "target_not_allowed" ++
  bad (t.selector ∉ p.allow.selectors) "selector_not_allowed" ++
  bad (t.recipient ∉ p.allow.recipients) "recipient_not_allowed" ++
  bad (t.approvalAmount ≠ t.amount) "approval_not_exact" ++
  bad (p.limits.perTrade < t.amount) "per_trade_limit_exceeded" ++
  bad (p.market.maxQuoteAge < t.now - t.quoteAt) "quote_stale" ++
  bad (p.market.maxSlippageBps < t.slippageBps) "slippage_exceeded" ++
  bad (p.market.maxImpactBps < t.impactBps) "impact_exceeded" ++
  bad (p.market.maxGas < t.gas) "gas_exceeded" ++
  bad (p.market.maxFees < t.fees) "fees_exceeded" ++
  bad (t.liquidity < p.market.minLiquidity) "liquidity_too_low" ++
  bad (p.market.maxTaxBps < t.taxBps) "tax_exceeded" ++
  bad (t.isProxy = true ∧ p.market.allowProxy = false) "proxy_forbidden" ++
  bad (p.market.maxOracleAge < t.now - t.oracleAt) "oracle_stale" ++
  bad (p.market.requireSequencerUp = true ∧ t.sequencerUp = false) "sequencer_down"

/-- What the request says together with the rows that have not lapsed. -/
def exposureReasons (t : TradeRequest) (live : Ledger) : List String :=
  let p := C.p
  let asset := live.exposure t.tokenIn
  let total := (live.rows.map Reservation.amount).sum
  bad (p.limits.totalExposure < t.portfolioExposure + total + t.amount)
    "total_exposure_exceeded" ++
  bad (p.limits.assetExposure < t.assetExposure + asset + t.amount) "asset_exposure_exceeded" ++
  bad (t.portfolioValue ≤ 0 ∨ p.limits.concentrationBps * t.portfolioValue <
    (t.assetExposure + asset + t.amount) * 10000) "concentration_exceeded" ++
  bad (t.portfolioValue < t.peakValue ∧ p.limits.drawdown < t.peakValue - t.portfolioValue)
    "drawdown_exceeded" ++
  bad (p.limits.totalLoss < t.realizedLoss + t.unrealizedLoss) "loss_exceeded" ++
  bad (p.deadManAfter < t.now - t.lastHeartbeat) "dead_man_switch"

/-- What the windows say. -/
def windowReasons (t : TradeRequest) (live : Ledger) : List String :=
  let l := C.p.limits
  let u (w : Int) (f : Reservation → Bool) := live.usage t.now w f + t.amount
  bad (l.assetHourly < u 3600 fun r => r.asset = t.tokenIn) "asset_hourly_limit_exceeded" ++
  bad (l.assetDaily < u 86400 fun r => r.asset = t.tokenIn) "asset_daily_limit_exceeded" ++
  bad (l.strategyHourly < u 3600 fun r => r.strategy = t.strategy)
    "strategy_hourly_limit_exceeded" ++
  bad (l.strategyDaily < u 86400 fun r => r.strategy = t.strategy)
    "strategy_daily_limit_exceeded"

/-- `evaluate`, on a ledger from which what has lapsed was deleted. -/
def evaluate (t : TradeRequest) (policySigned : Bool) (live : Ledger) : Decision × Ledger :=
  let reasons := C.requestReasons t policySigned ++ C.exposureReasons t live ++
    C.windowReasons t live ++ bad (live.has t.id = true) "duplicate_trade_id"
  if reasons ≠ [] then (⟨false, reasons, none⟩, live)
  else
    let out := live.reserve C.ledger ⟨t.id, t.now, t.tokenIn, t.strategy, t.amount⟩
    if out.1 then (⟨true, [], some t.id⟩, out.2)
    else (⟨false, ["duplicate_trade_id"], none⟩, out.2)

/-- `reserve`: one transaction. A time that fits no column throws, and nothing changes. -/
def reserve (t : TradeRequest) (policySigned : Bool) (l : Ledger) :
    Except String Decision × Ledger :=
  if fitsInt64 t.now then
    let out := C.evaluate t policySigned (l.expire t.now)
    (.ok out.1, out.2)
  else (.error "out of range", l)

end TradingControl

/-! ### Runs -/

/-- One call on the control, with the reading of the clock it is made at. -/
inductive ControlStep where
  | reserve (t : TradeRequest) (policySigned : Bool)
  | commit (id : String) (now : Int)
  | release (id : String) (now : Int)

namespace ControlStep

/-- When the call is made. -/
def now : ControlStep → Int
  | reserve t _ => t.now
  | commit _ now | release _ now => now

/-- What the call does to the ledger. -/
def apply (C : TradingControl) (l : Ledger) : ControlStep → Ledger
  | reserve t policySigned => (C.reserve t policySigned l).2
  | commit id now => if fitsInt64 now then (l.commit id now).2 else l
  | release id _ => (l.release id).2

end ControlStep

/-- The ledger after a run of calls, from an empty one. -/
def controlRun (C : TradingControl) (steps : List ControlStep) : Ledger :=
  steps.foldl (ControlStep.apply C) .empty

/-- What is reserved and has not lapsed at `now`, of the selected rows. -/
def Ledger.liveReserved (l : Ledger) (sel : Reservation → Bool) (now : Int) : Int :=
  l.total (fun r => sel r && r.state = .reserved && now < r.expiresAt) Reservation.amount

/-- What was committed within the last `w` before `now`, of the selected rows. -/
def Ledger.committedWithin (l : Ledger) (sel : Reservation → Bool) (w now : Int) : Int :=
  l.total (fun r => sel r && r.state = .committed && now - w < r.at_ && r.at_ ≤ now)
    Reservation.amount

/-! ### What every transaction keeps -/

/-- What is metered. -/
inductive Meter where
  | asset (name : String)
  | strategy (name : String)

def Meter.selects : Meter → Reservation → Bool
  | asset name, r => r.asset = name
  | strategy name, r => r.strategy = name

/-- How long a window is. -/
inductive Window where
  | hour | day

def Window.seconds : Window → Int
  | hour => 3600
  | day => 86400

theorem Window.hour_le (w : Window) : 3600 ≤ w.seconds := by cases w <;> simp [seconds]

/-- The limit on a meter. -/
def TradingControl.limit (C : TradingControl) : Meter → Window → Int
  | .asset _, .hour => C.p.limits.assetHourly
  | .asset _, .day => C.p.limits.assetDaily
  | .strategy _, .hour => C.p.limits.strategyHourly
  | .strategy _, .day => C.p.limits.strategyDaily

/-- A row that may still weigh on a meter: one that is reserved, lapsed or not, or was
committed in the window. -/
def Meter.weighs (m : Meter) (w : Window) (now : Int) (r : Reservation) : Bool :=
  m.selects r && (r.state = .reserved || now - w.seconds < r.at_)

/-- What may still weigh on a meter. -/
def Ledger.outstanding (l : Ledger) (m : Meter) (w : Window) (now : Int) : Int :=
  l.total (m.weighs w now) Reservation.amount

/-- What holds of the ledger between two transactions, the last one at `now`. -/
structure WithinLimits (C : TradingControl) (now : Int) (l : Ledger) : Prop where
  nonneg : ∀ r ∈ l.rows, 0 ≤ r.amount
  past : ∀ r ∈ l.rows, r.at_ ≤ now
  deadline : ∀ r ∈ l.rows, r.state = .reserved →
    r.expiresAt = r.at_ + C.ledger.reservationTtl
  capped : ∀ m w, l.outstanding m w now ≤ C.limit m w

theorem bad_eq_nil {x : Prop} [Decidable x] {s : String} : bad x s = [] ↔ ¬ x := by
  unfold bad
  split <;> simp_all

/-- A valid policy has no negative limit. -/
theorem TradingControl.limit_nonneg (C : TradingControl) (m : Meter) (w : Window) :
    0 ≤ C.limit m w := by
  have h := C.valid
  simp only [validatePolicy, Bool.and_eq_true, List.all_cons, decide_eq_true_eq] at h
  cases m <;> cases w <;> simp only [limit] <;> tauto

section Transactions

variable {C : TradingControl} {now now' : Int} {l : Ledger} {m : Meter} {w : Window}

/-- Windows only slide forward. -/
theorem Meter.weighs_of_le (h : now ≤ now') {r : Reservation} (hr : m.weighs w now' r = true) :
    m.weighs w now r = true := by
  simp only [weighs, Bool.and_eq_true, Bool.or_eq_true, decide_eq_true_eq] at hr ⊢
  refine ⟨hr.1, hr.2.imp_right fun hlt => ?_⟩
  omega

theorem WithinLimits.later (h : WithinLimits C now l) (hle : now ≤ now') :
    WithinLimits C now' l where
  nonneg := h.nonneg
  past r hr := (h.past r hr).trans hle
  deadline := h.deadline
  capped m w := (Table.total_mono h.nonneg fun _ _ => m.weighs_of_le hle).trans (h.capped m w)

/-- Rows may go at any time. -/
theorem WithinLimits.delete (h : WithinLimits C now l) (d : Reservation → Bool) :
    WithinLimits C now (l.delete d) where
  nonneg r hr := h.nonneg r (List.mem_of_mem_filter hr)
  past r hr := h.past r (List.mem_of_mem_filter hr)
  deadline r hr := h.deadline r (List.mem_of_mem_filter hr)
  capped m w := (Table.total_delete_le h.nonneg d).trans (h.capped m w)

/-- A commit moves a row to the young end of every window, where it was counted already. -/
theorem WithinLimits.commit (h : WithinLimits C now l) (id : String) :
    WithinLimits C now (l.commit id now).2 where
  nonneg r hr := by
    obtain ⟨r', hr', rfl⟩ := List.mem_map.mp hr
    have hamount := h.nonneg r' hr'
    split <;> exact hamount
  past r hr := by
    obtain ⟨r', hr', rfl⟩ := List.mem_map.mp hr
    split
    · exact le_refl now
    · exact h.past r' hr'
  -- a committed row has no deadline to keep
  deadline r hr hstate := by
    obtain ⟨r', hr', rfl⟩ := List.mem_map.mp hr
    split at hstate
    · simp at hstate
    · rename_i hne
      rw [if_neg hne]
      exact h.deadline r' hr' hstate
  capped m w := by
    -- what is committed now was outstanding already
    have hle : (l.commit id now).2.outstanding m w now ≤ l.outstanding m w now := by
      refine Table.total_update_le ?_ h.nonneg ?_ ?_ ?_
      · exact fun _ => rfl
      · exact fun _ => rfl
      · intro r hr hd hp
        simp only [Meter.weighs, Bool.and_eq_true, decide_eq_true_eq, Bool.or_eq_true] at hd hp ⊢
        have hsel : m.selects r = true := by cases m <;> exact hp.1
        exact ⟨hsel, .inl hd.2⟩
      · exact fun r _ hr => hr
    exact hle.trans (h.capped m w)

/-- Once what has lapsed is gone, every reserved row is in the hour before `now`. -/
theorem WithinLimits.outstanding_le_usage (h : WithinLimits C now l)
    (httl : C.ledger.reservationTtl ≤ 3600) (m : Meter) (w : Window) :
    (l.expire now).outstanding m w now ≤ (l.expire now).usage now w.seconds m.selects := by
  have hexpire := h.delete fun r => r.state = .reserved ∧ r.expiresAt ≤ now
  apply Table.total_mono hexpire.nonneg
  intro r hr hweighs
  have hpast := hexpire.past r hr
  simp only [Meter.weighs, Bool.and_eq_true, Bool.or_eq_true, decide_eq_true_eq] at hweighs ⊢
  refine ⟨⟨?_, hpast⟩, hweighs.1⟩
  rcases hweighs.2 with hreserved | hyoung
  · have hdeadline := hexpire.deadline r hr hreserved
    have hlate : now < r.expiresAt := by
      simpa [hreserved] using (List.mem_filter.mp hr).2
    have hwidth := w.hour_le
    omega
  · exact hyoung

/-- A trade that was let in fits every window it counts in. -/
theorem usage_le_of_windowReasons {t : TradeRequest} {live : Ledger}
    (h : C.windowReasons t live = []) (w : Window) (m : Meter)
    (hm : m = .asset t.tokenIn ∨ m = .strategy t.strategy) :
    live.usage t.now w.seconds m.selects + t.amount ≤ C.limit m w := by
  simp only [TradingControl.windowReasons, List.append_eq_nil_iff, bad_eq_nil, not_lt] at h
  obtain ⟨⟨⟨hassetHour, hassetDay⟩, hstrategyHour⟩, hstrategyDay⟩ := h
  rcases hm with rfl | rfl
  · cases w
    · exact hassetHour
    · exact hassetDay
  · cases w
    · exact hstrategyHour
    · exact hstrategyDay

/-- What a decision does to the ledger: what has lapsed goes, and a trade that was let in is
reserved. -/
theorem evaluate_cases (C : TradingControl) (t : TradeRequest) (policySigned : Bool)
    (live : Ledger) :
    (C.evaluate t policySigned live).2 = live ∨
      ∃ l', live.insert? (Ledger.reservedRow C.ledger
          ⟨t.id, t.now, t.tokenIn, t.strategy, t.amount⟩ ⟨0, none⟩) = some l' ∧
        (C.evaluate t policySigned live).2 = l' ∧ 0 ≤ t.amount ∧
        C.windowReasons t live = [] := by
  unfold TradingControl.evaluate
  dsimp only
  split
  · exact .inl rfl
  · -- a trade that no reason speaks against is reserved
    rename_i hreasons
    rw [ne_eq, not_not, List.append_eq_nil_iff, List.append_eq_nil_iff] at hreasons
    obtain ⟨⟨-, hwindows⟩, -⟩ := hreasons
    unfold Ledger.reserve
    split
    · exact .inl rfl
    · rename_i hentry
      have hamount : 0 ≤ t.amount := by
        by_contra hneg
        exact hentry (.inr (.inr (.inl (by dsimp only; omega))))
      split
      · rename_i l' hins
        exact .inr ⟨l', hins, rfl, hamount, hwindows⟩
      · exact .inl rfl

theorem WithinLimits.reserve {t : TradeRequest} (h : WithinLimits C now l) (hle : now ≤ t.now)
    (httl : C.ledger.reservationTtl ≤ 3600) (policySigned : Bool) :
    WithinLimits C t.now (C.reserve t policySigned l).2 := by
  have hlater := h.later hle
  unfold TradingControl.reserve
  split
  · have hlive : WithinLimits C t.now (l.expire t.now) := hlater.delete _
    rcases evaluate_cases C t policySigned (l.expire t.now) with heq | ⟨l', hins, heq, hamount, hw⟩
    · dsimp only
      rw [heq]
      exact hlive
    · dsimp only
      rw [heq]
      have hrows := Table.rows_of_insert? hins
      have hmem : ∀ r ∈ l'.rows, r ∈ (l.expire t.now).rows ∨ r = Ledger.reservedRow C.ledger
          ⟨t.id, t.now, t.tokenIn, t.strategy, t.amount⟩ ⟨0, none⟩ := by
        intro r hr
        simpa [hrows] using hr
      refine ⟨fun r hr => ?_, fun r hr => ?_, fun r hr hstate => ?_, fun m w => ?_⟩
      · rcases hmem r hr with hr | rfl
        · exact hlive.nonneg r hr
        · exact hamount
      · rcases hmem r hr with hr | rfl
        · exact hlive.past r hr
        · exact le_refl t.now
      · rcases hmem r hr with hr | rfl
        · exact hlive.deadline r hr hstate
        · rfl
      · rw [Ledger.outstanding, Table.total_insert? hins]
        split
        · -- the new row counts: this is one of the four sums that were checked
          rename_i hweighs
          have hm : m = .asset t.tokenIn ∨ m = .strategy t.strategy := by
            simp only [Meter.weighs, Bool.and_eq_true] at hweighs
            cases m with
            | asset name => exact .inl (congrArg _ (of_decide_eq_true hweighs.1).symm)
            | strategy name => exact .inr (congrArg _ (of_decide_eq_true hweighs.1).symm)
          have husage := hlater.outstanding_le_usage httl m w
          have hfits := usage_le_of_windowReasons hw w m hm
          have hrow : (Ledger.reservedRow C.ledger
              ⟨t.id, t.now, t.tokenIn, t.strategy, t.amount⟩ ⟨0, none⟩).amount = t.amount := rfl
          rw [Ledger.outstanding] at husage
          omega
        · have hcapped := hlive.capped m w
          rw [Ledger.outstanding] at hcapped
          simpa using hcapped
  · exact hlater

theorem WithinLimits.apply (h : WithinLimits C now l) (httl : C.ledger.reservationTtl ≤ 3600)
    (s : ControlStep) (hle : now ≤ s.now) : WithinLimits C s.now (s.apply C l) := by
  cases s with
  | reserve t policySigned => exact h.reserve hle httl policySigned
  | commit id now' =>
    change WithinLimits C now' (if fitsInt64 now' then (l.commit id now').2 else l)
    split
    · exact (h.later hle).commit id
    · exact h.later hle
  | release id now' => exact (h.later hle).delete _

end Transactions

/-! ### Whole runs -/

/-- What holds after a run holds at every moment from its last call on. -/
theorem withinLimits_controlRun {C : TradingControl} (httl : C.ledger.reservationTtl ≤ 3600)
    {steps : List ControlStep} (hclock : (steps.map ControlStep.now).Pairwise (· ≤ ·)) {now : Int}
    (hnow : ∀ s ∈ steps, s.now ≤ now) : WithinLimits C now (controlRun C steps) := by
  induction steps using List.reverseRecOn generalizing now with
  | nil =>
    refine ⟨?_, ?_, ?_, fun m w => ?_⟩
    · simp [controlRun]
    · simp [controlRun]
    · simp [controlRun]
    · exact C.limit_nonneg m w
  | append_singleton steps s ih =>
    rw [List.map_append, List.pairwise_append] at hclock
    have hbefore : ∀ s' ∈ steps, s'.now ≤ s.now := by
      intro s' hs'
      exact hclock.2.2 s'.now (List.mem_map_of_mem hs') s.now (by simp)
    have hstep := (ih hclock.1 hbefore).apply httl s (le_refl s.now)
    have hlast : s.now ≤ now := hnow s (by simp)
    rw [controlRun, List.foldl_append]
    exact hstep.later hlast

/-- What the limits are about is within what may still weigh on a meter. -/
theorem WithinLimits.live_add_committed_le {C : TradingControl} {now : Int} {l : Ledger}
    (h : WithinLimits C now l) (m : Meter) (w : Window) :
    l.liveReserved m.selects now + l.committedWithin m.selects w.seconds now ≤ C.limit m w := by
  have hle : l.liveReserved m.selects now + l.committedWithin m.selects w.seconds now ≤
      l.outstanding m w now := by
    apply Table.total_add_le h.nonneg
    · intro r _ hlive
      simp only [Bool.and_eq_true, decide_eq_true_eq] at hlive
      simp [hlive.1.2]
    · intro r _ hlive
      simp only [Bool.and_eq_true, decide_eq_true_eq] at hlive
      simp [Meter.weighs, hlive.1.1, hlive.1.2]
    · intro r _ hcommitted
      simp only [Bool.and_eq_true, decide_eq_true_eq] at hcommitted
      simp [Meter.weighs, hcommitted.1.1.1, hcommitted.1.2]
  exact hle.trans (h.capped m w)

/-- **The windows hold at every moment.** In every run of decisions, commits and releases by a
clock that never goes back, with reservations that lapse within the hour: what is reserved and
has not lapsed, and what was committed within the last hour or day, is within the limits of
every asset and of every strategy, at the last call and at every moment after it. -/
theorem window_limits_hold (C : TradingControl) (httl : C.ledger.reservationTtl ≤ 3600)
    (steps : List ControlStep) (hclock : (steps.map ControlStep.now).Pairwise (· ≤ ·)) (now : Int)
    (hnow : ∀ s ∈ steps, s.now ≤ now) (asset strategy : String) :
    ((controlRun C steps).liveReserved (fun r => r.asset = asset) now +
        (controlRun C steps).committedWithin (fun r => r.asset = asset) 3600 now ≤
      C.p.limits.assetHourly) ∧
    ((controlRun C steps).liveReserved (fun r => r.asset = asset) now +
        (controlRun C steps).committedWithin (fun r => r.asset = asset) 86400 now ≤
      C.p.limits.assetDaily) ∧
    ((controlRun C steps).liveReserved (fun r => r.strategy = strategy) now +
        (controlRun C steps).committedWithin (fun r => r.strategy = strategy) 3600 now ≤
      C.p.limits.strategyHourly) ∧
    ((controlRun C steps).liveReserved (fun r => r.strategy = strategy) now +
        (controlRun C steps).committedWithin (fun r => r.strategy = strategy) 86400 now ≤
      C.p.limits.strategyDaily) := by
  have h := withinLimits_controlRun httl hclock hnow
  exact ⟨h.live_add_committed_le (.asset asset) .hour, h.live_add_committed_le (.asset asset) .day,
    h.live_add_committed_le (.strategy strategy) .hour,
    h.live_add_committed_le (.strategy strategy) .day⟩

/-- A policy that lets 5 of `mint` in each hour. -/
def samplePolicy : PolicyDocument where
  version := "1"
  effectiveAt := 0
  expiresAt := 100000
  allow := ⟨[101], ["account"], ["mint", "token"], ["router"], ["target"], ["swap"], ["account"]⟩
  limits := ⟨5, 5, 50, 5, 50, 100, 100, 10000, 0, 0⟩
  market := ⟨60, 100, 100, 10, 10, 0, 0, false, 60, true⟩
  deadManAfter := 60
  globalKill := false
  strategyKills := []

def sampleControl : TradingControl := ⟨samplePolicy, by decide, ⟨60, none⟩⟩

/-- A trade of 5 at `now`. -/
def sampleTrade (id : String) (now : Int) : TradeRequest where
  id := id
  now := now
  chain := 101
  account := "account"
  tokenIn := "mint"
  tokenOut := "token"
  router := "router"
  target := "target"
  selector := "swap"
  recipient := "account"
  strategy := "strategy"
  amount := 5
  approvalAmount := 5
  quoteAt := now
  slippageBps := 0
  impactBps := 0
  gas := 0
  fees := 0
  liquidity := 0
  taxBps := 0
  isProxy := false
  oracleAt := now
  sequencerUp := true
  portfolioExposure := 0
  assetExposure := 0
  portfolioValue := 100
  peakValue := 100
  realizedLoss := 0
  unrealizedLoss := 0
  lastHeartbeat := now

/-- The first trade is committed after its reservation lapsed; the second one is refused, and
the third one, an hour later, is let in. -/
def sampleSteps : List ControlStep :=
  [.reserve (sampleTrade "t1" 10) true, .commit "t1" 80, .reserve (sampleTrade "t2" 90) true,
    .reserve (sampleTrade "t3" 3700) true]

theorem window_limits_hold_sample :
    (controlRun sampleControl sampleSteps).rows.map Reservation.id = ["t1", "t3"] ∧
    (controlRun sampleControl sampleSteps).liveReserved (fun r => r.asset = "mint") 3700 +
      (controlRun sampleControl sampleSteps).committedWithin (fun r => r.asset = "mint") 3600 3700 ≤
        5 :=
  ⟨by decide, (window_limits_hold sampleControl (by decide) sampleSteps (by decide) 3700
    (by decide) "mint" "strategy").1⟩

end AriOs.Execution
