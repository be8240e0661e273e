import AriOs.Async.Transition
import AriOs.Kernel.Contracts
import AriOs.Strategy.Store

/-!
# The strategy runner

A tick reads the due rows once and then works on them one after the other. Between its waits,
for the price of a token, the swap and its notices, the row it works on is in memory only; it
writes the whole row back at the end. The console may set a status at any wait, and the process
may stop there. What a strategy computes from its parameters is rounded as the code's numbers are.
-/

namespace AriOs.Strategy

open AriOs.Arith AriOs.Js AriOs.Storage
open AriOs.Kernel (WSOL_MINT)

/-! ### One strategy -/

inductive SwapKind where
  | buy | sell | swap
  deriving DecidableEq, Repr

/-- A swap a strategy wants performed, in units of the input asset. -/
structure StrategySwap where
  kind : SwapKind
  amountUi : ℚ
  inputMint : String
  outputMint : String
  slippageBps : Option ℚ
  deriving DecidableEq

structure StrategySwapResult where
  ok : Bool
  text : String
  signature : Option String

inductive Plan where
  | swap (request : StrategySwap)
  | skip
  | done

def MAX_CONSECUTIVE_ERRORS : Nat := 3

def MIN_INTERVAL_SEC : ℚ := 15

def DEFAULT_INTERVAL_SEC : ℚ := 3600

/-- `1e-9`, by which a DCA may pass its budget. -/
def TOLERANCE : ℚ := toDouble (1 / 10 ^ 9)

namespace StrategyRow

variable (row : StrategyRow)

/-- A parameter that is a number. -/
def numParam (key : String) (d : ℚ) : ℚ := num (row.params.value key) d

/-- The token of a strategy. -/
def token : String := str (row.params.value "token") ""

/-- How many slices a TWAP has. -/
def slices : ℤ := max 1 (row.numParam "slices" 1).floor

/-- How many slices of a TWAP are done. -/
def doneSlices : ℤ := (row.numParam "doneSlices" 0).floor

/-- What a price-triggered strategy sells. -/
def exit (sizeUi : ℚ) : StrategySwap := ⟨.sell, sizeUi, row.token, WSOL_MINT, none⟩

/-- `#plan` of a DCA. -/
def planDca : Plan :=
  let per := row.numParam "amountUiPerStep" 0
  let total := row.numParam "totalBudgetUi" 0
  let spent := row.numParam "spentUi" 0
  if row.token = "" ∨ per ≤ 0 then .done
  else if total > 0 ∧ (nearest (total + TOLERANCE)).lt (nearest (spent + per)) then .done
  else .swap ⟨.buy, per, WSOL_MINT, row.token, none⟩

/-- `#plan` of a TWAP. -/
def planTwap : Plan :=
  let totalUi := row.numParam "totalUi" 0
  if row.token = "" ∨ row.slices ≤ row.doneSlices then .done
  else
    let sliceUi := toDouble (totalUi / row.slices)
    if str (row.params.value "side") "buy" = "sell" then
      .swap ⟨.sell, sliceUi, row.token, WSOL_MINT, none⟩
    else .swap ⟨.buy, sliceUi, WSOL_MINT, row.token, none⟩

/-- `#plan` of a trailing stop, at this price: the peak is kept in the parameters. -/
def planTrailingStop (price : JsNumber) : StrategyRow × Plan :=
  let dropPct := row.numParam "dropPct" 10
  let peak := (((num? (row.params.value "peak")).map .finite).getD price).max price
  let row' := { row with params := row.params.set "peak" (.number peak) }
  let kept := (JsNumber.finite 1).sub (nearest (dropPct / 100))
  if price.le (peak.mul kept.rounded).rounded then
    (row', .swap (row.exit (row.numParam "sizeUi" 0)))
  else (row', .skip)

/-- `#plan` of a take profit, at this price. -/
def planTakeProfit (price : JsNumber) : Plan :=
  let gainPct := row.numParam "gainPct" 50
  let gained := (JsNumber.finite 1).add (nearest (gainPct / 100))
  if ((JsNumber.finite (row.numParam "entryPrice" 0)).mul gained.rounded).rounded.le price then
    .swap (row.exit (row.numParam "sizeUi" 0))
  else .skip

/-- A price-triggered strategy goes no further without all its parameters and a price source. -/
def unpriced (hasPrice : Bool) : Bool :=
  row.token = "" || row.numParam "sizeUi" 0 ≤ 0 ||
    (row.kind = .takeProfit && row.numParam "entryPrice" 0 ≤ 0) || !hasPrice

/-- `#plan`, with what the price source answers, if it is asked. -/
def plan (hasPrice : Bool) (price : Except String (Option JsNumber)) :
    Except String (StrategyRow × Plan) :=
  match row.kind with
  | .dca => .ok (row, row.planDca)
  | .twap => .ok (row, row.planTwap)
  | .trailingStop | .takeProfit =>
    if row.unpriced hasPrice then .ok (row, .skip)
    else match price with
      | .error e => .error e
      | .ok none => .ok (row, .skip)
      | .ok (some price) =>
        if row.kind = .trailingStop then .ok (row.planTrailingStop price)
        else .ok (row, row.planTakeProfit price)

/-- A plan leaves the row alone, but for the peak of a trailing stop. -/
theorem plan_cases {row row' : StrategyRow} {hasPrice : Bool}
    {price : Except String (Option JsNumber)} {p : Plan}
    (h : row.plan hasPrice price = .ok (row', p)) :
    (row.kind = .dca ∧ row' = row ∧ p = row.planDca) ∨
    (row.kind = .twap ∧ row' = row ∧ p = row.planTwap) ∨
    ((row.kind = .trailingStop ∨ row.kind = .takeProfit) ∧ ∃ params, row' = { row with params }) := by
  -- a trailing stop writes nothing but its parameters
  have hstop : ∀ price, ∃ params, (row.planTrailingStop price).1 = { row with params } := by
    intro price
    unfold planTrailingStop
    dsimp only
    split <;> exact ⟨_, rfl⟩
  have hkinds : row.kind = .dca ∨ row.kind = .twap ∨
      row.kind = .trailingStop ∨ row.kind = .takeProfit := by
    cases row.kind <;> simp
  rcases hkinds with hkind | hkind | hkind
  · simp only [plan, hkind] at h
    cases h
    exact .inl ⟨hkind, rfl, rfl⟩
  · simp only [plan, hkind] at h
    cases h
    exact .inr (.inl ⟨hkind, rfl, rfl⟩)
  · refine .inr (.inr ⟨hkind, ?_⟩)
    unfold plan at h
    rcases hkind with hkind | hkind
    all_goals
      simp only [hkind, if_true, reduceCtorEq, if_false] at h
      split at h
      · cases h
        exact ⟨row.params, rfl⟩
      · split at h
        · cases h
        · cases h
          exact ⟨row.params, rfl⟩
        · rename_i price
          obtain ⟨params, hparams⟩ := hstop price
          have hrow := congrArg Prod.fst (Except.ok.inj h)
          first
            | exact ⟨params, hrow.symm.trans hparams⟩
            | exact ⟨row.params, hrow.symm⟩

/-- `#applyProgress`. -/
def applyProgress (action : StrategySwap) : StrategyRow :=
  match row.kind with
  | .dca => { row with
      params := row.params.set "spentUi"
        (.number (nearest (row.numParam "spentUi" 0 + action.amountUi))) }
  | .twap => { row with
      params := row.params.set "doneSlices" (.number (nearest (row.doneSlices + 1 : ℤ))) }
  | .trailingStop | .takeProfit => { row with status := .done }

/-- `#isComplete`. -/
def isComplete : Bool :=
  match row.kind with
  | .dca =>
    let total := row.numParam "totalBudgetUi" 0
    total > 0 && (nearest (total - TOLERANCE)).le (.finite (row.numParam "spentUi" 0))
  | .twap => row.slices ≤ row.doneSlices
  | .trailingStop | .takeProfit => false

/-- `#reschedule`. -/
def reschedule (now : ℚ) : StrategyRow :=
  { row with
    nextRunAt := now + max MIN_INTERVAL_SEC (row.numParam "intervalSec" DEFAULT_INTERVAL_SEC) * 1000 }

/-- The key of the swap of this run. -/
def idempotencyKey : String := "strat_" ++ row.id ++ "_" ++ toString row.runs

/-- The executor has answered. -/
def ran (now : ℚ) : StrategyRow := { row with runs := row.runs + 1, lastRunAt := some now }

/-- One error more; too many pause the strategy. -/
def failed (text : String) : StrategyRow :=
  { row with
    errors := row.errors + 1
    lastError := some text
    status := if MAX_CONSECUTIVE_ERRORS ≤ row.errors + 1 then .paused else row.status }

/-- A swap was performed. -/
def performed (action : StrategySwap) : StrategyRow :=
  { row with errors := 0, lastError := none }.applyProgress action

section Ids

variable {row : StrategyRow} {now : ℚ} {text : String} {action : StrategySwap}

@[simp] theorem ran_id : (row.ran now).id = row.id := rfl

@[simp] theorem reschedule_id : (row.reschedule now).id = row.id := rfl

@[simp] theorem failed_id : (row.failed text).id = row.id := rfl

@[simp] theorem performed_id : (row.performed action).id = row.id := by
  unfold performed applyProgress
  cases row.kind <;> rfl

end Ids

end StrategyRow

/-! ### The tick -/

/-- What the tick waits for. -/
inductive Stage where
  /-- the plan, or the price it needs -/
  | planning
  /-- the swap -/
  | swapping (request : StrategySwap)
  /-- the notice of how the swap went -/
  | reporting
  /-- the notice that the strategy is complete, before the row is saved -/
  | completing
  /-- the notice that the strategy is complete, after the row was saved -/
  | leaving

/-- The tick that is under way: the row it works on, and those it has yet to come to. -/
structure Tick where
  row : StrategyRow
  stage : Stage
  rest : List StrategyRow

/-- A swap the executor was asked for. -/
structure SwapCall where
  strategy : String
  request : StrategySwap
  idempotencyKey : String
  deriving DecidableEq

structure World where
  store : StrategyStore
  tick : Option Tick
  swaps : List SwapCall

inductive Event where
  | create (id : String) (kind : StrategyKind) (params : Params) (firstRunAt : ℚ)
  | setStatus (id : String) (status : StrategyStatus)
  | tick (now : ℚ)
  /-- the plan is made, with what the price source answers -/
  | planned (price : Except String (Option JsNumber)) (now : ℚ)
  /-- the executor resolves or rejects -/
  | swapped (outcome : Except String StrategySwapResult) (now : ℚ)
  /-- the notice that is waited for is done -/
  | notified (now : ℚ)
  /-- the process stops -/
  | crash

/-- The tick over these rows. -/
def tickOf : List StrategyRow → Option Tick
  | [] => none
  | row :: rest => some ⟨row, .planning, rest⟩

namespace World

variable (w : World)

/-- Before anything happens. -/
def start : World := ⟨Table.empty, none, []⟩

/-- The row is saved, and the tick goes on to the next one. -/
def conclude (row : StrategyRow) (rest : List StrategyRow) : World :=
  { w with store := w.store.save row, tick := tickOf rest }

/-- The end of `#step`, once it is known how the swap went. -/
def finishStep (row : StrategyRow) (rest : List StrategyRow) (now : ℚ) : World :=
  if row.status = .active ∧ row.isComplete then
    { w with tick := some ⟨{ row with status := .done }, .completing, rest⟩ }
  else w.conclude (row.reschedule now) rest

/-- `#step`, once the plan is made. -/
def planned (hasPrice : Bool) (t : Tick) (price : Except String (Option JsNumber)) (now : ℚ) :
    World :=
  match t.row.plan hasPrice price with
  | .error text => w.conclude ((t.row.failed text).reschedule now) t.rest
  | .ok (row, .done) => { w with
      store := w.store.save { row with status := .done }
      tick := some ⟨{ row with status := .done }, .leaving, t.rest⟩ }
  | .ok (row, .skip) => w.conclude (row.reschedule now) t.rest
  | .ok (row, .swap request) => { w with
      tick := some ⟨row, .swapping request, t.rest⟩
      swaps := w.swaps ++ [⟨row.id, request, row.idempotencyKey⟩] }

/-- `#step`, once the executor has answered. -/
def swapped (t : Tick) (request : StrategySwap) (outcome : Except String StrategySwapResult)
    (now : ℚ) : World :=
  match outcome with
  | .error text => w.conclude ((t.row.failed text).reschedule now) t.rest
  | .ok result =>
    let row := t.row.ran now
    if result.ok then { w with tick := some ⟨row.performed request, .reporting, t.rest⟩ }
    else if MAX_CONSECUTIVE_ERRORS ≤ row.errors + 1 then
      { w with tick := some ⟨row.failed result.text, .reporting, t.rest⟩ }
    else w.finishStep (row.failed result.text) t.rest now

/-- `#step`, once a notice is done. -/
def notified (t : Tick) (now : ℚ) : World :=
  match t.stage with
  | .reporting => w.finishStep t.row t.rest now
  | .completing => w.conclude (t.row.reschedule now) t.rest
  | .leaving => { w with tick := tickOf t.rest }
  | .planning | .swapping _ => w

end World

/-- One event; what does not fit the state changes nothing. -/
def World.apply (hasPrice : Bool) (w : World) (ev : Event) : World :=
  match ev, w.tick with
  | .create id kind params firstRunAt, _ =>
    match w.store.create id kind params firstRunAt with
    | some store => { w with store }
    | none => w
  | .setStatus id status, _ => { w with store := (w.store.setStatus id status).2 }
  | .tick now, none => { w with tick := tickOf (w.store.due now) }
  | .planned price now, some t =>
    match t.stage with
    | .planning => w.planned hasPrice t price now
    | _ => w
  | .swapped outcome now, some t =>
    match t.stage with
    | .swapping request => w.swapped t request outcome now
    | _ => w
  | .notified now, some t => w.notified t now
  | .crash, _ => { w with tick := none }
  | _, _ => w

end AriOs.Strategy
