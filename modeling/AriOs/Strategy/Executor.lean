import AriOs.Kernel.TradeGateway
import AriOs.Strategy.Runner

/-!
# Strategies over the gateway

The executor hands each swap to the gateway as an intent, under the key of the run, and tells
the runner whether it was performed. The gateway takes an intent on if its key is free and
answers that it is a duplicate otherwise. Of a trade that was taken on, only this matters here:
its transaction may land, at any time, whatever the gateway answers and whether or not the
process that sent it still runs.
-/

namespace AriOs.Strategy

open AriOs.Js AriOs.Storage
open AriOs.Kernel (WSOL_MINT ExecuteResult TradeRow duplicateResult)

def SOL_DECIMALS : Nat := 9

/-- `toBaseUnits` of a number that is not negative; `toFixed` rounds halves up, takes no more
than a hundred digits and writes large numbers with an exponent, which is refused. -/
def toBaseUnits? (amount : ℚ) (decimals : Nat) : Option Int :=
  if 100 < decimals ∨ 10 ^ 21 ≤ amount then none
  else some (amount * 10 ^ decimals + 1 / 2).floor

/-- The input amount of the intent for a swap, where the token has these decimals; none for an
amount that is refused. -/
def amountOf (request : StrategySwap) (decimals : Nat) : Option Int :=
  if request.amountUi ≤ 0 then none
  else (toBaseUnits? request.amountUi
    (if request.inputMint = WSOL_MINT then SOL_DECIMALS else decimals)).filter fun amount => 0 < amount

/-- What the executor makes of a result. -/
def swapResult (result : ExecuteResult) : StrategySwapResult :=
  match result.error with
  | some error => ⟨false, error.code ++ " — " ++ error.message, none⟩
  | none => ⟨result.state = .confirmed || result.simulated, result.summary, result.signature⟩

/-- A trade that the gateway took on for a run of a strategy. -/
structure Trade where
  strategy : String
  run : Nat
  /-- in base units of the input asset -/
  amount : Int

/-- The idempotency key of a trade. -/
def Trade.key (t : Trade) : String := "strat_" ++ t.strategy ++ "_" ++ toString t.run

/-- The runner, its executor and the gateway. -/
structure Desk where
  world : World
  /-- the call of `execute` that is waited for: whether its key was free -/
  pending : Option Bool
  trades : List Trade
  /-- the keys of the trades that landed -/
  landed : List String
  /-- the keys under which the runner was told that nothing was performed -/
  refused : List String

inductive Happening where
  /-- what happens to the runner, but for the answer of its executor -/
  | runner (ev : Event)
  /-- the executor has built the intent and calls `execute` -/
  | execute (decimals : Nat)
  /-- the executor catches an error: the intent cannot be built, or `execute` rejects -/
  | threw (text : String) (now : ℚ)
  /-- `execute` returns; a duplicate is answered with what is known of the prior trade -/
  | answered (result : ExecuteResult) (prior : Option TradeRow) (now : ℚ)
  /-- the transaction of a trade lands -/
  | lands (key : String)

namespace Desk

variable (d : Desk)

/-- Before anything happens. -/
def start : Desk := ⟨.start, none, [], [], []⟩

/-- The row and the request of the swap that the runner waits for. -/
def swapping : Option (StrategyRow × StrategySwap) :=
  match d.world.tick with
  | some ⟨row, .swapping request, _⟩ => some (row, request)
  | _ => none

/-- The executor answers. -/
def answer (hasPrice : Bool) (row : StrategyRow) (result : StrategySwapResult) (now : ℚ) : Desk :=
  { d with
    world := d.world.apply hasPrice (.swapped (.ok result) now)
    pending := none
    refused := if result.ok then d.refused else row.idempotencyKey :: d.refused }

/-- `execute`, called with this amount: the key is claimed if it is free. -/
def claim (row : StrategyRow) (amount : Int) : Desk :=
  if d.trades.any fun t => t.key = row.idempotencyKey then { d with pending := some false }
  else { d with
    pending := some true
    trades := d.trades ++ [⟨row.id, row.runs, amount⟩]
    refused := d.refused.filter fun key => key ≠ row.idempotencyKey }

/-- What `execute` returns, where the key was free or not. -/
def returned (free : Bool) (result : ExecuteResult) (prior : Option TradeRow) : ExecuteResult :=
  if free then result else duplicateResult result.tradeId prior

end Desk

/-- One happening; what does not fit the state changes nothing. -/
def Desk.apply (hasPrice : Bool) (d : Desk) (h : Happening) : Desk :=
  match h with
  | .runner (.swapped _ _) => d
  | .runner .crash => { d with world := d.world.apply hasPrice .crash, pending := none }
  | .runner ev => { d with world := d.world.apply hasPrice ev }
  | .execute decimals =>
    match d.swapping, d.pending with
    | some (row, request), none =>
      match amountOf request decimals with
      | some amount => d.claim row amount
      | none => d
    | _, _ => d
  | .threw text now =>
    match d.swapping with
    | some (row, _) => d.answer hasPrice row ⟨false, text, none⟩ now
    | none => d
  | .answered result prior now =>
    match d.swapping, d.pending with
    | some (row, _), some free =>
      d.answer hasPrice row (swapResult (Desk.returned free result prior)) now
    | _, _ => d
  | .lands key =>
    if d.trades.any fun t => t.key = key then { d with landed := key :: d.landed } else d

end AriOs.Strategy
