import AriOs.Perps.Drift
import Mathlib.Algebra.BigOperators.Group.List.Basic
import Mathlib.Data.List.ReduceOption

/-!
# Perp exposure

What the opening guards and the settlement check read of the positions at a venue: the exposure of
the whole portfolio, and the signed position in one market. A position that the venue passes over
is missing from both.
-/

namespace AriOs.Perps

open AriOs.Js AriOs.Kernel

/-! ### The exposure -/

structure PortfolioExposure where
  openPositions : Nat
  notionalByBucket : QuoteBucket → Int
  collateralByBucket : QuoteBucket → Int
  stale : Bool
  staleReason : Option String
  unbucketed : Nat

/-- The sums of the loop. -/
structure ExposureSums where
  notional : QuoteBucket → Int := 0
  collateral : QuoteBucket → Int := 0
  unbucketed : Nat := 0

def magnitudeOf (amount : Int) : Int := if amount < 0 then -amount else amount

/-- One position of the loop. -/
def addPosition (sums : ExposureSums) (p : PerpPosition) : ExposureSums :=
  match quoteBucketFor p.notional.mint, quoteBucketFor p.collateral.mint with
  | some bucket, some collBucket =>
    { sums with
      notional := Function.update sums.notional bucket
        (sums.notional bucket + magnitudeOf p.notional.amount)
      collateral := Function.update sums.collateral collBucket
        (sums.collateral collBucket + magnitudeOf p.collateral.amount) }
  | _, _ => { sums with unbucketed := sums.unbucketed + 1 }

def exposureFrom (positions : List PerpPosition) : PortfolioExposure :=
  let sums := positions.foldl addPosition {}
  { openPositions := positions.length
    notionalByBucket := sums.notional
    collateralByBucket := sums.collateral
    stale := 0 < sums.unbucketed
    staleReason :=
      if 0 < sums.unbucketed then
        some s!"{sums.unbucketed} position(s) use a collateral asset with no spend-cap bucket"
      else none
    unbucketed := sums.unbucketed }

/-! ### One market -/

structure PerpPositionRef where
  venue : String
  market : String
  owner : String
  subAccountId : Int

/-- Positive is long, negative is short. -/
def PerpPosition.signedBase (p : PerpPosition) : Int :=
  match p.side with
  | .long => p.baseAmount
  | .short => -p.baseAmount

/-- The reader of a venue: absence is flat, failure is loud. -/
def readPosition (venue : String)
    (getPositions : PerpAccountRef → Except String (List PerpPosition))
    (ref : PerpPositionRef) : Except String Int := do
  throwIf (ref.venue ≠ venue)
    s!"cannot read a '{ref.venue}' position from the '{venue}' venue"
  let positions ← getPositions ⟨ref.owner, ref.subAccountId⟩
  .ok (((positions.find? (·.symbol = ref.market)).map PerpPosition.signedBase).getD 0)

/-! ### What the account holds -/

/-- The position has a base amount that is not zero; one that cannot be read is not zero either. -/
def Open (raw : DriftPerpPosition) : Prop := bnToBigInt raw.baseAssetAmount ≠ some 0

instance (raw : DriftPerpPosition) : Decidable (Open raw) := inferInstanceAs (Decidable (_ ≠ _))

/-- The answers the venue reads before its loop. -/
structure Read (client : Option DriftClient) (fee : Option JsNumber) (account : PerpAccountRef) where
  drift : DriftClient
  user : DriftUser
  raws : List DriftPerpPosition
  accounts : List DriftPerpMarketAccount
  connected : client = some drift
  getUser : drift.getUser account.subAccountId = .ok user
  getUserAccount : user.getUserAccount = .ok raws
  getAccounts : drift.getPerpMarketAccounts = .ok accounts

namespace Read

variable {client : Option DriftClient} {fee : Option JsNumber} {account : PerpAccountRef}
  (r : Read client fee account)

def markets : List PerpMarket :=
  r.accounts.filterMap fun account =>
    (toPerpMarket account (fee.getD DEFAULT_TAKER_FEE_BPS)).toOption

/-- The market of a position among those that could be converted. -/
def marketOf (raw : DriftPerpPosition) : Option PerpMarket :=
  r.markets.find? (·.venueMarketIndex = raw.marketIndex)

/-- The name of the market a position is in, whether the market can be converted or not. -/
def nameOf (raw : DriftPerpPosition) : Option String :=
  match r.marketOf raw with
  | some market => some market.symbol
  | none => (r.accounts.find? (·.marketIndex = raw.marketIndex)).bind fun a => decodeMarketName a.name

/-- The account holds a position in a market. -/
def Holds (market : String) : Prop := ∃ raw ∈ r.raws, Open raw ∧ r.nameOf raw = some market

/-- The venue can turn the position into one of its own. -/
structure Shown (raw : DriftPerpPosition) : Prop where
  readable : (bnToBigInt raw.baseAssetAmount).isSome
  converts : (r.marketOf raw).isSome
  priced : ∃ oracle, r.drift.getOracleDataForPerpMarket raw.marketIndex = .ok oracle ∧
    (usablePrice oracle).isSome

/-- What a position is worth at the price of its oracle. -/
def notionalOf (raw : DriftPerpPosition) : Int :=
  match bnToBigInt raw.baseAssetAmount, r.drift.getOracleDataForPerpMarket raw.marketIndex with
  | some signed, .ok oracle => notionalQuoteUnits signed ((bnToBigInt oracle.price).getD 0)
  | _, _ => 0

/-- Every open position is counted in the exposure, with what it is worth. -/
structure Counted (e : PortfolioExposure) : Prop where
  positions : e.openPositions = r.raws.countP (Open ·)
  notional : e.notionalByBucket .usdc = ((r.raws.filter (Open ·)).map r.notionalOf).sum

end Read

/-- Nothing the account holds is missing: the venue throws, or the exposure is stale or counts every
open position, and the reader answers zero for markets only in which there is none. -/
def Complete (client : Option DriftClient) (fee : Option JsNumber)
    (account : PerpAccountRef) : Prop :=
  ∀ (r : Read client fee account) (positions : List PerpPosition),
    getPositions client fee account = .ok positions →
    ((exposureFrom positions).stale = true ∨ r.Counted (exposureFrom positions)) ∧
    ∀ ref : PerpPositionRef, ref.subAccountId = account.subAccountId →
      readPosition DRIFT_VENUE_ID (getPositions client fee) ref = .ok 0 → ¬r.Holds ref.market

/-! ### One position -/

namespace Read

variable {client : Option DriftClient} {fee : Option JsNumber} {account : PerpAccountRef}
  {r : Read client fee account} {raw : DriftPerpPosition} {p : PerpPosition}

/-- What the venue has made of a position. -/
structure Turned (r : Read client fee account) (raw : DriftPerpPosition) (p : PerpPosition) :
    Prop where
  isOpen : Open raw
  shown : r.Shown raw
  name : r.nameOf raw = some p.symbol
  size : p.signedBase ≠ 0
  notional : p.notional = quoteAmount (r.notionalOf raw)
  nonneg : 0 ≤ r.notionalOf raw
  collateral : p.collateral.mint = USDC_MINT

section Counting

variable {raws : List DriftPerpPosition} {made : List (Option PerpPosition)}

end Counting

end Read

/-! ### The exposure of positions of the venue -/

/-- Everything at the venue is denominated in its settlement asset. -/
def Settled (p : PerpPosition) : Prop := p.notional.mint = USDC_MINT ∧ p.collateral.mint = USDC_MINT

section Complete

variable {client : Option DriftClient} {fee : Option JsNumber} {account : PerpAccountRef}
  {r : Read client fee account}

theorem Read.Turned.settled {raw : DriftPerpPosition} {p : PerpPosition} (h : r.Turned raw p) :
    Settled p := ⟨by rw [h.notional]; rfl, h.collateral⟩

end Complete

end AriOs.Perps
