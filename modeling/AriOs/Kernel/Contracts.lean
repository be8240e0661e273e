import AriOs.Js.Number
import AriOs.Js.Throw

/-!
# Kernel contracts

The data the money path works on: trade intents, the safety policy, the ports' answers
and the results. Fields that no function of the kernel reads are left out (an intent's
decimals and blockhash text, a quote's route label, a mint's authorities).
-/

namespace AriOs.Kernel

open AriOs.Js

/-- Trade lifecycle: `reserved → sent → (confirmed | expired | errored)`. -/
inductive TradeState where
  | reserved | sent | confirmed | expired | errored | rejected
  deriving DecidableEq, Repr

/-- States a trade does not leave: it confirmed, expired or failed. -/
def TradeState.Terminal (s : TradeState) : Prop :=
  s = .confirmed ∨ s = .expired ∨ s = .errored

instance (s : TradeState) : Decidable s.Terminal := by
  unfold TradeState.Terminal; infer_instance

/-- What a sign or spend tool may ask for. `other` is any string outside the list: callers
are typed, but the guards check the value they are given. -/
inductive IntentKind where
  | swap
  | perpOpen | perpIncrease | perpReduce | perpClose
  | lpOpen | lpAdd | lpRemove | lpClose | lpClaim | lpRebalance
  | curveBuy | curveSell
  | other (name : String)
  deriving DecidableEq, Repr

namespace IntentKind

/-- The string form of a kind. -/
def name : IntentKind → String
  | swap => "swap"
  | perpOpen => "perp_open"
  | perpIncrease => "perp_increase"
  | perpReduce => "perp_reduce"
  | perpClose => "perp_close"
  | lpOpen => "lp_open"
  | lpAdd => "lp_add"
  | lpRemove => "lp_remove"
  | lpClose => "lp_close"
  | lpClaim => "lp_claim"
  | lpRebalance => "lp_rebalance"
  | curveBuy => "curve_buy"
  | curveSell => "curve_sell"
  | other s => s

/-- `isIntentKind`. -/
def isIntentKind : IntentKind → Bool
  | other _ => false
  | _ => true

/-- `isPerpIntentKind`. -/
def isPerpIntentKind : IntentKind → Bool
  | perpOpen | perpIncrease | perpReduce | perpClose => true
  | _ => false

/-- `postsZeroCollateral`: a perp reduce or close hands the venue an order, not money. -/
def postsZeroCollateral : IntentKind → Bool
  | perpReduce | perpClose => true
  | _ => false

end IntentKind

/-- How a fill is verified: on the wallet's balance or on the venue's position. -/
inductive SettleMode where
  | tokenDelta | venuePosition
  deriving DecidableEq, Repr

/-- `settleModeFor`. -/
def settleModeFor (kind : IntentKind) : SettleMode :=
  if kind.isPerpIntentKind then .venuePosition else .tokenDelta

/-- How a built transaction is landed. -/
inductive LandMode where
  | jupiterUltra | selfRpc
  deriving DecidableEq, Repr

/-- The string form of a land mode. -/
def LandMode.name : LandMode → String
  | jupiterUltra => "jupiter-ultra"
  | selfRpc => "self-rpc"

/-- Where a mint of an intent came from. -/
inductive MintProvenance where
  | user | watchlist | untrusted
  deriving DecidableEq, Repr

/-- Every reason the kernel can refuse or abort a value-moving action. -/
inductive GuardCode where
  | executionDisabled | killSwitch | invalidIntent | mintNotPinned | mintDenied
  | token2022Unsupported | capExceeded | insufficientBalance | slippageExceeded
  | priorityFeeExceeded | priorityFeeInvalid | simulationFailed | minOutMismatch
  | duplicateIntent | broadcastFailed | confirmTimeout | settleShortfall
  | settleUnverifiable | settleUnverified
  deriving DecidableEq, Repr

/-- The string form of a code. -/
def GuardCode.name : GuardCode → String
  | executionDisabled => "EXECUTION_DISABLED"
  | killSwitch => "KILL_SWITCH"
  | invalidIntent => "INVALID_INTENT"
  | mintNotPinned => "MINT_NOT_PINNED"
  | mintDenied => "MINT_DENIED"
  | token2022Unsupported => "TOKEN2022_UNSUPPORTED"
  | capExceeded => "CAP_EXCEEDED"
  | insufficientBalance => "INSUFFICIENT_BALANCE"
  | slippageExceeded => "SLIPPAGE_EXCEEDED"
  | priorityFeeExceeded => "PRIORITY_FEE_EXCEEDED"
  | priorityFeeInvalid => "PRIORITY_FEE_INVALID"
  | simulationFailed => "SIMULATION_FAILED"
  | minOutMismatch => "MIN_OUT_MISMATCH"
  | duplicateIntent => "DUPLICATE_INTENT"
  | broadcastFailed => "BROADCAST_FAILED"
  | confirmTimeout => "CONFIRM_TIMEOUT"
  | settleShortfall => "SETTLE_SHORTFALL"
  | settleUnverifiable => "SETTLE_UNVERIFIABLE"
  | settleUnverified => "SETTLE_UNVERIFIED"

/-- What may be thrown on the money path: a `GuardError`, or anything else a port or the
driver throws, of which only the message is looked at. -/
inductive KernelError where
  | guard (code : GuardCode) (message : String)
  | other (message : String)
  deriving DecidableEq, Repr

namespace KernelError

/-- The message of a thrown value. -/
def message : KernelError → String
  | guard _ m => m
  | other m => m

/-- `isGuardError(err) ? err.code : fallback`. -/
def codeOr (fallback : String) : KernelError → String
  | guard c _ => c.name
  | other _ => fallback

end KernelError

/-- Spend caps in base units of the input-leg quote asset. Caps are built by
`toBaseUnits`, which yields no negative amount. -/
structure SpendCaps where
  perTrade : Nat
  perHour : Nat
  perDay : Nat
  deriving DecidableEq, Repr

/-- The deterministic safety policy. -/
structure PolicyConfig where
  executionEnabled : Bool
  killSwitch : Bool
  maxSlippageBps : JsNumber
  capsSol : SpendCaps
  capsUsdc : SpendCaps
  /-- `none` allows any mint, subject to the denylist -/
  mintAllowlist : Option (List String)
  mintDenylist : List String
  allowToken2022 : Bool
  priorityFeeMaxLamports : Int
  priorityFeeMaxBps : JsNumber

/-- An amount of a mint, in base units. -/
structure TokenAmount where
  mint : String
  amount : Int
  deriving DecidableEq, Repr

/-- The quote an intent was built from. -/
structure QuoteSummary where
  outAmount : Int
  minOutAmount : Int
  slippageBps : JsNumber
  deriving DecidableEq

/-- Direction of a perp order. -/
inductive PerpSide where
  | long | short
  deriving DecidableEq, Repr

/-- What the kernel needs of a perp leg. -/
structure PerpSettleLeg where
  venue : String
  market : String
  accountSubId : Nat
  side : PerpSide
  expectedBaseAmount : Int
  minBaseAmount : Int
  deriving DecidableEq, Repr

/-- The only thing a sign or spend tool may produce. -/
structure TradeIntent where
  kind : IntentKind
  source : String
  /-- what leaves the wallet, the leg the caps bind to -/
  input : TokenAmount
  outputMint : String
  inputProvenance : MintProvenance
  outputProvenance : MintProvenance
  unsignedTxBase64 : String
  lastValidBlockHeight : Int
  landMode : LandMode
  landHandle : Option String
  priorityFeeLamports : JsNumber
  quote : QuoteSummary
  perp : Option PerpSettleLeg
  summary : String
  deriving DecidableEq

/-- A signed transaction with its primary signature. -/
structure SignedTx where
  wireBase64 : String
  signature : String
  deriving DecidableEq, Repr

/-- Which venue position a settle check is about. -/
structure PerpPositionRef where
  venue : String
  market : String
  owner : String
  subAccountId : Nat
  deriving DecidableEq, Repr

/-- The answer of a preflight simulation. -/
structure SimOutcome where
  ok : Bool
  err : String
  deriving DecidableEq, Repr

/-- The confirmer's verdict on a signature. -/
inductive ConfirmStatus where
  | confirmed | expired | failed
  deriving DecidableEq, Repr

/-- The string form of a verdict. -/
def ConfirmStatus.name : ConfirmStatus → String
  | confirmed => "confirmed"
  | expired => "expired"
  | failed => "failed"

/-- `conf.status.toUpperCase()`. -/
def ConfirmStatus.upperName : ConfirmStatus → String
  | confirmed => "CONFIRMED"
  | expired => "EXPIRED"
  | failed => "FAILED"

/-- Options of `execute`. -/
structure ExecuteOptions where
  idempotencyKey : String
  dryRun : Bool
  confirmedByUser : Bool
  deriving DecidableEq, Repr

/-- The fill read back after confirmation. -/
structure FillReport where
  inputDelta : Int
  outputDelta : Int
  effectiveSlippageBps : JsNumber
  positionDelta : Option Int
  deriving DecidableEq

/-- A code and a message. -/
structure Problem where
  code : String
  message : String
  deriving DecidableEq, Repr

/-- What `execute` returns. -/
structure ExecuteResult where
  tradeId : String
  state : TradeState
  signature : Option String
  simulated : Bool
  summary : String
  fill : Option FillReport
  error : Option Problem
  deriving DecidableEq

/-- The append-only journal. -/
inductive JournalEvent where
  | intentReceived (tradeId : String) (at_ : Int) (idempotencyKey source summary : String)
  | guardRejected (tradeId : String) (at_ : Int) (code message : String)
  | tradeReserved (tradeId : String) (at_ : Int) (bucket : String) (amount : Int)
  | tradeSimulated (tradeId : String) (at_ : Int) (ok : Bool)
  | tradeSigned (tradeId : String) (at_ : Int) (signature : String)
  | tradeSent (tradeId : String) (at_ : Int) (signature : String)
  | tradeConfirmed (tradeId : String) (at_ : Int) (signature : String) (fill : FillReport)
  | tradeFailed (tradeId : String) (at_ : Int) (code message : String)
  deriving DecidableEq

/-! ### Money -/

/-- Wrapped SOL, the sentinel mint for native SOL. -/
def WSOL_MINT : String := "So11111111111111111111111111111111111111112"
def USDC_MINT : String := "EPjFWdd5AufqSSqeM2qN1xzybapC8G4wEGGkZwyTDt1v"
def USDT_MINT : String := "Es9vMFrzaCERmJfrF4H2FYD4KCoNkY11McCe8BenwNYB"

/-- The asset a cap is denominated in. -/
inductive QuoteBucket where
  | sol | usdc
  deriving DecidableEq, Repr

/-- `bucket.toUpperCase()`. -/
def QuoteBucket.upperName : QuoteBucket → String
  | sol => "SOL"
  | usdc => "USDC"

/-- The string form of a bucket. -/
def QuoteBucket.name : QuoteBucket → String
  | sol => "sol"
  | usdc => "usdc"

/-- The bucket an input mint draws from; `none` for a sell, which spends no quote asset. -/
def quoteBucketFor (mint : String) : Option QuoteBucket :=
  if [WSOL_MINT].contains mint then some .sol
  else if [USDC_MINT, USDT_MINT].contains mint then some .usdc
  else none

/-- The caps of a bucket. -/
def PolicyConfig.capsFor (policy : PolicyConfig) : QuoteBucket → SpendCaps
  | .sol => policy.capsSol
  | .usdc => policy.capsUsdc

/-- Effective slippage in bps between an expected and a received amount. The division is
that of `bigint`, which truncates towards zero. -/
def slippageBps (expected actual : Int) : JsNumber :=
  if expected ≤ 0 then .ofInt 0
  else .ofInt (((expected - actual) * 10000).tdiv expected)

end AriOs.Kernel
