import AriOs.Async.Pool
import AriOs.Kernel.PolicyEngine
import AriOs.Kernel.Store

/-!
# The trade gateway

`execute` as the program it is: the calls it makes on the store, on the injected ports
and on the clock, in the order it makes them, with every way a call can fail. Each store
statement is one call, so a run of several gateways interleaves between any two of them.

The live path has a single catch block around everything after the idempotency claim.
What the block does depends on two variables, the reservation id and whether the trade
row was inserted; the stages below are the stretches in which both are constant, and
each of them hands a thrown error to `liveCatch` with their values.
-/

namespace AriOs.Kernel

open AriOs.Async AriOs.Js

/-- `newId`: a prefix and a random part. -/
def newId (pfx uuid : String) : String := pfx ++ "_" ++ uuid

/-- Every call of the gateway and of the reconciler. -/
inductive Op where
  | now
  | newTradeId
  | policy
  | claimIdempotency (key tradeId : String) (now : Int)
  | getTradeByIdempotency (key : String)
  | usage (bucket : QuoteBucket) (now : Int)
  | inspectMints (input output : String)
  | reserve (args : ReserveArgs)
  | readPair (owner input output : String)
  | readPosition (ref : PerpPositionRef)
  | insertTrade (row : NewTradeRow) (reservationId : Option String)
  | appendJournal (event : JournalEvent)
  | simulate (txBase64 : String)
  | sign (txBase64 : String)
  | persistSigned (id signedWire signature : String) (now : Int)
  | broadcast (mode : LandMode) (signed : SignedTx) (handle : Option String)
  | setSignature (id signature : String) (now : Int)
  | setState (id : String) (state : TradeState) (now : Int)
  | confirm (signature : String) (lastValidBlockHeight : Int)
  | releaseReservation (reservationId : String)
  | consumeReservation (reservationId : String)
  | fail (id : String) (state : TradeState) (error : String) (now : Int)
  | pendingSent

/-- What the environment contributes: port answers or errors, clock readings, the policy
of the moment and the random parts of fresh ids. -/
def Op.Ans : Op → Type
  | now => Int
  | newTradeId => String
  | policy => PolicyConfig
  | inspectMints _ _ => Except KernelError (Bool × Bool)
  | reserve _ => String
  | readPair _ _ _ => Except KernelError (Int × Int)
  | readPosition _ => Except KernelError Int
  | simulate _ => Except KernelError SimOutcome
  | sign _ => Except KernelError SignedTx
  | broadcast _ _ _ => Except KernelError String
  | confirm _ _ => Except KernelError ConfirmStatus
  | _ => Unit

/-- What the program is handed. -/
def Op.Res : Op → Type
  | claimIdempotency _ _ _ => Bool
  | getTradeByIdempotency _ => Option TradeRow
  | usage _ _ => Int × Int
  | reserve _ => Except KernelError ReserveOutcome
  | insertTrade _ _ => Except KernelError Unit
  | pendingSent => List TradeRow
  | o => o.Ans

/-- The gateway's calls. -/
def interface : Interface := ⟨Op, Op.Ans, Op.Res⟩

/-- What each call does to the store. -/
def machine : Machine interface KernelStore where
  handle
    | .now, s, a => (a, s)
    | .newTradeId, s, a => (newId "trd" a, s)
    | .policy, s, a => (a, s)
    | .claimIdempotency key tradeId now, s, _ => s.claimIdempotency key tradeId now
    | .getTradeByIdempotency key, s, _ => (s.getTradeByIdempotency key, s)
    | .usage bucket now, s, _ => (s.usage bucket now, s)
    | .inspectMints _ _, s, a => (a, s)
    | .reserve args, s, a => s.reserve args (newId "rsv" a)
    | .readPair _ _ _, s, a => (a, s)
    | .readPosition _, s, a => (a, s)
    | .insertTrade row reservationId, s, _ => s.insertTrade row reservationId
    | .appendJournal event, s, _ => ((), s.appendJournal event)
    | .simulate _, s, a => (a, s)
    | .sign _, s, a => (a, s)
    | .persistSigned id signedWire signature now, s, _ =>
      ((), s.persistSigned id signedWire signature now)
    | .broadcast _ _ _, s, a => (a, s)
    | .setSignature id signature now, s, _ => ((), s.setSignature id signature now)
    | .setState id state now, s, _ => ((), s.setState id state now)
    | .confirm _ _, s, a => (a, s)
    | .releaseReservation reservationId, s, _ => ((), s.releaseReservation reservationId)
    | .consumeReservation reservationId, s, _ => ((), s.consumeReservation reservationId)
    | .fail id state error now, s, _ => ((), s.fail id state error now)
    | .pendingSent, s, _ => (s.pendingSent, s)

/-- How a gateway is composed: the wallet it signs for, the land modes with a broadcaster
and whether a position reader is mounted. -/
structure Deps where
  walletPubkey : String
  hasBroadcaster : LandMode → Bool
  positions : Bool

/-! ### Calls in the types the gateway uses them at -/

/-- The gateway's code, up to its throws. -/
abbrev Gateway (α : Type) := Task interface KernelError α

namespace Gateway

def now : Gateway Int := Task.total (I := interface) .now

def newTradeId : Gateway String := Task.total (I := interface) .newTradeId

def policy : Gateway PolicyConfig := Task.total (I := interface) .policy

def usage (bucket : QuoteBucket) (now : Int) : Gateway (Int × Int) :=
  Task.total (I := interface) (.usage bucket now)

def claimIdempotency (key tradeId : String) (now : Int) : Gateway Bool :=
  Task.total (I := interface) (.claimIdempotency key tradeId now)

def getTradeByIdempotency (key : String) : Gateway (Option TradeRow) :=
  Task.total (I := interface) (.getTradeByIdempotency key)

/-- A statement made for its effect. -/
def store (o : Op) : Gateway Unit := Task.perform (I := interface) o

def inspectMints (input output : String) : Gateway (Bool × Bool) :=
  ExceptT.mk (Prog.ask (I := interface) (.inspectMints input output))

def reserve (args : ReserveArgs) : Gateway ReserveOutcome :=
  ExceptT.mk (Prog.ask (I := interface) (.reserve args))

def insertTrade (row : NewTradeRow) (reservationId : Option String) : Gateway Unit :=
  ExceptT.mk (Prog.ask (I := interface) (.insertTrade row reservationId))

def simulate (txBase64 : String) : Gateway SimOutcome :=
  ExceptT.mk (Prog.ask (I := interface) (.simulate txBase64))

def sign (txBase64 : String) : Gateway SignedTx :=
  ExceptT.mk (Prog.ask (I := interface) (.sign txBase64))

/-- Whatever the broadcaster throws comes out as one code. -/
def broadcast (mode : LandMode) (signed : SignedTx) (handle : Option String) : Gateway String :=
  ExceptT.mk (.call (I := interface) (.broadcast mode signed handle) fun
    | .ok signature => .pure (.ok signature)
    | .error e => .pure (.error (.guard .broadcastFailed e.message)))

def confirm (signature : String) (lastValidBlockHeight : Int) : Gateway ConfirmStatus :=
  ExceptT.mk (Prog.ask (I := interface) (.confirm signature lastValidBlockHeight))

/-- `if (reservationId) store.releaseReservation(reservationId)`. -/
def releaseIfHeld : Option String → Gateway Unit
  | some reservationId => store (.releaseReservation reservationId)
  | none => pure ()

/-- `if (reservationId) store.consumeReservation(reservationId)`. -/
def consumeIfHeld : Option String → Gateway Unit
  | some reservationId => store (.consumeReservation reservationId)
  | none => pure ()

end Gateway

open AriOs.Kernel.Gateway

/-- `result`, for a refusal: `#errorResult`. -/
def errorResult (tradeId : String) (err : KernelError) (simulated : Bool) : ExecuteResult where
  tradeId := tradeId
  state := .rejected
  signature := none
  simulated := simulated
  summary := err.message
  fill := none
  error := some ⟨err.codeOr "INTERNAL", err.message⟩

/-! ### Checks and reads -/

/-- Refuse, before anything is signed, an intent whose fill cannot be verified. -/
def assertSettleable (d : Deps) (intent : TradeIntent) : Except KernelError Unit :=
  throwIf (settleModeFor intent.kind = .venuePosition ∧ ¬ d.positions)
    (.guard .settleUnverifiable
      ("no position reader is mounted for venue '" ++
        ((intent.perp.map PerpSettleLeg.venue).getD "unknown") ++
        "' — a perp fill cannot be verified from a token balance, so this intent is refused"))

/-- The venue position an intent targets; none for a kind that is not a perp. -/
def positionRef (d : Deps) (intent : TradeIntent) : Option PerpPositionRef :=
  match intent.perp, settleModeFor intent.kind with
  | some perp, .venuePosition => some ⟨perp.venue, perp.market, d.walletPubkey, perp.accountSubId⟩
  | _, _ => none

def assertMintsSupported (policy : PolicyConfig) (intent : TradeIntent) : Gateway Unit := do
  let info ← inspectMints intent.input.mint intent.outputMint
  Task.ofExcept (throwIf (¬ policy.allowToken2022 ∧ (info.1 ∨ info.2))
    (.guard .token2022Unsupported
      "Token-2022 mint detected; refused (transfer fees / hooks are not accounted for)"))

/-- Both balances of the wallet, read together. -/
def readPair (d : Deps) (intent : TradeIntent) : Gateway (Int × Int) :=
  ExceptT.mk (Prog.ask (I := interface)
    (.readPair d.walletPubkey intent.input.mint intent.outputMint))

def readPositionOf (ref : PerpPositionRef) : Gateway Int :=
  ExceptT.mk (Prog.ask (I := interface) (.readPosition ref))

def readPosition (d : Deps) (intent : TradeIntent) : Gateway (Option Int) :=
  match positionRef d intent with
  | some ref => do
    let position ← readPositionOf ref
    pure (some position)
  | none => pure none

def assertWithinCaps (bucket : QuoteBucket) (amount : Int) (caps : SpendCaps) (used : Int × Int) :
    Except KernelError Unit := do
  throwIf (amount > caps.perTrade)
    (.guard .capExceeded (bucket.upperName ++ " per-trade cap exceeded"))
  throwIf (used.1 + amount > caps.perHour)
    (.guard .capExceeded (bucket.upperName ++ " per-hour cap exceeded"))
  throwIf (used.2 + amount > caps.perDay)
    (.guard .capExceeded (bucket.upperName ++ " per-day cap exceeded"))

def assertSimulated (sim : SimOutcome) : Except KernelError Unit :=
  throwIf (¬ sim.ok) (.guard .simulationFailed "preflight simulation failed")

/-! ### The read-only path -/

/-- The cap check of a preview: it reads the usage and reserves nothing. -/
def previewCaps (policy : PolicyConfig) (intent : TradeIntent) : Gateway Unit :=
  match quoteBucketFor intent.input.mint with
  | some bucket => do
    let at_ ← now
    let used ← usage bucket at_
    Task.ofExcept (assertWithinCaps bucket intent.input.amount (policy.capsFor bucket) used)
  | none => pure ()

/-- The body of `#preview`, up to its throws. -/
def previewChecks (d : Deps) (intent : TradeIntent) (opts : ExecuteOptions)
    (tradeId : String) : Gateway ExecuteResult := do
  let policy ← policy
  Task.ofExcept (staticGuards policy intent ⟨true, opts.confirmedByUser⟩)
  Task.ofExcept (assertSettleable d intent)
  assertMintsSupported policy intent
  previewCaps policy intent
  let sim ← simulate intent.unsignedTxBase64
  Task.ofExcept (assertSimulated sim)
  pure { tradeId, state := .reserved, signature := none, simulated := true,
         summary := intent.summary, fill := none, error := none }

/-- Validation for a quote card: touches no idempotency or trade rows. -/
def preview (d : Deps) (intent : TradeIntent) (opts : ExecuteOptions) :
    Gateway ExecuteResult := do
  let tradeId ← newTradeId
  (previewChecks d intent opts tradeId).orCatch
    (fun err => pure (errorResult tradeId err true)) pure

/-! ### The live path -/

/-- Headroom for fees and rent on a trade that spends SOL. -/
def FEE_BUFFER_LAMPORTS : Int := 3000000

/-- What the live path returns for a key that was already used. -/
def duplicateResult (tradeId : String) (prior : Option TradeRow) : ExecuteResult where
  tradeId := (prior.map TradeRow.id).getD tradeId
  state := (prior.map TradeRow.state).getD .rejected
  signature := prior.bind TradeRow.signature
  simulated := false
  summary := "duplicate request — this idempotency key was already used"
  fill := none
  error := some ⟨GuardCode.duplicateIntent.name, "idempotency key already used"⟩

/-- The reservation of the input-leg cap. A sell spends no quote asset and reserves
nothing. -/
def reserveCap (policy : PolicyConfig) (intent : TradeIntent) (tradeId : String) (at_ : Int) :
    Gateway (Option String) :=
  match quoteBucketFor intent.input.mint with
  | some bucket => do
    let outcome ← reserve ⟨bucket, intent.input.amount, policy.capsFor bucket, tradeId, at_⟩
    match outcome with
    | .reserved reservationId _ _ => pure (some reservationId)
    | .denied reason _ _ =>
      throw (.guard .capExceeded (bucket.upperName ++ " " ++ reason.name ++ " cap exceeded"))
  | none => pure none

/-- Stage one, before anything is held: the guards, then the reservation. -/
def reserveStage (d : Deps) (intent : TradeIntent) (opts : ExecuteOptions) (tradeId : String)
    (at_ : Int) : Gateway (Option String) := do
  let policy ← policy
  Task.ofExcept (staticGuards policy intent ⟨false, opts.confirmedByUser⟩)
  Task.ofExcept (assertSettleable d intent)
  assertMintsSupported policy intent
  reserveCap policy intent tradeId at_

/-- What the wallet and the venue held before anything was signed. -/
structure Baseline where
  input : Int
  output : Int
  position : Option Int

/-- Stage two, holding the reservation: the balance check, then the trade row. -/
def insertStage (d : Deps) (intent : TradeIntent) (opts : ExecuteOptions) (tradeId : String)
    (at_ : Int) (reservationId : Option String) : Gateway Baseline := do
  let pre ← readPair d intent
  let prePosition ← readPosition d intent
  let need := intent.input.amount +
    (if quoteBucketFor intent.input.mint = some .sol then FEE_BUFFER_LAMPORTS else 0)
  Task.ofExcept (throwIf (pre.1 < need)
    (.guard .insufficientBalance "wallet balance cannot cover this trade plus fees"))
  insertTrade ⟨tradeId, opts.idempotencyKey, intent.input.mint, intent.outputMint,
    intent.input.amount, intent.lastValidBlockHeight, at_⟩ reservationId
  pure ⟨pre.1, pre.2, prePosition⟩

def journalReserved (intent : TradeIntent) (tradeId : String) (at_ : Int) :
    Option String → Gateway Unit
  | some _ => store (.appendJournal (.tradeReserved tradeId at_
      (((quoteBucketFor intent.input.mint).map QuoteBucket.name).getD "") intent.input.amount))
  | none => pure ()

/-- Stage three, holding the reservation and the trade row: preflight, then the signature,
persisted before anything is broadcast. -/
def signStage (intent : TradeIntent) (opts : ExecuteOptions) (tradeId : String) (at_ : Int)
    (reservationId : Option String) : Gateway SignedTx := do
  store (.appendJournal
    (.intentReceived tradeId at_ opts.idempotencyKey intent.source intent.summary))
  journalReserved intent tradeId at_ reservationId
  let sim ← simulate intent.unsignedTxBase64
  let simulatedAt ← now
  store (.appendJournal (.tradeSimulated tradeId simulatedAt sim.ok))
  Task.ofExcept (assertSimulated sim)
  let signed ← sign intent.unsignedTxBase64
  let persistedAt ← now
  store (.persistSigned tradeId signed.wireBase64 signed.signature persistedAt)
  let signedAt ← now
  store (.appendJournal (.tradeSigned tradeId signedAt signed.signature))
  pure signed

/-- Stage four: broadcast, and record that it happened. -/
def broadcastStage (d : Deps) (intent : TradeIntent) (tradeId : String) (signed : SignedTx) :
    Gateway String := do
  Task.ofExcept (throwIf (¬ d.hasBroadcaster intent.landMode)
    (.guard .broadcastFailed ("no broadcaster for land mode '" ++ intent.landMode.name ++ "'")))
  let signature ← broadcast intent.landMode signed intent.landHandle
  let setAt ← now
  store (.setSignature tradeId signature setAt)
  let sentAt ← now
  store (.setState tradeId .sent sentAt)
  let journaledAt ← now
  store (.appendJournal (.tradeSent tradeId journaledAt signature))
  pure signature

/-- A verdict against the transaction is terminal: release and fail, never re-sign. -/
def unconfirmed (tradeId : String) (reservationId : Option String) (status : ConfirmStatus) :
    Gateway ExecuteResult := do
  let code := if status = .expired then GuardCode.confirmTimeout else GuardCode.broadcastFailed
  releaseIfHeld reservationId
  let failedAt ← now
  store (.fail tradeId (if status = .expired then .expired else .errored) code.name failedAt)
  let journaledAt ← now
  store (.appendJournal
    (.tradeFailed tradeId journaledAt code.name ("confirmation " ++ status.name)))
  pure (errorResult tradeId
    (.guard code ("transaction " ++ status.name ++ " before confirmation")) false)

/-- What the verification of a fill found. -/
structure Settlement where
  effectiveSlippageBps : JsNumber
  positionDelta : Option Int
  problem : Option Problem

/-- The swap-shaped check: the output balance grew by the committed min-out. -/
def tokenSettlement (intent : TradeIntent) (outputDelta : Int) : Settlement where
  effectiveSlippageBps :=
    slippageBps intent.quote.outAmount (if outputDelta > 0 then outputDelta else 0)
  positionDelta := none
  problem :=
    if outputDelta < intent.quote.minOutAmount then
      some ⟨GuardCode.settleShortfall.name, "received less than committed min-out"⟩
    else none

/-- The perp check: the position moved in the order's direction by the minimum size. -/
def positionSettlement (perp : PerpSettleLeg) (prePosition postPosition : Int) : Settlement :=
  let positionDelta := postPosition - prePosition
  let filled := if perp.side = .long then positionDelta else -positionDelta
  { effectiveSlippageBps :=
      slippageBps perp.expectedBaseAmount (if filled > 0 then filled else 0)
    positionDelta := some positionDelta
    problem :=
      if filled < perp.minBaseAmount then
        some ⟨GuardCode.settleShortfall.name,
          perp.market ++ " position moved " ++ toString filled ++
            " base units, below the committed minimum " ++ toString perp.minBaseAmount⟩
      else none }

/-- A position that could not be read back is reported, never thrown: the transaction is
already on chain. -/
def unverifiedSettlement (perp : PerpSettleLeg) (err : KernelError) : Settlement where
  effectiveSlippageBps := .ofInt 0
  positionDelta := none
  problem := some ⟨GuardCode.settleUnverified.name,
    "confirmed on-chain, but the " ++ perp.venue ++ " position could not be read back: " ++
      err.message⟩

/-- Verify the fill of a confirmed transaction. -/
def settle (d : Deps) (intent : TradeIntent) (outputDelta : Int) (prePosition : Option Int) :
    Gateway Settlement :=
  match positionRef d intent, intent.perp, prePosition with
  | some ref, some perp, some before => ExceptT.mk do
    match ← (readPositionOf ref).attempt with
    | .ok after => pure (.ok (positionSettlement perp before after))
    | .error err => pure (.ok (unverifiedSettlement perp err))
  | _, _, _ => pure (tokenSettlement intent outputDelta)

/-- The spend happened: read the fill back, consume the reservation, confirm the trade. -/
def confirmed (d : Deps) (intent : TradeIntent) (tradeId signature : String)
    (reservationId : Option String) (baseline : Baseline) : Gateway ExecuteResult := do
  let post ← readPair d intent
  let inputDelta := post.1 - baseline.input
  let outputDelta := post.2 - baseline.output
  let settlement ← settle d intent outputDelta baseline.position
  consumeIfHeld reservationId
  let confirmedAt ← now
  store (.setState tradeId .confirmed confirmedAt)
  let journaledAt ← now
  let fill : FillReport :=
    ⟨inputDelta, outputDelta, settlement.effectiveSlippageBps, settlement.positionDelta⟩
  store (.appendJournal (.tradeConfirmed tradeId journaledAt signature fill))
  pure {
    tradeId, state := .confirmed, signature := some signature, simulated := false
    summary := match settlement.problem with
      | some problem => intent.summary ++ " — WARNING: " ++ problem.message
      | none => intent.summary
    fill := some fill
    error := settlement.problem }

/-- Stage five: wait for the verdict. -/
def confirmStage (d : Deps) (intent : TradeIntent) (tradeId signature : String)
    (reservationId : Option String) (baseline : Baseline) : Gateway ExecuteResult := do
  let status ← confirm signature intent.lastValidBlockHeight
  match status with
  | .confirmed => confirmed d intent tradeId signature reservationId baseline
  | status => unconfirmed tradeId reservationId status

/-- Stages three to five: from the inserted row to the verdict. -/
def sendStage (d : Deps) (intent : TradeIntent) (opts : ExecuteOptions) (tradeId : String)
    (at_ : Int) (reservationId : Option String) (baseline : Baseline) :
    Gateway ExecuteResult := do
  let signed ← signStage intent opts tradeId at_ reservationId
  let signature ← broadcastStage d intent tradeId signed
  confirmStage d intent tradeId signature reservationId baseline

/-- The journal of the catch block; only an inserted trade has a row to fail. -/
def recordFailure (tradeId : String) (inserted : Bool) (err : KernelError) : Gateway Unit :=
  if inserted then do
    let failedAt ← now
    store (.fail tradeId .errored (err.codeOr "INTERNAL") failedAt)
    let journaledAt ← now
    store (.appendJournal (.tradeFailed tradeId journaledAt
      (err.codeOr GuardCode.invalidIntent.name) err.message))
  else do
    let journaledAt ← now
    store (.appendJournal (.guardRejected tradeId journaledAt
      (err.codeOr GuardCode.invalidIntent.name) err.message))

/-- The catch block. -/
def liveCatch (tradeId : String) (reservationId : Option String) (inserted : Bool)
    (err : KernelError) : Gateway ExecuteResult := do
  releaseIfHeld reservationId
  recordFailure tradeId inserted err
  pure (errorResult tradeId err false)

/-- The live path once the idempotency key is claimed. -/
def liveClaimed (d : Deps) (intent : TradeIntent) (opts : ExecuteOptions) (tradeId : String)
    (at_ : Int) : Gateway ExecuteResult :=
  (reserveStage d intent opts tradeId at_).orCatch (liveCatch tradeId none false)
    fun reservationId =>
      (insertStage d intent opts tradeId at_ reservationId).orCatch
        (liveCatch tradeId reservationId false)
        fun baseline =>
          (sendStage d intent opts tradeId at_ reservationId baseline).orCatch
            (liveCatch tradeId reservationId true) pure

/-- The live path: claim the key before anything that could move money. -/
def live (d : Deps) (intent : TradeIntent) (opts : ExecuteOptions) : Gateway ExecuteResult := do
  let at_ ← now
  let tradeId ← newTradeId
  let claimed ← claimIdempotency opts.idempotencyKey tradeId at_
  if claimed then
    liveClaimed d intent opts tradeId at_
  else
    let prior ← getTradeByIdempotency opts.idempotencyKey
    pure (duplicateResult tradeId prior)

/-- What a caller asks of the gateway. -/
structure Request where
  intent : TradeIntent
  opts : ExecuteOptions

/-- `execute`. -/
def execute (d : Deps) (r : Request) : Prog interface (Except KernelError ExecuteResult) :=
  (if r.opts.dryRun then preview d r.intent r.opts else live d r.intent r.opts).attempt

/-! ### Stretches that leave the outcome open -/

/-- The calls that say nothing about the outcome of a trade: no balance is read, the confirmer
is not asked, and no row is inserted or settled. -/
def Quiet : Op → Prop
  | .readPair _ _ _ | .confirm _ _ | .insertTrade _ _ | .consumeReservation _
  | .releaseReservation _ | .fail _ _ _ _ => False
  | .setState _ state _ => state = .sent
  | _ => True

section Quiet

variable {d : Deps} {intent : TradeIntent} {opts : ExecuteOptions} {tradeId : String} {at_ : Int}

theorem quiet_now : Task.Only Quiet now := Task.only_total trivial

theorem quiet_journal (event : JournalEvent) : Task.Only Quiet (store (.appendJournal event)) :=
  Task.only_perform trivial

theorem quiet_assertMintsSupported (policy : PolicyConfig) :
    Task.Only Quiet (assertMintsSupported policy intent) :=
  Task.Only.bind ⟨trivial, fun _ => trivial⟩ fun _ => Task.only_ofExcept _

theorem quiet_readPosition : Task.Only Quiet (readPosition d intent) := by
  unfold readPosition
  split
  · exact Task.Only.bind ⟨trivial, fun _ => trivial⟩ fun _ => Task.only_pure _
  · exact Task.only_pure _

theorem quiet_reserveStage : Task.Only Quiet (reserveStage d intent opts tradeId at_) := by
  refine Task.Only.bind (Task.only_total trivial) fun policy => ?_
  refine (Task.only_ofExcept _).bind fun _ => (Task.only_ofExcept _).bind fun _ => ?_
  refine (quiet_assertMintsSupported policy).bind fun _ => ?_
  unfold reserveCap
  split
  · refine Task.Only.bind ⟨trivial, fun _ => trivial⟩ fun outcome => ?_
    cases outcome with
    | reserved reservationId usedHour usedDay => exact Task.only_pure _
    | denied reason cap would => exact Task.only_throw _
  · exact Task.only_pure _

theorem quiet_journalReserved (reservationId : Option String) :
    Task.Only Quiet (journalReserved intent tradeId at_ reservationId) := by
  cases reservationId with
  | none => exact Task.only_pure _
  | some rid => exact quiet_journal _

theorem quiet_signStage (reservationId : Option String) :
    Task.Only Quiet (signStage intent opts tradeId at_ reservationId) := by
  refine (quiet_journal _).bind fun _ => (quiet_journalReserved _).bind fun _ => ?_
  refine Task.Only.bind ⟨trivial, fun _ => trivial⟩ fun sim => ?_
  refine quiet_now.bind fun simulatedAt => (quiet_journal _).bind fun _ => ?_
  refine (Task.only_ofExcept _).bind fun _ => ?_
  refine Task.Only.bind ⟨trivial, fun _ => trivial⟩ fun signed => ?_
  refine quiet_now.bind fun persistedAt => ?_
  refine Task.Only.bind (Task.only_perform trivial) fun _ => ?_
  exact quiet_now.bind fun signedAt => (quiet_journal _).bind fun _ => Task.only_pure _

theorem quiet_broadcastStage (signed : SignedTx) :
    Task.Only Quiet (broadcastStage d intent tradeId signed) := by
  refine (Task.only_ofExcept _).bind fun _ => ?_
  refine Task.Only.bind ⟨trivial, fun r => ?_⟩ fun signature => ?_
  · cases r <;> trivial
  refine quiet_now.bind fun setAt => ?_
  refine Task.Only.bind (Task.only_perform trivial) fun _ => ?_
  refine quiet_now.bind fun sentAt => ?_
  refine Task.Only.bind (Task.only_perform rfl) fun _ => ?_
  exact quiet_now.bind fun journaledAt => (quiet_journal _).bind fun _ => Task.only_pure _

theorem quiet_previewCaps (policy : PolicyConfig) :
    Task.Only Quiet (previewCaps policy intent) := by
  unfold previewCaps
  split
  · refine quiet_now.bind fun at_ => ?_
    exact Task.Only.bind (Task.only_total trivial) fun used => Task.only_ofExcept _
  · exact Task.only_pure _

theorem quiet_previewChecks : Task.Only Quiet (previewChecks d intent opts tradeId) := by
  refine Task.Only.bind (Task.only_total trivial) fun policy => ?_
  refine (Task.only_ofExcept _).bind fun _ => (Task.only_ofExcept _).bind fun _ => ?_
  refine (quiet_assertMintsSupported _).bind fun _ => (quiet_previewCaps _).bind fun _ => ?_
  refine Task.Only.bind ⟨trivial, fun _ => trivial⟩ fun sim => ?_
  exact (Task.only_ofExcept _).bind fun _ => Task.only_pure _

theorem quiet_preview : Task.Only Quiet (preview d intent opts) :=
  Task.Only.bind (Task.only_total trivial) fun _ =>
    Task.Only.orCatch quiet_previewChecks (fun _ => Task.only_pure _) fun _ => Task.only_pure _

end Quiet

end AriOs.Kernel
