import AriOs.Kernel.Contracts
import AriOs.Storage.Table
import Mathlib.Algebra.BigOperators.Group.List.Basic

/-!
# The kernel's single-writer store

Trades, spend reservations, idempotency keys and the journal, with the statements the
kernel runs on them. Every statement is one indivisible step; `reserve` reads the window
sums and inserts inside one transaction.
-/

namespace AriOs.Kernel

open AriOs.Storage

def HOUR_MS : Int := 3600000
def DAY_MS : Int := 86400000

/-- Whether a spend counts: `reserved` and `consumed` do, `released` does not. -/
inductive SpendState where
  | reserved | consumed | released
  deriving DecidableEq, Repr

/-- A row of `spends`. -/
structure SpendRow where
  id : String
  tradeId : String
  bucket : QuoteBucket
  amount : Int
  state : SpendState
  createdAt : Int
  deriving DecidableEq, Repr

/-- A row of `trades`. -/
structure TradeRow where
  id : String
  idempotencyKey : String
  state : TradeState
  signature : Option String
  inputMint : String
  outputMint : String
  inputAmount : Int
  lastValidBlockHeight : Int
  signedWire : Option String
  error : Option String
  reservationId : Option String
  createdAt : Int
  updatedAt : Int
  deriving DecidableEq, Repr

/-- A row of `idempotency`. -/
structure IdempotencyRow where
  key : String
  tradeId : String
  createdAt : Int
  deriving DecidableEq, Repr

/-- What `insertTrade` is given. -/
structure NewTradeRow where
  id : String
  idempotencyKey : String
  inputMint : String
  outputMint : String
  inputAmount : Int
  lastValidBlockHeight : Int
  now : Int
  deriving DecidableEq, Repr

/-- What `reserve` is given. -/
structure ReserveArgs where
  bucket : QuoteBucket
  amount : Int
  caps : SpendCaps
  tradeId : String
  now : Int
  deriving DecidableEq, Repr

/-- Which cap refused a reservation. -/
inductive ReserveDenyReason where
  | perTrade | perHour | perDay
  deriving DecidableEq, Repr

/-- The string form of a reason. -/
def ReserveDenyReason.name : ReserveDenyReason → String
  | perTrade => "perTrade"
  | perHour => "perHour"
  | perDay => "perDay"

/-- What `reserve` answers. -/
inductive ReserveOutcome where
  | reserved (reservationId : String) (usedHour usedDay : Int)
  | denied (reason : ReserveDenyReason) (cap would : Int)
  deriving DecidableEq, Repr

/-- The database. -/
structure KernelStore where
  trades : Table TradeRow.id
  spends : Table SpendRow.id
  idempotency : Table IdempotencyRow.key
  journal : List JournalEvent

/-- A spend counts against its bucket since `since`. -/
def SpendRow.activeSince (bucket : QuoteBucket) (since : Int) (r : SpendRow) : Bool :=
  r.bucket = bucket ∧ (r.state = .reserved ∨ r.state = .consumed) ∧ since ≤ r.createdAt

namespace KernelStore

/-- A freshly migrated database. -/
def empty : KernelStore := ⟨.empty, .empty, .empty, []⟩

/-- `#sumActive`. -/
def sumActive (s : KernelStore) (bucket : QuoteBucket) (since : Int) : Int :=
  ((s.spends.rows.filter (SpendRow.activeSince bucket since)).map SpendRow.amount).sum

/-- Cumulative active spend in the rolling hour and day windows. -/
def usage (s : KernelStore) (bucket : QuoteBucket) (now : Int) : Int × Int :=
  (s.sumActive bucket (now - HOUR_MS), s.sumActive bucket (now - DAY_MS))

/-- Claim an idempotency key: false if it was already used. -/
def claimIdempotency (s : KernelStore) (key tradeId : String) (now : Int) : Bool × KernelStore :=
  match s.idempotency.insert? ⟨key, tradeId, now⟩ with
  | some idempotency => (true, { s with idempotency })
  | none => (false, s)

def getTradeByIdempotency (s : KernelStore) (key : String) : Option TradeRow :=
  s.trades.rows.find? fun r => r.idempotencyKey = key

/-- Reserve against the input-leg caps. The window sums and the insert are one
transaction; a taken reservation id fails it and rolls it back. -/
def reserve (s : KernelStore) (args : ReserveArgs) (reservationId : String) :
    Except KernelError ReserveOutcome × KernelStore :=
  let usedHour := s.sumActive args.bucket (args.now - HOUR_MS)
  let usedDay := s.sumActive args.bucket (args.now - DAY_MS)
  if args.amount > args.caps.perTrade then
    (.ok (.denied .perTrade args.caps.perTrade args.amount), s)
  else if usedHour + args.amount > args.caps.perHour then
    (.ok (.denied .perHour args.caps.perHour (usedHour + args.amount)), s)
  else if usedDay + args.amount > args.caps.perDay then
    (.ok (.denied .perDay args.caps.perDay (usedDay + args.amount)), s)
  else
    match s.spends.insert?
        ⟨reservationId, args.tradeId, args.bucket, args.amount, .reserved, args.now⟩ with
    | some spends => (.ok (.reserved reservationId usedHour usedDay), { s with spends })
    | none => (.error (.other "UNIQUE constraint failed: spends.id"), s)

/-- Set the state of the spends selected by `p`. -/
def setSpendState (s : KernelStore) (p : SpendRow → Bool) (state : SpendState) : KernelStore :=
  { s with spends := s.spends.update p (fun r => { r with state }) fun _ => rfl }

def releaseReservation (s : KernelStore) (reservationId : String) : KernelStore :=
  s.setSpendState (fun r => r.id = reservationId ∧ r.state = .reserved) .released

/-- Unlike `releaseReservation` this does not look at the row's state. -/
def consumeReservation (s : KernelStore) (reservationId : String) : KernelStore :=
  s.setSpendState (fun r => r.id = reservationId) .consumed

/-- The row `insertTrade` writes. -/
def newTrade (row : NewTradeRow) (reservationId : Option String) : TradeRow where
  id := row.id
  idempotencyKey := row.idempotencyKey
  state := .reserved
  signature := none
  inputMint := row.inputMint
  outputMint := row.outputMint
  inputAmount := row.inputAmount
  lastValidBlockHeight := row.lastValidBlockHeight
  signedWire := none
  error := none
  reservationId := reservationId
  createdAt := row.now
  updatedAt := row.now

/-- Insert a trade; `id` and `idempotency_key` are both unique. -/
def insertTrade (s : KernelStore) (row : NewTradeRow) (reservationId : Option String) :
    Except KernelError Unit × KernelStore :=
  if (s.getTradeByIdempotency row.idempotencyKey).isSome then
    (.error (.other "UNIQUE constraint failed: trades.idempotency_key"), s)
  else
    match s.trades.insert? (newTrade row reservationId) with
    | some trades => (.ok (), { s with trades })
    | none => (.error (.other "UNIQUE constraint failed: trades.id"), s)

/-- Change the trade `id` in place. -/
def setTrade (s : KernelStore) (id : String) (f : TradeRow → TradeRow)
    (hf : ∀ r, (f r).id = r.id) : KernelStore :=
  { s with trades := s.trades.update (fun r => r.id = id) f hf }

/-- Persist the signed wire before broadcast. -/
def persistSigned (s : KernelStore) (id signedWire signature : String) (now : Int) :
    KernelStore :=
  s.setTrade id (fun r =>
    { r with signedWire := some signedWire, signature := some signature, updatedAt := now })
    fun _ => rfl

def setState (s : KernelStore) (id : String) (state : TradeState) (now : Int) : KernelStore :=
  s.setTrade id (fun r => { r with state, updatedAt := now }) fun _ => rfl

def setSignature (s : KernelStore) (id signature : String) (now : Int) : KernelStore :=
  s.setTrade id (fun r => { r with signature := some signature, updatedAt := now }) fun _ => rfl

def fail (s : KernelStore) (id : String) (state : TradeState) (error : String) (now : Int) :
    KernelStore :=
  s.setTrade id (fun r => { r with state, error := some error, updatedAt := now }) fun _ => rfl

/-- Trades that were broadcast but never reached a terminal state. -/
def pendingSent (s : KernelStore) : List TradeRow :=
  s.trades.rows.filter fun r => r.state = .sent

def appendJournal (s : KernelStore) (event : JournalEvent) : KernelStore :=
  { s with journal := s.journal ++ [event] }

/-! ### What each statement leaves alone -/

section Frame

variable {s : KernelStore} {id : String} {f : TradeRow → TradeRow} {hf : ∀ r, (f r).id = r.id}
  {p : SpendRow → Bool} {state : SpendState}

@[simp] theorem setTrade_spends : (s.setTrade id f hf).spends = s.spends := rfl

@[simp] theorem setTrade_idempotency : (s.setTrade id f hf).idempotency = s.idempotency := rfl

@[simp] theorem setSpendState_trades : (s.setSpendState p state).trades = s.trades := rfl

@[simp] theorem setSpendState_idempotency :
    (s.setSpendState p state).idempotency = s.idempotency := rfl

/-- The trades after an update of one of them. -/
theorem find?_setTrade {k : String} : (s.setTrade id f hf).trades.find? k =
    (s.trades.find? k).map fun r => if r.id = id then f r else r := by
  simp [setTrade, Table.find?_update]

/-- The spends after an update. -/
theorem find?_setSpendState {k : String} : (s.setSpendState p state).spends.find? k =
    (s.spends.find? k).map fun r => if p r then { r with state } else r := by
  rw [setSpendState, Table.find?_update]

@[simp] theorem claimIdempotency_trades {key tradeId : String} {now : Int} :
    (s.claimIdempotency key tradeId now).2.trades = s.trades := by
  unfold claimIdempotency
  split <;> rfl

@[simp] theorem claimIdempotency_spends {key tradeId : String} {now : Int} :
    (s.claimIdempotency key tradeId now).2.spends = s.spends := by
  unfold claimIdempotency
  split <;> rfl

/-- A reservation was made, or the store is as it was. -/
theorem reserve_cases (s : KernelStore) (args : ReserveArgs) (id : String) :
    (∃ spends usedHour usedDay,
      args.amount ≤ args.caps.perTrade ∧
      s.sumActive args.bucket (args.now - HOUR_MS) + args.amount ≤ args.caps.perHour ∧
      s.sumActive args.bucket (args.now - DAY_MS) + args.amount ≤ args.caps.perDay ∧
      s.spends.insert? ⟨id, args.tradeId, args.bucket, args.amount, .reserved, args.now⟩ = some spends ∧
      s.reserve args id = (.ok (.reserved id usedHour usedDay), { s with spends })) ∨
    (s.reserve args id).2 = s ∧ ∀ rid usedHour usedDay,
      (s.reserve args id).1 ≠ .ok (.reserved rid usedHour usedDay) := by
  unfold reserve
  dsimp only
  split
  · right; simp
  split
  · right; simp
  split
  · right; simp
  split
  · rename_i spends hspends
    left
    exact ⟨spends, _, _, by omega, by omega, by omega, hspends, rfl⟩
  · right; simp

/-- A trade was inserted, or the store is as it was. -/
theorem insertTrade_cases (s : KernelStore) (row : NewTradeRow) (reservationId : Option String) :
    (∃ trades, s.trades.insert? (newTrade row reservationId) = some trades ∧
      s.insertTrade row reservationId = (.ok (), { s with trades })) ∨
    ∃ e, s.insertTrade row reservationId = (.error e, s) := by
  unfold insertTrade
  split
  · right; exact ⟨_, rfl⟩
  split
  · rename_i trades htrades
    left; exact ⟨trades, htrades, rfl⟩
  · right; exact ⟨_, rfl⟩

end Frame

end KernelStore

end AriOs.Kernel
