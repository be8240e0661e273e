import AriOs.Async.Pool
import AriOs.Execution.Control
import AriOs.Js.Throw
import AriOs.Storage.Total

/-!
# The ledger in use

Any number of connections have one ledger open. A transaction takes the write lock before it
looks at anything, so it is one step; a method that is not one transaction makes its statements
one by one, and other connections may come between them. A statement fails where the database
is busy or broken, and then changes nothing.

## Main results

* `NotOversubscribed.handle` — no statement takes the ledger over a cap
-/

namespace AriOs.Execution

open AriOs.Async AriOs.Js AriOs.Storage

/-! ### Statements -/

/-- A statement or a transaction, and the reading of the clock. -/
inductive LedgerOp where
  | now
  /-- `BEGIN IMMEDIATE`, expire, check, insert, `COMMIT` -/
  | reserve (o : LedgerOptions) (e : LedgerEntry) (limits : ReservationLimits)
  | setCommitted (id : String) (at_ : Int)
  | selectCommitted (id : String)
  | deleteReserved (id : String)
  | selectId (id : String)
  | expire (now : Int)
  | selectAll
  /-- `BEGIN IMMEDIATE`, insert what is not there, set the status, `COMMIT` -/
  | insertSnapshot (es : List LedgerEntry) (discrepancy : Bool)
  deriving DecidableEq, Repr

/-- The clock contributes a reading, the database whether the statement fails. -/
abbrev LedgerOp.Ans : LedgerOp → Type
  | .now => Int
  | _ => Bool

abbrev LedgerOp.Res : LedgerOp → Type
  | .now => Int
  | .reserve _ _ _ => Bool
  | .setCommitted _ _ | .deleteReserved _ => Except String Nat
  | .selectCommitted _ | .selectId _ => Except String Bool
  | .expire _ | .insertSnapshot _ _ => Except String Unit
  | .selectAll => Except String (List Reservation)

/-- What the ledger's methods call. -/
abbrev LedgerI : Interface := ⟨LedgerOp, LedgerOp.Ans, LedgerOp.Res⟩

/-- The tables of the database. -/
structure LedgerDb where
  reservations : Ledger
  /-- `status` of `ledger_meta`: whether the last snapshot was off -/
  discrepancy : Option Bool

def ERR_LOCKED : String := "database is locked"
def ERR_BIND : String := "BigInt value is too large to bind"

namespace Ledger

/-- `SET state='committed',at=?,expires_at=?`. -/
def asCommitted (at_ : Int) (r : Reservation) : Reservation :=
  { r with state := .committed, at_ := at_, expiresAt := at_ }

theorem asCommitted_id (at_ : Int) (r : Reservation) : (asCommitted at_ r).id = r.id := rfl

/-- `UPDATE reservations SET ... WHERE id=? AND state='reserved'`. -/
def setCommitted (l : Ledger) (id : String) (at_ : Int) : Ledger :=
  l.update (fun r => r.id = id ∧ r.state = .reserved) (asCommitted at_)
    (asCommitted_id at_)

/-- The row a snapshot's entry is taken over as. -/
def snapshotRow (e : LedgerEntry) : Reservation :=
  ⟨e.id, e.at_, e.asset, e.strategy, e.amount, .committed, e.at_, none⟩

/-- `INSERT ... ON CONFLICT(id) DO NOTHING`, for every entry of a snapshot. -/
def insertSnapshot (l : Ledger) (es : List LedgerEntry) : Ledger :=
  es.foldl (fun l e => (l.insert? (snapshotRow e)).getD l) l

end Ledger

/-- A statement that fails throws and changes nothing. -/
def unlessFails {α : Type} (fails : Bool) (db : LedgerDb)
    (x : Except String α × LedgerDb) : Except String α × LedgerDb :=
  if fails then (.error ERR_LOCKED, db) else x

/-- What each statement does. Only the reservation catches what it throws. -/
def ledgerMachine : Machine LedgerI LedgerDb where
  handle
    | .now, db, now => (now, db)
    | .reserve o e limits, db, fails =>
      if fails then (false, db)
      else
        let out := db.reservations.reserveWithin o e limits
        (out.1, { db with reservations := out.2 })
    | .setCommitted id at_, db, fails => unlessFails fails db <|
      if ¬ fitsInt64 at_ then (.error ERR_BIND, db)
      else (.ok (db.reservations.count fun r => r.id = id ∧ r.state = .reserved),
        { db with reservations := db.reservations.setCommitted id at_ })
    | .selectCommitted id, db, fails => unlessFails fails db
        (.ok ((db.reservations.find? id).any fun r => r.state = .committed), db)
    | .deleteReserved id, db, fails => unlessFails fails db
        (.ok (db.reservations.count fun r => r.id = id ∧ r.state = .reserved),
          { db with reservations := (db.reservations.release id).2 })
    | .selectId id, db, fails => unlessFails fails db (.ok (db.reservations.has id), db)
    | .expire now, db, fails => unlessFails fails db <|
      if ¬ fitsInt64 now then (.error ERR_BIND, db)
      else (.ok (), { db with reservations := db.reservations.expire now })
    | .selectAll, db, fails => unlessFails fails db (.ok db.reservations.rows, db)
    | .insertSnapshot es discrepancy, db, fails => unlessFails fails db <|
      if es.any fun e => ¬ fitsInt64 e.amount then (.error ERR_BIND, db)
      else (.ok (), ⟨db.reservations.insertSnapshot es, some discrepancy⟩)

/-! ### Methods -/

/-- A row as `entries` hands it out. -/
structure Internal where
  id : String
  at_ : Int
  asset : String
  strategy : String
  amount : Int
  state : ReservationState
  deriving DecidableEq, Repr

def Internal.of (r : Reservation) : Internal :=
  ⟨r.id, r.at_, r.asset, r.strategy, r.amount, r.state⟩

inductive LedgerResult where
  | reserved (added : Bool)
  | committed (is_ : Bool)
  | released (removed : Bool)
  | has (is_ : Bool)
  | entries (rows : List Internal)
  | reconciled (discrepancy : Bool)
  deriving DecidableEq, Repr

abbrev LedgerTask (α : Type) := Task LedgerI String α

/-- A statement whose failure is thrown on. -/
def statement {α : Type} (o : LedgerOp) (h : LedgerI.Res o = Except String α) : LedgerTask α :=
  ExceptT.mk (.call (I := LedgerI) o fun r => .pure (cast h r))

def now : LedgerTask Int := Task.total (I := LedgerI) .now

/-- `reserveWithin`, of a ledger opened like this. -/
def reserveWithin (o : LedgerOptions) (e : LedgerEntry) (limits : ReservationLimits) :
    LedgerTask Bool :=
  Task.total (I := LedgerI) (.reserve o e limits)

/-- `release`. -/
def release (id : String) : LedgerTask Bool := do
  let changes ← statement (.deleteReserved id) rfl
  return changesIsBigOne changes

/-- `commit`, at the ledger's own reading of the clock. -/
def commit (id : String) : LedgerTask Bool := do
  let at_ ← now
  let changes ← statement (.setCommitted id at_) rfl
  if changesIsBigOne changes then return true
  statement (.selectCommitted id) rfl

/-- `has`. -/
def has (id : String) : LedgerTask Bool := statement (.selectId id) rfl

/-- `entries`. -/
def entries (now : Int) : LedgerTask (List Internal) := do
  statement (.expire now) rfl
  let rows ← statement .selectAll rfl
  return rows.map Internal.of

/-- A snapshot with an entry that makes no sense, or two with the same id. -/
def invalidSnapshot (es : List LedgerEntry) (now : Int) : Bool :=
  es.any (fun e => e.id = "" || e.at_ < 0 || e.at_ > now || e.amount ≤ 0) ||
    ¬ (es.map LedgerEntry.id).Nodup

/-- The committed rows are not those of the snapshot, by id and amount. -/
def discrepancy (rows : List Internal) (es : List LedgerEntry) : Bool :=
  let locals := rows.filter fun r => r.state = .committed
  locals.any (fun r => ¬ es.any fun e => e.id = r.id) ||
    es.any fun e => ¬ locals.any fun r => r.id = e.id && r.amount = e.amount

/-- `reconcile`, at a given time. -/
def reconcileAt (es : List LedgerEntry) (now : Int) : LedgerTask Bool := do
  Task.ofExcept (throwIf (invalidSnapshot es now) "invalid snapshot")
  let rows ← entries now
  statement (.insertSnapshot es (discrepancy rows es)) rfl
  return discrepancy rows es

/-- `reconcile`; the clock is read where no time is given. -/
def reconcile (es : List LedgerEntry) : Option Int → LedgerTask Bool
  | some t => reconcileAt es t
  | none => now >>= reconcileAt es

inductive LedgerRequest where
  | reserveWithin (o : LedgerOptions) (e : LedgerEntry) (limits : ReservationLimits)
  | commit (id : String)
  | release (id : String)
  | has (id : String)
  | entries (now : Int)
  | reconcile (es : List LedgerEntry) (now? : Option Int)
  deriving DecidableEq, Repr

def ledgerTask : LedgerRequest → LedgerTask LedgerResult
  | .reserveWithin o e limits => .reserved <$> reserveWithin o e limits
  | .commit id => .committed <$> commit id
  | .release id => .released <$> release id
  | .has id => .has <$> has id
  | .entries now => .entries <$> entries now
  | .reconcile es now? => .reconciled <$> reconcile es now?

def ledgerBody (r : LedgerRequest) : Prog LedgerI (Except String LedgerResult) :=
  (ledgerTask r).run

/-- The ledger's connections and its database. -/
abbrev LedgerPool := Pool LedgerI LedgerDb LedgerRequest (Except String LedgerResult)

/-- A run on a fresh database. -/
def ledgerRun (es : List (Event LedgerI LedgerRequest)) : LedgerPool :=
  (Pool.start ⟨Table.empty, none⟩).run ledgerMachine ledgerBody es

/-! ### Caps -/

namespace Ledger

/-- What the valued rows are worth together. -/
def quoted (l : Ledger) : Int :=
  (l.rows.map fun r => (r.valuation.map Valuation.value).getD 0).sum

/-- The caps: one for each asset, and one on all quote values in one denomination and precision. -/
structure Caps where
  asset : String → Int
  quote : Option (String × Nat × Int)

/-- A reservation is asked for under these caps. -/
def Caps.Fix (caps : Caps) (e : LedgerEntry) (limits : ReservationLimits) : Prop :=
  limits.perAsset = caps.asset e.asset ∧
    ∀ max v, limits.aggregate = some (.quote max v) →
      caps.quote = some (v.denomination, v.decimals, max)

/-- No cap is exceeded. An asset nothing is reserved of is not exceeded by what it has none of. -/
structure NotOversubscribed (caps : Caps) (l : Ledger) : Prop where
  positive : ∀ r ∈ l.rows, 0 < r.amount
  asset : ∀ r ∈ l.rows, l.exposure r.asset ≤ caps.asset r.asset
  valued : ∀ r ∈ l.rows, ∀ v, r.valuation = some v →
    0 < v.value ∧ ∃ max, caps.quote = some (v.denomination, v.decimals, max)
  quote : ∀ d n max, caps.quote = some (d, n, max) → (∃ r ∈ l.rows, r.valuation.isSome) →
    l.quoted ≤ max

variable {l l' : Ledger} {caps : Caps}

theorem exposure_eq_total (asset : String) :
    l.exposure asset = l.total (fun r => r.asset = asset) Reservation.amount := rfl

theorem quoted_eq_total :
    l.quoted = l.total (fun _ => true) fun r => (r.valuation.map Valuation.value).getD 0 := by
  rw [quoted, Table.total, List.filter_eq_self.mpr fun _ _ => rfl]

theorem rows_setCommitted (id : String) (at_ : Int) : (l.setCommitted id at_).rows =
    l.rows.map fun r => if r.id = id ∧ r.state = .reserved then asCommitted at_ r else r := by
  simp [setCommitted, Table.rows_update]

/-- Committing changes neither what an asset nor what the valuations add up to. -/
theorem setCommitted_counts (id : String) (at_ : Int) :
    (∀ asset, (l.setCommitted id at_).exposure asset = l.exposure asset) ∧
      (l.setCommitted id at_).quoted = l.quoted := by
  -- a commit touches neither asset nor amount nor valuation
  have hsame : ∀ r : Reservation, ∀ b : Bool,
      (if b then asCommitted at_ r else r).asset = r.asset ∧
        (if b then asCommitted at_ r else r).amount = r.amount ∧
        (if b then asCommitted at_ r else r).valuation = r.valuation := by
    intro r b
    cases b <;> exact ⟨rfl, rfl, rfl⟩
  constructor
  · intro asset
    have hasset : ((fun r : Reservation => decide (r.asset = asset)) ∘ fun r =>
        if r.id = id ∧ r.state = .reserved then asCommitted at_ r else r) =
        fun r => decide (r.asset = asset) := by
      funext r
      simpa using congrArg (decide <| · = asset) (hsame r (r.id = id ∧ r.state = .reserved)).1
    have hamount : (Reservation.amount ∘ fun r =>
        if r.id = id ∧ r.state = .reserved then asCommitted at_ r else r) =
        Reservation.amount := by
      funext r
      simpa using (hsame r (r.id = id ∧ r.state = .reserved)).2.1
    rw [exposure, exposure, rows_setCommitted, List.filter_map, List.map_map, hasset, hamount]
  · rw [quoted, quoted, rows_setCommitted, List.map_map]
    congr 1
    refine List.map_congr_left fun r _ => ?_
    have hvaluation := (hsame r (r.id = id ∧ r.state = .reserved)).2.2
    simp only [decide_eq_true_eq] at hvaluation
    rw [Function.comp_apply, hvaluation]

namespace NotOversubscribed

theorem value_nonneg (h : l.NotOversubscribed caps) :
    ∀ r ∈ l.rows, 0 ≤ (r.valuation.map Valuation.value).getD 0 := by
  intro r hr
  cases hv : r.valuation with
  | none => simp
  | some v => simpa using (h.valued r hr v hv).1.le

theorem empty : NotOversubscribed caps (Table.empty : Ledger) := by
  refine ⟨?_, ?_, ?_, ?_⟩ <;> simp

/-- Rows that go leave room. -/
theorem delete (h : l.NotOversubscribed caps) (d : Reservation → Bool) :
    NotOversubscribed caps (l.delete d : Ledger) where
  positive r hr := h.positive r (List.mem_filter.mp hr).1
  asset r hr := by
    have hold := h.asset r (List.mem_filter.mp hr).1
    have hpos : ∀ r ∈ l.rows, 0 ≤ r.amount := fun r hr => (h.positive r hr).le
    exact (Table.total_delete_le hpos d).trans hold
  valued r hr := h.valued r (List.mem_filter.mp hr).1
  quote den n max hcap := by
    rintro ⟨r, hr, hv⟩
    have hold := h.quote den n max hcap ⟨r, (List.mem_filter.mp hr).1, hv⟩
    rw [quoted_eq_total] at hold ⊢
    exact (Table.total_delete_le h.value_nonneg d).trans hold

/-- A row that is committed counts as it did before. -/
theorem setCommitted (h : l.NotOversubscribed caps) (id : String) (at_ : Int) :
    NotOversubscribed caps (l.setCommitted id at_) := by
  obtain ⟨hexposure, hquoted⟩ := setCommitted_counts (l := l) id at_
  -- asset, amount and valuation of every row are those of a row that was there
  have hrow : ∀ r ∈ (l.setCommitted id at_).rows, ∃ r₀ ∈ l.rows, r.asset = r₀.asset ∧
      r.amount = r₀.amount ∧ r.valuation = r₀.valuation := by
    intro r hr
    obtain ⟨r₀, hr₀, rfl⟩ := List.mem_map.mp hr
    refine ⟨r₀, hr₀, ?_⟩
    dsimp only
    split <;> exact ⟨rfl, rfl, rfl⟩
  refine ⟨?_, ?_, ?_, ?_⟩
  · intro r hr
    obtain ⟨r₀, hr₀, -, hamount, -⟩ := hrow r hr
    rw [hamount]
    exact h.positive r₀ hr₀
  · intro r hr
    obtain ⟨r₀, hr₀, hasset, -, -⟩ := hrow r hr
    rw [hasset, hexposure]
    exact h.asset r₀ hr₀
  · intro r hr
    obtain ⟨r₀, hr₀, -, -, hvaluation⟩ := hrow r hr
    rw [hvaluation]
    exact h.valued r₀ hr₀
  · intro den n max hcap
    rintro ⟨r, hr, hv⟩
    obtain ⟨r₀, hr₀, -, -, hvaluation⟩ := hrow r hr
    rw [hvaluation] at hv
    rw [hquoted]
    exact h.quote den n max hcap ⟨r₀, hr₀, hv⟩

/-- A row that there is room for can be added. -/
theorem insert (h : l.NotOversubscribed caps) {o : LedgerOptions} {e : LedgerEntry}
    {limits : ReservationLimits} (hfix : caps.Fix e limits) (hpos : 0 < e.amount)
    (hvalid : validAggregate o limits.aggregate = true) (hroom : l.hasRoom e limits = true)
    (hins : l.insert? (reservedRow o e limits) = some l') : l'.NotOversubscribed caps := by
  have hrows := Table.rows_of_insert? hins
  have hmem : ∀ r ∈ l'.rows, r ∈ l.rows ∨ r = reservedRow o e limits := by
    intro r hr
    simpa [hrows] using hr
  simp only [hasRoom, Bool.and_eq_true, decide_eq_true_eq] at hroom
  obtain ⟨hcap, hquote⟩ := hroom
  have hexposure : ∀ asset, l'.exposure asset = l.exposure asset +
      if e.asset = asset then e.amount else 0 := by
    intro asset
    rw [exposure_eq_total, exposure_eq_total, Table.total_insert? hins]
    by_cases hasset : e.asset = asset <;> simp [reservedRow, hasset]
  have hquoted : l'.quoted = l.quoted +
      ((reservedRow o e limits).valuation.map Valuation.value).getD 0 := by
    rw [quoted_eq_total, quoted_eq_total, Table.total_insert? hins]
    simp
  -- the new row is valued as the limit says
  have hnew : ∀ v, (reservedRow o e limits).valuation = some v →
      ∃ max, limits.aggregate = some (.quote max v) := by
    intro v hv
    simp only [reservedRow] at hv
    split at hv
    · rename_i max w hagg
      obtain rfl := Option.some.inj hv
      exact ⟨max, hagg⟩
    · cases hv
  refine ⟨?_, ?_, ?_, ?_⟩
  · intro r hr
    obtain hr | rfl := hmem r hr
    · exact h.positive r hr
    · exact hpos
  · intro r hr
    rw [hexposure]
    split
    · rename_i hasset
      rw [← hasset, ← hfix.1]
      exact hcap
    · rename_i hasset
      obtain hr | rfl := hmem r hr
      · simpa using h.asset r hr
      · exact absurd rfl hasset
  · intro r hr v hv
    obtain hr | rfl := hmem r hr
    · exact h.valued r hr v hv
    · obtain ⟨max, hagg⟩ := hnew v hv
      rw [hagg] at hvalid
      simp only [validAggregate, Bool.and_eq_true, decide_eq_true_eq] at hvalid
      exact ⟨hvalid.1.1.2, max, hfix.2 max v hagg⟩
  · -- the rows of one quote are valued alike, so the sum of all is below its limit
    rintro den n max hcapQuote ⟨r, hr, hsome⟩
    rw [hquoted]
    cases hv : (reservedRow o e limits).valuation with
    | none =>
      obtain hr | rfl := hmem r hr
      · simpa using h.quote den n max hcapQuote ⟨r, hr, hsome⟩
      · simp [hv] at hsome
    | some v =>
      obtain ⟨max', hagg⟩ := hnew v hv
      have heq := (hfix.2 max' v hagg).symm.trans hcapQuote
      simp only [Option.some.injEq, Prod.mk.injEq] at heq
      simp only [hagg, Bool.and_eq_true, decide_eq_true_eq] at hquote
      rw [Option.map_some, Option.getD_some, ← heq.2.2]
      exact hquote.2

end NotOversubscribed

/-- What a reservation does: nothing, or only what its expiry does, or it adds a row that there
is room for. -/
theorem reserveWithin_spec (o : LedgerOptions) (e : LedgerEntry) (limits : ReservationLimits) :
    l.reserveWithin o e limits = (false, l) ∨
      l.reserveWithin o e limits = (false, l.expire e.at_) ∨
      ∃ l', l.reserveWithin o e limits = (true, l') ∧ 0 < e.amount ∧
        validAggregate o limits.aggregate = true ∧ (l.expire e.at_).hasRoom e limits = true ∧
        (l.expire e.at_).insert? (reservedRow o e limits) = some l' := by
  unfold reserveWithin
  dsimp only
  split
  · exact .inl rfl
  · rename_i hvalid
    split
    · exact .inr (.inl rfl)
    · -- a row that does not fit or whose id is taken is rolled back with the expiry
      rename_i hroom
      split
      · exact .inl rfl
      · split
        · rename_i l' hins
          refine .inr (.inr ⟨l', rfl, ?_, ?_, by simpa using hroom, hins⟩)
          · by_contra hneg
            exact hvalid (.inr (.inr (.inl (by omega))))
          · by_contra hneg
            exact hvalid (.inr (.inr (.inr (.inr (.inl hneg)))))
        · exact .inl rfl

theorem NotOversubscribed.reserveWithin (h : l.NotOversubscribed caps) {o : LedgerOptions}
    {e : LedgerEntry} {limits : ReservationLimits} (hfix : caps.Fix e limits) :
    (l.reserveWithin o e limits).2.NotOversubscribed caps := by
  obtain heq | heq | ⟨l', heq, hpos, hvalid, hroom, hins⟩ := reserveWithin_spec (l := l) o e limits
  · rw [heq]
    exact h
  · rw [heq]
    exact h.delete _
  · rw [heq]
    exact (h.delete _).insert hfix hpos hvalid hroom hins

end Ledger

open Ledger

/-- Statements that keep to the caps: reservations are asked for under them, and nothing is
taken over from a snapshot. -/
def LedgerOp.Fixed (caps : Caps) : LedgerOp → Prop
  | .reserve _ e limits => caps.Fix e limits
  | .insertSnapshot _ _ => False
  | _ => True

/-- No statement takes the ledger over a cap. -/
theorem Ledger.NotOversubscribed.handle {caps : Caps} {db : LedgerDb}
    (h : db.reservations.NotOversubscribed caps) (op : LedgerOp) (hop : op.Fixed caps)
    (ans : LedgerI.Ans op) :
    (ledgerMachine.handle op db ans).2.reservations.NotOversubscribed caps := by
  cases op with
  | now => exact h
  | reserve o e limits =>
    cases ans
    · exact h.reserveWithin hop
    · exact h
  -- a statement that fails writes nothing
  | setCommitted id at_ =>
    cases ans
    · simp only [ledgerMachine, unlessFails, Bool.false_eq_true, if_false]
      split
      · exact h
      · exact h.setCommitted id at_
    · exact h
  | deleteReserved id =>
    cases ans
    · exact h.delete _
    · exact h
  | expire now =>
    cases ans
    · simp only [ledgerMachine, unlessFails, Bool.false_eq_true, if_false]
      split
      · exact h
      · exact h.delete _
    · exact h
  | selectCommitted id | selectId id | selectAll => cases ans <;> exact h
  -- a snapshot is none of the operations whose caps are fixed
  | insertSnapshot es discrepancy => exact hop.elim

/-- The calls the claim of a cap is about: reservations under it, and no snapshots. -/
def LedgerRequest.Fixed (caps : Caps) : LedgerRequest → Prop
  | .reserveWithin _ e limits => caps.Fix e limits
  | .reconcile _ _ => False
  | _ => True

/-- Such a call makes only statements that keep to the caps. -/
def Ledger.Caps.discipline (caps : Caps) : Discipline LedgerI (Trace LedgerI LedgerRequest) :=
  .ofTrace fun v op => v.request.Fixed caps → op.Fixed caps

/-- Of a call that does not keep to the caps nothing is asked. -/
theorem safe_of_not_fixed {α : Type} {caps : Caps} {p : Prog LedgerI α}
    {v : Trace LedgerI LedgerRequest} (h : ¬ v.request.Fixed caps) :
    p.Safe caps.discipline (fun _ _ => True) v := by
  induction p generalizing v with
  | pure a => trivial
  | call o k ih => exact ⟨fun hfixed => absurd hfixed h, fun r _ => ih r h⟩

theorem ledgerBody_safe (caps : Caps) (r : LedgerRequest) :
    (ledgerBody r).Safe caps.discipline (fun _ _ => True) (Trace.start r) := by
  cases r with
  | reserveWithin o e limits => exact ⟨id, fun _ _ => trivial⟩
  | commit id =>
    refine ⟨fun _ => trivial, fun at_ _ => ⟨fun _ => trivial, fun changes _ => ?_⟩⟩
    cases changes with
    | error e => trivial
    | ok n => exact ⟨fun _ => trivial, fun found _ => by cases found <;> trivial⟩
  | release id => exact ⟨fun _ => trivial, fun changes _ => by cases changes <;> trivial⟩
  | has id => exact ⟨fun _ => trivial, fun found _ => by cases found <;> trivial⟩
  | entries now =>
    refine ⟨fun _ => trivial, fun expired _ => ?_⟩
    cases expired with
    | error e => trivial
    | ok u => exact ⟨fun _ => trivial, fun rows _ => by cases rows <;> trivial⟩
  | reconcile es now? => exact safe_of_not_fixed id

theorem ledger_modular (caps : Caps) :
    Modular ledgerMachine ledgerBody caps.discipline Trace.start (fun _ _ => True)
      (fun db => db.reservations.NotOversubscribed caps)
      (fun _ v => v.request.Fixed caps) (fun _ _ => True)
      (fun _ e => ∀ r, e = .spawn r → r.Fixed caps) where
  body_safe := ledgerBody_safe caps
  symm _ _ _ := trivial
  spawn _ r hr _ := ⟨hr r rfl, fun _ _ => trivial⟩
  call _ t ans c o _ _ hc _ hJ hR hpre :=
    ⟨trivial, hJ.handle o (hpre (hR t c hc)) (ans o), hR t c hc⟩
  frame _ _ _ _ _ _ _ _ hw _ := ⟨hw, trivial⟩

theorem ledgerBody_reserveWithin (o : LedgerOptions) (e : LedgerEntry)
    (limits : ReservationLimits) : ledgerBody (.reserveWithin o e limits) =
      .call (I := LedgerI) (.reserve o e limits) fun added => .pure (.ok (.reserved added)) := rfl

/-- What is left of a reservation: all of it, or nothing but its result. -/
theorem rest_of_reserveWithin {es : List (Event LedgerI LedgerRequest)} {t : Nat}
    {c : Call LedgerI LedgerRequest (Except String LedgerResult)} {o : LedgerOptions}
    {e : LedgerEntry} {limits : ReservationLimits} {op : LedgerOp}
    {k : LedgerI.Res op → Prog LedgerI (Except String LedgerResult)}
    (hc : (ledgerRun es).calls[t]? = some c) (hreq : c.request = .reserveWithin o e limits)
    (hrest : c.rest = some (.call op k)) :
    Prog.call op k = ledgerBody (.reserveWithin o e limits) := by
  have hreach := Pool.replayed_run (M := ledgerMachine) _ es t c _ hc hrest
  rw [hreq] at hreach
  -- its only call leaves a result, which has no call left
  have hleft := hreach.residual
    (S := fun q => q = ledgerBody (.reserveWithin o e limits) ∨ ∃ a, q = .pure a) (.inl rfl) (by
      rintro o' k' r (heq | ⟨a, heq⟩)
      · rw [ledgerBody_reserveWithin] at heq
        obtain ⟨rfl, heq⟩ := Prog.call.inj heq
        exact .inr ⟨_, by rw [eq_of_heq heq]⟩
      · cases heq)
  obtain heq | ⟨a, heq⟩ := hleft
  · exact heq
  · cases heq

/-- **The caps hold at every moment.** Under fixed caps no interleaving of any number of
connections takes an asset, or the quote values, over its cap, whatever the clocks say and
whichever statements fail; and a reservation that is refused leaves the table as it was, or
without the rows that had expired. -/
theorem never_oversubscribed {caps : Caps} {es : List (Event LedgerI LedgerRequest)}
    (hes : ∀ r, .spawn r ∈ es → r.Fixed caps) :
    (ledgerRun es).shared.reservations.NotOversubscribed caps ∧
    ∀ before t ans after, es = before ++ .step t ans :: after →
      ∀ c, (ledgerRun (before ++ [.step t ans])).calls[t]? = some c →
        ∀ o e limits, c.request = .reserveWithin o e limits →
          c.result? = some (.ok (.reserved false)) →
          (ledgerRun (before ++ [.step t ans])).shared.reservations =
              (ledgerRun before).shared.reservations ∨
            (ledgerRun (before ++ [.step t ans])).shared.reservations =
              (ledgerRun before).shared.reservations.expire e.at_ := by
  constructor
  · refine ((ledger_modular caps).run (Pool.meets_of_forall fun e he r heq => ?_)
      (Modular.coherent_start Ledger.NotOversubscribed.empty)).shared
    exact hes r (heq ▸ he)
  · intro before t ans after _ c hc o e limits hreq hresult
    have hstep : ledgerRun (before ++ [.step t ans]) =
        (ledgerRun before).step ledgerMachine t ans := Pool.run_append _ _ _
    rw [hstep] at hc ⊢
    obtain heq | ⟨c₀, op, k, hc₀, hrest, heq⟩ :=
      Pool.step_cases (M := ledgerMachine) (ledgerRun before) t ans
    · exact .inl (by rw [heq])
    · rw [heq] at hc ⊢
      obtain ⟨-, rfl⟩ | ⟨hne, -⟩ := getElem?_set_cases hc
      · -- the step was the reservation's transaction
        have hleft := rest_of_reserveWithin hc₀ hreq hrest
        rw [ledgerBody_reserveWithin] at hleft
        obtain ⟨rfl, hk⟩ := Prog.call.inj hleft
        obtain rfl := eq_of_heq hk
        have hfalse : (ledgerMachine.handle (.reserve o e limits) (ledgerRun before).shared
            (ans (.reserve o e limits))).1 = false := by
          simpa [Call.result?_eq_some, Call.advance] using hresult
        cases hfails : ans (.reserve o e limits) with
        | true => exact .inl (by simp [ledgerMachine])
        | false =>
          simp only [ledgerMachine, hfails, Bool.false_eq_true, if_false] at hfalse ⊢
          obtain hres | hres | ⟨l', hres, -⟩ :=
            reserveWithin_spec (l := (ledgerRun before).shared.reservations) o e limits
          · exact .inl (by rw [hres])
          · exact .inr (by rw [hres])
          · rw [hres] at hfalse
            cases hfalse
      · exact absurd rfl hne

/-! ### Two reservations -/

def sampleCaps : Caps := ⟨fun asset => if asset = "SOL" then 100 else 0, some ("USD", 2, 500)⟩

/-- Sixty of a hundred, valued at three of five hundred. -/
def sampleReservation (id : String) : LedgerRequest :=
  .reserveWithin ⟨3600, some ("USD", 2)⟩ ⟨id, 10, "SOL", "swing", 60⟩
    ⟨100, some (.quote 500 ⟨"USD", 2, 300, "quote"⟩)⟩

/-- No statement fails, and it is second 20. -/
def sampleStatement : ∀ o, LedgerI.Ans o
  | .now => (20 : Int)
  | .reserve _ _ _ | .setCommitted _ _ | .selectCommitted _ | .deleteReserved _ | .selectId _
  | .expire _ | .selectAll | .insertSnapshot _ _ => false

/-- Two connections reserve; the first commits in between. -/
def sampleReservations : List (Event LedgerI LedgerRequest) :=
  [.spawn (sampleReservation "r1"), .spawn (sampleReservation "r2"), .step 0 sampleStatement,
    .spawn (.commit "r1"), .step 2 sampleStatement, .step 2 sampleStatement,
    .step 1 sampleStatement]

theorem never_oversubscribed_sample :
    (ledgerRun sampleReservations).shared.reservations.NotOversubscribed sampleCaps ∧
      (ledgerRun sampleReservations).shared.reservations.exposure "SOL" = 60 := by
  refine ⟨(never_oversubscribed fun r hr => ?_).1, by decide⟩
  simp only [sampleReservations, List.mem_cons, Event.spawn.injEq, reduceCtorEq, false_or,
    List.not_mem_nil, or_false] at hr
  rcases hr with rfl | rfl | rfl
  · refine ⟨rfl, ?_⟩
    rintro max v ⟨⟩
    rfl
  · refine ⟨rfl, ?_⟩
    rintro max v ⟨⟩
    rfl
  · trivial

end AriOs.Execution
