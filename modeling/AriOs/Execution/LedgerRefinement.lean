import AriOs.Async.Refine
import AriOs.Execution.LedgerRuns
import AriOs.Storage.FiniteMap

/-!
# What the ledger is for

The ledger stands for a finite map from reservation ids to what is held under them. Each of its
statements is one step on that map, and each method returns what the map says.

The methods agree with this, whatever comes between their statements, with one exception: the
count of changes that a release compares is a number, and never a big integer, so a release that
removes a reservation says that it did not.

## Main results

* `Ledger.holdings_reserveWithin` and its siblings — each statement is its step on the map
-/

namespace AriOs.Execution

open AriOs.Async AriOs.Js AriOs.Storage

/-! ### The map -/

/-- What is held under a reservation's id. -/
structure Holding where
  at_ : Int
  asset : String
  strategy : String
  amount : Int
  state : ReservationState
  expiresAt : Int
  valuation : Option Valuation
  deriving DecidableEq, Repr

def Holding.of (r : Reservation) : Holding :=
  ⟨r.at_, r.asset, r.strategy, r.amount, r.state, r.expiresAt, r.valuation⟩

abbrev Holdings := FiniteMap String Holding

namespace Holdings

variable (m : Holdings)

/-- What is reserved and past its deadline goes. -/
def expire (now : Int) : Holdings := m.keep fun h => ¬ (h.state = .reserved ∧ h.expiresAt ≤ now)

def exposure (asset : String) : Int := m.total fun h => if h.asset = asset then h.amount else 0

def quoted : Int := m.total fun h => (h.valuation.map Valuation.value).getD 0

/-- There is room for the entry under every limit. -/
def Room (e : LedgerEntry) (limits : ReservationLimits) : Prop :=
  m.exposure e.asset + e.amount ≤ limits.perAsset ∧
    match limits.aggregate with
    | none => True
    | some (.amount max) => m.exposure e.asset + e.amount ≤ max
    | some (.quote max v) =>
      (∀ id h, m.get id = some h → ∃ w, h.valuation = some w ∧ w.evidence ≠ "" ∧
        w.denomination = v.denomination ∧ w.decimals = v.decimals) ∧ m.quoted + v.value ≤ max

/-- An entry and limits that make sense. -/
def Sensible (o : LedgerOptions) (e : LedgerEntry) (limits : ReservationLimits) : Prop :=
  e.id ≠ "" ∧ 0 ≤ e.at_ ∧ 0 < e.amount ∧ 0 ≤ limits.perAsset ∧
    Ledger.validAggregate o limits.aggregate = true ∧ fitsInt64 e.at_ = true

open Classical in
/-- Hold an entry under an id that is free, if there is room for it. -/
noncomputable def reserveWithin (o : LedgerOptions) (e : LedgerEntry) (limits : ReservationLimits) :
    Bool × Holdings :=
  if ¬ Sensible o e limits then (false, m)
  else if ¬ (m.expire e.at_).Room e limits then (false, m.expire e.at_)
  else if Ledger.fits (Ledger.reservedRow o e limits) = true ∧ (m.expire e.at_).get e.id = none then
    (true, (m.expire e.at_).set e.id (.of (Ledger.reservedRow o e limits)))
  else (false, m)

/-- What is reserved under the id is committed. -/
def setCommitted (id : String) (at_ : Int) : Holdings :=
  match m.get id with
  | some h =>
    if h.state = .reserved then
      m.set id { h with state := .committed, at_ := at_, expiresAt := at_ }
    else m
  | none => m

/-- Something is reserved under the id. -/
def reserved (id : String) : Bool := (m.get id).any fun h => h.state = .reserved

/-- Something is committed under the id. -/
def committed (id : String) : Bool := (m.get id).any fun h => h.state = .committed

/-- What is reserved under the id goes. -/
def release (id : String) : Holdings := if m.reserved id then m.erase id else m

/-- Take over the entries of a snapshot that are not there. -/
def insertSnapshot (es : List LedgerEntry) : Holdings :=
  es.foldl (fun m e =>
    if (m.get e.id).isSome then m else m.set e.id (.of (Ledger.snapshotRow e))) m

/-- What is committed is not what the snapshot says, by id and amount. -/
def Off (es : List LedgerEntry) : Prop :=
  (∃ id h, m.get id = some h ∧ h.state = .committed ∧ ∀ e ∈ es, e.id ≠ id) ∨
    ∃ e ∈ es, ∀ h, m.get e.id = some h → ¬ (h.state = .committed ∧ h.amount = e.amount)

end Holdings

/-! ### The methods, on the map -/

/-- The answers of the map: whether something was removed, and the map itself. -/
abbrev LedgerOp.SpecRes : LedgerOp → Type
  | .now => Int
  | .reserve _ _ _ => Bool
  | .setCommitted _ _ | .expire _ | .insertSnapshot _ _ => Except String Unit
  | .deleteReserved _ | .selectCommitted _ | .selectId _ => Except String Bool
  | .selectAll => Except String Holdings

abbrev SpecI : Interface := LedgerI.returning LedgerOp.SpecRes

structure SpecDb where
  holdings : Holdings
  discrepancy : Option Bool

/-- A step that fails throws and changes nothing. -/
def specUnlessFails {α : Type} (fails : Bool) (db : SpecDb) (x : Except String α × SpecDb) :
    Except String α × SpecDb :=
  if fails then (.error ERR_LOCKED, db) else x

noncomputable def specMachine : Machine SpecI SpecDb where
  handle
    | .now, db, now => (now, db)
    | .reserve o e limits, db, fails =>
      if fails then (false, db)
      else
        let out := db.holdings.reserveWithin o e limits
        (out.1, { db with holdings := out.2 })
    | .setCommitted id at_, db, fails => specUnlessFails fails db <|
      if ¬ fitsInt64 at_ then (.error ERR_BIND, db)
      else (.ok (), { db with holdings := db.holdings.setCommitted id at_ })
    | .selectCommitted id, db, fails => specUnlessFails fails db (.ok (db.holdings.committed id), db)
    | .deleteReserved id, db, fails => specUnlessFails fails db
        (.ok (db.holdings.reserved id), { db with holdings := db.holdings.release id })
    | .selectId id, db, fails => specUnlessFails fails db (.ok (db.holdings.get id).isSome, db)
    | .expire now, db, fails => specUnlessFails fails db <|
      if ¬ fitsInt64 now then (.error ERR_BIND, db)
      else (.ok (), { db with holdings := db.holdings.expire now })
    | .selectAll, db, fails => specUnlessFails fails db (.ok db.holdings, db)
    | .insertSnapshot es discrepancy, db, fails => specUnlessFails fails db <|
      if es.any fun e => ¬ fitsInt64 e.amount then (.error ERR_BIND, db)
      else (.ok (), ⟨db.holdings.insertSnapshot es, some discrepancy⟩)

/-- What `entries` shows of a holding. -/
structure Shown where
  at_ : Int
  asset : String
  strategy : String
  amount : Int
  state : ReservationState
  deriving DecidableEq, Repr

def Shown.of (h : Holding) : Shown := ⟨h.at_, h.asset, h.strategy, h.amount, h.state⟩

inductive SpecResult where
  | reserved (added : Bool)
  | committed (is_ : Bool)
  | released (removed : Bool)
  | has (is_ : Bool)
  | entries (rows : FiniteMap String Shown)
  | reconciled (discrepancy : Bool)

abbrev SpecTask (α : Type) := Task SpecI String α

/-- A step whose failure is thrown on. -/
def step {α : Type} (o : LedgerOp) (h : SpecI.Res o = Except String α) : SpecTask α :=
  ExceptT.mk (.call (I := SpecI) o fun r => .pure (cast h r))

def specNow : SpecTask Int := Task.total (I := SpecI) .now

/-- Commit what is reserved; it is committed, or was before, or there is nothing. -/
def specCommit (id : String) : SpecTask Bool := do
  let at_ ← specNow
  step (.setCommitted id at_) rfl
  step (.selectCommitted id) rfl

def specEntries (now : Int) : SpecTask Holdings := do
  step (.expire now) rfl
  step .selectAll rfl

open Classical in
noncomputable def specReconcileAt (es : List LedgerEntry) (now : Int) : SpecTask Bool := do
  Task.ofExcept (throwIf (invalidSnapshot es now) "invalid snapshot")
  let m ← specEntries now
  step (.insertSnapshot es (decide (m.Off es))) rfl
  return decide (m.Off es)

noncomputable def specReconcile (es : List LedgerEntry) : Option Int → SpecTask Bool
  | some t => specReconcileAt es t
  | none => specNow >>= specReconcileAt es

noncomputable def specTask : LedgerRequest → SpecTask SpecResult
  | .reserveWithin o e limits => .reserved <$> Task.total (I := SpecI) (.reserve o e limits)
  | .commit id => .committed <$> specCommit id
  | .release id => .released <$> step (.deleteReserved id) rfl
  | .has id => .has <$> step (.selectId id) rfl
  | .entries now => (fun m => .entries (m.map Shown.of)) <$> specEntries now
  | .reconcile es now? => .reconciled <$> specReconcile es now?

noncomputable def specBody (r : LedgerRequest) : Prog SpecI (Except String SpecResult) :=
  (specTask r).run

abbrev SpecPool := Pool SpecI SpecDb LedgerRequest (Except String SpecResult)

/-- The same run, on the map. -/
noncomputable def specRun (es : List (Event LedgerI LedgerRequest)) : SpecPool :=
  (Pool.start ⟨.empty, none⟩).run specMachine specBody
    (es.map (Event.returning (I := LedgerI) LedgerOp.SpecRes))

/-! ### Statements, as steps on the map -/

namespace Ledger

variable {l l' : Ledger}

/-- The map a ledger stands for. -/
def holdings (l : Ledger) : Holdings := l.toMap.map Holding.of

theorem get_holdings (id : String) : l.holdings.get id = (l.find? id).map Holding.of := rfl

theorem id_of_find? {id : String} {r : Reservation} (h : l.find? id = some r) : r.id = id :=
  (Table.find?_eq_some_iff.mp h).2

theorem holdings_expire (now : Int) : (l.expire now).holdings = l.holdings.expire now := by
  rw [holdings, expire, Table.toMap_delete, holdings, Holdings.expire, ← FiniteMap.map_keep]
  congr 2
  funext r
  rw [Bool.eq_iff_iff]
  simp [Holding.of]

theorem exposure_holdings (asset : String) : l.holdings.exposure asset = l.exposure asset := by
  rw [Holdings.exposure, holdings, FiniteMap.total_map, Table.total_toMap, exposure_eq_total,
    Table.total_eq_sum_ite]
  congr 1
  refine List.map_congr_left fun r _ => ?_
  by_cases h : r.asset = asset <;> simp [Holding.of, h]

theorem quoted_holdings : l.holdings.quoted = l.quoted := by
  rw [Holdings.quoted, holdings, FiniteMap.total_map, Table.total_toMap]
  rfl

theorem comparable_iff (v : Valuation) (r : Reservation) : comparable v r = true ↔
    ∃ w, (Holding.of r).valuation = some w ∧ w.evidence ≠ "" ∧ w.denomination = v.denomination ∧
      w.decimals = v.decimals := by
  rw [comparable, Holding.of]
  cases r.valuation <;> simp [and_assoc]

theorem room_holdings (e : LedgerEntry) (limits : ReservationLimits) :
    l.holdings.Room e limits ↔ l.hasRoom e limits = true := by
  -- valuations are comparable row by row
  have hall : ∀ v, (∀ id h, l.holdings.get id = some h → ∃ w, h.valuation = some w ∧
      w.evidence ≠ "" ∧ w.denomination = v.denomination ∧ w.decimals = v.decimals) ↔
      l.rows.all (comparable v) = true := by
    intro v
    rw [List.all_eq_true, Table.forall_rows]
    constructor
    · intro h id r hr
      rw [comparable_iff]
      exact h id _ (by rw [get_holdings, ← Table.get_toMap, hr]; rfl)
    · intro h id x hx
      rw [get_holdings, Option.map_eq_some_iff] at hx
      obtain ⟨r, hr, rfl⟩ := hx
      exact (comparable_iff v r).mp (h id r hr)
  rw [Holdings.Room, hasRoom, exposure_holdings, quoted_holdings, Bool.and_eq_true,
    decide_eq_true_eq]
  refine and_congr_right fun _ => ?_
  cases hagg : limits.aggregate with
  | none => simp
  | some limit =>
    cases limit with
    | amount max => simp
    | quote max v =>
      simp only [Bool.and_eq_true, decide_eq_true_eq]
      rw [hall v]
      rfl

theorem sensible_iff (o : LedgerOptions) (e : LedgerEntry) (limits : ReservationLimits) :
    Holdings.Sensible o e limits ↔ ¬ (e.id = "" ∨ e.at_ < 0 ∨ e.amount ≤ 0 ∨ limits.perAsset < 0 ∨
      ¬ validAggregate o limits.aggregate ∨ ¬ fitsInt64 e.at_) := by
  simp only [Holdings.Sensible, not_or, not_not, not_lt, not_le, ne_eq]

/-- A reservation is its step on the map, and says whether it added one. -/
theorem holdings_reserveWithin (o : LedgerOptions) (e : LedgerEntry) (limits : ReservationLimits) :
    l.holdings.reserveWithin o e limits =
      ((l.reserveWithin o e limits).1, (l.reserveWithin o e limits).2.holdings) := by
  unfold Holdings.reserveWithin reserveWithin
  -- both make the same checks in the same order
  by_cases hsensible : Holdings.Sensible o e limits
  · rw [if_neg (not_not.mpr hsensible), if_neg ((sensible_iff o e limits).mp hsensible)]
    rw [← holdings_expire, room_holdings]
    dsimp only
    by_cases hroom : (l.expire e.at_).hasRoom e limits = true
    · rw [if_neg (not_not.mpr hroom), if_neg (not_not.mpr hroom)]
      by_cases hfits : fits (reservedRow o e limits) = true
      · rw [if_neg (not_not.mpr hfits)]
        cases hins : (l.expire e.at_).insert? (reservedRow o e limits) with
        -- the row is not inserted because its id is taken
        | none =>
          rw [if_neg]
          rintro ⟨-, hfree⟩
          rw [get_holdings, Option.map_eq_none_iff] at hfree
          have htaken := Table.insert?_eq_none_iff.mp hins
          rw [show (reservedRow o e limits).id = e.id from rfl, hfree] at htaken
          cases htaken
        | some l' =>
          have hfree : (l.expire e.at_).holdings.get e.id = none := by
            rw [get_holdings, Option.map_eq_none_iff]
            exact Table.find?_of_insert? hins
          rw [if_pos ⟨hfits, hfree⟩, holdings, holdings, Table.toMap_insert? hins,
            FiniteMap.map_set]
          rfl
      · rw [if_neg fun h => hfits h.1, if_pos hfits]
    · rw [if_pos hroom, if_pos hroom]
  · have hnot := hsensible
    rw [sensible_iff, not_not] at hnot
    rw [if_pos hsensible, if_pos hnot]

theorem holdings_setCommitted (id : String) (at_ : Int) :
    (l.setCommitted id at_).holdings = l.holdings.setCommitted id at_ := by
  apply FiniteMap.ext_get
  intro j
  rw [get_holdings, setCommitted, Table.find?_update, Holdings.setCommitted, get_holdings,
    Option.map_map]
  cases hid : l.find? id with
  | none =>
    rw [Option.map_none, get_holdings]
    cases hj : l.find? j with
    | none => rfl
    | some r =>
      have hne : r.id ≠ id := by
        rintro rfl
        rw [id_of_find? hj, hj] at hid
        cases hid
      simp [hne]
  | some r₀ =>
    rw [Option.map_some]
    by_cases hstate : (Holding.of r₀).state = .reserved
    · simp only [hstate, if_true]
      rw [FiniteMap.get_set, get_holdings]
      by_cases hj : j = id
      · rw [if_pos hj, hj, hid, Option.map_some, Function.comp_apply, if_pos]
        · rfl
        · simpa using ⟨id_of_find? hid, hstate⟩
      · rw [if_neg hj]
        cases hr : l.find? j with
        | none => rfl
        | some r =>
          have hne : r.id ≠ id := fun h => hj ((id_of_find? hr).symm.trans h)
          simp [hne]
    · simp only [if_neg hstate]
      rw [get_holdings]
      cases hr : l.find? j with
      | none => rfl
      | some r =>
        -- the only row with this id is not reserved
        have hnot : ¬ (r.id = id ∧ r.state = .reserved) := by
          rintro ⟨rfl, hreserved⟩
          rw [id_of_find? hr] at hid
          obtain rfl := Option.some.inj (hr.symm.trans hid)
          exact hstate hreserved
        simp [hnot]

theorem reserved_holdings (id : String) : l.holdings.reserved id = true ↔
    ∃ r, l.find? id = some r ∧ r.state = .reserved := by
  rw [Holdings.reserved, get_holdings]
  cases l.find? id <;> simp [Holding.of]

theorem holdings_release (id : String) : (l.release id).2.holdings = l.holdings.release id := by
  apply FiniteMap.ext_get
  intro j
  rw [get_holdings, find?_release, Holdings.release]
  split
  · rename_i hreserved
    obtain ⟨r₀, hid, hstate⟩ := (reserved_holdings id).mp hreserved
    rw [FiniteMap.get_erase, get_holdings]
    -- the row is gone, the others are as they were
    by_cases hj : j = id
    · rw [if_pos hj, hj, hid, Option.filter_some_neg, Option.map_none]
      simpa using ⟨id_of_find? hid, hstate⟩
    · rw [if_neg hj]
      cases hr : l.find? j with
      | none => rfl
      | some r =>
        have hne : r.id ≠ id := fun h => hj ((id_of_find? hr).symm.trans h)
        rw [Option.filter_some_pos (by simp [hne])]
  · rename_i hreserved
    rw [get_holdings]
    cases hr : l.find? j with
    | none => rfl
    | some r =>
      rw [Option.filter_some_pos]
      rw [decide_eq_true_eq]
      -- a row that is not reserved is not released
      rintro ⟨rfl, hstate⟩
      exact hreserved ((reserved_holdings r.id).mpr ⟨r, by rwa [id_of_find? hr], hstate⟩)

theorem holdings_insertSnapshot (es : List LedgerEntry) :
    (l.insertSnapshot es).holdings = l.holdings.insertSnapshot es := by
  induction es generalizing l with
  | nil => rfl
  | cons e es ih =>
    rw [insertSnapshot, List.foldl_cons, ← insertSnapshot, ih, Holdings.insertSnapshot,
      Holdings.insertSnapshot, List.foldl_cons, get_holdings, Option.isSome_map]
    congr 1
    cases hins : l.insert? (snapshotRow e) with
    | none =>
      have htaken := Table.insert?_eq_none_iff.mp hins
      rw [show (snapshotRow e).id = e.id from rfl] at htaken
      rw [if_pos htaken]
      rfl
    | some l' =>
      have hfree := Table.find?_of_insert? hins
      rw [show (snapshotRow e).id = e.id from rfl] at hfree
      rw [hfree, if_neg (by simp), Option.getD_some, holdings, Table.toMap_insert? hins,
        FiniteMap.map_set]
      rfl

theorem committed_holdings (id : String) : l.holdings.committed id =
    (l.find? id).any fun r => r.state = .committed := by
  rw [Holdings.committed, get_holdings]
  cases l.find? id <;> rfl

/-- The rows are the map, each key once. -/
theorem listedBy_holdings :
    l.holdings.ListedBy (l.rows.map fun r => (r.id, Holding.of r)) := by
  have hlist := Table.listedBy_rows (t := l)
  refine ⟨by simpa [List.map_map, Function.comp_def] using hlist.1, fun id h => ?_⟩
  rw [get_holdings, Option.map_eq_some_iff, List.mem_map]
  constructor
  · rintro ⟨r, hr, rfl⟩
    exact ⟨r, (Table.find?_eq_some_iff.mp hr).1, by rw [id_of_find? hr]⟩
  · rintro ⟨r, hr, heq⟩
    obtain ⟨rfl, rfl⟩ := Prod.mk.inj heq
    exact ⟨r, Table.mem_rows_iff.mp hr, rfl⟩

end Ledger

/-! ### The same answers -/

/-- The database and the map answer the same. Of the count of changes only what the code makes
of it is compared, and the rows are compared without their order. -/
def SameAnswer : (o : LedgerOp) → LedgerI.Res o → o.SpecRes → Prop
  | .now, r, r' => r = r'
  | .reserve _ _ _, r, r' => r = r'
  | .setCommitted _ _, r, r' => SameOutcome (fun (_ : Nat) (_ : Unit) => True) r r'
  | .deleteReserved _, r, r' => SameOutcome (fun (n : Nat) (b : Bool) => changesIsBigOne n = b) r r'
  | .selectCommitted _, r, r' => SameOutcome (fun (b b' : Bool) => b = b') r r'
  | .selectId _, r, r' => SameOutcome (fun (b b' : Bool) => b = b') r r'
  | .expire _, r, r' => SameOutcome (fun (_ _ : Unit) => True) r r'
  | .insertSnapshot _ _, r, r' => SameOutcome (fun (_ _ : Unit) => True) r r'
  | .selectAll, r, r' => SameOutcome (fun (rows : List Reservation) (m : Holdings) =>
      m.ListedBy (rows.map fun r => (r.id, Holding.of r))) r r'

/-- The database stands for the map. -/
def Represents (db : LedgerDb) (sdb : SpecDb) : Prop :=
  db.reservations.holdings = sdb.holdings ∧ db.discrepancy = sdb.discrepancy

/-- Not a release that removes something. -/
def LedgerOp.RemovesNothing : (o : LedgerOp) → LedgerI.Ans o → LedgerDb → Prop
  | .deleteReserved id, fails, db =>
    fails = true ∨ ∀ r, db.reservations.find? id = some r → r.state ≠ .reserved
  | _, _, _ => True

/-- Each statement is its step on the map, and is answered by what the map says. -/
theorem ledger_matches (o : LedgerOp) (ans : LedgerI.Ans o) (db : LedgerDb)
    (h : o.RemovesNothing ans db) :
    Machine.Matches ledgerMachine specMachine SameAnswer Represents o ans db := by
  rintro ⟨holdings, status⟩ ⟨rfl, rfl⟩
  cases o with
  | now => exact ⟨rfl, rfl, rfl⟩
  | reserve o e limits =>
    cases ans with
    -- a statement that fails changes nothing on either side
    | true => exact ⟨rfl, rfl, rfl⟩
    | false =>
      simp only [ledgerMachine, specMachine, Bool.false_eq_true, if_false]
      rw [Ledger.holdings_reserveWithin]
      exact ⟨rfl, rfl, rfl⟩
  | setCommitted id at_ =>
    cases ans with
    | true => exact ⟨rfl, rfl, rfl⟩
    | false =>
      simp only [ledgerMachine, specMachine, unlessFails, specUnlessFails, Bool.false_eq_true,
        if_false]
      by_cases hfits : fitsInt64 at_ = true
      · simp only [hfits, not_true, if_false]
        exact ⟨trivial, Ledger.holdings_setCommitted id at_, rfl⟩
      · simp only [hfits]
        exact ⟨rfl, rfl, rfl⟩
  | selectCommitted id =>
    cases ans with
    | true => exact ⟨rfl, rfl, rfl⟩
    | false => exact ⟨(Ledger.committed_holdings id).symm, rfl, rfl⟩
  | deleteReserved id =>
    cases ans with
    | true => exact ⟨rfl, rfl, rfl⟩
    | false =>
      refine ⟨?_, Ledger.holdings_release id, rfl⟩
      -- nothing is removed, which is what the comparison says of every count
      have hnone : db.reservations.holdings.reserved id = false := by
        rw [← Bool.not_eq_true, Ledger.reserved_holdings]
        rintro ⟨r, hr, hstate⟩
        obtain hfails | hfree := h
        · cases hfails
        · exact hfree r hr hstate
      exact hnone.symm
  | selectId id =>
    cases ans with
    | true => exact ⟨rfl, rfl, rfl⟩
    | false =>
      refine ⟨?_, rfl, rfl⟩
      exact (Option.isSome_map).symm
  | expire now =>
    cases ans with
    | true => exact ⟨rfl, rfl, rfl⟩
    | false =>
      simp only [ledgerMachine, specMachine, unlessFails, specUnlessFails, Bool.false_eq_true,
        if_false]
      by_cases hfits : fitsInt64 now = true
      · simp only [hfits, not_true, if_false]
        exact ⟨trivial, Ledger.holdings_expire now, rfl⟩
      · simp only [hfits]
        exact ⟨rfl, rfl, rfl⟩
  | selectAll =>
    cases ans with
    | true => exact ⟨rfl, rfl, rfl⟩
    | false => exact ⟨Ledger.listedBy_holdings, rfl, rfl⟩
  | insertSnapshot es discrepancy =>
    cases ans with
    | true => exact ⟨rfl, rfl, rfl⟩
    | false =>
      simp only [ledgerMachine, specMachine, unlessFails, specUnlessFails, Bool.false_eq_true,
        if_false]
      split
      · exact ⟨rfl, rfl, rfl⟩
      · exact ⟨trivial, Ledger.holdings_insertSnapshot es, rfl⟩

/-! ### The methods correspond -/

/-- Both return the same; the rows of `entries` are compared without their order. -/
def SameResult : LedgerResult → SpecResult → Prop
  | .reserved b, .reserved b' | .committed b, .committed b' | .released b, .released b'
  | .has b, .has b' | .reconciled b, .reconciled b' => b = b'
  | .entries rows, .entries m => m.ListedBy (rows.map fun r =>
      (r.id, ⟨r.at_, r.asset, r.strategy, r.amount, r.state⟩))
  | _, _ => False

/-- A list of holdings shows whether they are off. -/
theorem off_iff {m : Holdings} {rows : List Reservation}
    (h : m.ListedBy (rows.map fun r => (r.id, Holding.of r))) (es : List LedgerEntry) :
    m.Off es ↔ discrepancy (rows.map Internal.of) es = true := by
  have hget : ∀ id x, m.get id = some x ↔ ∃ r ∈ rows, r.id = id ∧ Holding.of r = x := by
    intro id x
    rw [h.2 id x, List.mem_map]
    simp only [Prod.mk.injEq]
  -- a committed row that the snapshot does not list
  have hmissing : (∃ id x, m.get id = some x ∧ x.state = .committed ∧ ∀ e ∈ es, e.id ≠ id) ↔
      ∃ r ∈ rows, r.state = .committed ∧ ∀ e ∈ es, e.id ≠ r.id := by
    constructor
    · rintro ⟨id, x, hx, hstate, hnone⟩
      obtain ⟨r, hr, rfl, rfl⟩ := (hget id x).mp hx
      exact ⟨r, hr, hstate, hnone⟩
    · rintro ⟨r, hr, hstate, hnone⟩
      exact ⟨r.id, Holding.of r, (hget _ _).mpr ⟨r, hr, rfl, rfl⟩, hstate, hnone⟩
  -- an entry of the snapshot that no committed row matches
  have hunmatched : (∃ e ∈ es, ∀ x, m.get e.id = some x → ¬ (x.state = .committed ∧
      x.amount = e.amount)) ↔
      ∃ e ∈ es, ∀ r ∈ rows, r.state = .committed → r.id = e.id → r.amount ≠ e.amount := by
    refine exists_congr fun e => and_congr_right fun _ => ?_
    constructor
    · intro hnot r hr hstate hid hamount
      exact hnot (Holding.of r) ((hget _ _).mpr ⟨r, hr, hid, rfl⟩) ⟨hstate, hamount⟩
    · rintro hnot x hx ⟨hstate, hamount⟩
      obtain ⟨r, hr, hid, rfl⟩ := (hget _ _).mp hx
      exact hnot r hr hstate hid hamount
  rw [Holdings.Off, hmissing, hunmatched]
  simp only [discrepancy, List.filter_map, List.any_map, Bool.or_eq_true, List.any_eq_true,
    List.mem_filter, Function.comp_apply, Internal.of, decide_eq_true_eq, Bool.and_eq_true]
  grind

theorem statement_corresponds {α β : Type} {S : α → β → Prop} {o : LedgerOp}
    (h : LedgerI.Res o = Except String α) (h' : SpecI.Res o = Except String β)
    (hsame : ∀ r r', SameAnswer o r r' → SameOutcome S (cast h r) (cast h' r')) :
    Task.Corresponds SameAnswer S (statement o h) (step o h') :=
  .call (I := LedgerI) o fun r r' hr => .pure (hsame r r' hr)

theorem now_corresponds :
    Task.Corresponds SameAnswer (fun t t' => t = t') now specNow :=
  Task.corresponds_total (I := LedgerI) .now

theorem entries_corresponds (now : Int) :
    Task.Corresponds SameAnswer (fun (rows : List Internal) (m : Holdings) =>
      ∃ rows₀ : List Reservation, rows = rows₀.map Internal.of ∧
        m.ListedBy (rows₀.map fun r => (r.id, Holding.of r))) (entries now) (specEntries now) := by
  refine Task.corresponds_bind (statement_corresponds (S := fun _ _ => True) rfl rfl
    fun r r' hr => hr) fun _ _ _ => ?_
  refine .call (I := LedgerI) .selectAll fun r r' hr => ?_
  cases r with
  | ok rows =>
    cases r' with
    | ok m => exact .pure ⟨rows, rfl, hr⟩
    | error e => exact hr.elim
  | error e =>
    cases r' with
    | ok m => exact hr.elim
    | error e' => exact .pure hr

theorem release_corresponds (id : String) :
    Task.Corresponds SameAnswer (fun b b' => b = b') (release id)
      (step (.deleteReserved id) rfl : SpecTask Bool) := by
  refine .call (I := LedgerI) (.deleteReserved id) fun r r' hr => ?_
  cases r with
  | ok n =>
    cases r' with
    | ok b => exact .pure hr
    | error e => exact hr.elim
  | error e =>
    cases r' with
    | ok b => exact hr.elim
    | error e' => exact .pure hr

theorem reconcileAt_corresponds (es : List LedgerEntry) (t : Int) :
    Task.Corresponds SameAnswer (fun b b' => b = b') (reconcileAt es t)
      (specReconcileAt es t) := by
  refine Task.corresponds_bind (S := fun _ _ => True) (Task.corresponds_ofExcept ?_)
    fun _ _ _ => ?_
  · cases throwIf (invalidSnapshot es t = true) "invalid snapshot" with
    | ok u => trivial
    | error e => rfl
  · refine Task.corresponds_bind (entries_corresponds t) fun rows m hrows => ?_
    obtain ⟨rows, rfl, hlisted⟩ := hrows
    -- the status that is written, and returned, is the same
    have hoff : ∀ inst : Decidable (m.Off es),
        @decide _ inst = discrepancy (rows.map Internal.of) es := by
      intro inst
      rw [Bool.eq_iff_iff, decide_eq_true_eq, off_iff hlisted]
    rw [hoff]
    refine Task.corresponds_bind (statement_corresponds (S := fun _ _ => True) rfl rfl
      fun r r' hr => hr) fun _ _ _ => ?_
    exact Task.corresponds_pure rfl

theorem task_corresponds (r : LedgerRequest) :
    Task.Corresponds SameAnswer SameResult (ledgerTask r) (specTask r) := by
  cases r with
  | reserveWithin o e limits =>
    exact Task.corresponds_map (Task.corresponds_total (I := LedgerI) (.reserve o e limits))
      fun a b hab => hab
  -- the clock is read once by both
  | commit id =>
    refine Task.corresponds_map (S := (· = ·)) ?_ fun a b hab => hab
    refine Task.corresponds_bind now_corresponds fun at_ at_' hsame => ?_
    obtain rfl : at_ = at_' := hsame
    refine Task.corresponds_bind (statement_corresponds (S := fun _ _ => True) rfl rfl
      fun r r' hr => hr) fun _ _ _ => ?_
    exact statement_corresponds rfl rfl fun r r' hr => hr
  | release id => exact Task.corresponds_map (release_corresponds id) fun a b hab => hab
  | has id =>
    exact Task.corresponds_map (S := (· = ·)) (statement_corresponds rfl rfl fun r r' hr => hr)
      fun a b hab => hab
  | entries now =>
    refine Task.corresponds_map (entries_corresponds now) fun rows m hrows => ?_
    obtain ⟨rows, rfl, hlisted⟩ := hrows
    have hshown := hlisted.map Shown.of
    rw [List.map_map] at hshown
    rw [SameResult, List.map_map]
    exact hshown
  -- a time that is given saves reading the clock
  | reconcile es now? =>
    refine Task.corresponds_map (S := (· = ·)) ?_ fun a b hab => hab
    cases now? with
    | some t => exact reconcileAt_corresponds es t
    | none =>
      refine Task.corresponds_bind now_corresponds fun t t' ht => ?_
      obtain rfl : t = t' := ht
      exact reconcileAt_corresponds es t

/-! ### Agreement -/

/-- The database stands for the map, and whatever a method has returned or thrown is what the
map's has. -/
def Agrees (p : LedgerPool) (q : SpecPool) : Prop :=
  Represents p.shared q.shared ∧
    ∀ t : Nat, Option.Rel (SameOutcome SameResult) (p.calls[t]?.bind Call.result?)
      (q.calls[t]?.bind Call.result?)

/-- No release removes anything. -/
def RemovesNothing (p : LedgerPool) (e : Event LedgerI LedgerRequest) : Prop :=
  ∀ t ans o, e = .step t ans → p.next? t = some o → o.RemovesNothing (ans o) p.shared

theorem corresponds_ledgerRun {es : List (Event LedgerI LedgerRequest)}
    (h : Pool.Meets ledgerMachine ledgerBody RemovesNothing (Pool.start ⟨Table.empty, none⟩) es) :
    (ledgerRun es).Corresponds SameAnswer (SameOutcome SameResult) Represents (specRun es) := by
  have hempty : Represents ⟨Table.empty, none⟩ ⟨.empty, none⟩ :=
    ⟨FiniteMap.ext_get fun _ => rfl, rfl⟩
  refine Pool.corresponds_run (fun r => task_corresponds r) (Pool.corresponds_start hempty) ?_
  refine Pool.meets_of_forall_split ?_
  rintro before e after rfl t ans o he hnext
  exact ledger_matches o (ans o) _ ((Pool.meets_append.mp h).2.1 t ans o he hnext)

/-- A body makes the statement of a release only as the first call of a release. -/
def releaseDiscipline : Discipline LedgerI (Trace LedgerI LedgerRequest) :=
  .ofTrace fun v op => ∀ id, op = .deleteReserved id → v = ⟨.release id, []⟩

theorem entries_releases (now : Int)
    {post : Trace LedgerI LedgerRequest → Except String (List Internal) → Prop}
    {v : Trace LedgerI LedgerRequest} (hpost : ∀ w r, post w r) :
    (entries now).run.Safe releaseDiscipline post v := by
  refine ⟨fun _ h => (nomatch h), fun expired _ => ?_⟩
  cases expired with
  | error e => exact hpost _ _
  | ok u =>
    refine ⟨fun _ h => (nomatch h), fun rows _ => ?_⟩
    cases rows <;> exact hpost _ _

theorem reconcileAt_releases (es : List LedgerEntry) (t : Int)
    {v : Trace LedgerI LedgerRequest} :
    (reconcileAt es t).run.Safe releaseDiscipline (fun _ _ => True) v := by
  rw [reconcileAt, Task.safe_bind, Task.safe_ofExcept]
  cases throwIf (invalidSnapshot es t = true) "invalid snapshot" with
  | error e => trivial
  | ok u =>
    rw [Task.safe_bind]
    refine entries_releases t fun w r => ?_
    cases r with
    | error e => trivial
    | ok rows =>
      refine ⟨fun _ h => (nomatch h), fun done _ => ?_⟩
      cases done <;> trivial

theorem ledgerBody_releases (r : LedgerRequest) :
    (ledgerBody r).Safe releaseDiscipline (fun _ _ => True) (Trace.start r) := by
  cases r with
  | reserveWithin o e limits => exact ⟨fun _ h => (nomatch h), fun _ _ => trivial⟩
  | commit id =>
    refine ⟨fun _ h => (nomatch h), fun at_ _ => ⟨fun _ h => (nomatch h), fun changes _ => ?_⟩⟩
    cases changes with
    | error e => trivial
    | ok n => exact ⟨fun _ h => (nomatch h), fun found _ => by cases found <;> trivial⟩
  -- this is the only request that deletes a row
  | release id =>
    refine ⟨fun _ h => ?_, fun changes _ => by cases changes <;> trivial⟩
    obtain rfl := LedgerOp.deleteReserved.inj h
    rfl
  | has id => exact ⟨fun _ h => (nomatch h), fun found _ => by cases found <;> trivial⟩
  | entries now =>
    refine Prog.safe_bind.mpr (entries_releases now fun w r => ?_)
    cases r <;> trivial
  | reconcile es now? =>
    cases now? with
    | some t =>
      refine Prog.safe_bind.mpr (Prog.Safe.mono (reconcileAt_releases es t) fun w r _ => ?_)
      cases r <;> trivial
    | none =>
      refine ⟨fun _ h => (nomatch h), fun t _ => ?_⟩
      refine Prog.safe_bind.mpr (Prog.Safe.mono (reconcileAt_releases es t) fun w r _ => ?_)
      cases r <;> trivial

theorem releases_modular :
    Modular ledgerMachine ledgerBody releaseDiscipline Trace.start (fun _ _ => True)
      (fun _ => True) (fun _ _ => True) (fun _ _ => True) (fun _ _ => True) where
  body_safe := ledgerBody_releases
  symm _ _ _ := trivial
  spawn _ _ _ _ := ⟨trivial, fun _ _ => trivial⟩
  call _ _ _ _ _ _ _ _ _ _ _ _ := ⟨trivial, trivial, trivial⟩
  frame _ _ _ _ _ _ _ _ _ _ := ⟨trivial, trivial⟩

/-- Who is about to delete a reservation is a release that has done nothing yet. -/
theorem rest_of_deleteReserved {es : List (Event LedgerI LedgerRequest)} {t : Nat} {id : String}
    (hnext : (ledgerRun es).next? t = some (.deleteReserved id)) :
    ∃ c, (ledgerRun es).calls[t]? = some c ∧ c.request = .release id ∧ c.history = [] ∧
      c.rest = some (ledgerBody (.release id)) := by
  obtain ⟨c, k, hc, hrest⟩ := Pool.exists_of_next? hnext
  have hsafe :=
    (releases_modular.run (Pool.meets_true (Pool.start (⟨Table.empty, none⟩ : LedgerDb)) es)
    (Modular.coherent_start trivial)).safe t c hc _ hrest
  have hview := hsafe.1 id rfl
  rw [releaseDiscipline, Call.view_ofTrace] at hview
  obtain ⟨hreq, hhist⟩ := Trace.mk.inj hview
  have hreach := Pool.replayed_run (M := ledgerMachine) _ es t c _ hc hrest
  rw [hhist, hreq] at hreach
  exact ⟨c, hc, hreq, hhist, hrest.trans (congrArg some hreach.of_nil)⟩

/-- The map's release has done nothing yet either. -/
theorem specRun_partner {es : List (Event LedgerI LedgerRequest)} {t : Nat} {id : String}
    {c : Call LedgerI LedgerRequest (Except String LedgerResult)}
    (hsim : (ledgerRun es).Corresponds SameAnswer (SameOutcome SameResult) Represents (specRun es))
    (hc : (ledgerRun es).calls[t]? = some c) (hreq : c.request = .release id)
    (hhist : c.history = []) (hrest : c.rest = some (ledgerBody (.release id))) :
    ∃ d, (specRun es).calls[t]? = some d ∧ d.rest = some (specBody (.release id)) := by
  have hget := hsim.getElem? t
  rw [hc] at hget
  cases hd : (specRun es).calls[t]? with
  | none => rw [hd] at hget; cases hget
  | some d =>
    rw [hd] at hget
    have hcall : c.Corresponds SameAnswer (SameOutcome SameResult) d := by cases hget; assumption
    refine ⟨d, rfl, ?_⟩
    -- the two have made as many calls, here none
    have hdhist : d.history = [] := by
      have hops := hcall.ops
      rw [hhist, List.map_nil] at hops
      exact List.map_eq_nil_iff.mp hops.symm
    have hdreq : d.request = .release id := hcall.request ▸ hreq
    have hrel := hcall.rest
    rw [hrest] at hrel
    cases hdrest : d.rest with
    | none => rw [hdrest] at hrel; cases hrel
    | some q =>
      have hreach := Pool.replayed_run (M := specMachine) _ _ t d q hd hdrest
      rw [hdhist, hdreq] at hreach
      rw [hreach.of_nil]

/-- **Exactly which runs agree with the map**: in every state and in everything that was returned
by then, those in which no release removes anything. -/
theorem agrees_iff (es : List (Event LedgerI LedgerRequest)) :
    (∀ before after, es = before ++ after → Agrees (ledgerRun before) (specRun before)) ↔
      Pool.Meets ledgerMachine ledgerBody RemovesNothing (Pool.start ⟨Table.empty, none⟩) es := by
  constructor
  · intro hagrees
    induction es using List.reverseRecOn with
    | nil => trivial
    | append_singleton es e ih =>
      have hbefore := ih fun before after heq => hagrees before (after ++ [e]) (by simp [heq])
      refine Pool.meets_append.mpr ⟨hbefore, ?_, trivial⟩
      rintro t ans o rfl hnext
      have hsim := corresponds_ledgerRun hbefore
      cases o with
      | deleteReserved id =>
        by_contra hremoves
        simp only [LedgerOp.RemovesNothing, not_or, not_forall, not_not] at hremoves
        obtain ⟨hfails, r, hr, hstate⟩ := hremoves
        obtain ⟨c, hc, hreq, hhist, hrest⟩ := rest_of_deleteReserved hnext
        obtain ⟨d, hd, hdrest⟩ := specRun_partner hsim hc hreq hhist hrest
        -- the release says that it removed nothing, the map that it did
        have hleft : ((ledgerRun (es ++ [.step t ans])).calls[t]?.bind Call.result?) =
            some (.ok (.released false)) := by
          have hstep : ledgerRun (es ++ [.step t ans]) = (ledgerRun es).step ledgerMachine t ans :=
            Pool.run_append _ _ _
          rw [hstep, Pool.result?_step hc hrest]
          simp only [ledgerMachine, unlessFails, hfails]
          rfl
        have hright : ((specRun (es ++ [.step t ans])).calls[t]?.bind Call.result?) =
            some (.ok (.released true)) := by
          have hstep : specRun (es ++ [.step t ans]) = (specRun es).step specMachine t ans := by
            rw [specRun, List.map_append, Pool.run_append]
            rfl
          have hreserved : (specRun es).shared.holdings.reserved id = true := by
            rw [← hsim.shared.1, Ledger.reserved_holdings]
            exact ⟨r, hr, hstate⟩
          rw [hstep, Pool.result?_step hd hdrest]
          simp only [specMachine, specUnlessFails, hfails, hreserved]
          rfl
        have hsame := (hagrees (es ++ [.step t ans]) [] (by simp)).2 t
        rw [hleft, hright] at hsame
        cases hsame with
        | some h => cases h
      | _ => trivial
  · rintro hmeets before after rfl
    have hsim := corresponds_ledgerRun (Pool.meets_append.mp hmeets).1
    exact ⟨hsim.shared, hsim.result?⟩

/-- A reservation and its release. -/
def releasedReservation : List (Event LedgerI LedgerRequest) :=
  [.spawn (sampleReservation "r1"), .step 0 sampleStatement, .spawn (.release "r1"),
    .step 1 sampleStatement]

/-- The reservation is there and reserved before the release, and gone after it; the release
returns that it removed nothing. -/
theorem release_denies :
    ((ledgerRun (releasedReservation.take 3)).shared.reservations.find? "r1").map
        Reservation.state = some .reserved ∧
      (ledgerRun releasedReservation).shared.reservations.rows = [] ∧
      ((ledgerRun releasedReservation).calls[1]?.bind Call.result?) =
        some (.ok (.released false)) := by
  refine ⟨?_, ?_, ?_⟩ <;> decide

end AriOs.Execution
