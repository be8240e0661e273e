import AriOs.Storage.Table
import Mathlib.Algebra.BigOperators.Group.List.Basic
import Mathlib.Algebra.Ring.Int.Defs

/-!
# The reservation ledger

A trade reserves its input amount before it is signed for and commits it once it was sent.
Reserved rows lapse with their deadline; committed rows stay. Every operation is one
transaction, so the ledger is a table and the operations are functions on it.

## Main results

* `Ledger.find?_commit`, `Ledger.find?_release`, `Ledger.find?_expire` — what happens to a row
* `Ledger.reserveWithin_cases` — a reservation adds one reserved row to those left by expiry
* `Ledger.Committed.reserveWithin` and its siblings — a committed row stays
-/

namespace AriOs.Execution

open AriOs.Storage

inductive ReservationState where
  | reserved | committed
  deriving DecidableEq, Repr

/-- What a reservation is worth in a common quote asset, and why. -/
structure Valuation where
  denomination : String
  decimals : Nat
  value : Int
  evidence : String
  deriving DecidableEq, Repr

/-- A row of `reservations`. -/
structure Reservation where
  id : String
  at_ : Int
  asset : String
  strategy : String
  amount : Int
  state : ReservationState
  expiresAt : Int
  valuation : Option Valuation
  deriving DecidableEq, Repr

/-- What is asked to be reserved. -/
structure LedgerEntry where
  id : String
  at_ : Int
  asset : String
  strategy : String
  amount : Int
  deriving DecidableEq, Repr

/-- A cap on everything reserved: in base units, or in a common quote asset. -/
inductive AggregateLimit where
  | amount (max : Int)
  | quote (max : Int) (valuation : Valuation)
  deriving DecidableEq, Repr

structure ReservationLimits where
  perAsset : Int
  aggregate : Option AggregateLimit
  deriving DecidableEq, Repr

/-- How a ledger was opened. -/
structure LedgerOptions where
  reservationTtl : Int
  /-- the one denomination and precision valuations may have -/
  aggregateQuote : Option (String × Nat)
  deriving DecidableEq, Repr

/-- The rows, one for each reservation id. -/
abbrev Ledger := Table Reservation.id

/-- What a 64-bit integer column can be bound to. -/
def fitsInt64 (i : Int) : Bool := -2 ^ 63 ≤ i && i < 2 ^ 63

/-- `.changes === 1n`. The count of changes is a number unless a statement is set to read big
integers, which none is, and a number is never identical to a big integer. -/
def changesIsBigOne (_changes : Nat) : Bool := false

namespace Ledger

variable (l : Ledger)

/-- `expire`: reserved rows past their deadline go. -/
def expire (now : Int) : Ledger :=
  l.delete fun r => r.state = .reserved ∧ r.expiresAt ≤ now

/-- `has`. -/
def has (id : String) : Bool := (l.find? id).isSome

/-- What counts against the cap of an asset. -/
def exposure (asset : String) : Int :=
  ((l.rows.filter fun r => r.asset = asset).map Reservation.amount).sum

/-- A limit in a quote asset that makes sense, in the ledger's own denomination. -/
def validAggregate (o : LedgerOptions) : Option AggregateLimit → Bool
  | some (.quote max v) =>
    v.denomination ≠ "" && v.decimals ≤ 30 && 0 ≤ max && 0 < v.value && v.evidence ≠ "" &&
      match o.aggregateQuote with
      | some (denomination, decimals) =>
        v.denomination = denomination && v.decimals = decimals
      | none => true
  | _ => true

/-- The valuation columns of a row agree with those of the limit. -/
def comparable (v : Valuation) (r : Reservation) : Bool :=
  match r.valuation with
  | some w => w.evidence ≠ "" && w.denomination = v.denomination && w.decimals = v.decimals
  | none => false

/-- There is room for the entry under every limit. -/
def hasRoom (e : LedgerEntry) (limits : ReservationLimits) : Bool :=
  l.exposure e.asset + e.amount ≤ limits.perAsset &&
    match limits.aggregate with
    | none => true
    | some (.amount max) => l.exposure e.asset + e.amount ≤ max
    | some (.quote max v) =>
      l.rows.all (comparable v) &&
        (l.rows.map fun r => (r.valuation.map Valuation.value).getD 0).sum + v.value ≤ max

/-- The row an entry is reserved as. -/
def reservedRow (o : LedgerOptions) (e : LedgerEntry) (limits : ReservationLimits) :
    Reservation where
  id := e.id
  at_ := e.at_
  asset := e.asset
  strategy := e.strategy
  amount := e.amount
  state := .reserved
  expiresAt := e.at_ + o.reservationTtl
  valuation := match limits.aggregate with
    | some (.quote _ v) => some v
    | _ => none

/-- The numbers of a row fit their columns. -/
def fits (r : Reservation) : Bool :=
  fitsInt64 r.amount && fitsInt64 r.expiresAt && r.valuation.all fun v => fitsInt64 v.value

/-- `reserveWithin`: expire, check the caps and insert, or leave everything as it was. Within
the transaction only a full cap returns; what does not fit a column, and an id that is there,
throw and roll the expiry back. -/
def reserveWithin (o : LedgerOptions) (e : LedgerEntry) (limits : ReservationLimits) :
    Bool × Ledger :=
  if e.id = "" ∨ e.at_ < 0 ∨ e.amount ≤ 0 ∨ limits.perAsset < 0 ∨
      ¬ validAggregate o limits.aggregate ∨ ¬ fitsInt64 e.at_ then (false, l)
  else
    let live := l.expire e.at_
    if ¬ hasRoom live e limits then (false, live)
    else if ¬ fits (reservedRow o e limits) then (false, l)
    else match live.insert? (reservedRow o e limits) with
      | some l' => (true, l')
      | none => (false, l)

/-- `release`: what is only reserved goes. -/
def release (id : String) : Bool × Ledger :=
  (changesIsBigOne (l.count fun r => r.id = id ∧ r.state = .reserved),
    l.delete fun r => r.id = id ∧ r.state = .reserved)

/-- `commit`: what is reserved is committed, at the ledger's own reading of the clock. -/
def commit (id : String) (now : Int) : Bool × Ledger :=
  let l' : Ledger := l.update (fun r => r.id = id ∧ r.state = .reserved)
    (fun r => { r with state := .committed, at_ := now, expiresAt := now }) fun _ => rfl
  (changesIsBigOne (l.count fun r => r.id = id ∧ r.state = .reserved) ||
    (l'.find? id).any fun r => r.state = .committed, l')

/-- The row of a reservation is committed. -/
def Committed (id : String) : Prop := (l.find? id).map Reservation.state = some .committed

instance (id : String) : Decidable (l.Committed id) := by unfold Committed; infer_instance

end Ledger

/-! ### What happens to a row -/

namespace Ledger

variable {l l' : Ledger} {id k : String} {now : Int}

theorem find?_expire : (l.expire now).find? k =
    (l.find? k).filter fun r => ¬ (r.state = .reserved ∧ r.expiresAt ≤ now) := by
  simp only [expire, Table.find?_delete, decide_not]

theorem find?_release : (l.release id).2.find? k =
    (l.find? k).filter fun r => ¬ (r.id = id ∧ r.state = .reserved) := by
  simp only [release, Table.find?_delete, decide_not]

theorem find?_commit : (l.commit id now).2.find? k = (l.find? k).map fun r =>
    if r.id = id ∧ r.state = .reserved
      then { r with state := .committed, at_ := now, expiresAt := now } else r := by
  simp [commit, Table.find?_update]

/-- A reservation adds one reserved row to those left by expiry, or none to those that were
there or are left. -/
theorem reserveWithin_cases (o : LedgerOptions) (e : LedgerEntry) (limits : ReservationLimits) :
    (l.reserveWithin o e limits).2 = l ∨ (l.reserveWithin o e limits).2 = l.expire e.at_ ∨
      ((l.reserveWithin o e limits).1 = true ∧ ∃ row, row.id = e.id ∧ row.state = .reserved ∧
        (l.expire e.at_).insert? row = some (l.reserveWithin o e limits).2) := by
  unfold reserveWithin
  dsimp only
  split
  · exact .inl rfl
  · split
    · exact .inr (.inl rfl)
    · split
      · exact .inl rfl
      · split
        · rename_i l' hins
          exact .inr (.inr ⟨rfl, _, rfl, rfl, hins⟩)
        · exact .inl rfl

namespace Committed

theorem expire (h : l.Committed k) : (l.expire now).Committed k := by
  obtain ⟨r, hr, hstate⟩ := Option.map_eq_some_iff.mp h
  rw [Committed, find?_expire, hr, Option.filter_some_pos (by simp [hstate]), Option.map_some,
    hstate]

theorem release (h : l.Committed k) : (l.release id).2.Committed k := by
  obtain ⟨r, hr, hstate⟩ := Option.map_eq_some_iff.mp h
  rw [Committed, find?_release, hr, Option.filter_some_pos (by simp [hstate]), Option.map_some,
    hstate]

theorem commit (h : l.Committed k) : (l.commit id now).2.Committed k := by
  obtain ⟨r, hr, hstate⟩ := Option.map_eq_some_iff.mp h
  rw [Committed, find?_commit, hr, Option.map_some, Option.map_some, if_neg (by simp [hstate]),
    hstate]

theorem insert {row : Reservation} (h : l.Committed k) (hins : l.insert? row = some l') :
    l'.Committed k := by
  obtain ⟨r, hr, hstate⟩ := Option.map_eq_some_iff.mp h
  rw [Committed, Table.find?_insert?_of_some hins hr, Option.map_some, hstate]

theorem reserveWithin (h : l.Committed k) (o : LedgerOptions) (e : LedgerEntry)
    (limits : ReservationLimits) : (l.reserveWithin o e limits).2.Committed k := by
  rcases reserveWithin_cases (l := l) o e limits with heq | heq | ⟨-, row, -, -, hins⟩
  · rw [heq]; exact h
  · rw [heq]; exact h.expire
  · exact h.expire.insert hins

end Committed

/-- A commit that finds a row leaves it committed. -/
theorem committed_commit (h : l.has id = true) : (l.commit id now).2.Committed id := by
  obtain ⟨r, hr⟩ := Option.isSome_iff_exists.mp h
  have hid : r.id = id := (Table.find?_eq_some_iff.mp hr).2
  rw [Committed, find?_commit, hr, Option.map_some, Option.map_some]
  cases hstate : r.state with
  | reserved => simp [hid]
  | committed => simp [hstate]

/-- What was not committed before is not, unless it was what `commit` was asked for. -/
theorem Committed.of_commit (h : (l.commit id now).2.Committed k) : k = id ∨ l.Committed k := by
  rw [Committed, find?_commit, Option.map_map, Option.map_eq_some_iff] at h
  obtain ⟨r, hr, hstate⟩ := h
  have hk : r.id = k := (Table.find?_eq_some_iff.mp hr).2
  by_cases hid : r.id = id
  · exact .inl (hk.symm.trans hid)
  · right
    simp only [Function.comp, hid, false_and, if_false] at hstate
    rw [Committed, hr, Option.map_some, hstate]

theorem Committed.of_expire (h : (l.expire now).Committed k) : l.Committed k := by
  rw [Committed, find?_expire] at h
  obtain ⟨r, hr, hstate⟩ := Option.map_eq_some_iff.mp h
  rw [Committed, (Option.filter_eq_some_iff.mp hr).1, Option.map_some, hstate]

theorem Committed.of_release (h : (l.release id).2.Committed k) : l.Committed k := by
  rw [Committed, find?_release] at h
  obtain ⟨r, hr, hstate⟩ := Option.map_eq_some_iff.mp h
  rw [Committed, (Option.filter_eq_some_iff.mp hr).1, Option.map_some, hstate]

/-- Nothing is committed by being reserved. -/
theorem Committed.of_reserveWithin {o : LedgerOptions} {e : LedgerEntry}
    {limits : ReservationLimits} (h : (l.reserveWithin o e limits).2.Committed k) :
    l.Committed k := by
  rcases reserveWithin_cases (l := l) o e limits with heq | heq | ⟨-, row, hid, hstate, hins⟩
  · rwa [heq] at h
  · rw [heq] at h
    exact h.of_expire
  · rw [Committed, Table.find?_insert? hins] at h
    split at h
    · simp [hstate] at h
    · exact Committed.of_expire h

/-- A row that is not committed is gone once its deadline has passed. -/
theorem find?_expire_eq_none (h : ¬ l.Committed k)
    (hlate : ∀ r, l.find? k = some r → r.state = .reserved → r.expiresAt ≤ now) :
    (l.expire now).find? k = none := by
  rw [find?_expire]
  cases hr : l.find? k with
  | none => rfl
  | some r =>
    have hstate : r.state = .reserved := by
      cases hstate : r.state with
      | reserved => rfl
      | committed => simp [Committed, hr, hstate] at h
    simp [Option.filter, hstate, hlate r hr hstate]

end Ledger

end AriOs.Execution
