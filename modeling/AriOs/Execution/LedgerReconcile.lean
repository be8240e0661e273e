import AriOs.Async.Solo
import AriOs.Execution.LedgerRuns

/-!
# A ledger that takes a snapshot over

`ReservationLedger.reconcile` compares the committed rows with a snapshot and inserts what is not
there. An entry whose id has a row is left out of it: if that row is only reserved the entry is not
counted as committed, and if its amount is another the next comparison finds it again.

## Main results

* `Ledger.find?_insertSnapshot` — what is found after a snapshot is taken over
-/

namespace AriOs.Execution

open AriOs.Async AriOs.Js AriOs.Storage

namespace Ledger

/-- Every entry is counted as committed, however late. -/
def Adopts (l : Ledger) (es : List LedgerEntry) : Prop :=
  ∀ e ∈ es, ∀ t, (l.expire t).Committed e.id

/-- Every committed row has an entry. -/
def Occurs (l : Ledger) (es : List LedgerEntry) : Prop :=
  ∀ r ∈ l.rows, r.state = .committed → ∃ e ∈ es, e.id = r.id

/-- No entry has the id of a row that is reserved beyond a time. -/
def NoneReserved (l : Ledger) (es : List LedgerEntry) (now : Int) : Prop :=
  ∀ e ∈ es, ∀ r ∈ l.rows, r.id = e.id → r.state = .reserved → r.expiresAt ≤ now

/-- A committed row with the id of an entry has its amount. -/
def SameAmounts (l : Ledger) (es : List LedgerEntry) : Prop :=
  ∀ e ∈ es, ∀ r ∈ l.rows, r.id = e.id → r.state = .committed → r.amount = e.amount

variable {l : Ledger} {es : List LedgerEntry} {id : String} {now now' : Int}

/-! ### The statement that inserts -/

/-- A row that is there stays; otherwise the first entry with the id is taken over. -/
theorem find?_insertSnapshot (l : Ledger) (es : List LedgerEntry) (id : String) :
    (l.insertSnapshot es).find? id =
      (l.find? id).or ((es.find? fun e => e.id = id).map snapshotRow) := by
  induction es generalizing l with
  | nil => simp [insertSnapshot]
  | cons e es ih =>
    rw [insertSnapshot, List.foldl_cons, ← insertSnapshot, ih]
    have hkey : (snapshotRow e).id = e.id := rfl
    by_cases hid : e.id = id
    · rw [List.find?_cons_of_pos (by simpa using hid)]
      cases hins : l.insert? (snapshotRow e) with
      -- a row that is there keeps its place
      | none =>
        obtain ⟨r, hr⟩ := Option.isSome_iff_exists.mp (Table.insert?_eq_none_iff.mp hins)
        rw [hkey, hid] at hr
        simp [hr]
      | some l' =>
        have hfree := Table.find?_of_insert? hins
        rw [hkey, hid] at hfree
        simp [Table.find?_insert? hins, hfree, hkey, hid]
    · rw [List.find?_cons_of_neg (by simpa using hid)]
      cases hins : l.insert? (snapshotRow e) with
      | none => rfl
      | some l' => simp [Table.find?_insert? hins, hkey, hid]

/-- With one entry for each id. -/
theorem find?_insertSnapshot_of_mem (hnodup : (es.map LedgerEntry.id).Nodup) {e : LedgerEntry}
    (he : e ∈ es) :
    (l.insertSnapshot es).find? e.id = (l.find? e.id).or (some (snapshotRow e)) := by
  rw [find?_insertSnapshot]
  congr 1
  cases hfind : es.find? fun e' => e'.id = e.id with
  | none => exact absurd (List.find?_eq_none.mp hfind e he) (by simp)
  | some e' =>
    have hid : e'.id = e.id := by simpa using List.find?_some hfind
    rw [List.inj_on_of_nodup_map hnodup (List.mem_of_find?_eq_some hfind) he hid]
    rfl

theorem committed_insertSnapshot_iff (hnodup : (es.map LedgerEntry.id).Nodup) {e : LedgerEntry}
    (he : e ∈ es) : (l.insertSnapshot es).Committed e.id ↔
      ∀ r, l.find? e.id = some r → r.state = .committed := by
  rw [Committed, find?_insertSnapshot_of_mem hnodup he]
  cases l.find? e.id <;> simp [snapshotRow]

/-- What is found after expiry. -/
theorem find?_expire_eq_some {r : Reservation} : (l.expire now).find? id = some r ↔
    l.find? id = some r ∧ (r.state = .reserved → now < r.expiresAt) := by
  rw [find?_expire, Option.filter_eq_some_iff, decide_eq_true_eq, not_and, not_le]

theorem adopts_iff (hnodup : (es.map LedgerEntry.id).Nodup) :
    ((l.expire now).insertSnapshot es).Adopts es ↔ l.NoneReserved es now := by
  constructor
  · intro h e he r hr hid hreserved
    by_contra! hlt
    have hrow : (l.expire now).find? e.id = some r :=
      find?_expire_eq_some.mpr ⟨Table.find?_eq_some_iff.mpr ⟨hr, hid⟩, fun _ => hlt⟩
    have hcommitted :=
      (committed_insertSnapshot_iff hnodup he).mp (Committed.of_expire (h e he 0)) r hrow
    rw [hreserved] at hcommitted
    cases hcommitted
  · intro h e he t
    refine Committed.expire ((committed_insertSnapshot_iff hnodup he).mpr fun r hr => ?_)
    obtain ⟨hfind, hlive⟩ := find?_expire_eq_some.mp hr
    obtain ⟨hmem, hid⟩ := Table.find?_eq_some_iff.mp hfind
    cases hstate : r.state with
    | committed => rfl
    | reserved =>
      have hle := h e he r hmem hid hstate
      have hlt := hlive hstate
      omega

/-! ### The comparison -/

/-- Nothing is off if the committed rows and the entries are the same, by id and amount. -/
theorem discrepancy_eq_false_iff : discrepancy (l.rows.map Internal.of) es = false ↔
    l.Occurs es ∧ ∀ e ∈ es, ∃ r, l.find? e.id = some r ∧ r.state = .committed ∧
      r.amount = e.amount := by
  -- only committed rows are compared
  have hlocals : ∀ x, x ∈ (l.rows.map Internal.of).filter (fun r => r.state = .committed) ↔
      ∃ r ∈ l.rows, r.state = .committed ∧ Internal.of r = x := by
    intro x
    rw [List.mem_filter, List.mem_map]
    constructor
    · rintro ⟨⟨r, hr, rfl⟩, hstate⟩
      exact ⟨r, hr, of_decide_eq_true hstate, rfl⟩
    · rintro ⟨r, hr, hstate, rfl⟩
      exact ⟨⟨r, hr, rfl⟩, decide_eq_true hstate⟩
  rw [discrepancy, Bool.or_eq_false_iff, List.any_eq_false, List.any_eq_false]
  simp only [hlocals, List.any_eq_true, decide_not, Bool.not_eq_true', decide_eq_true_eq,
    Bool.and_eq_true, Bool.not_eq_false]
  constructor
  · rintro ⟨hlocal, hentry⟩
    refine ⟨fun r hr hstate => hlocal _ ⟨r, hr, hstate, rfl⟩, fun e he => ?_⟩
    obtain ⟨_, ⟨r, hr, hstate, rfl⟩, hid, hamount⟩ := hentry e he
    exact ⟨r, Table.find?_eq_some_iff.mpr ⟨hr, hid⟩, hstate, hamount⟩
  · rintro ⟨hlocal, hentry⟩
    refine ⟨?_, fun e he => ?_⟩
    · rintro _ ⟨r, hr, hstate, rfl⟩
      exact hlocal r hr hstate
    · obtain ⟨r, hr, hstate, hamount⟩ := hentry e he
      obtain ⟨hmem, hid⟩ := Table.find?_eq_some_iff.mp hr
      exact ⟨_, ⟨r, hmem, hstate, rfl⟩, hid, hamount⟩

theorem occurs_iff : l.Occurs es ↔
    ∀ id r, l.find? id = some r → r.state = .committed → ∃ e ∈ es, e.id = id := by
  constructor
  · intro h id r hr hstate
    obtain ⟨hmem, rfl⟩ := Table.find?_eq_some_iff.mp hr
    exact h r hmem hstate
  · intro h r hr hstate
    exact h r.id r (Table.find?_eq_some_iff.mpr ⟨hr, rfl⟩) hstate

/-- A snapshot that is taken over adds no committed row that does not occur in it. -/
theorem occurs_adopted_iff :
    (((l.expire now).insertSnapshot es).expire now').Occurs es ↔ l.Occurs es := by
  rw [occurs_iff, occurs_iff]
  constructor
  · intro h id r hr hstate
    have hlive : (l.expire now).find? id = some r :=
      find?_expire_eq_some.mpr ⟨hr, fun hreserved => by simp [hstate] at hreserved⟩
    refine h id r (find?_expire_eq_some.mpr ⟨?_, fun hreserved => ?_⟩) hstate
    · rw [find?_insertSnapshot, hlive, Option.some_or]
    · simp [hstate] at hreserved
  · intro h id r hr hstate
    rw [find?_expire_eq_some, find?_insertSnapshot] at hr
    cases hlive : (l.expire now).find? id with
    | some r' =>
      rw [hlive, Option.some_or] at hr
      obtain rfl := Option.some.inj hr.1
      exact h id _ (find?_expire_eq_some.mp hlive).1 hstate
    | none =>
      rw [hlive, Option.none_or, Option.map_eq_some_iff] at hr
      obtain ⟨⟨e, he, -⟩, -⟩ := hr
      exact ⟨e, List.mem_of_find?_eq_some he, by simpa using List.find?_some he⟩

/-- After that, the entries are found by id and amount unless a row was in their way. -/
theorem entries_adopted_iff (hnodup : (es.map LedgerEntry.id).Nodup) :
    (∀ e ∈ es, ∃ r, (((l.expire now).insertSnapshot es).expire now').find? e.id = some r ∧
      r.state = .committed ∧ r.amount = e.amount) ↔ l.NoneReserved es now ∧ l.SameAmounts es := by
  constructor
  · intro h
    -- a row that is left keeps its place
    have hkept : ∀ e ∈ es, ∀ r, (l.expire now).find? e.id = some r →
        r.state = .committed ∧ r.amount = e.amount := by
      intro e he r hr
      obtain ⟨r', hr', hstate, hamount⟩ := h e he
      rw [find?_expire_eq_some, find?_insertSnapshot, hr, Option.some_or] at hr'
      obtain rfl := Option.some.inj hr'.1
      exact ⟨hstate, hamount⟩
    constructor
    · intro e he r hr hid hreserved
      by_contra! hlt
      have hstate := (hkept e he r (find?_expire_eq_some.mpr
        ⟨Table.find?_eq_some_iff.mpr ⟨hr, hid⟩, fun _ => hlt⟩)).1
      rw [hreserved] at hstate
      cases hstate
    · intro e he r hr hid hstate
      exact (hkept e he r (find?_expire_eq_some.mpr
        ⟨Table.find?_eq_some_iff.mpr ⟨hr, hid⟩, fun h => by simp [hstate] at h⟩)).2
  · rintro ⟨hreserved, hamounts⟩ e he
    simp only [find?_expire_eq_some, find?_insertSnapshot_of_mem hnodup he]
    cases hlive : (l.expire now).find? e.id with
    | none => exact ⟨snapshotRow e, ⟨rfl, fun h => by cases h⟩, rfl, rfl⟩
    | some r =>
      obtain ⟨hfind, hlt⟩ := find?_expire_eq_some.mp hlive
      obtain ⟨hmem, hid⟩ := Table.find?_eq_some_iff.mp hfind
      cases hstate : r.state with
      | reserved =>
        have hle := hreserved e he r hmem hid hstate
        have hlt' := hlt hstate
        omega
      | committed =>
        exact ⟨r, ⟨rfl, fun h => by simp [hstate] at h⟩, hstate, hamounts e he r hmem hid hstate⟩

end Ledger

/-! ### The method -/

section Reconcile

variable {ans : ∀ o, LedgerI.Ans o} {db db' : LedgerDb} {es : List LedgerEntry} {t : Int}
  {now? : Option Int} {d : Bool}

/-- No statement fails. -/
def undisturbed (clock : Int) : ∀ o, LedgerI.Ans o
  | .now => clock
  | .reserve _ _ _ | .setCommitted _ _ | .selectCommitted _ | .deleteReserved _ | .selectId _
  | .expire _ | .selectAll | .insertSnapshot _ _ => false

theorem solo_reconcile : (reconcile es now?).solo ledgerMachine ans db =
    (reconcileAt es (now?.getD (ans .now))).solo ledgerMachine ans db := by
  cases now? with
  | some t => rfl
  | none =>
    rw [reconcile, Task.solo_bind]
    rfl

theorem solo_expire : (statement (.expire t) rfl).solo ledgerMachine ans db =
    unlessFails (ans (.expire t)) db (if ¬ fitsInt64 t then (.error ERR_BIND, db)
      else (.ok (), { db with reservations := db.reservations.expire t })) := rfl

theorem solo_selectAll : (statement .selectAll rfl).solo ledgerMachine ans db =
    unlessFails (ans .selectAll) db (.ok db.reservations.rows, db) := rfl

theorem solo_insertSnapshot : (statement (.insertSnapshot es d) rfl).solo ledgerMachine ans db =
    unlessFails (ans (.insertSnapshot es d)) db
      (if es.any fun e => ¬ fitsInt64 e.amount then (.error ERR_BIND, db)
      else (.ok (), ⟨db.reservations.insertSnapshot es, some d⟩)) := rfl

/-- Reading the rows leaves those that have not expired. -/
theorem solo_entries : (entries t).solo ledgerMachine ans db =
    if ans (.expire t) = true then (.error ERR_LOCKED, db)
    else if ¬ fitsInt64 t then (.error ERR_BIND, db)
    else if ans .selectAll = true then
      (.error ERR_LOCKED, { db with reservations := db.reservations.expire t })
    else (.ok ((db.reservations.expire t).rows.map Internal.of),
      { db with reservations := db.reservations.expire t }) := by
  rw [entries, Task.solo_bind, solo_expire, unlessFails]
  by_cases hexpire : ans (.expire t) = true
  · rw [if_pos hexpire, if_pos hexpire]
  rw [if_neg hexpire, if_neg hexpire]
  by_cases hfits : ¬ fitsInt64 t = true
  · rw [if_pos hfits, if_pos hfits]
  rw [if_neg hfits, if_neg hfits]
  dsimp only
  rw [Task.solo_bind, solo_selectAll, unlessFails]
  cases ans .selectAll <;> rfl

/-- A comparison that returns has taken the snapshot over. -/
theorem reconcileAt_eq_ok (h : (reconcileAt es t).solo ledgerMachine ans db = (.ok d, db')) :
    invalidSnapshot es t = false ∧ (∀ e ∈ es, fitsInt64 e.amount = true) ∧
      db'.reservations = (db.reservations.expire t).insertSnapshot es := by
  unfold reconcileAt at h
  rw [Task.solo_bind, Task.solo_ofExcept] at h
  by_cases hinvalid : invalidSnapshot es t = true
  · rw [throwIf, if_pos hinvalid] at h
    cases h
  rw [throwIf, if_neg hinvalid] at h
  dsimp only at h
  rw [Task.solo_bind, solo_entries] at h
  -- each statement before the insertion has to succeed
  by_cases hexpire : ans (.expire t) = true
  · rw [if_pos hexpire] at h
    cases h
  by_cases hfits : ¬ fitsInt64 t = true
  · rw [if_neg hexpire, if_pos hfits] at h
    cases h
  by_cases hselect : ans .selectAll = true
  · rw [if_neg hexpire, if_neg hfits, if_pos hselect] at h
    cases h
  rw [if_neg hexpire, if_neg hfits, if_neg hselect] at h
  dsimp only at h
  rw [Task.solo_bind, solo_insertSnapshot, unlessFails] at h
  by_cases hinsert :
      ans (.insertSnapshot es (discrepancy ((db.reservations.expire t).rows.map Internal.of) es)) =
        true
  · rw [if_pos hinsert] at h
    cases h
  by_cases hamounts : (es.any fun e => ¬ fitsInt64 e.amount) = true
  · rw [if_neg hinsert, if_pos hamounts] at h
    cases h
  rw [if_neg hinsert, if_neg hamounts] at h
  obtain ⟨-, rfl⟩ := Prod.mk.inj h
  exact ⟨by simpa using hinvalid, by simpa using hamounts, rfl⟩

/-- A comparison that nothing disturbs returns whether the rows were off. -/
theorem reconcileAt_undisturbed {clock : Int} (hvalid : invalidSnapshot es t = false)
    (hfits : fitsInt64 t = true) (hamounts : ∀ e ∈ es, fitsInt64 e.amount = true) :
    ((reconcileAt es t).solo ledgerMachine (undisturbed clock) db).1 =
      .ok (discrepancy ((db.reservations.expire t).rows.map Internal.of) es) := by
  have hall : ¬ (es.any fun e => ¬ fitsInt64 e.amount) = true := by simpa using hamounts
  rw [reconcileAt, Task.solo_bind, Task.solo_ofExcept, throwIf, if_neg (by simp [hvalid])]
  dsimp only
  rw [Task.solo_bind, solo_entries]
  simp only [undisturbed, hfits, Bool.false_eq_true, if_false, not_true_eq_false]
  rw [Task.solo_bind, solo_insertSnapshot, unlessFails, if_neg (by simp [undisturbed]), if_neg hall]
  rfl

/-- **A snapshot is adopted**, and the next comparison finds nothing off if all committed rows occur
in it, exactly if no entry has the id of a row that is still reserved and, in the second case, a
committed row with the id of an entry has its amount. -/
theorem reconcile_adopts_iff (h : (reconcile es now?).solo ledgerMachine ans db = (.ok d, db'))
    {t' clock : Int} (hle : now?.getD (ans .now) ≤ t') (hfits : fitsInt64 t' = true) :
    (db'.reservations.Adopts es ∧ (db.reservations.Occurs es →
      ((reconcile es (some t')).solo ledgerMachine (undisturbed clock) db').1 = .ok false)) ↔
    db.reservations.NoneReserved es (now?.getD (ans .now)) ∧
      (db.reservations.Occurs es → db.reservations.SameAmounts es) := by
  rw [solo_reconcile] at h
  generalize now?.getD (ans .now) = t at h hle
  obtain ⟨hvalid, hamounts, hrows⟩ := reconcileAt_eq_ok h
  have hnodup : (es.map LedgerEntry.id).Nodup := by
    simp only [invalidSnapshot, Bool.or_eq_false_iff] at hvalid
    simpa using hvalid.2
  -- a snapshot that was valid stays so at any later time
  have hvalid' : invalidSnapshot es t' = false := by
    simp only [invalidSnapshot, Bool.or_eq_false_iff, List.any_eq_false] at hvalid ⊢
    refine ⟨fun e he => ?_, hvalid.2⟩
    have hentry := hvalid.1 e he
    simp only [Bool.or_eq_true, decide_eq_true_eq, not_or, not_lt, not_le] at hentry ⊢
    exact ⟨⟨hentry.1.1, by omega⟩, hentry.2⟩
  rw [solo_reconcile, Option.getD_some, reconcileAt_undisturbed hvalid' hfits hamounts, hrows,
    Ledger.adopts_iff hnodup, Except.ok.injEq, Ledger.discrepancy_eq_false_iff,
    Ledger.occurs_adopted_iff, Ledger.entries_adopted_iff hnodup]
  tauto

end Reconcile

/-! ### A reservation and a snapshot -/

/-- Ten units, reserved until second 1000. -/
def reservedTen : LedgerDb where
  reservations := ⟨[⟨"r", 100, "SOL", "swing", 10, .reserved, 1000, none⟩], by simp⟩
  discrepancy := none

/-- Another reservation is no obstacle. -/
theorem reconcile_adopts_iff_other :
    ((reconcile [⟨"s", 150, "SOL", "swing", 10⟩] (some 200)).solo ledgerMachine (undisturbed 200)
      reservedTen).2.reservations.Adopts [⟨"s", 150, "SOL", "swing", 10⟩] := by
  have hrun : (reconcile [⟨"s", 150, "SOL", "swing", 10⟩] (some 200)).solo ledgerMachine
      (undisturbed 200) reservedTen = (.ok true, _) := rfl
  have hle : (200 : Int) ≤ 300 := by decide
  refine ((@reconcile_adopts_iff _ _ _ _ _ _ hrun 300 300 hle (by decide)).mpr
    ⟨?_, fun _ => ?_⟩).1
  · unfold Ledger.NoneReserved
    decide
  · unfold Ledger.SameAmounts
    decide

/-- The entry of a reservation is not counted as committed, and is gone when the reservation
expires. -/
theorem reserved_not_adopted :
    (reconcile [⟨"r", 100, "SOL", "swing", 10⟩] (some 200)).solo ledgerMachine (undisturbed 200)
      reservedTen = (.ok true, { reservedTen with discrepancy := some true }) ∧
    ¬ reservedTen.reservations.Committed "r" ∧
    ¬ (reservedTen.reservations.expire 1000).has "r" ∧
    ((reconcile [⟨"r", 100, "SOL", "swing", 10⟩] (some 300)).solo ledgerMachine (undisturbed 300)
      { reservedTen with discrepancy := some true }).1 = .ok true := by
  refine ⟨rfl, by decide, by decide, rfl⟩

end AriOs.Execution
