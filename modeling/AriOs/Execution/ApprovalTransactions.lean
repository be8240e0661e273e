import AriOs.Execution.ApprovalConsumption
import AriOs.Storage.Transaction

/-!
# The transactions of the approval engine

The operations of the approval engine again, this time statement by statement: every one of them
that opens a transaction closes it itself, commits before it reads the request once more, and
rolls back in a handler that also sees what that last reading throws. The audit events are rows
here, since writing one reads the stored binding and may throw.

`consume` rolls back unless the request it finds in its handler is `expired`, which it takes for
the expiry it just committed. A request that was expired before, at a time the clock has gone
back behind, is not that, and the transaction stays open.
-/

namespace AriOs.Execution.Approvals

open AriOs.Js AriOs.Storage

/-! ### Tables -/

/-- A row of `approval_events`. -/
structure AuditRow where
  requestId : String
  event : String
  operatorId : Option String
  reason : Option String
  bindingHash : String
  revision : Int
  createdAt : Int
  deriving DecidableEq, Repr

structure Tables where
  requests : Table RequestRow.id
  decisions : Table DecisionRow.key
  events : List AuditRow

namespace Tables

/-- The tables of requests and decisions. -/
def db (t : Tables) : ApprovalDb := ⟨t.requests, t.decisions, false⟩

/-- These requests and decisions, with the events there are. -/
def withDb (t : Tables) (db : ApprovalDb) : Tables :=
  { t with requests := db.requests, decisions := db.decisions }

/-- `raw`. -/
def raw (t : Tables) (id : String) : Option RequestRow := t.db.raw id

end Tables

/-- An engine, and `JSON.parse` of what it stored: what that returns is plain data, and can be
written again. -/
structure SqlEngine extends Engine where
  parse : String → Option JsValue
  serializable : ∀ {s v}, parse s = some v → ∃ text, canonicalSerialize stringify v = .ok text

namespace SqlEngine

variable (S : SqlEngine)

/-! ### Statements -/

/-- The checks of `map` on the texts of a request. -/
def readTexts (binding tx : String) : Except String Unit := do
  let b ← orThrow (S.parse binding) "Corrupt approval data"
  let tx ← orThrow (S.parse tx) "Corrupt approval data"
  let hash ← S.canonicalHash tx
  throwIf ((b.field "transactionHash").text? ≠ some hash) "Corrupt transaction binding"

/-- `map`. -/
def map (r : RequestRow) : Except String RequestRow := do
  S.readTexts r.binding r.tx
  return r

/-- The hash that an event records of a binding. -/
def bindingHash (binding : String) : Except String String := do
  let b ← orThrow (S.parse binding) "SyntaxError"
  S.canonicalHash b

/-- `event`. -/
def event (id event : String) (operatorId reason : Option String) (binding : String)
    (revision createdAt : Int) : Work Tables Unit := do
  let hash ← Work.check (S.bindingHash binding)
  let t ← Work.tables
  Work.write { t with
    events := t.events ++ [⟨id, event, operatorId, reason, hash, revision, createdAt⟩] }

/-- `expire`: an event is written where the update found the request as it was read. -/
def expire (r : RequestRow) (now : Int) : Work Tables Unit := do
  let t ← Work.tables
  Work.write (t.withDb (t.db.expire r))
  if t.requests.rows.any fun r' => r'.id = r.id ∧ r'.revision = r.revision ∧ r'.status.IsOpen then
    S.event r.id "expired" none (some "deadline reached") r.binding (r.revision + 1) now

/-! ### Operations -/

/-- The transaction of `get`. -/
def expireNow (r : RequestRow) (now : Int) : Work Tables Unit := do
  Work.begin_
  tryCatch (do S.expire r now; Work.commit) fun e => do Work.rollback; throw e

/-- Read a request that is there. -/
def reread (id : String) : Work Tables (Option RequestRow) := do
  let t ← Work.tables
  let r ← Work.check (orThrow (t.raw id) "Cannot read properties of undefined (reading 'status')")
  return some (← Work.check (S.map r))

/-- `get`. The first reading of the clock is compared with the deadline, the second one is the
moment of the expiry. -/
def get (id : String) (now later : Int) : Work Tables (Option RequestRow) := do
  let t ← Work.tables
  match t.raw id with
  | none => return none
  | some r =>
    if r.status.IsOpen ∧ r.expiresAt ≤ now then S.expireNow r later
    S.reread id

def request (input : ApprovalRequestInput) (options : RequestOptions) (challenge : String)
    (clock : Nat → Int) : Work Tables (Option RequestRow) := do
  let row ← Work.check (S.newRequest input options challenge clock)
  let t ← Work.tables
  let db ← Work.check (Engine.insertRequest row t.db)
  Work.write (t.withDb db)
  S.event row.id "created" none none row.binding 0 (clock 1)
  S.get input.id (clock 2) (clock 3)

/-- The checks of `decide` before its transaction. -/
def checkInput (input : DecisionInput) : Except String Unit := do
  text input.nonce "decision nonce" 256
  match input.decision with
  | .other _ => .error "Invalid decision"
  | _ => .ok ()

def decide (id : String) (input : DecisionInput) (clock : Nat → Int) :
    Work Tables (Option RequestRow) := do
  Work.check (checkInput input)
  Work.begin_
  tryCatch (do
      let t ← Work.tables
      let db ← Work.check (S.decideIn id input clock t.db)
      Work.write (t.withDb db)
      match t.raw id with
      | none => throw "Unknown approval"
      | some r =>
        let status := Engine.statusAfter input.decision (db.approvals id) r.quorum
        if status ≠ .pending then
          S.event id status.name (some input.operatorId) input.reason r.binding (r.revision + 1)
            (clock 5)
        Work.commit
        S.get id (clock 4) (clock 6))
    fun e => do
      Work.quietly Work.rollback
      throw e

def revoke (id : String) (input : RevokeInput) (clock : Nat → Int) :
    Work Tables (Option RequestRow) := do
  Work.check (text input.reason "reason" 2048)
  Work.begin_
  tryCatch (do
      let t ← Work.tables
      let db ← Work.check (S.revokeIn id input t.db)
      Work.write (t.withDb db)
      match t.raw id with
      | none => throw "Unknown approval"
      | some r =>
        S.event id "revoked" (some input.operatorId) (some input.reason) r.binding (r.revision + 1)
          (clock 1)
        Work.commit
        S.get id (clock 0) (clock 2))
    fun e => do
      Work.quietly Work.rollback
      throw e

/-- The handler of `consume`: what it finds expired is not rolled back. -/
def closeConsumption (id : String) : Work Tables Unit := do
  let t ← Work.tables
  if (t.raw id).map RequestRow.status ≠ some .expired then Work.rollback

def consume (id : String) (input : BoundTransaction) (clock : Nat → Int) :
    Work Tables (Option RequestRow) := do
  Work.begin_
  tryCatch (do
      let t ← Work.tables
      match t.raw id with
      | none => throw "Unknown approval"
      | some r =>
        if r.expiresAt ≤ clock 0 then
          S.expire r (clock 2)
          Work.commit
          throw "Approval expired"
        Work.check (S.checkConsumption r input)
        Work.write (t.withDb (t.db.advance id .consumed))
        S.event id "consumed" none none r.binding (r.revision + 1) (clock 3)
        Work.commit
        S.get id (clock 1) (clock 4))
    fun e => do
      Work.quietly (closeConsumption id)
      throw e

/-- An operation with its arguments and the readings of the clock it takes. -/
def perform : Command → Work Tables (Option RequestRow)
  | .request input options challenge clock => S.request input options challenge clock
  | .decide id input clock => S.decide id input clock
  | .revoke id input clock => S.revoke id input clock
  | .consume id input clock => S.consume id input clock
  | .get id clock => S.get id (clock 0) (clock 1)

/-! ### When an operation is settled -/

/-- What is stored of a request can be read. -/
def Readable (r : RequestRow) : Prop := S.readTexts r.binding r.tx = .ok ()

/-- The stored binding is JSON. -/
def Parses (r : RequestRow) : Prop := (S.parse r.binding).isSome

/-- What the operation meets in the tables. Where it would write, what is stored of the request can
be read. And `consume` does not meet a request that is `expired` before its deadline. -/
def Meets (t : Tables) : Command → Prop
  | .get _ _ => True
  | .request input options challenge clock => ∀ row,
      S.newRequest input options challenge clock = .ok row →
      (∃ db, Engine.insertRequest row t.db = .ok db) → S.Readable row
  | .decide id input clock => ∀ r db, checkInput input = .ok () → t.raw id = some r →
      S.decideIn id input clock t.db = .ok db →
      (Engine.statusAfter input.decision (db.approvals id) r.quorum = .pending ∨ S.Parses r) →
      S.Readable r
  | .revoke id input _ => ∀ r, text input.reason "reason" 2048 = .ok () → t.raw id = some r →
      (∃ db, S.revokeIn id input t.db = .ok db) → S.Parses r → S.Readable r
  | .consume id input clock => ∀ r, t.raw id = some r →
      (r.expiresAt ≤ clock 0 → r.status.IsOpen → S.Parses r) ∧
      (¬ r.expiresAt ≤ clock 0 → r.status ≠ .expired ∧
        (S.checkConsumption r input = .ok () → S.Parses r → S.Readable r))

end SqlEngine

/-- The tables after the request `r` was found to be past its deadline. -/
def Tables.expired (t : Tables) (r : RequestRow) (hash : String) (now : Int) : Tables :=
  { t.withDb (t.db.expire r) with
    events := t.events ++
      [⟨r.id, "expired", none, some "deadline reached", hash, r.revision + 1, now⟩] }

/-- Nothing but the expiry of one open request was recorded. -/
def ExpiryRecorded (t t' : Tables) : Prop :=
  ∃ r ∈ t.requests.rows, r.status.IsOpen ∧ ∃ hash now, t' = t.expired r hash now

/-- No transaction is open, and an operation that failed left the tables as they were, except for a
recorded expiry. -/
def Settled {α : Type} (t : Tables) (out : Except String α × Connection Tables) : Prop :=
  out.2.saved = none ∧
    ∀ e, out.1 = .error e → out.2.tables = t ∨ ExpiryRecorded t out.2.tables

section Settlement

variable {S : SqlEngine} {t t' : Tables} {id : String} {r : RequestRow} {c : Connection Tables}

/-! ### What the statements do -/

theorem exec_event (id event : String) (operatorId reason : Option String) (binding : String)
    (revision createdAt : Int) :
    (S.event id event operatorId reason binding revision createdAt).exec c =
      match S.bindingHash binding with
      | .ok hash => (.ok (), { c with tables := { c.tables with
          events := c.tables.events ++
            [⟨id, event, operatorId, reason, hash, revision, createdAt⟩] } })
      | .error e => (.error e, c) := by
  rw [SqlEngine.event, Work.exec_bind, Work.exec_check]
  cases S.bindingHash binding <;> rfl

/-- The request that was read is the only one that can be found again. -/
theorem eq_of_same (hr : t.raw id = some r) {r' : RequestRow} (hmem : r' ∈ t.requests.rows)
    (hid : r'.id = r.id) : r' = r := by
  have hfind : t.requests.find? id = some r := hr
  have hself := Table.mem_rows_iff.mp (Table.find?_eq_some_iff.mp hfind).1
  rw [← hid, Table.mem_rows_iff.mp hmem] at hself
  exact Option.some.inj hself

theorem mem_of_raw (hr : t.raw id = some r) : r ∈ t.requests.rows :=
  (Table.find?_eq_some_iff.mp hr).1

theorem any_open (hr : t.raw id = some r) : (t.requests.rows.any fun r' =>
    r'.id = r.id ∧ r'.revision = r.revision ∧ r'.status.IsOpen) = decide r.status.IsOpen := by
  rw [Bool.eq_iff_iff, List.any_eq_true, decide_eq_true_iff]
  constructor
  · rintro ⟨r', hmem, hsame⟩
    rw [decide_eq_true_iff] at hsame
    rw [← eq_of_same hr hmem hsame.1]
    exact hsame.2.2
  · intro hopen
    exact ⟨r, mem_of_raw hr, decide_eq_true ⟨rfl, rfl, hopen⟩⟩

/-- A request that is not open does not expire. -/
theorem expire_of_closed (hr : t.raw id = some r) (hclosed : ¬ r.status.IsOpen) :
    t.withDb (t.db.expire r) = t := by
  have hnone : ∀ r' ∈ t.requests.rows,
      decide (r'.id = r.id ∧ r'.revision = r.revision ∧ r'.status.IsOpen) = false := by
    intro r' hmem
    rw [decide_eq_false_iff_not]
    rintro ⟨hid, -, hopen⟩
    exact hclosed (eq_of_same hr hmem hid ▸ hopen)
  have hrequests : (t.db.expire r).requests = t.requests := by
    rw [ApprovalDb.expire]
    refine Table.update_eq_self ?_ hnone
    exact fun _ => rfl
  rw [Tables.withDb, hrequests]
  rfl

theorem exec_expire {old : Option Tables} (hr : t.raw id = some r) (now : Int) :
    (S.expire r now).exec ⟨t, old⟩ =
      if r.status.IsOpen then
        match S.bindingHash r.binding with
        | .ok hash => (.ok (), ⟨t.expired r hash now, old⟩)
        | .error e => (.error e, ⟨t.withDb (t.db.expire r), old⟩)
      else (.ok (), ⟨t, old⟩) := by
  rw [SqlEngine.expire, Work.exec_bind, Work.exec_tables]
  dsimp only
  rw [Work.exec_bind, Work.exec_write]
  dsimp only
  rw [any_open hr]
  by_cases hopen : r.status.IsOpen
  · simp only [hopen, decide_true, if_true]
    rw [exec_event]
    cases S.bindingHash r.binding <;> rfl
  · rw [expire_of_closed hr hopen]
    simp [hopen]

theorem raw_expired (hr : t.raw id = some r) (hopen : r.status.IsOpen) (hash : String) (now : Int) :
    (t.expired r hash now).raw id = some { r with status := .expired, revision := r.revision + 1 } := by
  have hraw : (t.db.expire r).raw id = _ := raw_expire r id
  rw [show t.db.raw id = some r from hr, Option.map_some, if_pos ⟨rfl, rfl, hopen⟩] at hraw
  exact hraw

theorem exec_reread (hr : t.raw id = some r) : (S.reread id).exec ⟨t, none⟩ =
    ((S.readTexts r.binding r.tx).map fun _ => some r, ⟨t, none⟩) := by
  rw [SqlEngine.reread, Work.exec_bind, Work.exec_tables]
  dsimp only
  rw [hr, Work.exec_bind, Work.exec_check]
  dsimp only [orThrow]
  rw [Work.exec_bind, Work.exec_check, SqlEngine.map]
  cases S.readTexts r.binding r.tx <;> rfl

/-- What can be read can be written into an event. -/
theorem exists_bindingHash (h : S.Parses r) : ∃ hash, S.bindingHash r.binding = .ok hash := by
  obtain ⟨b, hb⟩ := Option.isSome_iff_exists.mp h
  obtain ⟨text, htext⟩ := S.serializable hb
  refine ⟨S.sha256Hex ("approval-v1\x00" ++ text), ?_⟩
  simp only [SqlEngine.bindingHash, Engine.canonicalHash, bind_eq_ok, orThrow_eq_ok]
  exact ⟨b, hb, text, htext, rfl⟩

theorem parses_of_bindingHash {hash : String} (h : S.bindingHash r.binding = .ok hash) :
    S.Parses r := by
  simp only [SqlEngine.bindingHash, bind_eq_ok, orThrow_eq_ok] at h
  obtain ⟨b, hb, -⟩ := h
  exact Option.isSome_iff_exists.mpr ⟨b, hb⟩

theorem SqlEngine.Readable.parses (h : S.Readable r) : S.Parses r := by
  simp only [SqlEngine.Readable, SqlEngine.readTexts, bind_eq_ok, orThrow_eq_ok] at h
  obtain ⟨b, hb, -⟩ := h
  exact Option.isSome_iff_exists.mpr ⟨b, hb⟩

/-- The transaction of `get` is closed: it records the expiry, or nothing. -/
theorem exec_expireNow (hr : t.raw id = some r) (hopen : r.status.IsOpen) (now : Int) :
    (S.expireNow r now).exec ⟨t, none⟩ =
      match S.bindingHash r.binding with
      | .ok hash => (.ok (), ⟨t.expired r hash now, none⟩)
      | .error e => (.error e, ⟨t, none⟩) := by
  rw [SqlEngine.expireNow, Work.exec_bind, Work.exec_begin_closed]
  dsimp only
  rw [Work.exec_tryCatch, Work.exec_bind, exec_expire hr, if_pos hopen]
  cases S.bindingHash r.binding <;> rfl

/-- What reading a request leaves: the tables as they were, or its expiry. -/
def Reread (t t' : Tables) (id : String) : Prop :=
  t' = t ∨ ∃ r hash now, t.raw id = some r ∧ r.status.IsOpen ∧ t' = t.expired r hash now

/-- `get` closes its transaction, records at most the expiry of the request, and returns exactly
if what is stored of the request can be read. -/
theorem exec_get (hr : t.raw id = some r) (now later : Int) : ∃ result t',
    (S.get id now later).exec ⟨t, none⟩ = (result, ⟨t', none⟩) ∧ Reread t t' id ∧
      ((∃ a, result = .ok a) ↔ S.Readable r) := by
  rw [SqlEngine.get, Work.exec_bind, Work.exec_tables]
  dsimp only
  rw [hr]
  dsimp only
  have hmap : ∀ r' : RequestRow, ((∃ a, (S.readTexts r.binding r.tx).map (fun _ => some r') = .ok a) ↔
      S.Readable r) := by
    intro r'
    rw [SqlEngine.Readable]
    cases S.readTexts r.binding r.tx <;> simp [Except.map]
  by_cases hpast : r.status.IsOpen ∧ r.expiresAt ≤ now
  · rw [if_pos hpast, Work.exec_bind, exec_expireNow hr hpast.1]
    cases hhash : S.bindingHash r.binding with
    | ok hash =>
      refine ⟨_, _, exec_reread (raw_expired hr hpast.1 hash later), ?_, hmap _⟩
      exact .inr ⟨r, hash, later, hr, hpast.1, rfl⟩
    | error e =>
      refine ⟨_, t, rfl, .inl rfl, ?_⟩
      -- the binding that could not be hashed cannot be read either
      constructor
      · rintro ⟨a, ha⟩
        cases ha
      · intro hreadable
        obtain ⟨hash, hok⟩ := exists_bindingHash hreadable.parses
        rw [hok] at hhash
        cases hhash
  · rw [if_neg hpast]
    exact ⟨_, t, exec_reread hr, .inl rfl, hmap r⟩

/-! ### Failed operations -/

theorem settled_rolledBack {α : Type} (e : String) :
    Settled t ((.error e : Except String α), ⟨t, none⟩) :=
  ⟨rfl, fun _ _ => .inl rfl⟩

/-- An operation that wrote and committed is settled exactly if it returned. -/
theorem settled_committed_iff {α : Type} {result : Except String α} {P : Prop}
    (hresult : (∃ a, result = .ok a) ↔ P) (hchanged : t' ≠ t) (hother : ¬ ExpiryRecorded t t') :
    Settled t (result, ⟨t', none⟩) ↔ P := by
  rw [← hresult]
  constructor
  · rintro ⟨-, hfailed⟩
    cases result with
    | ok a => exact ⟨a, rfl⟩
    | error e => exact absurd (hfailed e rfl) (not_or.mpr ⟨hchanged, hother⟩)
  · rintro ⟨a, rfl⟩
    exact ⟨rfl, fun e h => nomatch h⟩

theorem length_expire (t : Tables) (r : RequestRow) :
    (t.db.expire r).requests.rows.length = t.requests.rows.length := by
  rw [ApprovalDb.expire, Table.rows_update, List.length_map]
  rfl

/-- An expiry adds no request and no decision, and one event. -/
theorem ExpiryRecorded.counts (h : ExpiryRecorded t t') :
    t'.requests.rows.length = t.requests.rows.length ∧ t'.decisions = t.decisions ∧
      ∃ row, t'.events = t.events ++ [row] ∧ row.event = "expired" := by
  obtain ⟨r, -, -, hash, now, rfl⟩ := h
  exact ⟨length_expire t r, rfl, _, rfl, rfl⟩

theorem Reread.counts (h : Reread t t' id) :
    t'.requests.rows.length = t.requests.rows.length ∧ t'.decisions = t.decisions := by
  obtain rfl | ⟨r, hash, now, hr, hopen, rfl⟩ := h
  · exact ⟨rfl, rfl⟩
  · exact ⟨length_expire t r, rfl⟩

/-- A request that is not open is read without a trace. -/
theorem Reread.eq_of_closed (h : Reread t t' id) (hr : t.raw id = some r)
    (hclosed : ¬ r.status.IsOpen) : t' = t := by
  obtain rfl | ⟨r', hash, now, hr', hopen, -⟩ := h
  · rfl
  · obtain rfl := Option.some.inj (hr.symm.trans hr')
    exact absurd hopen hclosed

/-! ### The operations -/

theorem settled_get_iff (id : String) (clock : Nat → Int) :
    Settled t ((S.perform (.get id clock)).exec ⟨t, none⟩) ↔ S.Meets t (.get id clock) := by
  refine ⟨fun _ => trivial, fun _ => ?_⟩
  change Settled t ((S.get id (clock 0) (clock 1)).exec ⟨t, none⟩)
  cases hr : t.raw id with
  | none =>
    rw [SqlEngine.get, Work.exec_bind, Work.exec_tables]
    dsimp only
    rw [hr]
    exact ⟨rfl, fun e h => nomatch h⟩
  | some r =>
    obtain ⟨result, t', hexec, hreread, -⟩ := exec_get (S := S) hr (clock 0) (clock 1)
    rw [hexec]
    refine ⟨rfl, fun e _ => ?_⟩
    obtain rfl | ⟨r', hash, now, hr', hopen, heq⟩ := hreread
    · exact .inl rfl
    · exact .inr ⟨r', mem_of_raw hr', hopen, hash, now, heq⟩

theorem settled_request_iff (input : ApprovalRequestInput) (options : RequestOptions)
    (challenge : String) (clock : Nat → Int) :
    Settled t ((S.perform (.request input options challenge clock)).exec ⟨t, none⟩) ↔
      S.Meets t (.request input options challenge clock) := by
  change Settled t ((S.request input options challenge clock).exec ⟨t, none⟩) ↔ _
  rw [SqlEngine.request, Work.exec_bind, Work.exec_check]
  cases hnew : S.newRequest input options challenge clock with
  | error e =>
    refine iff_of_true (settled_rolledBack e) fun row hrow => ?_
    rw [hnew] at hrow
    cases hrow
  | ok row =>
    dsimp only
    rw [Work.exec_bind, Work.exec_tables]
    dsimp only
    rw [Work.exec_bind, Work.exec_check]
    cases hinsert : Engine.insertRequest row t.db with
    | error e =>
      refine iff_of_true (settled_rolledBack e) fun row' hrow ⟨db, hdb⟩ => ?_
      obtain rfl := Except.ok.inj (hnew.symm.trans hrow)
      rw [hinsert] at hdb
      cases hdb
    | ok db =>
      have hmeets : S.Meets t (.request input options challenge clock) ↔ S.Readable row := by
        constructor
        · intro h
          exact h row hnew ⟨db, hinsert⟩
        · intro h row' hrow _
          obtain rfl := Except.ok.inj (hnew.symm.trans hrow)
          exact h
      rw [hmeets]
      obtain ⟨requests, hrows, rfl⟩ := insertRequest_eq_ok hinsert
      have hlength : requests.rows.length = t.requests.rows.length + 1 := by
        rw [Table.rows_of_insert? hrows, List.length_append]
        rfl
      have hid : row.id = input.id := (newRequest_cases hnew).1.id.symm
      -- whatever happens from here on, there is one request more
      have hmore : ∀ t' : Tables, t'.requests.rows.length = requests.rows.length →
          t' ≠ t ∧ ¬ ExpiryRecorded t t' := by
        intro t' hlen
        constructor
        · rintro rfl
          omega
        · intro hexpiry
          have := hexpiry.counts.1
          omega
      dsimp only
      rw [Work.exec_bind, Work.exec_write]
      dsimp only
      rw [Work.exec_bind, exec_event]
      cases hhash : S.bindingHash row.binding with
      | error e =>
        obtain ⟨hchanged, hother⟩ := hmore (t.withDb { t.db with requests }) rfl
        refine settled_committed_iff ?_ hchanged hother
        constructor
        · rintro ⟨a, ha⟩
          cases ha
        · intro hreadable
          obtain ⟨hash, hok⟩ := exists_bindingHash hreadable.parses
          rw [hok] at hhash
          cases hhash
      | ok hash =>
        dsimp only
        generalize ht : ({ t.withDb { t.db with requests } with events := _ } : Tables) = t₁
        have hr : t₁.raw input.id = some row := by
          subst ht
          exact (Table.find?_insert? hrows).trans (if_pos hid)
        obtain ⟨result, t', hexec, hreread, hresult⟩ :=
          exec_get (S := S) hr (clock 2) (clock 3)
        rw [hexec]
        have hlen : t'.requests.rows.length = requests.rows.length := by
          rw [hreread.counts.1, ← ht]
          rfl
        exact settled_committed_iff hresult (hmore t' hlen).1 (hmore t' hlen).2

theorem raw_withDb_advance (hr : t.raw id = some r) (db : ApprovalDb)
    (hdb : db.requests = t.requests) (status : ApprovalStatus) :
    (t.withDb (db.advance id status)).raw id =
      some { r with status, revision := r.revision + 1 } := by
  have hraw : db.raw id = some r := by
    rw [ApprovalDb.raw, hdb]
    exact hr
  have hadvance : (db.advance id status).raw id = _ := raw_advance status id
  rw [hraw, Option.map_some, if_pos (raw_id hraw)] at hadvance
  exact hadvance

/-- The tables with one event more. -/
def Tables.addEvent (t : Tables) (row : AuditRow) : Tables := { t with events := t.events ++ [row] }

section Tail

variable {t₁ : Tables} {cleanUp : Work Tables Unit}

/-- What follows the commit is read on a connection without a transaction, and the handler finds
nothing to roll back. -/
theorem settled_commit_get_iff (hr : t₁.raw id = some r) (now later : Int)
    (hmore : ∀ t', Reread t₁ t' id → t' ≠ t ∧ ¬ ExpiryRecorded t t')
    (hclosed : ∀ t', (cleanUp.exec ⟨t', none⟩).2 = ⟨t', none⟩) :
    Settled t (Work.cleanedUp ((do Work.commit; S.get id now later : Work Tables _).exec
      ⟨t₁, some t⟩) cleanUp) ↔ S.Readable r := by
  obtain ⟨result, t', hexec, hreread, hresult⟩ := exec_get (S := S) hr now later
  rw [Work.exec_bind, Work.exec_commit_open]
  dsimp only
  rw [hexec]
  obtain ⟨hchanged, hother⟩ := hmore t' hreread
  cases result with
  | ok a => exact settled_committed_iff hresult hchanged hother
  | error e =>
    rw [Work.cleanedUp, hclosed]
    exact settled_committed_iff hresult hchanged hother

/-- The same with an event before the commit: a binding that is not JSON throws while there is
something to roll back. -/
theorem settled_event_get_iff {event : String} {operatorId reason : Option String}
    {binding : String} {revision createdAt : Int} (hr : t₁.raw id = some r)
    (hbinding : binding = r.binding) (now later : Int)
    (hmore : ∀ hash t', Reread (t₁.addEvent ⟨id, event, operatorId, reason, hash, revision,
      createdAt⟩) t' id → t' ≠ t ∧ ¬ ExpiryRecorded t t')
    (hopen : (cleanUp.exec ⟨t₁, some t⟩).2 = ⟨t, none⟩)
    (hclosed : ∀ t', (cleanUp.exec ⟨t', none⟩).2 = ⟨t', none⟩) :
    Settled t (Work.cleanedUp ((do
        S.event id event operatorId reason binding revision createdAt
        Work.commit
        S.get id now later : Work Tables _).exec ⟨t₁, some t⟩) cleanUp) ↔
      (S.Parses r → S.Readable r) := by
  subst hbinding
  rw [Work.exec_bind, exec_event]
  cases hhash : S.bindingHash r.binding with
  | error e =>
    rw [Work.cleanedUp, hopen]
    refine iff_of_true (settled_rolledBack e) fun hparses => ?_
    obtain ⟨hash, hok⟩ := exists_bindingHash hparses
    rw [hok] at hhash
    cases hhash
  | ok hash =>
    rw [forall_prop_of_true (parses_of_bindingHash hhash)]
    -- an event leaves the rows as they are
    have hrow : ∀ event, (t₁.addEvent event).raw id = some r := fun _ => hr
    exact settled_commit_get_iff (hrow _) now later (hmore hash) hclosed

end Tail

theorem settled_decide_iff (id : String) (input : DecisionInput) (clock : Nat → Int) :
    Settled t ((S.perform (.decide id input clock)).exec ⟨t, none⟩) ↔
      S.Meets t (.decide id input clock) := by
  change Settled t ((S.decide id input clock).exec ⟨t, none⟩) ↔ _
  rw [SqlEngine.decide, Work.exec_bind, Work.exec_check]
  cases hinput : SqlEngine.checkInput input with
  | error e =>
    refine iff_of_true (settled_rolledBack e) fun r db hok => ?_
    rw [hinput] at hok
    cases hok
  | ok u =>
    dsimp only
    rw [Work.exec_bind, Work.exec_begin_closed]
    dsimp only
    rw [Work.exec_guarded, Work.exec_bind, Work.exec_tables]
    dsimp only
    rw [Work.exec_bind, Work.exec_check]
    cases hdecide : S.decideIn id input clock t.db with
    | error e =>
      refine iff_of_true (settled_rolledBack e) fun r db _ _ hdb => ?_
      rw [hdecide] at hdb
      cases hdb
    | ok db =>
      obtain ⟨r, row, db₁, hr, -, -, -, -, -, -, -, hinsert, rfl⟩ := decideIn_cases hdecide
      obtain ⟨decisions, hrows, rfl⟩ := insertDecision_eq_ok hinsert
      replace hr : t.raw id = some r := hr
      have hlength : decisions.rows.length = t.decisions.rows.length + 1 := by
        rw [Table.rows_of_insert? hrows, List.length_append]
        rfl
      -- whatever happens after the commit, there is one decision more
      have hmore : ∀ t' : Tables, t'.decisions = decisions → t' ≠ t ∧ ¬ ExpiryRecorded t t' := by
        rintro t' rfl
        constructor
        · rintro rfl
          omega
        · intro hexpiry
          rw [hexpiry.counts.2.1] at hlength
          omega
      dsimp only
      rw [Work.exec_bind, Work.exec_write]
      dsimp only
      rw [hr]
      dsimp only
      have happrovals : (ApprovalDb.advance { t.db with decisions } id (Engine.statusAfter
          input.decision (ApprovalDb.approvals { t.db with decisions } id) r.quorum)).approvals id =
          ApprovalDb.approvals { t.db with decisions } id := rfl
      rw [happrovals]
      generalize hstatus : Engine.statusAfter input.decision
        (ApprovalDb.approvals { t.db with decisions } id) r.quorum = status
      have hraw := raw_withDb_advance hr { t.db with decisions } rfl status
      generalize ht₁ : t.withDb (ApprovalDb.advance { t.db with decisions } id status) = t₁ at hraw
      have hdecisions : t₁.decisions = decisions := by
        rw [← ht₁]
        rfl
      -- only the event of a decision that closes the request needs its binding
      have hmeets : S.Meets t (.decide id input clock) ↔
          (status = .pending ∨ S.Parses r → S.Readable r) := by
        constructor
        · intro h hparses
          refine h r _ hinput hr hdecide ?_
          rw [happrovals, hstatus]
          exact hparses
        · intro h r' db' _ hr' hdb hparses
          obtain rfl := Option.some.inj (hr.symm.trans hr')
          obtain rfl := Except.ok.inj (hdecide.symm.trans hdb)
          rw [happrovals, hstatus] at hparses
          exact h hparses
      rw [hmeets]
      by_cases hpending : status = .pending
      · rw [if_neg (not_not.mpr hpending), forall_prop_of_true (.inl hpending)]
        refine settled_commit_get_iff hraw (clock 4) (clock 6) (fun t' hreread => ?_) ?_
        · exact hmore t' (hreread.counts.2.trans hdecisions)
        · exact fun _ => rfl
      · rw [if_pos hpending, or_iff_right hpending]
        refine settled_event_get_iff hraw rfl (clock 4) (clock 6) (fun hash t' hreread => ?_) ?_ ?_
        · exact hmore t' (hreread.counts.2.trans hdecisions)
        · rfl
        · exact fun _ => rfl

/-- An event that is no expiry stays. -/
theorem not_expiryRecorded_of_event {row : AuditRow} (hevents : t'.events = t.events ++ [row])
    (hname : row.event ≠ "expired") : t' ≠ t ∧ ¬ ExpiryRecorded t t' := by
  constructor
  · rintro rfl
    simp at hevents
  · intro hexpiry
    obtain ⟨-, -, row', hrow', hexpired⟩ := hexpiry.counts
    rw [hevents, List.append_cancel_left_eq, List.singleton_inj] at hrow'
    exact hname (hrow' ▸ hexpired)

theorem settled_revoke_iff (id : String) (input : RevokeInput) (clock : Nat → Int) :
    Settled t ((S.perform (.revoke id input clock)).exec ⟨t, none⟩) ↔
      S.Meets t (.revoke id input clock) := by
  change Settled t ((S.revoke id input clock).exec ⟨t, none⟩) ↔ _
  rw [SqlEngine.revoke, Work.exec_bind, Work.exec_check]
  cases hreason : text input.reason "reason" 2048 with
  | error e =>
    refine iff_of_true (settled_rolledBack e) fun r hok => ?_
    rw [hreason] at hok
    cases hok
  | ok u =>
    dsimp only
    rw [Work.exec_bind, Work.exec_begin_closed]
    dsimp only
    rw [Work.exec_guarded, Work.exec_bind, Work.exec_tables]
    dsimp only
    rw [Work.exec_bind, Work.exec_check]
    cases hrevoke : S.revokeIn id input t.db with
    | error e =>
      refine iff_of_true (settled_rolledBack e) fun r _ _ ⟨db, hdb⟩ => ?_
      rw [hrevoke] at hdb
      cases hdb
    | ok db =>
      obtain ⟨r, hr, -, rfl⟩ := revokeIn_cases hrevoke
      replace hr : t.raw id = some r := hr
      -- the event needs the binding, and the row is read back at the end
      have hmeets : S.Meets t (.revoke id input clock) ↔ (S.Parses r → S.Readable r) := by
        constructor
        · exact fun h => h r hreason hr ⟨_, hrevoke⟩
        · intro h r' _ hr' _
          obtain rfl := Option.some.inj (hr.symm.trans hr')
          exact h
      rw [hmeets]
      dsimp only
      rw [Work.exec_bind, Work.exec_write]
      dsimp only
      rw [hr]
      have hraw := raw_withDb_advance hr t.db rfl .revoked
      refine settled_event_get_iff hraw rfl (clock 0) (clock 2) (fun hash t' hreread => ?_) ?_ ?_
      · obtain rfl := hreread.eq_of_closed hraw (by simp [ApprovalStatus.IsOpen])
        exact not_expiryRecorded_of_event rfl (by simp)
      · rfl
      · exact fun _ => rfl

/-- The handler of `consume`: the connection is left alone where the request is `expired`, or where
no transaction is open. -/
theorem exec_closeConsumption {old : Option Tables} (id : String) :
    ((SqlEngine.closeConsumption id).exec ⟨t, old⟩).2 =
      if (t.raw id).map RequestRow.status = some .expired then ⟨t, old⟩ else ⟨old.getD t, none⟩ := by
  rw [SqlEngine.closeConsumption, Work.exec_bind, Work.exec_tables]
  dsimp only
  by_cases hexpired : (t.raw id).map RequestRow.status = some .expired
  · rw [if_neg (not_not.mpr hexpired), if_pos hexpired]
    rfl
  · rw [if_pos hexpired, if_neg hexpired]
    cases old <;> rfl

theorem exec_closeConsumption_closed (id : String) :
    ((SqlEngine.closeConsumption id).exec ⟨t, none⟩).2 = ⟨t, none⟩ := by
  rw [exec_closeConsumption]
  split <;> rfl

theorem settled_consume_iff (id : String) (input : BoundTransaction) (clock : Nat → Int) :
    Settled t ((S.perform (.consume id input clock)).exec ⟨t, none⟩) ↔
      S.Meets t (.consume id input clock) := by
  change Settled t ((S.consume id input clock).exec ⟨t, none⟩) ↔ _
  rw [SqlEngine.consume, Work.exec_bind, Work.exec_begin_closed]
  dsimp only
  rw [Work.exec_guarded, Work.exec_bind, Work.exec_tables]
  dsimp only
  cases hr : t.raw id with
  | none =>
    rw [Work.exec_throw, Work.cleanedUp, exec_closeConsumption, hr]
    refine iff_of_true (settled_rolledBack _) fun r hr' => ?_
    rw [hr] at hr'
    cases hr'
  | some r =>
    have hmeets : S.Meets t (.consume id input clock) ↔
        (r.expiresAt ≤ clock 0 → r.status.IsOpen → S.Parses r) ∧
        (¬ r.expiresAt ≤ clock 0 → r.status ≠ .expired ∧
          (S.checkConsumption r input = .ok () → S.Parses r → S.Readable r)) := by
      constructor
      · exact fun h => h r hr
      · intro h r' hr'
        obtain rfl := Option.some.inj (hr.symm.trans hr')
        exact h
    rw [hmeets]
    dsimp only
    by_cases hpast : r.expiresAt ≤ clock 0
    · -- past its time the request is expired first, and the transaction committed with that
      rw [if_pos hpast, Work.exec_bind, exec_expire hr]
      simp only [hpast, true_implies, not_true_eq_false, false_implies, and_true]
      by_cases hopen : r.status.IsOpen
      · rw [if_pos hopen, forall_prop_of_true hopen]
        cases hhash : S.bindingHash r.binding with
        | ok hash =>
          refine iff_of_true ?_ (parses_of_bindingHash hhash)
          dsimp only
          rw [Work.exec_bind, Work.exec_commit_open]
          dsimp only
          rw [Work.exec_bind, Work.exec_throw, Work.cleanedUp, exec_closeConsumption_closed]
          exact ⟨rfl, fun _ _ => .inr ⟨r, mem_of_raw hr, hopen, hash, clock 2, rfl⟩⟩
        | error e =>
          -- the update was made, the event was not, and the handler takes it for a commit
          have hexpired : ((t.withDb (t.db.expire r)).raw id).map RequestRow.status =
              some .expired := by
            have hraw := raw_expired hr hopen "" 0
            exact congrArg (Option.map RequestRow.status) hraw
          rw [Work.cleanedUp, exec_closeConsumption, if_pos hexpired]
          refine iff_of_false (fun h => by cases h.1) fun hparses => ?_
          obtain ⟨hash, hok⟩ := exists_bindingHash hparses
          rw [hok] at hhash
          cases hhash
      · refine iff_of_true ?_ fun h => absurd h hopen
        rw [if_neg hopen]
        dsimp only
        rw [Work.exec_bind, Work.exec_commit_open]
        dsimp only
        rw [Work.exec_bind, Work.exec_throw, Work.cleanedUp, exec_closeConsumption_closed]
        exact settled_rolledBack _
    · -- in time: the checks come before the first write
      rw [if_neg hpast, Work.exec_bind, Work.exec_check]
      simp only [hpast, false_implies, true_and, not_false_eq_true, true_implies]
      cases hcheck : S.checkConsumption r input with
      | error e =>
        rw [Work.cleanedUp, exec_closeConsumption, hr, Option.map_some]
        by_cases hexpired : r.status = .expired
        · -- the request was expired before, and nothing closes the transaction
          rw [if_pos (congrArg some hexpired)]
          exact iff_of_false (fun h => by cases h.1) fun h => h.1 hexpired
        · rw [if_neg fun h => hexpired (Option.some.inj h)]
          exact iff_of_true (settled_rolledBack e) ⟨hexpired, fun h => by cases h⟩
      | ok u =>
        have happroved : r.status = .approved := by
          simp only [Engine.checkConsumption, bind_eq_ok, throwIf_eq_ok, not_not] at hcheck
          obtain ⟨-, hstatus, -⟩ := hcheck
          exact hstatus
        have hraw := raw_withDb_advance hr t.db rfl .consumed
        have hlive : r.status ≠ .expired := by simp [happroved]
        simp only [hlive, ne_eq, not_false_eq_true, true_and, true_implies]
        rw [Work.exec_bind, Work.exec_write]
        dsimp only
        -- the update, its event and the row read back: each may still fail
        refine settled_event_get_iff hraw rfl (clock 1) (clock 4) (fun hash t' hreread => ?_) ?_ ?_
        · obtain rfl := hreread.eq_of_closed hraw (by simp [ApprovalStatus.IsOpen])
          exact not_expiryRecorded_of_event rfl (by simp)
        · rw [exec_closeConsumption, hraw, if_neg (by simp)]
          rfl
        · exact fun t' => exec_closeConsumption_closed id

/-! ### Every operation, in every state -/

/-- The connection after some operations. -/
def SqlEngine.after (S : SqlEngine) (t : Tables) (commands : List Command) : Connection Tables :=
  commands.foldl (fun c command => ((S.perform command).exec c).2) ⟨t, none⟩

theorem settled_perform_iff (S : SqlEngine) (t : Tables) (command : Command) :
    Settled t ((S.perform command).exec ⟨t, none⟩) ↔ S.Meets t command := by
  cases command with
  | request input options challenge clock => exact settled_request_iff input options challenge clock
  | decide id input clock => exact settled_decide_iff id input clock
  | revoke id input clock => exact settled_revoke_iff id input clock
  | consume id input clock => exact settled_consume_iff id input clock
  | get id clock => exact settled_get_iff id clock

/-- An operation on a connection without a transaction leaves none open, and the tables as they
were where it fails, exactly if what it meets in the tables is as it should be. So no operation
of a run ever finds a transaction open, as long as that goes for all before it. -/
theorem settled_iff (S : SqlEngine) (t : Tables) :
    (∀ command, Settled t ((S.perform command).exec ⟨t, none⟩) ↔ S.Meets t command) ∧
    ∀ commands, (∀ before command after, commands = before ++ command :: after →
      S.Meets (S.after t before).tables command) → (S.after t commands).saved = none := by
  refine ⟨settled_perform_iff S t, fun commands => ?_⟩
  induction commands using List.reverseRecOn with
  | nil => exact fun _ => rfl
  | append_singleton commands command ih =>
    intro hmeets
    have hclosed : (S.after t commands).saved = none := by
      refine ih fun before command' after heq => hmeets before command' (after ++ [command]) ?_
      rw [heq, List.append_assoc, List.cons_append]
    have hlast := hmeets commands command [] rfl
    rw [SqlEngine.after, List.foldl_append, ← SqlEngine.after]
    have hconnection : S.after t commands = ⟨(S.after t commands).tables, none⟩ := by
      rw [← hclosed]
    rw [hconnection]
    exact ((settled_perform_iff S _ command).mpr hlast).1

end Settlement

/-! ### A clock that goes back -/

/-- A transaction of nothing. -/
def emptyTransaction : JsValue :=
  .object [("to", .string "p"), ("data", .string "d"), ("value", .string "0"), ("nonce", .string "h")]

def emptyBound : BoundTransaction where
  chain := "devnet"
  serializedTransaction := emptyTransaction
  intentHash := "intent"
  policyHash := "policy"
  policyVersion := "1"
  simulationHash := "simulation"
  simulationBlock := "1"
  simulationState := "hash"
  account := "payer"
  nonce := "hash"
  value := "0"
  calldata := "d"
  router := "p"

/-- One operator, on a host whose hash and JSON are those of the texts below. -/
def emptyEngine : Engine where
  operators := (Table.empty.insert? ⟨"operator", ["approver"], ["*"]⟩).getD .empty
  configVersion := "1"
  configHash := "config"
  verifyDecisionProof := fun _ => true
  stringify := { string := fun s => "\"" ++ s ++ "\"", number := fun q => toString q.num }
  sha256Hex := fun _ => "ab"

def emptyRequest : ApprovalRequestInput :=
  { emptyBound with
    id := "a1", type := .sign, proposerId := "proposer", expiresAt := .ofInt 100
    displayImpact := none }

def emptyBinding : JsValue := (emptyEngine.boundKeys emptyBound).toOption.getD .null

/-- The text of a value of the example. -/
def emptyText (v : JsValue) : String :=
  (canonicalSerialize emptyEngine.stringify v).toOption.getD ""

def emptySql : SqlEngine :=
  { emptyEngine with
    parse := fun s =>
      if s = emptyText emptyBinding then some emptyBinding
      else if s = emptyText emptyTransaction then some emptyTransaction else none
    serializable := by
      intro s v h
      split at h
      · cases h
        exact ⟨_, rfl⟩
      · split at h
        · cases h
          exact ⟨_, rfl⟩
        · cases h }

/-- A request that is found to be expired at 200. -/
def expiredAt200 : List Command := [
  .request emptyRequest ⟨.ofInt 1, false⟩ "challenge" fun _ => 0,
  .get "a1" fun _ => 200]

/-- Consumed at 50, it leaves the transaction open. -/
def consumedAt50 : Command := .consume "a1" emptyBound fun _ => 50

theorem consume_leaves_open :
    ¬ (∀ (S : SqlEngine) (t : Tables) (command : Command),
      Settled t ((S.perform command).exec ⟨t, none⟩)) ∧
    ¬ ∀ (S : SqlEngine) (commands : List Command),
      (S.after ⟨.empty, .empty, []⟩ commands).saved = none := by
  constructor
  · intro h
    have hopen : ((emptySql.perform consumedAt50).exec
        ⟨(emptySql.after ⟨.empty, .empty, []⟩ expiredAt200).tables, none⟩).2.saved.isSome = true := by
      decide +kernel
    rw [(h emptySql _ consumedAt50).1] at hopen
    cases hopen
  · intro h
    have hopen : (emptySql.after ⟨.empty, .empty, []⟩
        (expiredAt200 ++ [consumedAt50])).saved.isSome = true := by
      decide +kernel
    rw [h] at hopen
    cases hopen

end AriOs.Execution.Approvals
