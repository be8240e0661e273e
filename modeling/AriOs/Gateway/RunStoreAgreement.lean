import AriOs.Async.Transition
import AriOs.Gateway.DurableRuns
import AriOs.Storage.Retention
import Mathlib.Data.List.Find

/-!
# The two stores of runs

Both stores are given the same calls. They answer alike, and keep the same runs with the same
events, as long as no call reaches what only one of them does: the one in memory leaves out
sensitive fields of what a run emits, overwrites runs and keys that are there, keeps the subject of
a run, confuses tenants and keys that make up one text, and counts the events it keeps; the one in
the database does none of these, keeps no more of a value than JSON does, and throws where a run is
missing.
-/

namespace AriOs.Gateway.Api

open AriOs.Async AriOs.Js AriOs.Storage

/-! ### Data that both stores keep as it is -/

mutual

/-- No object in the value has a field with a sensitive key. -/
def Insensitive : JsValue → Prop
  | .array items => ItemsInsensitive items
  | .object fields => FieldsInsensitive fields
  | _ => True

def ItemsInsensitive : List JsValue → Prop
  | [] => True
  | v :: vs => Insensitive v ∧ ItemsInsensitive vs

def FieldsInsensitive : List (String × JsValue) → Prop
  | [] => True
  | (k, v) :: fields => isSensitive k = false ∧ Insensitive v ∧ FieldsInsensitive fields

end

mutual

theorem safe_eq_self : ∀ {v : JsValue}, Insensitive v → safe v = v
  | .array _, h => by rw [safe, safeItems_eq_self h]
  | .object _, h => by rw [safe, safeFields_eq_self h]
  | .undefined, _ | .null, _ | .bool _, _ | .number _, _ | .bigint _, _ | .string _, _
  | .other, _ => rfl

theorem safeItems_eq_self : ∀ {items : List JsValue}, ItemsInsensitive items →
    safeItems items = items
  | [], _ => rfl
  | v :: vs, h => by rw [safeItems, safe_eq_self h.1, safeItems_eq_self h.2]

theorem safeFields_eq_self : ∀ {fields : List (String × JsValue)}, FieldsInsensitive fields →
    safeFields fields = fields
  | [], _ => rfl
  | (k, v) :: fields, h => by
    rw [safeFields, if_neg (by rw [h.1]; decide), safe_eq_self h.2.1, safeFields_eq_self h.2.2]

end

mutual

theorem hasBigint_eq_false : ∀ {v : JsValue}, v.IsJson → hasBigint v = false
  | .array _, h => itemsHaveBigint_eq_false h
  | .object _, h => fieldsHaveBigint_eq_false h.2
  | .null, _ | .bool _, _ | .string _, _ | .number _, _ => rfl

theorem itemsHaveBigint_eq_false : ∀ {items : List JsValue}, JsValue.ItemsJson items →
    itemsHaveBigint items = false
  | [], _ => rfl
  | v :: vs, h => by
    rw [itemsHaveBigint, hasBigint_eq_false h.1, itemsHaveBigint_eq_false h.2, Bool.false_or]

theorem fieldsHaveBigint_eq_false : ∀ {fields : List (String × JsValue)},
    JsValue.FieldsJson fields → fieldsHaveBigint fields = false
  | [], _ => rfl
  | (k, v) :: fields, h => by
    rw [fieldsHaveBigint, hasBigint_eq_false h.1, fieldsHaveBigint_eq_false h.2, Bool.false_or]

end

/-- A JSON value is read back as it was. -/
theorem dataJson_eq {v : JsValue} (h : v.IsJson) : dataJson v = .ok v := by
  simp [dataJson, hasBigint_eq_false h, h.jsonRoundTrip_eq]

/-! ### Rows -/

section Rows

variable {κ ρ : Type} [DecidableEq κ] {key : ρ → κ} {t : Table key} {row : ρ}

theorem exists_insert?_eq_some (h : t.find? (key row) = none) :
    ∃ t', t.insert? row = some t' ∧ t'.rows = t.rows ++ [row] := by
  cases hinsert : t.insert? row with
  | none =>
    have hthere := Table.insert?_eq_none_iff.mp hinsert
    rw [h] at hthere
    cases hthere
  | some t' => exact ⟨t', rfl, Table.rows_of_insert? hinsert⟩

theorem rows_insertOrIgnore (h : t.find? (key row) = none) :
    (insertOrIgnore t row).rows = t.rows ++ [row] := by
  obtain ⟨t', hinsert, hrows⟩ := exists_insert?_eq_some h
  rw [insertOrIgnore, hinsert, Option.getD_some, hrows]

end Rows

/-- A change of a run that is kept, row by row. -/
theorem rows_change {m : MemoryRunStore} {id : String} {f : Run → Run} :
    (m.change id f).runs.rows =
      m.runs.rows.map fun e => if e.1 = id then (e.1, f e.2) else e := by
  unfold MemoryRunStore.change
  cases hget : m.runs.get id with
  | none =>
    refine ((List.map_congr_left fun e he => if_neg ?_).trans (List.map_id'' (fun _ => rfl) _)).symm
    rintro rfl
    rw [OrderedMap.mem_rows_iff_get, hget] at he
    cases he
  | some r =>
    rw [OrderedMap.rows_set_of_get_eq_some hget]
    refine List.map_congr_left fun e he => ?_
    by_cases hid : e.1 = id
    · rw [OrderedMap.mem_rows_iff_get, hid, hget, Option.some_inj] at he
      rw [if_pos hid, if_pos hid, hid, he]
    · rw [if_neg hid, if_neg hid]

/-- The memory counts the events it keeps. -/
theorem MemoryRunStore.retained_eq_rtake {retention : Nat} {events : List RunEvent} {type : String}
    {data : JsValue} : MemoryRunStore.retained retention events type data =
      (events ++ [RunEvent.mk ((events.getLast?.map RunEvent.id).getD 0 + 1) type
        (safe data)]).rtake retention := by
  rw [MemoryRunStore.retained, List.rtake]
  split
  · rfl
  · rename_i hfew
    rw [Nat.sub_eq_zero_of_le (not_lt.mp hfew), List.drop_zero]

/-! ### Calls that both stores answer alike -/

/-- A run, with its subject or without; the tables have no column for it. -/
def Run.shown (subjects : Bool) (r : Run) : Run := if subjects then r else { r with subject := none }

def Answer.shown (subjects : Bool) : Answer → Answer
  | .run r => .run (r.map (Run.shown subjects))
  | a => a

/-- A call that reaches nothing of what only one of the stores does. A run that is created is new
and has no subject, where subjects count; it comes with no more events than are kept, in order. Its
key is new as a text, and so is every other request apart from those that are kept. What is emitted
is JSON without sensitive fields, for a run that is there, and the events to keep are numbered
closely. -/
def SharedOf (subjects : Bool) (d : DurableRunStore) : Op → Prop
  | .create r key =>
    d.runs.find? r.id = none ∧ (subjects = true → r.subject = none) ∧
      (r.events.map RunEvent.id).Pairwise (· < ·) ∧ r.events.length ≤ d.retention ∧
      (∀ e ∈ r.events, e.data.IsJson) ∧
      (key.getD "" ≠ "" → r.id ≠ "" ∧ ∀ row ∈ d.idempotency.rows,
        joined row.tenantId row.key ≠ joined r.tenantId (key.getD ""))
  | .idempotent tenant key => ∀ row ∈ d.idempotency.rows,
      joined row.tenantId row.key = joined tenant key → row.tenantId = tenant ∧ row.key = key
  | .emit id _ data =>
    d.runs.find? id ≠ none ∧ data.IsJson ∧ Insensitive data ∧
      ∀ e ∈ (d.eventsOf id).rtake (d.retention - 1), d.maxSequence id + 1 - d.retention < e.id
  | .get .. | .active _ | .setStatus .. => True

def Shared : DurableRunStore → Op → Prop := SharedOf true

/-- What a call adds to the events of a run. -/
def Op.log (id : String) (log : List RunEvent) : Op → List RunEvent
  | .create r _ => if r.id = id then r.events else log
  | .emit i type data =>
    if i = id then log ++ [⟨(log.getLast?.map RunEvent.id).getD 0 + 1, type, safe data⟩] else log
  | _ => log

/-- All events of a run, those that are not kept any more too. -/
def logged (ops : List Op) (id : String) : List RunEvent := ops.foldl (Op.log id) []

/-- Both stores. -/
abbrev Stores := MemoryRunStore × DurableRunStore

def Stores.step (s : Stores) (op : Op) : Stores := ((s.1.perform op).1, (s.2.perform op).1)

def Stores.start (retention : Nat) : Stores := (.empty retention, .empty retention)

def Stores.run (retention : Nat) (ops : List Op) : Stores :=
  Transition.run Stores.step (.start retention) ops

/-- After any number of the calls the stores find the same runs, with the last events of each in
the order of their numbers, and the next call is answered alike. -/
def AlikeOf (subjects : Bool) (retention : Nat) (ops : List Op) : Prop :=
  ∀ before after, ops = before ++ after →
    (∀ op later, after = op :: later →
      ((Stores.run retention before).2.perform op).2 =
        .ok (((Stores.run retention before).1.perform op).2.shown subjects)) ∧
    ∀ id tenant, (Stores.run retention before).2.get id tenant =
        ((Stores.run retention before).1.get id tenant).map (Run.shown subjects) ∧
      ∀ r ∈ (Stores.run retention before).2.get id tenant,
        (r.events.map RunEvent.id).Pairwise (· < ·) ∧
          r.events = (logged before id).rtake retention

def Alike : Nat → List Op → Prop := AlikeOf true

/-! ### Agreement -/

def RunRow.of (r : Run) : RunRow := ⟨r.id, r.tenantId, r.sessionId, r.status, r.createdAt⟩

/-- The stores at the same point of a run, when these are all events. -/
structure Agrees (subjects : Bool) (m : MemoryRunStore) (d : DurableRunStore)
    (log : String → List RunEvent) : Prop where
  retention : m.retention = d.retention
  ids : ∀ e ∈ m.runs.rows, e.2.id = e.1
  rows : d.runs.rows = m.runs.rows.map fun e => RunRow.of e.2
  events : ∀ id, d.eventsOf id = ((m.runs.get id).map Run.events).getD []
  subjects : subjects = true → ∀ id r, m.runs.get id = some r → r.subject = none
  rising : ∀ id r, m.runs.get id = some r → (r.events.map RunEvent.id).Pairwise (· < ·)
  kept : ∀ id r, m.runs.get id = some r → r.events = (log id).rtake d.retention
  filed : ∀ row ∈ d.idempotency.rows, row.runId ≠ "" ∧
    m.keys.get (joined row.tenantId row.key) = some row.runId ∧
    ∃ r, m.runs.get row.runId = some r ∧ r.tenantId = row.tenantId
  found : ∀ text id, m.keys.get text = some id →
    ∃ row ∈ d.idempotency.rows, joined row.tenantId row.key = text

variable {subjects : Bool} {m m' : MemoryRunStore} {d d' : DurableRunStore}
  {log log' : String → List RunEvent}
  {id i tenant : String} {r : Run}

theorem agrees_empty (n : Nat) : Agrees subjects (.empty n) (.empty n) fun _ => [] := by
  constructor
  case retention => exact rfl
  case ids =>
    intro e he
    cases he
  case rows => exact rfl
  case events => exact fun _ => rfl
  case subjects =>
    intro _ id r hget
    cases hget
  case rising =>
    intro id r hget
    cases hget
  case kept =>
    intro id r hget
    cases hget
  case filed =>
    intro row hrow
    cases hrow
  case found =>
    intro text id hget
    cases hget

namespace Agrees

theorem find?_eq (h : Agrees subjects m d log) : d.runs.find? id = (m.runs.get id).map RunRow.of := by
  rw [Table.find?, h.rows, List.find?_map]
  have hsame : m.runs.rows.find? ((fun row : RunRow => decide (row.id = id)) ∘
      fun e => RunRow.of e.2) = m.runs.find? id := by
    refine List.find?_congr fun e he => ?_
    rw [Function.comp_apply, RunRow.of, h.ids e he]
  rw [hsame, OrderedMap.get, Option.map_map]
  rfl

/-- The stores find the same runs. -/
theorem get_eq (h : Agrees subjects m d log) :
    d.get id tenant = (m.get id tenant).map (Run.shown subjects) := by
  unfold DurableRunStore.get MemoryRunStore.get
  rw [h.find?_eq, h.events]
  cases hget : m.runs.get id with
  | none => rfl
  | some r =>
    have hsorted : r.events.insertionSort (fun a b => a.id ≤ b.id) = r.events :=
      List.Pairwise.insertionSort_eq
        ((List.pairwise_map.mp (h.rising id r hget)).imp fun hlt => hlt.le)
    have hshown : r.shown subjects = { r with subject := none } := by
      cases subjects with
      | false => rfl
      | true => rw [← h.subjects rfl id r hget]; rfl
    simp only [Option.map_some, Option.getD_some, Option.filter, RunRow.of, hsorted]
    split
    · exact congrArg some hshown.symm
    · rfl

theorem active_eq (h : Agrees subjects m d log) : d.active tenant = m.active tenant := by
  rw [DurableRunStore.active, Table.count, h.rows, List.countP_map]
  rfl

/-- A request that is not taken for another one is answered alike. -/
theorem idempotent_eq (h : Agrees subjects m d log) {key : String}
    (hshared : SharedOf subjects d (.idempotent tenant key)) :
    d.idempotent tenant key = (m.idempotent tenant key).map (Run.shown subjects) := by
  unfold DurableRunStore.idempotent MemoryRunStore.idempotent RunStore.idempotent
  cases hfind : d.idempotency.find? (tenant, key) with
  | some row =>
    obtain ⟨hmem, hkey⟩ := Table.find?_eq_some_iff.mp hfind
    obtain ⟨rfl, rfl⟩ := Prod.mk.inj hkey
    obtain ⟨hid, htext, r, hget, htenant⟩ := h.filed row hmem
    rw [htext, Option.bind_some, Option.bind_some, if_neg hid, h.get_eq, MemoryRunStore.get, hget,
      Option.filter_some_pos (by simpa using htenant)]
  | none =>
    cases htext : m.keys.get (joined tenant key) with
    | none => rfl
    | some id =>
      obtain ⟨row, hrow, hjoined⟩ := h.found _ _ htext
      obtain ⟨rfl, rfl⟩ := hshared row hrow hjoined
      exact absurd rfl (Table.find?_eq_none_iff.mp hfind row hrow)

/-- The greatest number of an event is that of the last one. -/
theorem maxSequence_eq (h : Agrees subjects m d log) (hget : m.runs.get id = some r) :
    d.maxSequence id = (r.events.getLast?.map RunEvent.id).getD 0 := by
  rw [DurableRunStore.maxSequence, h.events, hget, Option.map_some, Option.getD_some,
    Retention.max?_eq_getLast? (h.rising id r hget), List.getLast?_map]

end Agrees

/-! ### What each call keeps -/

/-- A number that no event of the run has is free. -/
theorem find?_runEvents_eq_none {n : Int} (hnew : ∀ e ∈ d.eventsOf id, e.id ≠ n) :
    d.runEvents.find? (id, n) = none := by
  rw [Table.find?_eq_none_iff]
  intro row hrow hkey
  obtain ⟨hid, hn⟩ := Prod.mk.inj hkey
  refine hnew row.event ?_ hn
  exact List.mem_map_of_mem (List.mem_filter.mpr ⟨hrow, decide_eq_true hid⟩)

theorem eventsOf_append {rows : List EventRow}
    (hrows : d'.runEvents.rows = d.runEvents.rows ++ rows) :
    d'.eventsOf id =
      d.eventsOf id ++ (rows.filter fun row => row.runId = id).map EventRow.event := by
  rw [DurableRunStore.eventsOf, hrows, List.filter_append, List.map_append]
  rfl

/-- The events a run is created with are written one after the other. -/
theorem insertEvents_eq {es : List RunEvent} (hjson : ∀ e ∈ es, e.data.IsJson)
    (hrising : (es.map RunEvent.id).Pairwise (· < ·))
    (hnew : ∀ e ∈ es, d.runEvents.find? (id, e.id) = none) :
    ∃ t, DurableRunStore.insertEvents id es d = ({ d with runEvents := t }, .ok ()) ∧
      t.rows = d.runEvents.rows ++ es.map fun e => ⟨id, e.id, e.type, e.data⟩ := by
  induction es generalizing d with
  | nil => exact ⟨d.runEvents, rfl, by simp⟩
  | cons e es ih =>
    obtain ⟨hjson, hjsons⟩ := List.forall_mem_cons.mp hjson
    obtain ⟨hlt, hrising⟩ := List.pairwise_cons.mp hrising
    obtain ⟨hfree, hfrees⟩ := List.forall_mem_cons.mp hnew
    obtain ⟨t, hinsert, hrows⟩ : ∃ t, d.runEvents.insert? ⟨id, e.id, e.type, e.data⟩ = some t ∧
        t.rows = d.runEvents.rows ++ [⟨id, e.id, e.type, e.data⟩] := exists_insert?_eq_some hfree
    -- the later events have larger numbers, so their keys are still free
    have hnext : ∀ e' ∈ es, t.find? (id, e'.id) = none := by
      intro e' he'
      rw [Table.find?_insert? hinsert, if_neg, hfrees e' he']
      intro hkey
      have hsame := (Prod.mk.inj hkey).2
      exact (hlt e'.id (List.mem_map_of_mem he')).ne hsame
    obtain ⟨t', hrest, hrows'⟩ := ih (d := { d with runEvents := t }) hjsons hrising hnext
    refine ⟨t', ?_, ?_⟩
    · rw [DurableRunStore.insertEvents, dataJson_eq hjson]
      simp only [insertOrIgnore, hinsert, Option.getD_some]
      exact hrest
    · rw [hrows', hrows, List.append_assoc]
      rfl

/-- What is written when a run is created that is new, under a key that is. -/
theorem create_eq {key : Option String} (hnew : d.runs.find? r.id = none)
    (hkey : key.getD "" ≠ "" → d.idempotency.find? (r.tenantId, key.getD "") = none)
    (hjson : ∀ e ∈ r.events, e.data.IsJson)
    (hrising : (r.events.map RunEvent.id).Pairwise (· < ·))
    (hfree : ∀ e ∈ r.events, d.runEvents.find? (r.id, e.id) = none) :
    ∃ d', d.create r key = (d', .ok (d'.get r.id r.tenantId)) ∧ d'.retention = d.retention ∧
      d'.runs.rows = d.runs.rows ++ [RunRow.of r] ∧
      d'.idempotency.rows = d.idempotency.rows ++
        (if key.getD "" = "" then [] else [⟨r.tenantId, key.getD "", r.id⟩]) ∧
      d'.runEvents.rows =
        d.runEvents.rows ++ r.events.map fun e => ⟨r.id, e.id, e.type, e.data⟩ := by
  have hruns : (insertOrIgnore d.runs (RunRow.of r)).rows = d.runs.rows ++ [RunRow.of r] :=
    rows_insertOrIgnore hnew
  by_cases hgiven : key.getD "" = ""
  · obtain ⟨t, hinsert, hevents⟩ := insertEvents_eq
      (d := { d with runs := insertOrIgnore d.runs (RunRow.of r) }) hjson hrising hfree
    refine ⟨⟨insertOrIgnore d.runs (RunRow.of r), d.idempotency, t, d.retention⟩, ?_, rfl, hruns,
      ?_, hevents⟩
    · rw [DurableRunStore.create]
      simp only [if_pos hgiven]
      rw [← RunRow.of, hinsert]
      rfl
    · rw [if_pos hgiven, List.append_nil]
  · obtain ⟨t, hinsert, hevents⟩ := insertEvents_eq
      (d := { d with
        runs := insertOrIgnore d.runs (RunRow.of r)
        idempotency := insertOrIgnore d.idempotency ⟨r.tenantId, key.getD "", r.id⟩ })
      hjson hrising hfree
    refine ⟨⟨insertOrIgnore d.runs (RunRow.of r),
      insertOrIgnore d.idempotency ⟨r.tenantId, key.getD "", r.id⟩, t, d.retention⟩, ?_, rfl, hruns,
      ?_, hevents⟩
    · rw [DurableRunStore.create]
      simp only [if_neg hgiven]
      rw [← RunRow.of, hinsert]
      rfl
    · rw [if_neg hgiven]
      exact rows_insertOrIgnore (hkey hgiven)

theorem eventsOf_created
    (hevents : d'.runEvents.rows = d.runEvents.rows ++ r.events.map fun e =>
      ⟨r.id, e.id, e.type, e.data⟩) :
    d'.eventsOf i = d.eventsOf i ++ if r.id = i then r.events else [] := by
  rw [eventsOf_append hevents, List.filter_map, List.map_map]
  by_cases hi : r.id = i
  · have hall : r.events.filter ((fun row : EventRow => decide (row.runId = i)) ∘
        fun e => ⟨r.id, e.id, e.type, e.data⟩) = r.events := by
      rw [List.filter_eq_self]
      exact fun e _ => decide_eq_true hi
    rw [hall, if_pos hi]
    exact congrArg _ (List.map_id'' (fun _ => rfl) _)
  · have hno : r.events.filter ((fun row : EventRow => decide (row.runId = i)) ∘
        fun e => ⟨r.id, e.id, e.type, e.data⟩) = [] := by
      rw [List.filter_eq_nil_iff]
      exact fun e _ => by simpa using hi
    rw [hno, if_neg hi, List.map_nil]

/-- A new run in both stores, under a key that is new too. -/
theorem agrees_created {key : Option String} (h : Agrees subjects m d log)
    (hnone : m.runs.get r.id = none) (hsubject : subjects = true → r.subject = none)
    (hrising : (r.events.map RunEvent.id).Pairwise (· < ·))
    (hlength : r.events.length ≤ d.retention)
    (hkey : key.getD "" ≠ "" → r.id ≠ "" ∧ ∀ row ∈ d.idempotency.rows,
      joined row.tenantId row.key ≠ joined r.tenantId (key.getD ""))
    (hretention : d'.retention = d.retention)
    (hruns : d'.runs.rows = d.runs.rows ++ [RunRow.of r])
    (hkeys : d'.idempotency.rows = d.idempotency.rows ++
      (if key.getD "" = "" then [] else [⟨r.tenantId, key.getD "", r.id⟩]))
    (hevents : d'.runEvents.rows = d.runEvents.rows ++ r.events.map fun e =>
      ⟨r.id, e.id, e.type, e.data⟩) :
    Agrees subjects (m.create r key) d' fun i => Op.log i (log i) (.create r key) := by
  have hget : ∀ i, (m.create r key).runs.get i = if r.id = i then some r else m.runs.get i :=
    fun i => MemoryRunStore.get_runs_create
  have hmemory : (m.create r key).runs.rows = m.runs.rows ++ [(r.id, r)] :=
    OrderedMap.rows_set_of_get_eq_none hnone
  -- a run that was there is not the new one
  have hold : ∀ {i r'}, m.runs.get i = some r' → (m.create r key).runs.get i = some r' := by
    intro i r' hr'
    rw [hget, if_neg, hr']
    rintro rfl
    rw [hnone] at hr'
    cases hr'
  constructor
  case retention => exact h.retention.trans hretention.symm
  case ids =>
    rw [hmemory]
    intro e he
    rcases List.mem_append.mp he with he | he
    · exact h.ids e he
    · obtain rfl := List.mem_singleton.mp he
      rfl
  case rows =>
    rw [hmemory, List.map_append, ← h.rows, hruns]
    rfl
  case events =>
    intro i
    rw [eventsOf_created hevents, h.events, hget]
    by_cases hi : r.id = i
    · rw [if_pos hi, if_pos hi, ← hi, hnone]
      rfl
    · rw [if_neg hi, if_neg hi, List.append_nil]
  case subjects =>
    intro hcount i r' hr'
    rw [hget] at hr'
    split at hr'
    · cases hr'
      exact hsubject hcount
    · exact h.subjects hcount i r' hr'
  case rising =>
    intro i r' hr'
    rw [hget] at hr'
    split at hr'
    · cases hr'
      exact hrising
    · exact h.rising i r' hr'
  case kept =>
    intro i r' hr'
    rw [hget] at hr'
    rw [hretention]
    simp only [Op.log]
    split at hr'
    · cases hr'
      rw [if_pos ‹_›]
      exact (Retention.rtake_of_length_le hlength).symm
    · rw [if_neg ‹_›]
      exact h.kept i r' hr'
  -- without a key the tables of keys stay as they are
  case filed =>
    intro row hrow
    rw [hkeys] at hrow
    by_cases hgiven : key.getD "" = ""
    · rw [if_pos hgiven, List.append_nil] at hrow
      obtain ⟨hid, htext, r', hr', htenant⟩ := h.filed row hrow
      refine ⟨hid, ?_, r', hold hr', htenant⟩
      rw [MemoryRunStore.create, RunStore.create, if_pos hgiven]
      exact htext
    · rw [if_neg hgiven] at hrow
      rw [MemoryRunStore.create, RunStore.create, if_neg hgiven]
      rcases List.mem_append.mp hrow with hrow | hrow
      · obtain ⟨hid, htext, r', hr', htenant⟩ := h.filed row hrow
        refine ⟨hid, ?_, r', hold hr', htenant⟩
        rw [OrderedMap.get_set_ne ((hkey hgiven).2 row hrow).symm]
        exact htext
      · obtain rfl := List.mem_singleton.mp hrow
        exact ⟨(hkey hgiven).1, OrderedMap.get_set_self, r, (hget r.id).trans (if_pos rfl), rfl⟩
  case found =>
    intro text i htext
    rw [hkeys]
    by_cases hgiven : key.getD "" = ""
    · rw [MemoryRunStore.create, RunStore.create, if_pos hgiven] at htext
      obtain ⟨row, hrow, hjoined⟩ := h.found text i htext
      exact ⟨row, List.mem_append_left _ hrow, hjoined⟩
    · rw [MemoryRunStore.create, RunStore.create, if_neg hgiven, OrderedMap.get_set] at htext
      rw [if_neg hgiven]
      split at htext
      · exact ⟨_, List.mem_append_right _ (List.mem_singleton.mpr rfl), ‹_›⟩
      · obtain ⟨row, hrow, hjoined⟩ := h.found text i htext
        exact ⟨row, List.mem_append_left _ hrow, hjoined⟩

theorem agrees_create {key : Option String} (h : Agrees subjects m d log)
    (hshared : SharedOf subjects d (.create r key)) :
    ∃ d', d.create r key = (d', .ok (some (r.shown subjects))) ∧
      Agrees subjects (m.create r key) d' fun i => Op.log i (log i) (.create r key) := by
  obtain ⟨hnew, hsubject, hrising, hlength, hjson, hkey⟩ := hshared
  have hnone : m.runs.get r.id = none := by
    rw [h.find?_eq, Option.map_eq_none_iff] at hnew
    exact hnew
  -- a run that is not there has no events
  have hfree : ∀ e ∈ r.events, d.runEvents.find? (r.id, e.id) = none := by
    intro e _
    refine find?_runEvents_eq_none fun e' he' => ?_
    rw [h.events, hnone] at he'
    cases he'
  -- and its key is not in use
  have hkeyFree : key.getD "" ≠ "" →
      d.idempotency.find? (r.tenantId, key.getD "") = none := by
    intro hgiven
    refine Table.find?_eq_none_iff.mpr fun row hrow heq => ?_
    obtain ⟨htenant, hsame⟩ := Prod.mk.inj heq
    exact (hkey hgiven).2 row hrow (by rw [htenant, hsame])
  obtain ⟨d', hcreate, hretention, hruns, hkeys, hevents⟩ :=
    create_eq hnew hkeyFree hjson hrising hfree
  have hagrees : Agrees subjects (m.create r key) d' fun i => Op.log i (log i) (.create r key) :=
    agrees_created h hnone hsubject hrising hlength hkey hretention hruns hkeys hevents
  refine ⟨d', hcreate.trans ?_, hagrees⟩
  rw [hagrees.get_eq, MemoryRunStore.get, MemoryRunStore.get_runs_create, if_pos rfl,
    Option.filter_some_pos (by simp), Option.map_some]

/-- A run after a change, and the one it was. -/
theorem exists_get_of_change {f : Run → Run} (hr : (m.change id f).runs.get i = some r) :
    ∃ r₀, m.runs.get i = some r₀ ∧ r = if id = i then f r₀ else r₀ := by
  rw [MemoryRunStore.get_runs_change] at hr
  split at hr
  · obtain ⟨r₀, hr₀, rfl⟩ := Option.map_eq_some_iff.mp hr
    exact ⟨r₀, hr₀, (if_pos ‹_›).symm⟩
  · exact ⟨r, hr, (if_neg ‹_›).symm⟩

/-- A change of one run that leaves its owner, when the tables follow it. -/
theorem agrees_change {f : Run → Run} (h : Agrees subjects m d log)
    (howner : ∀ r, (f r).id = r.id ∧ (f r).tenantId = r.tenantId ∧ (f r).subject = r.subject)
    (hretention : d'.retention = d.retention) (hkeys : d'.idempotency = d.idempotency)
    (hrows : d'.runs.rows = (m.change id f).runs.rows.map fun e => RunRow.of e.2)
    (hevents : ∀ i, d'.eventsOf i = (((m.change id f).runs.get i).map Run.events).getD [])
    (hrising : ∀ r, m.runs.get id = some r → ((f r).events.map RunEvent.id).Pairwise (· < ·))
    (hkept : ∀ r, m.runs.get id = some r → (f r).events = (log' id).rtake d.retention)
    (hlog : ∀ i, id ≠ i → log' i = log i) : Agrees subjects (m.change id f) d' log' where
  retention := by rw [MemoryRunStore.retention_change, h.retention, hretention]
  ids := by
    intro e he
    rw [rows_change] at he
    obtain ⟨e', he', rfl⟩ := List.mem_map.mp he
    split
    · exact (howner e'.2).1.trans (h.ids e' he')
    · exact h.ids e' he'
  rows := hrows
  events := hevents
  subjects := by
    intro hcount i r hr
    obtain ⟨r₀, hr₀, rfl⟩ := exists_get_of_change hr
    split
    · exact (howner r₀).2.2.trans (h.subjects hcount i r₀ hr₀)
    · exact h.subjects hcount i r₀ hr₀
  rising := by
    intro i r hr
    obtain ⟨r₀, hr₀, rfl⟩ := exists_get_of_change hr
    split
    · rename_i hi
      exact hrising r₀ (hi ▸ hr₀)
    · exact h.rising i r₀ hr₀
  kept := by
    intro i r hr
    obtain ⟨r₀, hr₀, rfl⟩ := exists_get_of_change hr
    rw [hretention]
    split
    · rename_i hi
      subst hi
      exact hkept r₀ hr₀
    · rename_i hi
      rw [hlog i hi]
      exact h.kept i r₀ hr₀
  filed := by
    intro row hrow
    rw [hkeys] at hrow
    obtain ⟨hid, htext, r₀, hr₀, htenant⟩ := h.filed row hrow
    rw [MemoryRunStore.keys_change, MemoryRunStore.get_runs_change, hr₀]
    refine ⟨hid, htext, ?_⟩
    split
    · exact ⟨_, rfl, (howner r₀).2.1.trans htenant⟩
    · exact ⟨r₀, rfl, htenant⟩
  found := by
    intro text i htext
    rw [MemoryRunStore.keys_change] at htext
    rw [hkeys]
    exact h.found text i htext

theorem agrees_setStatus {status : Status} (h : Agrees subjects m d log) :
    Agrees subjects (m.setStatus id status) (d.setStatus id status) log := by
  refine agrees_change h (fun _ => ⟨rfl, rfl, rfl⟩) rfl rfl ?_ ?_ (h.rising id) (h.kept id)
    fun _ _ => rfl
  · rw [rows_change, DurableRunStore.setStatus, Table.rows_update, h.rows, List.map_map,
      List.map_map]
    refine List.map_congr_left fun e he => ?_
    have hid : (RunRow.of e.2).id = e.1 := h.ids e he
    rw [Function.comp_apply, Function.comp_apply]
    by_cases hsame : e.1 = id
    · rw [if_pos (decide_eq_true (hid.trans hsame)), if_pos hsame]
      rfl
    · rw [if_neg (by simpa [hid] using hsame), if_neg hsame]
  · intro i
    rw [MemoryRunStore.get_runs_change]
    refine (h.events i).trans ?_
    split
    · rw [Option.map_map]
      rfl
    · rfl

/-- What is written and deleted when a run that is there emits. -/
theorem emit_eq {type : String} {data : JsValue} (hthere : d.runs.find? id ≠ none)
    (hjson : data.IsJson) (hfree : d.runEvents.find? (id, d.maxSequence id + 1) = none) :
    ∃ d', d.emit id type data = (d', .ok ⟨d.maxSequence id + 1, type, data⟩) ∧
      d'.retention = d.retention ∧ d'.runs = d.runs ∧ d'.idempotency = d.idempotency ∧
      ∀ i, d'.eventsOf i = if id = i then
          (d.eventsOf i ++ [RunEvent.mk (d.maxSequence i + 1) type data]).filter fun e =>
            ((d.eventsOf i ++ [RunEvent.mk (d.maxSequence i + 1) type data]).map
              RunEvent.id).max?.getD 0 - d.retention < e.id
        else d.eventsOf i := by
  obtain ⟨t, hinsert, hrows⟩ : ∃ t,
      d.runEvents.insert? ⟨id, d.maxSequence id + 1, type, data⟩ = some t ∧
      t.rows = d.runEvents.rows ++ [⟨id, d.maxSequence id + 1, type, data⟩] :=
    exists_insert?_eq_some hfree
  have hnone : ((d.runs.find? id).isNone) = false := by
    cases hrun : d.runs.find? id with
    | none => exact absurd hrun hthere
    | some row => rfl
  -- the events between the two statements
  have hbetween : ∀ i, DurableRunStore.eventsOf { d with runEvents := t } i =
      d.eventsOf i ++ if id = i then [⟨d.maxSequence i + 1, type, data⟩] else [] := by
    intro i
    rw [eventsOf_append (d := d) hrows]
    by_cases hi : id = i
    · subst hi
      simp [EventRow.event]
    · simp [hi]
  refine ⟨⟨d.runs, d.idempotency, t.delete fun row => row.runId = id && row.sequence ≤
    DurableRunStore.maxSequence { d with runEvents := t } id - (d.retention : Int), d.retention⟩,
    ?_, rfl, rfl, rfl, ?_⟩
  · rw [DurableRunStore.emit]
    simp only [dataJson_eq hjson, hnone, hinsert]
    rfl
  · intro i
    have hdelete : ∀ cutoff : Int, DurableRunStore.eventsOf ⟨d.runs, d.idempotency,
        t.delete fun row => row.runId = id && row.sequence ≤ cutoff, d.retention⟩ i =
          (DurableRunStore.eventsOf { d with runEvents := t } i).filter fun e =>
            !(id = i && e.id ≤ cutoff) := by
      intro cutoff
      simp only [DurableRunStore.eventsOf, Table.rows_delete, List.filter_filter, List.filter_map]
      congr 1
      refine List.filter_congr fun row _ => ?_
      by_cases hrow : row.runId = i
      · by_cases hi : id = i
        · simp only [Function.comp_apply, hrow, hi, decide_true, Bool.true_and, Bool.and_true]
          rfl
        · simp [hrow, hi, Ne.symm hi]
      · simp [hrow]
    rw [hdelete, DurableRunStore.maxSequence, hbetween, hbetween]
    by_cases hi : id = i
    · subst hi
      simp only [if_true]
      refine List.filter_congr fun e _ => ?_
      rw [decide_true, Bool.true_and, ← decide_not, decide_eq_decide]
      exact not_le
    · simp [hi]

/-- The next number is above those that were given. -/
theorem Agrees.lt_maxSequence_add_one (h : Agrees subjects m d log) (hr : m.runs.get id = some r) :
    ∀ e ∈ r.events, e.id < d.maxSequence id + 1 := by
  intro e he
  obtain ⟨events, last, hsplit⟩ := List.eq_nil_or_concat' r.events |>.resolve_left
    (List.ne_nil_of_mem he)
  have hasc := h.rising id r hr
  rw [hsplit] at he hasc
  rw [h.maxSequence_eq hr, hsplit, List.getLast?_concat, Option.map_some, Option.getD_some]
  rcases List.mem_append.mp he with he | he
  · rw [List.map_append, List.pairwise_append] at hasc
    have hlt := hasc.2.2 e.id (List.mem_map_of_mem he) last.id (by simp)
    omega
  · rw [List.mem_singleton.mp he]
    omega

/-- With the next event the numbers go on rising. -/
theorem Agrees.rising_concat (h : Agrees subjects m d log) (hr : m.runs.get id = some r) (type : String)
    (data : JsValue) : ((r.events ++ [RunEvent.mk (d.maxSequence id + 1) type data]).map
      RunEvent.id).Pairwise (· < ·) := by
  rw [List.map_append, List.pairwise_append]
  refine ⟨h.rising id r hr, List.pairwise_singleton _ _, fun n hn n' hn' => ?_⟩
  obtain ⟨e, he, rfl⟩ := List.mem_map.mp hn
  obtain rfl := List.mem_singleton.mp hn'
  exact h.lt_maxSequence_add_one hr e he

theorem agrees_emit {type : String} {data : JsValue} (h : Agrees subjects m d log)
    (hpos : 0 < d.retention) (hshared : SharedOf subjects d (.emit id type data)) :
    ∃ d' e, d.emit id type data = (d', .ok e) ∧
      Agrees subjects (m.emit id type data) d' fun i => Op.log i (log i) (.emit id type data) := by
  obtain ⟨hthere, hjson, hinsensitive, hnear⟩ := hshared
  obtain ⟨r, hr⟩ : ∃ r, m.runs.get id = some r := by
    rw [h.find?_eq, ne_eq, Option.map_eq_none_iff] at hthere
    exact Option.ne_none_iff_exists'.mp hthere
  have hlast := h.maxSequence_eq hr
  have hevents : d.eventsOf id = r.events := by rw [h.events, hr, Option.map_some, Option.getD_some]
  have hrising := h.rising_concat hr type data
  have hmax : ((r.events ++ [RunEvent.mk (d.maxSequence id + 1) type data]).map
      RunEvent.id).max?.getD 0 = d.maxSequence id + 1 := by
    rw [Retention.max?_eq_getLast? hrising, List.map_append, List.map_singleton,
      List.getLast?_concat, Option.getD_some]
  obtain ⟨d', hemit, hretention, hruns, hkeys, hstored⟩ := @emit_eq d id type data hthere hjson
    (find?_runEvents_eq_none fun e he => (h.lt_maxSequence_add_one hr e (hevents ▸ he)).ne)
  -- what the tables keep by number, and what the memory keeps by count, is the same
  have hkept : (d.eventsOf id ++ [RunEvent.mk (d.maxSequence id + 1) type data]).filter (fun e =>
      ((d.eventsOf id ++ [RunEvent.mk (d.maxSequence id + 1) type data]).map
        RunEvent.id).max?.getD 0 - d.retention < e.id) =
      (r.events ++ [RunEvent.mk (d.maxSequence id + 1) type data]).rtake d.retention := by
    rw [hevents, hmax]
    rw [hevents] at hnear
    exact Retention.filter_eq_rtake hrising hpos hnear
  have hretained : MemoryRunStore.retained m.retention r.events type data =
      (r.events ++ [RunEvent.mk (d.maxSequence id + 1) type data]).rtake d.retention := by
    rw [MemoryRunStore.retained_eq_rtake, safe_eq_self hinsensitive, ← hlast, h.retention]
  refine ⟨d', _, hemit, agrees_change h (fun _ => ⟨rfl, rfl, rfl⟩) hretention hkeys ?_ ?_ ?_ ?_
    fun i hi => if_neg hi⟩
  · rw [rows_change, hruns, h.rows, List.map_map]
    refine List.map_congr_left fun e _ => ?_
    rw [Function.comp_apply]
    split <;> rfl
  · intro i
    rw [hstored, MemoryRunStore.get_runs_change]
    by_cases hi : id = i
    · subst hi
      rw [if_pos rfl, if_pos rfl, hkept, hr, Option.map_some, Option.map_some, Option.getD_some,
        hretained]
    · rw [if_neg hi, if_neg hi]
      exact h.events i
  · intro r' hr'
    obtain rfl := Option.some.inj (hr.symm.trans hr')
    rw [hretained, List.rtake, List.map_drop]
    exact hrising.drop
  · intro r' hr'
    obtain rfl := Option.some.inj (hr.symm.trans hr')
    -- the last number kept is the last number given
    simp only [Op.log, if_pos]
    rw [hretained, hlast, h.kept id r hr, Retention.getLast?_rtake hpos,
      safe_eq_self hinsensitive]
    exact Retention.rtake_rtake_concat

/-! ### Runs of calls -/

/-- One call of both stores. -/
theorem agrees_step {op : Op} (h : Agrees subjects m d log) (hpos : 0 < d.retention)
    (hshared : SharedOf subjects d op) :
    (d.perform op).2 = .ok ((m.perform op).2.shown subjects) ∧ (d.perform op).1.retention = d.retention ∧
      Agrees subjects (m.perform op).1 (d.perform op).1 fun i => Op.log i (log i) op := by
  cases op with
  | create r key =>
    obtain ⟨d', hcreate, hnext⟩ := agrees_create h hshared
    simp only [DurableRunStore.perform, hcreate, MemoryRunStore.perform]
    exact ⟨rfl, hnext.retention.symm.trans h.retention, hnext⟩
  | idempotent tenant key =>
    refine ⟨?_, rfl, h⟩
    rw [DurableRunStore.perform, MemoryRunStore.perform, h.idempotent_eq hshared,
      Answer.shown]
  | get id tenant =>
    refine ⟨?_, rfl, h⟩
    rw [DurableRunStore.perform, MemoryRunStore.perform, h.get_eq, Answer.shown]
  | emit id type data =>
    obtain ⟨d', e, hemit, hnext⟩ := agrees_emit h hpos hshared
    simp only [DurableRunStore.perform, hemit, MemoryRunStore.perform]
    refine ⟨rfl, hnext.retention.symm.trans ?_, hnext⟩
    rw [MemoryRunStore.emit, MemoryRunStore.retention_change, h.retention]
  | active tenant =>
    refine ⟨?_, rfl, h⟩
    rw [DurableRunStore.perform, MemoryRunStore.perform, h.active_eq]
    rfl
  | setStatus id status => exact ⟨rfl, rfl, agrees_setStatus h⟩

/-- The stores agree after all calls that fit. -/
theorem agrees_run {retention : Nat} {ops : List Op} (hpos : 0 < retention)
    (hshared : Transition.Meets Stores.step (fun s => SharedOf subjects s.2) (.start retention)
      ops) :
    Agrees subjects (Stores.run retention ops).1 (Stores.run retention ops).2 (logged ops) ∧
      (Stores.run retention ops).2.retention = retention := by
  induction ops using List.reverseRecOn with
  | nil => exact ⟨agrees_empty retention, rfl⟩
  | append_singleton ops op ih =>
    obtain ⟨hbefore, hop⟩ := Transition.meets_append_singleton.mp hshared
    obtain ⟨hagrees, hretention⟩ := ih hbefore
    obtain ⟨-, hsame, hnext⟩ := agrees_step hagrees (by rwa [hretention]) hop
    have hlogged : logged (ops ++ [op]) = fun i => Op.log i (logged ops i) op := by
      funext i
      rw [logged, List.foldl_append]
      rfl
    rw [Stores.run, Transition.run_append_singleton, ← Stores.run, hlogged]
    exact ⟨hnext, hsame.trans hretention⟩

theorem alikeOf_of_sharedOf {retention : Nat} {ops : List Op} (hpos : 1 ≤ retention)
    (hshared : Transition.Meets Stores.step (fun s => SharedOf subjects s.2) (.start retention)
      ops) : AlikeOf subjects retention ops := by
  rintro before after rfl
  obtain ⟨hbefore, hafter⟩ := Transition.meets_append.mp hshared
  obtain ⟨hagrees, hretention⟩ := agrees_run hpos hbefore
  refine ⟨?_, fun id tenant => ⟨hagrees.get_eq, ?_⟩⟩
  · rintro op later rfl
    exact (agrees_step hagrees (by rwa [hretention]) hafter.1).1
  · intro r hr
    rw [hagrees.get_eq, MemoryRunStore.get] at hr
    obtain ⟨r, hfound, rfl⟩ := Option.map_eq_some_iff.mp hr
    have hget := (Option.filter_eq_some_iff.mp hfound).1
    have hevents : (r.shown subjects).events = r.events := by
      unfold Run.shown
      split <;> rfl
    rw [hevents, ← hretention]
    exact ⟨hagrees.rising id r hget, hagrees.kept id r hget⟩

/-- Of calls none of which reaches what only one of the stores does, the two answer each alike and
keep the same runs with the same events, the last ones, numbered in order. -/
theorem alike_of_shared {retention : Nat} {ops : List Op} (hpos : 1 ≤ retention)
    (hshared : Transition.Meets Stores.step (fun s => Shared s.2) (.start retention) ops) :
    Alike retention ops :=
  alikeOf_of_sharedOf hpos hshared

/-- Where runs have subjects, the two are alike in everything else. -/
theorem alike_but_subjects {retention : Nat} {ops : List Op} (hpos : 1 ≤ retention)
    (hshared : Transition.Meets Stores.step (fun s => SharedOf false s.2) (.start retention) ops) :
    AlikeOf false retention ops :=
  alikeOf_of_sharedOf hpos hshared

/-- A run of which one of two events is kept. -/
theorem alike_plain : Alike 1
    [.create (newRun none "run" "tenant") (some "key"), .emit "run" "token" (.object []),
      .emit "run" "completed" .null, .idempotent "tenant" "key", .setStatus "run" .completed] := by
  have hjson : (JsValue.object []).IsJson := ⟨List.nodup_nil, trivial⟩
  refine alike_of_shared (by decide)
    ⟨⟨rfl, fun _ => rfl, .nil, by decide, ?_, fun _ => ⟨by decide, by decide⟩⟩,
    ⟨by decide, hjson, trivial, by decide⟩, ⟨by decide, trivial, trivial, by decide⟩, ?_, trivial,
    trivial⟩
  · intro e he
    cases he
  · simp only [Shared, SharedOf]
    decide

/-- A run of a subject that emits a signing key. -/
def signingCalls : List Op :=
  [.create (newRun (some "alice") "run" "tenant") none,
    .emit "run" "signed" (.object [("signingKey", .string "secret")])]

/-- The database keeps the key, the memory does not, whether the subject counts or not. -/
theorem signed_emitted : ¬ Alike 100 signingCalls ∧ ¬ AlikeOf false 100 signingCalls := by
  have hany : ∀ subjects, ¬ AlikeOf subjects 100 signingCalls := by
    intro subjects h
    have hget := ((h _ [] (List.append_nil _).symm).2 "run" "tenant").1
    -- the text under the key in each event
    have htexts := congrArg (fun r : Option Run => (r.map Run.events).map fun es =>
      es.map fun e => (e.data.field "signingKey").text?) hget
    revert htexts
    cases subjects <;> decide +kernel
  exact ⟨hany true, hany false⟩

end AriOs.Gateway.Api
