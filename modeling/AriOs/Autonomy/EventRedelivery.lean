import AriOs.Async.Solo
import AriOs.Autonomy.EventDurability
import Mathlib.Data.List.ReduceOption

/-!
# Redelivery

Delivering reads the rows past a consumer's offset in batches and stops after a batch that is not
full. Rows that do not read back are left out of a batch before it is measured, so one of them is
enough to make a batch that is not the last one look like it, and a batch can never be full if it
is meant to be larger than what is read at once.
-/

namespace AriOs.Autonomy.Events

open AriOs.Async AriOs.Storage

/-! ### What is due -/

/-- The rows past a cursor, in the order of their cursors. -/
def BusDb.rowsPast (d : BusDb) (cursor : Nat) : List StoredEvent :=
  (d.outbox.rows.filter fun x => cursor < x.cursor).insertionSort fun x y => x.cursor ≤ y.cursor

namespace BusState

variable (s : BusState)

/-- The subscriptions in the order they were made. -/
def consumers : List Sub := s.subs.reduceOption

/-- The rows past a consumer's offset. -/
def ahead (sub : Sub) : List StoredEvent := s.db.rowsPast (s.db.offsets sub.name)

end BusState

namespace Bus

variable (B : Bus)

/-- What `replay` makes of a row. -/
def readBack (x : StoredEvent) : Option StoredEvent :=
  (B.reload x.envelope).toOption.map (StoredEvent.mk x.cursor)

/-- The subscription wants the event. -/
def wants (sub : Sub) (x : StoredEvent) : Bool :=
  match B.isMatch x.envelope sub.options with
  | .ok wanted => wanted
  | .error _ => false

/-- The subscription's filter throws at the event, and not for the last time that is let pass. -/
def refuses (d : BusDb) (sub : Sub) (x : StoredEvent) : Bool :=
  match B.isMatch x.envelope sub.options with
  | .ok _ => false
  | .error _ => d.retries sub.name x.cursor + 1 < B.maxAttempts

/-- The row at this index lies in the first batch, or in one that follows nothing but full
ones. -/
def Reached (rows : List StoredEvent) (j : Nat) : Prop :=
  (B.batchSize ≤ 1000 ∨ j < 1000) ∧
    ∀ x ∈ rows.take (j / replayLimit B.batchSize * replayLimit B.batchSize),
      (B.readBack x).isSome = true

end Bus

/-- The row at this index reads back as an event that the subscription wants. -/
def Due (B : Bus) (s : BusState) (sub : Sub) (j : Nat) : Prop :=
  ∃ x e, (s.ahead sub)[j]? = some x ∧ B.readBack x = some e ∧ B.wants sub e = true

/-- The row at this index is reached, and the filter throws at it. -/
def Breaks (B : Bus) (s : BusState) (sub : Sub) (j : Nat) : Prop :=
  B.Reached (s.ahead sub) j ∧
    ∃ x e, (s.ahead sub)[j]? = some x ∧ B.readBack x = some e ∧ B.refuses s.db sub e = true

/-- A bus with nothing going on: `cursor` is the primary key of the outbox, and the names of the
consumers are the keys of a map. -/
structure Idle (s : BusState) : Prop where
  unlocked : s.locked = false
  saved : s.saved = none
  cursors : (s.db.outbox.rows.map StoredEvent.cursor).Nodup
  names : (s.consumers.map Sub.name).Nodup

/-! ### Calls that nothing comes between -/

/-- What a body ends in, and leaves, if no call of it fails. -/
abbrev alone {α : Type} (B : Bus) (x : BusTask α) (s : BusState) : Except BusError α × BusState :=
  x.solo (machine B) success s

section Delivery

variable {B : Bus} {s s' : BusState} {sub : Sub} {x : StoredEvent}

@[simp] theorem alone_check {α : Type} (r : Except String α) :
    alone B (BusTask.check r) s = (r.mapError .thrown, s) := rfl

@[simp] theorem alone_nextSub (i : Nat) : alone B (BusTask.nextSub i) s = (.ok (s.nextSub i), s) :=
  rfl

@[simp] theorem alone_release :
    alone B BusTask.release s = (.ok (), { s with locked := false }) := rfl

@[simp] theorem alone_offset (name : String) :
    alone B (BusTask.offset name) s = (.ok (s.db.offsets name), s) := rfl

@[simp] theorem alone_replay (cursor limit : Nat) : alone B (BusTask.replay cursor limit) s =
    (.ok (((s.db.rowsPast cursor).take (replayLimit limit)).filterMap B.readBack), s) := rfl

@[simp] theorem alone_handler : alone B (BusTask.handler sub x) s =
    (.ok (), { s with handled := s.handled ++ [(sub.name, x.cursor)] }) := rfl

@[simp] theorem alone_acknowledge :
    alone B (BusTask.acknowledge sub x) s = (.ok (), s.acknowledge sub x) := rfl

@[simp] theorem alone_rollback : alone B BusTask.rollback s = (.ok (), s.rollback) := rfl

@[simp] theorem alone_retry (msg : String) : alone B (BusTask.retry sub x msg) s =
    (.ok (s.db.retries sub.name x.cursor + 1),
      { s with
        db := s.db.setAttempts sub.name x.cursor (s.db.retries sub.name x.cursor + 1) }) := rfl

theorem alone_acquire (h : s.locked = false) :
    alone B BusTask.acquire s = (.ok true, { s with locked := true }) := by
  change (Except.ok (if s.locked then (false, s) else (true, { s with locked := true })).1,
    (if s.locked then (false, s) else (true, { s with locked := true })).2) = _
  rw [if_neg (Bool.eq_false_iff.mp h)]

theorem alone_begin (h : s.saved = none) :
    alone B (BusTask.begin sub x) s = (.ok (), { s with saved := some s.db }) := by
  obtain ⟨db, saved, subs, locked, handled⟩ := s
  obtain rfl : saved = none := h
  rfl

theorem alone_deadLetter (h : s.saved = none) (msg : String) :
    alone B (BusTask.deadLetter sub x msg) s = (.ok (), { s with
      db := (s.db.insertDeadLetter ⟨sub.name, x.cursor, x.envelope.id, msg⟩).setOffset sub.name
        x.cursor }) := by
  obtain ⟨db, saved, subs, locked, handled⟩ := s
  obtain rfl : saved = none := h
  rfl

/-! ### One row -/

/-- What a delivery to this consumer leaves as it is. -/
structure Others (sub : Sub) (s s' : BusState) : Prop where
  outbox : s'.db.outbox = s.db.outbox
  saved : s'.saved = none
  locked : s'.locked = s.locked
  subs : s'.subs = s.subs
  offsets : ∀ c, c ≠ sub.name → s'.db.offsets c = s.db.offsets c
  retries : ∀ c, c ≠ sub.name → ∀ k, s'.db.retries c k = s.db.retries c k

theorem Others.trans {s'' : BusState} (h : Others sub s s') (h' : Others sub s' s'') :
    Others sub s s'' where
  outbox := h'.outbox.trans h.outbox
  saved := h'.saved
  locked := h'.locked.trans h.locked
  subs := h'.subs.trans h.subs
  offsets c hc := (h'.offsets c hc).trans (h.offsets c hc)
  retries c hc k := (h'.retries c hc k).trans (h.retries c hc k)

theorem offsets_insertDeadLetter (d : BusDb) (letter : DeadLetter) :
    (d.insertDeadLetter letter).offsets = d.offsets := by
  unfold BusDb.insertDeadLetter
  split <;> rfl

theorem retries_insertDeadLetter (d : BusDb) (letter : DeadLetter) :
    (d.insertDeadLetter letter).retries = d.retries := by
  unfold BusDb.insertDeadLetter
  split <;> rfl

/-- What one delivery comes to. -/
structure Processed (B : Bus) (sub : Sub) (x : StoredEvent) (s : BusState)
    (r : Except BusError Unit) (s' : BusState) : Prop where
  others : Others sub s s'
  handled : s'.handled = s.handled ++ if B.wants sub x then [(sub.name, x.cursor)] else []
  retries : ∀ k, k ≠ x.cursor → s'.db.retries sub.name k = s.db.retries sub.name k
  passed : B.refuses s.db sub x = false → r = .ok () ∧ s'.db.offsets sub.name = x.cursor
  refused : B.refuses s.db sub x = true → ∃ msg, r = .error (.thrown msg)

theorem process_alone (hsaved : s.saved = none) (hpast : s.db.offsets sub.name < x.cursor) :
    ∃ r s', alone B (process B sub x) s = (r, s') ∧ Processed B sub x s r s' := by
  unfold process
  rw [alone, Task.solo_bind]
  simp only [alone_offset]
  rw [if_neg (not_le.mpr hpast), Task.solo_bind]
  simp only [alone_begin hsaved]
  rw [Task.solo_orCatch, tryHandle, Task.solo_bind]
  simp only [alone_check]
  cases hmatch : B.isMatch x.envelope sub.options with
  -- the event is handled or not wanted; the offset moves on with it
  | ok wanted =>
    have hrefuses : B.refuses s.db sub x = false := by simp [Bus.refuses, hmatch]
    have hwants : B.wants sub x = wanted := by simp [Bus.wants, hmatch]
    refine ⟨.ok (), { s with
      db := (s.db.setOffset sub.name x.cursor).setAttempts sub.name x.cursor 0
      handled := s.handled ++ if B.wants sub x then [(sub.name, x.cursor)] else [] }, ?_, ?_⟩
    · rw [hwants]
      cases wanted with
      | true => simp [Except.mapError, Task.solo_bind, BusState.acknowledge, hsaved]
      | false => simp [Except.mapError, BusState.acknowledge, hsaved]
    · refine ⟨⟨rfl, hsaved, rfl, rfl, ?_, ?_⟩, rfl, ?_, ?_, ?_⟩
      · intro c hc
        simp [BusDb.setAttempts, BusDb.setOffset, hc]
      · intro c hc k
        simp [BusDb.setAttempts, BusDb.setOffset, hc]
      · intro k hk
        simp [BusDb.setAttempts, BusDb.setOffset, hk]
      · intro _
        simp [BusDb.setAttempts, BusDb.setOffset]
      · intro h
        rw [hrefuses] at h
        cases h
  | error msg =>
    have hwants : B.wants sub x = false := by simp [Bus.wants, hmatch]
    have hrefuses : B.refuses s.db sub x =
        decide (s.db.retries sub.name x.cursor + 1 < B.maxAttempts) := by
      simp [Bus.refuses, hmatch]
    -- the rollback brings back what the transaction began with
    have hback : ({ s with saved := some s.db } : BusState).rollback = s := by
      obtain ⟨db, saved, subs, locked, handled⟩ := s
      obtain rfl : saved = none := hsaved
      rfl
    simp only [Except.mapError, giveUp]
    rw [Task.solo_bind]
    simp only [alone_rollback, hback]
    rw [Task.solo_bind]
    simp only [alone_retry]
    by_cases hlast : B.maxAttempts ≤ s.db.retries sub.name x.cursor + 1
    · -- the event is given up
      have hsaved' : ({ s with
        db := s.db.setAttempts sub.name x.cursor (s.db.retries sub.name x.cursor + 1) } :
          BusState).saved = none := hsaved
      rw [if_pos hlast]
      refine ⟨_, _, alone_deadLetter hsaved' msg, ⟨?_, hsaved, rfl, rfl, ?_, ?_⟩, by simp [hwants],
        ?_, ?_, ?_⟩
      · simp [BusDb.setOffset, BusDb.setAttempts]
      · intro c hc
        simp [BusDb.setOffset, hc, offsets_insertDeadLetter, BusDb.setAttempts]
      · intro c hc k
        simp [BusDb.setOffset, retries_insertDeadLetter, BusDb.setAttempts, hc]
      · intro k hk
        simp [BusDb.setOffset, retries_insertDeadLetter, BusDb.setAttempts, hk]
      · intro _
        simp [BusDb.setOffset]
      · intro h
        rw [hrefuses, decide_eq_true_eq] at h
        omega
    · -- the consumer stays where it is and throws
      rw [if_neg hlast]
      refine ⟨_, _, rfl, ⟨rfl, hsaved, rfl, rfl, fun _ _ => rfl, ?_⟩, by simp [hwants], ?_, ?_, ?_⟩
      · intro c hc k
        simp [BusDb.setAttempts, hc]
      · intro k hk
        simp [BusDb.setAttempts, hk]
      · intro h
        rw [hrefuses, decide_eq_false_iff_not] at h
        omega
      · exact fun _ => ⟨msg, rfl⟩

/-! ### Several rows -/

/-- What the handler of a consumer returned for, if these rows were delivered to it. -/
def served (B : Bus) (d : BusDb) (sub : Sub) : List StoredEvent → List (String × Nat)
  | [] => []
  | x :: rows =>
    if B.refuses d sub x then []
    else (if B.wants sub x then [(sub.name, x.cursor)] else []) ++ served B d sub rows

variable {rows rows' : List StoredEvent} {r : Except BusError Unit} {d d' : BusDb}

theorem wants_of_refuses (h : B.refuses d sub x = true) : B.wants sub x = false := by
  unfold Bus.refuses at h
  unfold Bus.wants
  cases hmatch : B.isMatch x.envelope sub.options with
  | ok wanted => simp [hmatch] at h
  | error msg => rfl

theorem served_congr (h : ∀ x ∈ rows, B.refuses d' sub x = B.refuses d sub x) :
    served B d' sub rows = served B d sub rows := by
  induction rows with
  | nil => rfl
  | cons x rows ih =>
    obtain ⟨hx, hrows⟩ := List.forall_mem_cons.mp h
    rw [served, served, hx, ih hrows]

theorem served_append (h : ∀ x ∈ rows, B.refuses d sub x = false) :
    served B d sub (rows ++ rows') = served B d sub rows ++ served B d sub rows' := by
  induction rows with
  | nil => rfl
  | cons x rows ih =>
    obtain ⟨hx, hrows⟩ := List.forall_mem_cons.mp h
    simp only [List.cons_append, served, hx, ih hrows, List.append_assoc, Bool.false_eq_true,
      if_false]

theorem served_append_of_refuses (h : ∃ x ∈ rows, B.refuses d sub x = true) :
    served B d sub (rows ++ rows') = served B d sub rows := by
  induction rows with
  | nil => simp at h
  | cons x rows ih =>
    rw [List.cons_append, served, served]
    cases hx : B.refuses d sub x with
    | true => rfl
    | false =>
      have hrows : ∃ x ∈ rows, B.refuses d sub x = true := by simpa [hx] using h
      rw [ih hrows]

/-- Of rows in order, the handler sees those it wants before the first that is refused. -/
theorem mem_served_iff (hsorted : rows.Pairwise fun x y => x.cursor < y.cursor)
    {entry : String × Nat} : entry ∈ served B d sub rows ↔
      ∃ x ∈ rows, entry = (sub.name, x.cursor) ∧ B.wants sub x = true ∧
        ∀ y ∈ rows, y.cursor < x.cursor → B.refuses d sub y = false := by
  induction rows with
  | nil => simp [served]
  | cons x rows ih =>
    obtain ⟨hfirst, hrest⟩ := List.pairwise_cons.mp hsorted
    rw [served]
    cases hrefuses : B.refuses d sub x with
    -- the delivery stops at the first row that is refused
    | true =>
      refine iff_of_false (by simp) ?_
      rintro ⟨z, hz, -, hwants, hbefore⟩
      rcases List.mem_cons.mp hz with rfl | hz
      · rw [wants_of_refuses hrefuses] at hwants
        cases hwants
      · rw [hbefore x (by simp) (hfirst z hz)] at hrefuses
        cases hrefuses
    -- this row comes before the others, so it may refuse none of them
    | false =>
      simp only [Bool.false_eq_true, if_false, List.mem_append, ih hrest]
      constructor
      · rintro (hx | ⟨z, hz, heq, hwants, hbefore⟩)
        · obtain ⟨hwants, rfl⟩ : B.wants sub x = true ∧ entry = (sub.name, x.cursor) := by
            simpa using hx
          refine ⟨x, by simp, rfl, hwants, fun y hy hlt => ?_⟩
          rcases List.mem_cons.mp hy with rfl | hy
          · exact hrefuses
          · exact absurd (hfirst y hy) (by omega)
        · refine ⟨z, List.mem_cons_of_mem _ hz, heq, hwants, fun y hy hlt => ?_⟩
          rcases List.mem_cons.mp hy with rfl | hy
          · exact hrefuses
          · exact hbefore y hy hlt
      · rintro ⟨z, hz, rfl, hwants, hbefore⟩
        rcases List.mem_cons.mp hz with rfl | hz
        · left
          simp [hwants]
        · exact .inr ⟨z, hz, rfl, hwants, fun y hy => hbefore y (List.mem_cons_of_mem _ hy)⟩

/-- What the delivery of these rows comes to. -/
structure Served (B : Bus) (sub : Sub) (rows : List StoredEvent) (s : BusState)
    (r : Except BusError Unit) (s' : BusState) : Prop where
  others : Others sub s s'
  handled : s'.handled = s.handled ++ served B s.db sub rows
  retries : ∀ k ∉ rows.map StoredEvent.cursor,
    s'.db.retries sub.name k = s.db.retries sub.name k
  passed : (∀ x ∈ rows, B.refuses s.db sub x = false) → r = .ok () ∧
    s'.db.offsets sub.name =
      (rows.getLast?.map StoredEvent.cursor).getD (s.db.offsets sub.name)
  refused : (∃ x ∈ rows, B.refuses s.db sub x = true) → ∃ msg, r = .error (.thrown msg)

theorem Processed.served (h : Processed B sub x s r s') : Served B sub [x] s r s' where
  others := h.others
  handled := by
    rw [h.handled, Events.served, Events.served]
    cases hrefuses : B.refuses s.db sub x with
    | false => simp
    | true => simp [wants_of_refuses hrefuses]
  retries k hk := h.retries k (by simpa using hk)
  passed hall := by simpa using h.passed (hall x (by simp))
  refused hsome := by
    obtain ⟨y, hy, hrefuses⟩ := hsome
    obtain rfl := List.mem_singleton.mp hy
    exact h.refused hrefuses

theorem served_nil (hsaved : s.saved = none) : Served B sub [] s (.ok ()) s where
  others := ⟨rfl, hsaved, rfl, rfl, fun _ _ => rfl, fun _ _ _ => rfl⟩
  handled := by simp [served]
  retries _ _ := rfl
  passed _ := ⟨rfl, rfl⟩
  refused h := by simp at h

theorem refuses_congr
    (h : d'.retries sub.name x.cursor = d.retries sub.name x.cursor) :
    B.refuses d' sub x = B.refuses d sub x := by
  unfold Bus.refuses
  rw [h]

/-- Rows that all pass are followed by the next ones. -/
theorem Served.append {s'' : BusState} {u : Except BusError Unit} (h : Served B sub rows s u s')
    (hall : ∀ x ∈ rows, B.refuses s.db sub x = false)
    (hdistinct : ∀ x ∈ rows, ∀ y ∈ rows', x.cursor ≠ y.cursor)
    (h' : Served B sub rows' s' r s'') : Served B sub (rows ++ rows') s r s'' := by
  -- serving the first rows counts no retry of the others
  have hsame : ∀ y ∈ rows', B.refuses s'.db sub y = B.refuses s.db sub y := by
    intro y hy
    refine refuses_congr (h.retries y.cursor fun hmem => ?_)
    obtain ⟨x, hx, heq⟩ := List.mem_map.mp hmem
    exact hdistinct x hx y hy heq
  refine ⟨h.others.trans h'.others, ?_, ?_, ?_, ?_⟩
  · rw [h'.handled, h.handled, served_congr hsame, List.append_assoc, served_append hall]
  · intro k hk
    rw [List.map_append, List.mem_append, not_or] at hk
    rw [h'.retries k hk.2, h.retries k hk.1]
  · intro hpass
    obtain ⟨rfl, hoffset⟩ := h'.passed fun y hy => by
      rw [hsame y hy]
      exact hpass y (List.mem_append_right _ hy)
    refine ⟨rfl, ?_⟩
    rw [hoffset, (h.passed hall).2, List.getLast?_append]
    cases rows'.getLast? <;> rfl
  · -- what is refused is among the others
    rintro ⟨y, hy, hrefuses⟩
    rcases List.mem_append.mp hy with hy | hy
    · rw [hall y hy] at hrefuses
      cases hrefuses
    · exact h'.refused ⟨y, hy, (hsame y hy).trans hrefuses⟩

/-- Rows of which one is refused are the last ones. -/
theorem Served.stop (h : Served B sub rows s r s')
    (hsome : ∃ x ∈ rows, B.refuses s.db sub x = true) : Served B sub (rows ++ rows') s r s' := by
  refine ⟨h.others, ?_, ?_, ?_, ?_⟩
  · rw [h.handled, served_append_of_refuses hsome]
  · intro k hk
    rw [List.map_append, List.mem_append, not_or] at hk
    exact h.retries k hk.1
  · intro hall
    obtain ⟨x, hx, hrefuses⟩ := hsome
    rw [hall x (List.mem_append_left _ hx)] at hrefuses
    cases hrefuses
  · exact fun _ => h.refused hsome

theorem processRows_alone (hsaved : s.saved = none)
    (hsorted : rows.Pairwise fun x y => x.cursor < y.cursor)
    (hpast : ∀ x ∈ rows, s.db.offsets sub.name < x.cursor) :
    ∃ r s', alone B (processRows B sub rows) s = (r, s') ∧ Served B sub rows s r s' := by
  induction rows generalizing s with
  | nil => exact ⟨_, s, rfl, served_nil hsaved⟩
  | cons x rows ih =>
    obtain ⟨hfirst, hrest⟩ := List.pairwise_cons.mp hsorted
    obtain ⟨u, s₁, hrun, hprocessed⟩ :=
      process_alone (B := B) hsaved (hpast x List.mem_cons_self)
    have hserved := hprocessed.served
    cases hrefuses : B.refuses s.db sub x with
    -- a refused row ends the batch
    | true =>
      obtain ⟨msg, rfl⟩ := hprocessed.refused hrefuses
      exact ⟨_, s₁, Task.solo_bind_of_error hrun, hserved.stop ⟨x, by simp, hrefuses⟩⟩
    | false =>
      obtain ⟨rfl, hoffset⟩ := hprocessed.passed hrefuses
      obtain ⟨r, s', hrun', hserved'⟩ := ih hserved.others.saved hrest fun y hy => by
        rw [hoffset]
        exact hfirst y hy
      refine ⟨r, s', (Task.solo_bind_of_ok hrun).trans hrun', ?_⟩
      exact hserved.append (by simpa using hrefuses)
        (by simpa using fun y hy => (hfirst y hy).ne) hserved'

/-! ### Batches -/

/-- The rows that a consumer gets to see in so many rounds, if none is refused. -/
def seen (B : Bus) : Nat → List StoredEvent → List StoredEvent
  | 0, _ => []
  | rounds + 1, rows =>
    let batch := (rows.take (replayLimit B.batchSize)).filterMap B.readBack
    if batch.isEmpty ∨ batch.length < B.batchSize then batch
    else batch ++ seen B rounds (rows.drop (replayLimit B.batchSize))

theorem cursor_of_readBack {e : StoredEvent} (h : B.readBack x = some e) :
    e.cursor = x.cursor := by
  obtain ⟨_, -, rfl⟩ := Option.map_eq_some_iff.mp h
  rfl

theorem pairwise_readBack (h : rows.Pairwise fun x y => x.cursor < y.cursor) :
    (rows.filterMap B.readBack).Pairwise fun x y => x.cursor < y.cursor := by
  rw [List.pairwise_filterMap]
  refine h.imp fun hlt e he e' he' => ?_
  rw [cursor_of_readBack he, cursor_of_readBack he']
  exact hlt

/-- A full batch lost no row. -/
theorem full_batch_iff :
    (¬ (((rows.take (replayLimit B.batchSize)).filterMap B.readBack).isEmpty = true ∨
      ((rows.take (replayLimit B.batchSize)).filterMap B.readBack).length < B.batchSize)) ↔
    B.batchSize ≤ 1000 ∧ replayLimit B.batchSize ≤ rows.length ∧
      ∀ x ∈ rows.take (replayLimit B.batchSize), (B.readBack x).isSome = true := by
  have hle := List.length_filterMap_le B.readBack (rows.take (replayLimit B.batchSize))
  have htake : (rows.take (replayLimit B.batchSize)).length =
      min (replayLimit B.batchSize) rows.length := List.length_take
  rw [← List.filterMap_length_eq_length, List.isEmpty_iff_length_eq_zero, not_or, not_lt]
  unfold replayLimit at *
  omega

variable {c k : Nat}

theorem mem_rowsPast : x ∈ d.rowsPast c ↔ x ∈ d.outbox.rows ∧ c < x.cursor := by
  simp [BusDb.rowsPast, List.mem_insertionSort]

theorem rowsPast_sorted (h : (d.outbox.rows.map StoredEvent.cursor).Nodup) :
    (d.rowsPast c).Pairwise fun x y => x.cursor < y.cursor := by
  have hle : (d.rowsPast c).Pairwise fun x y => x.cursor ≤ y.cursor := by
    have : Std.Total fun x y : StoredEvent => x.cursor ≤ y.cursor := ⟨fun x y => le_total _ _⟩
    have : IsTrans StoredEvent fun x y => x.cursor ≤ y.cursor := ⟨fun _ _ _ => le_trans⟩
    exact List.pairwise_insertionSort _ _
  have hne : (d.rowsPast c).Pairwise fun x y => x.cursor ≠ y.cursor := by
    have hperm := List.perm_insertionSort (fun x y : StoredEvent => x.cursor ≤ y.cursor)
      (d.outbox.rows.filter fun x => c < x.cursor)
    have hnodup : ((d.outbox.rows.filter fun x => c < x.cursor).map StoredEvent.cursor).Nodup :=
      h.sublist (List.filter_sublist.map StoredEvent.cursor)
    exact List.pairwise_map.mp ((hperm.map StoredEvent.cursor).nodup_iff.mpr hnodup)
  exact hle.imp₂ (fun _ _ => lt_of_le_of_ne) hne

/-- Past the last of the first few rows lie the others. -/
theorem rowsPast_drop (h : (d.outbox.rows.map StoredEvent.cursor).Nodup)
    (hlast : ((d.rowsPast c).take k).getLast? = some x) :
    d.rowsPast x.cursor = (d.rowsPast c).drop k := by
  have hsorted : (d.rowsPast c).Pairwise fun x y => x.cursor < y.cursor := rowsPast_sorted h
  have hsplit := hsorted
  rw [← List.take_append_drop k (d.rowsPast c), List.pairwise_append] at hsplit
  obtain ⟨htake, -, hbetween⟩ := hsplit
  have hx : x ∈ (d.rowsPast c).take k := List.mem_of_getLast? hlast
  have : Std.Irrefl fun x y : StoredEvent => x.cursor < y.cursor := ⟨fun x => lt_irrefl _⟩
  refine List.Pairwise.eq_of_mem_iff (rowsPast_sorted h)
    (hsorted.sublist (List.drop_sublist k _)) fun y => ?_
  rw [mem_rowsPast]
  constructor
  · rintro ⟨hy, hlt⟩
    have hmem : y ∈ d.rowsPast c := mem_rowsPast.mpr
      ⟨hy, (mem_rowsPast.mp (List.mem_of_mem_take hx)).2.trans hlt⟩
    rw [← List.take_append_drop k (d.rowsPast c)] at hmem
    rcases List.mem_append.mp hmem with hmem | hmem
    · -- none of the first few lies past the last of them
      obtain ⟨before, hbefore⟩ := List.getLast?_eq_some_iff.mp hlast
      rw [hbefore] at htake hmem
      rcases List.mem_append.mp hmem with hmem | hmem
      · exact absurd ((List.pairwise_append.mp htake).2.2 y hmem x (by simp)) (lt_asymm hlt)
      · obtain rfl := List.mem_singleton.mp hmem
        exact absurd hlt (lt_irrefl _)
    · exact hmem
  · intro hy
    exact ⟨(mem_rowsPast.mp (List.mem_of_mem_drop hy)).1, hbetween x hx y hy⟩

/-- A full batch has the cursors of the rows that were read. -/
theorem map_cursor_readBack (h : ∀ x ∈ rows, (B.readBack x).isSome = true) :
    (rows.filterMap B.readBack).map StoredEvent.cursor = rows.map StoredEvent.cursor := by
  induction rows with
  | nil => rfl
  | cons x rows ih =>
    obtain ⟨hx, hrows⟩ := List.forall_mem_cons.mp h
    obtain ⟨e, he⟩ := Option.isSome_iff_exists.mp hx
    rw [List.filterMap_cons_some he, List.map_cons, List.map_cons, ih hrows, cursor_of_readBack he]

theorem mem_seen {rounds : Nat} {e : StoredEvent} (h : e ∈ seen B rounds rows) :
    ∃ x ∈ rows, B.readBack x = some e := by
  induction rounds generalizing rows with
  | zero => simp [seen] at h
  | succ rounds ih =>
    rw [seen] at h
    have hbatch : e ∈ (rows.take (replayLimit B.batchSize)).filterMap B.readBack →
        ∃ x ∈ rows, B.readBack x = some e := by
      intro hmem
      obtain ⟨x, hx, he⟩ := List.mem_filterMap.mp hmem
      exact ⟨x, List.mem_of_mem_take hx, he⟩
    split at h
    · exact hbatch h
    · rcases List.mem_append.mp h with h | h
      · exact hbatch h
      · obtain ⟨x, hx, he⟩ := ih h
        exact ⟨x, List.mem_of_mem_drop hx, he⟩

theorem replayLimit_pos (n : Nat) : 0 < replayLimit n :=
  Nat.lt_of_lt_of_le one_pos (le_max_left _ _)

theorem reached_of_lt {j : Nat} (h : j < replayLimit B.batchSize) : B.Reached rows j := by
  refine ⟨?_, ?_⟩
  · unfold replayLimit at h
    omega
  · rw [Nat.div_eq_of_lt h, Nat.zero_mul, List.take_zero]
    exact fun x hx => nomatch hx

theorem reached_add_iff {j : Nat} : B.Reached rows (replayLimit B.batchSize + j) ↔
    B.batchSize ≤ 1000 ∧ (∀ x ∈ rows.take (replayLimit B.batchSize), (B.readBack x).isSome = true) ∧
      B.Reached (rows.drop (replayLimit B.batchSize)) j := by
  have hfirst : (B.batchSize ≤ 1000 ∨ replayLimit B.batchSize + j < 1000) ↔ B.batchSize ≤ 1000 := by
    unfold replayLimit
    omega
  unfold Bus.Reached
  rw [hfirst, Nat.add_div_left _ (replayLimit_pos _), Nat.succ_mul, Nat.add_comm _ (replayLimit _),
    List.take_add]
  simp only [List.mem_append, or_imp, forall_and]
  tauto

/-- A consumer gets to see the rows that read back and are reached. -/
theorem mem_seen_iff {rounds : Nat} {e : StoredEvent} (hrounds : rows.length < rounds) :
    e ∈ seen B rounds rows ↔
      ∃ j x, rows[j]? = some x ∧ B.readBack x = some e ∧ B.Reached rows j := by
  induction rounds generalizing rows with
  | zero => omega
  | succ rounds ih =>
    have hbatch : e ∈ (rows.take (replayLimit B.batchSize)).filterMap B.readBack ↔
        ∃ j x, j < replayLimit B.batchSize ∧ rows[j]? = some x ∧ B.readBack x = some e := by
      rw [List.mem_filterMap]
      constructor
      · rintro ⟨x, hx, he⟩
        obtain ⟨j, hj⟩ := List.getElem?_of_mem hx
        rw [List.getElem?_take] at hj
        obtain ⟨hlt, hj⟩ := Option.ite_none_right_eq_some.mp hj
        exact ⟨j, x, hlt, hj, he⟩
      · rintro ⟨j, x, hlt, hj, he⟩
        refine ⟨x, List.mem_of_getElem? (i := j) ?_, he⟩
        rw [List.getElem?_take, if_pos hlt, hj]
    have hlater : (∃ j x, rows[j]? = some x ∧ B.readBack x = some e ∧ B.Reached rows j) ↔
        e ∈ (rows.take (replayLimit B.batchSize)).filterMap B.readBack ∨
          ∃ j x, (rows.drop (replayLimit B.batchSize))[j]? = some x ∧ B.readBack x = some e ∧
            B.Reached rows (replayLimit B.batchSize + j) := by
      rw [hbatch]
      constructor
      · rintro ⟨j, x, hj, he, hreached⟩
        by_cases hlt : j < replayLimit B.batchSize
        · exact .inl ⟨j, x, hlt, hj, he⟩
        · obtain ⟨k, rfl⟩ := Nat.exists_eq_add_of_le (not_lt.mp hlt)
          exact .inr ⟨k, x, by rw [List.getElem?_drop]; exact hj, he, hreached⟩
      · rintro (⟨j, x, hlt, hj, he⟩ | ⟨k, x, hk, he, hreached⟩)
        · exact ⟨j, x, hj, he, reached_of_lt hlt⟩
        · exact ⟨_, x, by rw [← List.getElem?_drop]; exact hk, he, hreached⟩
    rw [hlater, seen]
    split
    · rename_i hlast
      refine (or_iff_left ?_).symm
      -- the batch is not full, so the next one is not reached
      rintro ⟨k, x, hk, -, hreached⟩
      obtain ⟨hsmall, hfull, -⟩ := reached_add_iff.mp hreached
      have hk := List.getElem?_eq_some_iff.mp hk
      obtain ⟨hk, -⟩ := hk
      rw [List.length_drop] at hk
      exact full_batch_iff.mpr ⟨hsmall, by omega, hfull⟩ hlast
    · rename_i hfull
      obtain ⟨hsmall, hlong, hfull⟩ := full_batch_iff.mp hfull
      have hlimit := replayLimit_pos B.batchSize
      rw [List.mem_append, ih (by rw [List.length_drop]; omega)]
      refine or_congr_right ?_
      simp only [reached_add_iff, hsmall, true_and, and_iff_right hfull]

/-- Handing a consumer batch after batch comes to handing it the rows it gets to see. -/
theorem drain_alone {rounds : Nat} (hsaved : s.saved = none)
    (hcursors : (s.db.outbox.rows.map StoredEvent.cursor).Nodup)
    (hrounds : (s.ahead sub).length < rounds) :
    ∃ r s', alone B (drain B sub rounds) s = (r, s') ∧
      Served B sub (seen B rounds (s.ahead sub)) s r s' := by
  induction rounds generalizing s with
  | zero => omega
  | succ rounds ih =>
    have hsorted : (s.ahead sub).Pairwise fun x y => x.cursor < y.cursor := rowsPast_sorted hcursors
    unfold drain
    rw [alone, Task.solo_bind]
    simp only [alone_offset]
    rw [Task.solo_bind]
    simp only [alone_replay]
    rw [← BusState.ahead, seen]
    generalize hbatch : ((s.ahead sub).take (replayLimit B.batchSize)).filterMap B.readBack = batch
    cases hempty : batch.isEmpty with
    | true =>
      rw [List.isEmpty_iff] at hempty
      subst hempty
      exact ⟨_, s, rfl, by simpa using served_nil hsaved⟩
    | false =>
      have hordered : batch.Pairwise fun x y => x.cursor < y.cursor :=
        hbatch ▸ pairwise_readBack (hsorted.sublist (List.take_sublist _ _))
      obtain ⟨u, s₁, hrun, hserved⟩ := processRows_alone (B := B) hsaved hordered fun e he => by
          rw [← hbatch] at he
          obtain ⟨x, hx, he⟩ := List.mem_filterMap.mp he
          rw [cursor_of_readBack he]
          exact (mem_rowsPast.mp (List.mem_of_mem_take hx)).2
      simp only [Bool.false_eq_true, if_false, false_or]
      by_cases hsome : ∃ x ∈ batch, B.refuses s.db sub x = true
      · -- an event was refused: the consumer stops there
        obtain ⟨msg, rfl⟩ := hserved.refused hsome
        refine ⟨_, s₁, Task.solo_bind_of_error hrun, ?_⟩
        split
        · exact hserved
        · exact hserved.stop hsome
      · have hall : ∀ x ∈ batch, B.refuses s.db sub x = false := by simpa using hsome
        obtain ⟨rfl, hoffset⟩ := hserved.passed hall
        rw [Task.solo_bind_of_ok hrun]
        by_cases hshort : batch.length < B.batchSize
        · -- a short batch was the last one
          rw [if_pos hshort, if_pos hshort]
          exact ⟨_, s₁, rfl, hserved⟩
        · rw [if_neg hshort, if_neg hshort]
          -- a full batch: the next one starts behind the last row that was read
          obtain ⟨-, hlong, hfull⟩ := full_batch_iff.mp
            (by rw [hbatch, hempty]; simpa using hshort)
          have hlimit := replayLimit_pos B.batchSize
          have hdrop : s₁.ahead sub = (s.ahead sub).drop (replayLimit B.batchSize) := by
            obtain ⟨x, hlast⟩ : ∃ x, ((s.ahead sub).take (replayLimit B.batchSize)).getLast? =
                some x := by
              rw [← Option.isSome_iff_exists, List.getLast?_isSome, ← List.length_pos_iff,
                List.length_take]
              omega
            have hcursor : batch.getLast?.map StoredEvent.cursor = some x.cursor := by
              rw [← List.getLast?_map, ← hbatch, map_cursor_readBack hfull, List.getLast?_map,
                hlast]
              rfl
            rw [hcursor, Option.getD_some] at hoffset
            rw [BusState.ahead, hoffset, BusDb.rowsPast, hserved.others.outbox]
            exact rowsPast_drop hcursors hlast
          obtain ⟨r, s', hrun', hserved'⟩ := ih hserved.others.saved
            (by rw [hserved.others.outbox]; exact hcursors)
            (by rw [hdrop, List.length_drop]; omega)
          refine ⟨r, s', hrun', hserved.append hall ?_ (hdrop ▸ hserved')⟩
          intro e he e' he'
          rw [← hbatch] at he
          obtain ⟨x, hx, he⟩ := List.mem_filterMap.mp he
          obtain ⟨x', hx', he'⟩ := mem_seen he'
          rw [cursor_of_readBack he, cursor_of_readBack he']
          rw [← List.take_append_drop (replayLimit B.batchSize) (s.ahead sub),
            List.pairwise_append] at hsorted
          exact (hsorted.2.2 x hx x' hx').ne

/-! ### One consumer -/

theorem pairwise_seen {rounds : Nat} (h : rows.Pairwise fun x y => x.cursor < y.cursor) :
    (seen B rounds rows).Pairwise fun x y => x.cursor < y.cursor := by
  induction rounds generalizing rows with
  | zero => exact List.Pairwise.nil
  | succ rounds ih =>
    have hsplit := h
    rw [← List.take_append_drop (replayLimit B.batchSize) rows, List.pairwise_append] at hsplit
    obtain ⟨htake, hdrop, hbetween⟩ := hsplit
    rw [seen]
    split
    · exact pairwise_readBack htake
    · refine List.pairwise_append.mpr ⟨pairwise_readBack htake, ih hdrop, fun e he e' he' => ?_⟩
      obtain ⟨x, hx, he⟩ := List.mem_filterMap.mp he
      obtain ⟨x', hx', he'⟩ := mem_seen he'
      rw [cursor_of_readBack he, cursor_of_readBack he']
      exact hbetween x hx x' hx'

/-- Rows come in the order of their cursors. -/
theorem cursor_lt_iff {i j : Nat} {y : StoredEvent}
    (hsorted : rows.Pairwise fun x y => x.cursor < y.cursor) (hi : rows[i]? = some x)
    (hj : rows[j]? = some y) : x.cursor < y.cursor ↔ i < j := by
  obtain ⟨hilt, rfl⟩ := List.getElem?_eq_some_iff.mp hi
  obtain ⟨hjlt, rfl⟩ := List.getElem?_eq_some_iff.mp hj
  rw [List.pairwise_iff_getElem] at hsorted
  constructor
  · intro hlt
    by_contra hle
    rcases Nat.lt_or_eq_of_le (not_lt.mp hle) with hji | rfl
    · exact absurd (hsorted j i hjlt hilt hji) (lt_asymm hlt)
    · exact lt_irrefl _ hlt
  · exact hsorted i j hilt hjlt

/-- The handler gets the rows that are due and reached, up to the first that breaks. -/
theorem mem_served_seen_iff {rounds : Nat} {entry : String × Nat}
    (hcursors : (s.db.outbox.rows.map StoredEvent.cursor).Nodup)
    (hrounds : (s.ahead sub).length < rounds) :
    entry ∈ served B s.db sub (seen B rounds (s.ahead sub)) ↔
      ∃ j x, (s.ahead sub)[j]? = some x ∧ entry = (sub.name, x.cursor) ∧ Due B s sub j ∧
        B.Reached (s.ahead sub) j ∧ ∀ i < j, ¬ Breaks B s sub i := by
  have hsorted : (s.ahead sub).Pairwise fun x y => x.cursor < y.cursor := rowsPast_sorted hcursors
  rw [mem_served_iff (pairwise_seen hsorted)]
  constructor
  · rintro ⟨e, he, rfl, hwants, hbefore⟩
    obtain ⟨j, x, hj, hread, hreached⟩ := (mem_seen_iff hrounds).mp he
    refine ⟨j, x, hj, by rw [cursor_of_readBack hread], ⟨x, e, hj, hread, hwants⟩, hreached, ?_⟩
    rintro i hlt ⟨hreached', y, f, hi, hread', hrefuses⟩
    -- an earlier row that is refused stands before this one
    have hcursor : f.cursor < e.cursor := by
      rw [cursor_of_readBack hread, cursor_of_readBack hread']
      exact (cursor_lt_iff hsorted hi hj).mpr hlt
    rw [hbefore f ((mem_seen_iff hrounds).mpr ⟨i, y, hi, hread', hreached'⟩) hcursor] at hrefuses
    cases hrefuses
  · rintro ⟨j, x, hj, rfl, ⟨x', e, hj', hread, hwants⟩, hreached, hbefore⟩
    obtain rfl := Option.some.inj (hj.symm.trans hj')
    refine ⟨e, (mem_seen_iff hrounds).mpr ⟨j, x, hj, hread, hreached⟩,
      by rw [cursor_of_readBack hread], hwants, fun f hf hlt => ?_⟩
    obtain ⟨i, y, hi, hread', hreached'⟩ := (mem_seen_iff hrounds).mp hf
    rw [cursor_of_readBack hread, cursor_of_readBack hread', cursor_lt_iff hsorted hi hj] at hlt
    -- and a row before this one that is refused breaks the delivery off
    by_contra hrefuses
    exact hbefore i hlt ⟨hreached', y, f, hi, hread', by simpa using hrefuses⟩

/-- One consumer's delivery ends well exactly if no row breaks it. -/
theorem passes_seen_iff {rounds : Nat} (hrounds : (s.ahead sub).length < rounds) :
    (∀ e ∈ seen B rounds (s.ahead sub), B.refuses s.db sub e = false) ↔
      ∀ i, ¬ Breaks B s sub i := by
  constructor
  · rintro hall i ⟨hreached, x, e, hi, hread, hrefuses⟩
    rw [hall e ((mem_seen_iff hrounds).mpr ⟨i, x, hi, hread, hreached⟩)] at hrefuses
    cases hrefuses
  · intro hall e he
    obtain ⟨i, x, hi, hread, hreached⟩ := (mem_seen_iff hrounds).mp he
    by_contra hrefuses
    exact hall i ⟨hreached, x, e, hi, hread, by simpa using hrefuses⟩

/-- A delivery that waits for its turn is the delivery. -/
theorem serialized_alone {body : BusTask Unit} (hunlocked : s.locked = false)
    (hrun : alone B body { s with locked := true } = (r, s')) (hr : r ≠ .error .pending) :
    alone B (serialized body) s = (r, { s' with locked := false }) := by
  unfold serialized
  unfold alone at hrun
  rw [alone, Task.solo_bind_of_ok (alone_acquire hunlocked), if_pos rfl, Task.solo_orCatch, hrun]
  rcases r with (msg | _) | _
  · rfl
  · exact absurd rfl hr
  · rfl

/-- The delivery to one consumer, waiting included. -/
theorem serve_alone {rounds : Nat} (hunlocked : s.locked = false) (hsaved : s.saved = none)
    (hcursors : (s.db.outbox.rows.map StoredEvent.cursor).Nodup)
    (hrounds : (s.ahead sub).length < rounds) :
    ∃ r s', alone B (serialized (drain B sub rounds)) s = (r, s') ∧
      Served B sub (seen B rounds (s.ahead sub)) s r s' := by
  have hrounds' : (BusState.ahead { s with locked := true } sub).length < rounds := hrounds
  obtain ⟨r, s', hrun, hserved⟩ := drain_alone (B := B) (s := { s with locked := true })
    hsaved hcursors hrounds'
  have hr : r ≠ .error .pending := by
    by_cases hsome : ∃ x ∈ seen B rounds (s.ahead sub), B.refuses s.db sub x = true
    · obtain ⟨msg, rfl⟩ := hserved.refused hsome
      simp
    · have hall : ∀ x ∈ seen B rounds (s.ahead sub), B.refuses s.db sub x = false := by
        simpa using hsome
      obtain ⟨rfl, -⟩ := hserved.passed hall
      simp
  refine ⟨r, _, serialized_alone hunlocked hrun hr, ?_⟩
  exact ⟨⟨hserved.others.outbox, hserved.others.saved, hunlocked.symm, hserved.others.subs,
    hserved.others.offsets, hserved.others.retries⟩, hserved.handled, hserved.retries,
    hserved.passed, hserved.refused⟩

/-! ### All consumers -/

/-- The first subscription in some slots, and those that come after it. -/
theorem findSome?_slots (l : List (Option Sub)) (n : Nat) :
    match (l.zipIdx n).findSome? fun slot => slot.1.map fun sub => (slot.2, sub) with
    | none => l.reduceOption = []
    | some (j, sub) => ∃ k, j = n + k ∧ k < l.length ∧
        l.reduceOption = sub :: (l.drop (k + 1)).reduceOption := by
  induction l generalizing n with
  | nil => rfl
  | cons slot l ih =>
    rw [List.zipIdx_cons, List.findSome?_cons]
    cases slot with
    | some sub => exact ⟨0, rfl, by simp, rfl⟩
    | none =>
      have h := ih (n + 1)
      dsimp only [Option.map_none]
      split
      · rename_i hnone
        rw [hnone] at h
        simpa using h
      · rename_i j sub hsome
        rw [hsome] at h
        obtain ⟨k, rfl, hk, hrest⟩ := h
        exact ⟨k + 1, by omega, by simpa using hk, by simpa using hrest⟩

theorem drop_zipIdx (l : List (Option Sub)) (i : Nat) :
    l.zipIdx.drop i = (l.drop i).zipIdx i := by
  apply List.ext_getElem?
  intro k
  rw [List.getElem?_drop, List.getElem?_zipIdx, List.getElem?_zipIdx, List.getElem?_drop]
  simp

/-- The first subscription at or after a slot, and those that come after it. -/
theorem nextSub_spec (i : Nat) :
    match s.nextSub i with
    | none => (s.subs.drop i).reduceOption = []
    | some (j, sub) => j < s.subs.length ∧ i ≤ j ∧
        (s.subs.drop i).reduceOption = sub :: (s.subs.drop (j + 1)).reduceOption := by
  have h := findSome?_slots (s.subs.drop i) i
  rw [← drop_zipIdx] at h
  rw [BusState.nextSub]
  split
  · rename_i hnone
    rwa [hnone] at h
  · rename_i j sub hsome
    rw [hsome] at h
    obtain ⟨k, rfl, hk, hrest⟩ := h
    rw [List.length_drop] at hk
    rw [List.drop_drop] at hrest
    exact ⟨by omega, by omega, hrest⟩

/-- What a delivery to one consumer does not touch, is as it was for the others. -/
theorem Others.ahead_eq {other : Sub} (h : Others sub s s') (hne : other.name ≠ sub.name) :
    s'.ahead other = s.ahead other := by
  unfold BusState.ahead BusDb.rowsPast
  rw [h.outbox, h.offsets _ hne]

theorem Others.due_iff {other : Sub} {j : Nat} (h : Others sub s s')
    (hne : other.name ≠ sub.name) : Due B s' other j ↔ Due B s other j := by
  unfold Due
  rw [h.ahead_eq hne]

theorem Others.breaks_iff {other : Sub} {j : Nat} (h : Others sub s s')
    (hne : other.name ≠ sub.name) : Breaks B s' other j ↔ Breaks B s other j := by
  unfold Breaks
  rw [h.ahead_eq hne]
  refine and_congr_right fun _ => exists_congr fun x => exists_congr fun e => ?_
  rw [refuses_congr (h.retries _ hne _)]

/-- Delivering gets to the row at this index for the consumer at this place. -/
structure InReach (B : Bus) (s : BusState) (consumers : List Sub) (k : Nat) (sub : Sub) (j : Nat) :
    Prop where
  reached : B.Reached (s.ahead sub) j
  before : ∀ i < j, ¬ Breaks B s sub i
  turn : ∀ k' < k, ∀ sub', consumers[k']? = some sub' → ∀ i, ¬ Breaks B s sub' i

/-- The rows that the handlers of these consumers get. -/
def HandedOn (B : Bus) (s : BusState) (consumers : List Sub) (entry : String × Nat) : Prop :=
  ∃ k sub j x, consumers[k]? = some sub ∧ (s.ahead sub)[j]? = some x ∧
    entry = (sub.name, x.cursor) ∧ Due B s sub j ∧ InReach B s consumers k sub j

theorem handedOn_cons {consumers : List Sub} {entry : String × Nat} :
    HandedOn B s (sub :: consumers) entry ↔
      (∃ j x, (s.ahead sub)[j]? = some x ∧ entry = (sub.name, x.cursor) ∧ Due B s sub j ∧
        B.Reached (s.ahead sub) j ∧ ∀ i < j, ¬ Breaks B s sub i) ∨
      (∀ i, ¬ Breaks B s sub i) ∧ HandedOn B s consumers entry := by
  constructor
  · rintro ⟨k, sub', j, x, hk, hj, hentry, hdue, hreach⟩
    -- the turn of the first consumer comes before those of the others
    cases k with
    | zero =>
      obtain rfl := Option.some.inj hk
      exact .inl ⟨j, x, hj, hentry, hdue, hreach.reached, hreach.before⟩
    | succ k =>
      refine .inr ⟨hreach.turn 0 (by omega) sub rfl, k, sub', j, x, hk, hj, hentry, hdue,
        hreach.reached, hreach.before, fun k' hlt sub'' hk' => ?_⟩
      exact hreach.turn (k' + 1) (by omega) sub'' hk'
  · rintro (⟨j, x, hj, hentry, hdue, hreached, hbefore⟩ | ⟨hpass, k, sub', j, x, hk, hj, hentry,
      hdue, hreach⟩)
    · exact ⟨0, sub, j, x, rfl, hj, hentry, hdue, hreached, hbefore, fun k' hlt => by omega⟩
    · refine ⟨k + 1, sub', j, x, hk, hj, hentry, hdue, hreach.reached, hreach.before,
        fun k' hlt sub'' hk' => ?_⟩
      cases k' with
      | zero =>
        obtain rfl := Option.some.inj hk'
        exact hpass
      | succ k' => exact hreach.turn k' (by omega) sub'' hk'

/-- What the other consumers get is what they would have got before. -/
theorem Others.handedOn_iff {consumers : List Sub} {entry : String × Nat} (h : Others sub s s')
    (hne : ∀ other ∈ consumers, other.name ≠ sub.name) :
    HandedOn B s' consumers entry ↔ HandedOn B s consumers entry := by
  -- what other consumers have ahead of them, and what breaks them off, is the same
  have hreach : ∀ k other j, consumers[k]? = some other →
      (InReach B s' consumers k other j ↔ InReach B s consumers k other j) := by
    intro k other j hk
    have hother := hne other (List.mem_of_getElem? hk)
    constructor
    · rintro ⟨hreached, hbefore, hturn⟩
      refine ⟨h.ahead_eq hother ▸ hreached, fun i hi => ?_, fun k' hlt sub' hk' i => ?_⟩
      · exact fun hbreaks => hbefore i hi ((h.breaks_iff hother).mpr hbreaks)
      · exact fun hbreaks => hturn k' hlt sub' hk' i
          ((h.breaks_iff (hne sub' (List.mem_of_getElem? hk'))).mpr hbreaks)
    · rintro ⟨hreached, hbefore, hturn⟩
      refine ⟨(h.ahead_eq hother).symm ▸ hreached, fun i hi => ?_, fun k' hlt sub' hk' i => ?_⟩
      · exact fun hbreaks => hbefore i hi ((h.breaks_iff hother).mp hbreaks)
      · exact fun hbreaks => hturn k' hlt sub' hk' i
          ((h.breaks_iff (hne sub' (List.mem_of_getElem? hk'))).mp hbreaks)
  unfold HandedOn
  refine exists_congr fun k => exists_congr fun other => exists_congr fun j =>
    exists_congr fun x => and_congr_right fun hk => ?_
  have hother := hne other (List.mem_of_getElem? hk)
  rw [h.ahead_eq hother, h.due_iff hother, hreach k other j hk]

theorem deliverFrom_alone {rounds i : Nat} (hunlocked : s.locked = false) (hsaved : s.saved = none)
    (hcursors : (s.db.outbox.rows.map StoredEvent.cursor).Nodup)
    (hnames : ((s.subs.drop i).reduceOption.map Sub.name).Nodup)
    (hrounds : s.subs.length - i + s.db.outbox.rows.length + 2 ≤ rounds) :
    ∃ r s' ran, alone B (deliverFrom B rounds i) s = (r, s') ∧ r ≠ .error .pending ∧
      s'.handled = s.handled ++ ran ∧
      ∀ entry, entry ∈ ran ↔ HandedOn B s (s.subs.drop i).reduceOption entry := by
  induction rounds generalizing s i with
  | zero => omega
  | succ rounds ih =>
    have hnext := nextSub_spec (s := s) i
    unfold deliverFrom
    rw [alone, Task.solo_bind]
    simp only [alone_nextSub]
    rcases hsub : s.nextSub i with _ | ⟨j, sub⟩
    · rw [hsub] at hnext
      refine ⟨_, s, [], rfl, by simp, by simp, fun entry => ?_⟩
      rw [hnext]
      simp [HandedOn]
    · rw [hsub] at hnext
      obtain ⟨hlt, hle, hconsumers⟩ := hnext
      rw [hconsumers, List.map_cons, List.nodup_cons] at hnames
      have hahead : (s.ahead sub).length < rounds := by
        have hshort := List.length_filter_le (fun x => decide (s.db.offsets sub.name < x.cursor))
          s.db.outbox.rows
        rw [BusState.ahead, BusDb.rowsPast, List.length_insertionSort]
        omega
      obtain ⟨u, s₁, hrun, hserved⟩ := serve_alone (B := B) hunlocked hsaved hcursors hahead
      by_cases hpass : ∀ i, ¬ Breaks B s sub i
      · obtain ⟨rfl, -⟩ := hserved.passed ((passes_seen_iff hahead).mpr hpass)
        have hsubs := hserved.others.subs
        have houtbox := hserved.others.outbox
        obtain ⟨r, s', ran, hrun', hr, hhandled, hran⟩ := ih (s := s₁) (i := j + 1)
          (hserved.others.locked.trans hunlocked) hserved.others.saved (houtbox ▸ hcursors)
          (hsubs ▸ hnames.2) (by rw [hsubs, houtbox]; omega)
        refine ⟨r, s', served B s.db sub (seen B rounds (s.ahead sub)) ++ ran,
          (Task.solo_bind_of_ok hrun).trans hrun', hr,
          by rw [hhandled, hserved.handled, List.append_assoc], fun entry => ?_⟩
        rw [List.mem_append, hran, hconsumers, handedOn_cons,
          mem_served_seen_iff hcursors hahead, hsubs, and_iff_right hpass]
        refine or_congr_right (hserved.others.handedOn_iff fun other hother heq => ?_)
        exact hnames.1 (heq ▸ List.mem_map_of_mem hother)
      · -- the filter of this consumer throws, and with it the delivery
        have hsome : ∃ e ∈ seen B rounds (s.ahead sub), B.refuses s.db sub e = true := by
          rw [← passes_seen_iff hahead] at hpass
          simpa using hpass
        obtain ⟨msg, rfl⟩ := hserved.refused hsome
        refine ⟨_, s₁, _, Task.solo_bind_of_error hrun, by simp, hserved.handled, fun entry => ?_⟩
        rw [hconsumers, handedOn_cons, mem_served_seen_iff hcursors hahead]
        exact (or_iff_left fun h => hpass h.1).symm

/-- In a run of `deliver` alone, in which no call fails and with rounds enough, the run ends and the
handlers get exactly the rows that are due and in reach. -/
theorem deliver_alone {rounds : Nat} (hidle : Idle s)
    (hrounds : s.subs.length + s.db.outbox.rows.length + 2 ≤ rounds) :
    (alone B (deliver B rounds) s).1 ≠ .error .pending ∧
      ∃ ran, (alone B (deliver B rounds) s).2.handled = s.handled ++ ran ∧
        ∀ entry, entry ∈ ran ↔ HandedOn B s s.consumers entry := by
  obtain ⟨r, s', ran, hrun, hr, hhandled, hran⟩ := deliverFrom_alone (B := B) (s := s) (i := 0)
    hidle.unlocked hidle.saved hidle.cursors hidle.names (by omega)
  rw [deliver, hrun]
  exact ⟨hr, ran, hhandled, hran⟩

/-- **When delivering is complete.** A run of `deliver` alone, in which no handler fails, ends; and
it hands every consumer every row that is due exactly if each of them is in reach: no undecodable
row lies in a batch before its own, the batch size is at most a thousand unless the row is among
the first thousand, and no filter throws on the way. -/
theorem redelivery_complete_iff (hidle : Idle s) {rounds : Nat}
    (hrounds : s.subs.length + s.db.outbox.rows.length + 2 ≤ rounds) :
    (alone B (deliver B rounds) s).1 ≠ .error .pending ∧
      ∃ ran, (alone B (deliver B rounds) s).2.handled = s.handled ++ ran ∧
        ((∀ sub ∈ s.consumers, ∀ j x, (s.ahead sub)[j]? = some x → Due B s sub j →
            (sub.name, x.cursor) ∈ ran) ↔
          ∀ k sub j, s.consumers[k]? = some sub → Due B s sub j →
            InReach B s s.consumers k sub j) := by
  obtain ⟨hends, ran, hhandled, hran⟩ := deliver_alone (B := B) hidle hrounds
  refine ⟨hends, ran, hhandled, ?_⟩
  constructor
  · intro hall k sub j hk hdue
    have hsorted : (s.ahead sub).Pairwise fun x y => x.cursor < y.cursor :=
      rowsPast_sorted hidle.cursors
    obtain ⟨x, -, hj, -⟩ := id hdue
    obtain ⟨k', sub', j', x', hk', hj', hentry, -, hreach⟩ :=
      (hran _).mp (hall sub (List.mem_of_getElem? hk) j x hj hdue)
    obtain ⟨hname, hcursor⟩ := Prod.mk.inj hentry
    -- names tell consumers apart, and cursors rows
    obtain rfl : k = k' := by
      obtain ⟨hlt, rfl⟩ := List.getElem?_eq_some_iff.mp hk
      obtain ⟨hlt', rfl⟩ := List.getElem?_eq_some_iff.mp hk'
      have hlen : k < (s.consumers.map Sub.name).length := by simpa using hlt
      have hlen' : k' < (s.consumers.map Sub.name).length := by simpa using hlt'
      exact (@List.Nodup.getElem_inj_iff _ _ hidle.names k hlen k' hlen').mp (by simpa using hname)
    obtain rfl := Option.some.inj (hk.symm.trans hk')
    obtain rfl : j = j' := by
      have h := cursor_lt_iff hsorted hj hj'
      have h' := cursor_lt_iff hsorted hj' hj
      omega
    exact hreach
  · intro hall sub hsub j x hj hdue
    obtain ⟨k, hk⟩ := List.getElem?_of_mem hsub
    exact (hran _).mpr ⟨k, sub, j, x, hk, hj, rfl, hdue, hall k sub j hk hdue⟩

end Delivery

/-- One consumer, and these rows. -/
def holding (outbox : Table StoredEvent.key) : BusState where
  db := { outbox, seq := outbox.rows.length }
  subs := [some { name := "c" }]

/-- An event whose payload the bus writes, and cannot read back. -/
def undecodable : Envelope :=
  { id := "e0", type := "x", version := 1, payload := .object [("$bigint", .string "?")] }

/-- Two batches of two rows, the third of which cannot be read back. -/
def twoBatches : BusState :=
  holding ⟨[⟨1, eventOne⟩, ⟨2, { eventOne with id := "e2" }⟩, ⟨3, undecodable⟩,
    ⟨4, { eventOne with id := "e4" }⟩], by decide⟩

/-- The event in the batch with the third row is handed on as well. -/
theorem redelivery_complete_iff_twoBatches :
    let handled := (alone { batchSize := 2 } (deliver { batchSize := 2 } 7) twoBatches).2.handled
    ("c", 1) ∈ handled ∧ ("c", 2) ∈ handled ∧ ("c", 4) ∈ handled := by
  have hrounds : 1 + 4 + 2 ≤ 7 := by decide
  obtain ⟨-, ran, hhandled, hcomplete⟩ := redelivery_complete_iff (B := { batchSize := 2 })
    (s := twoBatches) ⟨rfl, rfl, by decide, by decide⟩ hrounds
  -- the subscriber refuses nothing
  have hpass : ∀ sub ∈ [({ name := "c" } : Sub)], ∀ e, Bus.refuses { batchSize := 2 }
      twoBatches.db sub e = false := by
    intro sub hsub e
    obtain rfl := List.mem_singleton.mp hsub
    rfl
  have hreach := hcomplete.mpr fun k sub j hk hdue => by
    obtain rfl := List.mem_singleton.mp (List.mem_of_getElem? hk)
    refine ⟨⟨.inl (by decide), fun x hx => ?_⟩, ?_, ?_⟩
    · obtain ⟨y, e, hy, -, -⟩ := hdue
      have hj : j < 4 := (List.getElem?_eq_some_iff.mp hy).1
      -- no batch before that of the row has the third one
      have hfirst : x ∈ [(⟨1, eventOne⟩ : StoredEvent), ⟨2, { eventOne with id := "e2" }⟩] := by
        have hle : j / 2 * 2 ≤ 2 := by omega
        exact (List.take_prefix_take_left hle).subset hx
      rcases List.mem_cons.mp hfirst with rfl | hsecond
      · rfl
      · obtain rfl := List.mem_singleton.mp hsecond
        rfl
    · rintro i - ⟨-, x, e, -, -, hrefuses⟩
      rw [hpass _ (.head _) e] at hrefuses
      cases hrefuses
    · rintro k' - sub' hk' i ⟨-, x, e, -, -, hrefuses⟩
      rw [hpass sub' (List.mem_of_getElem? hk') e] at hrefuses
      cases hrefuses
  simp only [hhandled, List.mem_append]
  refine ⟨.inr ?_, .inr ?_, .inr ?_⟩
  · exact hreach { name := "c" } (.head _) 0 _ rfl ⟨_, _, rfl, rfl, rfl⟩
  · exact hreach { name := "c" } (.head _) 1 _ rfl ⟨_, _, rfl, rfl, rfl⟩
  · exact hreach { name := "c" } (.head _) 3 _ rfl ⟨_, _, rfl, rfl, rfl⟩

def stuck : BusState := holding ⟨[⟨1, undecodable⟩, ⟨2, eventOne⟩], by decide⟩

/-- With batches of one, the row that cannot be decoded fills the first batch, which is then empty.
The event after it is due, and no run hands it on. -/
theorem hidden_behind_undecodable :
    Idle stuck ∧ Due { batchSize := 1 } stuck { name := "c" } 1 ∧
      (alone { batchSize := 1 } (deliver { batchSize := 1 } 5) stuck).1 = .ok () ∧
      (alone { batchSize := 1 } (deliver { batchSize := 1 } 5) stuck).2.handled = [] := by
  refine ⟨⟨rfl, rfl, by decide, by decide⟩, ?_, ?_, ?_⟩
  · exact ⟨⟨2, eventOne⟩, ⟨2, eventOne⟩, rfl, rfl, rfl⟩
  · rfl
  · rfl

end AriOs.Autonomy.Events
