import AriOs.Autonomy.EventBus

/-!
# Published events stay in the outbox

A delivery keeps its transaction open while the handler runs, on the connection that `publish`
inserts on. An event published meanwhile is part of that transaction: when the handler fails,
the rollback takes the event with it, though its own `publish` goes on and returns.
-/

namespace AriOs.Autonomy.Events

open AriOs.Async AriOs.Storage

/-- Every event that a call inserted, and that returned, is in the outbox. -/
def Durable (p : BusPool) : Prop :=
  ∀ c ∈ p.calls, ∀ e cursor reply,
    (⟨.insert e, .ok (cursor, true)⟩ : Entry interface) ∈ c.history →
    c.result? = some (.ok reply) → (⟨cursor, e⟩ : StoredEvent) ∈ p.shared.db.outbox.rows

/-- A rollback finds the outbox as it was when its transaction began. -/
def RestoresOutbox (p : BusPool) : Event interface Request → Prop
  | .step t _ => p.next? t = some .rollback →
      p.shared.committed.outbox.rows = p.shared.db.outbox.rows
  | _ => True

/-! ### One call -/

theorem mem_insertEvent {d : BusDb} {e : Envelope} {x : StoredEvent} (hx : x ∈ d.outbox.rows) :
    x ∈ (d.insertEvent e).2.outbox.rows := by
  simp only [BusDb.insertEvent]
  split
  · rename_i outbox hinsert
    simp only [Table.rows_of_insert? hinsert]
    exact List.mem_append_left _ hx
  · exact hx

/-- A row that was inserted is there. -/
theorem insertEvent_mem {d : BusDb} {e : Envelope} {cursor : Nat}
    (h : (d.insertEvent e).1 = (cursor, true)) :
    (⟨cursor, e⟩ : StoredEvent) ∈ (d.insertEvent e).2.outbox.rows := by
  simp only [BusDb.insertEvent] at h ⊢
  split at h
  · rename_i outbox hinsert
    obtain rfl : d.seq + 1 = cursor := congrArg Prod.fst h
    simp only [Table.rows_of_insert? hinsert]
    exact List.mem_append_right _ (List.mem_singleton.mpr rfl)
  · simp at h

@[simp] theorem outbox_insertDeadLetter (d : BusDb) (letter : DeadLetter) :
    (d.insertDeadLetter letter).outbox = d.outbox := by
  unfold BusDb.insertDeadLetter
  split <;> rfl

@[simp] theorem outbox_subscribe (s : BusState) (sub : Sub) :
    (s.subscribe sub).2.db.outbox = s.db.outbox := by
  unfold BusState.subscribe
  split
  · rfl
  · split
    · split <;> rfl
    · rfl

/-- Nothing but a rollback takes a row out of the outbox. -/
theorem mem_outbox_handle {B : Bus} {s : BusState} {o : Op} {a : interface.Ans o} {x : StoredEvent}
    (ho : o = .rollback → s.committed.outbox.rows = s.db.outbox.rows)
    (hx : x ∈ s.db.outbox.rows) : x ∈ ((machine B).handle o s a).2.db.outbox.rows := by
  cases o with
  | insert e =>
    change Option String at a
    cases a with
    | some msg => exact hx
    | none => exact mem_insertEvent hx
  | subscribe sub =>
    change x ∈ (s.subscribe sub).2.db.outbox.rows
    rwa [outbox_subscribe]
  | rollback =>
    change x ∈ s.committed.outbox.rows
    -- only a rollback could take an event back, and it finds the same events
    rwa [ho rfl]
  | acquire =>
    change x ∈ (if s.locked then (false, s) else (true, { s with locked := true })).2.db.outbox.rows
    split <;> exact hx
  | begin sub y =>
    change Option String at a
    cases a with
    | some msg => exact hx
    | none =>
      change x ∈ s.begin.2.db.outbox.rows
      unfold BusState.begin
      split <;> exact hx
  | deadLetter sub y msg =>
    change Option String at a
    cases a with
    | some msg => exact hx
    | none =>
      change x ∈ (s.deadLetter sub y msg).2.db.outbox.rows
      unfold BusState.deadLetter
      split
      · exact hx
      · simpa [BusDb.setOffset] using hx
  | unsubscribe name | nextSub i | release => exact hx
  | offset name | replay cursor limit | handler sub y | acknowledge sub y | retry sub y msg =>
    change Option String at a
    cases a <;> exact hx

/-- What a call reports as inserted is there. -/
theorem mem_outbox_of_inserted {B : Bus} {s : BusState} {e : Envelope} {a : Option String}
    {cursor : Nat} (h : ((machine B).handle (.insert e) s a).1 = .ok (cursor, true)) :
    (⟨cursor, e⟩ : StoredEvent) ∈ ((machine B).handle (.insert e) s a).2.db.outbox.rows := by
  cases a with
  | some msg => exact absurd h (by nofun)
  | none => exact insertEvent_mem (Except.ok.inj h)

/-! ### Runs -/

/-- Every event that a call inserted is in the outbox, whether the call has returned or not. -/
def Inserted (p : BusPool) : Prop :=
  ∀ c ∈ p.calls, ∀ e cursor,
    (⟨.insert e, .ok (cursor, true)⟩ : Entry interface) ∈ c.history →
      (⟨cursor, e⟩ : StoredEvent) ∈ p.shared.db.outbox.rows

theorem Inserted.apply {B : Bus} {p : BusPool} {event : Event interface Request}
    (hp : Inserted p) (hcond : RestoresOutbox p event) :
    Inserted (p.apply (machine B) (fun r => (serve B r).run) event) := by
  intro c hc e cursor hentry
  obtain ⟨t, ht⟩ := List.mem_iff_getElem?.mp hc
  cases event with
  | spawn r =>
    rcases getElem?_append_singleton_cases ht with ⟨-, rfl⟩ | ht
    · simp at hentry
    · exact hp c (List.mem_of_getElem? ht) e cursor hentry
  | kill u =>
    obtain ⟨d, hd, -, hhistory, -⟩ := Pool.getElem?_kill ht
    rw [hhistory] at hentry
    exact hp d (List.mem_of_getElem? hd) e cursor hentry
  | step u ans =>
    rcases Pool.step_cases (M := machine B) p u ans with heq | ⟨d, o, k, hd, hrest, heq⟩
    · simp only [Pool.apply, heq] at ht ⊢
      exact hp c (List.mem_of_getElem? ht) e cursor hentry
    simp only [Pool.apply, heq] at ht ⊢
    have hkeep : ∀ x, x ∈ p.shared.db.outbox.rows →
        x ∈ ((machine B).handle o p.shared (ans o)).2.db.outbox.rows := by
      intro x hx
      refine mem_outbox_handle (fun ho => ?_) hx
      exact hcond (ho ▸ Pool.next?_eq hd hrest)
    rcases getElem?_set_cases ht with ⟨-, rfl⟩ | ⟨-, ht⟩
    · rcases List.mem_append.mp hentry with hentry | hentry
      · exact hkeep _ (hp d (List.mem_of_getElem? hd) e cursor hentry)
      · -- the call that was just made is the insertion
        have hnew := List.mem_singleton.mp hentry
        cases (Entry.mk.inj hnew).1
        exact mem_outbox_of_inserted (eq_of_heq (Entry.mk.inj hnew).2).symm
    · exact hkeep _ (hp c (List.mem_of_getElem? ht) e cursor hentry)

theorem Inserted.durable {p : BusPool} (h : Inserted p) : Durable p :=
  fun c hc e cursor _ hentry _ => h c hc e cursor hentry

/-- If every rollback of a run finds the outbox as its transaction found it, every event that
was inserted by a call that returned is in the outbox, in every state the run passes through. -/
theorem published_events_stay (B : Bus) (es : List (Event interface Request))
    (h : Pool.Meets (machine B) (fun r => (serve B r).run) RestoresOutbox (Pool.start {}) es) :
    ∀ before after, es = before ++ after → Durable (busRun B before) := by
  rintro before after rfl
  have hbefore := (Pool.meets_append.mp h).1
  exact (Pool.run_induction (P := Inserted) (fun _ _ => Inserted.apply) hbefore
    (by intro c hc; simp [Pool.start] at hc)).durable

/-! ### Two publishers and a consumer -/

def eventOne : Envelope := { id := "e1", type := "x", version := 1, payload := .null }

def eventTwo : Envelope := { id := "e2", type := "x", version := 1, payload := .null }

/-- Nothing fails. -/
def success : ∀ o, interface.Ans o
  | .subscribe _ | .unsubscribe _ | .nextSub _ | .acquire | .release | .rollback => ()
  | .insert _ | .offset _ | .replay _ _ | .begin _ _ | .handler _ _ | .acknowledge _ _
  | .retry _ _ _ | .deadLetter _ _ _ => (none : Option String)

/-- The handler throws. -/
def handlerFails : ∀ o, interface.Ans o
  | .subscribe _ | .unsubscribe _ | .nextSub _ | .acquire | .release | .rollback => ()
  | .handler _ _ => some "poison"
  | .insert _ | .offset _ | .replay _ _ | .begin _ _ | .acknowledge _ _
  | .retry _ _ _ | .deadLetter _ _ _ => (none : Option String)

/-- A consumer subscribes, and its handler fails on the event that is published next. -/
def failing : List (Event interface Request) :=
  [.spawn (.subscribe { name := "c" }), .step 0 success, .spawn (.publish eventOne 2)] ++
    List.replicate 5 (.step 1 success) ++ List.replicate 5 (.step 1 handlerFails)

theorem published_events_stay_sample : Durable (busRun {} failing) := by
  refine published_events_stay {} failing ?_ failing [] (List.append_nil _).symm
  -- nothing is inserted after the transaction began
  exact ⟨trivial, fun _ => rfl, trivial, fun _ => rfl, fun _ => rfl, fun _ => rfl, fun _ => rfl,
    fun _ => rfl, fun _ => rfl, fun _ => rfl, fun _ => rfl, fun _ => rfl, fun _ => rfl, trivial⟩

/-- The second event is published while the handler of the first one is running; that handler
then fails, and the handler of the second one does not. -/
def overlapping : List (Event interface Request) :=
  [.spawn (.subscribe { name := "c" }), .step 0 success,
   .spawn (.publish eventOne 2)] ++ List.replicate 5 (.step 1 success) ++
  [.spawn (.publish eventTwo 2), .step 2 success] ++ List.replicate 5 (.step 1 handlerFails) ++
  List.replicate 8 (.step 2 success)

/-- Both events were published, the second one under cursor two, and only the first one is in
the outbox. -/
theorem rolled_back_publish :
    (busRun {} overlapping).calls[2]?.bind Call.result? = some (.ok (some ⟨2, eventTwo⟩)) ∧
    (busRun {} overlapping).shared.db.outbox.rows.map StoredEvent.cursor = [1] ∧
    ¬ Durable (busRun {} overlapping) := by
  have hreturned : (busRun {} overlapping).calls[2]?.bind Call.result? =
      some (.ok (some ⟨2, eventTwo⟩)) := rfl
  have hinserted : (busRun {} overlapping).calls[2]?.bind (fun c => c.history[0]?) =
      some ⟨.insert eventTwo, .ok (2, true)⟩ := rfl
  have hrows : (busRun {} overlapping).shared.db.outbox.rows.map StoredEvent.cursor = [1] := rfl
  refine ⟨hreturned, hrows, fun hdurable => ?_⟩
  obtain ⟨c, hc, hresult⟩ := Option.bind_eq_some_iff.mp hreturned
  rw [hc] at hinserted
  have hmem := hdurable c (List.mem_of_getElem? hc) eventTwo 2 (some ⟨2, eventTwo⟩)
    (List.mem_of_getElem? hinserted) hresult
  have hcursor := List.mem_map_of_mem (f := StoredEvent.cursor) hmem
  rw [hrows] at hcursor
  simp at hcursor

end AriOs.Autonomy.Events
