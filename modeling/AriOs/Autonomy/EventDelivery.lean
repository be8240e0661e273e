import AriOs.Autonomy.EventDurability
import AriOs.Autonomy.EventOffsets

/-!
# No event is lost on the way to a consumer

Delivering goes through the outbox in cursor order and stops at an event whose handler fails;
whatever else happens meanwhile, it keeps the offset from passing an event. Publishing hands
the new event to a consumer without looking at what lies before it: if an earlier event is
still to be retried, the offset passes it, and no one ever comes back to it.

The deliveries exclude each other, so what one of them knows of the offset, of its batch and of
the event it is about to deliver is still true when it acts on it.

## Main results

* `process_ends`, `processRows_ends`, `drain_ends` — what one delivery, a batch and `deliver`
  promise of their calls
-/

namespace AriOs.Autonomy.Events

open AriOs.Async AriOs.Storage

/-! ### What a call knows -/

/-- What a call knows: the subscription it serves, whether it has the lock and an open
transaction, the offset it read last, the batch it read, the event it is delivering, and
whether the handler returned for that event. -/
structure Progress where
  publishing : Bool
  sub : Option Sub := none
  lock : Bool := false
  tx : Bool := false
  read : Option (String × Nat) := none
  batch : List StoredEvent := []
  current : Option (Sub × StoredEvent) := none
  resolved : Bool := false

namespace Progress

/-- The lock is acquired: nothing is known yet of what it guards. -/
def acquired (v : Progress) : Progress :=
  { v with lock := true, tx := false, read := none, batch := [], current := none, resolved := false }

/-- The offset was read; a batch that was read for another consumer is forgotten. -/
def hasRead (v : Progress) (name : String) (n : Nat) : Progress :=
  { v with
    read := some (name, n)
    batch := if v.read.map Prod.fst = some name then v.batch else [] }

/-- The event was acknowledged or given up. -/
def advanced (v : Progress) (sub : Sub) (x : StoredEvent) : Progress :=
  { v with tx := false, current := none, resolved := false, read := some (sub.name, x.cursor) }

/-- What the call knows after a call it made. -/
def after (v : Progress) : (o : Op) → o.Res → Progress
  | .nextSub _, r =>
    match (r : Option (Nat × Sub)) with
    | some (_, sub) => { v with sub := some sub }
    | none => v
  | .acquire, r =>
    match (r : Bool) with
    | true => v.acquired
    | false => v
  | .release, _ => { v with lock := false }
  | .offset name, r =>
    match (r : Except String Nat) with
    | .ok n => v.hasRead name n
    | .error _ => v
  | .replay _ _, r =>
    match (r : Except String (List StoredEvent)) with
    | .ok rows => { v with batch := rows }
    | .error _ => v
  | .begin sub x, r =>
    match (r : Except String Unit) with
    | .ok _ => { v with tx := true, current := some (sub, x), resolved := false }
    | .error _ => v
  | .handler _ _, r =>
    match (r : Except String Unit) with
    | .ok _ => { v with resolved := true }
    | .error _ => v
  | .acknowledge sub x, r =>
    match (r : Except String Unit) with
    | .ok _ => v.advanced sub x
    | .error _ => v
  | .rollback, _ => { v with tx := false }
  | .deadLetter sub x _, r =>
    match (r : Except String Unit) with
    | .ok _ => v.advanced sub x
    | .error _ => v
  | .insert _, _ | .subscribe _, _ | .unsubscribe _, _ | .retry _ _ _, _ => v

/-- The call may deliver: it has the lock, and no transaction open. -/
def Serving (v : Progress) (sub : Sub) : Prop :=
  v.lock = true ∧ v.tx = false ∧ v.sub = some sub

/-- Every event of the batch before this one is behind the offset, as the call knows it. -/
def InTurn (v : Progress) (n : Nat) (x : StoredEvent) : Prop :=
  x ∈ v.batch ∧ ∀ y ∈ v.batch, y.cursor < x.cursor → y.cursor ≤ n

/-- What a call promises when it calls out. -/
def Promise (B : Bus) (v : Progress) : Op → Prop
  | .insert _ | .subscribe _ | .unsubscribe _ | .nextSub _ | .acquire => v.lock = false
  | .release => v.lock = true ∧ v.tx = false
  | .offset _ | .rollback => v.lock = true
  | .replay cursor _ => v.lock = true ∧ v.tx = false ∧ ∃ name, v.read = some (name, cursor)
  | .begin sub x => v.Serving sub ∧ ∃ n, v.read = some (sub.name, n) ∧ n < x.cursor ∧
      (v.publishing = true ∨ v.InTurn n x)
  | .handler sub x =>
    v.lock = true ∧ v.current = some (sub, x) ∧ Wants B sub.options x.envelope
  | .acknowledge sub x => v.lock = true ∧ v.current = some (sub, x) ∧
      (Wants B sub.options x.envelope → v.resolved = true) ∧ ∃ n, v.read = some (sub.name, n)
  | .retry _ _ _ => v.lock = true ∧ v.tx = false
  | .deadLetter sub x _ => v.lock = true ∧ v.tx = false ∧ v.current = some (sub, x) ∧
      ∃ n, v.read = some (sub.name, n)

/-- What a call relies on: the offset is as it knows it, and a batch is in order. -/
def Relies (v : Progress) : (o : Op) → o.Res → Prop
  | .offset name, r => ∀ n m, (r : Except String Nat) = .ok n → v.read = some (name, m) → n = m
  | .replay _ _, r => ∀ rows, (r : Except String (List StoredEvent)) = .ok rows →
      rows.Pairwise fun x y => x.cursor < y.cursor
  | _, _ => True

end Progress

/-- How calls are reasoned about. -/
def progress (B : Bus) : Discipline interface Progress where
  upd v e := v.after e.op e.res
  pre v o := v.Promise B o
  adm v e := v.Relies e.op e.res

/-- The call publishes an event. -/
def Request.publishes : Request → Bool
  | .publish _ _ => true
  | _ => false

/-- A call knows nothing yet, but whether it publishes. -/
def startProgress (r : Request) : Progress := { publishing := r.publishes }

/-! ### What the bodies promise -/

section Bodies

variable {B : Bus} {v : Progress} {sub : Sub} {x : StoredEvent}

/-- A call whose failure is thrown. -/
theorem ends_orThrown {V α : Type} {D : Discipline interface V}
    {p : Prog interface (Except String α)}
    {Q : V → α → Prop} {E : V → BusError → Prop} {v : V} :
    Task.Ends D Q E (orThrown p) v ↔
      p.Safe D (fun w r => match r with
        | .ok a => Q w a
        | .error e => E w (.thrown e)) v := by
  unfold orThrown Task.Ends
  rw [Task.safe_mk, Prog.safe_bind]
  constructor <;> intro h <;> refine h.mono fun w r hr => ?_ <;> cases r <;> exact hr

/-- What is thrown leaves no transaction open, and the lock to be released. -/
def Throws (w : Progress) : BusError → Prop
  | .thrown _ => w.lock = true ∧ w.tx = false
  | .pending => True

/-- The event was delivered, or the consumer has it already. -/
structure Delivered (v w : Progress) (sub : Sub) (x : StoredEvent) : Prop where
  serving : w.Serving sub
  batch : (∃ m, v.read = some (sub.name, m)) → w.batch = v.batch
  publishing : w.publishing = v.publishing
  read : ∃ n, w.read = some (sub.name, n) ∧ x.cursor ≤ n ∧
    ∀ m, v.read = some (sub.name, m) → m ≤ n

/-- The error path: the transaction is rolled back first. -/
theorem giveUp_ends {msg : String} {n : Nat} (hlock : v.lock = true)
    (hcurrent : v.current = some (sub, x)) (hread : v.read = some (sub.name, n)) :
    Task.Ends (progress B) (fun w _ => w = v.advanced sub x) Throws (giveUp B sub x msg) v := by
  unfold giveUp
  rw [Task.ends_bind]
  refine Task.ends_total.mpr ⟨hlock, fun _ _ => ?_⟩
  rw [Task.ends_bind]
  refine ends_orThrown.mpr (Prog.safe_ask.mpr ⟨⟨hlock, rfl⟩, fun r _ => ?_⟩)
  cases r with
  | error e => exact ⟨hlock, rfl⟩
  | ok attempts =>
    dsimp only
    split
    · refine ends_orThrown.mpr (Prog.safe_ask.mpr ⟨⟨hlock, rfl, hcurrent, n, hread⟩, fun r _ => ?_⟩)
      cases r with
      | error e => exact ⟨hlock, rfl⟩
      | ok _ => rfl
    · exact ⟨hlock, rfl⟩

/-- The part inside the transaction: what it throws leaves the transaction open. -/
theorem tryHandle_ends {n : Nat} (hlock : v.lock = true) (hcurrent : v.current = some (sub, x))
    (hread : v.read = some (sub.name, n)) :
    Task.Ends (progress B) (fun w _ => w = v.advanced sub x)
      (fun w _ => w = { v with resolved := w.resolved }) (tryHandle B sub x) v := by
  unfold tryHandle
  rw [Task.ends_bind]
  refine Task.ends_ofExcept.mpr ⟨fun wanted hwanted => ?_, fun e _ => rfl⟩
  cases hmatch : B.isMatch x.envelope sub.options with
  | error e => simp [hmatch, Except.mapError] at hwanted
  | ok b =>
    obtain rfl : b = wanted := by simpa [hmatch, Except.mapError] using hwanted
    cases b with
    -- an event that does not match is passed over: only the offset moves
    | false =>
      refine ends_orThrown.mpr (Prog.safe_ask.mpr ⟨?_, fun r _ => ?_⟩)
      · exact ⟨hlock, hcurrent, fun hwants => absurd hmatch hwants, n, hread⟩
      · cases r with
        | error e => rfl
        | ok _ => rfl
    -- one that matches is handled before the offset moves
    | true =>
      have hwants : Wants B sub.options x.envelope := by simp [Wants, hmatch]
      refine Task.ends_bind.mpr ?_
      refine ends_orThrown.mpr (Prog.safe_ask.mpr ⟨⟨hlock, hcurrent, hwants⟩, fun r _ => ?_⟩)
      cases r with
      | error e => rfl
      | ok _ =>
        refine ends_orThrown.mpr (Prog.safe_ask.mpr ⟨?_, fun r _ => ?_⟩)
        · exact ⟨hlock, hcurrent, fun _ => rfl, n, hread⟩
        · cases r with
          | error e => rfl
          | ok _ => rfl

/-- One delivery. A publisher hands out any event; a batch is handed out in turn. -/
theorem process_ends (hserving : v.Serving sub)
    (hturn : v.publishing = true ∨
      ∃ m, v.read = some (sub.name, m) ∧ v.InTurn m x) :
    Task.Ends (progress B) (fun w _ => Delivered v w sub x) Throws (process B sub x) v := by
  obtain ⟨hlock, htx, hsub⟩ := hserving
  unfold process
  rw [Task.ends_bind]
  refine ends_orThrown.mpr (Prog.safe_ask.mpr ⟨hlock, fun r hrelies => ?_⟩)
  cases r with
  | error e => exact ⟨hlock, htx⟩
  | ok n =>
    change Task.Ends (progress B) _ _ _ (v.hasRead sub.name n)
    -- a batch that is there was read for this consumer, and the offset is still the same
    have hsame : ∀ m, v.read = some (sub.name, m) →
        n = m ∧ (v.hasRead sub.name n).batch = v.batch := by
      intro m hm
      exact ⟨hrelies n m rfl hm, by simp [Progress.hasRead, hm]⟩
    have hbatch : (∃ m, v.read = some (sub.name, m)) → (v.hasRead sub.name n).batch = v.batch :=
      fun ⟨m, hm⟩ => (hsame m hm).2
    have hdelivered : ∀ w, w = (v.hasRead sub.name n).advanced sub x → n < x.cursor →
        Delivered v w sub x := by
      rintro w rfl hlt
      refine ⟨⟨hlock, rfl, hsub⟩, hbatch, rfl, x.cursor, rfl, le_rfl, fun m hm => ?_⟩
      have := (hsame m hm).1
      omega
    split
    · rename_i hle
      exact ⟨⟨hlock, htx, hsub⟩, hbatch, rfl, n, rfl, hle, fun m hm => (hsame m hm).1.ge⟩
    · rename_i hlt
      rw [Task.ends_bind]
      refine ends_orThrown.mpr (Prog.safe_ask.mpr ⟨⟨⟨hlock, htx, hsub⟩, n, rfl, by omega, ?_⟩,
        fun r _ => ?_⟩)
      · refine hturn.imp id fun ⟨m, hm, hturn⟩ => ?_
        obtain ⟨rfl, hbatch⟩ := hsame m hm
        unfold Progress.InTurn
        rwa [hbatch]
      · cases r with
        | error e => exact ⟨hlock, htx⟩
        | ok _ =>
          refine Task.ends_orCatch.mpr ?_
          refine Prog.Safe.mono (tryHandle_ends (B := B) (n := n) hlock rfl rfl) fun w r hr => ?_
          cases r with
          | ok _ => exact hdelivered w hr (by omega)
          | error e =>
            cases e with
            | pending => trivial
            | thrown msg =>
              have hw : w.lock = true ∧ w.current = some (sub, x) ∧
                  w.read = some (sub.name, n) := by
                rw [show w = _ from hr]
                exact ⟨hlock, rfl, rfl⟩
              refine Task.Ends.mono (giveUp_ends hw.1 hw.2.1 hw.2.2) fun w' _ hw' => ?_
              refine hdelivered w' ?_ (by omega)
              rw [hw', show w = _ from hr]
              rfl

/-- A batch, one event after the other; those before `rows` have been delivered. -/
theorem processRows_ends {rows before : List StoredEvent} {n : Nat} (hserving : v.Serving sub)
    (hbatch : v.batch = before ++ rows) (hread : v.read = some (sub.name, n))
    (hsorted : v.batch.Pairwise fun x y => x.cursor < y.cursor)
    (hbefore : ∀ y ∈ before, y.cursor ≤ n) :
    Task.Ends (progress B) (fun w _ => w.Serving sub) Throws (processRows B sub rows) v := by
  induction rows generalizing v before n with
  | nil => exact hserving
  | cons x rows ih =>
    rw [processRows, Task.ends_bind]
    have hturn : v.InTurn n x := by
      refine ⟨by simp [hbatch], fun y hy hlt => ?_⟩
      rw [hbatch] at hy
      rcases List.mem_append.mp hy with hy | hy
      · exact hbefore y hy
      · -- the rows after `x` lie beyond it
        rw [hbatch, List.pairwise_append, List.pairwise_cons] at hsorted
        rcases List.mem_cons.mp hy with rfl | hy
        · omega
        · have := hsorted.2.1.1 y hy
          omega
    refine (process_ends hserving (.inr ⟨n, hread, hturn⟩)).mono fun w _ hw => ?_
    have hkeep : w.batch = v.batch := hw.batch ⟨n, hread⟩
    obtain ⟨m, hm, hle, hmono⟩ := hw.read
    have hsplit : w.batch = (before ++ [x]) ++ rows := by
      rw [hkeep, hbatch, List.append_assoc, List.singleton_append]
    refine ih hw.serving hsplit hm ?_ ?_
    · rwa [hkeep]
    · intro y hy
      rcases List.mem_append.mp hy with hy | hy
      · exact le_trans (hbefore y hy) (hmono n hread)
      · obtain rfl := List.mem_singleton.mp hy
        exact hle

theorem drain_ends (rounds : Nat) (hserving : v.Serving sub) :
    Task.Ends (progress B) (fun w _ => w.Serving sub) Throws (drain B sub rounds) v := by
  induction rounds generalizing v with
  | zero => trivial
  | succ rounds ih =>
    obtain ⟨hlock, htx, hsub⟩ := hserving
    rw [drain, Task.ends_bind]
    refine ends_orThrown.mpr (Prog.safe_ask.mpr ⟨hlock, fun r _ => ?_⟩)
    cases r with
    | error e => exact ⟨hlock, htx⟩
    | ok n =>
      refine Task.ends_bind.mpr ?_
      refine ends_orThrown.mpr (Prog.safe_ask.mpr ⟨⟨hlock, htx, sub.name, rfl⟩, fun r hr => ?_⟩)
      cases r with
      | error e => exact ⟨hlock, htx⟩
      | ok rows =>
        dsimp only
        split
        · exact ⟨hlock, htx, hsub⟩
        · refine Task.ends_bind.mpr ?_
          -- the batch is worked off under the lock that is held
          have hserving : { v.hasRead sub.name n with batch := rows }.Serving sub :=
            ⟨hlock, htx, hsub⟩
          refine (processRows_ends hserving (List.nil_append rows).symm rfl (hr rows rfl)
            (by simp)).mono fun w _ hw => ?_
          split
          · exact hw
          · exact ih hw

theorem publishing_after (v : Progress) (o : Op) (r : o.Res) :
    (v.after o r).publishing = v.publishing := by
  cases o <;> simp only [Progress.after] <;> (try split) <;> rfl

/-- A delivery that has the lock to itself gives it back, however it ends. -/
theorem serialized_ends {body : BusTask Unit} (hlock : v.lock = false)
    (hbody : Task.Ends (progress B) (fun w _ => w.lock = true ∧ w.tx = false) Throws body
      v.acquired) :
    Task.Ends (progress B) (fun w _ => w.lock = false)
      (fun w e => e ≠ .pending → w.lock = false) (serialized body) v := by
  unfold serialized
  rw [Task.ends_bind]
  refine Task.ends_total.mpr ⟨hlock, fun free _ => ?_⟩
  cases free with
  | false => exact fun h => absurd rfl h
  | true =>
    refine Task.ends_orCatch.mpr (Prog.Safe.mono hbody fun w r hr => ?_)
    cases r with
    | ok _ => exact Task.ends_total.mpr ⟨hr, fun _ _ => rfl⟩
    | error e =>
      cases e with
      | pending => exact fun h => absurd rfl h
      | thrown msg =>
        refine Task.ends_bind.mpr (Task.ends_total.mpr ⟨hr, fun _ _ => ?_⟩)
        exact fun _ => rfl

theorem dispatch_ends (rounds i : Nat) (hlock : v.lock = false)
    (hpublishing : v.publishing = true) :
    Task.Ends (progress B) (fun w _ => w.lock = false) (fun _ _ => True) (dispatch B x rounds i)
      v := by
  induction rounds generalizing v i with
  | zero => trivial
  | succ rounds ih =>
    rw [dispatch, Task.ends_bind]
    refine Task.ends_total.mpr ⟨hlock, fun r _ => ?_⟩
    cases r with
    | none => exact hlock
    -- whether the delivery succeeds or throws, the next subscriber is served
    | some slot =>
      obtain ⟨j, sub⟩ := slot
      refine Task.ends_orCatch.mpr ?_
      have hserving : (Progress.acquired { v with sub := some sub }).Serving sub := ⟨rfl, rfl, rfl⟩
      have hprocess := process_ends (B := B) (x := x) hserving (.inl hpublishing)
      have hdelivery := serialized_ends (v := { v with sub := some sub }) hlock
        (hprocess.mono fun w _ hw => ⟨hw.serving.1, hw.serving.2.1⟩)
      refine Prog.Safe.mono (hdelivery.preserves (f := Progress.publishing)
        fun v e => publishing_after v e.op e.res) fun w r hr => ?_
      cases r with
      | ok _ => exact ih (j + 1) hr.1 (hr.2.trans hpublishing)
      | error e =>
        cases e with
        | pending => trivial
        | thrown msg => exact ih (j + 1) (hr.1 (by simp)) (hr.2.trans hpublishing)

theorem deliverFrom_ends (rounds i : Nat) (hlock : v.lock = false) :
    Task.Ends (progress B) (fun w _ => w.lock = false) (fun _ _ => True) (deliverFrom B rounds i)
      v := by
  induction rounds generalizing v i with
  | zero => trivial
  | succ rounds ih =>
    rw [deliverFrom, Task.ends_bind]
    refine Task.ends_total.mpr ⟨hlock, fun r _ => ?_⟩
    cases r with
    | none => exact hlock
    | some slot =>
      obtain ⟨j, sub⟩ := slot
      rw [Task.ends_bind]
      have hserving : (Progress.acquired { v with sub := some sub }).Serving sub := ⟨rfl, rfl, rfl⟩
      have hdrain := drain_ends (B := B) rounds hserving
      have hdelivery := serialized_ends (v := { v with sub := some sub }) hlock
        (hdrain.mono fun w _ hw => ⟨hw.1, hw.2.1⟩)
      refine Prog.Safe.mono hdelivery fun w r hr => ?_
      cases r with
      -- a subscriber whose delivery throws ends the round
      | ok _ => exact ih (j + 1) hr
      | error e => trivial

/-- Every call of every operation keeps its promise. -/
theorem serve_ends (r : Request) :
    Task.Ends (progress B) (fun _ _ => True) (fun _ _ => True) (serve B r) (startProgress r) := by
  cases r with
  | publish input rounds =>
    rw [serve, Task.ends_bind, publish, Task.ends_bind]
    refine Task.ends_ofExcept.mpr ⟨fun e _ => ?_, fun _ _ => trivial⟩
    rw [Task.ends_bind]
    refine ends_orThrown.mpr (Prog.safe_ask.mpr ⟨rfl, fun r _ => ?_⟩)
    cases r with
    | error msg => trivial
    | ok inserted =>
      obtain ⟨cursor, fresh⟩ := inserted
      refine Task.ends_bind.mpr ?_
      exact (dispatch_ends rounds 0 rfl rfl).mono fun _ _ _ => trivial
  | deliver rounds =>
    rw [serve, Task.ends_bind]
    exact (deliverFrom_ends rounds 0 rfl).mono fun _ _ _ => trivial
  | subscribe sub =>
    rw [serve, Task.ends_bind]
    refine ends_orThrown.mpr (Prog.safe_ask.mpr ⟨rfl, fun r _ => ?_⟩)
    cases r <;> trivial
  | unsubscribe name =>
    rw [serve, Task.ends_bind]
    exact Task.ends_total.mpr ⟨rfl, fun _ _ => trivial⟩

end Bodies

/-! ### What a call knows is so -/

/-- What the call that has the lock knows. -/
structure Owns (B : Bus) (s : BusState) (v : Progress) : Prop where
  locked : s.locked = true
  tx : v.tx = s.saved.isSome
  read : ∀ name n, v.read = some (name, n) → s.db.offsets name = n ∧ BatchOk s name v.batch
  current : ∀ sub x, v.current = some (sub, x) →
    NextFor B s sub.name sub.options x ∧ s.db.offsets sub.name < x.cursor
  resolved : v.resolved = true → ∀ sub x, v.current = some (sub, x) →
    (sub.name, x.cursor) ∈ s.handled

structure Knows (B : Bus) (s : BusState) (v : Progress) : Prop where
  sub : ∀ sub, v.sub = some sub → s.db.subscriptions sub.name = some sub.options
  owns : v.lock = true → Owns B s v

/-- When a call may be made: an event that is inserted reads back as it is; a subscription is
recorded while no transaction is open; and a publisher delivers an event that is in the outbox
while every event between the consumer's offset and it is ruled out by the subscription. -/
def Allowed (B : Bus) (s : BusState) (publishes : Bool) : Op → Prop
  | .insert e => B.reload e = .ok e
  | .subscribe sub => s.saved = none ∨ s.db.subscriptions sub.name ≠ none
  | .begin sub x => publishes = true → x ∈ s.db.outbox.rows ∧
      ∀ y ∈ s.db.outbox.rows, s.db.offsets sub.name < y.cursor → y.cursor < x.cursor →
        B.isMatch y.envelope sub.options = .ok false
  | _ => True

section Calls

variable {B : Bus} {s s' : BusState} {v : Progress}

theorem Owns.saved_none (h : Owns B s v) (htx : v.tx = false) : s.saved = none := by
  have := h.tx
  rw [htx] at this
  simpa using this.symm

theorem Knows.unmoved (h : Unmoved s s') (hsaved : s'.saved = s.saved)
    (hlocked : s'.locked = s.locked)
    (hknows : Knows B s v) : Knows B s' v := by
  refine ⟨by rw [h.subscriptions]; exact hknows.sub, fun hlock => ?_⟩
  obtain ⟨hlocked', htx, hread, hcurrent, hresolved⟩ := hknows.owns hlock
  refine ⟨by rwa [hlocked], by rwa [hsaved], fun name n hn => ?_, fun sub x hx => ?_, ?_⟩
  · rw [h.offsets]
    exact ⟨(hread name n hn).1, h.batchOk (hread name n hn).2⟩
  · rw [h.offsets]
    exact ⟨h.nextFor (hcurrent sub x hx).1, (hcurrent sub x hx).2⟩
  · rw [h.handled]
    exact hresolved

theorem Knows.grown {e : Envelope} (h : Grown s s' e) (hinv : BusInv B s)
    (hlocked : s'.locked = s.locked) (hknows : Knows B s v) : Knows B s' v := by
  refine ⟨by rw [h.subscriptions]; exact hknows.sub, fun hlock => ?_⟩
  obtain ⟨hlocked', htx, hread, hcurrent, hresolved⟩ := hknows.owns hlock
  refine ⟨by rwa [hlocked], by rwa [h.saved], fun name n hn => ?_, fun sub x hx => ?_, ?_⟩
  · rw [h.offsets]
    exact ⟨(hread name n hn).1, h.batchOk hinv (hread name n hn).2⟩
  · rw [h.offsets]
    exact ⟨h.nextFor hinv (hcurrent sub x hx).1, (hcurrent sub x hx).2⟩
  · rw [h.handled]
    exact hresolved

theorem Knows.subscribe (sub : Sub) (hknows : Knows B s v) : Knows B (s.subscribe sub).2 v := by
  have h := subscribed s sub
  refine ⟨fun other hother => subscriptions_subscribe (hknows.sub other hother), fun hlock => ?_⟩
  obtain ⟨hlocked', htx, hread, hcurrent, hresolved⟩ := hknows.owns hlock
  refine ⟨by rwa [h.locked], by rwa [h.saved], fun name n hn => ?_, fun other x hx => ?_, ?_⟩
  · rw [h.offsets]
    exact ⟨(hread name n hn).1, (hread name n hn).2.subscribe⟩
  · rw [h.offsets]
    exact ⟨(hcurrent other x hx).1.subscribe, (hcurrent other x hx).2⟩
  · rw [h.handled]
    exact hresolved

/-- Subscriptions on record stay there; a rollback restores what is there. -/
theorem subscriptions_handle {o : Op} {a : interface.Ans o} {name : String} {d : Definition}
    (hinv : BusInv B s) (hknown : s.db.subscriptions name = some d) :
    ((machine B).handle o s a).2.db.subscriptions name = some d := by
  cases o with
  | insert e =>
    change Option String at a
    cases a with
    | some msg => exact hknown
    | none =>
      change (s.db.insertEvent e).2.subscriptions name = some d
      obtain ⟨outbox, -, heq⟩ := insertEvent_cases s.db e
      rwa [heq]
  | subscribe sub => exact subscriptions_subscribe hknown
  -- what the transaction started from has the same subscriptions
  | rollback =>
    change s.committed.subscriptions name = some d
    rwa [hinv.snapshot.subscriptions]
  | acquire =>
    change (if s.locked then (false, s) else (true, { s with locked := true })).2.db.subscriptions
      name = some d
    split <;> exact hknown
  | begin sub y =>
    change Option String at a
    cases a with
    | some msg => exact hknown
    | none =>
      change s.begin.2.db.subscriptions name = some d
      unfold BusState.begin
      split <;> exact hknown
  | deadLetter sub y msg =>
    change Option String at a
    cases a with
    | some msg => exact hknown
    | none =>
      change (s.deadLetter sub y msg).2.db.subscriptions name = some d
      cases hsaved : s.saved with
      | none => rwa [(advances_deadLetter hsaved).1.subscriptions]
      | some d => simpa [BusState.deadLetter, hsaved] using hknown
  | unsubscribe name | nextSub i | release => exact hknown
  | offset name | replay cursor limit | handler sub y | acknowledge sub y | retry sub y msg =>
    change Option String at a
    cases a <;> exact hknown

/-- What a call makes of the bus, and of what it knows, is right. -/
def Sound (B : Bus) (v : Progress) (s' : BusState) (o : Op) (r : o.Res) : Prop :=
  v.Relies o r ∧ BusInv B s' ∧ Knows B s' (v.after o r)

/-- A call that failed changed nothing, and nothing is known that was not known before. -/
theorem sound_of_eq {o : Op} {r : o.Res} (hinv : BusInv B s) (hknows : Knows B s v)
    (hrelies : v.Relies o r) (hview : v.after o r = v) : Sound B v s o r :=
  ⟨hrelies, hinv, hview.symm ▸ hknows⟩

theorem mem_subs_of_nextSub {i j : Nat} {sub : Sub} (h : s.nextSub i = some (j, sub)) :
    some sub ∈ s.subs := by
  obtain ⟨slot, hslot, hsub⟩ := List.exists_of_findSome?_eq_some h
  have hmem := List.mem_of_mem_drop hslot
  obtain ⟨other, hother, heq⟩ := Option.map_eq_some_iff.mp hsub
  obtain ⟨-, rfl⟩ := Prod.mk.inj heq
  have := (List.mem_zipIdx' hmem).2
  exact List.mem_of_getElem (by rw [← this, hother])

theorem sound_unsubscribe (name : String) (hinv : BusInv B s) (hknows : Knows B s v) :
    Sound B v (s.unsubscribe name) (.unsubscribe name) () := by
  have h : Unmoved s (s.unsubscribe name) := ⟨rfl, rfl, rfl, rfl, rfl, rfl, rfl⟩
  refine ⟨trivial, hinv.unmoved h hinv.snapshot hinv.offset_le (fun sub hsub => ?_) hinv.free,
    hknows.unmoved h rfl rfl⟩
  obtain ⟨slot, hslot, heq⟩ := List.mem_map.mp hsub
  rwa [(Option.filter_eq_some_iff.mp heq).1] at hslot

theorem sound_nextSub (i : Nat) (hinv : BusInv B s) (hknows : Knows B s v)
    (hpre : v.lock = false) : Sound B v s (.nextSub i) (s.nextSub i) := by
  refine ⟨trivial, hinv, ?_⟩
  unfold Progress.after
  dsimp only
  split
  · rename_i j sub hnext
    refine ⟨fun other hother => ?_, fun hlock => absurd hlock (by simp [hpre])⟩
    obtain rfl := Option.some_inj.mp hother
    exact hinv.subs sub (mem_subs_of_nextSub hnext)
  · exact hknows

theorem sound_acquire (hinv : BusInv B s) (hknows : Knows B s v) (hfree : s.locked = false) :
    Sound B v { s with locked := true } .acquire true := by
  have h : Unmoved s { s with locked := true } := ⟨rfl, rfl, rfl, rfl, rfl, rfl, rfl⟩
  refine ⟨trivial, hinv.unmoved h hinv.snapshot hinv.offset_le (fun _ hsub => hsub) (by simp),
    hknows.sub, fun _ => ?_⟩
  have hsaved := hinv.free hfree
  exact ⟨rfl, by simp [Progress.after, Progress.acquired, hsaved], by nofun, by nofun, by nofun⟩

theorem sound_release (hinv : BusInv B s) (hknows : Knows B s v) (hlock : v.lock = true)
    (htx : v.tx = false) : Sound B v { s with locked := false } .release () := by
  have h : Unmoved s { s with locked := false } := ⟨rfl, rfl, rfl, rfl, rfl, rfl, rfl⟩
  have hsaved := (hknows.owns hlock).saved_none htx
  exact ⟨trivial, hinv.unmoved_idle h hsaved hsaved fun _ hsub => hsub, hknows.sub,
    fun hlock' => absurd hlock' (by simp [Progress.after])⟩

theorem sound_offset (name : String) (hinv : BusInv B s) (hknows : Knows B s v)
    (hlock : v.lock = true) : Sound B v s (.offset name) (.ok (s.db.offsets name)) := by
  obtain ⟨hlocked, htx, hread, hcurrent, hresolved⟩ := hknows.owns hlock
  refine ⟨fun n m hn hm => ?_, hinv, hknows.sub, fun _ => ⟨hlocked, htx, fun other n hn => ?_,
    hcurrent, hresolved⟩⟩
  · rw [← Except.ok.inj hn]
    exact (hread name m hm).1
  · obtain ⟨rfl, rfl⟩ := Prod.mk.inj (Option.some_inj.mp hn)
    refine ⟨rfl, ?_⟩
    change BatchOk s name (if v.read.map Prod.fst = some name then v.batch else [])
    split
    · rename_i hsame
      obtain ⟨⟨other, m⟩, hm, rfl⟩ := Option.map_eq_some_iff.mp hsame
      exact (hread other m hm).2
    · exact ⟨by simp, by simp⟩

theorem sound_replay (cursor limit : Nat) (hinv : BusInv B s) (hknows : Knows B s v)
    (hlock : v.lock = true) (htx : v.tx = false)
    (hread : ∃ name, v.read = some (name, cursor)) :
    Sound B v s (.replay cursor limit)
      (.ok ((s.db.rowsAfter cursor (replayLimit limit)).filterMap fun x =>
        (B.reload x.envelope).toOption.map (StoredEvent.mk x.cursor))) := by
  obtain ⟨name, hname⟩ := hread
  obtain ⟨hlocked, htx', hread, hcurrent, hresolved⟩ := hknows.owns hlock
  have hoffset := (hread name cursor hname).1
  obtain ⟨batch, heq, hbatch, hsorted⟩ := hinv.replay ((hknows.owns hlock).saved_none htx) name
    (replayLimit limit)
  rw [hoffset] at heq
  rw [heq]
  refine ⟨fun rows hrows => ?_, hinv, hknows.sub, fun _ => ⟨hlocked, htx', fun other n hn => ?_,
    hcurrent, hresolved⟩⟩
  · rwa [← Except.ok.inj hrows]
  · obtain ⟨rfl, rfl⟩ := Prod.mk.inj (Option.some_inj.mp (hname.symm.trans hn))
    exact ⟨hoffset, hbatch⟩

/-- The delivery begins: the event is the next one for its consumer. -/
theorem sound_begin {sub : Sub} {x : StoredEvent} (hinv : BusInv B s) (hknows : Knows B s v)
    (hpre : v.Promise B (.begin sub x)) (hallowed : Allowed B s v.publishing (.begin sub x)) :
    Sound B v { s with saved := some s.db } (.begin sub x) (.ok ()) := by
  obtain ⟨⟨hlock, htx, hsub⟩, n, hn, hlt, hturn⟩ := hpre
  obtain ⟨hlocked, -, hread, -, -⟩ := hknows.owns hlock
  have hsaved := (hknows.owns hlock).saved_none htx
  have hoffset := (hread sub.name n hn).1
  have hknown := hknows.sub sub hsub
  have hnext : NextFor B s sub.name sub.options x := by
    rcases hturn with hpublishing | ⟨hx, hbefore⟩
    · obtain ⟨hmem, hruled⟩ := hallowed hpublishing
      refine ⟨hknown, by rwa [committed_of_none hsaved], fun y hy hpast hwants => ?_⟩
      by_contra hlt'
      exact hwants (hruled y hy hpast (by omega))
    · exact (hread sub.name n hn).2.nextFor hx hknown (by rwa [hoffset])
  have h := unmoved_begin hsaved
  refine ⟨trivial, hinv.begin hsaved hlocked, hknows.sub, fun _ => ⟨hlocked, rfl,
    fun name m hm => ?_, fun sub' x' hx' => ?_, by nofun⟩⟩
  · exact ⟨(hread name m hm).1, h.batchOk (hread name m hm).2⟩
  · obtain ⟨rfl, rfl⟩ := Prod.mk.inj (Option.some_inj.mp hx')
    exact ⟨h.nextFor hnext, hoffset.trans_lt hlt⟩

theorem sound_handler {sub : Sub} {x : StoredEvent} (hinv : BusInv B s) (hknows : Knows B s v)
    (hpre : v.Promise B (.handler sub x)) :
    Sound B v { s with handled := s.handled ++ [(sub.name, x.cursor)] } (.handler sub x)
      (.ok ()) := by
  obtain ⟨hlock, hx, hwants⟩ := hpre
  obtain ⟨hlocked, htx, hread, hcurrent, -⟩ := hknows.owns hlock
  obtain ⟨hnext, hpast⟩ := hcurrent sub x hx
  refine ⟨trivial, hinv.handler hnext hpast hwants, hknows.sub, fun _ => ⟨hlocked, htx,
    fun name n hn => ?_, fun sub' x' hx' => ?_, fun _ sub' x' hx' => ?_⟩⟩
  · exact ⟨(hread name n hn).1, (hread name n hn).2.rows, (hread name n hn).2.closed⟩
  · obtain ⟨hnext', hpast'⟩ := hcurrent sub' x' hx'
    exact ⟨⟨hnext'.known, hnext'.mem, hnext'.first⟩, hpast'⟩
  · obtain ⟨rfl, rfl⟩ := Prod.mk.inj (Option.some_inj.mp (hx.symm.trans hx'))
    exact List.mem_append_right _ (List.mem_singleton.mpr rfl)

/-- The offset moves to the event that is being delivered. -/
theorem Knows.advanced {sub : Sub} {x : StoredEvent} {n : Nat} (hinv : BusInv B s)
    (hknows : Knows B s v) (hlock : v.lock = true) (hx : v.current = some (sub, x))
    (hn : v.read = some (sub.name, n)) (h : Advances s s' sub.name x.cursor)
    (hlocked' : s'.locked = s.locked) : Knows B s' (v.advanced sub x) := by
  obtain ⟨hlocked, -, hread, hcurrent, -⟩ := hknows.owns hlock
  refine ⟨by rw [h.subscriptions]; exact hknows.sub, fun _ => ⟨by rwa [hlocked'], ?_,
    fun name m hm => ?_, by nofun, by nofun⟩⟩
  · rw [h.saved]
    rfl
  · obtain ⟨rfl, rfl⟩ := Prod.mk.inj (Option.some_inj.mp hm)
    exact ⟨h.offset_self, h.batchOk hinv (hcurrent sub x hx).2 (hread sub.name n hn).2⟩

theorem sound_acknowledge {sub : Sub} {x : StoredEvent} (hinv : BusInv B s)
    (hknows : Knows B s v) (hpre : v.Promise B (.acknowledge sub x)) :
    Sound B v (s.acknowledge sub x) (.acknowledge sub x) (.ok ()) := by
  obtain ⟨hlock, hx, hresolved, n, hn⟩ := hpre
  have h := advances_acknowledge s sub x
  obtain ⟨hnext, hpast⟩ := (hknows.owns hlock).current sub x hx
  refine ⟨trivial, hinv.advance h hnext hpast fun hwants => ?_,
    hknows.advanced hinv hlock hx hn h rfl⟩
  exact .inl ((hknows.owns hlock).resolved (hresolved hwants) sub x hx)

theorem sound_rollback (hinv : BusInv B s) (hknows : Knows B s v) (hlock : v.lock = true) :
    Sound B v s.rollback .rollback () := by
  obtain ⟨hlocked, htx, hread, hcurrent, hresolved⟩ := hknows.owns hlock
  have hdb : s.rollback.db = s.committed := rfl
  refine ⟨trivial, hinv.rollback, ?_, fun _ => ⟨hlocked, rfl, fun name n hn => ?_,
    fun sub x hx => ?_, hresolved⟩⟩
  · rw [hdb, hinv.snapshot.subscriptions]
    exact hknows.sub
  · obtain ⟨hoffset, hbatch⟩ := hread name n hn
    rw [hdb, hinv.snapshot.offsets]
    refine ⟨hoffset, hbatch.rows, fun y hy x hx hpast hle => ?_⟩
    rw [hdb, hinv.snapshot.offsets] at hpast
    exact hbatch.closed y (hinv.mem_of_committed hy) x hx hpast hle
  · obtain ⟨hnext, hpast⟩ := hcurrent sub x hx
    rw [hdb, hinv.snapshot.offsets]
    exact ⟨hnext.rollback hinv, hpast⟩

theorem sound_retry {sub : Sub} {x : StoredEvent} {msg : String} (hinv : BusInv B s)
    (hknows : Knows B s v) (hpre : v.Promise B (.retry sub x msg)) (attempts : Nat) :
    Sound B v { s with db := s.db.setAttempts sub.name x.cursor attempts } (.retry sub x msg)
      (.ok attempts) := by
  have hsaved := (hknows.owns hpre.1).saved_none hpre.2
  have h : Unmoved s { s with db := s.db.setAttempts sub.name x.cursor attempts } :=
    ⟨rfl, rfl, rfl, rfl, rfl, rfl, by simp [BusState.committed, hsaved, BusDb.setAttempts]⟩
  exact ⟨trivial, hinv.unmoved_idle h hsaved hsaved fun _ hsub => hsub, hknows.unmoved h rfl rfl⟩

theorem sound_deadLetter {sub : Sub} {x : StoredEvent} {msg : String} (hinv : BusInv B s)
    (hknows : Knows B s v) (hpre : v.Promise B (.deadLetter sub x msg)) :
    Sound B v (s.deadLetter sub x msg).2 (.deadLetter sub x msg) (.ok ()) := by
  obtain ⟨hlock, htx, hx, n, hn⟩ := hpre
  have hsaved := (hknows.owns hlock).saved_none htx
  obtain ⟨h, hsettled⟩ : Advances s (s.deadLetter sub x msg).2 sub.name x.cursor ∧ _ :=
    advances_deadLetter hsaved
  obtain ⟨hnext, hpast⟩ := (hknows.owns hlock).current sub x hx
  refine ⟨trivial, hinv.advance h hnext hpast fun _ => hsettled,
    hknows.advanced hinv hlock hx hn h ?_⟩
  unfold BusState.deadLetter
  rw [hsaved]

/-- **One call.** A call that keeps its promise, where it is allowed, keeps the invariant, and
what it knows afterwards is so. -/
theorem sound_handle {o : Op} {a : interface.Ans o} (hinv : BusInv B s) (hknows : Knows B s v)
    (hpre : v.Promise B o) (hallowed : Allowed B s v.publishing o) :
    Sound B v ((machine B).handle o s a).2 o ((machine B).handle o s a).1 := by
  cases o with
  | insert e =>
    change Option String at a
    cases a with
    -- a statement that fails leaves everything as it is
    | some msg => exact sound_of_eq hinv hknows trivial rfl
    | none =>
      have h := grown_insert s e
      exact ⟨trivial, hinv.grown h hallowed rfl rfl, hknows.grown h hinv rfl⟩
  | subscribe sub => exact ⟨trivial, hinv.subscribe hallowed, hknows.subscribe sub⟩
  | unsubscribe name => exact sound_unsubscribe name hinv hknows
  | nextSub i => exact sound_nextSub i hinv hknows hpre
  | acquire =>
    by_cases hlocked : s.locked
    · have heq : (machine B).handle .acquire s a = (false, s) := if_pos hlocked
      rw [heq]
      exact sound_of_eq hinv hknows trivial rfl
    · have heq : (machine B).handle .acquire s a = (true, { s with locked := true }) :=
        if_neg hlocked
      rw [heq]
      exact sound_acquire hinv hknows (by simpa using hlocked)
  | release => exact sound_release hinv hknows hpre.1 hpre.2
  | offset name =>
    change Option String at a
    cases a with
    | some msg => exact sound_of_eq hinv hknows (by nofun) rfl
    | none => exact sound_offset name hinv hknows hpre
  | replay cursor limit =>
    change Option String at a
    cases a with
    | some msg => exact sound_of_eq hinv hknows (by nofun) rfl
    | none => exact sound_replay cursor limit hinv hknows hpre.1 hpre.2.1 hpre.2.2
  | begin sub x =>
    change Option String at a
    cases a with
    | some msg => exact sound_of_eq hinv hknows trivial rfl
    | none =>
      -- whoever holds the lock without a transaction finds none open
      have hsaved := (hknows.owns hpre.1.1).saved_none hpre.1.2.1
      have heq : (machine B).handle (.begin sub x) s none =
          (.ok (), { s with saved := some s.db }) := by
        change s.begin = _
        simp only [BusState.begin, hsaved]
        rfl
      rw [heq]
      exact sound_begin hinv hknows hpre hallowed
  | handler sub x =>
    change Option String at a
    cases a with
    | some msg => exact sound_of_eq hinv hknows trivial rfl
    | none => exact sound_handler hinv hknows hpre
  | acknowledge sub x =>
    change Option String at a
    cases a with
    | some msg => exact sound_of_eq hinv hknows trivial rfl
    | none => exact sound_acknowledge hinv hknows hpre
  | rollback => exact sound_rollback hinv hknows hpre
  | retry sub x msg =>
    change Option String at a
    cases a with
    | some msg => exact sound_of_eq hinv hknows trivial rfl
    | none => exact sound_retry hinv hknows hpre _
  | deadLetter sub x msg =>
    change Option String at a
    cases a with
    | some msg => exact sound_of_eq hinv hknows trivial rfl
    | none =>
      have hsaved := (hknows.owns hpre.1).saved_none hpre.2.1
      have hok : ((machine B).handle (.deadLetter sub x msg) s none).1 = .ok () := by
        change (s.deadLetter sub x msg).1 = .ok ()
        unfold BusState.deadLetter
        rw [hsaved]
      rw [hok]
      exact sound_deadLetter hinv hknows hpre

/-- A call without the lock disturbs no other call. -/
theorem knows_of_unlocked {w : Progress} {o : Op} {a : interface.Ans o} (hinv : BusInv B s)
    (hpre : v.Promise B o) (hlock : v.lock = false) (hknows : Knows B s w) :
    Knows B ((machine B).handle o s a).2 w := by
  cases o with
  | insert e =>
    change Option String at a
    cases a with
    | some msg => exact hknows
    | none => exact hknows.grown (grown_insert s e) hinv rfl
  | subscribe sub => exact hknows.subscribe sub
  | unsubscribe name =>
    have h : Unmoved s (s.unsubscribe name) := ⟨rfl, rfl, rfl, rfl, rfl, rfl, rfl⟩
    exact hknows.unmoved h rfl rfl
  | nextSub i => exact hknows
  | acquire =>
    by_cases hlocked : s.locked
    · have heq : (machine B).handle .acquire s a = (false, s) := if_pos hlocked
      rwa [heq]
    · have heq : (machine B).handle .acquire s a = (true, { s with locked := true }) :=
        if_neg hlocked
      rw [heq]
      -- no one has the lock
      exact ⟨hknows.sub, fun hw => absurd (hknows.owns hw).locked hlocked⟩
  | release => simp [Progress.Promise, hlock] at hpre
  | offset name | rollback => simp [Progress.Promise, hlock] at hpre
  | replay cursor limit | handler sub x | acknowledge sub x | retry sub x msg =>
    simp [Progress.Promise, hlock] at hpre
  | deadLetter sub x msg => simp [Progress.Promise, hlock] at hpre
  | begin sub x => simp [Progress.Promise, Progress.Serving, hlock] at hpre

/-- A call takes the lock only where no other call has it. -/
theorem lock_after {w : Progress} {o : Op} {a : interface.Ans o} (hknows : Knows B s w)
    (hapart : v.lock = true → w.lock = false)
    (hlock : (v.after o ((machine B).handle o s a).1).lock = true) : w.lock = false := by
  cases o with
  | acquire =>
    by_cases hlocked : s.locked
    · have heq : (machine B).handle .acquire s a = (false, s) := if_pos hlocked
      rw [heq] at hlock
      exact hapart hlock
    · by_contra hw
      exact hlocked (hknows.owns (by simpa using hw)).locked
  | release => simp [Progress.after] at hlock
  | _ =>
    apply hapart
    revert hlock
    simp only [Progress.after, Progress.hasRead, Progress.advanced]
    try split
    all_goals exact id

end Calls

/-! ### Runs -/

/-- Every call of a run is made where it is allowed. -/
def DeliversNext (B : Bus) (p : BusPool) : Event interface Request → Prop
  | .step t _ => ∀ c o, p.calls[t]? = some c → p.next? t = some o →
      Allowed B p.shared c.request.publishes o
  | _ => True

theorem publishing_view {B : Bus}
    (c : Call interface Request (Except BusError (Option StoredEvent))) :
    (c.view (progress B) startProgress).publishing = c.request.publishes := by
  obtain ⟨request, history, rest⟩ := c
  simp only [Call.view]
  induction history using List.reverseRecOn with
  | nil => rfl
  | append_singleton history e ih =>
    rw [List.foldl_append, List.foldl_cons, List.foldl_nil]
    exact (publishing_after _ e.op e.res).trans ih

theorem modular_bus (B : Bus) :
    Modular (machine B) (fun r => (serve B r).run) (progress B) startProgress (fun _ _ => True)
      (BusInv B) (Knows B) (fun v w => v.lock = true → w.lock = false) (DeliversNext B) where
  body_safe r := Prog.Safe.mono (serve_ends r) fun _ _ _ => trivial
  symm v w h hw := by
    by_contra hv
    simp [h (by simpa using hv)] at hw
  spawn p r _ _ := ⟨⟨by nofun, by nofun⟩, fun w _ => by nofun⟩
  call := by
    intro p t ans c o k hcond hc hrest hinv hknown hpre
    have hallowed := hcond c o hc (Pool.next?_eq hc hrest)
    rw [← publishing_view (B := B) c] at hallowed
    exact sound_handle hinv (hknown t c hc) hpre hallowed
  frame := by
    intro s v o a w hinv hv hpre hw hapart
    refine ⟨?_, lock_after hw hapart⟩
    cases hlock : v.lock with
    | false => exact knows_of_unlocked hinv hpre hlock hw
    | true =>
      -- the other call does not have the lock
      have hwlock := hapart hlock
      exact ⟨fun sub hsub => subscriptions_handle hinv (hw.sub sub hsub),
        fun h => absurd h (by simp [hwlock])⟩

/-- In every run in which publishing hands out the next event only, subscriptions are recorded
outside transactions and what is published reads back, every state that is passed through has
this: each event behind a consumer's offset that its subscription wants was handled or given
up, and each consumer handled its events in cursor order. -/
theorem no_event_lost (B : Bus) (es : List (Event interface Request))
    (h : Pool.Meets (machine B) (fun r => (serve B r).run) (DeliversNext B) (Pool.start {}) es) :
    ∀ before after, es = before ++ after →
      NoLoss B (busRun B before).shared ∧ InOrder (busRun B before).shared := by
  rintro before after rfl
  have hinv := ((modular_bus B).run (Pool.meets_append.mp h).1
    (Modular.coherent_start (busInv_empty B))).shared
  exact ⟨hinv.noLoss, hinv.inOrder⟩

/-! ### A failed event, redelivered and passed over -/

theorem allowed_step {B : Bus} {p : BusPool} {t : Nat} {ans : ∀ o, interface.Ans o}
    {c : Call interface Request (Except BusError (Option StoredEvent))} {o : Op}
    (hc : p.calls[t]? = some c) (ho : p.next? t = some o)
    (h : Allowed B p.shared c.request.publishes o) : DeliversNext B p (.step t ans) := by
  intro c' o' hc' ho'
  obtain rfl := Option.some_inj.mp (hc.symm.trans hc')
  obtain rfl := Option.some_inj.mp (ho.symm.trans ho')
  exact h

/-- The handler fails on an event, and does not when the event is delivered once more. -/
def redelivered : List (Event interface Request) :=
  failing ++ .spawn (.deliver 2) :: List.replicate 10 (.step 2 success)

theorem no_event_lost_sample :
    NoLoss {} (busRun {} redelivered).shared ∧ InOrder (busRun {} redelivered).shared ∧
      (busRun {} redelivered).shared.handled = [("c", 1)] := by
  have hmeets : Pool.Meets (machine {}) (fun r => (serve {} r).run) (DeliversNext {})
      (Pool.start {}) redelivered := by
    refine ⟨trivial, allowed_step rfl rfl (.inl rfl), trivial, allowed_step rfl rfl rfl,
      allowed_step rfl rfl trivial, allowed_step rfl rfl trivial, allowed_step rfl rfl trivial,
      allowed_step rfl rfl fun _ => ⟨.head _, ?_⟩, allowed_step rfl rfl trivial, allowed_step rfl
      rfl trivial, allowed_step rfl rfl trivial, allowed_step rfl rfl trivial, allowed_step rfl rfl
      trivial, trivial, allowed_step rfl rfl trivial, allowed_step rfl rfl trivial, allowed_step rfl
      rfl trivial, allowed_step rfl rfl trivial, allowed_step rfl rfl trivial, allowed_step rfl rfl
      (by nofun), allowed_step rfl rfl trivial, allowed_step rfl rfl trivial, allowed_step rfl rfl
      trivial, allowed_step rfl rfl trivial, trivial⟩
    -- the first event is the first there is
    intro y hy hpast hlt
    have hpast : 0 < y.cursor := hpast
    have hlt : y.cursor < 1 := hlt
    omega
  obtain ⟨hloss, horder⟩ := no_event_lost {} redelivered hmeets redelivered []
    (List.append_nil _).symm
  exact ⟨hloss, horder, rfl⟩

/-- The handler fails on an event, and another one is published. -/
def passing : List (Event interface Request) :=
  failing ++ .spawn (.publish eventTwo 2) :: List.replicate 9 (.step 2 success)

/-- The consumer's offset is past the first event, which it neither handled nor gave up. -/
theorem passed_over :
    (busRun {} passing).shared.db.offsets "c" = 2 ∧
    (busRun {} passing).shared.handled = [("c", 2)] ∧
    (busRun {} passing).shared.db.deadLetters = [] ∧
    ¬ NoLoss {} (busRun {} passing).shared := by
  have hoffset : (busRun {} passing).shared.db.offsets "c" = 2 := rfl
  have hhandled : (busRun {} passing).shared.handled = [("c", 2)] := rfl
  have hletters : (busRun {} passing).shared.db.deadLetters = [] := rfl
  refine ⟨hoffset, hhandled, hletters, fun hloss => ?_⟩
  have hfirst : (busRun {} passing).shared.db.outbox.rows[0]? = some ⟨1, eventOne⟩ := rfl
  have hsettled := hloss "c" {} rfl ⟨1, eventOne⟩ (List.mem_of_getElem? hfirst)
    (by rw [hoffset]; decide) (by simp [Wants, Bus.isMatch])
  rw [Settled, hhandled, hletters] at hsettled
  simp at hsettled

end AriOs.Autonomy.Events
