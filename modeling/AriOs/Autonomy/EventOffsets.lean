import AriOs.Autonomy.EventBus

/-!
# Offsets and what lies behind them

What is to hold of a bus between any two calls: behind a consumer's offset lies no event that
the consumer wants and that was neither handled nor given up. The offset moves in two places
only, and both move it to the event being delivered; so nothing is lost as long as that event
is the *next* one, no wanted event lying between the offset and it.

The invariant speaks of the connection's view of the database and of the view a rollback would
restore. They differ in the rows that were inserted while the transaction was open, and those
lie beyond everything that was committed.

## Main results

* `BusInv.insert`, `BusInv.begin`, `BusInv.rollback`, `BusInv.handler`, `BusInv.advance` — what
  each part of a delivery needs in order to keep the invariant
-/

namespace AriOs.Autonomy.Events

open AriOs.Async AriOs.Storage

/-! ### The property -/

/-- The subscription does not rule the event out. -/
def Wants (B : Bus) (o : Definition) (e : Envelope) : Prop := B.isMatch e o ≠ .ok false

/-- The consumer's handler returned for this event, or the event was given up for it. -/
def Settled (s : BusState) (consumer : String) (cursor : Nat) : Prop :=
  (consumer, cursor) ∈ s.handled ∨
    ∃ l ∈ s.db.deadLetters, l.consumer = consumer ∧ l.cursor = cursor

/-- Every event behind a consumer's offset that its subscription wants is settled. -/
def NoLoss (B : Bus) (s : BusState) : Prop :=
  ∀ consumer o, s.db.subscriptions consumer = some o → ∀ x ∈ s.db.outbox.rows,
    x.cursor ≤ s.db.offsets consumer → Wants B o x.envelope → Settled s consumer x.cursor

/-- A consumer's handler never returns for an event before one it returned for earlier. -/
def InOrder (s : BusState) : Prop :=
  s.handled.Pairwise fun before after => before.1 = after.1 → before.2 ≤ after.2

/-! ### The invariant -/

/-- The rows of an outbox, in the order they were inserted. -/
structure OutboxOk (B : Bus) (d : BusDb) : Prop where
  ascending : d.outbox.rows.Pairwise fun x y => x.cursor < y.cursor
  range : ∀ x ∈ d.outbox.rows, 1 ≤ x.cursor ∧ x.cursor ≤ d.seq
  reads : ∀ x ∈ d.outbox.rows, B.reload x.envelope = .ok x.envelope

/-- What a rollback would restore differs in nothing but events inserted since. -/
structure Snapshot (B : Bus) (old new : BusDb) : Prop where
  outbox : OutboxOk B old
  seq_le : old.seq ≤ new.seq
  rows : ∀ x ∈ old.outbox.rows, x ∈ new.outbox.rows
  offsets : old.offsets = new.offsets
  deadLetters : old.deadLetters = new.deadLetters
  subscriptions : old.subscriptions = new.subscriptions

theorem OutboxOk.snapshot {B : Bus} {d : BusDb} (h : OutboxOk B d) : Snapshot B d d :=
  ⟨h, le_rfl, fun _ hx => hx, rfl, rfl, rfl⟩

/-- The event is in the outbox for good, and no event that the consumer wants lies between the
consumer's offset and it. -/
structure NextFor (B : Bus) (s : BusState) (consumer : String) (o : Definition)
    (x : StoredEvent) : Prop where
  known : s.db.subscriptions consumer = some o
  mem : x ∈ s.committed.outbox.rows
  first : ∀ y ∈ s.db.outbox.rows, s.db.offsets consumer < y.cursor → Wants B o y.envelope →
    x.cursor ≤ y.cursor

structure BusInv (B : Bus) (s : BusState) : Prop where
  outbox : OutboxOk B s.db
  snapshot : Snapshot B s.committed s.db
  offset_le : ∀ consumer, s.db.offsets consumer ≤ s.committed.seq
  unknown : ∀ consumer, s.db.subscriptions consumer = none → s.db.offsets consumer = 0
  subs : ∀ sub, some sub ∈ s.subs → s.db.subscriptions sub.name = some sub.options
  free : s.locked = false → s.saved = none
  noLoss : NoLoss B s
  inOrder : InOrder s
  handled : ∀ consumer cursor, (consumer, cursor) ∈ s.handled →
    cursor ≤ s.db.offsets consumer ∨ ∃ o x, x.cursor = cursor ∧ NextFor B s consumer o x

/-- A batch that was read for a consumer: rows that are there for good, and with each of them
every row between the offset and it. -/
structure BatchOk (s : BusState) (consumer : String) (batch : List StoredEvent) : Prop where
  rows : ∀ x ∈ batch, x ∈ s.committed.outbox.rows
  closed : ∀ y ∈ s.db.outbox.rows, ∀ x ∈ batch, s.db.offsets consumer < y.cursor →
    y.cursor ≤ x.cursor → y ∈ batch

section

variable {B : Bus} {s s' : BusState} {sub : Sub} {x : StoredEvent} {consumer : String}
  {o : Definition} {batch : List StoredEvent}

theorem busInv_empty (B : Bus) : BusInv B {} where
  outbox := ⟨List.Pairwise.nil, by nofun, by nofun⟩
  snapshot := OutboxOk.snapshot ⟨List.Pairwise.nil, by nofun, by nofun⟩
  offset_le _ := le_rfl
  unknown _ _ := rfl
  subs _ h := by simp at h
  free _ := rfl
  noLoss := by nofun
  inOrder := List.Pairwise.nil
  handled _ _ h := by simp at h

theorem committed_of_none (h : s.saved = none) : s.committed = s.db := by
  simp [BusState.committed, h]

/-- What was committed is there. -/
theorem BusInv.mem_of_committed (h : BusInv B s) (hx : x ∈ s.committed.outbox.rows) :
    x ∈ s.db.outbox.rows := h.snapshot.rows x hx

/-- An event of a batch is the next one, if the rows before it are behind the offset. -/
theorem BatchOk.nextFor (hbatch : BatchOk s consumer batch) (hx : x ∈ batch)
    (hknown : s.db.subscriptions consumer = some o)
    (hbefore : ∀ y ∈ batch, y.cursor < x.cursor → y.cursor ≤ s.db.offsets consumer) :
    NextFor B s consumer o x := by
  refine ⟨hknown, hbatch.rows x hx, fun y hy hpast _ => ?_⟩
  by_contra hlt
  have hmem := hbatch.closed y hy x hx hpast (by omega)
  have := hbefore y hmem (by omega)
  omega

/-! ### Calls that touch neither events nor offsets -/

/-- Nothing changed that the property speaks of. -/
structure Unmoved (s s' : BusState) : Prop where
  outbox : s'.db.outbox = s.db.outbox
  seq : s'.db.seq = s.db.seq
  offsets : s'.db.offsets = s.db.offsets
  deadLetters : s'.db.deadLetters = s.db.deadLetters
  subscriptions : s'.db.subscriptions = s.db.subscriptions
  handled : s'.handled = s.handled
  committed_outbox : s'.committed.outbox = s.committed.outbox

theorem Unmoved.nextFor (h : Unmoved s s') (hnext : NextFor B s consumer o x) :
    NextFor B s' consumer o x :=
  ⟨by rw [h.subscriptions]; exact hnext.known, by rw [h.committed_outbox]; exact hnext.mem,
    by rw [h.outbox, h.offsets]; exact hnext.first⟩

theorem Unmoved.batchOk (h : Unmoved s s') (hbatch : BatchOk s consumer batch) :
    BatchOk s' consumer batch :=
  ⟨by rw [h.committed_outbox]; exact hbatch.rows,
    by rw [h.outbox, h.offsets]; exact hbatch.closed⟩

theorem BusInv.unmoved (hinv : BusInv B s) (h : Unmoved s s')
    (hsnapshot : Snapshot B s'.committed s'.db)
    (hoffset : ∀ consumer, s.db.offsets consumer ≤ s'.committed.seq)
    (hsubs : ∀ sub, some sub ∈ s'.subs → some sub ∈ s.subs)
    (hfree : s'.locked = false → s'.saved = none) : BusInv B s' where
  outbox := by
    obtain ⟨hascending, hrange, hreads⟩ := hinv.outbox
    exact ⟨by rwa [h.outbox], by rwa [h.outbox, h.seq], by rwa [h.outbox]⟩
  snapshot := hsnapshot
  offset_le := by rwa [h.offsets]
  unknown := by rw [h.subscriptions, h.offsets]; exact hinv.unknown
  subs sub hsub := by rw [h.subscriptions]; exact hinv.subs sub (hsubs sub hsub)
  free := hfree
  noLoss := by
    unfold NoLoss Settled
    rw [h.subscriptions, h.outbox, h.offsets, h.handled, h.deadLetters]
    exact hinv.noLoss
  inOrder := by rw [InOrder, h.handled]; exact hinv.inOrder
  handled c k hck := by
    rw [h.handled] at hck
    rw [h.offsets]
    rcases hinv.handled c k hck with hle | ⟨o, x, hx, hnext⟩
    · exact .inl hle
    · exact .inr ⟨o, x, hx, h.nextFor hnext⟩

/-- Outside a transaction, what was committed is all there is. -/
theorem BusInv.unmoved_idle (hinv : BusInv B s) (h : Unmoved s s') (hsaved : s.saved = none)
    (hsaved' : s'.saved = none) (hsubs : ∀ sub, some sub ∈ s'.subs → some sub ∈ s.subs) :
    BusInv B s' := by
  have hcommitted := committed_of_none hsaved
  have hcommitted' := committed_of_none hsaved'
  refine hinv.unmoved h ?_ ?_ hsubs fun _ => hsaved'
  · rw [hcommitted']
    obtain ⟨hascending, hrange, hreads⟩ := hinv.outbox
    exact OutboxOk.snapshot ⟨by rwa [h.outbox], by rwa [h.outbox, h.seq], by rwa [h.outbox]⟩
  · intro c
    have hle := hinv.offset_le c
    rw [hcommitted] at hle
    rwa [hcommitted', h.seq]

/-! ### An event is inserted -/

theorem insertEvent_cases (d : BusDb) (e : Envelope) :
    ∃ outbox : Table StoredEvent.key,
      (outbox.rows = d.outbox.rows ∨ outbox.rows = d.outbox.rows ++ [⟨d.seq + 1, e⟩]) ∧
      (d.insertEvent e).2 = { d with outbox, seq := d.seq + 1 } := by
  simp only [BusDb.insertEvent]
  split
  · rename_i outbox hinsert
    exact ⟨outbox, .inr (Table.rows_of_insert? hinsert), rfl⟩
  · exact ⟨d.outbox, .inl rfl, rfl⟩

/-- A cursor was used up: beyond everything that is there a row was inserted, if any. -/
structure Grown (s s' : BusState) (e : Envelope) : Prop where
  rows : s'.db.outbox.rows = s.db.outbox.rows ∨
    s'.db.outbox.rows = s.db.outbox.rows ++ [⟨s.db.seq + 1, e⟩]
  seq : s'.db.seq = s.db.seq + 1
  offsets : s'.db.offsets = s.db.offsets
  deadLetters : s'.db.deadLetters = s.db.deadLetters
  subscriptions : s'.db.subscriptions = s.db.subscriptions
  handled : s'.handled = s.handled
  saved : s'.saved = s.saved

theorem grown_insert (s : BusState) (e : Envelope) :
    Grown s { s with db := (s.db.insertEvent e).2 } e := by
  obtain ⟨outbox, hrows, heq⟩ := insertEvent_cases s.db e
  rw [heq]
  exact ⟨hrows, rfl, rfl, rfl, rfl, rfl, rfl⟩

namespace Grown

variable {e : Envelope}

theorem mem (h : Grown s s' e) (hx : x ∈ s.db.outbox.rows) : x ∈ s'.db.outbox.rows := by
  rcases h.rows with hrows | hrows <;> rw [hrows]
  · exact hx
  · exact List.mem_append_left _ hx

theorem mem_committed (h : Grown s s' e) (hx : x ∈ s.committed.outbox.rows) :
    x ∈ s'.committed.outbox.rows := by
  cases hsaved : s.saved with
  | none =>
    rw [committed_of_none hsaved] at hx
    rw [committed_of_none (h.saved.trans hsaved)]
    exact h.mem hx
  | some d =>
    simpa [BusState.committed, h.saved, hsaved] using hx

/-- The new row lies beyond the one that was there. -/
theorem mem_cases (h : Grown s s' e) {y : StoredEvent} (hy : y ∈ s'.db.outbox.rows) :
    y ∈ s.db.outbox.rows ∨ y = ⟨s.db.seq + 1, e⟩ := by
  rcases h.rows with hrows | hrows <;> rw [hrows] at hy
  · exact .inl hy
  · exact (List.mem_append.mp hy).imp_right List.mem_singleton.mp

theorem nextFor (h : Grown s s' e) (hinv : BusInv B s) (hnext : NextFor B s consumer o x) :
    NextFor B s' consumer o x := by
  refine ⟨by rw [h.subscriptions]; exact hnext.known, h.mem_committed hnext.mem, ?_⟩
  intro y hy hpast hwants
  rw [h.offsets] at hpast
  rcases h.mem_cases hy with hy | rfl
  · exact hnext.first y hy hpast hwants
  · have hrange := (hinv.outbox.range x (hinv.mem_of_committed hnext.mem)).2
    exact le_trans hrange (Nat.le_succ _)

theorem batchOk (h : Grown s s' e) (hinv : BusInv B s) (hbatch : BatchOk s consumer batch) :
    BatchOk s' consumer batch := by
  refine ⟨fun x hx => h.mem_committed (hbatch.rows x hx), fun y hy x hx hpast hle => ?_⟩
  rw [h.offsets] at hpast
  rcases h.mem_cases hy with hy | rfl
  · exact hbatch.closed y hy x hx hpast hle
  · have hrange := (hinv.outbox.range x (hinv.mem_of_committed (hbatch.rows x hx))).2
    have : s.db.seq + 1 ≤ x.cursor := hle
    omega

theorem outboxOk (h : Grown s s' e) (hok : OutboxOk B s.db) (hreads : B.reload e = .ok e) :
    OutboxOk B s'.db := by
  refine ⟨?_, ?_, ?_⟩
  · rcases h.rows with hrows | hrows <;> rw [hrows]
    · exact hok.ascending
    · rw [List.pairwise_append]
      refine ⟨hok.ascending, List.pairwise_singleton _ _, fun x hx y hy => ?_⟩
      obtain rfl := List.mem_singleton.mp hy
      exact Nat.lt_succ_of_le (hok.range x hx).2
  · intro x hx
    rw [h.seq]
    rcases h.mem_cases hx with hx | rfl
    · have := hok.range x hx
      omega
    · exact ⟨Nat.succ_pos _, le_rfl⟩
  · intro x hx
    rcases h.mem_cases hx with hx | rfl
    · exact hok.reads x hx
    · exact hreads

theorem snapshot (h : Grown s s' e) (hinv : BusInv B s) (hok : OutboxOk B s'.db) :
    Snapshot B s'.committed s'.db := by
  cases hsaved : s.saved with
  | none =>
    rw [committed_of_none (h.saved.trans hsaved)]
    exact hok.snapshot
  | some d =>
    have hcommitted : s'.committed = s.committed := by
      simp [BusState.committed, h.saved, hsaved]
    rw [hcommitted]
    obtain ⟨houtbox, hseq, hrows, hoffsets, hletters, hsubs⟩ := hinv.snapshot
    refine ⟨houtbox, ?_, ?_, ?_, ?_, ?_⟩
    · rw [h.seq]
      omega
    · exact fun x hx => h.mem (hrows x hx)
    · rw [h.offsets, hoffsets]
    · rw [h.deadLetters, hletters]
    · rw [h.subscriptions, hsubs]

theorem offset_le (h : Grown s s' e) (hinv : BusInv B s) (c : String) :
    s'.db.offsets c ≤ s'.committed.seq := by
  have hle := hinv.offset_le c
  rw [h.offsets]
  cases hsaved : s.saved with
  | none =>
    rw [committed_of_none hsaved] at hle
    rw [committed_of_none (h.saved.trans hsaved), h.seq]
    omega
  | some d =>
    have hcommitted : s'.committed = s.committed := by
      simp [BusState.committed, h.saved, hsaved]
    rwa [hcommitted]

end Grown

/-- An event that reads back is inserted, whether a transaction is open or not. -/
theorem BusInv.grown {e : Envelope} (hinv : BusInv B s) (h : Grown s s' e)
    (hreads : B.reload e = .ok e) (hsubs : s'.subs = s.subs) (hlocked : s'.locked = s.locked) :
    BusInv B s' where
  outbox := h.outboxOk hinv.outbox hreads
  snapshot := h.snapshot hinv (h.outboxOk hinv.outbox hreads)
  offset_le := h.offset_le hinv
  unknown := by rw [h.subscriptions, h.offsets]; exact hinv.unknown
  subs := by rw [hsubs, h.subscriptions]; exact hinv.subs
  free := by rw [hlocked, h.saved]; exact hinv.free
  noLoss := by
    intro c o hknown y hy hle hwants
    rw [h.subscriptions] at hknown
    rw [h.offsets] at hle
    rcases h.mem_cases hy with hy | rfl
    · have hsettled := hinv.noLoss c o hknown y hy hle hwants
      rwa [Settled, h.handled, h.deadLetters]
    · -- every offset is behind the new row
      have := hinv.offset_le c
      have := hinv.snapshot.seq_le
      have : s.db.seq + 1 ≤ s.db.offsets c := hle
      omega
  inOrder := by rw [InOrder, h.handled]; exact hinv.inOrder
  handled c k hck := by
    rw [h.handled] at hck
    rw [h.offsets]
    rcases hinv.handled c k hck with hle | ⟨o, x, hx, hnext⟩
    · exact .inl hle
    · exact .inr ⟨o, x, hx, h.nextFor hinv hnext⟩

/-! ### A consumer subscribes -/

/-- The consumer's subscription is on record, or is put there. -/
theorem subscribe_cases (s : BusState) (sub : Sub) :
    (s.subscribe sub).2 = s ∨
    (s.db.subscriptions sub.name = some sub.options ∧
      (s.subscribe sub).2 = { s with subs := s.subs ++ [some sub] }) ∨
    (s.db.subscriptions sub.name = none ∧
      (s.subscribe sub).2 = { s with
        subs := s.subs ++ [some sub]
        db := { s.db with subscriptions := fun c =>
          if c = sub.name then some sub.options else s.db.subscriptions c } }) := by
  unfold BusState.subscribe
  split
  · exact .inl rfl
  · split
    · rename_i old hold
      split
      · exact .inl rfl
      · rename_i hsame
        rw [not_not] at hsame
        exact .inr (.inl ⟨hold.trans (congrArg some hsame), rfl⟩)
    · rename_i hnone
      exact .inr (.inr ⟨hnone, rfl⟩)

/-- A subscription on record stays there. -/
theorem subscriptions_subscribe (hknown : s.db.subscriptions consumer = some o) :
    (s.subscribe sub).2.db.subscriptions consumer = some o := by
  rcases subscribe_cases s sub with heq | ⟨-, heq⟩ | ⟨hnone, heq⟩
  · rwa [heq]
  · rwa [heq]
  · have hne : consumer ≠ sub.name := by
      rintro rfl
      simp [hknown] at hnone
    rw [heq]
    simpa [hne] using hknown

/-- Apart from subscriptions, `subscribe` changes nothing that the property speaks of. -/
structure Subscribed (s s' : BusState) : Prop where
  outbox : s'.db.outbox = s.db.outbox
  seq : s'.db.seq = s.db.seq
  offsets : s'.db.offsets = s.db.offsets
  deadLetters : s'.db.deadLetters = s.db.deadLetters
  handled : s'.handled = s.handled
  saved : s'.saved = s.saved
  locked : s'.locked = s.locked

theorem subscribed (s : BusState) (sub : Sub) : Subscribed s (s.subscribe sub).2 := by
  rcases subscribe_cases s sub with heq | ⟨-, heq⟩ | ⟨-, heq⟩ <;> rw [heq] <;>
    exact ⟨rfl, rfl, rfl, rfl, rfl, rfl, rfl⟩

theorem Subscribed.committed_outbox (h : Subscribed s s') :
    s'.committed.outbox = s.committed.outbox := by
  unfold BusState.committed
  rw [h.saved]
  cases s.saved with
  | none => exact h.outbox
  | some d => rfl

theorem NextFor.subscribe (hnext : NextFor B s consumer o x) :
    NextFor B (s.subscribe sub).2 consumer o x := by
  have h := subscribed s sub
  refine ⟨subscriptions_subscribe hnext.known, by rw [h.committed_outbox]; exact hnext.mem, ?_⟩
  rw [h.outbox, h.offsets]
  exact hnext.first

theorem BatchOk.subscribe (hbatch : BatchOk s consumer batch) :
    BatchOk (s.subscribe sub).2 consumer batch := by
  have h := subscribed s sub
  refine ⟨by rw [h.committed_outbox]; exact hbatch.rows, ?_⟩
  rw [h.outbox, h.offsets]
  exact hbatch.closed

/-- A consumer that was not on record has offset zero, and no event lies behind that. -/
theorem BusInv.subscribe_new (hinv : BusInv B s) (hsaved : s.saved = none)
    (hnone : s.db.subscriptions sub.name = none)
    (heq : (s.subscribe sub).2 = { s with
      subs := s.subs ++ [some sub]
      db := { s.db with subscriptions := fun c =>
        if c = sub.name then some sub.options else s.db.subscriptions c } }) :
    BusInv B (s.subscribe sub).2 := by
  have h := subscribed s sub
  have hok : OutboxOk B (s.subscribe sub).2.db := by
    obtain ⟨hascending, hrange, hreads⟩ := hinv.outbox
    exact ⟨by rwa [h.outbox], by rwa [h.outbox, h.seq], by rwa [h.outbox]⟩
  have hcommitted : (s.subscribe sub).2.committed = (s.subscribe sub).2.db :=
    committed_of_none (h.saved.trans hsaved)
  have hzero := hinv.unknown sub.name hnone
  constructor
  case outbox => exact hok
  case snapshot => exact hcommitted ▸ hok.snapshot
  case offset_le =>
    intro c
    have hle := hinv.offset_le c
    rw [committed_of_none hsaved] at hle
    rwa [hcommitted, h.offsets, h.seq]
  case unknown =>
    intro c hc
    rw [h.offsets]
    rw [heq] at hc
    by_cases hname : c = sub.name
    · rw [hname, hzero]
    · exact hinv.unknown c (by simpa [hname] using hc)
  case subs =>
    intro other hother
    rw [heq] at hother ⊢
    rcases List.mem_append.mp hother with hother | hother
    · have hknown := hinv.subs other hother
      have hne : other.name ≠ sub.name := by
        intro hname
        rw [hname, hnone] at hknown
        simp at hknown
      simpa [hne] using hknown
    · obtain rfl := Option.some_inj.mp (List.mem_singleton.mp hother)
      simp
  case free => exact fun _ => h.saved.trans hsaved
  -- a new consumer starts at zero, before every row
  case noLoss =>
    intro c o hknown x hx hle hwants
    rw [h.outbox] at hx
    rw [h.offsets] at hle
    rw [Settled, h.handled, h.deadLetters]
    by_cases hname : c = sub.name
    · have := (hinv.outbox.range x hx).1
      rw [hname, hzero] at hle
      omega
    · rw [heq] at hknown
      exact hinv.noLoss c o (by simpa [hname] using hknown) x hx hle hwants
  case inOrder =>
    rw [InOrder, h.handled]
    exact hinv.inOrder
  case handled =>
    intro c k hck
    rw [h.handled] at hck
    rw [h.offsets]
    rcases hinv.handled c k hck with hle | ⟨o, x, hx, hnext⟩
    · exact .inl hle
    · exact .inr ⟨o, x, hx, hnext.subscribe⟩

/-- A subscription is on record already, or no transaction is open that could take it back. -/
theorem BusInv.subscribe (hinv : BusInv B s)
    (hrecord : s.saved = none ∨ s.db.subscriptions sub.name ≠ none) :
    BusInv B (s.subscribe sub).2 := by
  rcases subscribe_cases s sub with heq | ⟨hknown, heq⟩ | ⟨hnone, heq⟩
  · rwa [heq]
  · rw [heq]
    obtain ⟨houtbox, hsnapshot, hoffset, hunknown, hsubs, hfree, hloss, horder, hhandled⟩ := hinv
    refine ⟨houtbox, hsnapshot, hoffset, hunknown, fun other hother => ?_, hfree, hloss, horder,
      fun c k hck => ?_⟩
    · rcases List.mem_append.mp hother with hother | hother
      · exact hsubs other hother
      · obtain rfl := Option.some_inj.mp (List.mem_singleton.mp hother)
        exact hknown
    · rcases hhandled c k hck with hle | ⟨o, x, hx, hnext⟩
      · exact .inl hle
      · exact .inr ⟨o, x, hx, ⟨hnext.known, hnext.mem, hnext.first⟩⟩
  · exact hinv.subscribe_new (hrecord.resolve_right fun hne => hne hnone) hnone heq

/-! ### A delivery -/

theorem unmoved_begin (hsaved : s.saved = none) : Unmoved s { s with saved := some s.db } :=
  ⟨rfl, rfl, rfl, rfl, rfl, rfl, by rw [committed_of_none hsaved]; rfl⟩

theorem BusInv.begin (hinv : BusInv B s) (hsaved : s.saved = none) (hlocked : s.locked = true) :
    BusInv B { s with saved := some s.db } := by
  refine hinv.unmoved (unmoved_begin hsaved) hinv.outbox.snapshot (fun c => ?_) (fun _ h => h)
    fun hfree => ?_
  · have hle := hinv.offset_le c
    rwa [committed_of_none hsaved] at hle
  · simp [hlocked] at hfree

theorem NextFor.rollback (hinv : BusInv B s) (hnext : NextFor B s consumer o x) :
    NextFor B s.rollback consumer o x := by
  have hdb : s.rollback.db = s.committed := rfl
  refine ⟨?_, hnext.mem, fun y hy hpast => ?_⟩
  · rw [hdb, hinv.snapshot.subscriptions]
    exact hnext.known
  · rw [hdb, hinv.snapshot.offsets] at hpast
    exact hnext.first y (hinv.mem_of_committed hy) hpast

/-- A rollback takes back nothing but events beyond every offset. -/
theorem BusInv.rollback (hinv : BusInv B s) : BusInv B s.rollback := by
  have hdb : s.rollback.db = s.committed := rfl
  have hsnapshot := hinv.snapshot
  -- what the transaction started from agrees with the database on all of these
  refine ⟨hsnapshot.outbox, hsnapshot.outbox.snapshot, ?_, ?_, ?_, fun _ => rfl, ?_, hinv.inOrder,
    ?_⟩
  · intro c
    rw [hdb, hsnapshot.offsets]
    exact hinv.offset_le c
  · rw [hdb, hsnapshot.offsets, hsnapshot.subscriptions]
    exact hinv.unknown
  · rw [hdb, hsnapshot.subscriptions]
    exact hinv.subs
  · intro c o hknown x hx hle hwants
    rw [hdb, hsnapshot.subscriptions] at hknown
    rw [hdb, hsnapshot.offsets] at hle
    have hsettled := hinv.noLoss c o hknown x (hinv.mem_of_committed hx) hle hwants
    unfold Settled
    rw [hdb, hsnapshot.deadLetters]
    exact hsettled
  · intro c k hck
    rw [hdb, hsnapshot.offsets]
    rcases hinv.handled c k hck with hle | ⟨o, x, hx, hnext⟩
    · exact .inl hle
    · exact .inr ⟨o, x, hx, hnext.rollback hinv⟩

/-- The handler returns for the next event: no event it returned for lies beyond this one. -/
theorem BusInv.handler (hinv : BusInv B s) (hnext : NextFor B s consumer o x)
    (hpast : s.db.offsets consumer < x.cursor) (hwants : Wants B o x.envelope) :
    BusInv B { s with handled := s.handled ++ [(consumer, x.cursor)] } := by
  obtain ⟨houtbox, hsnapshot, hoffset, hunknown, hsubs, hfree, hloss, horder, hhandled⟩ := hinv
  refine ⟨houtbox, hsnapshot, hoffset, hunknown, hsubs, hfree, ?_, ?_, ?_⟩
  · intro c p hknown y hy hle hwanted
    exact (hloss c p hknown y hy hle hwanted).imp_left (List.mem_append_left _)
  · refine List.pairwise_append.mpr ⟨horder, List.pairwise_singleton _ _, ?_⟩
    rintro ⟨c, k⟩ hck entry hentry hsame
    obtain rfl := List.mem_singleton.mp hentry
    obtain rfl : c = consumer := hsame
    rcases hhandled c k hck with hle | ⟨p, y, rfl, hnext'⟩
    · exact le_trans hle hpast.le
    · -- both events are next, so the later one is not beyond the earlier one
      obtain rfl : p = o := Option.some_inj.mp (hnext'.known.symm.trans hnext.known)
      exact hnext'.first x (hsnapshot.rows x hnext.mem) hpast hwants
  · intro c k hck
    rcases List.mem_append.mp hck with hck | hck
    · rcases hhandled c k hck with hle | ⟨p, y, hy, hnext'⟩
      · exact .inl hle
      · exact .inr ⟨p, y, hy, ⟨hnext'.known, hnext'.mem, hnext'.first⟩⟩
    · obtain ⟨rfl, rfl⟩ := Prod.mk.inj (List.mem_singleton.mp hck)
      exact .inr ⟨o, x, rfl, ⟨hnext.known, hnext.mem, hnext.first⟩⟩

/-- A consumer's offset is moved, and what the transaction did is committed. -/
structure Advances (s s' : BusState) (consumer : String) (cursor : Nat) : Prop where
  outbox : s'.db.outbox = s.db.outbox
  seq : s'.db.seq = s.db.seq
  offsets : s'.db.offsets = fun c => if c = consumer then cursor else s.db.offsets c
  deadLetters : ∀ l ∈ s.db.deadLetters, l ∈ s'.db.deadLetters
  subscriptions : s'.db.subscriptions = s.db.subscriptions
  handled : s'.handled = s.handled
  subs : s'.subs = s.subs
  saved : s'.saved = none

theorem Advances.settled {cursor k : Nat} {c : String} (h : Advances s s' consumer cursor)
    (hsettled : Settled s c k) : Settled s' c k := by
  unfold Settled
  rw [h.handled]
  exact hsettled.imp_right fun ⟨l, hl, hlc⟩ => ⟨l, h.deadLetters l hl, hlc⟩

theorem Advances.offset_self {cursor : Nat} (h : Advances s s' consumer cursor) :
    s'.db.offsets consumer = cursor := by
  rw [h.offsets]
  simp

theorem Advances.offset_of_ne {cursor : Nat} {c : String} (h : Advances s s' consumer cursor)
    (hne : c ≠ consumer) : s'.db.offsets c = s.db.offsets c := by
  rw [h.offsets]
  simp [hne]

theorem Advances.mem_committed {cursor : Nat} (h : Advances s s' consumer cursor)
    (hinv : BusInv B s) (hx : x ∈ s.committed.outbox.rows) : x ∈ s'.committed.outbox.rows := by
  rw [committed_of_none h.saved, h.outbox]
  exact hinv.mem_of_committed hx

/-- A batch outlives a step of its own consumer. -/
theorem Advances.batchOk {cursor : Nat} (h : Advances s s' consumer cursor) (hinv : BusInv B s)
    (hpast : s.db.offsets consumer < cursor) (hbatch : BatchOk s consumer batch) :
    BatchOk s' consumer batch := by
  refine ⟨fun x hx => h.mem_committed hinv (hbatch.rows x hx), fun y hy x hx hlt hle => ?_⟩
  rw [h.outbox] at hy
  rw [h.offset_self] at hlt
  exact hbatch.closed y hy x hx (by omega) hle

theorem OutboxOk.eq_of_cursor {d : BusDb} (hok : OutboxOk B d) {x y : StoredEvent}
    (hx : x ∈ d.outbox.rows) (hy : y ∈ d.outbox.rows) (h : x.cursor = y.cursor) : x = y := by
  by_contra hne
  obtain ⟨i, hi, rfl⟩ := List.mem_iff_getElem.mp hx
  obtain ⟨j, hj, rfl⟩ := List.mem_iff_getElem.mp hy
  have hpair := List.pairwise_iff_getElem.mp hok.ascending
  rcases lt_trichotomy i j with hij | rfl | hij
  · exact absurd h (hpair i j hi hj hij).ne
  · exact hne rfl
  · exact absurd h (hpair j i hj hi hij).ne'

/-- The offset is moved to the next event, which is settled if it is wanted. -/
theorem BusInv.advance (hinv : BusInv B s) (h : Advances s s' consumer x.cursor)
    (hnext : NextFor B s consumer o x) (hpast : s.db.offsets consumer < x.cursor)
    (hsettled : Wants B o x.envelope → Settled s' consumer x.cursor) : BusInv B s' := by
  have hxmem := hinv.mem_of_committed hnext.mem
  have hok : OutboxOk B s'.db := by
    obtain ⟨hascending, hrange, hreads⟩ := hinv.outbox
    exact ⟨by rwa [h.outbox], by rwa [h.outbox, h.seq], by rwa [h.outbox]⟩
  have hcommitted := committed_of_none h.saved
  constructor
  case outbox => exact hok
  case snapshot => exact hcommitted ▸ hok.snapshot
  case offset_le =>
    intro c
    rw [hcommitted, h.seq]
    -- only the offset of this consumer moves
    by_cases hc : c = consumer
    · rw [hc, h.offset_self]
      exact (hinv.outbox.range x hxmem).2
    · rw [h.offset_of_ne hc]
      exact le_trans (hinv.offset_le c) hinv.snapshot.seq_le
  case unknown =>
    intro c hc
    rw [h.subscriptions] at hc
    have hne : c ≠ consumer := by
      rintro rfl
      simp [hnext.known] at hc
    rw [h.offset_of_ne hne]
    exact hinv.unknown c hc
  case subs =>
    rw [h.subs, h.subscriptions]
    exact hinv.subs
  case free => exact fun _ => h.saved
  case noLoss =>
    intro c p hknown y hy hle hwants
    rw [h.subscriptions] at hknown
    rw [h.outbox] at hy
    by_cases hc : c = consumer
    · subst hc
      obtain rfl : p = o := Option.some_inj.mp (hknown.symm.trans hnext.known)
      rw [h.offset_self] at hle
      -- what was passed before, or the row itself, which is the first behind the offset
      by_cases hold : y.cursor ≤ s.db.offsets c
      · exact h.settled (hinv.noLoss c p hknown y hy hold hwants)
      · have hfirst := hnext.first y hy (by omega) hwants
        obtain rfl := hinv.outbox.eq_of_cursor hy hxmem (by omega)
        exact hsettled hwants
    · rw [h.offset_of_ne hc] at hle
      exact h.settled (hinv.noLoss c p hknown y hy hle hwants)
  case inOrder =>
    rw [InOrder, h.handled]
    exact hinv.inOrder
  case handled =>
    intro c k hck
    rw [h.handled] at hck
    by_cases hc : c = consumer
    · subst hc
      rw [h.offset_self]
      by_cases hk : k ≤ x.cursor
      · exact .inl hk
      · rcases hinv.handled c k hck with hle | ⟨p, z, rfl, hz⟩
        · omega
        · refine .inr ⟨p, z, rfl, by rw [h.subscriptions]; exact hz.known,
            h.mem_committed hinv hz.mem, fun y hy hlt hwants => ?_⟩
          rw [h.outbox] at hy
          rw [h.offset_self] at hlt
          exact hz.first y hy (by omega) hwants
    · rw [h.offset_of_ne hc]
      rcases hinv.handled c k hck with hle | ⟨p, z, hzk, hz⟩
      · exact .inl hle
      · refine .inr ⟨p, z, hzk, by rw [h.subscriptions]; exact hz.known,
          h.mem_committed hinv hz.mem, ?_⟩
        rw [h.outbox, h.offset_of_ne hc]
        exact hz.first

theorem advances_acknowledge (s : BusState) (sub : Sub) (x : StoredEvent) :
    Advances s (s.acknowledge sub x) sub.name x.cursor :=
  ⟨rfl, rfl, rfl, fun _ h => h, rfl, rfl, rfl, rfl⟩

theorem mem_insertDeadLetter (d : BusDb) (letter : DeadLetter) :
    (∀ l ∈ d.deadLetters, l ∈ (d.insertDeadLetter letter).deadLetters) ∧
      ∃ l ∈ (d.insertDeadLetter letter).deadLetters,
        l.consumer = letter.consumer ∧ l.cursor = letter.cursor := by
  unfold BusDb.insertDeadLetter
  split
  · rename_i hany
    obtain ⟨l, hl, hsame⟩ := List.any_eq_true.mp hany
    exact ⟨fun _ h => h, l, hl, by simpa using hsame⟩
  · exact ⟨fun _ h => List.mem_append_left _ h, letter,
      List.mem_append_right _ (List.mem_singleton.mpr rfl), rfl, rfl⟩

/-- Giving an event up settles it. -/
theorem advances_deadLetter {msg : String} (hsaved : s.saved = none) :
    Advances s (s.deadLetter sub x msg).2 sub.name x.cursor ∧
      Settled (s.deadLetter sub x msg).2 sub.name x.cursor := by
  have heq : (s.deadLetter sub x msg).2 = { s with
      db := (s.db.insertDeadLetter ⟨sub.name, x.cursor, x.envelope.id, msg⟩).setOffset sub.name
        x.cursor } := by
    unfold BusState.deadLetter
    rw [hsaved]
  obtain ⟨hkeep, hnew⟩ := mem_insertDeadLetter s.db ⟨sub.name, x.cursor, x.envelope.id, msg⟩
  rw [heq]
  refine ⟨⟨?_, ?_, ?_, hkeep, ?_, rfl, rfl, hsaved⟩, .inr hnew⟩ <;>
    · simp only [BusDb.setOffset, BusDb.insertDeadLetter]
      split <;> rfl

/-! ### A batch is read -/

theorem rowsAfter_eq (hok : OutboxOk B s.db) (cursor limit : Nat) :
    s.db.rowsAfter cursor limit =
      (s.db.outbox.rows.filter fun x => cursor < x.cursor).take limit := by
  unfold BusDb.rowsAfter
  congr 1
  apply List.Pairwise.insertionSort_eq
  exact (hok.ascending.sublist List.filter_sublist).imp fun h => h.le

/-- The rows of an ascending list up to one that was taken were taken too. -/
theorem mem_take_of_le {l : List StoredEvent} (hl : l.Pairwise fun x y => x.cursor < y.cursor)
    {n : Nat} {x y : StoredEvent} (hx : x ∈ l.take n) (hy : y ∈ l) (hle : y.cursor ≤ x.cursor) :
    y ∈ l.take n := by
  rw [← List.take_append_drop n l, List.pairwise_append] at hl
  rw [← List.take_append_drop n l] at hy
  rcases List.mem_append.mp hy with hy | hy
  · exact hy
  · have := hl.2.2 x hx y hy
    omega

/-- The batch `replay` reads while no transaction is open. -/
theorem BusInv.replay (hinv : BusInv B s) (hsaved : s.saved = none) (consumer : String)
    (limit : Nat) :
    ∃ batch, ((s.db.rowsAfter (s.db.offsets consumer) limit).filterMap fun x =>
        (B.reload x.envelope).toOption.map (StoredEvent.mk x.cursor)) = batch ∧
      BatchOk s consumer batch ∧ batch.Pairwise fun x y => x.cursor < y.cursor := by
  have hrows : ∀ x ∈ s.db.rowsAfter (s.db.offsets consumer) limit, x ∈ s.db.outbox.rows := by
    intro x hx
    rw [rowsAfter_eq hinv.outbox] at hx
    exact List.mem_of_mem_filter (List.mem_of_mem_take hx)
  have hreads : ((s.db.rowsAfter (s.db.offsets consumer) limit).filterMap fun x =>
      (B.reload x.envelope).toOption.map (StoredEvent.mk x.cursor)) =
      s.db.rowsAfter (s.db.offsets consumer) limit := by
    -- every row reads back as itself
    rw [List.filterMap_congr (g := some), List.filterMap_some]
    intro x hx
    rw [hinv.outbox.reads x (hrows x hx)]
    rfl
  have hsorted := hinv.outbox.ascending.sublist
    (List.filter_sublist (p := fun x => decide (s.db.offsets consumer < x.cursor)))
  refine ⟨_, hreads, ⟨fun x hx => ?_, fun y hy x hx hpast hle => ?_⟩, ?_⟩
  · rw [committed_of_none hsaved]
    exact hrows x hx
  · rw [rowsAfter_eq hinv.outbox] at hx ⊢
    exact mem_take_of_le hsorted hx (List.mem_filter.mpr ⟨hy, by simpa using hpast⟩) hle
  · rw [rowsAfter_eq hinv.outbox]
    exact hsorted.sublist (List.take_sublist _ _)

end

end AriOs.Autonomy.Events
