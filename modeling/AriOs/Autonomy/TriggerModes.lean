import AriOs.Autonomy.MarketTrigger
import Mathlib.Data.Int.ConditionallyCompleteOrder

/-!
# An engine with a database and one without

Two engines that are given the same calls and the same clock, one of which remembers in memory
and one in a database, stay in step: they hold the same events back, drop the same and hand out
the same triggers. The event ids a trigger comes from are all different, and triggers with one
key are a cooldown apart.

They are in step as long as they agree on what is due. In memory that is what has waited for the
debounce; in the database, what started no later than the debounce ago, and that time is rounded
before it is compared. And the database has to be able to read the provenance of what is due.
-/

namespace AriOs.Autonomy.Triggers

open AriOs.Arith AriOs.Autonomy.Events AriOs.Js AriOs.Storage

/-! ### Clocks and debounces -/

/-- The readings never go down, and they and their differences are safe integers. -/
structure SafeClock (clock : ℕ → ℤ) : Prop where
  mono : Monotone clock
  safe : ∀ n, |clock n| ≤ JsNumber.maxSafeInteger
  near : ∀ m n, clock n - clock m ≤ JsNumber.maxSafeInteger

/-- For all readings, the time a debounce ago has been reached as rounded exactly if it has. -/
def RoundsSafely (debounce : ℚ) : Prop :=
  ∀ a b : ℤ, |a| ≤ JsNumber.maxSafeInteger → |b| ≤ JsNumber.maxSafeInteger → a ≤ b →
    b - a ≤ JsNumber.maxSafeInteger →
      ((a : ℚ) ≤ toDouble (b - debounce) ↔ debounce ≤ b - a)

theorem lt_two_pow_of_safe {n : ℤ} (h : |n| ≤ JsNumber.maxSafeInteger) : |n| < 2 ^ 53 :=
  h.trans_lt (by decide)

/-- A debounce of whole milliseconds makes no difference. -/
theorem roundsSafely_of_whole (n : ℕ) : RoundsSafely n := by
  intro a b ha hb hab hnear
  have ha' := abs_lt.mp (lt_two_pow_of_safe ha)
  have hb' := abs_lt.mp (lt_two_pow_of_safe hb)
  have hcast : ((b : ℚ) - (n : ℕ)) = ((b - n : ℤ) : ℚ) := by push_cast; rfl
  rw [hcast]
  have hiff : ((n : ℕ) : ℚ) ≤ b - a ↔ a ≤ b - n := by
    rw [← Int.cast_sub, ← Int.cast_natCast, Int.cast_le]
    omega
  rw [hiff]
  by_cases hfar : |b - n| < 2 ^ 53
  · rw [toDouble_intCast hfar, Int.cast_le]
  · -- the time is too long ago for any reading, also when it is rounded
    have hlow : b - n ≤ -2 ^ 53 := by
      by_contra! hlt
      exact hfar (abs_lt.mpr ⟨by omega, by omega⟩)
    have hround : toDouble ((b - n : ℤ) : ℚ) ≤ ((-2 ^ 53 : ℤ) : ℚ) :=
      toDouble_le le_rfl (by decide) (Int.cast_le.mpr hlow)
    constructor
    · intro hle
      have : a ≤ -2 ^ 53 := Int.cast_le.mp (hle.trans hround)
      omega
    · intro hle
      omega

variable {clock : ℕ → ℤ}

/-- Differences of readings are not rounded. -/
theorem SafeClock.toDouble_sub (h : SafeClock clock) {m n : ℕ} (hmn : m ≤ n) :
    toDouble ((clock n : ℚ) - clock m) = (clock n : ℚ) - clock m := by
  have hle := h.mono hmn
  have habs : |clock n - clock m| ≤ JsNumber.maxSafeInteger := by
    rw [abs_of_nonneg (by omega)]
    exact h.near m n
  rw [← Int.cast_sub, toDouble_intCast (lt_two_pow_of_safe habs)]

/-- Both engines find the same due. -/
theorem SafeClock.due_iff (h : SafeClock clock) {debounce : ℚ} (hround : RoundsSafely debounce)
    {m n : ℕ} (hmn : m ≤ n) :
    (clock m : ℚ) ≤ toDouble (clock n - debounce) ↔
      debounce ≤ toDouble ((clock n : ℚ) - clock m) := by
  rw [h.toDouble_sub hmn]
  exact hround _ _ (h.safe m) (h.safe n) (h.mono hmn) (h.near m n)

/-! ### In step -/

/-- An event that can be read back once it is due. None is due after a debounce that is longer than
any difference of readings. -/
structure Kept (debounce : ℚ) (e : MarketEvent) : Prop where
  payload : Plain e.payload
  provenance : debounce ≤ JsNumber.maxSafeInteger → ∀ x ∈ e.provenance, x.Legible

/-- What two engines remember is the same, and the events that wait can be read back. -/
structure InStep (clock : ℕ → ℤ) (debounce : ℚ) (reads : ℕ) (m : Memory) (d : Db) : Prop where
  ids : m.ids = d.triggerIds.rows
  pending : m.pending.rows = d.triggerPending.rows.map fun p => (p.key, p)
  fired : m.fired = d.triggerFired
  kept : ∀ p ∈ d.triggerPending.rows, Kept debounce p.event
  start : ∀ p ∈ d.triggerPending.rows, ∃ k ≤ reads, p.start = clock k

section InStep

variable {debounce : ℚ} {reads : ℕ} {m : Memory} {d : Db}

theorem InStep.empty (clock : ℕ → ℤ) (debounce : ℚ) (reads : ℕ) :
    InStep clock debounce reads memory.empty sqlite.empty where
  ids := rfl
  pending := rfl
  fired := rfl
  kept := by simp [sqlite]
  start := by simp [sqlite]

theorem InStep.mono (h : InStep clock debounce reads m d) {reads' : ℕ} (hle : reads ≤ reads') :
    InStep clock debounce reads' m d where
  ids := h.ids
  pending := h.pending
  fired := h.fired
  kept := h.kept
  start p hp := by
    obtain ⟨k, hk, hstart⟩ := h.start p hp
    exact ⟨k, hk.trans hle, hstart⟩

theorem InStep.seen (h : InStep clock debounce reads m d) (id : String) :
    (memory.seen id m).1 = (sqlite.seen id d).1 ∧
      InStep clock debounce reads (memory.seen id m).2 (sqlite.seen id d).2 := by
  have hmem : (d.triggerIds.find? id).isSome ↔ id ∈ m.ids := by
    rw [Table.isSome_find?_iff, h.ids, List.map_id]
  cases hinsert : d.triggerIds.insert? id with
  | none =>
    have hid : id ∈ m.ids := hmem.mp (Table.insert?_eq_none_iff.mp hinsert)
    simpa [memory, sqlite, hinsert, hid] using h
  | some triggerIds =>
    have hid : id ∉ m.ids := by
      have hfree : d.triggerIds.find? id = none := Table.find?_of_insert? hinsert
      rw [← hmem, hfree]
      simp
    simp only [memory, sqlite, hinsert, if_neg hid, true_and]
    exact { h with ids := by rw [Table.rows_of_insert? hinsert, h.ids] }

theorem InStep.getFired (h : InStep clock debounce reads m d) (key : String) :
    memory.getFired key m = sqlite.getFired key d := by
  simp only [memory, sqlite, h.fired]

theorem InStep.setFired (h : InStep clock debounce reads m d) (key : String) (now : ℤ) :
    InStep clock debounce reads (memory.setFired key now m) (sqlite.setFired key now d) :=
  { h with fired := by simp only [memory, sqlite, h.fired] }

theorem InStep.addPending (h : InStep clock debounce reads m d) {p : Pending}
    (hkept : Kept debounce p.event) (hstart : ∃ k ≤ reads, p.start = clock k) :
    InStep clock debounce reads (memory.addPending p m) (sqlite.addPending p d) := by
  have hkeys : m.pending.rows.map Prod.fst = d.triggerPending.rows.map Pending.key := by
    rw [h.pending, List.map_map]
    rfl
  -- a key waits in the one exactly if it waits in the other
  have hthere : (m.pending.get p.key).isSome ↔ (d.triggerPending.find? p.key).isSome := by
    rw [OrderedMap.get, Option.isSome_map, Table.isSome_find?_iff, Table.isSome_find?_iff, hkeys]
  cases hinsert : d.triggerPending.insert? p with
  | none =>
    have hp := hthere.mpr (Table.insert?_eq_none_iff.mp hinsert)
    simpa [memory, sqlite, hinsert, hp] using h
  | some triggerPending =>
    have hrows := Table.rows_of_insert? hinsert
    have hp : ¬ (m.pending.get p.key).isSome := by
      rw [hthere, Table.find?_of_insert? hinsert]
      simp
    -- a key that is new comes last in both
    have hset : (m.pending.set p.key p).rows = m.pending.rows ++ [(p.key, p)] := by
      have hfree : p.key ∉ m.pending.rows.map Prod.fst := by
        rwa [OrderedMap.get, Option.isSome_map, Table.isSome_find?_iff] at hp
      rw [OrderedMap.set, Table.insert?, dif_neg hfree, Option.getD_some]
    simp only [memory, sqlite, hinsert, if_neg hp, Option.getD_some]
    refine { h with pending := ?_, kept := ?_, start := ?_ }
    · simp only [hset, hrows, h.pending, List.map_append, List.map_cons, List.map_nil]
    · rw [hrows]
      exact List.forall_mem_append.mpr ⟨h.kept, by simpa using hkept⟩
    · rw [hrows]
      exact List.forall_mem_append.mpr ⟨h.start, by simpa using hstart⟩

/-- The same events are due, and are no longer there. -/
theorem InStep.takeDue (h : InStep clock debounce reads m d) (hclock : SafeClock clock)
    (hround : RoundsSafely debounce) :
    ∃ due due', (memory.takeDue debounce (clock reads) m).1 = .ok due ∧
      (sqlite.takeDue debounce (clock reads) d).1 = .ok due' ∧
      List.Forall₂ Pending.Alike due due' ∧
      InStep clock debounce reads (memory.takeDue debounce (clock reads) m).2
        (sqlite.takeDue debounce (clock reads) d).2 := by
  set rows := d.triggerPending.rows with hrows
  let late : Pending → Bool := fun p => debounce ≤ toDouble ((clock reads : ℚ) - p.start)
  have hlate : rows.filter (fun r => (r.start : ℚ) ≤ toDouble (clock reads - debounce)) =
      rows.filter late := by
    refine List.filter_congr fun p hp => ?_
    obtain ⟨k, hk, hstart⟩ := h.start p hp
    rw [decide_eq_decide, hstart]
    exact hclock.due_iff hround hk
  have hreadable : ∀ p ∈ rows.filter late, ∃ q, p.reparse = .ok q ∧ p.Alike q := by
    intro p hp
    obtain ⟨hp, hpast⟩ := List.mem_filter.mp hp
    obtain ⟨k, hk, hstart⟩ := h.start p hp
    have hkept := h.kept p hp
    refine Pending.exists_reparse hkept.payload (hkept.provenance ?_)
    -- it has waited, and no longer than the readings are apart
    have hwaited : debounce ≤ toDouble ((clock reads : ℚ) - p.start) := of_decide_eq_true hpast
    rw [hstart, hclock.toDouble_sub hk] at hwaited
    exact hwaited.trans (by exact_mod_cast hclock.near k reads)
  choose! reread hreread halike using hreadable
  have hread : (rows.filter late).mapM Pending.reparse = .ok ((rows.filter late).map reread) := by
    rw [mapM_eq_ok_iff, List.forall₂_map_right_iff, List.forall₂_same]
    exact hreread
  have hkeys : ((rows.filter late).map reread).map Pending.key =
      (rows.filter late).map Pending.key := by
    rw [List.map_map]
    refine List.map_congr_left fun p hp => ?_
    obtain ⟨_, heq⟩ := halike p hp
    simp [heq]
  have hdue : (m.pending.rows.filter fun x => late x.2).map Prod.snd = rows.filter late := by
    rw [h.pending, List.filter_map, List.map_map]
    exact List.map_id _
  have hleft : (((rows.filter late).map reread).foldl (fun t p => t.delete fun r => r.key = p.key)
      d.triggerPending).rows = rows.filter fun p => !late p :=
    Table.rows_foldl_delete_filter hkeys
  simp only [memory, sqlite, ← hrows, hlate, hread]
  refine ⟨_, _, rfl, rfl, ?_, { h with pending := ?_, kept := ?_, start := ?_ }⟩
  · rw [hdue, List.forall₂_map_right_iff, List.forall₂_same]
    exact halike
  · dsimp only
    rw [hleft, Table.rows_delete, h.pending, List.filter_map]
    rfl
  · rw [hleft]
    exact fun p hp => h.kept p (List.mem_of_mem_filter hp)
  · rw [hleft]
    exact fun p hp => h.start p (List.mem_of_mem_filter hp)

end InStep

/-! ### The same calls of both -/

/-- Two engines that remember the same and have read the clock as often. -/
structure Related (clock : ℕ → ℤ) (debounce : ℚ) (x : Session Memory) (y : Session Db) : Prop where
  reads : x.reads = y.reads
  inStep : InStep clock debounce x.reads x.store y.store

section Related

variable {s : Settings} {text : JsValue → Except String String} {x : Session Memory}
  {y : Session Db}

/-- What is handed out does not depend on the provenance. -/
theorem emit_of_alike {σ : Type} {S : Store σ} {z : Session σ} {p q : Pending} (h : p.Alike q) :
    emit S s clock q z = emit S s clock p z := by
  obtain ⟨_, rfl⟩ := h
  rfl

theorem Related.emit (h : Related clock s.debounce x y) (p : Pending) :
    (emit memory s clock p x).1 = (emit sqlite s clock p y).1 ∧
      Related clock s.debounce (emit memory s clock p x).2 (emit sqlite s clock p y).2 := by
  have hnext : InStep clock s.debounce (x.reads + 1) x.store y.store :=
    h.inStep.mono (Nat.le_succ _)
  have hreads : x.reads + 1 = y.reads + 1 := congrArg (· + 1) h.reads
  have hsame : Related clock s.debounce ⟨x.store, x.reads + 1⟩ ⟨y.store, y.reads + 1⟩ :=
    ⟨hreads, hnext⟩
  have hfire : Related clock s.debounce
      ⟨memory.setFired p.key (clock x.reads) x.store, x.reads + 1⟩
      ⟨sqlite.setFired p.key (clock y.reads) y.store, y.reads + 1⟩ :=
    ⟨hreads, by rw [← h.reads]; exact hnext.setFired _ _⟩
  simp only [Triggers.emit, ← h.inStep.getFired]
  rw [← h.reads] at hsame hfire ⊢
  split
  · split
    · exact ⟨rfl, hsame⟩
    · exact ⟨rfl, hfire⟩
  · exact ⟨rfl, hfire⟩

theorem Related.emitAll (h : Related clock s.debounce x y) {ps qs : List Pending}
    (halike : List.Forall₂ Pending.Alike ps qs) :
    (emitAll memory s clock ps x).1 = (emitAll sqlite s clock qs y).1 ∧
      Related clock s.debounce (emitAll memory s clock ps x).2 (emitAll sqlite s clock qs y).2 := by
  induction halike generalizing x y with
  | nil => exact ⟨rfl, h⟩
  | cons hpq _ ih =>
    simp only [Triggers.emitAll, emit_of_alike hpq]
    obtain ⟨hfirst, hrelated⟩ := h.emit _
    obtain ⟨hrest, hrelated⟩ := ih hrelated
    exact ⟨congrArg₂ (· ++ ·) hfirst hrest, hrelated⟩

theorem Related.flush (h : Related clock s.debounce x y) (hclock : SafeClock clock)
    (hround : RoundsSafely s.debounce) :
    (flush memory s clock x).1 = (flush sqlite s clock y).1 ∧
      Related clock s.debounce (flush memory s clock x).2 (flush sqlite s clock y).2 := by
  obtain ⟨ps, qs, hps, hqs, halike, hinStep⟩ := h.inStep.takeDue hclock hround
  unfold Triggers.flush
  rw [← h.reads]
  generalize memory.takeDue s.debounce (clock x.reads) x.store = a at hps hinStep ⊢
  generalize sqlite.takeDue s.debounce (clock x.reads) y.store = b at hqs hinStep ⊢
  obtain ⟨due, m⟩ := a
  obtain ⟨due', d⟩ := b
  obtain rfl : due = .ok ps := hps
  obtain rfl : due' = .ok qs := hqs
  have hnext : Related clock s.debounce ⟨m, x.reads + 1⟩ ⟨d, x.reads + 1⟩ :=
    ⟨rfl, hinStep.mono (Nat.le_succ _)⟩
  obtain ⟨hall, hrelated⟩ := hnext.emitAll halike
  exact ⟨congrArg Except.ok hall, hrelated⟩

theorem Related.evaluate (h : Related clock s.debounce x y) (hclock : SafeClock clock)
    (hround : RoundsSafely s.debounce) {e : MarketEvent} (he : 0 < s.debounce → Kept s.debounce e) :
    (evaluate memory s text clock e x).1 = (evaluate sqlite s text clock e y).1 ∧
      Related clock s.debounce (evaluate memory s text clock e x).2
        (evaluate sqlite s text clock e y).2 := by
  obtain ⟨hseen, hinStep⟩ := h.inStep.seen e.id
  unfold Triggers.evaluate
  rw [← h.reads]
  -- both have seen the event, or neither has
  generalize memory.seen e.id x.store = a at hseen hinStep ⊢
  generalize sqlite.seen e.id y.store = b at hseen hinStep ⊢
  obtain ⟨seen, m⟩ := a
  obtain ⟨seen', d⟩ := b
  obtain rfl : seen = seen' := hseen
  have hsame : Related clock s.debounce ⟨m, x.reads⟩ ⟨d, x.reads⟩ := ⟨rfl, hinStep⟩
  cases seen with
  | true => exact ⟨rfl, hsame⟩
  | false =>
    cases triggerType s e with
    | error err => exact ⟨rfl, hsame⟩
    | ok type? =>
      cases type? with
      | none => exact ⟨rfl, hsame⟩
      | some type =>
        dsimp only
        cases keyOf text type e.payload with
        | error err => exact ⟨rfl, hsame⟩
        | ok key =>
          dsimp only
          have hnext : InStep clock s.debounce (x.reads + 1) m d := hinStep.mono (Nat.le_succ _)
          -- with a debounce the event waits, else it fires now
          by_cases hdebounce : 0 < s.debounce
          · rw [if_pos hdebounce, if_pos hdebounce]
            have hadd := hnext.addPending (p := ⟨clock x.reads, e, type, key⟩) (he hdebounce)
              ⟨x.reads, Nat.le_succ _, rfl⟩
            exact (⟨rfl, hadd⟩ : Related clock s.debounce ⟨_, x.reads + 1⟩ ⟨_, x.reads + 1⟩).flush
              hclock hround
          · rw [if_neg hdebounce, if_neg hdebounce]
            have hitem : Related clock s.debounce ⟨m, x.reads + 1⟩ ⟨d, x.reads + 1⟩ := ⟨rfl, hnext⟩
            obtain ⟨hfired, hrelated⟩ := hitem.emit ⟨clock x.reads, e, type, key⟩
            exact ⟨congrArg Except.ok hfired, hrelated⟩

/-- Every call returns the same of both. -/
theorem outcomes_agree (hclock : SafeClock clock) (hround : RoundsSafely s.debounce)
    {calls : List Call} (hcalls : ∀ e, .evaluate e ∈ calls → 0 < s.debounce → Kept s.debounce e)
    (h : Related clock s.debounce x y) :
    (run memory s text clock calls x).1 = (run sqlite s text clock calls y).1 := by
  induction calls generalizing x y with
  | nil => rfl
  | cons c calls ih =>
    have hserve : (serve memory s text clock x c).1 = (serve sqlite s text clock y c).1 ∧
        Related clock s.debounce (serve memory s text clock x c).2
          (serve sqlite s text clock y c).2 := by
      cases c with
      | evaluate e => exact h.evaluate hclock hround (hcalls e List.mem_cons_self)
      | flush => exact h.flush hclock hround
    have hrest := ih (fun e he => hcalls e (List.mem_cons_of_mem c he)) hserve.2
    exact congrArg₂ List.cons hserve.1 hrest

end Related

/-! ### What is handed out -/

/-- Triggers with one key are a cooldown apart. -/
def Apart (s : Settings) (log : List Emission) : Prop :=
  log.Pairwise fun a b => a.key = b.key → s.cooldown ≤ (b.time : ℚ) - a.time

/-- The ids of the events that are held back. -/
def Memory.held (m : Memory) : List String := m.pending.rows.map fun x => x.2.event.id

theorem Memory.held_congr {m m' : Memory} (h : m.pending = m'.pending) : m.held = m'.held := by
  rw [Memory.held, h, Memory.held]

/-- What holds of the triggers handed out so far, and of the ids of events still to be handed
out: all are from different events that were seen, and the last time of each key is known. -/
structure Sound (s : Settings) (clock : ℕ → ℤ) (log : List Emission) (waiting : List String)
    (x : Session Memory) : Prop where
  once : (log.map Emission.eventId ++ waiting).Nodup
  known : ∀ id ∈ log.map Emission.eventId ++ waiting, id ∈ x.store.ids
  apart : Apart s log
  last : ∀ a ∈ log, ∃ t, x.store.fired.get a.key = some t ∧ a.time ≤ t
  read : ∀ key t, x.store.fired.get key = some t → ∃ k ≤ x.reads, t = clock k

section Sound

variable {s : Settings} {text : JsValue → Except String String} {x : Session Memory}
  {log : List Emission} {id : String} {waiting waiting' : List String} {p : Pending}

theorem Sound.start (s : Settings) (clock : ℕ → ℤ) :
    Sound s clock [] [] ⟨memory.empty, 0⟩ where
  once := List.nodup_nil
  known := by simp
  apart := .nil
  last := by simp
  read key t h := by simp [memory] at h

/-- It does not matter in which order events wait, nor how often the clock is read. -/
theorem Sound.of_perm (h : Sound s clock log waiting x) (hperm : waiting.Perm waiting')
    {m : Memory} (hids : m.ids = x.store.ids) (hfired : m.fired = x.store.fired) {reads : ℕ}
    (hreads : x.reads ≤ reads) : Sound s clock log waiting' ⟨m, reads⟩ where
  once := ((hperm.append_left _).nodup_iff).mp h.once
  known id hid := hids ▸ h.known id (((hperm.append_left _).mem_iff).mpr hid)
  apart := h.apart
  last := hfired ▸ h.last
  read key t ht := by
    obtain ⟨k, hk, heq⟩ := h.read key t (hfired ▸ ht)
    exact ⟨k, hk.trans hreads, heq⟩

/-- An event may be dropped. -/
theorem Sound.drop (h : Sound s clock log (id :: waiting) x) : Sound s clock log waiting x where
  once := h.once.sublist ((List.sublist_cons_self id waiting).append_left _)
  known id' hid := h.known id' (((List.sublist_cons_self id waiting).append_left _).subset hid)
  apart := h.apart
  last := h.last
  read := h.read

/-- An event that was not seen before may wait. -/
theorem Sound.admit (h : Sound s clock log waiting x) (hnew : id ∉ x.store.ids) :
    Sound s clock log (id :: waiting)
      { x with store := { x.store with ids := x.store.ids ++ [id] } } where
  once := by
    rw [List.nodup_middle, List.nodup_cons]
    exact ⟨fun hmem => hnew (h.known id hmem), h.once⟩
  known id' hid := by
    rw [List.perm_middle.mem_iff, List.mem_cons] at hid
    rcases hid with rfl | hid
    · simp
    · exact List.mem_append_left _ (h.known id' hid)
  apart := h.apart
  last := h.last
  read := h.read

/-- A trigger may be handed out if the last one with its key is a cooldown ago. -/
theorem Sound.fire (h : Sound s clock log (p.event.id :: waiting) x) (hclock : SafeClock clock)
    (hcool : ∀ t, x.store.fired.get p.key = some t →
      s.cooldown ≤ toDouble ((clock x.reads : ℚ) - t)) :
    Sound s clock (log ++ [⟨p.event.id, p.key, clock x.reads, p.trigger⟩]) waiting
      ⟨memory.setFired p.key (clock x.reads) x.store, x.reads + 1⟩ where
  once := by simpa using h.once
  known id hid := h.known id (by simpa using hid)
  apart := by
    refine List.pairwise_append.mpr ⟨h.apart, List.pairwise_singleton _ _, fun a ha b hb hkey => ?_⟩
    obtain rfl := List.mem_singleton.mp hb
    -- the key last fired no earlier than this, and has cooled down since
    obtain ⟨t, ht, hle⟩ := h.last a ha
    rw [hkey] at ht
    obtain ⟨k, hk, rfl⟩ := h.read p.key t ht
    have hapart := hcool _ ht
    rw [hclock.toDouble_sub hk] at hapart
    have htime : (a.time : ℚ) ≤ clock k := Int.cast_le.mpr hle
    dsimp only
    linarith
  last a ha := by
    simp only [memory, OrderedMap.get_set]
    rcases List.mem_append.mp ha with ha | ha
    · obtain ⟨t, ht, hle⟩ := h.last a ha
      by_cases hkey : p.key = a.key
      · rw [if_pos hkey]
        obtain ⟨k, hk, rfl⟩ := h.read _ t ht
        exact ⟨_, rfl, hle.trans (hclock.mono hk)⟩
      · rw [if_neg hkey]
        exact ⟨t, ht, hle⟩
    · obtain rfl := List.mem_singleton.mp ha
      exact ⟨_, if_pos rfl, le_rfl⟩
  read key t ht := by
    simp only [memory, OrderedMap.get_set] at ht
    by_cases hkey : p.key = key
    · rw [if_pos hkey, Option.some_inj] at ht
      exact ⟨x.reads, Nat.le_succ _, ht.symm⟩
    · rw [if_neg hkey] at ht
      obtain ⟨k, hk, heq⟩ := h.read key t ht
      exact ⟨k, hk.trans (Nat.le_succ _), heq⟩

theorem Sound.emit (h : Sound s clock log (p.event.id :: waiting) x) (hclock : SafeClock clock) :
    Sound s clock (log ++ (emit memory s clock p x).1) waiting (emit memory s clock p x).2 ∧
      (emit memory s clock p x).2.store.pending = x.store.pending := by
  have hdrop : Sound s clock (log ++ []) waiting ⟨x.store, x.reads + 1⟩ := by
    rw [List.append_nil]
    exact h.drop.of_perm (.refl _) rfl rfl (Nat.le_succ _)
  unfold Triggers.emit
  dsimp only
  split
  · rename_i last hlast
    split
    · exact ⟨hdrop, rfl⟩
    · rename_i hcool
      refine ⟨h.fire hclock fun t ht => ?_, rfl⟩
      obtain rfl : last = t := Option.some_inj.mp (hlast.symm.trans ht)
      exact not_lt.mp hcool
  · rename_i hnone
    refine ⟨h.fire hclock fun t ht => ?_, rfl⟩
    exact absurd (hnone.symm.trans ht) (by simp)

theorem Sound.emitAll {ps : List Pending}
    (h : Sound s clock log (ps.map (·.event.id) ++ waiting) x) (hclock : SafeClock clock) :
    Sound s clock (log ++ (emitAll memory s clock ps x).1) waiting
        (emitAll memory s clock ps x).2 ∧
      (emitAll memory s clock ps x).2.store.pending = x.store.pending := by
  induction ps generalizing x log with
  | nil =>
    refine ⟨?_, rfl⟩
    simpa [Triggers.emitAll] using h
  | cons p ps ih =>
    obtain ⟨hfirst, hpending⟩ := h.emit hclock
    obtain ⟨hrest, hpending'⟩ := ih hfirst
    rw [List.append_assoc] at hrest
    exact ⟨hrest, hpending'.trans hpending⟩

theorem Sound.flush (h : Sound s clock log x.store.held x) (hclock : SafeClock clock) :
    Sound s clock (log ++ (flush memory s clock x).1.emissions)
      (flush memory s clock x).2.store.held (flush memory s clock x).2 := by
  let late : String × Pending → Bool := fun y => s.debounce ≤ toDouble (clock x.reads - y.2.start)
  let left : Memory := { x.store with pending := x.store.pending.delete late }
  have hperm : x.store.held.Perm
      (((x.store.pending.rows.filter late).map Prod.snd).map (·.event.id) ++ left.held) := by
    have hparts := ((List.filter_append_perm late x.store.pending.rows).map
      fun y => y.2.event.id).symm
    rw [List.map_append] at hparts
    rw [List.map_map]
    exact hparts
  have hdue := h.of_perm hperm (m := left) rfl rfl (Nat.le_succ _)
  obtain ⟨hall, hpending⟩ := hdue.emitAll hclock
  have hheld : (Triggers.flush memory s clock x).2.store.held = left.held :=
    Memory.held_congr hpending
  rw [hheld]
  exact hall

theorem Memory.held_addPending (p : Pending) (m : Memory) :
    (memory.addPending p m).held = m.held ∨
      (memory.addPending p m).held = m.held ++ [p.event.id] := by
  simp only [memory]
  split
  · exact .inl rfl
  · rename_i hfree
    right
    rw [OrderedMap.get, Option.isSome_map, Table.isSome_find?_iff] at hfree
    simp only [Memory.held, OrderedMap.set, Table.insert?, dif_neg hfree, Option.getD_some,
      List.map_append, List.map_cons, List.map_nil]

theorem Sound.addPending (h : Sound s clock log (p.event.id :: x.store.held) x) :
    Sound s clock log (memory.addPending p x.store).held
      ⟨memory.addPending p x.store, x.reads + 1⟩ := by
  have hids : (memory.addPending p x.store).ids = x.store.ids := by
    simp only [memory]
    split <;> rfl
  have hfired : (memory.addPending p x.store).fired = x.store.fired := by
    simp only [memory]
    split <;> rfl
  rcases Memory.held_addPending p x.store with hheld | hheld
  · rw [hheld]
    exact h.drop.of_perm (.refl _) hids hfired (Nat.le_succ _)
  · rw [hheld]
    exact h.of_perm (List.perm_append_singleton _ _).symm hids hfired (Nat.le_succ _)

theorem Sound.evaluate (h : Sound s clock log x.store.held x) (hclock : SafeClock clock)
    (e : MarketEvent) :
    Sound s clock (log ++ (evaluate memory s text clock e x).1.emissions)
      (evaluate memory s text clock e x).2.store.held (evaluate memory s text clock e x).2 := by
  by_cases hid : e.id ∈ x.store.ids
  · -- a new event is kept with the ids, whatever comes of it
    have hseen : memory.seen e.id x.store = (true, x.store) := if_pos hid
    rw [Triggers.evaluate, hseen]
    simpa [Outcome.emissions] using h
  · have hseen : memory.seen e.id x.store =
        (false, { x.store with ids := x.store.ids ++ [e.id] }) := if_neg hid
    let fresh : Session Memory := { x with store := { x.store with ids := x.store.ids ++ [e.id] } }
    have hadmit : Sound s clock log (e.id :: fresh.store.held) fresh := h.admit hid
    have hnothing : Sound s clock (log ++ []) fresh.store.held fresh := by
      rw [List.append_nil]
      exact hadmit.drop
    rw [Triggers.evaluate, hseen]
    dsimp only
    cases triggerType s e with
    | error err => exact hnothing
    | ok type? =>
      cases type? with
      | none => exact hnothing
      | some type =>
        dsimp only
        cases keyOf text type e.payload with
        | error err => exact hnothing
        | ok key =>
          dsimp only
          let item : Pending := ⟨clock x.reads, e, type, key⟩
          by_cases hdebounce : 0 < s.debounce
          · rw [if_pos hdebounce]
            have hadded : Sound s clock log (memory.addPending item fresh.store).held
                ⟨memory.addPending item fresh.store, x.reads + 1⟩ := hadmit.addPending
            exact hadded.flush hclock
          · rw [if_neg hdebounce]
            have hread : Sound s clock log (item.event.id :: fresh.store.held)
                ⟨fresh.store, x.reads + 1⟩ :=
              hadmit.of_perm (.refl _) rfl rfl (Nat.le_succ _)
            obtain ⟨hfired, hpending⟩ := hread.emit hclock
            rw [Memory.held_congr hpending]
            exact hfired

variable (text) in
/-- All that an engine in memory hands out over some calls. -/
theorem sound_run (hclock : SafeClock clock) (calls : List Call)
    (h : Sound s clock log x.store.held x) :
    Sound s clock
      (log ++ (run memory s text clock calls x).1.flatMap Outcome.emissions)
      (run memory s text clock calls x).2.store.held (run memory s text clock calls x).2 := by
  induction calls generalizing x log with
  | nil => simpa [run] using h
  | cons c calls ih =>
    have hserve : Sound s clock (log ++ (serve memory s text clock x c).1.emissions)
        (serve memory s text clock x c).2.store.held (serve memory s text clock x c).2 := by
      cases c with
      | evaluate e => exact h.evaluate hclock e
      | flush => exact h.flush hclock
    have hrest := ih hserve
    rw [List.append_assoc] at hrest
    exact hrest

end Sound

/-! ### Every run -/

/-- What is said of the triggers of a run: they are the same in both modes, from different
events, and a cooldown apart where they have one key. -/
structure Reliable (s : Settings) (text : JsValue → Except String String) (clock : ℕ → ℤ)
    (calls : List Call) : Prop where
  agree : (emitted memory s text clock calls).map Emission.trigger =
    (emitted sqlite s text clock calls).map Emission.trigger
  once : ((emitted memory s text clock calls).map Emission.eventId).Nodup ∧
    ((emitted sqlite s text clock calls).map Emission.eventId).Nodup
  apart : Apart s (emitted memory s text clock calls) ∧
    Apart s (emitted sqlite s text clock calls)

section Reliable

variable {s : Settings} {text : JsValue → Except String String}

theorem reliable_of_roundsSafely (hclock : SafeClock clock) (hround : RoundsSafely s.debounce)
    {calls : List Call} (hcalls : ∀ e, .evaluate e ∈ calls → 0 < s.debounce → Kept s.debounce e) :
    Reliable s text clock calls := by
  have hnew : Related clock s.debounce ⟨memory.empty, 0⟩ ⟨sqlite.empty, 0⟩ :=
    ⟨rfl, .empty clock s.debounce 0⟩
  have hsame : emitted memory s text clock calls = emitted sqlite s text clock calls := by
    rw [emitted, emitted, outcomes_agree hclock hround hcalls hnew]
  have hsound := sound_run (x := ⟨memory.empty, 0⟩) text hclock calls (Sound.start s clock)
  rw [List.nil_append] at hsound
  have honce := hsound.once.sublist (List.sublist_append_left _ _)
  exact ⟨by rw [hsame], ⟨honce, hsame ▸ honce⟩, ⟨hsound.apart, hsame ▸ hsound.apart⟩⟩

/-- An event that asks for a trigger whatever is in it. -/
def alert (provenance : Option Provenance) : MarketEvent where
  id := "alert"
  type := "risk.alert"
  version := 1
  source := "risk"
  correlationId := "alert"
  causationId := none
  occurredAt := "2025-10-09T08:53:20.000Z"
  block := none
  provenance := provenance
  payload := .object []

/-- `String(v)`, right for the text it is given here. -/
def textOf (v : JsValue) : Except String String := .ok (v.text?.getD "")

variable {provenance : Option Provenance}

theorem length_emitted_memory (hdebounce : 0 < s.debounce) :
    (emitted memory s textOf clock [.evaluate (alert provenance)]).length =
      if s.debounce ≤ toDouble ((clock 1 : ℚ) - clock 0) then 1 else 0 := by
  by_cases hdue : s.debounce ≤ toDouble ((clock 1 : ℚ) - clock 0) <;>
  simp [emitted, run, serve, evaluate, flush, emitAll, emit, memory, alert, triggerType, keyOf,
    prop, textOf, orElse, JsValue.field, JsValue.text?, hdebounce, hdue, Outcome.emissions,
    OrderedMap.set, Table.insert?, bind, Except.bind, pure, Except.pure]

theorem length_emitted_sqlite (hdebounce : 0 < s.debounce) :
    (emitted sqlite s textOf clock [.evaluate (alert none)]).length =
      if (clock 0 : ℚ) ≤ toDouble (clock 1 - s.debounce) then 1 else 0 := by
  by_cases hdue : (clock 0 : ℚ) ≤ toDouble (clock 1 - s.debounce) <;>
  simp [emitted, run, serve, evaluate, flush, emitAll, emit, sqlite, alert, triggerType, keyOf,
    prop, textOf, orElse, JsValue.field, JsValue.text?, hdebounce, hdue, Outcome.emissions,
    Table.insert?, Table.empty, bind, Except.bind, pure, Except.pure, Pending.reparse,
    MarketEvent.reparse, payloadRead, encode, encodeFields, decode, decodeFields, revive,
    OrderedMap.get, Table.find?]

/-- A row that cannot be read stops the flush. -/
theorem emitted_sqlite_of_not_legible {x : Provenance} (hdebounce : 0 < s.debounce)
    (hx : ¬ x.Legible) : emitted sqlite s textOf clock [.evaluate (alert (some x))] = [] := by
  let item : Pending := ⟨clock 0, alert (some x), "trigger.risk.alert", "trigger.risk.alert:"⟩
  obtain ⟨err, herr⟩ : ∃ err, item.reparse = .error err := by
    cases hread : item.reparse with
    | error err => exact ⟨err, rfl⟩
    | ok q => exact absurd hread (Pending.reparse_of_not_legible (p := item) rfl hx q)
  simp only [item, alert] at herr
  by_cases hdue : (clock 0 : ℚ) ≤ toDouble (clock 1 - s.debounce) <;>
  simp [emitted, run, serve, evaluate, flush, emitAll, sqlite, alert, triggerType, keyOf,
    prop, textOf, orElse, JsValue.field, JsValue.text?, hdebounce, hdue, Outcome.emissions,
    Table.insert?, Table.empty, bind, Except.bind, pure, Except.pure, herr]

theorem iff_of_ite_eq {p q : Prop} [Decidable p] [Decidable q]
    (h : (if p then 1 else 0) = if q then 1 else 0) : p ↔ q := by
  by_cases hp : p <;> by_cases hq : q <;> simp_all

/-- Two readings. -/
def twice (a b : ℤ) (n : ℕ) : ℤ := if n = 0 then a else b

theorem safeClock_twice {a b : ℤ} (ha : |a| ≤ JsNumber.maxSafeInteger)
    (hb : |b| ≤ JsNumber.maxSafeInteger) (hab : a ≤ b)
    (hnear : b - a ≤ JsNumber.maxSafeInteger) : SafeClock (twice a b) where
  mono m n hmn := by
    unfold twice
    split_ifs <;> omega
  safe n := by
    unfold twice
    split_ifs
    · exact ha
    · exact hb
  near m n := by
    have hmax : (0 : ℤ) ≤ JsNumber.maxSafeInteger := by decide
    unfold twice
    split_ifs <;> omega

/-- The events of some calls have payloads that come back, and provenances of one kind. -/
def Fed (P : Provenance → Prop) (calls : List Call) : Prop :=
  ∀ e, .evaluate e ∈ calls → Plain e.payload ∧ ∀ x ∈ e.provenance, P x

theorem fed_alert {P : Provenance → Prop} (h : ∀ x ∈ provenance, P x) :
    Fed P [.evaluate (alert provenance)] := by
  intro e he
  obtain rfl : e = alert provenance := by simpa using he
  exact ⟨by simp [alert, Plain, Portable, PortableFields, EveryObject, EveryObjectFields,
    LooksTagged], h⟩

/-- Whether they hand out a trigger for an event shows whether it is due. -/
theorem roundsSafely_of_agree (hdebounce : 0 < s.debounce)
    (h : ∀ clock, SafeClock clock → Reliable s textOf clock [.evaluate (alert none)]) :
    RoundsSafely s.debounce := by
  intro a b ha hb hab hnear
  have hclock := safeClock_twice ha hb hab hnear
  have hlength := congrArg List.length (h _ hclock).agree
  rw [List.length_map, List.length_map, length_emitted_memory hdebounce,
    length_emitted_sqlite hdebounce, hclock.toDouble_sub (Nat.zero_le 1)] at hlength
  simp only [twice, if_pos, one_ne_zero, if_false] at hlength
  exact (iff_of_ite_eq hlength).symm

/-- Once an event is due, the database has to be able to read it. -/
theorem legible_of_agree {x : Provenance} (hdebounce : 0 < s.debounce)
    (hshort : s.debounce ≤ JsNumber.maxSafeInteger)
    (h : ∀ clock, SafeClock clock → Reliable s textOf clock [.evaluate (alert (some x))]) :
    x.Legible := by
  by_contra hx
  have hclock : SafeClock (twice 0 JsNumber.maxSafeInteger) :=
    safeClock_twice (by decide) (by decide) (by decide) (by decide)
  have hlength := congrArg List.length (h _ hclock).agree
  rw [List.length_map, List.length_map, length_emitted_memory hdebounce,
    emitted_sqlite_of_not_legible hdebounce hx, hclock.toDouble_sub (Nat.zero_le 1), if_pos]
    at hlength
  · simp at hlength
  · simpa [twice] using hshort

/-- In every run over events whose provenances are of one kind, the triggers are the same in both
modes, at most one from each event and a cooldown apart for each key, exactly if rounding makes no
difference to the debounce and provenances of that kind can be read back. -/
theorem reliable_iff (s : Settings) (P : Provenance → Prop) :
    (∀ (text : JsValue → Except String String) (clock : ℕ → ℤ) (calls : List Call),
      SafeClock clock → Fed P calls → Reliable s text clock calls) ↔
      RoundsSafely s.debounce ∧
        (0 < s.debounce → s.debounce ≤ JsNumber.maxSafeInteger → ∀ x, P x → x.Legible) := by
  constructor
  · intro h
    refine ⟨?_, fun hdebounce hshort x hx => ?_⟩
    · rcases s.debounce_nonneg.eq_or_lt with hzero | hdebounce
      · -- without a debounce there is nothing to round
        intro a b ha hb hab hnear
        rw [← hzero, sub_zero, toDouble_intCast (lt_two_pow_of_safe hb)]
        exact iff_of_true (Int.cast_le.mpr hab) (sub_nonneg.mpr (Int.cast_le.mpr hab))
      · exact roundsSafely_of_agree hdebounce fun clock hclock =>
          h textOf clock _ hclock (fed_alert (by simp))
    · exact legible_of_agree hdebounce hshort fun clock hclock =>
        h textOf clock _ hclock (fed_alert (by simpa using hx))
  · rintro ⟨hround, hlegible⟩ text clock calls hclock hcalls
    refine reliable_of_roundsSafely hclock hround fun e he hdebounce => ?_
    obtain ⟨hpayload, hprovenance⟩ := hcalls e he
    exact ⟨hpayload, fun hshort x hx => hlegible hdebounce hshort x (hprovenance x hx)⟩

/-- A debounce of a second, and a cooldown of a minute. -/
def wholeSeconds : Settings where
  cooldown := 60000
  debounce := (1000 : ℕ)
  priceAbove := .infinity false
  volumeAbove := .infinity false
  liquidityAbove := .infinity false
  cooldown_nonneg := by norm_num
  debounce_nonneg := by norm_num

/-- With a text under `$bigint`, which comes back as a `bigint`. -/
def noted : Provenance :=
  ⟨"risk", "2025-10-09T08:53:20.000Z", [("note", .object [("$bigint", .string "5")])]⟩

/-- The event comes twice, and waits for a second. -/
theorem reliable_iff_wholeSeconds :
    Reliable wholeSeconds textOf (twice 0 1000)
        [.evaluate (alert (some noted)), .evaluate (alert (some noted)), .flush] ∧
      (emitted sqlite wholeSeconds textOf (twice 0 1000)
        [.evaluate (alert (some noted)), .evaluate (alert (some noted)), .flush]).length = 1 := by
  refine ⟨(reliable_iff wholeSeconds (· = noted)).mpr ⟨roundsSafely_of_whole 1000, ?_⟩ textOf _ _
    (safeClock_twice (by decide) (by decide) (by decide) (by decide)) ?_, by decide +kernel⟩
  · rintro - - x rfl
    simp only [Provenance.Legible, noted, EveryObject, EveryObjectFields, Events.Readable,
      encodeFields, encode, and_true]
    intro text htext
    obtain rfl : "5" = text := by simpa using htext
    exact ⟨5, by decide +kernel⟩
  · intro e he
    obtain rfl : e = alert (some noted) := by simpa using he
    have hfed : Fed (· = noted) [.evaluate (alert (some noted))] := fed_alert (by simp)
    exact hfed _ List.mem_cons_self

/-- A debounce so short that, as a double, no time passes in it. -/
def shortDebounce : Settings where
  cooldown := 0
  debounce := 1 / 2 ^ 14
  priceAbove := .infinity false
  volumeAbove := .infinity false
  liquidityAbove := .infinity false
  cooldown_nonneg := le_rfl
  debounce_nonneg := by norm_num

/-- The constructor accepts it, and the two modes differ at once. -/
theorem unrounded_debounce :
    TriggerConfig.new { debounceMs := some (.finite (1 / 2 ^ 14)) } = .ok shortDebounce ∧
      SafeClock (twice 1760000000000 1760000000000) ∧
      ¬ Reliable shortDebounce textOf (twice 1760000000000 1760000000000)
        [.evaluate (alert none)] := by
  have hdebounce : 0 < shortDebounce.debounce := by norm_num [shortDebounce]
  refine ⟨?_, safeClock_twice (by decide) (by decide) (by decide) (by decide), fun h => ?_⟩
  · exact dif_pos (by decide +kernel)
  · have hlength := congrArg List.length h.agree
    rw [List.length_map, List.length_map, length_emitted_memory hdebounce,
      length_emitted_sqlite hdebounce] at hlength
    revert hlength
    decide +kernel

end Reliable

end AriOs.Autonomy.Triggers
