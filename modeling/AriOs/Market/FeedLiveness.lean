import AriOs.Async.Transition
import AriOs.Market.PumpPortal

/-!
# The live feed is never silently dead

From `start` to the next `stop` the watcher has a socket or waits for the time of its next attempt,
never both. Whatever drops the socket sets the timer, and only an attempt or `stop` clears it. A
generation is not used twice, so that a socket that was given up acts no more.
-/

namespace AriOs.Market.PumpPortal

open AriOs.Js AriOs.Async

variable {δ : Type} {host : Host δ} {opts : Options} {s : Feed} {es : List (Event δ)} {e : Event δ}
  {k : Nat} {random : ℚ}

/-! ### Timers -/

namespace Feed

theorem clearReconnect_eq (h : s.timeouts.map Timer.handle = s.reconnectTimer.toList) :
    s.clearReconnect = { s with timeouts := [], reconnectTimer := none } := by
  cases s with
  | mk ws generation stopped attempt reconnectTimer =>
  cases reconnectTimer with
  | none =>
    obtain rfl := List.map_eq_nil_iff.mp h
    rfl
  | some handle =>
    obtain ⟨t, rfl, rfl⟩ := List.map_eq_singleton_iff.mp h
    simp [clearReconnect]

theorem clearWatchdog_eq (h : s.intervals.map Timer.handle = s.staleTimer.toList) :
    s.clearWatchdog = { s with intervals := [], staleTimer := none } := by
  cases s with
  | mk ws generation stopped attempt reconnectTimer staleTimer =>
  cases staleTimer with
  | none =>
    obtain rfl := List.map_eq_nil_iff.mp h
    rfl
  | some handle =>
    obtain ⟨t, rfl, rfl⟩ := List.map_eq_singleton_iff.mp h
    simp [clearWatchdog]

@[simp] theorem tokenSubs_startWatchdog : s.startWatchdog.tokenSubs = s.tokenSubs := by
  simp only [startWatchdog, clearWatchdog]
  split <;> rfl

/-- The watchdog has no part in what is sent. -/
@[simp] theorem send_startWatchdog {c : Command} : s.startWatchdog.send c = s.send c := by
  cases hstale : s.staleTimer with
  | none => simp [startWatchdog, clearWatchdog, send, hstale]
  | some handle => simp [startWatchdog, clearWatchdog, send, hstale]

/-! ### Sockets -/

/-- The generation the listeners of a socket know. -/
def generationOf (s : Feed) (k : Nat) : Option Nat := (s.sockets[k]?).map Socket.generation

theorem mine_iff : s.Mine k ↔ s.generationOf k = some s.generation ∧ s.stopped = false := Iff.rfl

@[simp] theorem generationOf_ready {j r : Nat} :
    (s.ready k r).generationOf j = s.generationOf j := by
  simp only [generationOf, ready, List.getElem?_modify]
  rcases s.sockets[j]? with _ | x
  · rfl
  · by_cases hj : k = j
    · simp [hj]
    · simp [hj]

@[simp] theorem length_sockets_ready {r : Nat} :
    (s.ready k r).sockets.length = s.sockets.length := by
  simp [ready]

/-- Listeners act in their own generation alone, whatever state the sockets are in. -/
theorem mine_ready {j r : Nat} : (s.ready k r).Mine j ↔ s.Mine j := by
  rw [mine_iff, mine_iff, generationOf_ready]
  rfl

end Feed

/-! ### Phases -/

def Event.after (a : Bool) : Event δ → Bool
  | .start .. => true
  | .stop => false
  | _ => a

/-- `start` was called, and `stop` was not called since. -/
def active (es : List (Event δ)) : Bool := es.foldl Event.after false

theorem active_append_singleton : active (es ++ [e]) = e.after (active es) := by
  rw [active, List.foldl_append]
  rfl

/-- What the watcher is at. -/
inductive Phase (es : List (Event δ)) (s : Feed) : Prop
  | idle (h : active es = false) (hws : s.ws = none) (ht : s.reconnectTimer = none)
      (hquiet : s.stopped = true ∨ s.sockets.length = 0 ∧ s.staleTimer = none)
  | connected (k : Nat) (h : active es = true) (hgo : s.stopped = false) (hws : s.ws = some k)
      (ht : s.reconnectTimer = none) (hlast : k + 1 = s.sockets.length)
      (hown : ∀ j, s.generationOf j = some s.generation ↔ j = k)
  | waiting (t : Nat) (h : active es = true) (hgo : s.stopped = false) (hws : s.ws = none)
      (ht : s.reconnectTimer = some t)
      (hown : ∀ j, s.generationOf j = some s.generation →
        j + 1 = s.sockets.length ∧ ∃ r, Event.closed j r ∈ es)

/-- What holds after any events. -/
structure Inv (es : List (Event δ)) (s : Feed) : Prop where
  distinct : s.tokenSubs.Nodup
  pending : s.timeouts.map Timer.handle = s.reconnectTimer.toList
  watching : s.intervals.map Timer.handle = s.staleTimer.toList
  older : ∀ k g, s.generationOf k = some g → g ≤ s.generation
  phase : Phase es s

theorem inv_new : Inv (δ := δ) [] .new := by
  refine ⟨List.nodup_nil, rfl, rfl, ?_, .idle rfl rfl rfl (.inr ⟨rfl, rfl⟩)⟩
  intro k g h
  cases h

/-- What does not matter for the phase may change. -/
theorem Phase.of_eq {s' : Feed} {es' : List (Event δ)} (h : Phase es s) (hes : es ⊆ es')
    (hactive : active es' = active es) (hgo : s'.stopped = s.stopped) (hws : s'.ws = s.ws)
    (ht : s'.reconnectTimer = s.reconnectTimer) (hgen : s'.generation = s.generation)
    (hlen : s'.sockets.length = s.sockets.length)
    (hown : ∀ j, s'.generationOf j = s.generationOf j)
    (hstale : active es = true ∨ s'.staleTimer = s.staleTimer) : Phase es' s' := by
  cases h with
  | idle h hws' ht' hquiet =>
    -- an idle feed has not restarted its watchdog
    have hsame : s'.staleTimer = s.staleTimer := hstale.resolve_left (by rw [h]; decide)
    rw [← hgo, ← hlen, ← hsame] at hquiet
    exact .idle (hactive.trans h) (hws.trans hws') (ht.trans ht') hquiet
  | connected k h hgo' hws' ht' hlast hown' =>
    refine .connected k (hactive.trans h) (hgo.trans hgo') (hws.trans hws') (ht.trans ht')
      (hlast.trans hlen.symm) fun j => ?_
    rw [hown, hgen]
    exact hown' j
  | waiting t h hgo' hws' ht' hown' =>
    refine .waiting t (hactive.trans h) (hgo.trans hgo') (hws.trans hws') (ht.trans ht') ?_
    intro j hj
    rw [hown, hgen] at hj
    obtain ⟨hlast, r, hr⟩ := hown' j hj
    exact ⟨hlast.trans hlen.symm, r, hes hr⟩

/-- An event that changes nothing of the phase. -/
theorem Phase.frame {s' : Feed} (h : Phase es s) (he : ∀ a, e.after a = a)
    (hgo : s'.stopped = s.stopped) (hws : s'.ws = s.ws)
    (ht : s'.reconnectTimer = s.reconnectTimer) (hgen : s'.generation = s.generation)
    (hlen : s'.sockets.length = s.sockets.length)
    (hown : ∀ j, s'.generationOf j = s.generationOf j)
    (hstale : active es = true ∨ s'.staleTimer = s.staleTimer) : Phase (es ++ [e]) s' := by
  refine h.of_eq (List.subset_append_left _ _) ?_ hgo hws ht hgen hlen hown hstale
  rw [active_append_singleton, he]

/-- Listeners act between `start` and `stop` only. -/
theorem Inv.active_of_mine (h : Inv es s) (hmine : s.Mine k) : active es = true := by
  cases h.phase with
  | idle _ _ _ hquiet =>
    obtain ⟨hgen, hgo⟩ := hmine
    rcases hquiet with hstop | ⟨hnone, -⟩
    · rw [hstop] at hgo
      cases hgo
    · rw [List.length_eq_zero_iff.mp hnone] at hgen
      cases hgen
  | connected _ h | waiting _ h => exact h

/-! ### Steps -/

/-- A reconnect that is scheduled when there is no socket: the watcher waits. -/
theorem waiting_scheduleReconnect (hactive : active es = true) (hgo : s.stopped = false)
    (hws : s.ws = none) (hpending : s.timeouts.map Timer.handle = s.reconnectTimer.toList)
    (hown : ∀ j, s.generationOf j = some s.generation →
      j + 1 = s.sockets.length ∧ ∃ r, Event.closed j r ∈ es) :
    Phase es (s.scheduleReconnect random) ∧ (s.scheduleReconnect random).timeouts.map Timer.handle =
      (s.scheduleReconnect random).reconnectTimer.toList := by
  unfold Feed.scheduleReconnect
  rcases ht : s.reconnectTimer with _ | t
  · rw [if_neg (by simp [hgo])]
    rw [ht] at hpending
    obtain hnil := List.map_eq_nil_iff.mp hpending
    exact ⟨.waiting s.handles hactive hgo hws rfl hown, by simp [hnil]⟩
  · rw [if_pos (by simp)]
    exact ⟨.waiting t hactive hgo hws ht hown, by rw [hpending, ht]⟩

theorem scheduleReconnect_frame : (s.scheduleReconnect random).tokenSubs = s.tokenSubs ∧
    (s.scheduleReconnect random).sockets = s.sockets ∧
    (s.scheduleReconnect random).generation = s.generation ∧
    (s.scheduleReconnect random).intervals = s.intervals ∧
    (s.scheduleReconnect random).staleTimer = s.staleTimer := by
  unfold Feed.scheduleReconnect
  split
  · exact ⟨rfl, rfl, rfl, rfl, rfl⟩
  · exact ⟨rfl, rfl, rfl, rfl, rfl⟩

/-- A reconnect that is scheduled keeps the invariant. -/
theorem inv_scheduleReconnect (hactive : active es = true) (hgo : s.stopped = false)
    (hws : s.ws = none) (hdistinct : s.tokenSubs.Nodup)
    (hpending : s.timeouts.map Timer.handle = s.reconnectTimer.toList)
    (hwatching : s.intervals.map Timer.handle = s.staleTimer.toList)
    (holder : ∀ k g, s.generationOf k = some g → g ≤ s.generation)
    (hown : ∀ j, s.generationOf j = some s.generation →
      j + 1 = s.sockets.length ∧ ∃ r, Event.closed j r ∈ es) :
    Inv es (s.scheduleReconnect random) := by
  obtain ⟨hphase, hpending'⟩ := waiting_scheduleReconnect hactive hgo hws hpending hown
  obtain ⟨hsubs, hsockets, hgen, hints, hstale⟩ := @scheduleReconnect_frame s random
  refine ⟨by rwa [hsubs], hpending', by rwa [hints, hstale], ?_, hphase⟩
  intro k g hk
  rw [Feed.generationOf, hsockets] at hk
  rw [hgen]
  exact holder k g hk

/-- An attempt to connect, when there is no socket. -/
theorem inv_connect {created : Option Nat} (hactive : active es = true) (hgo : s.stopped = false)
    (hws : s.ws = none) (hdistinct : s.tokenSubs.Nodup)
    (hpending : s.timeouts.map Timer.handle = s.reconnectTimer.toList)
    (hwatching : s.intervals.map Timer.handle = s.staleTimer.toList)
    (holder : ∀ k g, s.generationOf k = some g → g ≤ s.generation) :
    Inv es (s.connect created random) := by
  unfold Feed.connect
  rw [if_neg (by simp [hgo]), Feed.clearReconnect_eq hpending]
  -- no socket is of the new generation yet
  have hnone : ∀ j, s.generationOf j ≠ some (s.generation + 1) := by
    intro j hj
    have hle := holder j _ hj
    omega
  cases created with
  | none =>
    refine inv_scheduleReconnect hactive hgo hws hdistinct rfl hwatching ?_ ?_
    · intro k g hk
      exact (holder k g hk).trans (Nat.le_succ _)
    · intro j hj
      exact absurd hj (hnone j)
  | some readyState =>
    have hgeneration : ∀ j, ((s.sockets ++ [⟨s.generation + 1, readyState⟩])[j]?).map
        Socket.generation = if j = s.sockets.length then some (s.generation + 1)
          else s.generationOf j := by
      intro j
      rcases lt_trichotomy j s.sockets.length with hj | rfl | hj
      · rw [List.getElem?_append_left hj, if_neg hj.ne]
        rfl
      · simp
      · rw [if_neg hj.ne', Feed.generationOf, List.getElem?_eq_none (by simp; omega),
          List.getElem?_eq_none (by omega)]
    refine ⟨hdistinct, rfl, hwatching, ?_, ?_⟩
    · intro j g hj
      simp only [Feed.generationOf, hgeneration] at hj
      split at hj
      · cases hj
        exact le_rfl
      · exact (holder j g hj).trans (Nat.le_succ _)
    · refine .connected s.sockets.length hactive hgo rfl rfl (by simp) fun j => ?_
      simp only [Feed.generationOf, hgeneration]
      split
      · simpa
      · exact iff_of_false (hnone j) ‹_›

theorem inv_start {created : Option Nat} (h : Inv es s) :
    Inv (es ++ [.start created random]) (s.start created random) := by
  have hactive : active (es ++ [.start created random]) = true := active_append_singleton
  unfold Feed.start
  cases hphase : h.phase with
  | connected k hact hgo hws ht hlast hown =>
    rw [if_pos (by simp [hws])]
    exact ⟨h.distinct, h.pending, h.watching, h.older, .connected k hactive rfl hws ht hlast hown⟩
  | idle _ hws | waiting _ _ _ hws =>
    rw [if_neg (by simp [hws])]
    exact inv_connect hactive rfl hws h.distinct h.pending h.watching h.older

theorem inv_stop (h : Inv es s) : Inv (es ++ [.stop]) s.stop := by
  have hactive : active (es ++ [.stop]) = false := active_append_singleton
  have hclear : s.stop = { s with
      stopped := true, timeouts := [], reconnectTimer := none, intervals := [], staleTimer := none,
      connected := false, ws := none, generation := s.generation + 1 } := by
    have hreconnect := Feed.clearReconnect_eq (s := { s with stopped := true }) h.pending
    have hwatchdog := Feed.clearWatchdog_eq
      (s := { s with stopped := true, timeouts := [], reconnectTimer := none }) h.watching
    simp only [Feed.stop, hreconnect, hwatchdog]
  rw [hclear]
  refine ⟨h.distinct, rfl, rfl, ?_, .idle hactive rfl rfl (.inl rfl)⟩
  intro k g hk
  exact (h.older k g hk).trans (Nat.le_succ _)

/-- The socket of a listener that acts is the watcher's own, or it has closed. -/
theorem Inv.own_of_mine (h : Inv es s) (hmine : s.Mine k) :
    k + 1 = s.sockets.length ∧ (s.ws = some k ∨ s.ws = none ∧ ∃ r, Event.closed k r ∈ es) := by
  obtain ⟨hgen, hgo⟩ := hmine
  cases h.phase with
  | idle _ _ _ hquiet =>
    have hactive := h.active_of_mine ⟨hgen, hgo⟩
    simp_all
  | connected j _ _ hws _ hlast hown =>
    obtain rfl := (hown k).mp hgen
    exact ⟨hlast, .inl hws⟩
  | waiting t _ _ hws _ hown =>
    obtain ⟨hlast, hclosed⟩ := hown k hgen
    exact ⟨hlast, .inr ⟨hws, hclosed⟩⟩

theorem inv_ready {r : Nat} (h : Inv es s) (he : ∀ a, e.after a = a) :
    Inv (es ++ [e]) (s.ready k r) := by
  refine ⟨h.distinct, h.pending, h.watching, ?_, ?_⟩
  · intro j g hj
    rw [Feed.generationOf_ready] at hj
    exact h.older j g hj
  · exact h.phase.frame he rfl rfl rfl rfl Feed.length_sockets_ready
      (fun _ => Feed.generationOf_ready) (.inr rfl)

theorem inv_opened {now : Int} (h : Inv es s) :
    Inv (es ++ [.opened k now]) ((s.ready k OPEN).opened k now).1 := by
  have hready : Inv (es ++ [.opened k now]) (s.ready k OPEN) := inv_ready h fun _ => rfl
  unfold Feed.opened
  split
  · exact hready
  · rename_i hmine
    have hactive := hready.active_of_mine (not_not.mp hmine)
    have hwatchdog := Feed.clearWatchdog_eq
      (s := { s.ready k OPEN with attempt := 0, connected := true, lastMessageAt := now })
      hready.watching
    simp only [Feed.startWatchdog, hwatchdog]
    exact ⟨hready.distinct, hready.pending, rfl, hready.older,
      hready.phase.of_eq (List.Subset.refl _) rfl rfl rfl rfl rfl rfl (fun _ => rfl) (.inl hactive)⟩

/-- The socket has closed, and the next attempt is scheduled. -/
theorem inv_closed (h : Inv es s) : Inv (es ++ [.closed k random]) (s.closed k random) := by
  unfold Feed.closed
  split
  · exact ⟨h.distinct, h.pending, h.watching, h.older,
      h.phase.frame (fun _ => rfl) rfl rfl rfl rfl rfl (fun _ => rfl) (.inr rfl)⟩
  · rename_i hmine
    rw [not_not] at hmine
    have hactive : active (es ++ [.closed k random]) = true :=
      active_append_singleton.trans (h.active_of_mine hmine)
    have hwatchdog := Feed.clearWatchdog_eq (s := { s with connected := false }) h.watching
    obtain ⟨hlast, hws⟩ := h.own_of_mine hmine
    simp only [hwatchdog]
    -- the socket of this generation is the one that closes now, or it closed before
    have hown : ∀ j, s.generationOf j = some s.generation →
        j + 1 = s.sockets.length ∧ ∃ r, Event.closed j r ∈ es ++ [.closed k random] := by
      intro j hj
      have hj' := (h.own_of_mine ⟨hj, hmine.2⟩).1
      obtain rfl : j = k := by omega
      exact ⟨hj', random, by simp⟩
    rcases hws with hws | ⟨hws, -⟩
    · rw [if_pos hws]
      exact inv_scheduleReconnect hactive hmine.2 rfl h.distinct h.pending rfl h.older hown
    · rw [if_neg (by simp [hws])]
      exact inv_scheduleReconnect hactive hmine.2 hws h.distinct h.pending rfl h.older hown

/-- A socket from which nothing arrives is dropped, and the next attempt is scheduled. -/
theorem inv_watchdog {handle : Nat} {now : Int} (h : Inv es s)
    (hmem : handle ∈ s.intervals.map Timer.handle) :
    Inv (es ++ [.interval handle now random]) (s.watchdog now random) := by
  -- a watchdog that finds nothing wrong leaves the feed alone
  have hsame : Inv (es ++ [.interval handle now random]) s := ⟨h.distinct, h.pending, h.watching,
    h.older, h.phase.frame (fun _ => rfl) rfl rfl rfl rfl rfl (fun _ => rfl) (.inr rfl)⟩
  unfold Feed.watchdog
  split
  · exact hsame
  · rename_i hgo
    split
    · simp only [Feed.clearWatchdog_eq h.watching]
      cases hsame.phase with
      -- an idle feed is stopped, or has no watchdog
      | idle _ _ _ hquiet =>
        rcases hquiet with hstop | ⟨-, hstale⟩
        · exact absurd hstop hgo
        · rw [h.watching, hstale] at hmem
          cases hmem
      | connected k hactive hgo' hws ht hlast hown =>
        rw [if_pos (by simp [hws])]
        refine inv_scheduleReconnect hactive hgo' rfl h.distinct h.pending rfl ?_ ?_
        · intro j g hj
          exact (h.older j g hj).trans (Nat.le_succ _)
        · intro j hj
          have hle := h.older j _ hj
          simp at hle
      -- a reconnect that is pending is put off once more
      | waiting t hactive hgo' hws ht hown =>
        rw [if_neg (by simp [hws])]
        exact inv_scheduleReconnect hactive hgo' hws h.distinct h.pending rfl h.older hown
    · exact hsame

/-- The time of a timeout that is set has come: the next attempt is made. -/
theorem inv_timeout {handle : Nat} {created : Option Nat} (h : Inv es s)
    (hmem : handle ∈ s.timeouts.map Timer.handle) :
    Inv (es ++ [.timeout handle created random]) ({ s with
      timeouts := s.timeouts.filter (·.handle ≠ handle)
      reconnectTimer := none }.connect created random) := by
  cases h.phase with
  | idle _ _ ht | connected _ _ _ _ ht =>
    rw [h.pending, ht] at hmem
    cases hmem
  | waiting t hactive hgo hws ht hown =>
    have hpending := h.pending
    rw [ht] at hpending
    obtain ⟨x, hx, rfl⟩ := List.map_eq_singleton_iff.mp hpending
    rw [hx, List.map_singleton, List.mem_singleton] at hmem
    subst hmem
    refine inv_connect (active_append_singleton.trans hactive) hgo hws h.distinct ?_ h.watching
      h.older
    simp [hx]

theorem inv_step (h : Inv es s) : Inv (es ++ [e]) (step host opts s e) := by
  -- events that are not about a connection leave the phase as it is
  have hsame : (∀ a, e.after a = a) → Inv (es ++ [e]) s := fun he =>
    ⟨h.distinct, h.pending, h.watching, h.older,
      h.phase.frame he rfl rfl rfl rfl rfl (fun _ => rfl) (.inr rfl)⟩
  unfold step handle
  cases e with
  | start created random => exact inv_start h
  | stop => exact inv_stop h
  | subscribeTokenTrade mint =>
    have hnext := hsame fun _ => rfl
    refine ⟨?_, hnext.pending, hnext.watching, hnext.older,
      hnext.phase.of_eq (List.Subset.refl _) rfl rfl rfl rfl rfl rfl (fun _ => rfl) (.inr rfl)⟩
    show (if mint ∈ s.tokenSubs then s.tokenSubs else s.tokenSubs ++ [mint]).Nodup
    split
    · exact h.distinct
    · rename_i hmint
      exact List.nodup_append'.mpr ⟨h.distinct, List.nodup_singleton _,
        List.disjoint_singleton.mpr hmint⟩
  | unsubscribeTokenTrade mint =>
    have hnext := hsame fun _ => rfl
    exact ⟨h.distinct.filter _, hnext.pending, hnext.watching, hnext.older,
      hnext.phase.of_eq (List.Subset.refl _) rfl rfl rfl rfl rfl rfl (fun _ => rfl) (.inr rfl)⟩
  | opened k now => exact inv_opened h
  | message k data now ts =>
    have hnext := hsame fun _ => rfl
    dsimp only
    split
    · exact hnext
    · exact ⟨hnext.distinct, hnext.pending, hnext.watching, hnext.older,
        hnext.phase.of_eq (List.Subset.refl _) rfl rfl rfl rfl rfl rfl (fun _ => rfl) (.inr rfl)⟩
  | closed k random => exact inv_closed h
  | error k => exact hsame fun _ => rfl
  | ready k readyState => exact inv_ready h fun _ => rfl
  | timeout handle created random =>
    dsimp only
    split
    · exact inv_timeout h ‹_›
    · exact hsame fun _ => rfl
  | interval handle now random =>
    dsimp only
    split
    · exact inv_watchdog h ‹_›
    · exact hsame fun _ => rfl

variable (host opts) in
/-- The state after some events. -/
def run (es : List (Event δ)) : Feed := Transition.run (step host opts) .new es

/-- The invariant holds in every run. -/
theorem inv_run : Inv es (run host opts es) := by
  induction es using List.reverseRecOn with
  | nil => exact inv_new
  | append_singleton es e ih =>
    rw [run, Transition.run_append_singleton]
    exact inv_step ih

/-! ### What is given out -/

/-- Callbacks are called for a message of a socket whose listeners may act, and for nothing else. -/
theorem mine_of_call {o : Output} (hmem : o ∈ (handle host opts s e).2) (hcall : o.IsCall) :
    ∃ k data now ts, e = .message k data now ts ∧ s.Mine k := by
  -- commands are no calls of the consumer
  have hsend : ∀ (s : Feed) (c : Command), o ∉ s.send c := by
    intro s c hmem
    unfold Feed.send at hmem
    split at hmem
    · cases hmem
    · split at hmem
      · obtain rfl := List.mem_singleton.mp hmem
        exact hcall
      · cases hmem
  cases e with
  | message k data now ts =>
    simp only [handle] at hmem
    split at hmem
    · cases hmem
    · exact ⟨k, data, now, ts, rfl, not_not.mp ‹_›⟩
  | subscribeTokenTrade | unsubscribeTokenTrade => exact absurd hmem (hsend _ _)
  -- nor is what is subscribed again on a new socket
  | opened k now =>
    simp only [handle, Feed.opened] at hmem
    split at hmem
    · cases hmem
    · rcases List.mem_append.mp hmem with hmem | hmem
      · exact absurd hmem (hsend _ _)
      · obtain ⟨mint, -, hmem⟩ := List.mem_flatMap.mp hmem
        exact absurd hmem (hsend _ _)
  | timeout | interval =>
    simp only [handle] at hmem
    split at hmem <;> cases hmem
  | start | stop | closed | error | ready => cases hmem

/-- When the socket opens, it is sent all subscriptions. -/
theorem outputs_opened {now : Int} (h : Inv es s) (hws : s.ws = some k) :
    (handle host opts s (.opened k now)).2 =
      .sent k subscribeNewToken ::
        s.subscriptions.map fun mint => .sent k (subscribeTokenTrade mint) := by
  have hmine : s.Mine k ∧ k < s.sockets.length := by
    cases h.phase with
    | idle _ hnone | waiting _ _ _ hnone =>
      rw [hws] at hnone
      cases hnone
    | connected i _ hgo hws' _ hlast hown =>
      rw [hws] at hws'
      cases hws'
      exact ⟨⟨(hown k).mpr rfl, hgo⟩, by omega⟩
  have hsend : ∀ c, Feed.send { s.ready k OPEN with
      attempt := 0, connected := true, lastMessageAt := now } c = [.sent k c] := by
    intro c
    simp [Feed.send, Feed.ready, hws, hmine.2]
  simp only [handle, Feed.opened, if_neg (not_not.mpr (Feed.mine_ready.mpr hmine.1)),
    Feed.send_startWatchdog, Feed.tokenSubs_startWatchdog, hsend, List.singleton_append,
    ← List.map_eq_flatMap]
  rfl

/-- After any calls, events of sockets old and new, and timers, with any readings of the clock: as
long as the watcher is started it has a socket or the one timeout of its next attempt and not both;
callbacks are called for messages of the socket it has, or of the last one while that has closed and
no other was created; and a socket that opens is sent a subscription for each of `subscriptions()`,
once. -/
theorem feed_live (host : Host δ) (opts : Options) (es : List (Event δ)) :
    (active es = true →
      ((run host opts es).ws.isSome ∧ (run host opts es).reconnectTimer = none ∧
          (run host opts es).timeouts = []) ∨
        ((run host opts es).ws = none ∧ ∃ t, (run host opts es).timeouts = [t] ∧
          (run host opts es).reconnectTimer = some t.handle)) ∧
      (∀ e, ∀ o ∈ (handle host opts (run host opts es) e).2, o.IsCall →
        ∃ k data now ts, e = .message k data now ts ∧ active es = true ∧
          k + 1 = (run host opts es).sockets.length ∧
          ((run host opts es).ws = some k ∨
            (run host opts es).ws = none ∧ ∃ r, Event.closed k r ∈ es)) ∧
      (∀ k now, (run host opts es).ws = some k →
        (handle host opts (run host opts es) (.opened k now)).2 =
          .sent k subscribeNewToken ::
            (run host opts es).subscriptions.map fun mint => .sent k (subscribeTokenTrade mint)) ∧
      (run host opts es).subscriptions.Nodup := by
  have hinv : Inv es (run host opts es) := inv_run
  refine ⟨?_, ?_, ?_, hinv.distinct⟩
  · intro hactive
    cases hinv.phase with
    | idle hidle =>
      rw [hidle] at hactive
      cases hactive
    | connected k _ _ hws ht =>
      refine .inl ⟨by simp [hws], ht, ?_⟩
      simpa [ht] using hinv.pending
    | waiting t _ _ hws ht =>
      have hpending := hinv.pending
      rw [ht] at hpending
      obtain ⟨x, hx, rfl⟩ := List.map_eq_singleton_iff.mp hpending
      exact .inr ⟨hws, x, hx, ht⟩
  · intro e o hmem hcall
    obtain ⟨k, data, now, ts, rfl, hmine⟩ := mine_of_call hmem hcall
    obtain ⟨hlast, hown⟩ := hinv.own_of_mine hmine
    exact ⟨k, data, now, ts, rfl, hinv.active_of_mine hmine, hlast, hown⟩
  · intro k now hws
    exact outputs_opened hinv hws

/-- When a socket closes the feed waits for its next attempt. -/
theorem feed_live_closed :
    let host : Host String := ⟨some, fun _ => none, fun _ => none⟩
    let s := run host ⟨true, true⟩ [.start (some 0) 0, .subscribeTokenTrade "mint", .closed 0 0]
    s.ws = none ∧ ∃ t, s.timeouts = [t] ∧ s.reconnectTimer = some t.handle := by
  intro host
  have hlive := (feed_live host ⟨true, true⟩
    [.start (some 0) 0, .subscribeTokenTrade "mint", .closed 0 0]).1 (by decide)
  exact hlive.resolve_left fun h => absurd h.1 (by decide)

end AriOs.Market.PumpPortal
