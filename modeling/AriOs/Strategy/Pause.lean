import AriOs.Strategy.Runner

/-!
# Pausing a strategy

A tick writes back whole rows that it read before its waits. A pause that arrives while no tick
holds the row lasts until someone sets the strategy active. One that arrives while a tick holds
it is overwritten when the row is saved, and a row that is still to come in the tick is worked on
as if it were active.
-/

namespace AriOs.Strategy

open AriOs.Async AriOs.Async.Transition AriOs.Js AriOs.Storage

/-- The strategies whose rows the tick will write yet. -/
def Tick.held (t : Tick) : List String :=
  match t.stage with
  | .leaving => t.rest.map StrategyRow.id
  | .planning | .swapping _ | .reporting | .completing => t.row.id :: t.rest.map StrategyRow.id

/-- The strategies that a tick holds. -/
def World.held (w : World) : List String :=
  match w.tick with
  | some t => t.held
  | none => []

variable {hasPrice : Bool} {w w' : World} {t : Tick} {id : String} {row row' : StrategyRow}
  {rest : List StrategyRow} {now : ℚ}

theorem mem_held_of_tickOf (h : w.tick = tickOf rest) : w.held = rest.map StrategyRow.id := by
  unfold World.held
  rw [h]
  cases rest with
  | nil => rfl
  | cons row rest => rfl

theorem mem_held_rest (h : id ∈ t.rest.map StrategyRow.id) : id ∈ t.held := by
  unfold Tick.held
  cases t.stage with
  | leaving => exact h
  | planning | swapping | reporting | completing => exact List.mem_cons_of_mem _ h

/-! ### What a tick does -/

theorem plan_id {price : Except String (Option JsNumber)} {p : Plan}
    (h : row.plan hasPrice price = .ok (row', p)) : row'.id = row.id := by
  rcases StrategyRow.plan_cases h with ⟨-, rfl, -⟩ | ⟨-, rfl, -⟩ | ⟨-, params, rfl⟩ <;> rfl

/-- A step of the tick writes only the row it works on, asks for a swap of this one only, and
holds no row that it did not hold. -/
structure Works (w : World) (t : Tick) (w' : World) : Prop where
  store : w'.store = w.store ∨ ∃ row, row.id = t.row.id ∧ t.row.id ∈ t.held ∧
    w'.store = w.store.save row
  held : ∀ id ∈ w'.held, id ∈ t.held
  swaps : w'.swaps = w.swaps ∨ ∃ call : SwapCall, call.strategy = t.row.id ∧ t.row.id ∈ t.held ∧
    w'.swaps = w.swaps ++ [call]

/-- The tick still works on a row. -/
def Tick.Holding (t : Tick) : Prop := t.held = t.row.id :: t.rest.map StrategyRow.id

theorem Tick.Holding.mem (h : t.Holding) : t.row.id ∈ t.held := by
  rw [h]
  exact List.mem_cons_self

theorem works_conclude (h : t.Holding) (hid : row.id = t.row.id) :
    Works w t (w.conclude row t.rest) where
  store := .inr ⟨row, hid, h.mem, rfl⟩
  held id hmem := by
    rw [mem_held_of_tickOf rfl] at hmem
    exact mem_held_rest hmem
  swaps := .inl rfl

/-- The tick keeps its rows, and waits for something else. -/
theorem works_wait (h : t.Holding) {t' : Tick} (hid : t'.row.id = t.row.id)
    (hrest : t'.rest = t.rest) : Works w t { w with tick := some t' } where
  store := .inl rfl
  held id hmem := by
    have hmem' : id ∈ t'.held := hmem
    rw [h]
    unfold Tick.held at hmem'
    rw [hid, hrest] at hmem'
    split at hmem'
    · exact List.mem_cons_of_mem _ hmem'
    all_goals exact hmem'
  swaps := .inl rfl

theorem works_finishStep (h : t.Holding) (hid : row.id = t.row.id) :
    Works w t (w.finishStep row t.rest now) := by
  unfold World.finishStep
  split
  · exact works_wait h hid rfl
  · exact works_conclude h hid

theorem works_planned (h : t.Holding) (price : Except String (Option JsNumber)) :
    Works w t (w.planned hasPrice t price now) := by
  unfold World.planned
  split
  · exact works_conclude h rfl
  · rename_i row hplan
    have hid := plan_id hplan
    exact ⟨.inr ⟨{ row with status := .done }, hid, h.mem, rfl⟩,
      fun id hmem => mem_held_rest hmem, .inl rfl⟩
  · rename_i row hplan
    have hid := plan_id hplan
    exact works_conclude h hid
  · rename_i row request hplan
    have hwait : Works w t { w with tick := some ⟨row, .swapping request, t.rest⟩ } :=
      works_wait h (plan_id hplan) rfl
    exact ⟨hwait.store, hwait.held, .inr ⟨_, plan_id hplan, h.mem, rfl⟩⟩

theorem works_swapped (h : t.Holding) (request : StrategySwap)
    (outcome : Except String StrategySwapResult) : Works w t (w.swapped t request outcome now) := by
  cases outcome with
  | error text => exact works_conclude h rfl
  | ok result =>
    simp only [World.swapped]
    split
    · exact works_wait h (by simp) rfl
    · split
      · exact works_wait h rfl rfl
      · exact works_finishStep h rfl

theorem works_notified (w : World) (t : Tick) (now : ℚ) (h : w.tick = some t) :
    Works w t (w.notified t now) := by
  have hself : Works w t w := by
    refine ⟨.inl rfl, fun id hmem => ?_, .inl rfl⟩
    unfold World.held at hmem
    rwa [h] at hmem
  unfold World.notified
  cases hstage : t.stage with
  | reporting => exact works_finishStep (by unfold Tick.Holding Tick.held; rw [hstage]) rfl
  | completing => exact works_conclude (by unfold Tick.Holding Tick.held; rw [hstage]) rfl
  | leaving =>
    refine ⟨.inl rfl, fun id hmem => ?_, .inl rfl⟩
    rw [mem_held_of_tickOf rfl] at hmem
    exact mem_held_rest hmem
  | planning => exact hself
  | swapping request => exact hself

/-- An event creates a row, sets a status, begins a tick, is a step of the tick, or ends it. -/
theorem apply_cases (hasPrice : Bool) (w : World) (ev : Event) :
    (∃ id kind params firstRunAt store, ev = .create id kind params firstRunAt ∧
      w.store.create id kind params firstRunAt = some store ∧
      w.apply hasPrice ev = { w with store }) ∨
    (∃ id status, ev = .setStatus id status ∧
      w.apply hasPrice ev = { w with store := (w.store.setStatus id status).2 }) ∨
    (∃ now, w.tick = none ∧ w.apply hasPrice ev = { w with tick := tickOf (w.store.due now) }) ∨
    (∃ t, w.tick = some t ∧ Works w t (w.apply hasPrice ev)) ∨
    w.apply hasPrice ev = { w with tick := none } ∨ w.apply hasPrice ev = w := by
  cases ev with
  | create id kind params firstRunAt =>
    cases hcreate : w.store.create id kind params firstRunAt with
    | some store => exact .inl ⟨id, kind, params, firstRunAt, store, rfl, hcreate, by
        simp only [World.apply, hcreate]⟩
    | none => exact .inr (.inr (.inr (.inr (.inr (by simp only [World.apply, hcreate])))))
  | setStatus id status => exact .inr (.inl ⟨id, status, rfl, rfl⟩)
  | tick now =>
    cases htick : w.tick with
    | none => exact .inr (.inr (.inl ⟨now, rfl, by simp only [World.apply, htick]⟩))
    | some t => exact .inr (.inr (.inr (.inr (.inr (by simp only [World.apply, htick])))))
  | planned price now =>
    cases htick : w.tick with
    | none => exact .inr (.inr (.inr (.inr (.inr (by simp only [World.apply, htick])))))
    | some t =>
      simp only [World.apply, htick]
      split
      · rename_i hstage
        exact .inr (.inr (.inr (.inl ⟨t, rfl,
          works_planned (by unfold Tick.Holding Tick.held; rw [hstage]) price⟩)))
      · exact .inr (.inr (.inr (.inr (.inr rfl))))
  | swapped outcome now =>
    cases htick : w.tick with
    | none => exact .inr (.inr (.inr (.inr (.inr (by simp only [World.apply, htick])))))
    | some t =>
      simp only [World.apply, htick]
      split
      · rename_i request hstage
        exact .inr (.inr (.inr (.inl ⟨t, rfl,
          works_swapped (by unfold Tick.Holding Tick.held; rw [hstage]) request outcome⟩)))
      · exact .inr (.inr (.inr (.inr (.inr rfl))))
  | notified now =>
    cases htick : w.tick with
    | none => exact .inr (.inr (.inr (.inr (.inr (by simp only [World.apply, htick])))))
    | some t =>
      simp only [World.apply, htick]
      exact .inr (.inr (.inr (.inl ⟨t, rfl, works_notified w t now htick⟩)))
  | crash => exact .inr (.inr (.inr (.inr (.inl rfl))))

/-! ### Pauses -/

/-- The swaps of a strategy that were asked for. -/
def World.swapsOf (w : World) (id : String) : List SwapCall :=
  w.swaps.filter fun call => call.strategy = id

/-- The strategy is there, not active and held by no tick, and these are its swaps. -/
structure Resting (id : String) (calls : List SwapCall) (w : World) : Prop where
  row : ∃ r, w.store.find? id = some r ∧ r.status ≠ .active
  held : id ∉ w.held
  swaps : w.swapsOf id = calls

theorem find?_id {r : StrategyRow} (h : w.store.find? id = some r) : r.id = id :=
  (Table.find?_eq_some_iff.mp h).2

/-- Nothing but the console wakes a strategy that rests. -/
theorem Resting.apply {calls : List SwapCall} (h : Resting id calls w) {ev : Event}
    (hev : ev ≠ .setStatus id .active) : Resting id calls (w.apply hasPrice ev) := by
  obtain ⟨⟨r, hr, hstatus⟩, hheld, hswaps⟩ := h
  rcases apply_cases hasPrice w ev with ⟨id', kind, params, firstRunAt, store, -, hcreate, heq⟩ |
    ⟨id', status, rfl, heq⟩ | ⟨now, -, heq⟩ | ⟨t, htick, hworks⟩ | heq | heq
  · rw [heq]
    refine ⟨⟨r, ?_, hstatus⟩, hheld, hswaps⟩
    have hkey : w.store.find? r.id = some r := by rw [find?_id hr]; exact hr
    have hne := Table.key_ne_of_insert? hcreate hkey
    rw [Table.find?_insert? hcreate, if_neg (by rw [← find?_id hr]; exact hne)]
    exact hr
  · rw [heq]
    refine ⟨?_, hheld, hswaps⟩
    by_cases hid : id' = id
    · subst hid
      refine ⟨{ r with status }, ?_, ?_⟩
      · rw [StrategyStore.find?_setStatus, hr, Option.map_some, if_pos (find?_id hr)]
      · rintro rfl
        exact hev rfl
    · refine ⟨r, ?_, hstatus⟩
      rw [StrategyStore.find?_setStatus, hr, Option.map_some,
        if_neg (by rw [find?_id hr]; exact Ne.symm hid)]
  · -- a tick reads active rows only
    rw [heq]
    refine ⟨⟨r, hr, hstatus⟩, ?_, hswaps⟩
    rw [mem_held_of_tickOf rfl]
    intro hmem
    obtain ⟨r', hr', hid⟩ := List.mem_map.mp hmem
    obtain ⟨hrow, hactive, -⟩ := StrategyStore.mem_due.mp hr'
    obtain rfl := Option.some.inj (hr.symm.trans (Table.find?_eq_some_iff.mpr ⟨hrow, hid⟩))
    exact hstatus hactive
  · -- a tick that is under way does not hold the strategy, so it does not write it
    have hnot : id ∉ t.held := by
      unfold World.held at hheld
      rwa [htick] at hheld
    refine ⟨?_, fun hmem => hnot (hworks.held id hmem), ?_⟩
    · rcases hworks.store with heq | ⟨row, hrow, hmem, heq⟩
      · rw [heq]
        exact ⟨r, hr, hstatus⟩
      · refine ⟨r, ?_, hstatus⟩
        rw [heq, StrategyStore.find?_save, hr, Option.map_some, if_neg]
        rw [find?_id hr, hrow]
        rintro rfl
        exact hnot hmem
    · rcases hworks.swaps with heq | ⟨call, hcall, hmem, heq⟩
      · rw [World.swapsOf, heq]
        exact hswaps
      · have hne : call.strategy ≠ id := by
          rintro rfl
          exact hnot (hcall ▸ hmem)
        rw [World.swapsOf, heq, List.filter_append, List.filter_singleton, decide_eq_false hne]
        simpa [World.swapsOf] using hswaps
  · rw [heq]
    exact ⟨⟨r, hr, hstatus⟩, List.not_mem_nil, hswaps⟩
  · rw [heq]
    exact ⟨⟨r, hr, hstatus⟩, hheld, hswaps⟩

/-- After each pause of a strategy that is there, and until someone sets it active: no swap of
it is asked for, and it does not become active. -/
def PauseKept (hasPrice : Bool) (es : List Event) : Prop :=
  ∀ before id after, es = before ++ .setStatus id .paused :: after →
    ((run (World.apply hasPrice) .start before).store.find? id).isSome = true →
    (∀ ev ∈ after, ev ≠ .setStatus id .active) →
    (∀ r, (run (World.apply hasPrice) .start es).store.find? id = some r → r.status ≠ .active) ∧
      (run (World.apply hasPrice) .start es).swapsOf id =
        (run (World.apply hasPrice) .start before).swapsOf id

/-- A pause finds the row of the strategy held by no tick. -/
def Unheld (w : World) : Event → Prop
  | .setStatus id .paused => id ∉ w.held
  | _ => True

/-- In a run whose pauses find their rows unheld, no pause is lost. -/
theorem pauseKept_of_unheld (hasPrice : Bool) (es : List Event)
    (h : Meets (World.apply hasPrice) Unheld .start es) : PauseKept hasPrice es := by
  rintro before id after rfl hthere hafter
  obtain ⟨-, hunheld, -⟩ := meets_append.mp h
  obtain ⟨r, hr⟩ := Option.isSome_iff_exists.mp hthere
  -- when the pause is set no step of the strategy is under way
  have hpaused : Resting id ((run (World.apply hasPrice) .start before).swapsOf id)
      ((run (World.apply hasPrice) .start before).apply hasPrice (.setStatus id .paused)) := by
    refine ⟨⟨{ r with status := .paused }, ?_, by simp⟩, hunheld, rfl⟩
    simp only [World.apply]
    rw [StrategyStore.find?_setStatus, hr, Option.map_some, if_pos (find?_id hr)]
  -- and so none begins
  have hrests : Resting id ((run (World.apply hasPrice) .start before).swapsOf id)
      (run (World.apply hasPrice) .start (before ++ .setStatus id .paused :: after)) := by
    rw [run_append, run_cons]
    clear h
    generalize (run (World.apply hasPrice) .start before).apply hasPrice (.setStatus id .paused) = w
      at hpaused
    induction after generalizing w with
    | nil => exact hpaused
    | cons ev after ih =>
      exact ih (fun ev' hev' => hafter ev' (List.mem_cons_of_mem _ hev')) _
        (hpaused.apply (hafter ev List.mem_cons_self))
  refine ⟨fun r' hr' => ?_, hrests.swaps⟩
  obtain ⟨r'', hr'', hstatus⟩ := hrests.row
  obtain rfl := Option.some.inj (hr''.symm.trans hr')
  exact hstatus

/-! ### Runs -/

/-- A strategy that buys some of a token at every step. -/
def dcaParams : Params := ⟨[("token", .string "token"), ("amountUiPerStep", .number (.finite 1))],
  by decide⟩

theorem pauseKept_beforeTick :
    Meets (World.apply false) Unheld .start
        [.create "s" .dca dcaParams 0, .setStatus "s" .paused, .tick 0] ∧
      PauseKept false [.create "s" .dca dcaParams 0, .setStatus "s" .paused, .tick 0] := by
  have hmeets : Meets (World.apply false) Unheld .start
      [.create "s" .dca dcaParams 0, .setStatus "s" .paused, .tick 0] :=
    ⟨trivial, show "s" ∉ World.held _ by decide, trivial, trivial⟩
  exact ⟨hmeets, pauseKept_of_unheld false _ hmeets⟩

/-- The pause arrives while the swap is waited for: the row that is saved then is active. -/
theorem pause_overwritten : ¬∀ (hasPrice : Bool) (es : List Event), PauseKept hasPrice es := by
  intro h
  have hthere : ((run (World.apply false) .start
      [.create "s" .dca dcaParams 0, .tick 0, .planned (.ok none) 0]).store.find? "s").isSome =
      true := by
    decide
  have hactive : ((run (World.apply false) .start
      [.create "s" .dca dcaParams 0, .tick 0, .planned (.ok none) 0, .setStatus "s" .paused,
        .swapped (.ok ⟨true, "bought", none⟩) 0, .notified 0]).store.find? "s").map
          StrategyRow.status = some .active := by
    decide
  obtain ⟨r, hr, hstatus⟩ := Option.map_eq_some_iff.mp hactive
  exact (h false _ [.create "s" .dca dcaParams 0, .tick 0, .planned (.ok none) 0] "s" _ rfl hthere
    (by simp)).1 r hr hstatus

end AriOs.Strategy
