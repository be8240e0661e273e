import AriOs.LiveTrading.Effects

/-!
# Expiry and the reservation

`expire` releases the reservation first and moves the execution to `expired` after that, in
two calls. In between, and since the caller looked at the execution, another operation may
have moved it on; the move to `expired` then fails, and the amount stays released.

The release is borne out exactly if it finds the execution where its operation is about to
move it from, and nobody moves the execution on before that operation does.
-/

namespace AriOs.LiveTrading

open AriOs.Async AriOs.Execution AriOs.Js AriOs.Storage Live

/-! ### What an operation has done in `expire` -/

/-- What the calls of an operation say about its passes through `expire`. -/
structure Expiry where
  /-- the execution `expire` has just read -/
  reading : Option String := none
  /-- the execution whose reservation `expire` has just asked to release -/
  releasing : Option String := none
  /-- the executions it moved to `expired` -/
  expired : List String := []
  deriving DecidableEq, Repr

/-- The call is the read of `expire`. -/
def readsToExpire? : Entry interface → Option String
  | ⟨.get .expire id, _⟩ => some id
  | _ => none

def isRelease : Entry interface → Bool
  | ⟨.release _, _⟩ => true
  | _ => false

/-- The call moved an execution to `expired`. -/
def expires? : Entry interface → Option String
  | ⟨.transition id _ patch, .ok _⟩ => if patch.state = some .expired then some id else none
  | _ => none

def Expiry.push (v : Expiry) (e : Entry interface) : Expiry where
  reading := readsToExpire? e
  releasing := if isRelease e then v.reading else none
  expired := (expires? e).toList ++ v.expired

/-- What is left of an operation. -/
abbrev LiveProg := Prog interface (Except String Response)

/-- What an operation has done in `expire`. -/
def expiryOf (c : LiveCall) : Expiry := c.history.foldl Expiry.push {}

theorem expiryOf_advance (c : LiveCall) (o : interface.Op) (k : interface.Res o → LiveProg)
    (r : interface.Res o) : expiryOf (c.advance o k r) = (expiryOf c).push ⟨o, r⟩ := by
  simp [expiryOf, Call.advance]

/-- The move to `expired` that comes next in what is left of an operation. -/
def expiring? : LiveProg → Option (String × List TradeState)
  | .call (.transition id source patch) _ =>
    if patch.state = some .expired then some (id, source) else none
  | _ => none

/-- The move to `expired` that comes after a release. -/
def expiringAfter? (s : LiveStore) : LiveProg → Option (String × List TradeState)
  | .call (.release rid) k => expiring? (k (s.release rid).1)
  | _ => none

theorem expiring?_eq_some {o : Op} {k : o.Res → LiveProg} {id : String}
    {source : List TradeState} (h : expiring? (.call o k) = some (id, source)) :
    ∃ patch, o = .transition id source patch ∧ patch.state = some .expired := by
  unfold expiring? at h
  split at h
  · rename_i heq
    obtain ⟨rfl, -⟩ := Prog.call.inj heq
    split at h
    · rename_i hpatch
      obtain ⟨rfl, rfl⟩ := Prod.mk.inj (Option.some_inj.mp h)
      exact ⟨_, rfl, hpatch⟩
    · simp at h
  · simp at h

/-! ### What is asked of a run -/

/-- Some operation moved the execution to `expired`. -/
def BecameExpired (p : LivePool) (id : String) : Prop :=
  ∃ c ∈ p.calls, id ∈ (expiryOf c).expired

/-- The store has the execution in one of the states. -/
def InState (s : LiveStore) (id : String) (source : List TradeState) : Prop :=
  ∃ state ∈ s.stateOf id, state ∈ source

/-- There is something to release. -/
def LiveStore.Holds (s : LiveStore) (rid : String) : Prop :=
  rid ∈ s.revokeReservations ∨ ∃ r ∈ s.ledger.find? rid, r.state = .reserved

/-- The next call of operation `t` releases the reservation of the execution in `expire`. -/
def Frees (p : LivePool) (t : Nat) (id : String) : Prop :=
  ∃ rid, p.next? t = some (.release rid) ∧ p.shared.Holds rid ∧
    ∃ c ∈ p.calls[t]?, (expiryOf c).reading = some id

/-- Operation `t` released the reservation of the execution in `expire`. -/
def Released (cfg : Config) (es : List (Event interface Request)) (t : Nat) (id : String) : Prop :=
  ∃ before ans after, es = before ++ .step t ans :: after ∧ Frees (liveRun cfg before) t id

/-- Operation `t` is between the release and the move to `expired`, and the execution is still
where it will be moved from. Nothing more is asked if its process died in between. -/
def Waiting (p : LivePool) (t : Nat) (id : String) : Prop :=
  ∃ c ∈ p.calls[t]?, (expiryOf c).releasing = some id ∧
    ∀ q ∈ c.rest, ∃ source, expiring? q = some (id, source) ∧ InState p.shared id source

/-- An execution whose reservation was released by `expire` became expired, unless the
operation that released it is still to move it there. -/
def FreesExpired (cfg : Config) (es : List (Event interface Request)) : Prop :=
  ∀ t id, Released cfg es t id → BecameExpired (liveRun cfg es) id ∨ Waiting (liveRun cfg es) t id

/-- Whoever released the reservation of the execution, and has not moved it to `expired` yet,
can do so from this state. -/
def LeavesWaiting (cfg : Config) (es : List (Event interface Request)) (id : String)
    (state : TradeState) : Prop :=
  ∀ u, Released cfg es u id → ∀ c ∈ (liveRun cfg es).calls[u]?, (expiryOf c).releasing = some id →
    ∀ q ∈ c.rest, ∀ source, expiring? q = some (id, source) → state ∈ source

/-- `expire` releases a reservation only while the execution is where it will be moved from, or
once it became expired; and an execution is moved on only to `expired`, or to where those who
released its reservation can still move it from, or after it became expired. -/
def ExpiresUndisturbed (cfg : Config) (es : List (Event interface Request)) :
    Event interface Request → Prop
  | .step t _ =>
    (∀ id, Frees (liveRun cfg es) t id → BecameExpired (liveRun cfg es) id ∨
      ∃ c ∈ (liveRun cfg es).calls[t]?, ∃ q ∈ c.rest, ∃ source,
        expiringAfter? (liveRun cfg es).shared q = some (id, source) ∧
        InState (liveRun cfg es).shared id source) ∧
    ∀ id source patch old, (liveRun cfg es).next? t = some (.transition id source patch) →
      (liveRun cfg es).shared.executions.find? id = some old → old.state ∈ source →
      patch.state ≠ some .expired →
        BecameExpired (liveRun cfg es) id ∨ LeavesWaiting cfg es id (patch.state.getD old.state)
  | _ => True

/-! ### One event -/

section Step

variable {cfg : Config} {p : LivePool} {id : String}

theorem expiryOf_subset {c d : LiveCall} (h : c.history <+: d.history) :
    (expiryOf c).expired ⊆ (expiryOf d).expired := by
  obtain ⟨tail, htail⟩ := h
  rw [expiryOf, expiryOf, ← htail, List.foldl_append]
  generalize c.history.foldl Expiry.push {} = v
  clear htail
  -- by induction on the calls made since, each of which only adds
  induction tail generalizing v with
  | nil => exact List.Subset.refl _
  | cons e tail ih => exact List.Subset.trans (List.subset_append_right _ _) (ih (v.push e))

/-- What became expired has become expired for good. -/
theorem BecameExpired.apply (h : BecameExpired p id) (e : Event interface Request) :
    BecameExpired (p.apply (machine cfg) (fun r => (serve cfg r).run) e) id := by
  obtain ⟨c, hc, hid⟩ := h
  obtain ⟨t, ht⟩ := List.mem_iff_getElem?.mp hc
  obtain ⟨d, hd, -, hprefix⟩ := Pool.exists_apply ht e
  exact ⟨d, List.mem_of_getElem? hd, expiryOf_subset hprefix hid⟩

theorem expires?_eq_some {o : Op} {r : o.Res} (h : expires? ⟨o, r⟩ = some id) :
    ∃ source patch, o = .transition id source patch ∧ patch.state = some .expired := by
  unfold expires? at h
  split at h
  · rename_i id' source patch x heq
    obtain ⟨rfl, -⟩ := Entry.mk.inj heq
    split at h
    · rename_i hpatch
      obtain rfl := Option.some_inj.mp h
      exact ⟨source, patch, rfl, hpatch⟩
    · simp at h
  · simp at h

/-- What an event makes of operation `t`: it arrives, it makes a call, it dies, or it is left
alone. -/
theorem getElem?_apply {e : Event interface Request} {t : Nat} {d : LiveCall}
    (hd : (p.apply (machine cfg) (fun r => (serve cfg r).run) e).calls[t]? = some d) :
    d.history = [] ∨
    (∃ c, p.calls[t]? = some c ∧ d.history = c.history ∧ (d.rest = none ∨ d = c)) ∨
    ∃ ans c o k, e = .step t ans ∧ p.calls[t]? = some c ∧ c.rest = some (.call o k) ∧
      d = c.advance o k ((machine cfg).handle o p.shared (ans o)).1 := by
  cases e with
  | spawn r =>
    rcases getElem?_append_singleton_cases hd with ⟨-, rfl⟩ | hd
    · exact .inl rfl
    · exact .inr (.inl ⟨d, hd, rfl, .inr rfl⟩)
  | kill u =>
    obtain ⟨c, hc, -, hhist, hrest⟩ := Pool.getElem?_kill hd
    exact .inr (.inl ⟨c, hc, hhist, hrest⟩)
  | step u ans =>
    rw [Pool.apply] at hd
    rcases Pool.step_cases (M := machine cfg) p u ans with heq | ⟨c, o, k, hc, hrest, heq⟩
    · rw [heq] at hd
      exact .inr (.inl ⟨d, hd, rfl, .inr rfl⟩)
    · rw [heq] at hd
      rcases getElem?_set_cases hd with ⟨rfl, rfl⟩ | ⟨-, hd⟩
      · exact .inr (.inr ⟨ans, c, o, k, rfl, hc, hrest, rfl⟩)
      · exact .inr (.inl ⟨d, hd, rfl, .inr rfl⟩)

/-- Only a move to `expired` makes an execution become expired. -/
theorem becameExpired_of_apply {e : Event interface Request}
    (h : BecameExpired (p.apply (machine cfg) (fun r => (serve cfg r).run) e) id) :
    BecameExpired p id ∨ ∃ t ans source patch, e = .step t ans ∧
      p.next? t = some (.transition id source patch) ∧ patch.state = some .expired := by
  obtain ⟨d, hd, hid⟩ := h
  obtain ⟨t, ht⟩ := List.mem_iff_getElem?.mp hd
  rcases getElem?_apply ht with hhist | ⟨c, hc, hhist, -⟩ | ⟨ans, c, o, k, rfl, hc, hrest, rfl⟩
  · simp [expiryOf, hhist] at hid
  · exact .inl ⟨c, List.mem_of_getElem? hc, by rwa [expiryOf, hhist] at hid⟩
  · rw [expiryOf_advance] at hid
    rcases List.mem_append.mp hid with hid | hid
    · obtain ⟨source, patch, rfl, hpatch⟩ := expires?_eq_some (Option.mem_toList.mp hid)
      exact .inr ⟨t, ans, source, patch, rfl, Pool.next?_eq hc hrest, hpatch⟩
    · exact .inl ⟨c, List.mem_of_getElem? hc, hid⟩

/-- The execution stays where it is, unless the call moves it. -/
theorem inState_handle {s : LiveStore} {source : List TradeState} (h : InState s id source) (o : Op)
    (a : o.Ans) :
    InState ((machine cfg).handle o s a).2 id source ∨
      ∃ source' patch old, o = .transition id source' patch ∧
        s.executions.find? id = some old ∧ old.state ∈ source' ∧
        ((machine cfg).handle o s a).2.stateOf id = some (patch.state.getD old.state) := by
  obtain ⟨state, hstate, hmem⟩ := h
  obtain ⟨x, hx, rfl⟩ := Option.map_eq_some_iff.mp hstate
  rcases executions_handle cfg o s a with heq | ⟨_, _, row, -, -, hins⟩ |
    ⟨id', source', patch, now, old, rfl, hold, holdmem, hfind⟩
  · exact .inl ⟨_, by rw [LiveStore.stateOf, heq, hx]; rfl, hmem⟩
  · exact .inl ⟨_, by rw [LiveStore.stateOf, Table.find?_insert?_of_some hins hx]; rfl, hmem⟩
  · by_cases hid : id = id'
    · subst hid
      exact .inr ⟨source', patch, old, rfl, hold, holdmem, by simp [LiveStore.stateOf, hfind]⟩
    · exact .inl ⟨_, by rw [LiveStore.stateOf, hfind, if_neg hid, hx]; rfl, hmem⟩

/-- An execution that is where it is moved to `expired` from becomes expired. -/
theorem becameExpired_of_transition {t : Nat} {ans : ∀ o, interface.Ans o}
    {source : List TradeState} {patch : Patch}
    (hnext : p.next? t = some (.transition id source patch)) (hpatch : patch.state = some .expired)
    {old : Execution} (hold : p.shared.executions.find? id = some old) (hmem : old.state ∈ source) :
    BecameExpired (p.apply (machine cfg) (fun r => (serve cfg r).run) (.step t ans)) id := by
  obtain ⟨c, k, hc, hrest⟩ := Pool.exists_of_next? hnext
  obtain ⟨x, hok⟩ : ∃ x, ((machine cfg).handle (.transition id source patch) p.shared
      (ans (.transition id source patch))).1 = .ok x := by
    rcases transition_cases p.shared id source patch (ans (.transition id source patch)) with
      ⟨⟨e, herr⟩, -⟩ | ⟨old', -, -, hok, -⟩
    · simp [LiveStore.transition, hold, hmem] at herr
    · exact ⟨_, hok⟩
  refine ⟨c.advance _ k ((machine cfg).handle _ p.shared (ans _)).1, ?_, ?_⟩
  · simp only [Pool.apply, Pool.step, hc, hrest]
    exact List.mem_of_getElem? (List.getElem?_set_self (List.getElem?_eq_some_iff.mp hc).1)
  · have hexpires : expires? ⟨.transition id source patch, ((machine cfg).handle
        (.transition id source patch) p.shared (ans (.transition id source patch))).1⟩ = some id := by
      rw [hok]
      exact if_pos hpatch
    exact (congrArg (fun v : Expiry => id ∈ v.expired) (expiryOf_advance c _ k _)).mpr
      (List.mem_append_left _ (Option.mem_toList.mpr hexpires))

/-- A release leaves every execution where it is. -/
theorem inState_step_release {t : Nat} {rid : String} (hnext : p.next? t = some (.release rid))
    (ans : ∀ o, interface.Ans o) {source : List TradeState} :
    InState (p.step (machine cfg) t ans).shared id source ↔ InState p.shared id source := by
  have hstate : (p.step (machine cfg) t ans).shared.stateOf id = p.shared.stateOf id := by
    rw [Pool.step_shared hnext]
    exact congrArg (fun t : Table Execution.id => (t.find? id).map Execution.state)
      (release_cases p.shared rid).1
  simp only [InState, hstate]

end Step

/-! ### Runs -/

section Runs

variable {cfg : Config} {es : List (Event interface Request)} {e : Event interface Request}
  {t : Nat} {id : String}

theorem liveRun_append_singleton (cfg : Config) (es : List (Event interface Request))
    (e : Event interface Request) : liveRun cfg (es ++ [e]) =
      (liveRun cfg es).apply (machine cfg) (fun r => (serve cfg r).run) e :=
  Pool.run_append _ _ _

theorem released_append_singleton :
    Released cfg (es ++ [e]) t id ↔
      Released cfg es t id ∨ ∃ ans, e = .step t ans ∧ Frees (liveRun cfg es) t id := by
  constructor
  · rintro ⟨before, ans, after, heq, hfrees⟩
    rcases List.eq_nil_or_concat after with rfl | ⟨mid, last, rfl⟩
    · obtain ⟨rfl, he⟩ := List.append_inj' heq rfl
      exact .inr ⟨ans, List.singleton_inj.mp he, hfrees⟩
    · have hinit : es = before ++ .step t ans :: mid := by
        have hcut : es ++ [e] = (before ++ .step t ans :: mid) ++ [last] := by simpa using heq
        exact (List.append_inj' hcut rfl).1
      exact .inl ⟨before, ans, mid, hinit, hfrees⟩
  · rintro (⟨before, ans, after, rfl, hfrees⟩ | ⟨ans, rfl, hfrees⟩)
    · exact ⟨before, ans, after ++ [e], by simp, hfrees⟩
    · exact ⟨es, ans, [], rfl, hfrees⟩

/-- An execution that waits to be moved to `expired` goes on waiting, or became expired. -/
theorem waits_or_becameExpired (hreleased : Released cfg es t id)
    (hwaiting : Waiting (liveRun cfg es) t id) (hcond : ExpiresUndisturbed cfg es e) :
    BecameExpired (liveRun cfg (es ++ [e])) id ∨ Waiting (liveRun cfg (es ++ [e])) t id := by
  rw [liveRun_append_singleton]
  obtain ⟨c, hc, hreleasing, hrest⟩ := hwaiting
  obtain ⟨d, hd, -, hprefix⟩ : ∃ d : LiveCall, ((liveRun cfg es).apply (machine cfg)
      (fun r => (serve cfg r).run) e).calls[t]? = some d ∧ d.request = c.request ∧
        c.history <+: d.history := Pool.exists_apply hc e
  rcases getElem?_apply hd with hhist | ⟨c', hc', hhist, hdc⟩ | ⟨ans, c', o, k, rfl, hc', hnext, rfl⟩
  · -- an operation that has just arrived has released nothing
    rw [hhist, List.prefix_nil] at hprefix
    simp [expiryOf, hprefix] at hreleasing
  · obtain rfl := Option.some_inj.mp (hc'.symm.trans hc)
    have hd_releasing : (expiryOf d).releasing = some id := by rwa [expiryOf, hhist]
    rcases hdc with hdead | rfl
    · exact .inr ⟨d, hd, hd_releasing, by simp [hdead]⟩
    cases hq : d.rest with
    | none => exact .inr ⟨d, hd, hd_releasing, by simp [hq]⟩
    | some q =>
      obtain ⟨source, hpending, hin⟩ := hrest q hq
      suffices h : BecameExpired ((liveRun cfg es).apply (machine cfg)
          (fun r => (serve cfg r).run) e) id ∨ InState ((liveRun cfg es).apply (machine cfg)
          (fun r => (serve cfg r).run) e).shared id source from
        h.imp_right fun hin => ⟨d, hd, hd_releasing, fun q' hq' =>
          ⟨source, Option.some_inj.mp (hq.symm.trans hq') ▸ hpending, hin⟩⟩
      cases e with
      | spawn r => exact .inr hin
      | kill u => exact .inr hin
      | step u ans =>
        cases hnext : (liveRun cfg es).next? u with
        | none => exact .inr (by rwa [Pool.apply, Pool.step_eq_self hnext])
        | some o =>
          rw [Pool.apply, Pool.step_shared hnext]
          rcases inState_handle hin o (ans o) with hin' |
            ⟨source', patch, old, rfl, hold, hmem, hstate⟩
          · exact .inr hin'
          · -- the call moves the execution: to `expired`, or to where it can still be expired
            by_cases hpatch : patch.state = some .expired
            · exact .inl (becameExpired_of_transition hnext hpatch hold hmem)
            · rcases hcond.2 id source' patch old hnext hold hmem hpatch with hbecame | hleaves
              · exact .inl (hbecame.apply (.step u ans))
              · exact .inr ⟨_, hstate, hleaves t hreleased d hc hreleasing q hq source hpending⟩
  · -- the operation that waits moves it to `expired` now
    obtain rfl := Option.some_inj.mp (hc'.symm.trans hc)
    obtain ⟨source, hpending, state, hstate, hmem⟩ := hrest _ hnext
    obtain ⟨patch, rfl, hpatch⟩ := expiring?_eq_some hpending
    obtain ⟨x, hx, rfl⟩ := Option.map_eq_some_iff.mp hstate
    exact .inl (becameExpired_of_transition (Pool.next?_eq hc hnext) hpatch hx hmem)

/-- An event that disturbs no expiry keeps what was released borne out. -/
theorem FreesExpired.append (h : FreesExpired cfg es) (hcond : ExpiresUndisturbed cfg es e) :
    FreesExpired cfg (es ++ [e]) := by
  intro t id hreleased
  rcases released_append_singleton.mp hreleased with hreleased | ⟨ans, rfl, hfrees⟩
  · -- it was freed before, or by this step
    rcases h t id hreleased with hbecame | hwaiting
    · rw [liveRun_append_singleton]
      exact .inl (hbecame.apply e)
    · exact waits_or_becameExpired hreleased hwaiting hcond
  · rw [liveRun_append_singleton]
    rcases hcond.1 id hfrees with hbecame | ⟨c, hc, q, hq, source, hafter, hin⟩
    · exact .inl (hbecame.apply _)
    · right
      -- the call that frees is the one that looked at the row
      obtain ⟨rid, hnext, -, c', hc', hreading⟩ := hfrees
      obtain rfl := Option.some_inj.mp ((Option.mem_def.mp hc).symm.trans hc')
      obtain ⟨c', k, hc', hrest⟩ := Pool.exists_of_next? hnext
      obtain rfl := Option.some_inj.mp ((Option.mem_def.mp hc).symm.trans hc')
      obtain rfl := Option.some_inj.mp (hrest.symm.trans hq)
      refine ⟨c.advance (.release rid) k ((liveRun cfg es).shared.release rid).1, ?_, ?_, ?_⟩
      · simp only [Pool.apply, Pool.step, hc', hrest]
        exact List.getElem?_set_self (List.getElem?_eq_some_iff.mp hc').1
      · exact (congrArg Expiry.releasing (expiryOf_advance c _ k _)).trans hreading
      · intro q hq
        obtain rfl := Option.some_inj.mp hq
        exact ⟨source, hafter, (inState_step_release hnext ans).mpr hin⟩

/-- An event after which what was released is borne out disturbed no expiry. -/
theorem expiresUndisturbed_of_frees (h : FreesExpired cfg (es ++ [e])) :
    ExpiresUndisturbed cfg es e := by
  cases e with
  | spawn r => trivial
  | kill t => trivial
  | step t ans =>
    refine ⟨fun id hfrees => ?_, fun id source patch old hnext hold hmem hpatch => ?_⟩
    · have hafter := h t id (released_append_singleton.mpr (.inr ⟨ans, rfl, hfrees⟩))
      rw [liveRun_append_singleton] at hafter
      obtain ⟨rid, hnext, -, -⟩ := hfrees
      rcases hafter with hbecame | ⟨d, hd, -, hrest⟩
      · left
        rcases becameExpired_of_apply hbecame with hbecame | ⟨t', ans', source, patch, he, hnext', -⟩
        · exact hbecame
        · obtain ⟨rfl, -⟩ := Event.step.inj he
          exact absurd (Option.some_inj.mp (hnext.symm.trans hnext')) (by simp)
      · right
        obtain ⟨c, k, hc, hcrest⟩ := Pool.exists_of_next? hnext
        simp only [Pool.apply, Pool.step, hc, hcrest] at hd
        rw [List.getElem?_set_self (List.getElem?_eq_some_iff.mp hc).1] at hd
        obtain rfl := Option.some_inj.mp hd
        obtain ⟨source, hpending, hin⟩ := hrest _ rfl
        exact ⟨c, hc, _, hcrest, source, hpending, (inState_step_release hnext ans).mp hin⟩
    · by_cases hbecame : BecameExpired (liveRun cfg es) id
      · exact .inl hbecame
      refine .inr fun u hreleased c hc hreleasing q hq source' hpending => ?_
      have hafter := h u id (released_append_singleton.mpr (.inl hreleased))
      rw [liveRun_append_singleton] at hafter
      obtain ⟨d, k, hd, hdrest⟩ := Pool.exists_of_next? hnext
      -- the operation that waits is not the one that moves the execution elsewhere
      have htu : t ≠ u := by
        rintro rfl
        obtain rfl := Option.some_inj.mp (hd.symm.trans hc)
        obtain rfl := Option.some_inj.mp (hdrest.symm.trans hq)
        obtain ⟨patch', hop, hpatch'⟩ := expiring?_eq_some hpending
        obtain ⟨-, -, rfl⟩ := Op.transition.inj hop
        exact hpatch hpatch'
      rcases hafter with hbecame' | ⟨c', hc', -, hrest⟩
      · rcases becameExpired_of_apply hbecame' with hbefore | ⟨t', ans', s', p', he, hnext', hp⟩
        · exact absurd hbefore hbecame
        · obtain ⟨rfl, -⟩ := Event.step.inj he
          obtain ⟨-, -, rfl⟩ := Op.transition.inj (Option.some_inj.mp (hnext.symm.trans hnext'))
          exact absurd hp hpatch
      · simp only [Pool.apply, Pool.step, hd, hdrest] at hc'
        rw [Option.mem_def, List.getElem?_set_ne htu] at hc'
        obtain rfl := Option.some_inj.mp ((Option.mem_def.mp hc).symm.trans hc')
        obtain ⟨source'', hpending', state, hstate, hin⟩ := hrest q hq
        obtain ⟨-, rfl⟩ := Prod.mk.inj (Option.some_inj.mp (hpending.symm.trans hpending'))
        have hmoved : state = patch.state.getD old.state := by
          rw [Pool.apply, Pool.step_shared hnext, LiveStore.stateOf] at hstate
          exact Option.some_inj.mp ((Option.mem_def.mp hstate).symm.trans
            (congrArg (Option.map Execution.state) (find?_transition hold hmem)))
        exact hmoved ▸ hin

end Runs

/-- **Expiry frees only what expires** in every state of a run iff no step of it disturbs an
expiry: every release in `expire` finds the execution where it will be moved from, or finds that
it became expired, and nobody moves it on to anything else before the operation that released
it does. -/
theorem frees_expired_iff (cfg : Config) (es : List (Event interface Request)) :
    (∀ before after, es = before ++ after → FreesExpired cfg before) ↔
      ∀ before e after, es = before ++ e :: after → ExpiresUndisturbed cfg before e := by
  constructor
  · intro h before e after heq
    exact expiresUndisturbed_of_frees (h (before ++ [e]) after (by simp [heq]))
  · rintro h before after rfl
    induction before using List.reverseRecOn generalizing after with
    | nil =>
      rintro t id ⟨before, ans, rest, heq, -⟩
      simp at heq
    | append_singleton before e ih =>
      refine FreesExpired.append (ih (e :: after) ?_) (h before e after (by simp))
      simpa using h

/-! ### Two submits, one of them late -/

/-- The cluster is past the last height at which the transaction can land. -/
def sampleLate : ∀ o, interface.Ans o
  | .blockHeight => (.ok (.ofInt 101) : Except String JsNumber)
  | o => sampleAnswers o

/-- The second submit has found the reservation valid when the first one, told that the
blockhash is dead, is about to release it. -/
def sampleStale : List (Event interface Request) :=
  sampleApproved ++ [.spawn (.submit "x1"), .spawn (.submit "x1")] ++
    List.replicate 4 (.step 3 sampleAnswers) ++ List.replicate 4 (.step 2 sampleLate)

/-- It releases it, and the second submit goes on to `signing` before the first can move the
execution to `expired`. -/
def sampleRace : List (Event interface Request) :=
  sampleStale ++ .step 2 sampleLate :: (List.replicate 3 (.step 3 sampleAnswers) ++
    [.step 2 sampleLate])

/-- The execution is being signed, and its reservation is gone. -/
theorem signing_is_released :
    (liveRun sampleConfig sampleRace).shared.stateOf "x1" = some .signing ∧
    (liveRun sampleConfig sampleRace).shared.valid "reservation-v1\x00quote\x00message" = false ∧
    ¬ FreesExpired sampleConfig sampleRace := by
  refine ⟨by decide, by decide, fun h => ?_⟩
  have hreleased : Released sampleConfig sampleRace 2 "x1" := by
    refine ⟨sampleStale, sampleLate, _, rfl, "reservation-v1\x00quote\x00message", ?_, .inr ?_, ?_⟩
    · rfl
    · decide
    · decide
  rcases h 2 "x1" hreleased with hbecame | hwaiting
  · revert hbecame
    unfold BecameExpired
    decide
  · obtain ⟨c, hc, hreleasing, -⟩ := hwaiting
    have hnone : ∀ c ∈ (liveRun sampleConfig sampleRace).calls[2]?,
        (expiryOf c).releasing ≠ some "x1" := by decide
    exact hnone c hc hreleasing

end AriOs.LiveTrading
