import AriOs.Kernel.Parties

/-!
# One-way lifecycles

A spend is meant to go from `reserved` to `consumed` or to `released` and to stay there, and a
trade is meant to stay in a final state. Releasing looks at the state of the row, the other
statements do not: nothing but the verdicts of the parties keeps one of them from consuming what
another one has released, or from settling a trade that another one has settled differently.
-/

namespace AriOs.Kernel

open AriOs.Async AriOs.Storage AriOs.Kernel.Gateway

/-! ### What a run is asked for -/

/-- From `s` to `s'` no row goes back: a spend only leaves `reserved`, a trade no final state. -/
structure OneWay (s s' : KernelStore) : Prop where
  spends : ∀ id r, s.spends.find? id = some r →
    ∃ r', s'.spends.find? id = some r' ∧ (r'.state = r.state ∨ r.state = .reserved)
  trades : ∀ id t, s.trades.find? id = some t →
    ∃ t', s'.trades.find? id = some t' ∧ (t.state.Final → t'.state = t.state)

theorem OneWay.refl (s : KernelStore) : OneWay s s where
  spends _ r hr := ⟨r, hr, .inl rfl⟩
  trades _ t ht := ⟨t, ht, fun _ => rfl⟩

theorem OneWay.trans {s s' s'' : KernelStore} (h : OneWay s s') (h' : OneWay s' s'') :
    OneWay s s'' where
  spends id r hr := by
    obtain ⟨r', hr', hstate⟩ := h.spends id r hr
    obtain ⟨r'', hr'', hstate'⟩ := h'.spends id r' hr'
    refine ⟨r'', hr'', ?_⟩
    rcases hstate with heq | hreserved
    · exact heq ▸ hstate'
    · exact .inr hreserved
  trades id t ht := by
    obtain ⟨t', ht', hstate⟩ := h.trades id t ht
    obtain ⟨t'', ht'', hstate'⟩ := h'.trades id t' ht'
    refine ⟨t'', ht'', fun hfinal => ?_⟩
    have heq := hstate hfinal
    exact (hstate' (heq ▸ hfinal)).trans heq

/-- The event releases the reservation, which is there to be released. -/
def Releases (u : Nat) (rid : String) (p : KernelPool) (e : Event interface Party) : Prop :=
  (∃ ans, e = .step u ans) ∧ (∃ o, p.next? u = some o ∧ o = .releaseReservation rid) ∧
    ∃ r, p.shared.spends.find? rid = some r ∧ r.state = .reserved

/-- The event settles the trade, which is there, in this state. -/
def Settles (u : Nat) (id : String) (state : TradeState) (p : KernelPool)
    (e : Event interface Party) : Prop :=
  (∃ ans, e = .step u ans) ∧ (∃ o, p.next? u = some o ∧ settlement? o = some (id, state)) ∧
    (p.shared.trades.find? id).isSome

/-- At some event of the run. -/
abbrev InRun (d : Deps) (P : KernelPool → Event interface Party → Prop)
    (es : List (Event interface Party)) : Prop :=
  Pool.Happened machine (fun x : Party => (x.body d).run) P (Pool.start .empty) es

/-! ### What the parties were told -/

/-- A party acts on what it was told about a trade. -/
structure Conclusion where
  party : Nat
  tradeId : String
  state : TradeState
  deriving DecidableEq, Repr

/-- What a party says with its next statement, by the answers it has: of the trades it knows to
hold the reservation, or of the trade whose state it writes. A state that is not final, as `sent`,
says no more than itself. -/
def conclusions (h : List (Entry interface)) : Op → List (String × TradeState)
  | .releaseReservation rid | .consumeReservation rid =>
    (h.flatMap (holders rid)).map fun id => (id, verdict h)
  | .setState id state _ | .fail id state _ _ => [(id, if state.Final then verdict h else state)]
  | _ => []

/-- What the event is about to say. -/
def concluding (p : KernelPool) : Event interface Party → List Conclusion
  | .step t _ => match p.next? t, p.calls[t]? with
    | some o, some c => (conclusions c.history o).map fun x => ⟨t, x.1, x.2⟩
    | _, _ => []
  | _ => []

def concludedFrom (d : Deps) (p : KernelPool) : List (Event interface Party) → List Conclusion
  | [] => []
  | e :: es => concluding p e ++ concludedFrom d (p.apply machine (fun x => (x.body d).run) e) es

/-- Everything the parties of a run acted on, in this order. -/
def concluded (d : Deps) (es : List (Event interface Party)) : List Conclusion :=
  concludedFrom d (Pool.start .empty) es

/-- Whoever comes later was told the same about the trade. -/
def Conclusion.Agrees (a b : Conclusion) : Prop :=
  a.party ≠ b.party → a.tradeId = b.tradeId → a.state.Final → a.state = b.state

instance (a b : Conclusion) : Decidable (a.Agrees b) := by
  unfold Conclusion.Agrees; infer_instance

/-- No two parties of the run act on different verdicts about one trade. -/
def Agreed (d : Deps) (es : List (Event interface Party)) : Prop :=
  (concluded d es).Pairwise Conclusion.Agrees

instance (d : Deps) (es : List (Event interface Party)) : Decidable (Agreed d es) := by
  unfold Agreed; infer_instance

/-! ### One statement -/

/-- The trade and the state a statement writes. -/
def stateWrite? : Op → Option (String × TradeState)
  | .setState id state _ | .fail id state _ _ => some (id, state)
  | _ => none

section Statement

variable {s : KernelStore}

/-- A statement that neither consumes a released row nor writes over a final state. -/
theorem OneWay.handle {o : Op} (a : o.Ans)
    (hconsume : ∀ rid, o = .consumeReservation rid → ∀ r, s.spends.find? rid = some r →
      r.state ≠ .released)
    (hwrite : ∀ id state, stateWrite? o = some (id, state) → ∀ t, s.trades.find? id = some t →
      t.state.Final → state = t.state) :
    OneWay s (machine.handle o s a).2 where
  spends id r hr := by
    rcases spends_handle o s a with heq | ⟨args, rid, hins⟩ | ⟨rid, -, heq⟩ | ⟨rid, rfl, heq⟩
    · exact ⟨r, heq ▸ hr, .inl rfl⟩
    · exact ⟨r, Table.find?_insert?_of_some hins hr, .inl rfl⟩
    · rw [heq, hr, Option.map_some]
      refine ⟨_, rfl, ?_⟩
      -- releasing asks for a row that is reserved
      split
      · rename_i hsel
        exact .inr hsel.2
      · exact .inl rfl
    · rw [heq, hr, Option.map_some]
      refine ⟨_, rfl, ?_⟩
      split
      · rename_i hid
        subst hid
        cases hstate : r.state with
        | reserved => exact .inr rfl
        | consumed => exact .inl rfl
        | released => exact absurd hstate (hconsume _ rfl r hr)
      · exact .inl rfl
  trades id t ht := by
    rcases trades_handle o s a with heq | ⟨row, reservationId, -, hins⟩ | ⟨id', f, heq, -, hstate⟩
    · exact ⟨t, heq ▸ ht, fun _ => rfl⟩
    · exact ⟨t, Table.find?_insert?_of_some hins ht, fun _ => rfl⟩
    · rw [heq, ht, Option.map_some]
      refine ⟨_, rfl, fun hfinal => ?_⟩
      split
      · rename_i hid
        subst hid
        rcases hstate with hsame | ⟨state, error, at_, ho, hnew⟩
        · exact hsame t
        · exact (hnew t).trans (hwrite id state (by rcases ho with rfl | rfl <;> rfl) t ht hfinal)
      · rfl

end Statement

/-! ### Where a row's state comes from -/

section Provenance

variable {d : Deps} {es : List (Event interface Party)}

theorem kernelRun_append_singleton (d : Deps) (es : List (Event interface Party))
    (e : Event interface Party) : kernelRun d (es ++ [e]) =
      (kernelRun d es).apply machine (fun x => (x.body d).run) e :=
  Pool.run_append _ _ _

theorem shared_append_step {t : Nat} {o : Op} (hnext : (kernelRun d es).next? t = some o)
    (ans : ∀ o, interface.Ans o) : (kernelRun d (es ++ [.step t ans])).shared =
      (machine.handle o (kernelRun d es).shared (ans o)).2 := by
  rw [kernelRun_append_singleton, Pool.apply, Pool.step_shared hnext]

/-- An event makes a call, or leaves the store as it is. -/
theorem shared_append (d : Deps) (es : List (Event interface Party)) (e : Event interface Party) :
    (kernelRun d (es ++ [e])).shared = (kernelRun d es).shared ∨
      ∃ t ans o, e = .step t ans ∧ (kernelRun d es).next? t = some o := by
  rw [kernelRun_append_singleton]
  cases e with
  | spawn x => exact .inl rfl
  | kill t => exact .inl rfl
  | step t ans =>
    cases hnext : (kernelRun d es).next? t with
    | none => exact .inl (by rw [Pool.apply, Pool.step_eq_self hnext])
    | some o => exact .inr ⟨t, ans, o, rfl, hnext⟩

/-- A released row was released by somebody. -/
theorem exists_releases {rid : String} {r : SpendRow}
    (hr : (kernelRun d es).shared.spends.find? rid = some r) (hstate : r.state = .released) :
    ∃ u, InRun d (Releases u rid) es := by
  -- by induction on the run: only a release writes this state
  induction es using List.reverseRecOn generalizing r with
  | nil => simp [kernelRun, Pool.start, KernelStore.empty] at hr
  | append_singleton es e ih =>
    have hbefore : ∀ r', (kernelRun d es).shared.spends.find? rid = some r' →
        r'.state = .released → ∃ u, InRun d (Releases u rid) (es ++ [e]) := fun r' hr' hstate' =>
      (ih hr' hstate').imp fun u h => Pool.happened_append_singleton.mpr (.inl h)
    rcases shared_append d es e with heq | ⟨t, ans, o, rfl, hnext⟩
    · exact hbefore r (heq ▸ hr) hstate
    rw [shared_append_step hnext] at hr
    rcases spends_handle o (kernelRun d es).shared (ans o) with heq | ⟨args, rid', hins⟩ |
      ⟨rid', rfl, heq⟩ | ⟨rid', rfl, heq⟩
    · exact hbefore r (heq ▸ hr) hstate
    · rw [Table.find?_insert? hins] at hr
      split at hr
      · obtain rfl := Option.some_inj.mp hr
        simp at hstate
      · exact hbefore r hr hstate
    · rw [heq] at hr
      obtain ⟨r', hr', rfl⟩ := Option.map_eq_some_iff.mp hr
      split at hstate
      · rename_i hsel
        exact ⟨t, Pool.happened_append_singleton.mpr
          (.inr ⟨⟨ans, rfl⟩, ⟨_, hnext, hsel.1 ▸ rfl⟩, r', hr', hsel.2⟩)⟩
      · exact hbefore r' hr' hstate
    · rw [heq] at hr
      obtain ⟨r', hr', rfl⟩ := Option.map_eq_some_iff.mp hr
      split at hstate
      · simp at hstate
      · exact hbefore r' hr' hstate

/-- A trade in a final state was settled in it by somebody. -/
theorem exists_settles {id : String} {t : TradeRow}
    (ht : (kernelRun d es).shared.trades.find? id = some t) (hfinal : t.state.Final) :
    ∃ u, InRun d (Settles u id t.state) es := by
  induction es using List.reverseRecOn generalizing t with
  | nil => simp [kernelRun, Pool.start, KernelStore.empty] at ht
  | append_singleton es e ih =>
    -- a row that had its state before was settled before
    have hbefore : ∀ t', (kernelRun d es).shared.trades.find? id = some t' →
        t'.state = t.state → ∃ u, InRun d (Settles u id t.state) (es ++ [e]) := by
      intro t' ht' hsame
      rw [← hsame] at hfinal ⊢
      exact (ih ht' hfinal).imp fun u h => Pool.happened_append_singleton.mpr (.inl h)
    rcases shared_append d es e with heq | ⟨u, ans, o, rfl, hnext⟩
    · exact hbefore t (heq ▸ ht) rfl
    rw [shared_append_step hnext] at ht
    rcases trades_handle o (kernelRun d es).shared (ans o) with heq | ⟨row, reservationId, -, hins⟩ |
      ⟨id', f, heq, -, hstate⟩
    · exact hbefore t (heq ▸ ht) rfl
    · rw [Table.find?_insert? hins] at ht
      split at ht
      · obtain rfl := Option.some_inj.mp ht
        -- a new row is not final
        simp [KernelStore.newTrade, TradeState.Final, TradeState.Terminal] at hfinal
      · exact hbefore t ht rfl
    · rw [heq] at ht
      obtain ⟨t', ht', rfl⟩ := Option.map_eq_some_iff.mp ht
      by_cases hid : id = id'
      · subst hid
        rw [if_pos rfl] at hfinal hbefore ⊢
        rcases hstate with hsame | ⟨state, error, at_, ho, hnew⟩
        · exact hbefore t' ht' (hsame t').symm
        · rw [hnew t'] at hfinal ⊢
          refine ⟨u, Pool.happened_append_singleton.mpr (.inr ⟨⟨ans, rfl⟩, ⟨o, hnext, ?_⟩, ?_⟩)⟩
          · rcases ho with rfl | rfl <;> exact if_pos hfinal
          · exact Option.isSome_iff_exists.mpr ⟨t', ht'⟩
      · rw [if_neg hid] at hbefore ⊢
        exact hbefore t' ht' rfl

end Provenance

/-! ### Runs -/

section Runs

variable {d : Deps} {es : List (Event interface Party)} {e : Event interface Party}

theorem concludedFrom_append (d : Deps) (p : KernelPool) (es es' : List (Event interface Party)) :
    concludedFrom d p (es ++ es') = concludedFrom d p es ++
      concludedFrom d (p.run machine (fun x => (x.body d).run) es) es' := by
  induction es generalizing p with
  | nil => rfl
  | cons e es ih => simp [concludedFrom, ih]

theorem concluded_append (d : Deps) (es es' : List (Event interface Party)) :
    concluded d (es ++ es') = concluded d es ++ concludedFrom d (kernelRun d es) es' :=
  concludedFrom_append d _ es es'

/-- Before its next call a party keeps its promise, and what it holds is there. -/
theorem promises_next {t : Nat} {o : Op} (hnext : (kernelRun d es).next? t = some o) :
    ∃ c, (kernelRun d es).calls[t]? = some c ∧ Promises ⟨c.request, c.history⟩ o ∧
      Backed (kernelRun d es).shared ⟨c.request, c.history⟩ := by
  obtain ⟨c, k, hc, hrest⟩ := Pool.exists_of_next? hnext
  have hsafe := (parties_coherent d es).safe t c hc _ hrest
  have hbacked := (parties_coherent d es).known t c hc
  rw [Call.view_of_push rfl] at hsafe hbacked
  exact ⟨c, hc, hsafe.1, hbacked⟩

theorem concluding_step {p : KernelPool} {t : Nat} {o : Op}
    {c : Call interface Party (Except KernelError Outcome)} (hnext : p.next? t = some o)
    (hc : p.calls[t]? = some c) (ans : ∀ o, interface.Ans o) :
    concluding p (.step t ans) = (conclusions c.history o).map fun x => ⟨t, x.1, x.2⟩ := by
  simp only [concluding, hnext, hc]

/-- A reservation stays with its trade over a run. -/
theorem ReservedFor.run {rid id : String} (h : ReservedFor (kernelRun d es).shared rid id)
    (es' : List (Event interface Party)) :
    ReservedFor (kernelRun d (es ++ es')).shared rid id := by
  induction es' using List.reverseRecOn with
  | nil => rwa [List.append_nil]
  | append_singleton es' e ih =>
    rw [← List.append_assoc]
    rcases shared_append d (es ++ es') e with heq | ⟨t, ans, o, rfl, hnext⟩
    · rwa [heq]
    · rw [shared_append_step hnext]
      exact ih.handle o _

theorem ReservedFor.unique {s : KernelStore} {rid id id' : String} (h : ReservedFor s rid id)
    (h' : ReservedFor s rid id') : id = id' := by
  obtain ⟨r, hr, rfl⟩ := h
  obtain ⟨r', hr', rfl⟩ := h'
  rw [Option.some_inj.mp (hr.symm.trans hr')]

/-- Who wrote a state had concluded it. -/
theorem Promises.conclusions_write {v : Trace interface Party} {o : Op} {id : String}
    {state : TradeState} (h : Promises v o) (ho : stateWrite? o = some (id, state)) :
    conclusions v.history o = [(id, state)] := by
  cases o with
  | setState id' state' at_ | fail id' state' error at_ =>
    obtain ⟨rfl, rfl⟩ := Prod.mk.inj (Option.some_inj.mp ho)
    rw [conclusions]
    split
    · rename_i hfinal
      rw [h.2 hfinal]
    · rfl
  | _ => simp [stateWrite?] at ho

/-- Who released a reservation was told that its trade is lost. -/
theorem concluded_of_releases {u : Nat} {rid : String} (h : InRun d (Releases u rid) es) :
    ∃ id x, ⟨u, id, x⟩ ∈ concluded d es ∧ x.Final ∧ x ≠ .confirmed ∧
      ReservedFor (kernelRun d es).shared rid id := by
  obtain ⟨before, _, after, rfl, ⟨ans, rfl⟩, ⟨_, hnext, rfl⟩, -⟩ := h
  have hnext : (kernelRun d before).next? u = some (.releaseReservation rid) := hnext
  obtain ⟨c, hc, ⟨hlost, id, entry, hentry, hid⟩, hbacked⟩ := promises_next hnext
  refine ⟨id, verdict c.history, ?_, verdict_final _, hlost,
    (hbacked rid id ⟨entry, hentry, hid⟩).run _⟩
  rw [concluded_append, concludedFrom, concluding_step hnext hc]
  refine List.mem_append_right _ (List.mem_append_left _ (List.mem_map.mpr ⟨(id, _), ?_, rfl⟩))
  exact List.mem_map.mpr ⟨id, List.mem_flatMap.mpr ⟨entry, hentry, hid⟩, rfl⟩

/-- Who settled a trade was told so. -/
theorem concluded_of_settles {u : Nat} {id : String} {state : TradeState}
    (h : InRun d (Settles u id state) es) : ⟨u, id, state⟩ ∈ concluded d es := by
  obtain ⟨before, _, after, rfl, ⟨ans, rfl⟩, ⟨o, hnext, ho⟩, -⟩ := h
  have hnext : (kernelRun d before).next? u = some o := hnext
  obtain ⟨c, hc, hpre, -⟩ := promises_next hnext
  have hwrite : stateWrite? o = some (id, state) := by
    cases o with
    | setState _ _ _ | fail _ _ _ _ => exact (Option.ite_none_right_eq_some.mp ho).2
    | _ => simp [settlement?] at ho
  rw [concluded_append, concludedFrom, concluding_step hnext hc, hpre.conclusions_write hwrite]
  exact List.mem_append_right _ (List.mem_append_left _ (List.mem_singleton.mpr rfl))

/-- Where the verdicts agree an event takes no row back: what the others acted on is what the
party was told, and it has not contradicted itself. -/
theorem oneWay_append (h : Agreed d (es ++ [e])) :
    OneWay (kernelRun d es).shared (kernelRun d (es ++ [e])).shared := by
  rcases shared_append d es e with heq | ⟨t, ans, o, rfl, hnext⟩
  · rw [heq]
    exact .refl _
  rw [shared_append_step hnext]
  obtain ⟨c, hc, hpre, hbacked⟩ := promises_next hnext
  -- what the others concluded about a trade before is what this party concludes now
  have hagree : ∀ a ∈ concluded d es, ∀ x ∈ conclusions c.history o, a.party ≠ t →
      a.tradeId = x.1 → a.state.Final → a.state = x.2 := by
    intro a ha x hx hparty htrade hfinal
    rw [Agreed, concluded_append, concludedFrom, concluding_step hnext hc] at h
    exact (List.pairwise_append.mp h).2.2 a ha ⟨t, x.1, x.2⟩
      (List.mem_append_left _ (List.mem_map.mpr ⟨x, hx, rfl⟩)) hparty htrade hfinal
  -- what a party did itself it remembers
  have hown : ∀ {S : Op → Prop} {P : KernelPool → Event interface Party → Prop}, InRun d P es →
      (∀ p e, P p e → (∃ ans, e = .step t ans) ∧ ∃ o, p.next? t = some o ∧ S o) →
      ∃ e ∈ c.history, S e.op := by
    intro S P hP himp
    obtain ⟨c', hc', hmem⟩ := (hP.imp himp).exists_mem_history
    rwa [Option.some_inj.mp (hc.symm.trans hc')]
  refine OneWay.handle _ (fun rid ho r hr hstate => ?_) fun id state ho row hrow hfinal => ?_
  · -- what is consumed was released by another party, which was told that its trade is lost
    subst ho
    obtain ⟨hkept, htold, id, entry, hentry, hid⟩ := hpre
    obtain ⟨u, hu⟩ := exists_releases hr hstate
    obtain ⟨id', x, hmem, hfinal, hlost, hfor⟩ := concluded_of_releases hu
    obtain rfl : id' = id := hfor.unique (hbacked rid id ⟨entry, hentry, hid⟩)
    by_cases hut : u = t
    · subst hut
      obtain ⟨e, he, hop⟩ := hown (S := fun o => o = .releaseReservation rid) hu
        fun _ _ h => ⟨h.1, h.2.1⟩
      exact hkept ⟨e, he, hop⟩
    · refine hlost ((hagree _ hmem (id', verdict c.history) ?_ hut rfl hfinal).trans htold)
      exact List.mem_map.mpr ⟨id', List.mem_flatMap.mpr ⟨entry, hentry, hid⟩, rfl⟩
  · -- what is written over was written by another party, which was told the same
    obtain ⟨u, hu⟩ := exists_settles hrow hfinal
    by_cases hut : u = t
    · subst hut
      obtain ⟨e, he, hop⟩ := hown (S := fun o => settlement? o = some (id, row.state)) hu
        fun _ _ h => ⟨h.1, h.2.1⟩
      have hsettled : HasSettled c.history id := ⟨e, he, _, hop, rfl⟩
      exfalso
      cases o with
      | setState id' state' at_ | fail id' state' error at_ =>
        exact hpre.1 ((Prod.mk.inj (Option.some_inj.mp ho)).1 ▸ hsettled)
      | _ => simp [stateWrite?] at ho
    · refine (hagree _ (concluded_of_settles hu) (id, state) ?_ hut rfl hfinal).symm
      rw [hpre.conclusions_write ho]
      exact List.mem_singleton.mpr rfl

end Runs

/-- **One-way lifecycles.** In a run of any number of gateways and reconcilers no two of which act
on different verdicts about one trade, from every state to every later one no spend leaves
`consumed` or `released` and no trade a final state. -/
theorem one_way_of_agreed (d : Deps) (es : List (Event interface Party)) (h : Agreed d es)
    (before mid after : List (Event interface Party)) (hcut : es = before ++ mid ++ after) :
    OneWay (kernelRun d before).shared (kernelRun d (before ++ mid)).shared := by
  have hprefix : Agreed d (before ++ mid) := by
    rw [hcut, Agreed, concluded_append] at h
    exact (List.pairwise_append.mp h).1
  clear hcut h
  induction mid using List.reverseRecOn with
  | nil => simpa using OneWay.refl _
  | append_singleton mid e ih =>
    rw [← List.append_assoc] at hprefix ⊢
    refine (ih ?_).trans (oneWay_append hprefix)
    rw [Agreed, concluded_append] at hprefix
    exact (List.pairwise_append.mp hprefix).1

/-! ### A trade that is reconciled while it is being confirmed -/

/-- The reconciler has put the sent trade on its list when the gateway's own confirmation
throws. -/
def sampleListed : List (Event interface Party) :=
  .spawn (.gateway (sampleRequest "k")) ::
    List.replicate 23 (.step 0 (sampleAnswers "a" 0 (.ok .confirmed))) ++
    [.spawn .reconciler, .step 1 (sampleAnswers "a" 0 (.ok .confirmed))]

/-- Both are told that the trade has landed, and act on it in turns. -/
def sampleBoth : List (Event interface Party) :=
  sampleListed ++ List.replicate 7 (.step 0 (sampleAnswers "a" 0 (.ok .confirmed))) ++
    List.replicate 4 (.step 1 (sampleAnswers "a" 0 (.ok .confirmed)))

/-- Two parties conclude one trade that was open when the second one listed it. -/
theorem one_way_of_agreed_both :
    OneWay (kernelRun sampleDeps sampleListed).shared (kernelRun sampleDeps sampleBoth).shared ∧
      concluded sampleDeps sampleBoth = [⟨0, "trd_a", .sent⟩, ⟨0, "trd_a", .confirmed⟩,
        ⟨0, "trd_a", .confirmed⟩, ⟨1, "trd_a", .confirmed⟩, ⟨1, "trd_a", .confirmed⟩] :=
  ⟨one_way_of_agreed sampleDeps sampleBoth (by decide +kernel) sampleListed _ []
    (by simp [sampleBoth]), by decide +kernel⟩

/-- The gateway gives the trade up. -/
def sampleGivenUp : List (Event interface Party) :=
  sampleListed ++ List.replicate 4 (.step 0 (sampleAnswers "a" 0 (.error (.other "timeout"))))

/-- The reconciler is told that it landed. -/
def sampleReconciled : List (Event interface Party) :=
  List.replicate 4 (.step 1 (sampleAnswers "a" 0 (.ok .confirmed)))

/-- A released spend is consumed, and an errored trade is confirmed. -/
theorem reconciled_while_confirming :
    ¬ OneWay (kernelRun sampleDeps sampleGivenUp).shared
      (kernelRun sampleDeps (sampleGivenUp ++ sampleReconciled)).shared := by
  intro h
  obtain ⟨r, hr, hstate⟩ : ∃ r, (kernelRun sampleDeps sampleGivenUp).shared.spends.find? "rsv_a" =
      some r ∧ r.state = .released := by
    refine ⟨_, Option.some_get (by decide +kernel) |>.symm, by decide +kernel⟩
  obtain ⟨r', hr', hsame⟩ := h.spends "rsv_a" r hr
  have hconsumed : ((kernelRun sampleDeps (sampleGivenUp ++ sampleReconciled)).shared.spends.find?
      "rsv_a").map SpendRow.state = some .consumed := by decide +kernel
  rw [hr'] at hconsumed
  have hconsumed := Option.some_inj.mp hconsumed
  simp [hstate, hconsumed] at hsame

end AriOs.Kernel
