import AriOs.LiveTrading.Lifecycle

/-!
# What a call does to the store

One lemma for the executions and one for the ledger say everything a call can do to them;
what stays is read off these.
-/

namespace AriOs.LiveTrading

open AriOs.Async AriOs.Execution AriOs.Js AriOs.Storage Live

variable {cfg : Config} {s : LiveStore} {k : String}

/-! ### Executions -/

theorem create_cases (s : LiveStore) (x : NewExecution) (state : TradeState) (id : String)
    (now : Int) :
    ((∃ e, (s.create x state id now).1 = .error e) ∧ (s.create x state id now).2 = s) ∨
    ∃ row, (s.create x state id now).1 = .ok row ∧ row.state = state ∧
      (row.toNewExecution = x ∧ row.approvalId = none) ∧
      s.executions.insert? row = some (s.create x state id now).2.executions ∧
      (s.create x state id now).2.ledger = s.ledger ∧
      (s.create x state id now).2.revokeReservations = s.revokeReservations := by
  unfold LiveStore.create
  dsimp only
  split
  · exact .inl ⟨⟨_, rfl⟩, rfl⟩
  · split
    · rename_i executions hins
      exact .inr ⟨_, rfl, rfl, ⟨rfl, rfl⟩, hins, rfl, rfl⟩
    · exact .inl ⟨⟨_, rfl⟩, rfl⟩

theorem transition_cases (s : LiveStore) (id : String) (source : List TradeState) (patch : Patch)
    (now : Int) :
    ((∃ e, (s.transition id source patch now).1 = .error e) ∧
      (s.transition id source patch now).2 = s) ∨
    ∃ old, s.executions.find? id = some old ∧ old.state ∈ source ∧
      (s.transition id source patch now).1 = .ok (patch.apply now old) ∧
      (s.transition id source patch now).2.ledger = s.ledger ∧
      (s.transition id source patch now).2.revokeReservations = s.revokeReservations ∧
      ∀ k, (s.transition id source patch now).2.executions.find? k =
        if k = id then some (patch.apply now old) else s.executions.find? k := by
  unfold LiveStore.transition
  cases hold : s.executions.find? id with
  | none => exact .inl ⟨⟨_, rfl⟩, rfl⟩
  | some old =>
    dsimp only
    split
    · rename_i hstate
      refine .inr ⟨old, rfl, hstate, rfl, rfl, rfl, fun k => ?_⟩
      dsimp only
      rw [Table.find?_update]
      -- the rows with other ids are not updated
      by_cases hk : k = id
      · subst hk
        simp [hold, (Table.find?_eq_some_iff.mp hold).2]
      · rw [if_neg hk]
        cases hrow : s.executions.find? k with
        | none => rfl
        | some x =>
          have hid : x.id ≠ id := (Table.find?_eq_some_iff.mp hrow).2 ▸ hk
          simp [hid]
    · exact .inl ⟨⟨_, rfl⟩, rfl⟩

/-- A transition from one of the states asked for is made. -/
theorem find?_transition {id : String} {source : List TradeState} {patch : Patch} {now : Int}
    {old : Execution} (hold : s.executions.find? id = some old) (hmem : old.state ∈ source) :
    (s.transition id source patch now).2.executions.find? id = some (patch.apply now old) := by
  rcases transition_cases s id source patch now with ⟨⟨e, herr⟩, -⟩ |
    ⟨old', hold', -, -, -, -, hfind⟩
  · simp [LiveStore.transition, hold, hmem] at herr
  · obtain rfl := Option.some_inj.mp (hold.symm.trans hold')
    exact (hfind id).trans (if_pos rfl)

theorem reserve_cases (cfg : Config) (s : LiveStore) (quoteHash messageHash : String) (now : Int) :
    (s.reserve cfg quoteHash messageHash now).2.executions = s.executions ∧
    (((s.reserve cfg quoteHash messageHash now).2.ledger = s.ledger ∧
        ∀ r ∈ (s.reserve cfg quoteHash messageHash now).2.revokeReservations,
          r ∈ s.revokeReservations ∨ r = cfg.revokeId quoteHash messageHash) ∨
      (∃ e limits, (s.reserve cfg quoteHash messageHash now).2.ledger =
        (s.ledger.reserveWithin cfg.ledger e limits).2) ∧
        (s.reserve cfg quoteHash messageHash now).2.revokeReservations = s.revokeReservations) := by
  unfold LiveStore.reserve
  cases cfg.findQuoteByHash quoteHash with
  | none => exact ⟨rfl, .inl ⟨rfl, fun r hr => .inl hr⟩⟩
  | some q =>
    dsimp only
    split
    · refine ⟨rfl, .inl ⟨rfl, fun r hr => ?_⟩⟩
      rw [List.mem_insert_iff] at hr
      exact hr.symm
    · exact ⟨rfl, .inr ⟨⟨_, _, rfl⟩, rfl⟩⟩

theorem commit_cases (s : LiveStore) (id : String) (now : Int) :
    (s.commit id now).2.executions = s.executions ∧
    (∀ r ∈ (s.commit id now).2.revokeReservations, r ∈ s.revokeReservations) ∧
    ((id ∈ s.revokeReservations ∧ (s.commit id now).2.ledger = s.ledger) ∨
      (id ∉ s.revokeReservations ∧ (s.commit id now).2.ledger = (s.ledger.commit id now).2)) := by
  unfold LiveStore.commit
  split
  · rename_i hmem
    exact ⟨rfl, fun r hr => List.mem_of_mem_erase hr, .inl ⟨hmem, rfl⟩⟩
  · rename_i hmem
    exact ⟨rfl, fun r hr => hr, .inr ⟨hmem, rfl⟩⟩

theorem release_cases (s : LiveStore) (id : String) :
    (s.release id).2.executions = s.executions ∧
    (∀ r ∈ (s.release id).2.revokeReservations, r ∈ s.revokeReservations) ∧
    ((s.release id).2.ledger = s.ledger ∨
      (s.release id).2.ledger = (s.ledger.release id).2) := by
  unfold LiveStore.release
  split
  · exact ⟨rfl, fun r hr => List.mem_of_mem_erase hr, .inl rfl⟩
  · exact ⟨rfl, fun r hr => hr, .inr rfl⟩

/-- What a call does to the executions: nothing, a new one, or a patch of one that was in one
of the states asked for. -/
theorem executions_handle (cfg : Config) (o : Op) (s : LiveStore) (a : o.Ans) :
    ((machine cfg).handle o s a).2.executions = s.executions ∨
    (∃ x state row, o = .create x state ∧ (row.state = state ∧ row.approvalId = none) ∧
      s.executions.insert? row = some ((machine cfg).handle o s a).2.executions) ∨
    ∃ id source patch now old, o = .transition id source patch ∧
      s.executions.find? id = some old ∧ old.state ∈ source ∧
      ∀ k, ((machine cfg).handle o s a).2.executions.find? k =
        if k = id then some (patch.apply now old) else s.executions.find? k := by
  cases o with
  | create x state =>
    rcases create_cases s x state a.1 a.2 with ⟨-, heq⟩ | ⟨row, -, hstate, hrow, hins, -⟩
    · exact .inl (congrArg LiveStore.executions heq)
    · exact .inr (.inl ⟨x, state, row, rfl, ⟨hstate, hrow.2⟩, hins⟩)
  | transition id source patch =>
    rcases transition_cases s id source patch a with ⟨-, heq⟩ | ⟨old, hold, hstate, -, -, -, hfind⟩
    · exact .inl (congrArg LiveStore.executions heq)
    · exact .inr (.inr ⟨id, source, patch, a, old, rfl, hold, hstate, hfind⟩)
  -- the other calls look at executions only
  | reserve quoteHash messageHash =>
    exact .inl (reserve_cases cfg s quoteHash messageHash a).1
  | commit id => exact .inl (commit_cases s id a).1
  | release id => exact .inl (release_cases s id).1
  | assessRisk q =>
    left
    obtain ⟨_ | now, verdict⟩ := a <;> rfl
  | _ => exact .inl rfl

/-- An execution stays, with everything that no patch changes. -/
theorem execution_handle {β : Type} {f : Execution → β}
    (hf : ∀ (patch : Patch) now x, f (patch.apply now x) = f x) {o : Op} (a : o.Ans)
    {x : Execution} (h : s.executions.find? k = some x) :
    ∃ y, ((machine cfg).handle o s a).2.executions.find? k = some y ∧ f y = f x := by
  rcases executions_handle cfg o s a with heq | ⟨_, _, row, -, -, hins⟩ |
    ⟨id, source, patch, now, old, -, hold, -, hfind⟩
  · exact ⟨x, heq ▸ h, rfl⟩
  · exact ⟨x, Table.find?_insert?_of_some hins h, rfl⟩
  · rw [hfind]
    split
    · rename_i hk
      subst hk
      obtain rfl := Option.some_inj.mp (hold.symm.trans h)
      exact ⟨_, rfl, hf patch now old⟩
    · exact ⟨x, h, rfl⟩

/-- An execution stays, and keeps its reservation. -/
theorem reservationId_handle {o : Op} (a : o.Ans) {x : Execution}
    (h : s.executions.find? k = some x) :
    ∃ y, ((machine cfg).handle o s a).2.executions.find? k = some y ∧
      y.reservationId = x.reservationId :=
  execution_handle (fun _ _ _ => rfl) a h

/-- An execution stays, and is of the quote it was created for. -/
theorem quoteId_handle {o : Op} (a : o.Ans) {x : Execution} (h : s.executions.find? k = some x) :
    ∃ y, ((machine cfg).handle o s a).2.executions.find? k = some y ∧ y.quoteId = x.quoteId :=
  execution_handle (fun _ _ _ => rfl) a h

/-! ### The ledger -/

/-- What a call does to the ledger. -/
theorem ledger_handle (cfg : Config) (o : Op) (s : LiveStore) (a : o.Ans) :
    ((machine cfg).handle o s a).2.ledger = s.ledger ∨
    (∃ e limits, ((machine cfg).handle o s a).2.ledger =
      (s.ledger.reserveWithin cfg.ledger e limits).2) ∨
    (∃ now, ((machine cfg).handle o s a).2.ledger = s.ledger.expire now) ∨
    (∃ id now, o = .commit id ∧ id ∉ s.revokeReservations ∧
      ((machine cfg).handle o s a).2.ledger = (s.ledger.commit id now).2) ∨
    ∃ id, ((machine cfg).handle o s a).2.ledger = (s.ledger.release id).2 := by
  cases o with
  | create x state =>
    left
    rcases create_cases s x state a.1 a.2 with ⟨-, heq⟩ | ⟨row, -, -, -, -, hledger, -⟩
    · exact congrArg LiveStore.ledger heq
    · exact hledger
  | transition id source patch =>
    left
    rcases transition_cases s id source patch a with ⟨-, heq⟩ | ⟨old, -, -, -, hledger, -, -⟩
    · exact congrArg LiveStore.ledger heq
    · exact hledger
  | reserve quoteHash messageHash =>
    rcases (reserve_cases cfg s quoteHash messageHash a).2 with ⟨heq, -⟩ | ⟨⟨e, limits, heq⟩, -⟩
    · exact .inl heq
    · exact .inr (.inl ⟨e, limits, heq⟩)
  | commit id =>
    rcases (commit_cases s id a).2.2 with ⟨-, heq⟩ | ⟨hmem, heq⟩
    · exact .inl heq
    · exact .inr (.inr (.inr (.inl ⟨id, a, rfl, hmem, heq⟩)))
  | release id =>
    rcases (release_cases s id).2.2 with heq | heq
    · exact .inl heq
    · exact .inr (.inr (.inr (.inr ⟨id, heq⟩)))
  -- the assessment reads the usage, which lets entries expire
  | assessRisk q =>
    obtain ⟨_ | now, verdict⟩ := a
    · exact .inl rfl
    · exact .inr (.inr (.inl ⟨now, rfl⟩))
  | _ => exact .inl rfl

/-- A committed row stays, whatever is called. -/
theorem committed_handle {o : Op} (a : o.Ans) (h : s.ledger.Committed k) :
    ((machine cfg).handle o s a).2.ledger.Committed k := by
  rcases ledger_handle cfg o s a with heq | ⟨e, limits, heq⟩ | ⟨now, heq⟩ | ⟨id, now, -, -, heq⟩ |
    ⟨id, heq⟩
  · rw [heq]; exact h
  · rw [heq]; exact h.reserveWithin cfg.ledger e limits
  · rw [heq]; exact h.expire
  · rw [heq]; exact h.commit
  · rw [heq]; exact h.release

/-- Only `commit` commits. -/
theorem committed_of_handle {o : Op} {a : o.Ans}
    (h : ((machine cfg).handle o s a).2.ledger.Committed k) :
    s.ledger.Committed k ∨ o = .commit k := by
  rcases ledger_handle cfg o s a with heq | ⟨e, limits, heq⟩ | ⟨now, heq⟩ |
    ⟨id, now, rfl, -, heq⟩ | ⟨id, heq⟩
  · rw [heq] at h; exact .inl h
  · rw [heq] at h; exact .inl h.of_reserveWithin
  · rw [heq] at h; exact .inl h.of_expire
  · rw [heq] at h
    rcases h.of_commit with rfl | h
    · exact .inr rfl
    · exact .inl h
  · rw [heq] at h; exact .inl h.of_release

/-- The set in memory holds reservations of revokes only. -/
def RevokesOnly (cfg : Config) (s : LiveStore) : Prop :=
  ∀ r ∈ s.revokeReservations, ¬ cfg.IsSpend r

theorem not_isSpend_revokeId (quoteHash messageHash : String) :
    ¬ cfg.IsSpend (cfg.revokeId quoteHash messageHash) := by
  rintro ⟨_, -, _, -, heq⟩
  exact cfg.separates _ _ heq.symm

theorem RevokesOnly.handle (h : RevokesOnly cfg s) (o : Op) (a : o.Ans) :
    RevokesOnly cfg ((machine cfg).handle o s a).2 := by
  cases o with
  | create x state =>
    rcases create_cases s x state a.1 a.2 with ⟨-, heq⟩ | ⟨row, -, -, -, -, -, heq⟩
    · exact fun r hr => h r (heq ▸ hr)
    · exact fun r hr => h r (heq ▸ hr)
  | transition id source patch =>
    rcases transition_cases s id source patch a with ⟨-, heq⟩ | ⟨old, -, -, -, -, heq, -⟩
    · exact fun r hr => h r (heq ▸ hr)
    · exact fun r hr => h r (heq ▸ hr)
  | reserve quoteHash messageHash =>
    intro r hr
    rcases (reserve_cases cfg s quoteHash messageHash a).2 with ⟨-, hmem⟩ | ⟨-, heq⟩
    · -- the only id that is added is one of a revoke
      rcases hmem r hr with hr | rfl
      · exact h r hr
      · exact not_isSpend_revokeId _ _
    · exact h r (heq ▸ hr)
  | commit id => exact fun r hr => h r ((commit_cases s id a).2.1 r hr)
  | release id => exact fun r hr => h r ((release_cases s id).2.1 r hr)
  | assessRisk q => obtain ⟨_ | now, verdict⟩ := a <;> exact h
  | _ => exact h

/-- Committing a spend that is there commits its row. -/
theorem committed_commit (hrevokes : RevokesOnly cfg s) {id : String} (hspend : cfg.IsSpend id)
    (hhas : s.ledger.has id = true) (now : Int) :
    ((machine cfg).handle (.commit id) s now).2.ledger.Committed id := by
  rcases (commit_cases s id now).2.2 with ⟨hmem, -⟩ | ⟨-, heq⟩
  · exact absurd hspend (hrevokes id hmem)
  · exact (congrArg (Ledger.Committed · id) heq).mpr (Ledger.committed_commit hhas)

end AriOs.LiveTrading
