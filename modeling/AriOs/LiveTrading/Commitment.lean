import AriOs.LiveTrading.Effects

/-!
# Landed trades and their reservations

A reservation is committed when a broadcast is acknowledged, and nowhere else: `reconcile`
learns that a trade landed and leaves the ledger alone. What landed is therefore committed as
long as the cluster only reports trades whose broadcast had been acknowledged before, and the
acknowledgement came before the reservation expired.
-/

namespace AriOs.LiveTrading

open AriOs.Async AriOs.Execution AriOs.Js AriOs.Storage Live

/-! ### What has to come before -/

/-- The states of a trade that landed. -/
def TradeState.Landed (s : TradeState) : Prop := s = .confirmed ∨ s = .finalized

instance (s : TradeState) : Decidable s.Landed := by
  unfold TradeState.Landed; infer_instance

/-- The ledger was asked to commit the reservation. -/
def isCommit (rid : String) : Entry interface → Bool
  | ⟨.commit rid', _⟩ => rid' = rid
  | _ => false

/-- One of the operations asked the ledger to commit the reservation. -/
def AskedToCommit (p : LivePool) (rid : String) : Prop :=
  ∃ c ∈ p.calls, ∃ e ∈ c.history, isCommit rid e = true

/-- The cluster reports the signature of an execution without an error. -/
def reportsLanded : Except String (Option SignatureStatus) → Bool
  | .ok (some st) => !st.err
  | _ => false

/-- The cluster reports an execution as landed only after the ledger was asked to commit its
reservation, and the ledger is asked only while it has the row. -/
def LandsCommitted (cfg : Config) (p : LivePool) : Event interface Request → Prop
  | .step t ans =>
    match p.next? t with
    | some (.status x) => reportsLanded (statusOf ans x) = true →
        ∀ rid ∈ x.reservationId, cfg.IsSpend rid → AskedToCommit p rid
    | some (.commit rid) => cfg.IsSpend rid → p.shared.ledger.has rid = true
    | _ => True
  | _ => True

instance (p : LivePool) (rid : String) : Decidable (AskedToCommit p rid) := by
  unfold AskedToCommit; infer_instance

instance (cfg : Config) (p : LivePool) : ∀ e, Decidable (LandsCommitted cfg p e)
  | .step t _ => by
    dsimp only [LandsCommitted]
    generalize p.next? t = next
    change Option Op at next
    rcases next with _ | o
    · exact isTrue trivial
    · rcases o with ⟨⟩ <;> infer_instance
  | .spawn _ | .kill _ => isTrue trivial

/-! ### The invariant -/

/-- The spend of an execution is committed. -/
def SpendCommitted (cfg : Config) (s : LiveStore) (x : Execution) : Prop :=
  ∀ rid, x.reservationId = some rid → cfg.IsSpend rid → s.ledger.Committed rid

/-- The set in memory holds revokes only, and what landed is committed. -/
structure LandedCommitted (cfg : Config) (s : LiveStore) : Prop where
  revokes : RevokesOnly cfg s
  landed : ∀ id x, s.executions.find? id = some x → x.state.Landed → SpendCommitted cfg s x

/-- What an operation has seen is borne out by the store: what it asked to commit is
committed, what it was told has landed is committed, and what it read is still there. -/
structure Accounted (cfg : Config) (s : LiveStore) (v : Trace interface Request) : Prop where
  asked : ∀ rid, cfg.IsSpend rid → (∃ e ∈ v.history, isCommit rid e = true) →
    s.ledger.Committed rid
  told : ∀ x st, Answered v.history x (some st) → st.err = false → SpendCommitted cfg s x
  looked : ∀ id x, Looked v.history id x →
    ∃ y, s.executions.find? id = some y ∧ y.reservationId = x.reservationId

section Invariant

variable {cfg : Config} {s : LiveStore}

theorem SpendCommitted.handle {x : Execution} (h : SpendCommitted cfg s x) (o : Op) (a : o.Ans) :
    SpendCommitted cfg ((machine cfg).handle o s a).2 x :=
  fun rid hrid hspend => committed_handle a (h rid hrid hspend)

theorem Accounted.handle {v : Trace interface Request} (h : Accounted cfg s v) (o : Op)
    (a : o.Ans) : Accounted cfg ((machine cfg).handle o s a).2 v where
  asked rid hspend hasked := committed_handle a (h.asked rid hspend hasked)
  told x st hanswered herr := (h.told x st hanswered herr).handle o a
  looked id x hlooked := by
    obtain ⟨y, hy, heq⟩ := h.looked id x hlooked
    obtain ⟨z, hz, hzy⟩ := reservationId_handle a hy
    exact ⟨z, hz, hzy.trans heq⟩

/-- Only the move that settles an execution ends in a landed state. -/
theorem Move.of_landed {h : History} {id : String} {source : List TradeState} {patch : Patch}
    (hmove : Move cfg h id source patch) {state : TradeState} (hmem : state ∈ source)
    (hlanded : (patch.state.getD state).Landed) :
    ∃ x st, Looked h id x ∧ Answered h x (some st) ∧ st.err = false := by
  cases hmove with
  | settle x st signature hlooked hanswered =>
    refine ⟨x, st, hlooked, hanswered, ?_⟩
    by_contra herr
    simp [settledState, Bool.eq_true_of_not_eq_false herr, TradeState.Landed] at hlanded
  | register | authorize =>
    rw [List.mem_singleton] at hmem
    subst hmem
    simp [TradeState.Landed] at hlanded
  | _ => simp [TradeState.Landed, submittingPatch] at hlanded

theorem LandedCommitted.handle {v : Trace interface Request} {o : Op} (a : o.Ans)
    (hs : LandedCommitted cfg s) (hallows : Allows cfg v o) (hv : Accounted cfg s v) :
    LandedCommitted cfg ((machine cfg).handle o s a).2 where
  revokes := hs.revokes.handle o a
  landed id x hx hlanded := by
    rcases executions_handle cfg o s a with heq | ⟨_, _, row, rfl, hrow, hins⟩ |
      ⟨id', source, patch, now, old, rfl, hold, hmem, hfind⟩
    · rw [heq] at hx
      exact (hs.landed id x hx hlanded).handle o a
    · rw [Table.find?_insert? hins] at hx
      split at hx
      · -- a new execution has not landed
        obtain rfl := Option.some_inj.mp hx
        rw [hrow.1] at hlanded
        rcases hallows with rfl | rfl <;> simp [TradeState.Landed] at hlanded
      · exact (hs.landed id x hx hlanded).handle _ a
    · rw [hfind] at hx
      split at hx
      · rename_i hid
        subst hid
        obtain rfl := Option.some_inj.mp hx
        obtain ⟨x, st, hlooked, hanswered, herr⟩ := Move.of_landed hallows hmem hlanded
        obtain ⟨y, hy, heq⟩ := hv.looked id x hlooked
        obtain rfl := Option.some_inj.mp (hold.symm.trans hy)
        intro rid hrid hspend
        exact committed_handle a (hv.told x st hanswered herr rid (heq.symm.trans hrid) hspend)
      · exact (hs.landed id x hx hlanded).handle _ a

theorem Accounted.push {v : Trace interface Request} {e : Entry interface}
    (h : Accounted cfg s v)
    (hasked : ∀ rid, cfg.IsSpend rid → isCommit rid e = true → s.ledger.Committed rid)
    (htold : ∀ x st, e = ⟨.status x, (.ok (some st) : Except String (Option SignatureStatus))⟩ →
      st.err = false → SpendCommitted cfg s x)
    (hlooked : ∀ id x, e = ⟨.get .reconcile id, (some x : Option Execution)⟩ →
      s.executions.find? id = some x) : Accounted cfg s (v.push e) where
  asked rid hspend := by
    rintro ⟨e', hmem, hcommit⟩
    rcases List.mem_append.mp hmem with hmem | hmem
    · exact h.asked rid hspend ⟨e', hmem, hcommit⟩
    · exact hasked rid hspend (List.mem_singleton.mp hmem ▸ hcommit)
  told x st hanswered herr := by
    rcases List.mem_append.mp hanswered with hmem | hmem
    · exact h.told x st hmem herr
    · exact htold x st (List.mem_singleton.mp hmem).symm herr
  looked id x hx := by
    rcases List.mem_append.mp hx with hmem | hmem
    · exact h.looked id x hmem
    · exact ⟨x, hlooked id x (List.mem_singleton.mp hmem).symm, rfl⟩

end Invariant

/-! ### Runs -/

theorem commitment_modular (cfg : Config) :
    Modular (machine cfg) (fun r => (serve cfg r).run) (discipline cfg) Trace.start
      (fun _ r => ∀ a, r = .ok a → True) (LandedCommitted cfg) (Accounted cfg)
      (fun _ _ => True) (LandsCommitted cfg) where
  body_safe r := serve_returns cfg r
  symm _ _ h := h
  spawn p r _ _ := by
    refine ⟨⟨fun _ _ => ?_, fun _ _ hmem => ?_, fun _ _ hmem => ?_⟩, fun _ _ => trivial⟩
    · simp [Trace.start]
    · simp [Trace.start, Answered] at hmem
    · simp [Trace.start, Looked] at hmem
  call p t ans c o k hcond hct hrest hJ hR hallows := by
    simp only [LandsCommitted, Pool.next?_eq hct hrest] at hcond
    refine ⟨trivial, hJ.handle (ans o) hallows (hR t c hct), ?_⟩
    refine ((hR t c hct).handle o (ans o)).push ?_ ?_ ?_
    · -- a commit of a reservation that is not to be revoked
      intro rid hspend hcommit
      cases o with
      | commit rid' =>
        obtain rfl : rid' = rid := by simpa [isCommit] using hcommit
        exact committed_commit hJ.revokes hspend (hcond hspend) (ans (.commit rid'))
      | _ => simp [isCommit] at hcommit
    · -- a status that tells of a landing, which by the condition was asked for after the commit
      intro x st he herr rid hrid hspend
      obtain ⟨rfl, hres⟩ := Entry.mk.inj he
      obtain heq : statusOf ans x = .ok (some st) := eq_of_heq hres
      obtain ⟨d, hd, hasked⟩ := hcond (by simp [heq, reportsLanded, herr]) rid hrid hspend
      obtain ⟨u, hu⟩ := List.mem_iff_getElem?.mp hd
      have hd := hR u d hu
      rw [view_discipline] at hd
      exact hd.asked rid hspend hasked
    · intro id x he
      obtain ⟨rfl, hres⟩ := Entry.mk.inj he
      exact eq_of_heq hres
  frame s v o a w _ _ _ hw _ := ⟨hw.handle o a, trivial⟩

/-- What is committed stays so in every run. -/
theorem committed_run {cfg : Config} {p : LivePool} {rid : String}
    (es : List (Event interface Request)) (h : p.shared.ledger.Committed rid) :
    (p.run (machine cfg) (fun r => (serve cfg r).run) es).shared.ledger.Committed rid := by
  refine Pool.run_induction (P := fun q : LivePool => q.shared.ledger.Committed rid)
    (fun q e hq _ => ?_) (Pool.meets_true p es) h
  cases e with
  | spawn r => exact hq
  | kill t => exact hq
  | step t ans =>
    rcases Pool.step_cases (M := machine cfg) q t ans with heq | ⟨c, o, k, -, -, heq⟩
    · rw [Pool.apply, heq]
      exact hq
    · rw [Pool.apply, heq]
      exact committed_handle (ans o) hq

/-- **What landed is committed**, and stays so, in every run in which the cluster reports a
trade as landed only after its reservation was to be committed, and the reservation was then
still there. -/
theorem landed_is_committed (cfg : Config) (es : List (Event interface Request))
    (hmeets : liveMeets cfg (LandsCommitted cfg) es) (id : String) (x : Execution)
    (hx : (liveRun cfg es).shared.executions.find? id = some x)
    (hlanded : x.state = .confirmed ∨ x.state = .finalized) (rid : String)
    (hrid : x.reservationId = some rid) (hspend : cfg.IsSpend rid) :
    (liveRun cfg es).shared.ledger.Committed rid ∧
    ∀ es', (liveRun cfg (es ++ es')).shared.ledger.Committed rid := by
  have hstart : LandedCommitted cfg .empty :=
    ⟨fun r hr => absurd hr List.not_mem_nil, fun id x hx => by simp [LiveStore.empty] at hx⟩
  have hcoherent : Coherent _ _ _ _ _ _ (liveRun cfg es) :=
    (commitment_modular cfg).run hmeets (Modular.coherent_start hstart)
  have hcommitted := hcoherent.shared.landed id x hx hlanded rid hrid hspend
  refine ⟨hcommitted, fun es' => ?_⟩
  rw [liveRun, Pool.run_append]
  exact committed_run es' hcommitted

/-! ### A lost acknowledgement -/

/-- The id the sample quote is reserved under. -/
def sampleReservation : String := "reservation-v1\x00quote\x00message"

/-- The broadcast gets no answer. -/
def sampleNoAnswer : ∀ o, interface.Ans o
  | .broadcast _ => (.error "timeout" : Except String String)
  | o => sampleAnswers o

/-- The broadcast gets no answer, the trade lands all the same, and `reconcile` finds it. -/
def sampleLostAcknowledgement : List (Event interface Request) :=
  sampleApproved ++ sampleCall 2 (.submit "x1") 14 sampleNoAnswer ++
    sampleCall 3 (.reconcile "x1") 3 sampleAnswers

/-- A trade that landed is final while its reservation is still waiting to expire. -/
theorem finalized_without_commit :
    (liveRun sampleConfig sampleLostAcknowledgement).shared.stateOf "x1" = some .finalized ∧
    ((liveRun sampleConfig sampleLostAcknowledgement).shared.executions.find? "x1").bind
      (·.reservationId) = some sampleReservation ∧
    sampleConfig.IsSpend sampleReservation ∧
    ¬ (liveRun sampleConfig sampleLostAcknowledgement).shared.ledger.Committed
      sampleReservation := by
  decide

/-- With the acknowledgement, the trade lands committed. -/
theorem landed_is_committed_acknowledged :
    (liveRun sampleConfig (sampleBroadcast ++
      sampleCall 3 (.reconcile "x1") 3 sampleAnswers)).shared.ledger.Committed
        sampleReservation := by
  obtain ⟨x, hx, hlanded, hrid⟩ : ∃ x, (liveRun sampleConfig (sampleBroadcast ++
      sampleCall 3 (.reconcile "x1") 3 sampleAnswers)).shared.executions.find? "x1" = some x ∧
      x.state = .finalized ∧ x.reservationId = some sampleReservation := by
    refine ⟨_, Option.some_get (by decide) |>.symm, ?_, ?_⟩ <;> decide
  exact (landed_is_committed sampleConfig _ (by decide) "x1" x hx (.inr hlanded)
    sampleReservation hrid (by decide)).1

end AriOs.LiveTrading
