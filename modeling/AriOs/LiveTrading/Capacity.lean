import AriOs.LiveTrading.Effects

/-!
# Dead trades and their reservations

Release and expiry only ever remove a row that is reserved; a row is committed for good. A
trade that is found to be lost after the acknowledgement of its broadcast, or whose broadcast
is acknowledged after it was given up, never gives its amount back.
-/

namespace AriOs.LiveTrading

open AriOs.Async AriOs.Execution AriOs.Js AriOs.Storage Live

/-! ### Giving back -/

/-- The states of a trade that moved no money and never will. -/
def TradeState.Dead (s : TradeState) : Prop :=
  s = .denied ∨ s = .expired ∨ s = .dropped ∨ s = .failed

instance (s : TradeState) : Decidable s.Dead := by
  unfold TradeState.Dead; infer_instance

/-- Once their deadline has passed, no rows under the reservations of dead executions count. -/
def GivesBack (s : LiveStore) : Prop :=
  ∀ id x, s.executions.find? id = some x → x.state.Dead → ∀ rid, x.reservationId = some rid →
    ∀ now, (∀ r, s.ledger.find? rid = some r → r.expiresAt ≤ now) →
      (s.ledger.expire now).find? rid = none

/-- Only committed rows are in the way. -/
theorem givesBack_iff {s : LiveStore} :
    GivesBack s ↔ ∀ id x, s.executions.find? id = some x → x.state.Dead →
      ∀ rid, x.reservationId = some rid → ¬ s.ledger.Committed rid := by
  refine ⟨fun h id x hx hdead rid hrid hcommitted => ?_, fun h id x hx hdead rid hrid now hlate =>
    Ledger.find?_expire_eq_none (h id x hx hdead rid hrid) fun r hr _ => hlate r hr⟩
  obtain ⟨r, hr, -⟩ := Option.map_eq_some_iff.mp hcommitted
  have hnone := h id x hx hdead rid hrid r.expiresAt fun r' hr' =>
    (Option.some_inj.mp (hr.symm.trans hr')) ▸ le_refl _
  have hstays : (s.ledger.expire r.expiresAt).Committed rid := hcommitted.expire
  simp [Ledger.Committed, hnone] at hstays

/-- The operation read the execution `id` as `x`, to settle it. -/
def looks (id : String) (x : Execution) : Entry interface → Bool
  | ⟨.get .reconcile id', some x'⟩ => id' = id && x' = x
  | _ => false

/-- What tells an operation that the trade `id`, which it finds as `old`, moved no money and never
will: its approval was denied, `expire` was called for it, or the cluster said that it failed, or
that its blockhash is dead and it was not seen. -/
def tellsLost (h : History) (id : String) (old : Execution) : Entry interface → Bool
  | ⟨.approvalStatus _, .ok (some .denied)⟩ => old.state = .awaitingApproval
  | ⟨.get .expire id', _⟩ => id' = id
  | ⟨.status x, .ok (some st)⟩ => st.err && h.any (looks id x)
  | ⟨.heightFor x, .ok height⟩ =>
    x.lastValidBlockHeight.any (fun last => isPast height last) && h.any (looks id x)
  | _ => false

/-- Nobody who was told that a trade is lost finds its row committed, and nobody whose broadcast was
acknowledged finds an execution under its reservation that is dead already. -/
def LostUncommitted (p : LivePool) : Event interface Request → Prop
  | .step t _ =>
    match p.next? t with
    | some (.transition id source _) => ∀ c ∈ p.calls[t]?, ∀ old ∈ p.shared.executions.find? id,
        old.state ∈ source → c.history.any (tellsLost c.history id old) = true →
          ∀ rid ∈ old.reservationId, ¬ p.shared.ledger.Committed rid
    | some (.commit rid) => rid ∉ p.shared.revokeReservations → p.shared.ledger.has rid = true →
        ∀ x ∈ p.shared.executions.rows, x.state.Dead → x.reservationId ≠ some rid
    | _ => True
  | _ => True

instance (p : LivePool) : ∀ e, Decidable (LostUncommitted p e)
  | .step t _ => by
    dsimp only [LostUncommitted]
    generalize p.next? t = next
    change Option Op at next
    rcases next with _ | o
    · exact isTrue trivial
    · rcases o with ⟨⟩ <;> infer_instance
  | .spawn _ | .kill _ => isTrue trivial

/-! ### Lost trades -/

section Lost

variable {cfg : Config} {s : LiveStore} {h : History} {id : String} {source : List TradeState}
  {patch : Patch} {old x : Execution}

theorem Looked.any (h' : Looked h id x) : h.any (looks id x) = true :=
  List.any_eq_true.mpr ⟨_, h', by simp [looks]⟩

/-- Only who was told so makes an execution dead. -/
theorem Move.told (hmove : Move cfg h id source patch) (hmem : old.state ∈ source)
    (hdead : (patch.state.getD old.state).Dead) : h.any (tellsLost h id old) = true := by
  rw [List.any_eq_true]
  cases hmove with
  | deny approver hdenied =>
    obtain ⟨approvalId, hdenied⟩ := hdenied
    exact ⟨_, hdenied, decide_eq_true (List.mem_singleton.mp hmem)⟩
  | expire state hstate hreading =>
    obtain ⟨x, hreading⟩ := hreading
    exact ⟨_, hreading, decide_eq_true rfl⟩
  | settle x st signature hlooked hanswered =>
    have herr : st.err = true := by
      simp only [Option.getD_some, settledState] at hdead
      split at hdead
      · assumption
      · split at hdead <;> simp [TradeState.Dead] at hdead
    exact ⟨_, hanswered, by simp [tellsLost, herr, hlooked.any]⟩
  | drop x last height hlooked hanswered hlast hmeasured hpast =>
    exact ⟨_, hmeasured, by simp [tellsLost, hlast, hpast, hlooked.any]⟩
  -- the other moves lead to states of trades that are alive
  | register | authorize =>
    rw [List.mem_singleton.mp hmem] at hdead
    simp [TradeState.Dead] at hdead
  | approve | enterSigning | persist | acknowledge | doubt | requeue =>
    simp [TradeState.Dead, submittingPatch] at hdead

end Lost

/-! ### Keeping to it is enough -/

section Enough

variable {cfg : Config} {s : LiveStore}

/-- A call commits a row only if that row was there to be committed. -/
theorem committed_of_handle_commit {rid : String} {a : Int}
    (h : ((machine cfg).handle (.commit rid) s a).2.ledger.Committed rid) :
    s.ledger.Committed rid ∨ (rid ∉ s.revokeReservations ∧ s.ledger.has rid = true) := by
  rcases (commit_cases s rid a).2.2 with ⟨-, heq⟩ | ⟨hmem, heq⟩
  · exact .inl ((congrArg (Ledger.Committed · rid) heq).mp h)
  · have h : (s.ledger.commit rid a).2.Committed rid :=
      (congrArg (Ledger.Committed · rid) heq).mp h
    obtain ⟨r, hr, -⟩ := Option.map_eq_some_iff.mp h
    rw [Ledger.find?_commit] at hr
    obtain ⟨r', hr', -⟩ := Option.map_eq_some_iff.mp hr
    exact .inr ⟨hmem, Option.isSome_iff_exists.mpr ⟨r', hr'⟩⟩

theorem givesBack_modular (cfg : Config) :
    Modular (machine cfg) (fun r => (serve cfg r).run) (discipline cfg) Trace.start
      (fun _ r => ∀ a, r = .ok a → True) GivesBack (fun _ _ => True) (fun _ _ => True)
      LostUncommitted where
  body_safe r := serve_returns cfg r
  symm _ _ h := h
  spawn _ _ _ _ := ⟨trivial, fun _ _ => trivial⟩
  call p t ans c o k hcond hct hrest hJ _ hallows := by
    rw [view_discipline] at hallows
    refine ⟨trivial, givesBack_iff.mpr fun id x hx hdead rid hrid hcommitted => ?_, trivial⟩
    rw [givesBack_iff] at hJ
    simp only [LostUncommitted, Pool.next?_eq hct hrest] at hcond
    rcases executions_handle cfg o p.shared (ans o) with heq | ⟨_, _, row, rfl, hrow, hins⟩ |
      ⟨id', source, patch, now, old, rfl, hold, hmem, hfind⟩
    · -- the executions are the same: the call may still be a commit
      rw [heq] at hx
      rcases committed_of_handle hcommitted with hbefore | rfl
      · exact hJ id x hx hdead rid hrid hbefore
      · rcases committed_of_handle_commit hcommitted with hbefore | ⟨hrevoke, hhas⟩
        · exact hJ id x hx hdead rid hrid hbefore
        · exact hcond hrevoke hhas x (Table.find?_eq_some_iff.mp hx).1 hdead hrid
    · -- a new row is not dead
      have hbefore := (committed_of_handle hcommitted).resolve_right (by simp)
      rw [Table.find?_insert? hins] at hx
      split at hx
      · obtain rfl := Option.some_inj.mp hx
        rw [hrow.1] at hdead
        rcases hallows with rfl | rfl <;> simp [TradeState.Dead] at hdead
      · exact hJ id x hx hdead rid hrid hbefore
    · have hbefore := (committed_of_handle hcommitted).resolve_right (by simp)
      rw [hfind] at hx
      split at hx
      · obtain rfl := Option.some_inj.mp hx
        exact hcond c hct old hold hmem (Move.told hallows hmem hdead) rid hrid hbefore
      · exact hJ id x hx hdead rid hrid hbefore
  frame _ _ _ _ _ _ _ _ _ _ := ⟨trivial, trivial⟩

end Enough

/-- **Dead executions give back** in every state of a run in which no trade is found to be lost
whose row is committed, and no row is committed that a dead execution holds. -/
theorem gives_back_of_lost (cfg : Config) (es : List (Event interface Request))
    (h : liveMeets cfg LostUncommitted es) (before after : List (Event interface Request))
    (hes : es = before ++ after) : GivesBack (liveRun cfg before).shared := by
  subst hes
  have hstart : GivesBack .empty := fun id x hx => by simp [LiveStore.empty] at hx
  exact ((givesBack_modular cfg).run (Pool.meets_append.mp h).1
    (Modular.coherent_start hstart)).shared

/-- No broadcast is acknowledged, and the cluster never sees the signature. -/
def sampleLost : ∀ o, interface.Ans o
  | .broadcast _ => (.error "timeout" : Except String String)
  | .status _ => (.ok none : Except String (Option SignatureStatus))
  | .heightFor _ => (.ok (.ofInt 101) : Except String JsNumber)
  | o => sampleAnswers o

/-- A trade whose broadcast times out is dropped once its blockhash is dead. -/
def sampleDropped : List (Event interface Request) :=
  sampleApproved ++ sampleCall 2 (.submit "x1") 14 sampleLost ++
    sampleCall 3 (.reconcile "x1") 5 sampleLost

theorem gives_back_of_lost_dropped :
    (liveRun sampleConfig sampleDropped).shared.stateOf "x1" = some .dropped ∧
      GivesBack (liveRun sampleConfig sampleDropped).shared :=
  ⟨by decide, gives_back_of_lost sampleConfig sampleDropped (by decide) sampleDropped []
    (List.append_nil _).symm⟩

/-! ### A trade that fails after its acknowledgement -/

/-- The cluster reports that the transaction failed. -/
def sampleErr : ∀ o, interface.Ans o
  | .status _ => (.ok (some ⟨7, .finalized, true⟩) : Except String (Option SignatureStatus))
  | o => sampleAnswers o

/-- The broadcast is acknowledged, and the transaction fails on chain. -/
def sampleFailed : List (Event interface Request) :=
  sampleBroadcast ++ sampleCall 3 (.reconcile "x1") 3 sampleErr

/-- The row of a failed execution is committed, and counts for ever. -/
theorem failed_keeps_capacity :
    (liveRun sampleConfig sampleFailed).shared.stateOf "x1" = some .failed ∧
    ¬ GivesBack (liveRun sampleConfig sampleFailed).shared := by
  refine ⟨by decide, fun h => ?_⟩
  rw [givesBack_iff] at h
  obtain ⟨x, hx, hdead, hrid⟩ : ∃ x,
      (liveRun sampleConfig sampleFailed).shared.executions.find? "x1" = some x ∧
      x.state.Dead ∧ x.reservationId = some "reservation-v1\x00quote\x00message" := by
    refine ⟨_, Option.some_get (by decide) |>.symm, ?_, ?_⟩ <;> decide
  exact h "x1" x hx hdead _ hrid (by decide)

end AriOs.LiveTrading
