import AriOs.LiveTrading.Orchestrator

/-!
# The lifecycle of an execution

Whatever the answers it gets, an operation of the orchestrator only ever attempts certain
moves of an execution, and hands an envelope to the signer only while it holds the execution:
since it moved it to `signing`, or found it there. This is said once, for every operation,
about the calls the operation has made before; what follows for whole runs is in the modules
that import this one.
-/

namespace AriOs.LiveTrading

open AriOs.Async AriOs.Execution AriOs.Js AriOs.Storage Live

abbrev History := List (Entry interface)

/-! ### Moves -/

/-- The operation read `x` for the execution `id` in order to settle it. -/
def Looked (h : History) (id : String) (x : Execution) : Prop :=
  (⟨.get .reconcile id, (some x : Option Execution)⟩ : Entry interface) ∈ h

/-- The cluster answered for `x`. -/
def Answered (h : History) (x : Execution) (answer : Option SignatureStatus) : Prop :=
  (⟨.status x, (.ok answer : Except String (Option SignatureStatus))⟩ : Entry interface) ∈ h

/-- The block height was read for `x`. -/
def Measured (h : History) (x : Execution) (height : JsNumber) : Prop :=
  (⟨.heightFor x, (.ok height : Except String JsNumber)⟩ : Entry interface) ∈ h

/-- What the cluster says about the signature of `x`. -/
def statusOf (ans : ∀ o, interface.Ans o) (x : Execution) :
    Except String (Option SignatureStatus) := ans (.status x)

/-- What the cluster says about the block height, asked for `x`. -/
def heightOf (ans : ∀ o, interface.Ans o) (x : Execution) : Except String JsNumber :=
  ans (.heightFor x)

/-- The approval engine said that the approval was denied. -/
def ToldDenied (h : History) : Prop :=
  ∃ approvalId, (⟨.approvalStatus approvalId,
    (.ok (some .denied) : Except String (Option Approvals.ApprovalStatus))⟩ : Entry interface) ∈ h

/-- The operation read the execution in `expire`. -/
def Expiring (h : History) (id : String) : Prop :=
  ∃ x : Option Execution, (⟨.get .expire id, x⟩ : Entry interface) ∈ h

/-- The transitions an operation attempts on the execution `id`, after the calls `h`. -/
inductive Move (cfg : Config) (h : History) (id : String) : List TradeState → Patch → Prop where
  | register : Move cfg h id [.awaitingApproval] { approvalId := some id }
  | approve (approver : Option String) :
      Move cfg h id [.awaitingApproval] { state := some .approved, approver }
  | deny (approver : Option String) (hdenied : ToldDenied h) :
      Move cfg h id [.awaitingApproval] { state := some .denied, approver }
  | enterSigning : Move cfg h id [.approved] { state := some .signing }
  | authorize (authorizationId : Option String) : Move cfg h id [.signing] { authorizationId }
  | persist (q : Quote) (request : SimulationRequest) (signature : String)
      (authorizationId : Option String) :
      Move cfg h id [.signing] (submittingPatch q request signature authorizationId)
  | acknowledge (signature : Option String) :
      Move cfg h id [.submitting] { state := some .broadcast, signature }
  | doubt : Move cfg h id [.submitting] { state := some .reconciliationRequired }
  | expire (state : TradeState) (hstate : state = .approved ∨ state = .signing)
      (hreading : Expiring h id) :
      Move cfg h id [state] { state := some .expired }
  | settle (x : Execution) (st : SignatureStatus) (signature : Option String)
      (hlooked : Looked h id x) (hanswered : Answered h x (some st)) :
      Move cfg h id [x.state]
        { state := some (settledState cfg st), signature, slot := some st.slot }
  | drop (x : Execution) (last : Int) (height : JsNumber) (hlooked : Looked h id x)
      (hanswered : Answered h x none) (hlast : x.lastValidBlockHeight = some last)
      (hmeasured : Measured h x height) (hpast : isPast height last = true) :
      Move cfg h id [x.state] { state := some .dropped }
  | requeue (x : Execution) (hlooked : Looked h id x) (hanswered : Answered h x none)
      (halive : ∀ last, x.lastValidBlockHeight = some last →
        ∃ height, Measured h x height ∧ isPast height last = false)
      (hstate : x.state ≠ .reconciliationRequired) :
      Move cfg h id [x.state] { state := some .reconciliationRequired }

/-! ### Holding an execution -/

/-- The call gives hold of the execution `id`: it moved it to `signing`, or `submit` found it
there. -/
def acquires (id : String) : Entry interface → Bool
  | ⟨.transition id' [.approved] _, .ok _⟩ => id' = id
  | ⟨.get .submit id', some x⟩ => id' = id && x.state = .signing
  | _ => false

/-- An envelope for the execution `id` was handed to the signer. -/
def isSign (id : String) : Entry interface → Bool
  | ⟨.sign id' _ _, _⟩ => id' = id
  | _ => false

def holdStep (id : String) (held : Bool) (e : Entry interface) : Bool :=
  if acquires id e then true else if isSign id e then false else held

/-- The operation has hold of the execution, and has not handed an envelope over since. -/
def Holding (id : String) (h : History) : Prop := h.foldl (holdStep id) false = true

instance (id : String) (h : History) : Decidable (Holding id h) := by
  unfold Holding; infer_instance

theorem holding_append {id : String} {h : History} {e : Entry interface} :
    Holding id (h ++ [e]) ↔ acquires id e = true ∨ (isSign id e = false ∧ Holding id h) := by
  unfold Holding
  rw [List.foldl_append, List.foldl_cons, List.foldl_nil, holdStep]
  cases acquires id e <;> cases isSign id e <;> simp

/-! ### The promise -/

/-- The simulator answered for the quote. -/
def Simulated (h : History) (q : Quote) (e : SimulationEvidence) : Prop :=
  (⟨.simulate q, (.ok (.evidence e) : Except String SimulationAnswer)⟩ : Entry interface) ∈ h

/-- The operation created the execution `id`, for the quote. -/
def Created (cfg : Config) (h : History) (id : String) (q : Quote) : Prop :=
  ∃ new state x, (⟨.create new state, (.ok x : Except String Execution)⟩ : Entry interface) ∈ h ∧
    x.id = id ∧ cfg.quotes.find? new.quoteId = some q

/-- `submit` read an execution of the quote, with this approval. -/
def Approved (cfg : Config) (h : History) (approvalId : String) (q : Quote) : Prop :=
  ∃ id x, (⟨.get .submit id, (some x : Option Execution)⟩ : Entry interface) ∈ h ∧
    x.approvalId = some approvalId ∧ cfg.quotes.find? x.quoteId = some q

/-- What an operation promises before a call. -/
def Allows (cfg : Config) (v : Trace interface Request) : Op → Prop
  | .transition id source patch => Move cfg v.history id source patch
  | .create _ state => state = .awaitingApproval ∨ state = .dryRun
  | .sign id _ _ => Holding id v.history
  | .requestApproval approvalId _ q e => Created cfg v.history approvalId q ∧ Simulated v.history q e
  | .consumeApproval approvalId q e => Approved cfg v.history approvalId q ∧ q.evidence = some e
  | _ => True

abbrev discipline (cfg : Config) : Discipline interface (Trace interface Request) :=
  .ofTrace (Allows cfg)

theorem view_discipline (cfg : Config) (c : Call interface Request (Except String Response)) :
    c.view (discipline cfg) Trace.start = ⟨c.request, c.history⟩ := Call.view_ofTrace _ c

/-- An operation, run from any point, keeps its promises. -/
abbrev Safe (cfg : Config) {α : Type} (x : Live α) (v : Trace interface Request) : Prop :=
  Task.Returns (discipline cfg) (fun _ _ => True) x v

section Operations

variable {cfg : Config} {α β : Type} {v : Trace interface Request}

theorem Safe.bind {x : Live α} {f : α → Live β} (hx : Safe cfg x v)
    (hf : ∀ w a, Safe cfg (f a) w) : Safe cfg (x >>= f) v :=
  Task.returns_bind.mpr (hx.mono fun w a _ => hf w a)

/-- What was known before the first part is known to the second. -/
theorem Safe.bind_grows {x : Live α} {f : α → Live β} (hx : Safe cfg x v)
    (hf : ∀ w a, v.history ⊆ w.history → Safe cfg (f a) w) : Safe cfg (x >>= f) v :=
  Task.returns_bind.mpr (hx.grows.mono fun w a hw => hf w a hw.2)

theorem returns_check {Q : Trace interface Request → α → Prop} {x : Except String α} :
    Task.Returns (discipline cfg) Q (check x) v ↔ ∀ a, x = .ok a → Q v a := Iff.rfl

theorem safe_check (x : Except String α) : Safe cfg (check x) v := fun _ _ => trivial

theorem safe_pure (a : α) : Safe cfg (pure a) v := Task.returns_pure.mpr trivial

theorem safe_throw (e : String) : Safe cfg (throw e : Live α) v := Task.returns_throw

theorem safe_transition {id : String} {source : List TradeState} {patch : Patch}
    (h : Move cfg v.history id source patch) : Safe cfg (transition id source patch) v :=
  ⟨h, fun _ _ _ _ => trivial⟩

theorem require_returns (caller : Caller) (id : String) :
    Task.Returns (discipline cfg) (fun w x => w = v.push ⟨.get caller id, some x⟩)
      (require caller id) v := by
  refine Task.returns_bind.mpr (Task.returns_total.mpr ⟨trivial, fun answer _ => ?_⟩)
  refine returns_check.mpr fun x hx => ?_
  obtain rfl : answer = some x := orThrow_eq_ok.mp hx
  rfl

/-! ### From a quote to an approved execution -/

/-- The evidence for an exact transaction is the simulator's answer. -/
theorem simulated_returns (q : Quote) :
    Task.Returns (discipline cfg)
      (fun w evidence => ∀ e, q.request.isSome = true → evidence = some e → Simulated w.history q e)
      (simulated q) v := by
  refine Task.returns_bind.mpr ⟨trivial, fun _ _ answer hanswer => ?_⟩
  subst hanswer
  cases hrequest : q.request with
  | some request =>
    cases answer with
    | evidence e =>
      refine Task.returns_pure.mpr fun e' _ he => ?_
      obtain rfl := Option.some_inj.mp he
      exact List.mem_append_right _ (List.mem_singleton.mpr rfl)
    | plain success => exact Task.returns_throw
  | none =>
    cases answer with
    | evidence e => exact Task.returns_throw
    | plain success =>
      cases success with
      | true => exact Task.returns_pure.mpr fun _ hsome => absurd hsome (by simp)
      | false => exact Task.returns_throw

theorem assessed_safe (q : Quote) : Safe cfg (assessed cfg q) v := by
  unfold assessed
  split
  · refine Task.returns_bind.mpr ⟨trivial, fun _ _ verdict _ => ?_⟩
    exact (safe_check _).bind fun _ _ => safe_pure _
  · exact safe_pure _

theorem reserved_safe (q : Quote) (request : SimulationRequest) :
    Safe cfg (reserved cfg q request) v := by
  unfold reserved
  split
  · exact Task.returns_bind.mpr ⟨trivial, fun _ _ _ _ => safe_pure _⟩
  · exact safe_pure _

theorem awaitApproval_safe {q : Quote} {e : SimulationEvidence} {x : Execution}
    (hcreated : Created cfg v.history x.id q) (hsimulated : Simulated v.history q e)
    (actor : String) : Safe cfg (awaitApproval cfg q e actor x) v := by
  unfold awaitApproval
  split
  · refine Safe.bind ?_ fun _ _ => safe_transition .register
    unfold registerApproval
    split
    · exact ⟨⟨hcreated, hsimulated⟩, fun _ _ _ _ => trivial⟩
    · exact safe_pure _
  · exact safe_transition (.approve _)

theorem executeLive_safe {q : Quote} (hquote : cfg.quotes.find? q.id = some q)
    {evidence : Option SimulationEvidence}
    (hevidence : ∀ e, q.request.isSome = true → evidence = some e → Simulated v.history q e)
    (actor key : String) : Safe cfg (executeLive cfg q actor key evidence) v := by
  refine Task.returns_bind.mpr (returns_check.mpr fun request hrequest => ?_)
  refine Task.returns_bind.mpr (returns_check.mpr fun e he => ?_)
  have hsimulated : Simulated v.history q e :=
    hevidence e (by rw [orThrow_eq_ok.mp hrequest]; rfl) (orThrow_eq_ok.mp he)
  refine Task.returns_bind.mpr (returns_check.mpr fun _ _ => ?_)
  refine Safe.bind_grows ⟨trivial, fun _ _ _ _ => trivial⟩ fun v₁ height h₁ => ?_
  refine Task.returns_bind.mpr (returns_check.mpr fun _ _ => ?_)
  refine (assessed_safe q).bind_grows fun v₂ risk h₂ => ?_
  refine (reserved_safe q request).bind_grows fun v₃ rid h₃ => ?_
  refine Task.returns_bind.mpr ⟨.inl rfl, fun _ _ x hx => ?_⟩
  subst hx
  refine awaitApproval_safe ⟨_, _, x, List.mem_append_right _ (List.mem_singleton.mpr rfl), rfl,
    hquote⟩ (List.mem_append_left _ (h₃ (h₂ (h₁ hsimulated)))) actor

theorem execute_safe (quoteId key actor : String) (dryRun : Bool) :
    Safe cfg (execute cfg quoteId key actor dryRun) v := by
  refine Task.returns_bind.mpr (Task.returns_total.mpr ⟨trivial, fun old _ => ?_⟩)
  cases old with
  | some x => exact safe_pure _
  | none =>
    refine Task.returns_bind.mpr (returns_check.mpr fun q hq => ?_)
    have hquote : cfg.quotes.find? quoteId = some q := orThrow_eq_ok.mp hq
    obtain rfl : q.id = quoteId := (Table.find?_eq_some_iff.mp hquote).2
    refine Safe.bind (Task.returns_total.mpr ⟨trivial, fun _ _ => trivial⟩) fun _ at_ => ?_
    refine (safe_check _).bind fun _ _ => (safe_check _).bind fun _ _ => ?_
    refine Task.returns_bind.mpr ((simulated_returns q).mono fun _ evidence hevidence => ?_)
    split
    · exact ⟨.inr rfl, fun _ _ _ _ => trivial⟩
    · exact executeLive_safe hquote hevidence actor key

theorem refreshApproval_safe (id : String) (operator : Option String) :
    Safe cfg (refreshApproval cfg id operator) v := by
  refine Safe.bind ((require_returns .approval id).mono fun _ _ _ => trivial) fun _ x => ?_
  split
  · exact safe_pure _
  · refine (safe_check _).bind fun _ approvalId => ?_
    refine Task.returns_bind.mpr ⟨trivial, fun _ _ answer hanswer => ?_⟩
    subst hanswer
    refine Task.returns_bind.mpr (returns_check.mpr fun status hstatus => ?_)
    obtain rfl := orThrow_eq_ok.mp hstatus
    cases status with
    | denied =>
      exact safe_transition (.deny operator ⟨approvalId,
        List.mem_append_right _ (List.mem_singleton.mpr rfl)⟩)
    | approved => exact safe_transition (.approve operator)
    | pending | expired | revoked | consumed => exact safe_pure _

theorem approve_safe (id operator : String) (input : Option Approvals.DecisionInput) :
    Safe cfg (approve cfg id operator input) v := by
  refine Safe.bind ((require_returns .approval id).mono fun _ _ _ => trivial) fun _ x => ?_
  refine (safe_check _).bind fun _ _ => (safe_check _).bind fun _ _ => ?_
  refine Safe.bind ?_ fun _ _ => refreshApproval_safe id (some operator)
  unfold recordApproval
  split
  · split
    · exact ⟨trivial, fun _ _ _ _ => trivial⟩
    · exact safe_pure _
  · exact safe_check _

theorem deny_safe (id operator : String) (input : Option Approvals.DecisionInput) :
    Safe cfg (deny cfg id operator input) v := by
  refine Safe.bind ((require_returns .approval id).mono fun _ _ _ => trivial) fun _ x => ?_
  refine (safe_check _).bind fun _ _ => (safe_check _).bind fun _ _ =>
    (safe_check _).bind fun _ _ => ?_
  exact Safe.bind ⟨trivial, fun _ _ _ _ => trivial⟩ fun _ _ =>
    refreshApproval_safe id (some operator)

/-! ### From an approved execution to a broadcast one -/

theorem Holding.push {id : String} {e : Entry interface} (h : Holding id v.history)
    (he : isSign id e = false) : Holding id (v.push e).history :=
  holding_append.mpr (.inr ⟨he, h⟩)

theorem releaseIfHeld_returns (reservationId : Option String) :
    Task.Returns (discipline cfg) (fun w _ => v.history ⊆ w.history)
      (releaseIfHeld cfg reservationId) v := by
  unfold releaseIfHeld
  split
  · split
    · exact ⟨trivial, fun _ _ _ _ => List.subset_append_left _ _⟩
    · exact Task.returns_pure.mpr (List.Subset.refl _)
  · exact Task.returns_pure.mpr (List.Subset.refl _)

theorem expire_safe {id : String} {state : TradeState}
    (hstate : state = .approved ∨ state = .signing) : Safe cfg (expire cfg id [state]) v := by
  refine Task.returns_bind.mpr (Task.returns_total.mpr ⟨trivial, fun x _ => ?_⟩)
  exact Task.returns_bind.mpr ((releaseIfHeld_returns _).mono fun w _ hw =>
    safe_transition (.expire state hstate
      ⟨x, hw (List.mem_append_right _ (List.mem_singleton.mpr rfl))⟩))

theorem acknowledge_safe (id : String) (x : Execution) (landed : String) :
    Safe cfg (acknowledge cfg id x landed) v := by
  refine Safe.bind ?_ fun _ _ => safe_transition (.acknowledge _)
  unfold commitHeld
  split
  · split
    · exact ⟨trivial, fun _ _ _ _ => trivial⟩
    · exact safe_throw _
  · exact safe_pure _

theorem signAndSend_safe {id : String} (h : Holding id v.history) (q : Quote)
    (request : SimulationRequest) (x : Execution) :
    Safe cfg (signAndSend cfg id q request x) v := by
  refine Task.returns_bind.mpr ⟨trivial, fun _ _ authorizationId _ => ?_⟩
  refine Task.returns_bind.mpr ⟨.authorize _, fun _ _ _ _ => ?_⟩
  refine Task.returns_bind.mpr ⟨(h.push rfl).push rfl, fun _ _ signed _ => ?_⟩
  refine (safe_check _).bind fun _ proven => ?_
  refine (safe_transition (.persist q request _ _)).bind fun _ x => ?_
  refine Safe.bind ?_ fun _ landed => (safe_check _).bind fun _ _ => acknowledge_safe id x landed
  unfold sent
  split
  · exact safe_pure _
  · exact ⟨trivial, fun _ _ _ _ => trivial⟩

theorem submitFailed_safe (id e : String) : Safe cfg (submitFailed id e) v := by
  refine Safe.bind ((require_returns .submitFailed id).mono fun _ _ _ => trivial) fun _ x => ?_
  split
  · exact (safe_transition .doubt).bind fun _ _ => safe_throw _
  · exact safe_throw _

theorem checkReservation_returns {P : Prop} {id : String} (h : P → Holding id v.history)
    (reservationId : Option String) :
    Task.Returns (discipline cfg) (fun w _ => P → Holding id w.history)
      (checkReservation cfg reservationId) v := by
  unfold checkReservation
  split
  · split
    · refine Task.returns_bind.mpr (Task.returns_total.mpr ⟨trivial, fun held _ => ?_⟩)
      exact returns_check.mpr fun _ _ hP => (h hP).push rfl
    · exact Task.returns_pure.mpr h
  · exact Task.returns_pure.mpr h

theorem ensureConsumed_returns {P : Prop} {id : String} (h : P → Holding id v.history) {q : Quote}
    {e : SimulationEvidence} {x : Execution}
    (hread : (⟨.get .submit id, (some x : Option Execution)⟩ : Entry interface) ∈ v.history)
    (hquote : cfg.quotes.find? x.quoteId = some q) (hevidence : q.evidence = some e) :
    Task.Returns (discipline cfg) (fun w _ => P → Holding id w.history)
      (ensureConsumed cfg q e x) v := by
  refine Task.returns_bind.mpr (returns_check.mpr fun approvalId happroval => ?_)
  have happroval : x.approvalId = some approvalId := by
    have hsome := orThrow_eq_ok.mp happroval
    split at hsome
    · exact hsome
    · exact absurd hsome (by simp)
  refine Task.returns_bind.mpr ⟨trivial, fun _ _ answer _ => ?_⟩
  beta_reduce
  split
  · exact Task.returns_pure.mpr fun hP => (h hP).push rfl
  · exact ⟨⟨⟨id, x, List.mem_append_left _ hread, happroval, hquote⟩, hevidence⟩,
      fun _ _ _ _ hP => ((h hP).push rfl).push rfl⟩

/-- After the move to `signing` the operation has hold of the execution. -/
theorem enterSigning_returns {id : String} {x : Execution}
    (h : x.state ≠ .approved → Holding id v.history) :
    Task.Returns (discipline cfg) (fun w _ => Holding id w.history) (enterSigning id x) v := by
  unfold enterSigning
  split
  · refine ⟨.enterSigning, fun answer _ x hx => holding_append.mpr (.inl ?_)⟩
    subst hx
    simp [acquires]
  · rename_i hstate
    exact Task.returns_pure.mpr (h hstate)

theorem submit_safe (id : String) : Safe cfg (submit cfg id) v := by
  refine Task.returns_bind.mpr ((require_returns .submit id).mono ?_)
  rintro w x rfl
  refine Task.returns_bind.mpr (returns_check.mpr fun _ hstate => ?_)
  have hstate : x.state = .approved ∨ x.state = .signing := by
    by_contra hnot
    rw [not_or] at hnot
    exact throwIf_eq_ok.mp hstate hnot
  -- to have read `signing` is to hold the execution
  have hheld : x.state ≠ .approved →
      Holding id (v.push (⟨.get .submit id, (some x : Option Execution)⟩ : Entry interface)).history :=
    fun hne => holding_append.mpr (.inl (by simp [acquires, hstate.resolve_left hne]))
  have hread : (⟨.get .submit id, (some x : Option Execution)⟩ : Entry interface) ∈
      (v.push (⟨.get .submit id, (some x : Option Execution)⟩ : Entry interface)).history :=
    List.mem_append_right _ (List.mem_singleton.mpr rfl)
  refine Task.returns_bind.mpr (returns_check.mpr fun q hq => ?_)
  refine Task.returns_bind.mpr (returns_check.mpr fun request _ => ?_)
  refine Task.returns_bind.mpr (returns_check.mpr fun e he => ?_)
  refine Task.returns_bind.mpr (returns_check.mpr fun _ _ => ?_)
  refine Task.returns_bind.mpr (Task.returns_total.mpr ⟨trivial, fun at_ _ => ?_⟩)
  refine Task.returns_bind.mpr (returns_check.mpr fun _ _ => ?_)
  refine Task.returns_bind.mpr ⟨trivial, fun answer _ height _ => ?_⟩
  beta_reduce
  split
  · -- the blockhash is too old
    exact (expire_safe hstate).bind fun _ _ => safe_throw _
  · refine Task.returns_bind.mpr ((checkReservation_returns
      (fun hne => ((hheld hne).push rfl).push rfl) _).grows.mono fun w _ hw => ?_)
    have hread := hw.2 (List.mem_append_left _ (List.mem_append_left _ hread))
    refine Task.returns_bind.mpr ((ensureConsumed_returns hw.1 hread (orThrow_eq_ok.mp hq)
      (orThrow_eq_ok.mp he)).mono fun w _ hw => ?_)
    refine Task.returns_bind.mpr ((enterSigning_returns hw).mono fun w x hw => ?_)
    exact Task.returns_orCatch (fun w e => submitFailed_safe id e)
      ((signAndSend_safe hw q request x).mono fun _ _ _ => safe_pure _)

/-! ### Recovery and settlement -/

theorem recover_safe (id : String) : Safe cfg (recover id) v := by
  refine Safe.bind ((require_returns .recover id).mono fun _ _ _ => trivial) fun _ x => ?_
  split
  · exact safe_transition .doubt
  · exact safe_pure _

theorem sendRecovered_safe (id : String) (q : Quote) (request : SimulationRequest)
    (wire signature : String) : Safe cfg (sendRecovered cfg id q request wire signature) v := by
  refine (safe_transition (.persist q request _ _)).bind fun _ x => ?_
  refine Safe.bind ⟨trivial, fun _ _ _ _ => trivial⟩ fun _ landed => ?_
  split
  · exact (safe_transition .doubt).bind fun _ _ => safe_throw _
  · exact acknowledge_safe id x landed

theorem recoverSigning_safe (row : Execution) : Safe cfg (recoverSigning cfg row) v := by
  refine (safe_check _).bind fun _ q => (safe_check _).bind fun _ request => ?_
  split
  · exact submit_safe row.id
  · refine (safe_check _).bind fun _ _ => ?_
    refine Safe.bind ⟨trivial, fun _ _ _ _ => trivial⟩ fun _ signed => ?_
    split
    · exact (expire_safe (.inr rfl)).bind fun _ _ => safe_throw _
    · exact safe_throw _
    · exact safe_throw _
    · refine (safe_check _).bind fun _ _ => (safe_check _).bind fun _ proven => ?_
      exact sendRecovered_safe row.id q request proven.1 proven.2

/-- Whether the blockhash is dead is what the height read for the execution says. -/
theorem blockhashDead_returns {id : String} {x : Execution} (hlooked : Looked v.history id x)
    (hanswered : Answered v.history x none) :
    Task.Returns (discipline cfg) (fun w dead => Looked w.history id x ∧ Answered w.history x none ∧
      if dead then ∃ last height, x.lastValidBlockHeight = some last ∧ Measured w.history x height ∧
          isPast height last = true
        else ∀ last, x.lastValidBlockHeight = some last →
          ∃ height, Measured w.history x height ∧ isPast height last = false)
      (blockhashDead x) v := by
  unfold blockhashDead
  cases hlast : x.lastValidBlockHeight with
  -- without a last height nothing is asked
  | none => exact Task.returns_pure.mpr ⟨hlooked, hanswered, by simp⟩
  | some last =>
    refine Task.returns_bind.mpr ⟨trivial, fun answer _ height hheight => ?_⟩
    subst hheight
    have hmeasured : Measured (v.history ++ [⟨.heightFor x, .ok height⟩]) x height :=
      List.mem_append_right _ (List.mem_singleton.mpr rfl)
    refine Task.returns_pure.mpr
      ⟨List.mem_append_left _ hlooked, List.mem_append_left _ hanswered, ?_⟩
    split
    · rename_i hpast
      exact ⟨last, height, rfl, hmeasured, hpast⟩
    · rename_i hpast
      intro last' hlast'
      obtain rfl := Option.some_inj.mp hlast'
      exact ⟨height, hmeasured, by simpa using hpast⟩

theorem settleUnseen_safe {id : String} {x : Execution} (hlooked : Looked v.history id x)
    (hanswered : Answered v.history x none) : Safe cfg (settleUnseen cfg id x) v := by
  refine Task.returns_bind.mpr ((blockhashDead_returns hlooked hanswered).mono ?_)
  rintro w dead ⟨hlooked, hanswered, hdead⟩
  cases dead with
  | true =>
    obtain ⟨last, height, hlast, hmeasured, hpast⟩ := hdead
    refine Task.returns_bind.mpr ((releaseIfHeld_returns _).mono fun u _ hu => ?_)
    exact safe_transition (.drop x last height (hu hlooked) (hu hanswered) hlast (hu hmeasured)
      hpast)
  | false =>
    rw [if_neg (by simp)]
    split
    · exact safe_pure _
    · rename_i hstate
      exact safe_transition (.requeue x hlooked hanswered (by simpa using hdead) hstate)

theorem reconcile_safe (id : String) : Safe cfg (reconcile cfg id) v := by
  refine Task.returns_bind.mpr ((require_returns .reconcile id).mono ?_)
  rintro w x rfl
  have hlooked : Looked (v.push (⟨.get .reconcile id, (some x : Option Execution)⟩ :
      Entry interface)).history id x := List.mem_append_right _ (List.mem_singleton.mpr rfl)
  refine Task.returns_bind.mpr (returns_check.mpr fun signature _ => ?_)
  refine Task.returns_bind.mpr ⟨trivial, fun answer _ status hstatus => ?_⟩
  subst hstatus
  cases status with
  | none =>
    exact settleUnseen_safe (List.mem_append_left _ hlooked)
      (List.mem_append_right _ (List.mem_singleton.mpr rfl))
  | some st =>
    exact safe_transition (.settle x st _ (List.mem_append_left _ hlooked)
      (List.mem_append_right _ (List.mem_singleton.mpr rfl)))

theorem recoverRow_safe (row : Execution) : Safe cfg (recoverRow cfg row) v := by
  unfold recoverRow
  split
  · exact (recoverSigning_safe row).bind fun _ _ => safe_pure _
  · exact (recover_safe row.id).bind fun _ _ => safe_pure _
  · exact (reconcile_safe row.id).bind fun _ _ => safe_pure _

theorem recoverRows_safe (rows : List Execution) (r : Recovery) :
    Safe cfg (recoverRows cfg rows r) v := by
  induction rows generalizing r v with
  | nil => exact safe_pure _
  | cons row rows ih =>
    exact Task.returns_orCatch (fun _ _ => ih _)
      ((recoverRow_safe row).mono fun _ count _ => ih _)

/-- Every operation keeps its promises. -/
theorem serve_returns (cfg : Config) (r : Request) : Safe cfg (serve cfg r) (.start r) := by
  have hreply : ∀ x : Live Execution, Safe cfg x (.start r) → Safe cfg (reply x) (.start r) :=
    fun x hx => hx.bind fun _ _ => safe_pure _
  cases r with
  | execute quoteId key actor dryRun => exact hreply _ (execute_safe quoteId key actor dryRun)
  | approve id operator input => exact hreply _ (approve_safe id operator input)
  | deny id operator input => exact hreply _ (deny_safe id operator input)
  | refreshApproval id operator => exact hreply _ (refreshApproval_safe id operator)
  | submit id => exact hreply _ (submit_safe id)
  | recover id => exact hreply _ (recover_safe id)
  | recoverSigning row => exact hreply _ (recoverSigning_safe row)
  | recoverAndReconcile limit =>
    refine Safe.bind ?_ fun _ _ => safe_pure _
    refine Safe.bind (Task.returns_total.mpr ⟨trivial, fun _ _ => trivial⟩) fun _ rows => ?_
    exact recoverRows_safe _ _
  | reconcile id => exact hreply _ (reconcile_safe id)

end Operations

end AriOs.LiveTrading
