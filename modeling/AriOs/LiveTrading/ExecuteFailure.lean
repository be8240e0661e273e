import AriOs.Async.Environment
import AriOs.LiveTrading.Orchestrator

/-!
# What a failed `execute` leaves behind

`execute` reserves, creates the execution, registers the approval and notes it on the
execution, one store after the other. It catches nothing: when one of the later calls fails,
the reservation made before it stays, for an execution that is not there or that no one can
move any more.

Here every statement of the stores may fail, besides what it refuses by itself.
-/

namespace AriOs.LiveTrading

open AriOs.Async AriOs.Execution AriOs.Js AriOs.Storage Live

/-! ### Stores that fail -/

/-- What a statement returns when its store fails. -/
def storeFailure : (o : Op) → String → Option o.Res
  | .create _ _, e | .transition _ _ _, e => some (.error e : Except String Execution)
  | .reserve _ _, e => some (.error e : Except String String)
  | _, _ => none

/-- What the environment contributes: also, whether the store fails. -/
def FaultyAns (o : Op) : Type := Option String × o.Ans

abbrev faultyInterface : Interface := interface.within FaultyAns

/-- What each call does; a statement whose store fails changes nothing. -/
def faulty (cfg : Config) : Machine faultyInterface LiveStore where
  handle o s a :=
    match a.1.bind (storeFailure o) with
    | some r => (r, s)
    | none => (machine cfg).handle o s a.2

abbrev FaultyPool := Pool faultyInterface LiveStore Request (Except String Response)

/-- Any number of operations, interleaved in any way, over stores that may fail. -/
def faultyRun (cfg : Config) (es : List (Event faultyInterface Request)) : FaultyPool :=
  (Pool.start .empty).run (faulty cfg) (fun r => (serve cfg r).run.within FaultyAns) es

/-! ### The property -/

/-- The execution can be submitted or expired, at once or after its approval. -/
def Execution.CanProceed (x : Execution) : Prop :=
  x.state = .approved ∨ x.state = .signing ∨
    (x.state = .awaitingApproval ∧ x.approvalId.isSome = true)

instance (x : Execution) : Decidable x.CanProceed := by
  unfold Execution.CanProceed; infer_instance

/-- The call made a reservation. -/
def Reserves (h : List (Entry interface)) (id : String) : Prop :=
  ∃ quoteHash messageHash,
    (⟨.reserve quoteHash messageHash, (.ok id : Except String String)⟩ : Entry interface) ∈ h

/-- The reservations a call made. -/
def reservations (h : List (Entry interface)) : List String :=
  h.filterMap fun
    | ⟨.reserve _ _, r⟩ => Except.toOption (r : Except String String)
    | _ => none

theorem reserves_iff {h : List (Entry interface)} {id : String} :
    Reserves h id ↔ id ∈ reservations h := by
  constructor
  · rintro ⟨quoteHash, messageHash, hmem⟩
    exact List.mem_filterMap.mpr ⟨_, hmem, rfl⟩
  · intro hid
    obtain ⟨⟨o, r⟩, hmem, heq⟩ := List.mem_filterMap.mp hid
    cases o with
    | reserve quoteHash messageHash =>
      change Except String String at r
      cases r with
      | ok rid =>
        obtain rfl : rid = id := Option.some_inj.mp heq
        exact ⟨quoteHash, messageHash, hmem⟩
      | error e => exact absurd heq (by nofun)
    | _ => exact absurd heq (by nofun)

instance (h : List (Entry interface)) : Decidable (∃ id, Reserves h id) :=
  decidable_of_iff (∃ id ∈ reservations h, True) (by simp [reserves_iff])

/-- The request is an `execute`. -/
def Request.isExecute : Request → Bool
  | .execute _ _ _ _ => true
  | _ => false

/-- A reservation made by an `execute` that threw is held no more, or an execution that can
still be submitted or expired refers to it. -/
def AtomicOnError (p : FaultyPool) : Prop :=
  ∀ c ∈ p.calls, ∀ e id, c.request.isExecute = true → c.result? = some (.error e) →
    Reserves (c.history.map Entry.outside) id → p.shared.valid id = true →
      ∃ x ∈ p.shared.executions.rows, x.reservationId = some id ∧ x.CanProceed

/-- The call succeeds: the store does not fail, the key and the id of a new execution are free,
the approval engine takes the request, the execution is still in the state it is moved from. -/
def Completes (s : LiveStore) : (o : Op) → FaultyAns o → Prop
  | .create x _, a => a.1 = none ∧ s.byIdempotency x.idempotencyKey = none ∧
      s.executions.find? (a.2 : String × Int).1 = none
  | .requestApproval _ _ _ _, a => Except.isOk (a.2 : Except String Unit) = true
  | .transition id source _, a => a.1 = none ∧
      ∃ x, s.executions.find? id = some x ∧ x.state ∈ source
  | _, _ => True

instance decidableCompletes (s : LiveStore) (o : Op) (a : FaultyAns o) :
    Decidable (Completes s o a) := by
  unfold Completes; split <;> infer_instance

/-- Whatever `execute` calls after it has reserved succeeds. -/
def CompletesExecute (p : FaultyPool) : Event faultyInterface Request → Prop
  | .step t ans =>
    match p.calls[t]?, p.next? t with
    | some c, some o => c.request.isExecute = true →
      (∃ id, Reserves (c.history.map Entry.outside) id) → Completes p.shared o (ans o)
    | _, _ => True
  | _ => True

instance (p : FaultyPool) (e : Event faultyInterface Request) :
    Decidable (CompletesExecute p e) := by
  unfold CompletesExecute; split
  · rename_i t ans
    split
    · rename_i c o _ _
      haveI := decidableCompletes p.shared o (ans o)
      infer_instance
    · infer_instance
  · infer_instance

/-! ### What `execute` throws -/

/-- The answers that let `execute` go on. -/
def Succeeded : (o : Op) → o.Res → Prop
  | .create _ _, r | .transition _ _ _, r => ∃ x, (r : Except String Execution) = .ok x
  | .requestApproval _ _ _ _, r => (r : Except String Unit) = .ok ()
  | _, _ => True

/-- After an `execute` has reserved it relies on its calls to succeed. -/
def completing : Discipline interface (Trace interface Request) where
  upd := Trace.push
  pre _ _ := True
  adm v e := v.request.isExecute = true → (∃ id, Reserves v.history id) → Succeeded e.op e.res

/-- The call has made no reservation. -/
def Unreserved (v : Trace interface Request) : Prop := ∀ id, ¬ Reserves v.history id

section

variable {cfg : Config} {v : Trace interface Request}

theorem unreserved_start (r : Request) : Unreserved (.start r) := by
  rintro id ⟨quoteHash, messageHash, hmem⟩
  simp [Trace.start] at hmem

theorem Unreserved.push (h : Unreserved v) {e : Entry interface}
    (he : ∀ quoteHash messageHash id,
      e ≠ ⟨.reserve quoteHash messageHash, (.ok id : Except String String)⟩) :
    Unreserved (v.push e) := by
  rintro id ⟨quoteHash, messageHash, hmem⟩
  rcases List.mem_append.mp hmem with hmem | hmem
  · exact h id ⟨quoteHash, messageHash, hmem⟩
  · exact he quoteHash messageHash id (List.mem_singleton.mp hmem).symm

/-- A call before the reservation. -/
theorem Unreserved.push_of_op (h : Unreserved v) {o : Op} {r : o.Res}
    (ho : ∀ quoteHash messageHash, o ≠ .reserve quoteHash messageHash) :
    Unreserved (v.push (⟨o, r⟩ : Entry interface)) :=
  h.push fun quoteHash messageHash _ heq => ho quoteHash messageHash (congrArg Entry.op heq)

/-- An `execute` that has not reserved yet. -/
def Before (v : Trace interface Request) : Prop := v.request.isExecute = true ∧ Unreserved v

theorem Before.push_of_op (h : Before v) {o : Op} {r : o.Res}
    (ho : ∀ quoteHash messageHash, o ≠ .reserve quoteHash messageHash) :
    Before (v.push (⟨o, r⟩ : Entry interface)) :=
  ⟨h.1, h.2.push_of_op ho⟩

theorem simulated_ends (h : Before v) (q : Quote) :
    Task.Ends completing (fun w _ => Before w) (fun w _ => Unreserved w) (simulated q) v := by
  refine Task.ends_bind.mpr ⟨trivial, fun r _ => ?_⟩
  have hpush := h.push_of_op (r := r) (o := .simulate q) (by nofun)
  change Except String SimulationAnswer at r
  cases r with
  | error e => exact hpush.2
  | ok answer =>
    cases hrequest : q.request with
    | some request =>
      cases answer with
      | evidence e => exact hpush
      | plain success => exact hpush.2
    | none =>
      cases answer with
      | evidence e => exact hpush.2
      | plain success =>
        cases success with
        | true => exact hpush
        | false => exact hpush.2

theorem assessed_ends (h : Before v) (q : Quote) :
    Task.Ends completing (fun w _ => Before w) (fun w _ => Unreserved w) (assessed cfg q) v := by
  unfold assessed
  split
  · refine Task.ends_bind.mpr ⟨trivial, fun r _ => ?_⟩
    have hpush := h.push_of_op (r := r) (o := .assessRisk q) (by nofun)
    change Except String RiskVerdict at r
    cases r with
    | error e => exact hpush.2
    | ok verdict =>
      exact Task.ends_bind.mpr (Task.ends_ofExcept.mpr ⟨fun _ _ => hpush, fun _ _ => hpush.2⟩)
  · exact h

/-- A reservation that fails is none. -/
theorem reserved_ends (h : Before v) (q : Quote) (request : SimulationRequest) :
    Task.Ends completing (fun w _ => w.request.isExecute = true) (fun w _ => Unreserved w)
      (reserved cfg q request) v := by
  unfold reserved
  split
  · refine Task.ends_bind.mpr ⟨trivial, fun r _ => ?_⟩
    change Except String String at r
    cases r with
    | error e =>
      refine h.2.push fun quoteHash messageHash id heq => ?_
      cases (Entry.mk.inj heq).1
      exact absurd (eq_of_heq (Entry.mk.inj heq).2) (by nofun)
    | ok id => exact h.1
  · exact h.1

/-- The move of an execution; once it has reserved, `execute` relies on it to succeed. -/
theorem transition_ends (hexecute : v.request.isExecute = true) (id : String)
    (source : List TradeState) (patch : Patch) :
    Task.Ends completing (fun _ _ => True) (fun w _ => Unreserved w)
      (transition id source patch) v := by
  refine ⟨trivial, fun r hadm => ?_⟩
  change Except String Execution at r
  cases r with
  | ok x => trivial
  | error e =>
    -- it failed, so nothing was reserved
    have hunreserved : Unreserved v := by
      intro rid hrid
      obtain ⟨x, hx⟩ := hadm hexecute ⟨rid, hrid⟩
      exact absurd hx (by nofun)
    exact hunreserved.push_of_op (by nofun)

theorem awaitApproval_ends (hexecute : v.request.isExecute = true) (q : Quote)
    (evidence : SimulationEvidence) (actor : String) (x : Execution) :
    Task.Ends completing (fun _ _ => True) (fun w _ => Unreserved w)
      (awaitApproval cfg q evidence actor x) v := by
  unfold awaitApproval
  split
  · refine Task.ends_bind.mpr ?_
    unfold registerApproval
    split
    · refine ⟨trivial, fun r hadm => ?_⟩
      change Except String Unit at r
      cases r with
      | ok _ =>
        exact transition_ends (v := v.push _) hexecute _ _ _
      | error e =>
        have hunreserved : Unreserved v := fun rid hrid =>
          absurd (hadm hexecute ⟨rid, hrid⟩) (by nofun)
        exact hunreserved.push_of_op (by nofun)
    · exact transition_ends hexecute _ _ _
  · exact transition_ends hexecute _ _ _

theorem executeLive_ends (h : Before v) (q : Quote) (actor key : String)
    (evidence : Option SimulationEvidence) :
    Task.Ends completing (fun _ _ => True) (fun w _ => Unreserved w)
      (executeLive cfg q actor key evidence) v := by
  unfold executeLive
  refine Task.ends_bind.mpr (Task.ends_ofExcept.mpr ⟨fun request _ => ?_, fun _ _ => h.2⟩)
  refine Task.ends_bind.mpr (Task.ends_ofExcept.mpr ⟨fun e _ => ?_, fun _ _ => h.2⟩)
  refine Task.ends_bind.mpr (Task.ends_ofExcept.mpr ⟨fun _ _ => ?_, fun _ _ => h.2⟩)
  refine Task.ends_bind.mpr ⟨trivial, fun r _ => ?_⟩
  -- the checks before the reservation leave nothing behind
  have hpush := h.push_of_op (r := r) (o := .blockHeight) (by nofun)
  change Except String JsNumber at r
  cases r with
  | error e => exact hpush.2
  | ok height =>
    refine Task.ends_bind.mpr (Task.ends_ofExcept.mpr ⟨fun _ _ => ?_, fun _ _ => hpush.2⟩)
    refine Task.ends_bind.mpr ((assessed_ends hpush q).mono fun w risk hw => ?_)
    refine Task.ends_bind.mpr ((reserved_ends hw q request).mono fun u rid hu => ?_)
    refine Task.ends_bind.mpr ⟨trivial, fun r hadm => ?_⟩
    change Except String Execution at r
    cases r with
    | ok x =>
      exact awaitApproval_ends (v := u.push _) hu q e actor x
    | error msg =>
      -- the row of a reservation is always created
      have hunreserved : Unreserved u := by
        intro id hid
        obtain ⟨x, hx⟩ := hadm hu ⟨id, hid⟩
        exact absurd hx (by nofun)
      exact hunreserved.push_of_op (by nofun)

/-- What `execute` throws it throws before it has reserved, if what it calls afterwards
succeeds. -/
theorem execute_ends (h : Before v) (quoteId key actor : String) (dryRun : Bool) :
    Task.Ends completing (fun _ _ => True) (fun w _ => Unreserved w)
      (execute cfg quoteId key actor dryRun) v := by
  refine Task.ends_bind.mpr (Task.ends_total.mpr ⟨trivial, fun old _ => ?_⟩)
  have hold := h.push_of_op (r := old) (o := .byIdempotency key) (by nofun)
  change Option Execution at old
  cases old with
  -- a key that was used before
  | some x => trivial
  | none =>
    refine Task.ends_bind.mpr (Task.ends_ofExcept.mpr ⟨fun q _ => ?_, fun _ _ => hold.2⟩)
    refine Task.ends_bind.mpr (Task.ends_total.mpr ⟨trivial, fun at_ _ => ?_⟩)
    have hnow := hold.push_of_op (r := at_) (o := .now) (by nofun)
    refine Task.ends_bind.mpr (Task.ends_ofExcept.mpr ⟨fun _ _ => ?_, fun _ _ => hnow.2⟩)
    refine Task.ends_bind.mpr (Task.ends_ofExcept.mpr ⟨fun _ _ => ?_, fun _ _ => hnow.2⟩)
    refine Task.ends_bind.mpr ((simulated_ends hnow q).mono fun w evidence hw => ?_)
    split
    · refine ⟨trivial, fun r _ => ?_⟩
      change Except String Execution at r
      cases r with
      | ok x => trivial
      | error e => exact hw.2.push_of_op (by nofun)
    · exact executeLive_ends hw q actor key evidence

end

/-! ### Runs -/

/-- A call that ended in an error reserved nothing, if it is an `execute`. -/
def ThrowsUnreserved (v : Trace interface Request) (r : Except String Response) : Prop :=
  ∀ e, r = .error e → v.request.isExecute = true → Unreserved v

theorem serve_completing (cfg : Config) (r : Request) :
    Prog.Safe completing ThrowsUnreserved (serve cfg r).run (.start r) := by
  by_cases hexecute : r.isExecute = true
  · cases r with
    | execute quoteId key actor dryRun =>
      have hbefore : Before (.start (.execute quoteId key actor dryRun)) :=
        ⟨rfl, unreserved_start _⟩
      have hends : Task.Ends completing _ _ (execute cfg quoteId key actor dryRun) _ :=
        execute_ends hbefore quoteId key actor dryRun
      have hreply : Task.Ends completing (fun _ _ => True) (fun w _ => Unreserved w)
          (reply (execute cfg quoteId key actor dryRun)) _ :=
        Task.ends_bind.mpr (hends.mono fun _ _ _ => Task.ends_pure.mpr trivial)
      refine Prog.Safe.mono hreply fun w r hr => ?_
      cases r with
      | ok _ => exact fun e he => absurd he (by nofun)
      | error e => exact fun _ _ _ => hr
    | _ => exact absurd hexecute (by nofun)
  · refine ((Prog.safe_of_pre fun _ _ => trivial).preserves (f := Trace.request)
      fun _ _ => rfl).mono fun w a hw e _ hw' => ?_
    rw [hw.2] at hw'
    exact absurd hw' hexecute

/-- A call that completes succeeds. -/
theorem succeeded_of_completes {cfg : Config} {s : LiveStore} {o : Op} {a : FaultyAns o}
    (h : Completes s o a) : Succeeded o ((faulty cfg).handle o s a).1 := by
  cases o with
  | create x state =>
    obtain ⟨hup, hkey, hid⟩ := h
    cases hinsert : s.executions.insert? { x with
        id := (a.2 : String × Int).1, version := 0, state
        createdAt := (a.2 : String × Int).2, updatedAt := (a.2 : String × Int).2 } with
    | some executions =>
      simp only [Succeeded, faulty, hup, machine, LiveStore.create, hkey, hinsert]
      exact ⟨_, rfl⟩
    | none =>
      -- the id is free, so the row goes in
      have htaken := Table.insert?_eq_none_iff.mp hinsert
      simp [hid] at htaken
  | transition id source patch =>
    obtain ⟨hup, x, hx, hstate⟩ := h
    simp only [Succeeded, faulty, hup, machine, LiveStore.transition, hx, hstate]
    exact ⟨_, rfl⟩
  | requestApproval approvalId actor q evidence =>
    obtain ⟨down, answer⟩ := a
    change Except String Unit at answer
    cases answer with
    | ok _ => cases down <;> rfl
    | error e => cases h
  | _ => trivial

theorem view_completing (c : Call faultyInterface Request (Except String Response)) :
    c.view (completing.within FaultyAns) Trace.start =
      ⟨c.request, c.history.map Entry.outside⟩ :=
  Call.view_within_push rfl c

theorem completing_modular (cfg : Config) :
    Modular (faulty cfg) (fun r => (serve cfg r).run.within FaultyAns)
      (completing.within FaultyAns) Trace.start ThrowsUnreserved (fun _ => True)
      (fun _ _ => True) (fun _ _ => True) CompletesExecute where
  body_safe r := Prog.safe_within.mpr (serve_completing cfg r)
  symm _ _ h := h
  spawn _ _ _ _ := ⟨trivial, fun _ _ => trivial⟩
  call p t ans c o k hcond hct hrest _ _ _ := by
    refine ⟨fun hexecute hreserves => ?_, trivial, trivial⟩
    rw [view_completing] at hexecute hreserves
    have hcompletes : c.request.isExecute = true →
        (∃ id, Reserves (c.history.map Entry.outside) id) → Completes p.shared o (ans o) := by
      simpa only [CompletesExecute, hct, Pool.next?_eq hct hrest] using hcond
    exact succeeded_of_completes (hcompletes hexecute hreserves)
  frame _ _ _ _ _ _ _ _ _ _ := ⟨trivial, trivial⟩

/-- **`execute` is atomic on error** in every run in which what it calls after its reservation
succeeds: one that threw holds no reservation. -/
theorem execute_atomic_on_error (cfg : Config) (es : List (Event faultyInterface Request))
    (hmeets : Pool.Meets (faulty cfg) (fun r => (serve cfg r).run.within FaultyAns)
      CompletesExecute (Pool.start .empty) es) :
    ∀ before after, es = before ++ after → AtomicOnError (faultyRun cfg before) := by
  rintro before after rfl c hc e id hexecute hresult hreserves -
  have hcoherent := (completing_modular cfg).run (Pool.meets_append.mp hmeets).1
    (Modular.coherent_start trivial)
  have hthrows := hcoherent.safe_mem hc _ (Call.result?_eq_some.mp hresult) e rfl
  rw [view_completing] at hthrows
  exact absurd hreserves (hthrows hexecute id)

/-! ### Two calls with one idempotency key -/

/-- Another quote to spend 5 of `mint`. -/
def rivalQuote : Quote := { sampleQuote with id := "q2", quoteHash := "quote2" }

/-- Both quotes fit under the cap. -/
def rivalConfig : Config :=
  { sampleConfig with
    quotes := ⟨[sampleQuote, rivalQuote], by simp [sampleQuote, rivalQuote]⟩
    maxReservedPerToken := fun _ => some 10 }

/-- The collaborators answer as before and no store fails. -/
def soundAnswers (o : Op) : FaultyAns o := (none, sampleAnswers o)

/-- The simulator is out of reach. -/
def unsimulatedAnswers : (o : Op) → FaultyAns o
  | .simulate _ => (none, (.error "simulator unavailable" : Except String SimulationAnswer))
  | o => soundAnswers o

/-- Two executions are requested with the key `key`. Both find it free and reserve; then the
first one creates its execution, and the second one cannot. -/
def rivalEvents : List (Event faultyInterface Request) :=
  .spawn (.execute "q1" "key" "agent" false) :: .spawn (.execute "q2" "key" "agent" false) ::
    (List.replicate 5 (.step 0 soundAnswers) ++ List.replicate 5 (.step 1 soundAnswers) ++
      List.replicate 3 (.step 0 soundAnswers) ++ [.step 1 soundAnswers])

/-- The second `execute` throws, and 5 of `mint` stay reserved for no execution. -/
theorem reservation_left_behind : ¬ AtomicOnError (faultyRun rivalConfig rivalEvents) := by
  have hcall : ∃ c ∈ (faultyRun rivalConfig rivalEvents).calls,
      c.request.isExecute = true ∧
      c.result? = some (.error "UNIQUE constraint failed: executions.idempotency_key") ∧
      rivalConfig.spendId "quote2" "message" ∈ reservations (c.history.map Entry.outside) := by
    decide
  obtain ⟨c, hc, hexecute, hresult, hreserved⟩ := hcall
  have hheld : (faultyRun rivalConfig rivalEvents).shared.valid
      (rivalConfig.spendId "quote2" "message") = true := by decide
  have hnone : ¬ ∃ x ∈ (faultyRun rivalConfig rivalEvents).shared.executions.rows,
      x.reservationId = some (rivalConfig.spendId "quote2" "message") ∧ x.CanProceed := by
    decide
  exact fun h => hnone (h c hc _ _ hexecute hresult (reserves_iff.mpr hreserved) hheld)

/-- One `execute` completes, another one cannot simulate. -/
def completedEvents : List (Event faultyInterface Request) :=
  .spawn (.execute "q1" "key" "agent" false) :: .spawn (.execute "q2" "other" "agent" false) ::
    (List.replicate 5 (.step 0 soundAnswers) ++ List.replicate 3 (.step 1 unsimulatedAnswers) ++
      List.replicate 3 (.step 0 soundAnswers))

theorem execute_atomic_on_error_completed :
    AtomicOnError (faultyRun rivalConfig completedEvents) :=
  execute_atomic_on_error rivalConfig completedEvents (by decide) completedEvents []
    (List.append_nil _).symm

example : (faultyRun rivalConfig completedEvents).calls.map (Option.isSome ∘ Call.result?) =
    [true, true] := by decide

end AriOs.LiveTrading
