import AriOs.Agent.Runtime

/-!
# What the records of a tool call say

A call is recorded as started before it is dispatched. Read together, the records that the
caller's callback accepted should say what became of it: that it succeeded only if its dispatch
resolved, that it failed only if its dispatch rejected, and if neither is known that it has to be
reconciled.

One block of the source both dispatches a call and records its success, and its handler records
the failure, unless the run was aborted. So a success that could not be recorded is recorded as a
failure, and of a call that was under way when the run was aborted nothing is recorded at all.
-/

namespace AriOs.Agent

open AriOs.Async AriOs.Js

/-! ### The records of a run -/

/-- A call that was recorded as started: what its dispatch came to, and the later records. -/
structure Occurrence where
  call : ToolCall
  dispatched : Option (Settled JsValue)
  records : List LifecycleStatus

/-- Change the latest occurrence of the call with an id. -/
def amend (id : String) (f : Occurrence → Occurrence) : List Occurrence → List Occurrence
  | [] => []
  | o :: os => if o.call.id = id then f o :: os else o :: amend id f os

def Occurrence.record (status : LifecycleStatus) (o : Occurrence) : Occurrence :=
  { o with records := o.records ++ [status] }

/-- What one call of the environment adds; a record the callback throws at is not one. -/
def observe (os : List Occurrence) : Entry interface → List Occurrence
  | ⟨.persistToolLifecycle r, reply⟩ =>
    match reply.value, r.status with
    | .error _, _ | .ok (), .planned => os
    | .ok (), .started => ⟨r.call, none, []⟩ :: os
    | .ok (), status => amend r.call.id (Occurrence.record status) os
  | ⟨.dispatch call _, reply⟩ => amend call.id (fun o => { o with dispatched := some reply.value }) os
  | _ => os

/-- The calls recorded as started, the latest one first. -/
def occurrences (h : List (Entry interface)) : List Occurrence := h.foldl observe []

/-- The records of a call say what became of it. -/
structure Occurrence.Truthful (o : Occurrence) : Prop where
  succeeded : .succeeded ∈ o.records → ∃ result, o.dispatched = some (.resolved result)
  failed : .failed ∈ o.records →
    ∃ error, o.dispatched = some (.rejected error) ∨ o.dispatched = some (.threw error)
  reconciled : .succeeded ∉ o.records → .failed ∉ o.records → .reconciliationRequired ∈ o.records

/-- A dispatch settles before the run is aborted, and no abort comes together with its failure; a
record of its outcome is accepted. -/
def Recordable : Entry interface → Prop
  | ⟨.dispatch _ signal, reply⟩ => signal.aborted = false ∧
    match reply.value with
    | .resolved _ => True
    | .rejected _ | .threw _ => reply.interruptions = []
    | .interrupted _ => False
  | ⟨.persistToolLifecycle r, reply⟩ =>
    r.status = .succeeded ∨ r.status = .failed → reply.value = .ok ()
  | _ => True

/-- So far the records are truthful exactly if the answers were recordable. -/
def Even (h : List (Entry interface)) : Prop :=
  (∀ o ∈ occurrences h, o.Truthful) ↔ ∀ e ∈ h, Recordable e

theorem occurrences_append_singleton (h : List (Entry interface)) (e : Entry interface) :
    occurrences (h ++ [e]) = observe (occurrences h) e := by
  simp [occurrences]

/-- A call that is neither a dispatch nor a record of one. -/
def Quiet (e : Entry interface) : Prop := Recordable e ∧ ∀ os, observe os e = os

theorem Even.quiet {h : List (Entry interface)} {e : Entry interface} (heven : Even h)
    (he : Quiet e) : Even (h ++ [e]) := by
  unfold Even at *
  rw [occurrences_append_singleton, he.2, heven, List.forall_mem_append]
  simp [he.1]

/-- A call for a dispatch, or for a record of one. -/
def Op.Records : Op → Prop
  | .dispatch .. | .persistToolLifecycle _ => True
  | _ => False

theorem quiet_of_not_records {o : Op} (ho : ¬ o.Records) (reply : Reply o.Value) :
    Quiet ⟨o, reply⟩ := by
  cases o with
  | complete | classify | persistMessage | «yield» => exact ⟨trivial, fun _ => rfl⟩
  | dispatch | persistToolLifecycle => exact absurd trivial ho

/-! ### The parts of a run that record nothing -/

/-- A property of the calls of a run that quiet ones keep. -/
def Stable (P : List (Entry interface) → Prop) : Prop := ∀ h e, P h → Quiet e → P (h ++ [e])

theorem stable_even : Stable Even := fun _ _ heven he => heven.quiet he

section Stable

variable {runtime : AgentRuntime} {P : List (Entry interface) → Prop}

/-- The calls of a block keep a property. -/
abbrev KeepsCalls {α : Type} (P : List (Entry interface) → Prop) (x : Body α) : Prop :=
  x.Keeps (.recording interface) P

theorem keeps_callOut (hP : Stable P) {o : Op} (ho : ¬ o.Records) : KeepsCalls P (callOut o) :=
  Routine.keeps_ask fun h hh => ⟨trivial, fun reply => hP h _ hh (quiet_of_not_records ho reply)⟩

theorem keeps_orRaise {α : Type} (x : Except Thrown α) : KeepsCalls P (orRaise x) :=
  Routine.keeps_ofExcept _

theorem keeps_interrupt (is : List Interruption) : KeepsCalls P (interrupt is) :=
  Routine.keeps_assign _

theorem keeps_emit (hP : Stable P) (event : AgentEvent) : KeepsCalls P (emit event) := by
  refine (keeps_callOut hP id).bind fun reply => (keeps_interrupt _).bind fun _ => ?_
  cases reply.value with
  | next => exact Routine.keeps_pure _
  | returned => exact Routine.triple_throw _
  | threw error => exact Routine.triple_throw _

theorem keeps_complete (hP : Stable P) (index : Nat) : KeepsCalls P (complete index) :=
  Routine.keeps_locals.bind fun _ => (keeps_callOut hP id).bind
    fun _ => (keeps_interrupt _).bind fun _ => keeps_orRaise _

theorem keeps_classify (hP : Stable P) (name : String) : KeepsCalls P (classify name) :=
  (keeps_callOut hP id).bind fun _ => (keeps_interrupt _).bind fun _ => keeps_orRaise _

theorem keeps_persistMessage (hP : Stable P) (message : AgentMessage) :
    KeepsCalls P (persistMessage runtime message) := by
  unfold persistMessage
  split
  · exact (keeps_callOut hP id).bind fun _ => (keeps_interrupt _).bind fun _ => keeps_orRaise _
  · exact Routine.keeps_pure _

theorem keeps_onProviderError (hP : Stable P) (provider : String) (last : Bool) (stop : Stop) :
    KeepsCalls P (onProviderError provider last stop) := by
  cases stop with
  | returned => exact Routine.triple_throw _
  | threw error =>
    refine Routine.keeps_locals.bind fun l => ?_
    split
    · exact Routine.triple_throw _
    · refine (keeps_orRaise _).bind fun message => (keeps_emit hP _).bind fun _ => ?_
      split
      · exact Routine.triple_throw _
      · exact Routine.keeps_pure _

theorem keeps_requestModel (hP : Stable P) (iteration index : Nat) (providers : List String) :
    KeepsCalls P (requestModel iteration index providers) := by
  induction providers generalizing index with
  | nil => exact Routine.triple_throw _
  | cons provider providers ih =>
    refine (keeps_emit hP _).bind fun _ => ?_
    refine Routine.Triple.bind (Q := fun h _ => P h) ?_ fun response => ?_
    · refine Routine.Triple.tryCatch ?_ fun stop => keeps_onProviderError hP _ _ stop
      refine (keeps_complete hP _).bind fun value => (keeps_orRaise _).bind fun response => ?_
      exact (Routine.keeps_assign _).bind fun _ => (keeps_emit hP _).bind fun _ =>
        Routine.keeps_pure _
    · cases response with
      | some response => exact Routine.keeps_pure _
      | none => exact ih (index + 1)

variable {host : Host}

theorem keeps_validateCall (hP : Stable P) (seen : List String) (value : JsValue) :
    KeepsCalls P (validateCall host runtime seen value) := by
  unfold validateCall
  split
  · split
    · exact Routine.triple_throw _
    · refine (keeps_orRaise _).bind fun arguments => Routine.keeps_locals.bind fun l => ?_
      split
      · exact Routine.triple_throw _
      · refine (keeps_classify hP _).bind fun effect => ?_
        cases effect with
        | none => exact Routine.triple_throw _
        | some effect =>
          dsimp only
          split
          · exact Routine.triple_throw _
          · exact Routine.keeps_pure _
  · exact Routine.triple_throw _

theorem keeps_validateCalls (hP : Stable P) (seen : List String) (values : List JsValue) :
    KeepsCalls P (validateCalls host runtime seen values) := by
  induction values generalizing seen with
  | nil => exact Routine.keeps_pure _
  | cons value values ih =>
    exact (keeps_validateCall hP _ _).bind fun first => (ih _).bind fun rest => Routine.keeps_pure _

theorem keeps_report (hP : Stable P) (stop : Stop) : KeepsCalls P (report stop) := by
  cases stop with
  | returned => exact Routine.triple_throw _
  | threw error =>
    refine Routine.keeps_locals.bind fun l => ?_
    split
    · split
      · exact keeps_emit hP _
      · exact keeps_emit hP _
    · exact (keeps_orRaise _).bind fun message => keeps_emit hP _

end Stable

/-! ### One call -/

/-- A call was just recorded as started; the calls before it are even. -/
def Started (call : ToolCall) (h : List (Entry interface)) : Prop :=
  ∃ os, occurrences h = ⟨call, none, []⟩ :: os ∧
    ((∀ o ∈ os, o.Truthful) ↔ ∀ e ∈ h, Recordable e)

/-- The latest call was recorded as succeeded. -/
def Succeeded (id : String) (h : List (Entry interface)) : Prop :=
  Even h ∧ ∃ o os, occurrences h = o :: os ∧ o.call.id = id ∧ .succeeded ∈ o.records

theorem stable_succeeded (id : String) : Stable (Succeeded id) := by
  rintro h e ⟨heven, hlatest⟩ he
  refine ⟨heven.quiet he, ?_⟩
  rw [occurrences_append_singleton, he.2]
  exact hlatest

section Records

variable {call : ToolCall} {settled : Settled JsValue}

theorem not_truthful_of_nil {d : Option (Settled JsValue)} :
    ¬ (Occurrence.mk call d []).Truthful := by
  intro h
  simpa using h.reconciled

theorem truthful_succeeded_iff : (Occurrence.mk call (some settled) [.succeeded]).Truthful ↔
    ∃ result, settled = .resolved result := by
  constructor
  · intro h
    simpa using h.succeeded
  · rintro ⟨result, rfl⟩
    constructor <;> simp

theorem truthful_failed_iff : (Occurrence.mk call (some settled) [.failed]).Truthful ↔
    ∃ error, settled = .rejected error ∨ settled = .threw error := by
  constructor
  · intro h
    simpa using h.failed
  · intro h
    constructor
    · simp
    · intro _
      simpa using h
    · simp

/-- What was recorded before stays true when the call is also to be reconciled. -/
theorem truthful_reconciliation_iff {o : Occurrence} (h : .succeeded ∈ o.records) :
    (o.record .reconciliationRequired).Truthful ↔ o.Truthful := by
  constructor
  · intro ht
    refine ⟨fun _ => ht.succeeded (List.mem_append_left _ h), fun hf => ?_, fun hn => absurd h hn⟩
    exact ht.failed (List.mem_append_left _ hf)
  · intro ht
    refine ⟨fun _ => ht.succeeded h, fun hf => ht.failed ?_, fun hn => ?_⟩
    · simpa [Occurrence.record] using hf
    · exact absurd (List.mem_append_left _ h) hn

end Records

/-- The calls of a block, where they come to one more occurrence. -/
theorem even_append {h new : List (Entry interface)} {o : Occurrence} {call : ToolCall}
    {os : List Occurrence} (hocc : occurrences h = ⟨call, none, []⟩ :: os)
    (heven : (∀ o ∈ os, o.Truthful) ↔ ∀ e ∈ h, Recordable e)
    (hnew : new.foldl observe (⟨call, none, []⟩ :: os) = o :: os)
    (ho : o.Truthful ↔ ∀ e ∈ new, Recordable e) : Even (h ++ new) := by
  have happend : occurrences (h ++ new) = o :: os := by
    rw [occurrences, List.foldl_append]
    exact (congrArg (fun os => new.foldl observe os) hocc).trans hnew
  unfold Even
  rw [happend, List.forall_mem_cons, List.forall_mem_append, ho, heven, and_comm]

section Call

variable {runtime : AgentRuntime} {α : Type} {Q : List (Entry interface) → Locals → α → Prop}
  {E : List (Entry interface) → Locals → Stop → Prop} {h : List (Entry interface)} {l : Locals}

/-- A dispatch is one call, answered with what is awaited. -/
theorem ends_dispatch {Q : List (Entry interface) → Locals → JsValue → Prop} {call : ToolCall} :
    (dispatch call).Ends (.recording interface) Q E h l ↔ ∀ reply : Reply (Settled JsValue),
      let h' := h ++ [⟨.dispatch call l.signal, reply⟩]
      let l' := l.interrupted (reply.value.interruptions ++ reply.interruptions)
      (∀ result, abortable l.signal reply.value = .ok result → Q h' l' result) ∧
        ∀ error, abortable l.signal reply.value = .error error → E h' l' (.threw error) := by
  simp only [dispatch, Routine.ends_bind, Routine.ends_locals]
  constructor
  · intro hends reply
    exact (ends_orRaise (D := .recording interface)).mp (hends.2 reply trivial)
  · intro hends
    exact ⟨trivial, fun reply _ => (ends_orRaise (D := .recording interface)).mpr (hends reply)⟩

/-- A record is one call, which is accepted or throws. -/
theorem ends_persistToolLifecycle {Q : List (Entry interface) → Locals → Unit → Prop}
    (hpersist : runtime.persistToolLifecycle = true) {r : LifecycleRecord} :
    (persistToolLifecycle runtime r).Ends (.recording interface) Q E h l ↔
      ∀ reply : Reply (Except Thrown Unit),
        let h' := h ++ [⟨.persistToolLifecycle r, reply⟩]
        let l' := l.interrupted reply.interruptions
        (reply.value = .ok () → Q h' l' ()) ∧
          ∀ error, reply.value = .error error → E h' l' (.threw error) := by
  simp only [persistToolLifecycle, hpersist, if_true, Routine.ends_bind]
  constructor
  · intro hends reply
    obtain ⟨hok, herror⟩ := (ends_orRaise (D := .recording interface)).mp (hends.2 reply trivial)
    exact ⟨hok (), herror⟩
  · intro hends
    exact ⟨trivial, fun reply _ => (ends_orRaise (D := .recording interface)).mpr
      ⟨fun _ => (hends reply).1, (hends reply).2⟩⟩

variable {v : ValidatedCall} {os : List Occurrence} {signal : Signal}
  {reply : Reply (Settled JsValue)}

/-- Where a call's dispatch is the last thing seen and nothing is recorded of it, the run was
aborted, so the dispatch was not recordable. -/
theorem even_of_aborted {call : ToolCall} (hocc : occurrences h = ⟨call, none, []⟩ :: os)
    (heven : (∀ o ∈ os, o.Truthful) ↔ ∀ e ∈ h, Recordable e)
    (haborted : ¬ Recordable ⟨.dispatch call signal, reply⟩) :
    Even (h ++ [⟨.dispatch call signal, reply⟩]) := by
  refine even_append hocc heven (o := ⟨call, some reply.value, []⟩) ?_ ?_
  · simp [observe, amend]
  · simp [not_truthful_of_nil, haborted]

/-- After the dispatch a record of its outcome follows. -/
theorem even_of_recorded {r : LifecycleRecord} {stored : Reply (Except Thrown Unit)}
    (hocc : occurrences h = ⟨r.call, none, []⟩ :: os)
    (heven : (∀ o ∈ os, o.Truthful) ↔ ∀ e ∈ h, Recordable e)
    (hstatus : r.status = .succeeded ∨ r.status = .failed)
    (hrecords : stored.value = .ok () →
      ((Occurrence.mk r.call (some reply.value) [r.status]).Truthful ↔
        Recordable ⟨.dispatch r.call signal, reply⟩)) :
    Even (h ++ [⟨.dispatch r.call signal, reply⟩] ++ [⟨.persistToolLifecycle r, stored⟩]) := by
  rw [List.append_assoc]
  cases hstored : stored.value with
  | error error =>
    -- the callback threw: nothing is recorded of the outcome
    refine even_append hocc heven (o := ⟨r.call, some reply.value, []⟩) ?_ ?_
    · simp [observe, amend, hstored]
    · simp [not_truthful_of_nil, Recordable, hstored, hstatus]
  | ok u =>
    refine even_append hocc heven (o := ⟨r.call, some reply.value, [r.status]⟩) ?_ ?_
    · rcases hstatus with hs | hs <;> simp [observe, amend, hstored, hs, Occurrence.record]
    · have hrecordable : Recordable ⟨.persistToolLifecycle r, stored⟩ := fun _ => hstored
      simp [hrecords hstored, hrecordable]

/-- The outcome of a dispatch is known, unless the run is aborted by then. -/
theorem recordable_dispatch_iff {call : ToolCall} : Recordable ⟨.dispatch call signal, reply⟩ ↔
    (∃ result, abortable signal reply.value = .ok result) ∨
      (signal.aborted || !(reply.value.interruptions ++ reply.interruptions).isEmpty) = false := by
  obtain ⟨reason, timedOut⟩ := signal
  obtain ⟨value, is⟩ := reply
  cases value <;> cases reason <;> simp [Recordable, abortable, Signal.aborted,
    Settled.interruptions]

/-- What throws without an abort is the dispatch. -/
theorem failed_of_abortable {α : Type} {settled : Settled α} {is : List Interruption}
    {error : Thrown} (herror : abortable signal settled = .error error)
    (haborted : (signal.aborted || !(settled.interruptions ++ is).isEmpty) = false) :
    ∃ error, settled = .rejected error ∨ settled = .threw error := by
  obtain ⟨hsignal, his⟩ := Bool.or_eq_false_iff.mp haborted
  rw [Signal.aborted, Option.isSome_eq_false_iff, Option.isNone_iff_eq_none] at hsignal
  cases settled with
  | threw error => exact ⟨error, .inr rfl⟩
  | rejected error => exact ⟨error, .inl rfl⟩
  | resolved value => simp [abortable, hsignal] at herror
  | interrupted first => simp [Settled.interruptions] at his

/-- The handler leaves with what is known if the run is aborted, and records a failure if not. -/
theorem onDispatchError_ends (hpersist : runtime.persistToolLifecycle = true) {error : Thrown}
    {Q : List (Entry interface) → Locals → JsValue → Prop}
    (haborted : l.signal.aborted = true → Even h)
    (hfailed : l.signal.aborted = false → ∀ stored, Even (h ++
      [⟨.persistToolLifecycle { recordOf .failed v.call with error := some error }, stored⟩])) :
    (onDispatchError runtime v (.threw error)).Ends (.recording interface) Q
      (fun h _ _ => Even h) h l := by
  rw [onDispatchError, Routine.ends_bind, Routine.ends_locals]
  cases hsignal : l.signal.aborted with
  | true => exact haborted hsignal
  | false =>
    rw [Bool.not_false, if_pos rfl, Routine.ends_bind, ends_persistToolLifecycle hpersist]
    intro stored
    exact ⟨fun _ => hfailed hsignal stored, fun _ _ => hfailed hsignal stored⟩

/-- A success that could not be recorded: neither what follows it, nor a failure recorded in its
place, says what became of the call. -/
theorem even_of_unrecorded {call : ToolCall} {r : LifecycleRecord} {error : Thrown}
    {is : List Interruption} {after : List (Entry interface)} {o : Occurrence}
    (hocc : occurrences h = ⟨call, none, []⟩ :: os)
    (heven : (∀ o ∈ os, o.Truthful) ↔ ∀ e ∈ h, Recordable e) (hr : r.status = .succeeded)
    (hafter : after.foldl observe (⟨call, some reply.value, []⟩ :: os) = o :: os)
    (ho : ¬ o.Truthful) :
    Even (h ++ (⟨.dispatch call signal, reply⟩ ::
      ⟨.persistToolLifecycle r, ⟨.error error, is⟩⟩ :: after)) := by
  refine even_append hocc heven (o := o) ?_ ?_
  · simpa [observe, amend] using hafter
  · have hnot : ¬ Recordable ⟨.persistToolLifecycle r, ⟨.error error, is⟩⟩ := by
      simp [Recordable, hr]
    simp [ho, hnot]

/-- The block that dispatches leaves the calls even, and returns only once a success is recorded. -/
theorem dispatchTool_spec (hpersist : runtime.persistToolLifecycle = true) :
    (dispatchTool runtime v).Triple (.recording interface) (Started v.call)
      (fun h _ => Succeeded v.call.id h) Even := by
  rintro h l ⟨os, hocc, heven⟩
  rw [dispatchTool, Routine.ends_tryCatch, Routine.ends_bind, ends_dispatch]
  intro reply
  refine ⟨fun result hresult => ?_, fun error herror => ?_⟩
  · have hrecordable : Recordable ⟨.dispatch v.call l.signal, reply⟩ :=
      recordable_dispatch_iff.mpr (.inl ⟨result, hresult⟩)
    have hresolved : reply.value = .resolved result := by
      cases hv : reply.value <;> cases hs : l.signal.reason <;> simp_all [abortable]
    rw [Routine.ends_bind, Routine.ends_assign, Routine.ends_bind,
      ends_persistToolLifecycle hpersist]
    intro stored
    refine ⟨fun hok => ⟨?_, ⟨v.call, some reply.value, [.succeeded]⟩, os, ?_, rfl, by simp⟩,
      fun error herror => ?_⟩
    · refine even_of_recorded (r := { recordOf .succeeded v.call with result := some result })
        hocc heven (.inl rfl) fun _ => ?_
      simp [truthful_succeeded_iff, hresolved, recordOf, hrecordable]
    · rw [occurrences_append_singleton, occurrences_append_singleton, hocc]
      simp [observe, amend, hok, Occurrence.record, recordOf]
    · -- the callback threw at the success, and the handler of the same block takes over
      obtain ⟨_, is⟩ := stored
      subst herror
      refine onDispatchError_ends hpersist (fun _ => ?_) fun _ failed => ?_
      · rw [List.append_assoc]
        refine even_of_unrecorded (o := ⟨v.call, some reply.value, []⟩) hocc heven rfl ?_
          not_truthful_of_nil
        rfl
      · rw [List.append_assoc, List.append_assoc]
        cases hfailed : failed.value with
        | error error =>
          refine even_of_unrecorded (o := ⟨v.call, some reply.value, []⟩) hocc heven rfl ?_
            not_truthful_of_nil
          simp [observe, hfailed]
        | ok u =>
          refine even_of_unrecorded (o := ⟨v.call, some reply.value, [.failed]⟩) hocc heven rfl ?_ ?_
          · simp [observe, amend, hfailed, recordOf, Occurrence.record]
          · simp [truthful_failed_iff, hresolved]
  · have hsignal : (l.interrupted (reply.value.interruptions ++ reply.interruptions)).signal.aborted =
        (l.signal.aborted || !(reply.value.interruptions ++ reply.interruptions).isEmpty) :=
      aborted_foldl _ _
    have hiff : Recordable ⟨.dispatch v.call l.signal, reply⟩ ↔ _ := recordable_dispatch_iff
    rw [← hsignal, herror] at hiff
    refine onDispatchError_ends hpersist (fun haborted => ?_) fun haborted stored => ?_
    · exact even_of_aborted hocc heven (by simp [hiff, haborted])
    · refine even_of_recorded
        (r := { recordOf .failed v.call with error := some error }) hocc heven (.inr rfl) fun _ => ?_
      have hrecordable := hiff.mpr (.inr haborted)
      have hfailed := failed_of_abortable herror (hsignal.symm.trans haborted)
      simp [truthful_failed_iff, recordOf, hrecordable, hfailed]

/-- A record that is neither of a start nor of an outcome is quiet. -/
theorem quiet_of_planned {r : LifecycleRecord} (hr : r.status = .planned)
    (stored : Reply (Except Thrown Unit)) : Quiet ⟨.persistToolLifecycle r, stored⟩ := by
  refine ⟨by simp [Recordable, hr], fun os => ?_⟩
  cases hstored : stored.value <;> simp [observe, hr, hstored]

/-- A start that the callback throws at is not recorded. -/
theorem quiet_of_rejected {r : LifecycleRecord} {stored : Reply (Except Thrown Unit)}
    {error : Thrown}
    (hr : r.status ≠ .succeeded ∧ r.status ≠ .failed) (hstored : stored.value = .error error) :
    Quiet ⟨.persistToolLifecycle r, stored⟩ :=
  ⟨by simp [Recordable, hr], fun os => by simp [observe, hstored]⟩

theorem persist_planned (hpersist : runtime.persistToolLifecycle = true) {call : ToolCall} :
    KeepsCalls Even (persistToolLifecycle runtime (recordOf .planned call)) := fun _ _ heven =>
  (ends_persistToolLifecycle hpersist).mpr fun stored =>
    ⟨fun _ => heven.quiet (quiet_of_planned rfl stored),
      fun _ _ => heven.quiet (quiet_of_planned rfl stored)⟩

theorem persist_started (hpersist : runtime.persistToolLifecycle = true) {call : ToolCall} :
    (persistToolLifecycle runtime (recordOf .started call)).Triple (.recording interface) Even
      (fun h _ => Started call h) Even := fun h _ heven =>
  (ends_persistToolLifecycle hpersist).mpr fun stored => by
    refine ⟨fun hok => ⟨occurrences h, ?_, ?_⟩, fun error herror => ?_⟩
    · rw [occurrences_append_singleton]
      simp [observe, hok, recordOf]
    · have hrecordable : Recordable ⟨.persistToolLifecycle (recordOf .started call), stored⟩ := by
        simp [Recordable, recordOf]
      rw [show (∀ o ∈ occurrences h, o.Truthful) ↔ _ from heven, List.forall_mem_append]
      simp [hrecordable]
    · exact heven.quiet (quiet_of_rejected (by simp [recordOf]) herror)

/-- After a success the call may also be recorded as one to be reconciled. -/
theorem persist_reconciliation (hpersist : runtime.persistToolLifecycle = true)
    {r : LifecycleRecord} (hr : r.status = .reconciliationRequired) :
    (persistToolLifecycle runtime r).Triple (.recording interface) (Succeeded r.call.id)
      (fun h _ => Even h) Even := by
  rintro h l ⟨heven, o, os, hocc, hid, hsucceeded⟩
  rw [ends_persistToolLifecycle hpersist]
  intro stored
  refine ⟨fun hok => ?_, fun error herror => heven.quiet (quiet_of_rejected (by simp [hr]) herror)⟩
  have hrecordable : Recordable ⟨.persistToolLifecycle r, stored⟩ := by simp [Recordable, hr]
  have happend : occurrences (h ++ [⟨.persistToolLifecycle r, stored⟩]) =
      o.record .reconciliationRequired :: os := by
    rw [occurrences_append_singleton, hocc]
    simp [observe, hok, hr, amend, hid]
  have hiff : (∀ o ∈ occurrences h, o.Truthful) ↔ ∀ e ∈ h, Recordable e := heven
  change (∀ o ∈ occurrences (h ++ [_]), o.Truthful) ↔ _
  rw [happend, List.forall_mem_cons, truthful_reconciliation_iff hsucceeded, ← List.forall_mem_cons,
    ← hocc, hiff, List.forall_mem_append]
  simp [hrecordable]

variable {host : Host}

theorem storeResult_spec (hpersist : runtime.persistToolLifecycle = true) {result : JsValue} :
    (storeResult host runtime v result).Triple (.recording interface) (Succeeded v.call.id)
      (fun h _ => Even h) Even := by
  have hsub : ∀ h, Succeeded v.call.id h → Even h := fun h hs => hs.1
  refine Routine.Triple.bind (Q := fun h _ => Succeeded v.call.id h)
    ((keeps_orRaise _).weaken (fun _ => id) (fun _ _ => id) hsub) fun content => ?_
  refine Routine.Triple.tryCatch (F := Succeeded v.call.id) ?_ fun stop => ?_
  · have hstore : KeepsCalls (Succeeded v.call.id) (persistMessage runtime _) :=
      keeps_persistMessage (stable_succeeded v.call.id) (.tool content v.call.id v.call.name)
    exact (hstore.bind fun _ => Routine.keeps_assign _).weaken (fun _ => id) (fun h _ => hsub h)
      fun _ => id
  · cases stop with
    | returned => exact (Routine.triple_throw _).weaken (fun _ => id) (fun _ _ => id) hsub
    | threw error =>
      exact (persist_reconciliation hpersist (r := { recordOf .reconciliationRequired v.call with
        result := some result, error := some error }) rfl).bind fun _ => Routine.triple_throw _

theorem runTool_spec (hpersist : runtime.persistToolLifecycle = true) :
    KeepsCalls Even (runTool host runtime v) := by
  refine (Routine.keeps_assign _).bind fun _ => (persist_planned hpersist).bind fun _ => ?_
  refine (keeps_emit stable_even _).bind fun _ => (persist_started hpersist).bind fun _ => ?_
  refine (dispatchTool_spec hpersist).bind fun result => ?_
  have hcompleted := (keeps_emit (stable_succeeded v.call.id) (.toolCompleted v.call result)).weaken
    (fun _ => id) (fun _ _ => id) fun _ hs => hs.1
  exact hcompleted.bind fun _ => storeResult_spec hpersist

end Call

/-! ### A whole run -/

section Run

variable {host : Host} {runtime : AgentRuntime} {P : List (Entry interface) → Prop}

theorem keeps_runTools (htool : ∀ v, KeepsCalls P (runTool host runtime v))
    (vs : List ValidatedCall) : KeepsCalls P (runTools host runtime vs) := by
  induction vs with
  | nil => exact Routine.keeps_pure _
  | cons v vs ih => exact (htool v).bind fun _ => ih

theorem keeps_iterate (hP : Stable P) (htool : ∀ v, KeepsCalls P (runTool host runtime v))
    (iterations : List Nat) : KeepsCalls P (iterate host runtime iterations) := by
  induction iterations with
  | nil => exact Routine.triple_throw _
  | cons iteration rest ih =>
    refine Routine.keeps_locals.bind fun l => ?_
    cases l.signal.reason with
    | some reason => exact Routine.triple_throw _
    | none =>
      refine (keeps_emit hP _).bind fun _ => Routine.keeps_locals.bind fun l => ?_
      refine (keeps_requestModel hP _ _ _).bind fun response => Routine.keeps_locals.bind fun l => ?_
      split
      · exact (keeps_persistMessage hP _).bind fun _ => keeps_emit hP _
      split
      · exact Routine.triple_throw _
      split
      · exact Routine.triple_throw _
      split
      · exact Routine.triple_throw _
      refine (keeps_validateCalls hP _ _).bind fun vs => (keeps_persistMessage hP _).bind fun _ => ?_
      exact (Routine.keeps_assign _).bind fun _ => (keeps_runTools htool vs).bind fun _ => ih

theorem keeps_run (hP : Stable P) (htool : ∀ v, KeepsCalls P (runTool host runtime v)) :
    KeepsCalls P (run host runtime) :=
  (keeps_emit hP _).bind fun _ =>
    (keeps_iterate hP htool _).tryCatch fun stop => keeps_report hP stop

/-- What the calls of a run start with and keep, they have at its end. -/
theorem transcript_of_keeps (h : KeepsCalls P (run host runtime)) (hnil : P []) (input : RunInput)
    (env : Environment interface) : P (transcript host runtime input env) := by
  obtain ⟨⟨r, l⟩, hends⟩ := Prog.Safe.transcript (h [] (.start input) hnil) env
  cases r with
  | ok u => exact hends
  | error stop => exact hends

/-- Without a callback nothing is recorded. -/
theorem runTool_unrecorded (hpersist : runtime.persistToolLifecycle = false) (v : ValidatedCall) :
    KeepsCalls (fun h => occurrences h = []) (runTool host runtime v) := by
  -- the callbacks other than the recording one leave the records as they are
  have hstable : Stable fun h => occurrences h = [] := by
    intro h e hocc he
    rw [occurrences_append_singleton, he.2, hocc]
  have hpersist' : ∀ r, KeepsCalls (fun h => occurrences h = []) (persistToolLifecycle runtime r) := by
    intro r
    rw [persistToolLifecycle, hpersist, if_neg Bool.false_ne_true]
    exact Routine.keeps_pure _
  have hdispatch : KeepsCalls (fun h => occurrences h = []) (dispatch v.call) := by
    refine Routine.keeps_locals.bind fun l => Routine.Triple.bind (Q := fun h _ => occurrences h = [])
      (Routine.keeps_ask fun h hocc => ⟨trivial, fun reply => ?_⟩) fun reply =>
        (keeps_interrupt _).bind fun _ => keeps_orRaise _
    change occurrences (h ++ [_]) = []
    rw [occurrences_append_singleton, hocc]
    rfl
  refine (Routine.keeps_assign _).bind fun _ => (hpersist' _).bind fun _ => ?_
  refine (keeps_emit hstable _).bind fun _ => (hpersist' _).bind fun _ => ?_
  refine Routine.Triple.bind (Q := fun h _ => occurrences h = []) ?_ fun result => ?_
  · refine Routine.Triple.tryCatch (F := fun h => occurrences h = []) ?_ fun stop => ?_
    · exact hdispatch.bind fun _ => (Routine.keeps_assign _).bind fun _ => (hpersist' _).bind fun _ =>
        Routine.keeps_pure _
    · -- a tool that throws is recorded too, so the recording is skipped there as well
      cases stop with
      | returned => exact Routine.triple_throw _
      | threw error =>
        refine Routine.keeps_locals.bind fun l => ?_
        split
        · exact (hpersist' _).bind fun _ => Routine.triple_throw _
        · exact Routine.triple_throw _
  · refine (keeps_emit hstable _).bind fun _ => (keeps_orRaise _).bind fun content => ?_
    refine Routine.Triple.tryCatch
      ((keeps_persistMessage hstable _).bind fun _ => Routine.keeps_assign _) fun stop => ?_
    cases stop with
    | returned => exact Routine.triple_throw _
    | threw error => exact (hpersist' _).bind fun _ => Routine.triple_throw _

end Run

/-- The records of a run are truthful and complete exactly if, where there is a callback to record
with, no abort comes before a dispatch settles or together with its failure, and the callback
accepts the record of the outcome. -/
theorem truthful_iff (host : Host) (runtime : AgentRuntime) (input : RunInput)
    (env : Environment interface) :
    (∀ o ∈ occurrences (transcript host runtime input env), o.Truthful) ↔
      (runtime.persistToolLifecycle = true →
        ∀ e ∈ transcript host runtime input env, Recordable e) := by
  cases hpersist : runtime.persistToolLifecycle with
  | true =>
    have heven : Even (transcript host runtime input env) :=
      transcript_of_keeps (keeps_run stable_even fun v => runTool_spec hpersist)
        (by simp [Even, occurrences]) input env
    exact heven.trans ⟨fun h _ => h, fun h => h rfl⟩
  | false =>
    have hnone : occurrences (transcript host runtime input env) = [] := by
      refine transcript_of_keeps (keeps_run (fun h e hocc he => ?_) (runTool_unrecorded hpersist))
        rfl input env
      rw [occurrences_append_singleton, he.2, hocc]
    simp [hnone]

/-! ### Two runs that are not -/

section Sample

def sampleHost : Host := ⟨⟨id, fun _ => "1"⟩, fun a b => a ≤ b, .ok "undefined"⟩

def sampleCall : ToolCall := ⟨"x", "read", .object []⟩

def sampleResponse : JsValue :=
  .object [("message", .object [("role", .string "assistant"), ("content", .string ""),
    ("toolCalls", .array [.object [("id", .string sampleCall.id), ("name", .string sampleCall.name),
      ("arguments", sampleCall.arguments)]])])]

/-- The model calls one tool; the dispatch comes to `dispatched`, and the callback throws at the
record of a success. -/
def sampleEnvironment (dispatched : Settled JsValue) : Environment interface
  | _, .complete .. => ⟨.resolved sampleResponse, []⟩
  | _, .classify _ => ⟨.ok (some .read), []⟩
  | _, .dispatch .. => ⟨dispatched, []⟩
  | _, .persistMessage _ => ⟨.ok (), []⟩
  | _, .persistToolLifecycle r =>
    ⟨if r.status = .succeeded then .error (.other "db") else .ok (), []⟩
  | _, .yield _ => ⟨.next, []⟩

def sampleOccurrences (dispatched : Settled JsValue) : List Occurrence :=
  occurrences (transcript sampleHost sampleRuntime ⟨[.user "hi"], none⟩
    (sampleEnvironment dispatched))

/-- A tool that succeeded is recorded as failed, and of one that was under way when the run was
cancelled nothing is recorded. -/
theorem resolved_call_recorded_as_failed :
    sampleOccurrences (.resolved .null) = [⟨sampleCall, some (.resolved .null), [.failed]⟩] ∧
      sampleOccurrences (.interrupted (.cancel (.other "stop"))) =
        [⟨sampleCall, some (.interrupted (.cancel (.other "stop"))), []⟩] ∧
      ¬ (∀ o ∈ sampleOccurrences (.resolved .null), o.Truthful) ∧
      ¬ ∀ o ∈ sampleOccurrences (.interrupted (.cancel (.other "stop"))), o.Truthful := by
  have hresolved : sampleOccurrences (.resolved .null) =
      [⟨sampleCall, some (.resolved .null), [.failed]⟩] := by rfl
  have hcancelled : sampleOccurrences (.interrupted (.cancel (.other "stop"))) =
      [⟨sampleCall, some (.interrupted (.cancel (.other "stop"))), []⟩] := by rfl
  refine ⟨hresolved, hcancelled, fun h => ?_, fun h => ?_⟩
  · rw [hresolved] at h
    simpa using (h _ List.mem_cons_self).failed
  · rw [hcancelled] at h
    simpa using (h _ List.mem_cons_self).reconciled

end Sample

end AriOs.Agent
