import AriOs.Agent.Runtime
import AriOs.Async.Monitor

/-!
# What a run may spend

A run is limited in how many calls it dispatches and in how often it repeats one, dispatches only
tools that read or propose, stays with one provider once something was proposed, and reports how it
ended. The limits are checked against a whole response before any of its calls is dispatched.

The check against repetition looks each call up among those of the earlier responses only. So a
response may ask for one call more often than the limit allows, as long as each has its own id. And
what is thrown by a callback is reported by its text, which a value need not have.
-/

namespace AriOs.Agent

open AriOs.Async AriOs.Js AriOs.Storage

/-! ### What a run has done -/

/-- What a run has done so far. `proposals` are the tools that were classified as proposals since
the last model was asked, and `locked` is the provider asked last when one was dispatched first. -/
structure Progress where
  dispatched : List ToolCall
  effectOf : String → Option ToolEffect
  provider : Option Nat
  proposals : List String
  locked : Option Nat

def Progress.start : Progress := ⟨[], fun _ => none, none, [], none⟩

/-- What one call adds. -/
def Progress.note (p : Progress) : Entry interface → Progress
  | ⟨.complete index _ _, _⟩ => { p with provider := some index, proposals := [] }
  | ⟨.classify name, reply⟩ =>
    match reply.value with
    | .error _ => p
    | .ok effect => { p with
        effectOf := fun n => if n = name then effect else p.effectOf n
        proposals := if effect = some .proposal then name :: p.proposals else p.proposals }
  | ⟨.dispatch call _, _⟩ => { p with
      dispatched := p.dispatched ++ [call]
      locked := if call.name ∈ p.proposals then p.locked.or p.provider else p.locked }
  | _ => p

def progress (h : List (Entry interface)) : Progress := h.foldl Progress.note .start

/-- A call of a tool with arguments of a given text. -/
def sameCall (host : Host) (name text : String) (call : ToolCall) : Bool :=
  call.name = name && (stableStringify host call.arguments).toOption = some text

/-- How many calls there are of a tool with arguments of a given text. -/
def callCount (host : Host) (name text : String) (calls : List ToolCall) : Nat :=
  calls.countP (sameCall host name text)

/-- The event a run ends with. -/
def AgentEvent.terminal : AgentEvent → Bool
  | .runCompleted .. | .runFailed .. | .runCancelled _ => true
  | _ => false

def terminal : Entry interface → Bool
  | ⟨.yield event, _⟩ => event.terminal
  | _ => false

/-- A run that has ended with a terminal event, the only one. -/
def Ended (h : List (Entry interface)) : Prop :=
  ∃ before e, h = before ++ [e] ∧ terminal e = true ∧ ∀ e ∈ before, terminal e = false

/-- A call is dispatched of a tool that only reads or proposes and whose name is not denied, while
calls are left; a provider is asked only if no other one has to be asked. -/
def Allowed (runtime : AgentRuntime) (h : List (Entry interface)) : Op → Prop
  | .dispatch call _ =>
    (progress h).dispatched.length < runtime.maxToolCalls ∧
      ((progress h).effectOf call.name = some .read ∨
        (progress h).effectOf call.name = some .proposal) ∧ deniedTool call.name = false
  | .complete index _ _ => ∀ i, (progress h).locked = some i → index = i
  | _ => True

/-- What a run keeps to. -/
structure Budgeted (host : Host) (runtime : AgentRuntime) (h : List (Entry interface)) : Prop where
  tools : (progress h).dispatched.length ≤ runtime.maxToolCalls
  repeats : ∀ name text,
    callCount host name text (progress h).dispatched ≤ runtime.maxRepeatedToolCalls
  calls : Each (fun before e => Allowed runtime before e.op) h
  terminal : Ended h

/-! ### The conditions on the answers -/

/-- A call of a response, unless it is malformed or the tool is denied. -/
def requestedCall (seen : List String) (value : JsValue) : Option ToolCall :=
  match value.field "id", value.field "name" with
  | .string id, .string name =>
    if isBlank id || id ∈ seen || isBlank name || deniedTool name then none
    else some { id, name, arguments := value.field "arguments" }
  | _, _ => none

def requestedCalls : List String → List JsValue → Option (List ToolCall)
  | _, [] => some []
  | seen, value :: values => do
    let call ← requestedCall seen value
    let calls ← requestedCalls (call.id :: seen) values
    some (call :: calls)

/-- With the calls dispatched before, those asked for are not too many of one kind, unless as many
were dispatched already. -/
def Within (host : Host) (runtime : AgentRuntime) (dispatched calls : List ToolCall) : Prop :=
  ∀ name text,
    callCount host name text dispatched + callCount host name text calls ≤
        runtime.maxRepeatedToolCalls ∨
      runtime.maxRepeatedToolCalls ≤ callCount host name text dispatched

/-- The calls a response asks for are within the limit, unless they are refused in any case: all
are too many, one of them is malformed or denied, or there are no tools. -/
def Fits (host : Host) (runtime : AgentRuntime) (before : List (Entry interface)) :
    Entry interface → Prop
  | ⟨.complete _ _ _, reply⟩ =>
    ∀ value content values calls, reply.value = .resolved value →
      validateResponse value = .ok (content, some values) → requestedCalls [] values = some calls →
      runtime.tools = true →
      (progress before).dispatched.length + calls.length ≤ runtime.maxToolCalls →
      Within host runtime (progress before).dispatched calls
  | _ => True

/-- What else aborted the run by the time a call was answered. -/
def interruptionsOf : Entry interface → List Interruption
  | ⟨.complete .., reply⟩ | ⟨.dispatch .., reply⟩ =>
    reply.value.interruptions ++ reply.interruptions
  | ⟨.classify _, reply⟩ => reply.interruptions
  | ⟨.persistMessage _, reply⟩ | ⟨.persistToolLifecycle _, reply⟩ => reply.interruptions
  | ⟨.yield _, reply⟩ => reply.interruptions

/-- The run was aborted before it began or during one of its calls. -/
def abortedBy (input : RunInput) (h : List (Entry interface)) : Bool :=
  input.aborted.isSome || h.any fun e => !(interruptionsOf e).isEmpty

/-- What the answer to a call throws, unless it is caught and reported by another text. -/
def thrownBy : Entry interface → Option Thrown
  | ⟨.complete .., _⟩ | ⟨.persistMessage (.tool ..), _⟩ => none
  | ⟨.dispatch .., reply⟩ =>
    match reply.value with
    | .threw error | .rejected error => some error
    | .resolved _ | .interrupted _ => none
  | ⟨.classify _, reply⟩ =>
    match reply.value with
    | .error error => some error
    | .ok _ => none
  | ⟨.persistMessage _, reply⟩ | ⟨.persistToolLifecycle _, reply⟩ =>
    match reply.value with
    | .error error => some error
    | .ok _ => none
  | ⟨.yield _, _⟩ => none

/-- What is thrown has a text, unless the run was aborted; and the consumer takes every event, and
may leave the run at the terminal one. -/
def Heard (input : RunInput) (before : List (Entry interface)) (e : Entry interface) : Prop :=
  (thrownBy e = some .unprintable → abortedBy input (before ++ [e]) = true) ∧
    match e with
    | ⟨.yield event, reply⟩ => reply.value = .next ∨ event.terminal = true ∧ reply.value = .returned
    | _ => True

/-! ### One more call -/

section Calls

variable {host : Host} {runtime : AgentRuntime} {input : RunInput} {h : List (Entry interface)}
  {e : Entry interface} {l : Locals}

theorem progress_append_singleton : progress (h ++ [e]) = (progress h).note e := by
  simp [progress]

theorem abortedBy_append_singleton :
    abortedBy input (h ++ [e]) = (abortedBy input h || !(interruptionsOf e).isEmpty) := by
  simp [abortedBy, Bool.or_assoc]

/-- The calls that neither add to what a run has done nor end it. -/
def Op.Inert : Op → Prop
  | .persistMessage _ | .persistToolLifecycle _ => True
  | .yield event => event.terminal = false
  | _ => False

theorem note_of_inert {p : Progress} (he : e.op.Inert) : p.note e = p := by
  obtain ⟨o, reply⟩ := e
  cases o with
  | persistMessage | persistToolLifecycle | «yield» => rfl
  | complete | classify | dispatch => exact he.elim

theorem terminal_of_inert (he : e.op.Inert) : terminal e = false := by
  obtain ⟨o, reply⟩ := e
  cases o with
  | «yield» => exact he
  | persistMessage | persistToolLifecycle | complete | classify | dispatch => rfl

theorem aborted_interrupted (is : List Interruption) :
    (l.interrupted is).signal.aborted = (l.signal.aborted || !is.isEmpty) :=
  aborted_foldl is l.signal

/-! ### What is kept between the calls -/

/-- The signal is the one of the calls so far, none of which was the end of the run. -/
structure Sound (input : RunInput) (h : List (Entry interface)) (l : Locals) : Prop where
  signal : l.signal.aborted = abortedBy input h
  calm : Each (Heard input) h → ∀ e ∈ h, terminal e = false

theorem Sound.append (hs : Sound input h l) (he : terminal e = false) :
    Sound input (h ++ [e]) (l.interrupted (interruptionsOf e)) where
  signal := by rw [aborted_interrupted, hs.signal, abortedBy_append_singleton]
  calm hheard := by
    rw [List.forall_mem_append]
    exact ⟨hs.calm hheard.of_append, by simpa using he⟩

/-- The limits on the calls. -/
structure Spent (host : Host) (runtime : AgentRuntime) (h : List (Entry interface)) : Prop where
  tools : (progress h).dispatched.length ≤ runtime.maxToolCalls
  repeats : Each (Fits host runtime) h → ∀ name text,
    callCount host name text (progress h).dispatched ≤ runtime.maxRepeatedToolCalls

/-- How a block is left before its end: after the terminal event, or by a throw that has a text
unless the run was aborted. -/
structure Quit (host : Host) (runtime : AgentRuntime) (input : RunInput)
    (h : List (Entry interface)) (l : Locals) (stop : Stop) : Prop where
  signal : l.signal.aborted = abortedBy input h
  spent : Spent host runtime h
  ended : Each (Heard input) h → stop = .returned ∧ Ended h ∨ (∀ e ∈ h, terminal e = false) ∧
    ∃ error, stop = .threw error ∧ (error = .unprintable → l.signal.aborted = true)

theorem Quit.of_threw {error : Thrown} (hs : Sound input h l) (hspent : Spent host runtime h)
    (herror : Each (Heard input) h → error = .unprintable → l.signal.aborted = true) :
    Quit host runtime input h l (.threw error) where
  signal := hs.signal
  spent := hspent
  ended hheard := .inr ⟨hs.calm hheard, error, rfl, herror hheard⟩

/-- What a block may rely on wherever it goes on: no inert call changes it. -/
structure Steady (host : Host) (runtime : AgentRuntime) (input : RunInput)
    (P : List (Entry interface) → Locals → Prop) : Prop where
  sound : ∀ h l, P h l → Sound input h l
  spent : ∀ h l, P h l → Spent host runtime h
  append : ∀ h l e, P h l → e.op.Inert → P (h ++ [e]) (l.interrupted (interruptionsOf e))

/-- What an abort does not touch may be kept along. -/
theorem Steady.and {P : List (Entry interface) → Locals → Prop} {Q : Locals → Prop}
    (hP : Steady host runtime input P) (hQ : ∀ l is, Q l → Q (l.interrupted is)) :
    Steady host runtime input fun h l => P h l ∧ Q l where
  sound h l hpq := hP.sound h l hpq.1
  spent h l hpq := hP.spent h l hpq.1
  append h l e hpq he := ⟨hP.append h l e hpq.1 he, hQ l _ hpq.2⟩

/-! ### The blocks that make one inert call -/

variable {P : List (Entry interface) → Locals → Prop} {α : Type}
  {E : List (Entry interface) → Locals → Stop → Prop}

/-- What is promised before each call of a run. -/
abbrev allowing (runtime : AgentRuntime) : Discipline interface (List (Entry interface)) :=
  .promising (Allowed runtime)

theorem ends_callOut {o : Op} {Q : List (Entry interface) → Locals → Reply o.Value → Prop} :
    (callOut o).Ends (allowing runtime) Q E h l ↔
      Allowed runtime h o ∧ ∀ reply, Q (h ++ [⟨o, reply⟩]) l reply :=
  ⟨fun hends => ⟨hends.1, fun reply => hends.2 reply trivial⟩,
    fun hends => ⟨hends.1, fun reply _ => hends.2 reply⟩⟩

theorem ends_interrupt {is : List Interruption} {f : Unit → Body α}
    {Q : List (Entry interface) → Locals → α → Prop} :
    (interrupt is >>= f).Ends (allowing runtime) Q E h l ↔
      (f ()).Ends (allowing runtime) Q E h (l.interrupted is) :=
  Routine.ends_bind

/-- An error that the last call threw has a text, unless the run was aborted by then. -/
theorem aborted_of_unprintable (hs : Sound input h l)
    (hthrown : thrownBy e = some .unprintable) (hheard : Each (Heard input) (h ++ [e])) :
    (l.interrupted (interruptionsOf e)).signal.aborted = true := by
  rw [aborted_interrupted, hs.signal, ← abortedBy_append_singleton]
  exact (each_concat.mp hheard).2.1 hthrown

/-- Where the last call threw, a block is left with what it threw. -/
theorem Quit.of_thrownBy {error : Thrown} (hP : Steady host runtime input P) (hp : P h l)
    (he : e.op.Inert) (hthrown : thrownBy e = some error) :
    Quit host runtime input (h ++ [e]) (l.interrupted (interruptionsOf e)) (.threw error) := by
  have hp' := hP.append h l e hp he
  refine .of_threw (hP.sound _ _ hp') (hP.spent _ _ hp') fun hheard herror => ?_
  exact aborted_of_unprintable (hP.sound _ _ hp) (by rw [hthrown, herror]) hheard

theorem emit_ends {event : AgentEvent} (hP : Steady host runtime input P)
    (hevent : event.terminal = false) (hp : P h l)
    (hE : ∀ h l stop, P h l → Quit host runtime input h l stop → ¬ Each (Heard input) h →
      E h l stop) :
    (emit event).Ends (allowing runtime) (fun h l _ => P h l) E h l := by
  refine Routine.ends_bind.mpr (ends_callOut.mpr ⟨trivial, fun reply => ?_⟩)
  refine ends_interrupt.mpr ?_
  have hp' := hP.append h l ⟨.yield event, reply⟩ hp hevent
  -- the consumer may leave with the terminal event only
  have hleft : ∀ stop, reply.value ≠ .next →
      E (h ++ [⟨.yield event, reply⟩]) (l.interrupted reply.interruptions) stop := by
    intro stop hne
    have hunheard : ¬ Each (Heard input) (h ++ [⟨.yield event, reply⟩]) := by
      intro hheard
      have htaken : reply.value = .next ∨ event.terminal = true ∧ reply.value = .returned :=
        (each_concat.mp hheard).2.2
      simp [hne, hevent] at htaken
    exact hE _ _ _ hp' ⟨(hP.sound _ _ hp').signal, hP.spent _ _ hp', fun hheard =>
      absurd hheard hunheard⟩ hunheard
  cases hvalue : reply.value with
  | next => exact hp'
  | returned => exact hleft _ (by simp [hvalue])
  | threw error => exact hleft _ (by simp [hvalue])

theorem persistMessage_ends {message : AgentMessage} (hP : Steady host runtime input P) (hp : P h l)
    (hE : ∀ h l error, P h l → ((∀ content id name, message ≠ .tool content id name) →
      Quit host runtime input h l (.threw error)) → E h l (.threw error)) :
    (persistMessage runtime message).Ends (allowing runtime) (fun h l _ => P h l) E h l := by
  unfold persistMessage
  split
  · refine Routine.ends_bind.mpr (ends_callOut.mpr ⟨trivial, fun reply => ?_⟩)
    refine ends_interrupt.mpr (ends_orRaise.mpr ⟨fun _ _ => ?_, fun error herror => ?_⟩)
    · exact hP.append h l ⟨.persistMessage message, reply⟩ hp trivial
    · refine hE _ _ _ (hP.append h l ⟨.persistMessage message, reply⟩ hp trivial) fun hmessage => ?_
      refine Quit.of_thrownBy (e := ⟨.persistMessage message, reply⟩) hP hp trivial ?_
      cases message with
      | tool content id name => exact absurd rfl (hmessage content id name)
      | system | user | assistant => simp [thrownBy, herror]
  · exact hp

theorem persistToolLifecycle_ends {r : LifecycleRecord} (hP : Steady host runtime input P)
    (hp : P h l) (hE : ∀ h l stop, P h l → Quit host runtime input h l stop → E h l stop) :
    (persistToolLifecycle runtime r).Ends (allowing runtime) (fun h l _ => P h l) E h l := by
  unfold persistToolLifecycle
  split
  · refine Routine.ends_bind.mpr (ends_callOut.mpr ⟨trivial, fun reply => ?_⟩)
    refine ends_interrupt.mpr (ends_orRaise.mpr ⟨fun _ _ => ?_, fun error herror => ?_⟩)
    · exact hP.append h l ⟨.persistToolLifecycle r, reply⟩ hp trivial
    · refine hE _ _ _ (hP.append h l ⟨.persistToolLifecycle r, reply⟩ hp trivial) ?_
      exact Quit.of_thrownBy (e := ⟨.persistToolLifecycle r, reply⟩) hP hp trivial
        (by simp [thrownBy, herror])
  · exact hp

end Calls

/-! ### The model is asked -/

section Model

variable {host : Host} {runtime : AgentRuntime} {input : RunInput} {h : List (Entry interface)}
  {e : Entry interface} {l l' : Locals} {p : Nat}

/-- Between the calls of a response and the next one, where the next provider asked is `p`. -/
structure Idle (host : Host) (runtime : AgentRuntime) (input : RunInput) (p : Nat)
    (h : List (Entry interface)) (l : Locals) : Prop
    extends Sound input h l, Spent host runtime h where
  count : (progress h).dispatched.length = l.toolCount
  repeated : ∀ name text, callCount host name text (progress h).dispatched ≤
    (l.repeated.get (name ++ ":" ++ text)).getD 0
  locked : ∀ i, (progress h).locked = some i → p = i ∧ l.sideEffects = true

theorem Spent.append (hspent : Spent host runtime h)
    (he : (progress (h ++ [e])).dispatched = (progress h).dispatched) :
    Spent host runtime (h ++ [e]) where
  tools := by rw [he]; exact hspent.tools
  repeats hfits := by rw [he]; exact hspent.repeats hfits.of_append

/-- A call that dispatches nothing and does not end the run. -/
theorem Idle.append (hidle : Idle host runtime input p h l) (hterminal : terminal e = false)
    (hdispatched : ((progress h).note e).dispatched = (progress h).dispatched)
    (hlocked : ((progress h).note e).locked = (progress h).locked) :
    Idle host runtime input p (h ++ [e]) (l.interrupted (interruptionsOf e)) where
  toSound := hidle.toSound.append hterminal
  toSpent := hidle.toSpent.append (by rw [progress_append_singleton, hdispatched])
  count := by rw [progress_append_singleton, hdispatched]; exact hidle.count
  repeated := by rw [progress_append_singleton, hdispatched]; exact hidle.repeated
  locked := by rw [progress_append_singleton, hlocked]; exact hidle.locked

theorem steady_idle : Steady host runtime input (Idle host runtime input p) where
  sound _ _ hidle := hidle.toSound
  spent _ _ hidle := hidle.toSpent
  append _ _ e hidle he := by
    refine hidle.append (terminal_of_inert he) ?_ ?_
    · rw [note_of_inert he]
    · rw [note_of_inert he]

/-- Where nothing was proposed yet, any provider may be the next one. -/
theorem Idle.next (hidle : Idle host runtime input p h l) (hfree : l.sideEffects = false)
    (q : Nat) : Idle host runtime input q h l := by
  refine { hidle with locked := fun i hi => ?_ }
  exact absurd (hidle.locked i hi).2 (by simp [hfree])

/-- A tool that only reads or proposes and is not denied. -/
def Harmless (h : List (Entry interface)) (v : ValidatedCall) : Prop :=
  ((progress h).effectOf v.call.name = some .read ∨
    (progress h).effectOf v.call.name = some .proposal) ∧ deniedTool v.call.name = false

/-- While the calls `values` of a response of the provider `p` are checked; `done` passed. -/
structure Checking (host : Host) (runtime : AgentRuntime) (input : RunInput) (p : Nat)
    (values : List JsValue) (done : List ValidatedCall) (h : List (Entry interface))
    (l : Locals) : Prop extends Idle host runtime input p h l where
  active : l.activeProvider = p
  provider : (progress h).provider = some p
  proposals : (progress h).proposals ≠ [] → ∃ v ∈ done, v.effect = .proposal
  harmless : ∀ v ∈ done, Harmless h v
  within : Each (Fits host runtime) h → ∀ calls, requestedCalls [] values = some calls →
    runtime.tools = true → l.toolCount + calls.length ≤ runtime.maxToolCalls →
    Within host runtime (progress h).dispatched calls

theorem steady_checking {values : List JsValue} {done : List ValidatedCall} :
    Steady host runtime input (Checking host runtime input p values done) where
  sound _ _ hchecking := hchecking.toSound
  spent _ _ hchecking := hchecking.toSpent
  append h l e hchecking he := by
    have hprogress : progress (h ++ [e]) = progress h := by
      rw [progress_append_singleton, note_of_inert he]
    exact {
      toIdle := steady_idle.append h l e hchecking.toIdle he
      active := hchecking.active
      provider := by rw [hprogress]; exact hchecking.provider
      proposals := by rw [hprogress]; exact hchecking.proposals
      harmless := by unfold Harmless; rw [hprogress]; exact hchecking.harmless
      within := by rw [hprogress]; exact fun hfits => hchecking.within hfits.of_append }

theorem Idle.quit_runtime (hidle : Idle host runtime input p h l) {code : RuntimeErrorCode}
    {message : String} : Quit host runtime input h l (.threw (.runtime code message)) :=
  .of_threw hidle.toSound hidle.toSpent fun _ hunprintable => absurd hunprintable (by simp)

/-- The text of an error, or the error that there is none, is thrown with a text. -/
theorem text_ne_unprintable {error thrown : Thrown} (h : error.text = .error thrown) :
    thrown ≠ .unprintable := by
  cases error with
  | runtime | other => simp [Thrown.text] at h
  | unprintable =>
    simp only [Thrown.text, Except.error.injEq] at h
    simp [← h]

/-- The handler goes on to the next provider only where nothing was proposed. -/
theorem onProviderError_ends {provider : String} {last : Bool} {stop : Stop}
    (hidle : Idle host runtime input p h l)
    (hstop : stop = .returned → ¬ Each (Heard input) h) :
    (onProviderError provider last stop).Ends (allowing runtime)
      (fun h l response => response = none ∧ Idle host runtime input (p + 1) h l)
      (Quit host runtime input) h l := by
  cases stop with
  -- the consumer has returned
  | returned =>
    refine ⟨hidle.signal, hidle.toSpent, fun hheard => absurd hheard (hstop rfl)⟩
  | threw error =>
    refine Routine.ends_bind.mpr (Routine.ends_locals.mpr ?_)
    cases haborted : l.signal.aborted with
    | true => exact .of_threw hidle.toSound hidle.toSpent fun _ _ => haborted
    | false =>
      refine Routine.ends_bind.mpr
        (ends_orRaise.mpr ⟨fun message _ => ?_, fun thrown hthrown => ?_⟩)
      · -- the failure is told, and unless calls had effects the next provider is asked
        have hsteady : Steady host runtime input fun h l' =>
            Idle host runtime input p h l' ∧ l'.sideEffects = l.sideEffects :=
          steady_idle.and fun _ _ => id
        refine Routine.ends_bind.mpr ?_
        refine (emit_ends hsteady rfl ⟨hidle, rfl⟩ fun _ _ _ _ hquit _ => hquit).mono
          (fun h l' _ hl' => ?_) fun _ _ _ => id
        obtain ⟨hidle, hside⟩ := hl'
        split
        · exact hidle.quit_runtime
        · next hgo =>
          rw [Bool.or_eq_true, not_or, Bool.not_eq_true] at hgo
          exact ⟨rfl, hidle.next (hside.trans hgo.1) _⟩
      · exact .of_threw hidle.toSound hidle.toSpent fun _ hunprintable =>
          absurd hunprintable (text_ne_unprintable hthrown)

theorem abortable_eq_ok {α : Type} {signal : Signal} {settled : Settled α} {value : α}
    (h : abortable signal settled = .ok value) : settled = .resolved value := by
  cases settled <;> cases hs : signal.reason <;> simp_all [abortable]

/-- What a response asks for is within the limit, unless it is refused in any case. -/
def Answered (host : Host) (runtime : AgentRuntime) (h : List (Entry interface)) (l : Locals)
    (value : JsValue) : Prop :=
  ∀ content values calls, validateResponse value = .ok (content, some values) →
    requestedCalls [] values = some calls → runtime.tools = true →
    l.toolCount + calls.length ≤ runtime.maxToolCalls →
    Within host runtime (progress h).dispatched calls

theorem complete_ends (hidle : Idle host runtime input p h l) :
    (complete p).Ends (allowing runtime)
      (fun h l value => Idle host runtime input p h l ∧ (progress h).provider = some p ∧
        (progress h).proposals = [] ∧
        (Each (Fits host runtime) h → Answered host runtime h l value))
      (fun h l stop => Idle host runtime input p h l ∧ stop ≠ .returned) h l := by
  refine Routine.ends_bind.mpr (Routine.ends_locals.mpr (Routine.ends_bind.mpr ?_))
  refine ends_callOut.mpr ⟨fun i hi => (hidle.locked i hi).1, fun reply => ?_⟩
  have hidle' := hidle.append (e := ⟨.complete p l.messages l.signal, reply⟩) rfl rfl rfl
  refine ends_interrupt.mpr (ends_orRaise.mpr ⟨fun value hvalue => ⟨hidle', ?_, ?_, ?_⟩,
    fun error _ => ⟨hidle', by simp⟩⟩)
  · rw [progress_append_singleton]
    rfl
  · rw [progress_append_singleton]
    rfl
  · intro hfits content values calls hvalidate hcalls htools hbudget
    rw [progress_append_singleton]
    refine (each_concat.mp hfits).2 value content values calls (abortable_eq_ok hvalue) hvalidate
      hcalls htools ?_
    rw [hidle.count]
    exact hbudget

theorem within_nil {dispatched : List ToolCall}
    (h : ∀ name text, callCount host name text dispatched ≤ runtime.maxRepeatedToolCalls) :
    Within host runtime dispatched [] :=
  fun name text => .inl (by simpa [callCount] using h name text)

/-- One provider is asked, and answers with a message. -/
theorem tryComplete_ends {provider : String} (hidle : Idle host runtime input p h l) :
    (do
      let value ← complete p
      let response ← orRaise (validateResponse value)
      Routine.assign fun l => { l with activeProvider := p }
      emit (.modelResponded provider value)
      pure (some response) : Body (Option (String × Option (List JsValue)))).Ends
      (allowing runtime)
      (fun h l response => ∃ r, response = some r ∧
        Checking host runtime input p (r.2.getD []) [] h l)
      (fun h l stop => Idle host runtime input p h l ∧ (stop = .returned → ¬ Each (Heard input) h))
      h l := by
  refine Routine.ends_bind.mpr ((complete_ends hidle).mono (fun h l value hvalue => ?_)
    fun h l stop hstop => ⟨hstop.1, fun h => absurd h hstop.2⟩)
  obtain ⟨hidle, hprovider, hproposals, hanswered⟩ := hvalue
  refine Routine.ends_bind.mpr (ends_orRaise.mpr ⟨fun response hresponse => ?_, fun error _ =>
    ⟨hidle, by simp⟩⟩)
  refine Routine.ends_bind.mpr (Routine.ends_assign.mpr ?_)
  -- no call has been looked at yet, so the part about calls is empty
  have hchecking : Checking host runtime input p (response.2.getD []) [] h
      { l with activeProvider := p } :=
    { hidle with
      active := rfl
      provider := hprovider
      proposals := fun hne => absurd hproposals hne
      harmless := by simp
      within := by
        intro hfits calls hcalls htools hbudget
        obtain ⟨content, toolCalls⟩ := response
        cases toolCalls with
        | some values => exact hanswered hfits content values calls hresponse hcalls htools hbudget
        | none =>
          obtain rfl : [] = calls := by simpa [requestedCalls] using hcalls
          exact within_nil (hidle.repeats hfits) }
  refine Routine.ends_bind.mpr ((emit_ends steady_checking rfl hchecking
    fun h l stop hp _ hunheard => ⟨hp.toIdle, fun _ => hunheard⟩).mono
      (fun h l _ hchecking => ⟨response, rfl, hchecking⟩) fun _ _ _ => id)

theorem requestModel_ends {iteration : Nat} {providers : List String}
    (hidle : Idle host runtime input p h l) :
    (requestModel iteration p providers).Ends (allowing runtime)
      (fun h l response =>
        Checking host runtime input l.activeProvider (response.2.getD []) [] h l)
      (Quit host runtime input) h l := by
  induction providers generalizing p h l with
  | nil => exact hidle.quit_runtime
  | cons provider providers ih =>
    refine Routine.ends_bind.mpr ?_
    refine (emit_ends steady_idle rfl hidle fun _ _ _ _ hquit _ => hquit).mono
      (fun h l _ hidle => ?_) fun _ _ _ => id
    refine Routine.ends_bind.mpr (Routine.ends_tryCatch.mpr ?_)
    refine (tryComplete_ends hidle).mono (fun h l response hresponse => ?_) fun h l stop hstop => ?_
    · obtain ⟨r, rfl, hchecking⟩ := hresponse
      change Checking host runtime input l.activeProvider _ _ _ _
      rw [hchecking.active]
      exact hchecking
    · refine (onProviderError_ends hstop.1 hstop.2).mono (fun h l response hresponse => ?_)
        fun _ _ _ => id
      obtain ⟨rfl, hidle⟩ := hresponse
      exact ih hidle

end Model

/-! ### The calls of a response are checked -/

section Checks

variable {host : Host}

mutual

/-- Where a value cannot be written, the error has a text. -/
theorem stableStringify_ne_unprintable (hhost : host.opaqueText ≠ .error .unprintable) :
    ∀ v : JsValue, stableStringify host v ≠ .error .unprintable
  | .undefined | .null | .bool _ | .bigint _ | .string _ => by simp [stableStringify]
  | .number x => by cases x <;> simp [stableStringify]
  | .other => by simpa [stableStringify] using hhost
  | .array items => by
    have hitems := stringifyItems_ne_unprintable hhost items
    rw [stableStringify]
    cases htexts : stringifyItems host items with
    | error error => simpa [htexts, bind, Except.bind] using hitems
    | ok texts => simp [bind, Except.bind]
  | .object fields => by
    have hfields := stringifyFields_ne_unprintable hhost fields
    rw [stableStringify]
    cases htexts : stringifyFields host fields with
    | error error => simpa [htexts, bind, Except.bind] using hfields
    | ok texts => simp [bind, Except.bind]

theorem stringifyItems_ne_unprintable (hhost : host.opaqueText ≠ .error .unprintable) :
    ∀ vs : List JsValue, stringifyItems host vs ≠ .error .unprintable
  | [] => by simp [stringifyItems]
  | v :: vs => by
    have hv := stableStringify_ne_unprintable hhost v
    have hvs := stringifyItems_ne_unprintable hhost vs
    rw [stringifyItems]
    cases htext : stableStringify host v with
    | error error => simpa [htext, bind, Except.bind] using hv
    | ok text =>
      cases htexts : stringifyItems host vs with
      | error error => simpa [htexts, bind, Except.bind] using hvs
      | ok texts => simp [bind, Except.bind]

theorem stringifyFields_ne_unprintable (hhost : host.opaqueText ≠ .error .unprintable) :
    ∀ fields : List (String × JsValue), stringifyFields host fields ≠ .error .unprintable
  | [] => by simp [stringifyFields]
  | (key, v) :: fields => by
    have hv := stableStringify_ne_unprintable hhost v
    have hfields := stringifyFields_ne_unprintable hhost fields
    rw [stringifyFields]
    cases htext : stableStringify host v with
    | error error => simpa [htext, bind, Except.bind] using hv
    | ok text =>
      cases htexts : stringifyFields host fields with
      | error error => simpa [htexts, bind, Except.bind] using hfields
      | ok texts => simp [bind, Except.bind]

end

variable {runtime : AgentRuntime} {input : RunInput} {h : List (Entry interface)}
  {l : Locals} {p : Nat} {values : List JsValue} {done : List ValidatedCall}

/-- The signature of a call is its name with the text of its arguments. -/
def Signed (host : Host) (v : ValidatedCall) : Prop :=
  ∃ text, stableStringify host v.call.arguments = .ok text ∧
    v.signature = v.call.name ++ ":" ++ text

theorem Idle.append_classify {name : String} {reply : Reply (Except Thrown (Option ToolEffect))}
    (hidle : Idle host runtime input p h l) :
    Idle host runtime input p (h ++ [⟨.classify name, reply⟩])
      (l.interrupted reply.interruptions) := by
  refine hidle.append (e := ⟨.classify name, reply⟩) rfl ?_ ?_ <;>
    cases hreply : reply.value <;> simp [Progress.note, hreply]

/-- The classification of a tool that may be dispatched. -/
theorem Checking.append_classify {name : String} {reply : Reply (Except Thrown (Option ToolEffect))}
    {effect : ToolEffect} {v : ValidatedCall}
    (hchecking : Checking host runtime input p values done h l)
    (hreply : reply.value = .ok (some effect)) (hv : v.call.name = name ∧ v.effect = effect)
    (heffect : effect = .read ∨ effect = .proposal) (hdenied : deniedTool name = false) :
    Checking host runtime input p values (done ++ [v]) (h ++ [⟨.classify name, reply⟩])
      (l.interrupted reply.interruptions) := by
  -- the answer is noted under the tool, and as a proposal if it is one
  have hnote : (progress h).note ⟨.classify name, reply⟩ = { progress h with
      effectOf := fun n => if n = name then some effect else (progress h).effectOf n
      proposals := if effect = .proposal then name :: (progress h).proposals
        else (progress h).proposals } := by
    simp [Progress.note, hreply]
  refine {
    toIdle := hchecking.toIdle.append rfl (by rw [hnote]) (by rw [hnote])
    active := hchecking.active
    provider := ?_
    proposals := ?_
    harmless := ?_
    within := ?_ } <;> simp only [Harmless, progress_append_singleton, hnote]
  · exact hchecking.provider
  · intro hne
    by_cases hproposal : effect = .proposal
    · exact ⟨v, by simp, hv.2.trans hproposal⟩
    · rw [if_neg hproposal] at hne
      obtain ⟨w, hw, hweffect⟩ := hchecking.proposals hne
      exact ⟨w, List.mem_append_left _ hw, hweffect⟩
  · intro w hw
    -- calls of the same tool get the new answer, which is as harmless
    by_cases hname : w.call.name = name
    · rw [hname, if_pos rfl]
      exact ⟨heffect.imp (congrArg some) (congrArg some), hdenied⟩
    · rw [if_neg hname]
      rcases List.mem_append.mp hw with hw | hw
      · exact hchecking.harmless w hw
      · rw [List.mem_singleton.mp hw] at hname
        exact absurd hv.1 hname
  · exact fun hfits => hchecking.within hfits.of_append

/-- What is known of a call that passed the checks. -/
structure Admitted (host : Host) (runtime : AgentRuntime) (repeated : FiniteMap String Nat)
    (v : ValidatedCall) : Prop where
  signed : Signed host v
  fresh : (repeated.get v.signature).getD 0 < runtime.maxRepeatedToolCalls

theorem validateCall_ends (hhost : host.opaqueText ≠ .error .unprintable) {seen : List String}
    {value : JsValue} (hchecking : Checking host runtime input p values done h l) :
    (validateCall host runtime seen value).Ends (allowing runtime)
      (fun h l' v => Checking host runtime input p values (done ++ [v]) h l' ∧
        requestedCall seen value = some v.call ∧ Admitted host runtime l'.repeated v ∧
        l'.repeated = l.repeated ∧ l'.toolCount = l.toolCount)
      (Quit host runtime input) h l := by
  unfold validateCall
  split
  · next id name hid hname =>
    split
    · exact hchecking.quit_runtime
    next hwell =>
    refine Routine.ends_bind.mpr (ends_orRaise.mpr ⟨fun text htext => ?_, fun error herror => ?_⟩)
    -- arguments that cannot be printed do not get here
    swap
    · refine .of_threw hchecking.toSound hchecking.toSpent fun _ hunprintable => ?_
      exact absurd (hunprintable ▸ herror) (stableStringify_ne_unprintable hhost _)
    refine Routine.ends_bind.mpr (Routine.ends_locals.mpr ?_)
    split
    · exact hchecking.quit_runtime
    next hfresh =>
    refine Routine.ends_bind.mpr
      (Routine.ends_bind.mpr (ends_callOut.mpr ⟨trivial, fun reply => ?_⟩))
    refine ends_interrupt.mpr (ends_orRaise.mpr ⟨fun effect heffect => ?_, fun error herror => ?_⟩)
    swap
    · have hidle : Idle host runtime input p (h ++ [⟨.classify name, reply⟩])
          (l.interrupted reply.interruptions) := hchecking.toIdle.append_classify
      refine .of_threw hidle.toSound hidle.toSpent fun hheard hunprintable => ?_
      refine aborted_of_unprintable hchecking.toSound (e := ⟨.classify name, reply⟩) ?_ hheard
      simp [thrownBy, herror, hunprintable]
    -- a tool that is unknown or does more than read or propose is refused
    cases effect with
    | none => exact hchecking.toIdle.append_classify.quit_runtime
    | some effect =>
      dsimp only
      split
      · exact hchecking.toIdle.append_classify.quit_runtime
      next hsafe =>
      rw [Bool.or_eq_true, not_or, Bool.not_eq_true (deniedTool name)] at hsafe
      have hread : effect = .read ∨ effect = .proposal := by cases effect <;> simp_all
      refine ⟨hchecking.append_classify heffect ⟨rfl, rfl⟩ hread hsafe.2, ?_,
        ⟨⟨text, htext, rfl⟩, ?_⟩, rfl, rfl⟩
      · rw [requestedCall, hid, hname]
        simp [hsafe.2, hwell]
      · exact Nat.lt_of_succ_le (Nat.not_lt.mp hfresh)
  · exact hchecking.quit_runtime

theorem validateCalls_ends (hhost : host.opaqueText ≠ .error .unprintable) {seen : List String}
    {rest : List JsValue} (hchecking : Checking host runtime input p values done h l)
    (hdone : ∀ v ∈ done, Admitted host runtime l.repeated v) :
    (validateCalls host runtime seen rest).Ends (allowing runtime)
      (fun h l' vs => Checking host runtime input p values (done ++ vs) h l' ∧
        requestedCalls seen rest = some (vs.map ValidatedCall.call) ∧
        (∀ v ∈ done ++ vs, Admitted host runtime l'.repeated v) ∧ l'.toolCount = l.toolCount)
      (Quit host runtime input) h l := by
  induction rest generalizing seen done h l with
  -- the calls are checked one after the other
  | nil =>
    refine ⟨?_, rfl, ?_, rfl⟩
    · rw [List.append_nil]
      exact hchecking
    · rw [List.append_nil]
      exact hdone
  | cons value rest ih =>
    refine Routine.ends_bind.mpr ((validateCall_ends hhost hchecking).mono (fun h l' v hv => ?_)
      fun _ _ _ => id)
    obtain ⟨hchecking, hcall, hadmitted, hrepeated, hcount⟩ := hv
    refine Routine.ends_bind.mpr ((ih hchecking ?_).mono (fun h l'' vs hvs => ?_) fun _ _ _ => id)
    · rw [List.forall_mem_append]
      exact ⟨hrepeated ▸ hdone, by simpa using hadmitted⟩
    · obtain ⟨hchecking, hcalls, hadmitted, hcount'⟩ := hvs
      rw [List.append_assoc, List.singleton_append] at hchecking hadmitted
      refine ⟨hchecking, ?_, hadmitted, hcount'.trans hcount⟩
      rw [requestedCalls, hcall]
      simp [hcalls]

end Checks

/-! ### The calls of a response are dispatched -/

section Tools

variable {host : Host} {runtime : AgentRuntime} {input : RunInput} {h : List (Entry interface)}
  {l : Locals} {v : ValidatedCall} {vs : List ValidatedCall}

/-- While the calls of a response are dispatched, of which `vs` are left. -/
structure Batch (host : Host) (runtime : AgentRuntime) (input : RunInput) (vs : List ValidatedCall)
    (h : List (Entry interface)) (l : Locals) : Prop
    extends Sound input h l, Spent host runtime h where
  count : (progress h).dispatched.length = l.toolCount
  budget : l.toolCount + vs.length ≤ runtime.maxToolCalls
  repeated : ∀ name text, callCount host name text (progress h).dispatched ≤
    (l.repeated.get (name ++ ":" ++ text)).getD 0
  within : Each (Fits host runtime) h → ∀ name text,
    callCount host name text (progress h).dispatched +
      callCount host name text (vs.map ValidatedCall.call) ≤ runtime.maxRepeatedToolCalls
  provider : (progress h).provider = some l.activeProvider
  locked : ∀ i, (progress h).locked = some i → l.activeProvider = i
  proposed : (progress h).locked ≠ none ∨ (progress h).proposals ≠ [] →
    l.sideEffects = true ∨ ∃ v ∈ vs, v.effect = .proposal
  harmless : ∀ v ∈ vs, Harmless h v
  signed : ∀ v ∈ vs, Signed host v

theorem signature_of_sameCall {name text : String} (hsigned : Signed host v)
    (hsame : sameCall host name text v.call = true) : v.signature = name ++ ":" ++ text := by
  obtain ⟨text', htext, hsignature⟩ := hsigned
  simp only [sameCall, Bool.and_eq_true, decide_eq_true_eq, htext, Except.toOption,
    Option.some.injEq] at hsame
  rw [hsignature, hsame.1, hsame.2]

theorem requestedCalls_length {seen : List String} {values : List JsValue} {calls : List ToolCall}
    (h : requestedCalls seen values = some calls) : calls.length = values.length := by
  induction values generalizing seen calls with
  | nil =>
    obtain rfl : [] = calls := by simpa [requestedCalls] using h
    rfl
  | cons value values ih =>
    simp only [requestedCalls, Option.bind_eq_bind, Option.bind_eq_some_iff, Option.some.injEq] at h
    obtain ⟨call, -, calls', hcalls, rfl⟩ := h
    rw [List.length_cons, List.length_cons, ih hcalls]

theorem Checking.batch {values : List JsValue}
    (hchecking : Checking host runtime input l.activeProvider values vs h l)
    (hcalls : requestedCalls [] values = some (vs.map ValidatedCall.call))
    (hadmitted : ∀ v ∈ vs, Admitted host runtime l.repeated v) (htools : runtime.tools = true)
    (hbudget : l.toolCount + vs.length ≤ runtime.maxToolCalls) :
    Batch host runtime input vs h l where
  toSound := hchecking.toSound
  toSpent := hchecking.toSpent
  count := hchecking.count
  budget := hbudget
  repeated := hchecking.repeated
  within := by
    intro hfits name text
    rcases hchecking.within hfits _ hcalls htools (by simpa using hbudget) name text with hle | hle
    · exact hle
    · by_cases hzero : callCount host name text (vs.map ValidatedCall.call) = 0
      · rw [hzero, Nat.add_zero]
        exact hchecking.repeats hfits name text
      · -- one of the calls was checked against the earlier ones
        obtain ⟨call, hcall, hsame⟩ := List.countP_pos_iff.mp (Nat.pos_of_ne_zero hzero)
        obtain ⟨v, hv, rfl⟩ := List.mem_map.mp hcall
        have hfresh := (hadmitted v hv).fresh
        have hrepeated := hchecking.repeated name text
        rw [signature_of_sameCall (hadmitted v hv).signed hsame] at hfresh
        omega
  provider := hchecking.provider
  locked i hi := (hchecking.locked i hi).1
  proposed hproposed := by
    rcases hproposed with hlocked | hproposals
    · obtain ⟨i, hi⟩ := Option.ne_none_iff_exists'.mp hlocked
      exact .inl (hchecking.locked i hi).2
    · exact .inr (hchecking.proposals hproposals)
  harmless := hchecking.harmless
  signed v hv := (hadmitted v hv).signed

theorem steady_batch : Steady host runtime input (Batch host runtime input vs) where
  sound _ _ hbatch := hbatch.toSound
  spent _ _ hbatch := hbatch.toSpent
  append h l e hbatch he := by
    have hprogress : progress (h ++ [e]) = progress h := by
      rw [progress_append_singleton, note_of_inert he]
    exact {
      toSound := hbatch.toSound.append (terminal_of_inert he)
      toSpent := hbatch.toSpent.append (by rw [hprogress])
      count := by rw [hprogress]; exact hbatch.count
      budget := hbatch.budget
      repeated := by rw [hprogress]; exact hbatch.repeated
      within := by rw [hprogress]; exact fun hfits => hbatch.within hfits.of_append
      provider := by rw [hprogress]; exact hbatch.provider
      locked := by rw [hprogress]; exact hbatch.locked
      proposed := by rw [hprogress]; exact hbatch.proposed
      harmless := by unfold Harmless; rw [hprogress]; exact hbatch.harmless
      signed := hbatch.signed }

/-- The call is counted before it is dispatched. -/
def Charged (host : Host) (repeated : FiniteMap String Nat) (dispatched : List ToolCall)
    (call : ToolCall) : Prop :=
  ∀ name text, sameCall host name text call = true →
    callCount host name text dispatched + 1 ≤ (repeated.get (name ++ ":" ++ text)).getD 0

/-- The local variables once a call was dispatched. -/
def Locals.bumped (l : Locals) (v : ValidatedCall) : Locals :=
  { l with toolCount := l.toolCount + 1, sideEffects := l.sideEffects || v.effect = .proposal }

theorem callCount_concat {name text : String} {calls : List ToolCall} {call : ToolCall} :
    callCount host name text (calls ++ [call]) =
      callCount host name text calls + if sameCall host name text call then 1 else 0 := by
  simp [callCount, List.countP_append, List.countP_singleton]

theorem callCount_cons {name text : String} {calls : List ToolCall} {call : ToolCall} :
    callCount host name text (call :: calls) =
      callCount host name text calls + if sameCall host name text call then 1 else 0 :=
  List.countP_cons

/-- A dispatch, whatever it comes to. -/
theorem Batch.append_dispatch {signal : Signal} {reply : Reply (Settled JsValue)}
    (hbatch : Batch host runtime input (v :: vs) h l)
    (hcharged : Charged host l.repeated (progress h).dispatched v.call) :
    Batch host runtime input vs (h ++ [⟨.dispatch v.call signal, reply⟩])
      ((l.interrupted (reply.value.interruptions ++ reply.interruptions)).bumped v) := by
  have hnote : progress (h ++ [⟨.dispatch v.call signal, reply⟩]) = { progress h with
      dispatched := (progress h).dispatched ++ [v.call]
      locked := if v.call.name ∈ (progress h).proposals
        then (progress h).locked.or (progress h).provider else (progress h).locked } :=
    progress_append_singleton
  have hbudget := hbatch.budget
  rw [List.length_cons] at hbudget
  have hcount := hbatch.count
  -- the call moves from those to come to those that were made
  have hwithin : Each (Fits host runtime) (h ++ [⟨.dispatch v.call signal, reply⟩]) →
      ∀ name text, callCount host name text ((progress h).dispatched ++ [v.call]) +
        callCount host name text (vs.map ValidatedCall.call) ≤ runtime.maxRepeatedToolCalls := by
    intro hfits name text
    have := hbatch.within hfits.of_append name text
    rw [List.map_cons, callCount_cons] at this
    rw [callCount_concat]
    omega
  have hsound := hbatch.toSound.append (e := ⟨.dispatch v.call signal, reply⟩) rfl
  have hproposals : (if v.call.name ∈ (progress h).proposals then
      (progress h).locked.or (progress h).provider else (progress h).locked) ≠ none →
      (progress h).locked ≠ none ∨ (progress h).proposals ≠ [] := by
    split
    · next hmem => exact fun _ => .inr (List.ne_nil_of_mem hmem)
    · exact .inl
  exact {
    signal := hsound.signal
    calm := hsound.calm
    tools := by rw [hnote]; simp only [List.length_append, List.length_singleton]; omega
    repeats := by
      rw [hnote]
      exact fun hfits name text => le_trans (Nat.le_add_right _ _) (hwithin hfits name text)
    count := by rw [hnote]; simp [Locals.bumped, Locals.interrupted, hcount]
    budget := by simp only [Locals.bumped, Locals.interrupted]; omega
    repeated := by
      intro name text
      rw [hnote, callCount_concat]
      split
      · next hsame => exact hcharged name text hsame
      · exact hbatch.repeated name text
    within := by rw [hnote]; exact hwithin
    provider := by rw [hnote]; exact hbatch.provider
    locked := by
      rw [hnote]
      intro i hi
      dsimp only at hi
      split at hi
      · cases hlocked : (progress h).locked with
        | some j =>
          rw [hlocked, Option.some_or] at hi
          exact hbatch.locked i (hlocked.trans hi)
        | none =>
          rw [hlocked, Option.none_or, hbatch.provider] at hi
          exact Option.some.inj hi
      · exact hbatch.locked i hi
    proposed := by
      rw [hnote]
      intro hproposed
      obtain hside | ⟨w, hw, hweffect⟩ :=
        hbatch.proposed (hproposed.elim hproposals .inr)
      · left
        simp [Locals.bumped, Locals.interrupted, hside]
      · rcases List.mem_cons.mp hw with rfl | hw
        · left
          simp [Locals.bumped, hweffect]
        · exact .inr ⟨w, hw, hweffect⟩
    harmless := by
      unfold Harmless
      rw [hnote]
      exact fun w hw => hbatch.harmless w (List.mem_cons_of_mem _ hw)
    signed := fun w hw => hbatch.signed w (List.mem_cons_of_mem _ hw) }

/-- What a throw leaves behind: nothing is dispatched any more. -/
structure Failing (host : Host) (runtime : AgentRuntime) (input : RunInput) (error : Thrown)
    (h : List (Entry interface)) (l : Locals) : Prop
    extends Sound input h l, Spent host runtime h where
  text : Each (Heard input) h → error = .unprintable → l.signal.aborted = true

theorem Failing.quit {error : Thrown} (hfailing : Failing host runtime input error h l) :
    Quit host runtime input h l (.threw error) :=
  .of_threw hfailing.toSound hfailing.toSpent hfailing.text

theorem Quit.failing {error : Thrown} (hquit : Quit host runtime input h l (.threw error)) :
    Failing host runtime input error h l where
  signal := hquit.signal
  toSpent := hquit.spent
  calm hheard := by
    obtain ⟨hstop, -⟩ | ⟨hcalm, -⟩ := hquit.ended hheard
    · exact absurd hstop (by simp)
    · exact hcalm
  text hheard := by
    obtain ⟨hstop, -⟩ | ⟨-, error', hstop, htext⟩ := hquit.ended hheard
    · exact absurd hstop (by simp)
    · obtain rfl : error = error' := by simpa using hstop
      exact htext

theorem steady_failing {error : Thrown} :
    Steady host runtime input (Failing host runtime input error) where
  sound _ _ hfailing := hfailing.toSound
  spent _ _ hfailing := hfailing.toSpent
  append h l e hfailing he := {
    toSound := hfailing.toSound.append (terminal_of_inert he)
    toSpent := hfailing.toSpent.append (by rw [progress_append_singleton, note_of_inert he])
    text := fun hheard herror => by
      rw [aborted_interrupted, hfailing.text hheard.of_append herror, Bool.true_or] }

/-- What is thrown by a dispatch has a text, unless the run was aborted. -/
theorem text_of_abortable {signal : Signal} {reply : Reply (Settled JsValue)} {call : ToolCall}
    {error : Thrown} (hs : Sound input h l) (hsignal : l.signal = signal)
    (herror : abortable signal reply.value = .error error)
    (hheard : Each (Heard input) (h ++ [⟨.dispatch call signal, reply⟩]))
    (hunprintable : error = .unprintable) :
    (l.interrupted (reply.value.interruptions ++ reply.interruptions)).signal.aborted = true := by
  have hthrown : thrownBy ⟨.dispatch call signal, reply⟩ = some .unprintable →
      (l.interrupted (reply.value.interruptions ++ reply.interruptions)).signal.aborted = true :=
    fun h => aborted_of_unprintable hs h hheard
  subst hsignal
  rw [aborted_interrupted] at hthrown ⊢
  cases hreason : l.signal.reason with
  -- the signal was aborted before the call
  | some reason => simp [Signal.aborted, hreason]
  | none =>
    cases hvalue : reply.value with
    -- a value is no error
    | resolved value => simp [hvalue, abortable, hreason] at herror
    | interrupted first => simp [Settled.interruptions]
    | threw thrown | rejected thrown =>
      obtain rfl : thrown = error := by simpa [hvalue, abortable, hreason] using herror
      rw [hvalue] at hthrown
      exact hthrown (by simp [thrownBy, hvalue, hunprintable])

theorem dispatch_ends (hbatch : Batch host runtime input (v :: vs) h l)
    (hcharged : Charged host l.repeated (progress h).dispatched v.call) :
    (dispatch v.call).Ends (allowing runtime)
      (fun h l _ => Batch host runtime input vs h (l.bumped v)) (Quit host runtime input) h l := by
  have hallowed : Allowed runtime h (.dispatch v.call l.signal) := by
    have hbudget := hbatch.budget
    rw [List.length_cons] at hbudget
    obtain ⟨heffect, hdenied⟩ := hbatch.harmless v List.mem_cons_self
    refine ⟨?_, heffect, hdenied⟩
    rw [hbatch.count]
    omega
  refine Routine.ends_bind.mpr (Routine.ends_locals.mpr (Routine.ends_bind.mpr ?_))
  refine ends_callOut.mpr ⟨hallowed, fun reply => ends_interrupt.mpr (ends_orRaise.mpr ?_)⟩
  have hbatch' : Batch host runtime input vs (h ++ [⟨.dispatch v.call l.signal, reply⟩])
      ((l.interrupted (reply.value.interruptions ++ reply.interruptions)).bumped v) :=
    hbatch.append_dispatch hcharged
  refine ⟨fun result _ => hbatch', fun error herror => ?_⟩
  exact .of_threw ⟨hbatch'.signal, hbatch'.calm⟩ hbatch'.toSpent fun hheard hunprintable =>
    text_of_abortable hbatch.toSound rfl herror hheard hunprintable

theorem dispatchTool_ends (hbatch : Batch host runtime input (v :: vs) h l)
    (hcharged : Charged host l.repeated (progress h).dispatched v.call) :
    (dispatchTool runtime v).Ends (allowing runtime)
      (fun h l _ => Batch host runtime input vs h l) (Quit host runtime input) h l := by
  -- the call is dispatched and its success recorded
  have hblock : (do
      let result ← dispatch v.call
      Routine.assign fun l => l.bumped v
      persistToolLifecycle runtime { recordOf .succeeded v.call with result := some result }
      pure result : Body JsValue).Ends (allowing runtime)
        (fun h l _ => Batch host runtime input vs h l) (Quit host runtime input) h l := by
    refine Routine.ends_bind.mpr ((dispatch_ends hbatch hcharged).mono (fun h l result hbatch => ?_)
      fun _ _ _ => id)
    refine Routine.ends_bind.mpr (Routine.ends_assign.mpr (Routine.ends_bind.mpr ?_))
    exact persistToolLifecycle_ends steady_batch hbatch fun _ _ _ _ hquit => hquit
  refine Routine.ends_tryCatch.mpr (hblock.mono (fun _ _ _ => id) fun h l stop hquit => ?_)
  cases stop with
  -- a failure is recorded before it is thrown again
  | returned => exact hquit
  | threw error =>
    refine Routine.ends_bind.mpr (Routine.ends_locals.mpr ?_)
    have hfailing := hquit.failing
    dsimp only
    split
    · refine Routine.ends_bind.mpr ((persistToolLifecycle_ends steady_failing hfailing
        fun _ _ _ _ hquit => hquit).mono (fun h l _ hfailing => hfailing.quit) fun _ _ _ => id)
    · exact hfailing.quit

theorem storeResult_ends (hhost : host.opaqueText ≠ .error .unprintable) {result : JsValue}
    (hbatch : Batch host runtime input vs h l) :
    (storeResult host runtime v result).Ends (allowing runtime)
      (fun h l _ => Batch host runtime input vs h l) (Quit host runtime input) h l := by
  refine Routine.ends_bind.mpr (ends_orRaise.mpr ⟨fun content _ => ?_, fun error herror => ?_⟩)
  swap
  · refine .of_threw hbatch.toSound hbatch.toSpent fun _ hunprintable => ?_
    exact absurd (hunprintable ▸ herror) (stableStringify_ne_unprintable hhost _)
  have hblock : (do
      persistMessage runtime (.tool content v.call.id v.call.name)
      Routine.assign fun l => { l with
        messages := l.messages ++ [.tool content v.call.id v.call.name] } : Body Unit).Ends
      (allowing runtime) (fun h l _ => Batch host runtime input vs h l)
      (fun h l stop => Batch host runtime input vs h l ∧ stop ≠ .returned) h l := by
    refine Routine.ends_bind.mpr ((persistMessage_ends steady_batch hbatch fun h l error hbatch _ =>
      ⟨hbatch, by simp⟩).mono (fun h l _ hbatch => ?_) fun _ _ _ => id)
    exact { hbatch with }
  refine Routine.ends_tryCatch.mpr (hblock.mono (fun _ _ _ => id) fun h l stop hstop => ?_)
  cases stop with
  | returned => exact absurd rfl hstop.2
  | threw error =>
    refine Routine.ends_bind.mpr ((persistToolLifecycle_ends steady_batch hstop.1
      fun _ _ _ _ hquit => hquit).mono (fun h l _ hbatch => ?_) fun _ _ _ => id)
    exact .of_threw hbatch.toSound hbatch.toSpent fun _ hunprintable =>
      absurd hunprintable (by simp)

theorem steady_charged : Steady host runtime input fun h l =>
    Batch host runtime input (v :: vs) h l ∧
      Charged host l.repeated (progress h).dispatched v.call where
  sound _ _ hboth := hboth.1.toSound
  spent _ _ hboth := hboth.1.toSpent
  append h l e hboth he := by
    refine ⟨steady_batch.append h l e hboth.1 he, ?_⟩
    rw [progress_append_singleton, note_of_inert he]
    exact hboth.2

/-- The call is counted under its signature. -/
theorem Batch.charge (hbatch : Batch host runtime input (v :: vs) h l) :
    let l' := { l with
      repeated := l.repeated.set v.signature ((l.repeated.get v.signature).getD 0 + 1) }
    Batch host runtime input (v :: vs) h l' ∧
      Charged host l'.repeated (progress h).dispatched v.call := by
  -- counts only grow
  have hget : ∀ k, (l.repeated.get k).getD 0 ≤
      ((l.repeated.set v.signature ((l.repeated.get v.signature).getD 0 + 1)).get k).getD 0 := by
    intro k
    rw [FiniteMap.get_set]
    split
    · next hk =>
      subst hk
      exact Nat.le_succ _
    · exact le_rfl
  refine ⟨{ hbatch with
    repeated := fun name text => (hbatch.repeated name text).trans (hget _) }, ?_⟩
  intro name text hsame
  have hsignature := signature_of_sameCall (hbatch.signed v List.mem_cons_self) hsame
  have hrepeated := hbatch.repeated name text
  rw [← hsignature] at hrepeated ⊢
  simpa [FiniteMap.get_set] using hrepeated

theorem runTool_ends (hhost : host.opaqueText ≠ .error .unprintable)
    (hbatch : Batch host runtime input (v :: vs) h l) :
    (runTool host runtime v).Ends (allowing runtime)
      (fun h l _ => Batch host runtime input vs h l) (Quit host runtime input) h l := by
  refine Routine.ends_bind.mpr (Routine.ends_assign.mpr (Routine.ends_bind.mpr ?_))
  refine (persistToolLifecycle_ends steady_charged hbatch.charge fun _ _ _ _ hquit => hquit).mono
    (fun h l _ hboth => Routine.ends_bind.mpr ?_) fun _ _ _ => id
  refine (emit_ends steady_charged rfl hboth fun _ _ _ _ hquit _ => hquit).mono
    (fun h l _ hboth => Routine.ends_bind.mpr ?_) fun _ _ _ => id
  refine (persistToolLifecycle_ends steady_charged hboth fun _ _ _ _ hquit => hquit).mono
    (fun h l _ hboth => Routine.ends_bind.mpr ?_) fun _ _ _ => id
  refine (dispatchTool_ends hboth.1 hboth.2).mono
    (fun h l result hbatch => Routine.ends_bind.mpr ?_) fun _ _ _ => id
  exact (emit_ends steady_batch rfl hbatch fun _ _ _ _ hquit _ => hquit).mono
    (fun h l _ hbatch => storeResult_ends hhost hbatch) fun _ _ _ => id

theorem runTools_ends (hhost : host.opaqueText ≠ .error .unprintable)
    (hbatch : Batch host runtime input vs h l) :
    (runTools host runtime vs).Ends (allowing runtime)
      (fun h l _ => Batch host runtime input [] h l) (Quit host runtime input) h l := by
  induction vs generalizing h l with
  | nil => exact hbatch
  | cons v vs ih =>
    exact Routine.ends_bind.mpr ((runTool_ends hhost hbatch).mono (fun h l _ hbatch => ih hbatch)
      fun _ _ _ => id)

/-- Once all calls of a response are dispatched, the next response may come. -/
theorem Batch.idle (hbatch : Batch host runtime input [] h l) :
    Idle host runtime input l.activeProvider h l where
  toSound := hbatch.toSound
  toSpent := hbatch.toSpent
  count := hbatch.count
  repeated := hbatch.repeated
  locked i hi := by
    refine ⟨hbatch.locked i hi, ?_⟩
    simpa using hbatch.proposed (.inl (by simp [hi]))

end Tools

/-! ### The whole run -/

section Run

variable {host : Host} {runtime : AgentRuntime} {input : RunInput} {h : List (Entry interface)}
  {l : Locals}

/-- How a run is left. -/
structure Finished (host : Host) (runtime : AgentRuntime) (input : RunInput)
    (h : List (Entry interface)) : Prop extends Spent host runtime h where
  ended : Each (Heard input) h → Ended h

theorem emit_terminal_ends {event : AgentEvent} (hs : Sound input h l)
    (hspent : Spent host runtime h) (hevent : event.terminal = true) :
    (emit event).Ends (allowing runtime) (fun h _ _ => Finished host runtime input h)
      (fun h l stop => Finished host runtime input h ∧ Quit host runtime input h l stop) h l := by
  refine Routine.ends_bind.mpr (ends_callOut.mpr ⟨trivial, fun reply => ends_interrupt.mpr ?_⟩)
  have hfinished : Finished host runtime input (h ++ [⟨.yield event, reply⟩]) := by
    refine ⟨hspent.append (by rw [progress_append_singleton]; rfl), fun hheard => ?_⟩
    exact ⟨h, _, rfl, hevent, hs.calm hheard.of_append⟩
  have hsignal : (l.interrupted reply.interruptions).signal.aborted =
      abortedBy input (h ++ [⟨.yield event, reply⟩]) := by
    rw [aborted_interrupted, hs.signal, abortedBy_append_singleton]
    rfl
  cases hvalue : reply.value with
  | next => exact hfinished
  | returned =>
    exact ⟨hfinished, hsignal, hfinished.toSpent, fun hheard => .inl ⟨rfl, hfinished.ended hheard⟩⟩
  | threw error =>
    refine ⟨hfinished, hsignal, hfinished.toSpent, fun hheard => ?_⟩
    have htaken : reply.value = .next ∨ event.terminal = true ∧ reply.value = .returned :=
      (each_concat.mp hheard).2.2
    simp [hvalue] at htaken

theorem iterate_ends (hhost : host.opaqueText ≠ .error .unprintable) {iterations : List Nat}
    (hidle : Idle host runtime input l.activeProvider h l) :
    (iterate host runtime iterations).Ends (allowing runtime)
      (fun h _ _ => Finished host runtime input h) (Quit host runtime input) h l := by
  -- on the turns that are left; a turn that goes on comes back to `Idle`
  induction iterations generalizing h l with
  | nil => exact hidle.quit_runtime
  | cons iteration rest ih =>
    refine Routine.ends_bind.mpr (Routine.ends_locals.mpr ?_)
    cases hreason : l.signal.reason with
    | some reason =>
      exact .of_threw hidle.toSound hidle.toSpent fun _ _ => by simp [Signal.aborted, hreason]
    | none =>
      have hsteady : Steady host runtime input fun h l' =>
          Idle host runtime input l.activeProvider h l' ∧ l'.activeProvider = l.activeProvider :=
        steady_idle.and fun _ _ => id
      refine Routine.ends_bind.mpr ((emit_ends hsteady rfl ⟨hidle, rfl⟩
        fun _ _ _ _ hquit _ => hquit).mono (fun h l' _ hl' => ?_) fun _ _ _ => id)
      obtain ⟨hidle, hactive⟩ := hl'
      rw [← hactive] at hidle
      refine Routine.ends_bind.mpr (Routine.ends_locals.mpr (Routine.ends_bind.mpr ?_))
      refine (requestModel_ends hidle).mono (fun h l response hchecking => ?_) fun _ _ _ => id
      -- what the model answered: no calls end the run, calls are checked before the first is made
      obtain ⟨content, toolCalls⟩ := response
      refine Routine.ends_bind.mpr (Routine.ends_locals.mpr ?_)
      split
      · refine Routine.ends_bind.mpr ((persistMessage_ends steady_checking hchecking
          fun h l error _ hquit => hquit (by simp)).mono (fun h l _ hchecking => ?_)
            fun _ _ _ => id)
        exact (emit_terminal_ends hchecking.toSound hchecking.toSpent rfl).mono
          (fun _ _ _ => id) fun _ _ _ hquit => hquit.2
      split
      · exact hchecking.quit_runtime
      split
      · exact hchecking.quit_runtime
      next hbudget =>
      split
      · exact hchecking.quit_runtime
      next htools =>
      refine Routine.ends_bind.mpr ((validateCalls_ends hhost hchecking (by simp)).mono
        (fun h l' vs hvs => ?_) fun _ _ _ => id)
      obtain ⟨hchecking, hcalls, hadmitted, hcount⟩ := hvs
      rw [List.nil_append, ← hchecking.active] at hchecking
      have hbatch := hchecking.batch hcalls hadmitted (by simpa using htools) (by
        rw [hcount, ← List.length_map, requestedCalls_length hcalls]
        exact Nat.not_lt.mp hbudget)
      refine Routine.ends_bind.mpr ((persistMessage_ends steady_batch hbatch
        fun h l error _ hquit => hquit (by simp)).mono (fun h l _ hbatch => ?_) fun _ _ _ => id)
      refine Routine.ends_bind.mpr (Routine.ends_assign.mpr (Routine.ends_bind.mpr ?_))
      have hbatch : Batch host runtime input vs h
        { l with messages := l.messages ++ [.assistant content toolCalls] } := { hbatch with }
      exact (runTools_ends hhost hbatch).mono (fun h l _ hbatch => ih hbatch.idle) fun _ _ _ => id

theorem report_ends {stop : Stop} (hquit : Quit host runtime input h l stop) :
    (report stop).Ends (allowing runtime) (fun h _ _ => Finished host runtime input h)
      (fun h _ _ => Finished host runtime input h) h l := by
  cases stop with
  | returned =>
    refine ⟨hquit.spent, fun hheard => ?_⟩
    obtain ⟨-, hended⟩ | ⟨-, error, hstop, -⟩ := hquit.ended hheard
    · exact hended
    · exact absurd hstop (by simp)
  | threw error =>
    have hfailing := hquit.failing
    have hemit : ∀ event : AgentEvent, event.terminal = true → (emit event).Ends (allowing runtime)
        (fun h _ _ => Finished host runtime input h)
        (fun h _ _ => Finished host runtime input h) h l :=
      fun event hevent => (emit_terminal_ends hfailing.toSound hfailing.toSpent hevent).mono
        (fun _ _ _ => id) fun _ _ _ hleft => hleft.1
    refine Routine.ends_bind.mpr (Routine.ends_locals.mpr ?_)
    cases hreason : l.signal.reason with
    | some reason =>
      dsimp only
      split
      · exact hemit _ rfl
      · exact hemit _ rfl
    | none =>
      refine Routine.ends_bind.mpr
        (ends_orRaise.mpr ⟨fun message _ => hemit _ rfl, fun _ herror => ?_⟩)
      refine ⟨hfailing.toSpent, fun hheard => ?_⟩
      -- without a text the run would have been aborted
      have hunprintable : error = .unprintable := by
        cases error <;> simp_all [Thrown.text]
      have haborted := hfailing.text hheard hunprintable
      simp [Signal.aborted, hreason] at haborted

theorem idle_start : Idle host runtime input 0 [] (.start input) where
  signal := by simp [Locals.start, Signal.aborted, abortedBy]
  calm := by simp
  tools := by simp [progress, Progress.start]
  repeats := by simp [progress, Progress.start, callCount]
  count := rfl
  repeated := by simp [progress, Progress.start, callCount]
  locked := by simp [progress, Progress.start]

theorem run_ends (hhost : host.opaqueText ≠ .error .unprintable) :
    (run host runtime).Ends (allowing runtime) (fun h _ _ => Finished host runtime input h)
      (fun h _ _ => Finished host runtime input h) [] (.start input) := by
  have hsteady : Steady host runtime input fun h l =>
      Idle host runtime input 0 h l ∧ l.activeProvider = 0 := steady_idle.and fun _ _ => id
  refine Routine.ends_bind.mpr ((emit_ends hsteady rfl ⟨idle_start, rfl⟩
    fun h l stop _ hquit hunheard => ⟨hquit.spent, fun hheard => absurd hheard hunheard⟩).mono
      (fun h l _ hl => ?_) fun _ _ _ => id)
  obtain ⟨hidle, hactive⟩ := hl
  rw [← hactive] at hidle
  exact Routine.ends_tryCatch.mpr ((iterate_ends hhost hidle).mono (fun _ _ _ => id)
    fun h l stop hquit => report_ends hquit)

end Run

/-- A run keeps to its limits where its responses ask for no more than may be repeated, the consumer
takes every event, and what is thrown has a text. -/
theorem budgeted_of (host : Host) (runtime : AgentRuntime) (input : RunInput)
    (env : Environment interface) (hhost : host.opaqueText ≠ .error .unprintable)
    (hfits : Each (Fits host runtime) (transcript host runtime input env))
    (hheard : Each (Heard input) (transcript host runtime input env)) :
    Budgeted host runtime (transcript host runtime input env) := by
  have hrun : (run host runtime).Ends (allowing runtime) (fun h _ _ => Finished host runtime input h)
      (fun h _ _ => Finished host runtime input h) [] (.start input) := run_ends hhost
  obtain ⟨hallowed, ⟨result, l⟩, hends⟩ := Prog.Safe.each hrun (each_nil _) env
  have hfinished : Finished host runtime input (transcript host runtime input env) := by
    cases result with
    | ok u => exact hends
    | error stop => exact hends
  exact ⟨hfinished.tools, hfinished.repeats hfits, hallowed, hfinished.ended hheard⟩

/-! ### Runs of one tool -/

section Runs

def plainHost : Host := ⟨⟨id, fun _ => "1"⟩, fun a b => a ≤ b, .ok "undefined"⟩

def smallRuntime : AgentRuntime :=
  { sampleRuntime with persistMessage := false, persistToolLifecycle := false }

def quoteCall (id : String) : JsValue :=
  .object [("id", .string id), ("name", .string "quote"), ("arguments", .object [])]

def answer (calls : List (String × JsValue)) : JsValue :=
  .object [("message", .object ([("role", .string "assistant"), ("content", .string "")] ++ calls))]

/-- The model calls one tool under each of the ids and is done after that. -/
def quoting (ids : List String) (quoted : Settled JsValue) : Environment interface
  | _, .complete _ [_] _ => ⟨.resolved (answer [("toolCalls", .array (ids.map quoteCall))]), []⟩
  | _, .complete .. => ⟨.resolved (answer []), []⟩
  | _, .classify _ => ⟨.ok (some .read), []⟩
  | _, .dispatch .. => ⟨quoted, []⟩
  | _, .persistMessage _ => ⟨.ok (), []⟩
  | _, .persistToolLifecycle _ => ⟨.ok (), []⟩
  | _, .yield _ => ⟨.next, []⟩

def quotingRun (ids : List String) (quoted : Settled JsValue) : List (Entry interface) :=
  transcript plainHost smallRuntime ⟨[.user "hi"], none⟩ (quoting ids quoted)

/-- One response repeats a call past the limit; and a run whose tool rejects with a value without a
text ends with no terminal event. -/
theorem repeated_past_limit :
    callCount plainHost "quote" "\x7b\x7d"
        (progress (quotingRun ["a", "b", "c", "d"] (.resolved .null))).dispatched = 4 ∧
      ¬ Budgeted plainHost smallRuntime (quotingRun ["a", "b", "c", "d"] (.resolved .null)) ∧
      ¬ Ended (quotingRun ["a"] (.rejected .unprintable)) := by
  have hcount : callCount plainHost "quote" "\x7b\x7d"
      (progress (quotingRun ["a", "b", "c", "d"] (.resolved .null))).dispatched = 4 := by
    decide +kernel
  refine ⟨hcount, fun hbudgeted => ?_, ?_⟩
  · have hle := hbudgeted.repeats "quote" "\x7b\x7d"
    rw [hcount] at hle
    exact absurd hle (by decide)
  · have hlast :
        (quotingRun ["a"] (.rejected .unprintable)).getLast?.map terminal = some false := by
      decide +kernel
    rintro ⟨before, e, hrun, hterminal, -⟩
    rw [hrun, List.getLast?_concat, Option.map_some, hterminal] at hlast
    exact absurd hlast (by simp)

/-- A response with one call is within the limit in any case. -/
theorem within_of_length_le_one {host : Host} {runtime : AgentRuntime}
    {dispatched calls : List ToolCall} (h : calls.length ≤ 1) :
    Within host runtime dispatched calls := by
  intro name text
  have hle : callCount host name text calls ≤ calls.length := List.countP_le_length
  omega

theorem heard_quoting (ids : List String) (input : RunInput) (h : List (Entry interface)) (o : Op) :
    Heard input h ⟨o, quoting ids (.resolved .null) h o⟩ := by
  cases o with
  | «yield» event => exact ⟨by simp [thrownBy], .inl rfl⟩
  | persistMessage message => cases message <;> exact ⟨by simp [thrownBy, quoting], trivial⟩
  | complete | classify | dispatch | persistToolLifecycle =>
    exact ⟨by simp [thrownBy, quoting], trivial⟩

/-- One call of the tool and the answer after it. -/
theorem budgeted_of_quote :
    Budgeted plainHost smallRuntime (quotingRun ["a"] (.resolved .null)) := by
  unfold quotingRun
  refine budgeted_of plainHost smallRuntime ⟨[.user "hi"], none⟩ (quoting ["a"] (.resolved .null))
    (by simp [plainHost]) ?_ ?_
  · refine Prog.each_transcript (fun h o => ?_) _ (each_nil _)
    cases o with
    | complete index messages signal =>
      intro value content values calls hvalue hvalidate hcalls _ _
      refine within_of_length_le_one ?_
      rw [requestedCalls_length hcalls]
      -- the model calls the tool in its first answer only
      have hanswer : ∃ calls : List (String × JsValue), value = answer calls ∧
          (calls = [] ∨ calls = [("toolCalls", .array [quoteCall "a"])]) := by
        rcases messages with _ | ⟨m, _ | ⟨m', ms⟩⟩ <;>
          simp only [quoting, Settled.resolved.injEq] at hvalue
        · exact ⟨[], hvalue.symm, .inl rfl⟩
        · exact ⟨_, hvalue.symm, .inr rfl⟩
        · exact ⟨[], hvalue.symm, .inl rfl⟩
      obtain ⟨calls, rfl, rfl | rfl⟩ := hanswer
      · have hnone : validateResponse (answer []) = .ok ("", none) := by rfl
        simp [hnone] at hvalidate
      · have hone : validateResponse (answer [("toolCalls", .array [quoteCall "a"])]) =
            .ok ("", some [quoteCall "a"]) := by rfl
        rw [hone] at hvalidate
        simp only [Except.ok.injEq, Prod.mk.injEq, Option.some.injEq] at hvalidate
        simp [← hvalidate.2]
    | classify | dispatch | persistMessage | persistToolLifecycle | «yield» => trivial
  · exact Prog.each_transcript (heard_quoting ["a"] _) _ (each_nil _)

end Runs

end AriOs.Agent
