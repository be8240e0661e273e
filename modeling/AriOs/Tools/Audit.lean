import AriOs.Tools.Registry

/-!
# What the audit is told

Every invocation tells the audit how it ended, once, and before that it tells that it starts if it
comes so far. No execution begins before the audit was told; and what is returned as the data of a
tool is what its execution returned, through the schema of its output.
-/

namespace AriOs.Tools

open AriOs.Async AriOs.Js

variable {I : Interface} {R : ToolRegistry I}

/-- The executions of a registry. -/
abbrev Executions (R : ToolRegistry I) := Pool I Unit (Granted R) (Except String JsValue)

/-- An execution has returned what the data is read from. -/
def Returned (c : Call I (Granted R) (Except String JsValue)) : Outcome → Prop
  | .ok data => ∃ result, c.result? = some (.ok result) ∧
    c.request.tool.outputSchema result = .ok data
  | .failed _ => True

/-- An invocation was refused, with the tool of its name if there is one, or has started and
ended. -/
def Ended (executions : Executions R) (v : Invocation R) (outcome : Outcome) : Prop :=
  (outcome.code? ≠ none ∧
      v.trail = [v.event (R.find? v.request.name) (some outcome.code?)]) ∨
    ∃ c ∈ executions.calls, c.request.request = v.request ∧ Returned c outcome ∧
      v.trail = [v.event (some c.request.tool) none,
        v.event (some c.request.tool) (some outcome.code?)]

/-- What the audit was told of an invocation, and what its result is. -/
def Told (executions : Executions R) (v : Invocation R) : Prop :=
  match v.stage with
  | .arrived => v.trail = []
  | .checking p => p.request = v.request ∧ v.trail = []
  | .starting g => g.request = v.request ∧ v.trail = [v.event (some g.tool) none]
  | .racing g t => g.request = v.request ∧ v.trail = [v.event (some g.tool) none] ∧
    ∃ c, executions.calls[t]? = some c ∧ c.request = g
  | .finishing outcome | .done outcome => Ended executions v outcome

/-! ### What happens to one invocation -/

section Invocation

variable {v w : Invocation R} {executions executions' : Executions R} {g : Granted R} {t : Nat}
  {c : Call I (Granted R) (Except String JsValue)}

/-- The invocation goes on. -/
structure Follows (v w : Invocation R) : Prop where
  request : w.request = v.request
  id : w.id = v.id
  trail : v.trail ⊆ w.trail

theorem Follows.refl (v : Invocation R) : Follows v v := ⟨rfl, rfl, List.Subset.refl _⟩

theorem Follows.finish (h : Follows v w) (tool : Option (ToolDefinition I)) (outcome : Outcome) :
    Follows v (w.finish tool outcome) :=
  ⟨h.request, h.id, List.Subset.trans h.trail (List.subset_append_left _ _)⟩

theorem Follows.event (h : Follows v w) (tool : Option (ToolDefinition I))
    (finish : Option (Option ErrorCode)) : w.event tool finish = v.event tool finish := by
  rw [Invocation.event, Invocation.event, h.request, h.id]

/-- The executions go on: none is forgotten, and what has ended is over. -/
def Extends (executions executions' : Executions R) : Prop :=
  ∀ (t : Nat) (c : Call I (Granted R) (Except String JsValue)), executions.calls[t]? = some c →
    ∃ c' : Call I (Granted R) (Except String JsValue), executions'.calls[t]? = some c' ∧
    c'.request = c.request ∧ ∀ r, c.result? = some r → c'.result? = some r

theorem Returned.mono {c c' : Call I (Granted R) (Except String JsValue)} {outcome : Outcome}
    (h : Returned c outcome) (hrequest : c'.request = c.request)
    (hresult : ∀ r, c.result? = some r → c'.result? = some r) : Returned c' outcome := by
  cases outcome with
  | failed error => trivial
  | ok data =>
    obtain ⟨result, hreturned, hparsed⟩ := h
    exact ⟨result, hresult _ hreturned, hrequest ▸ hparsed⟩

theorem Ended.mono {outcome : Outcome} (h : Ended executions v outcome)
    (hext : Extends executions executions') : Ended executions' v outcome := by
  refine h.imp_right ?_
  rintro ⟨c, hc, hrequest, hreturned, htrail⟩
  obtain ⟨t, ht⟩ := List.mem_iff_getElem?.mp hc
  obtain ⟨c', hc', hsame, hresult⟩ := hext t c ht
  refine ⟨c', List.mem_of_getElem? hc', ?_, hreturned.mono hsame hresult, ?_⟩
  · rw [hsame, hrequest]
  · rw [hsame, htrail]

theorem Told.mono (h : Told executions v) (hext : Extends executions executions') :
    Told executions' v := by
  unfold Told at h ⊢
  cases hstage : v.stage with
  | arrived | checking | starting => rwa [hstage] at h
  | finishing | done =>
    rw [hstage] at h
    exact h.mono hext
  | racing g t =>
    rw [hstage] at h
    obtain ⟨hrequest, htrail, c, hc, hg⟩ := h
    obtain ⟨c', hc', hsame, -⟩ := hext t c hc
    exact ⟨hrequest, htrail, c', hc', hsame.trans hg⟩

/-- It is refused. -/
theorem told_refuse (htrail : v.trail = []) {tool : Option (ToolDefinition I)}
    (htool : R.find? v.request.name = tool) (code : ErrorCode) (message : String)
    (details : Option JsValue) :
    Told executions (v.finish tool (failure code message details)) := by
  refine .inl ⟨by simp [failure, Outcome.code?], ?_⟩
  rw [Invocation.finish, htrail, ← htool]
  rfl

/-- It ends, after it has started. -/
theorem told_finish (hc : c ∈ executions.calls) (hrequest : c.request.request = v.request)
    (htrail : v.trail = [v.event (some c.request.tool) none]) {outcome : Outcome}
    (hreturned : Returned c outcome) :
    Told executions (v.finish (some c.request.tool) outcome) := by
  refine .inr ⟨c, hc, hrequest, hreturned, ?_⟩
  rw [Invocation.finish, htrail]
  rfl

theorem told_check (htrail : v.trail = []) : Told executions v.check ∧ Follows v v.check := by
  unfold Invocation.check
  split
  · rename_i hunknown
    exact ⟨told_refuse htrail hunknown _ _ _, (Follows.refl v).finish _ _⟩
  · rename_i tool hfound
    split_ifs
    · exact ⟨⟨rfl, htrail⟩, rfl, rfl, List.Subset.refl _⟩
    · exact ⟨told_refuse htrail hfound _ _ _, (Follows.refl v).finish _ _⟩

theorem told_available {p : Permitted R} (hrequest : p.request = v.request) (htrail : v.trail = [])
    (seen : JsValue) : Told executions (v.available p seen) ∧ Follows v (v.available p seen) := by
  have hfound : R.find? v.request.name = some p.tool := hrequest ▸ p.registered
  unfold Invocation.available
  split
  · exact ⟨told_refuse htrail hfound _ _ _, (Follows.refl v).finish _ _⟩
  · split_ifs
    · split
      · exact ⟨told_refuse htrail hfound _ _ _, (Follows.refl v).finish _ _⟩
      · refine ⟨⟨hrequest, ?_⟩, rfl, rfl, List.subset_append_left _ _⟩
        dsimp only
        rw [htrail]
        rfl
    · exact ⟨told_refuse htrail hfound _ _ _, (Follows.refl v).finish _ _⟩

/-- The execution that it waits for has ended. -/
theorem told_settle {result : Except String JsValue} (hc : c ∈ executions.calls)
    (hrequest : c.request.request = v.request)
    (htrail : v.trail = [v.event (some c.request.tool) none]) (hresult : c.result? = some result) :
    Told executions (v.settle c.request result) ∧ Follows v (v.settle c.request result) := by
  cases result with
  | error message => exact ⟨told_finish hc hrequest htrail trivial, (Follows.refl v).finish _ _⟩
  | ok data =>
    refine ⟨told_finish hc hrequest htrail ?_, (Follows.refl v).finish _ _⟩
    cases houtput : c.request.tool.outputSchema data with
    | error details => trivial
    | ok output => exact ⟨data, hresult, houtput⟩

theorem told_abort (h : Told executions v) (timeout : Bool) (reason : String) :
    Told executions (v.abort timeout reason) ∧ Follows v (v.abort timeout reason) := by
  unfold Invocation.abort
  unfold Told at h
  cases hstage : v.stage with
  | arrived | checking | finishing | done =>
    dsimp only
    refine ⟨?_, Follows.refl v⟩
    rw [hstage] at h
    unfold Told
    rwa [hstage]
  | starting g =>
    rw [hstage] at h
    exact ⟨h, rfl, rfl, List.Subset.refl _⟩
  | racing g t =>
    rw [hstage] at h
    obtain ⟨hrequest, htrail, c, hc, rfl⟩ := h
    exact ⟨told_finish (List.mem_of_getElem? hc) hrequest htrail trivial,
      rfl, rfl, List.subset_append_left _ _⟩

theorem told_signal (h : Told executions v) (reason : String) :
    Told executions (v.signal reason) ∧ Follows v (v.signal reason) := by
  unfold Invocation.signal
  split
  · exact ⟨h, Follows.refl v⟩
  · obtain ⟨htold, hfollows⟩ := told_abort (v := { v with signalled := some reason }) h false reason
    exact ⟨htold, hfollows.request, hfollows.id, hfollows.trail⟩

/-- The execution begins, and may have ended at once. -/
theorem told_started (hc : executions.calls[t]? = some c)
    (hrequest : c.request.request = v.request)
    (htrail : v.trail = [v.event (some c.request.tool) none]) :
    Told executions (v.started c.request t c.result?) ∧
      Follows v (v.started c.request t c.result?) := by
  unfold Invocation.started
  dsimp only
  cases hresult : c.result? with
  | some result =>
    obtain ⟨htold, hfollows⟩ := told_settle (v := { v with
      stage := .racing c.request t, reason := v.reason.or v.signalled })
      (List.mem_of_getElem? hc) hrequest htrail hresult
    exact ⟨htold, hfollows.request, hfollows.id, hfollows.trail⟩
  | none =>
    dsimp only
    split
    · exact ⟨told_finish (List.mem_of_getElem? hc) hrequest htrail trivial,
        rfl, rfl, List.subset_append_left _ _⟩
    · exact ⟨⟨hrequest, htrail, c, hc, rfl⟩, rfl, rfl, List.Subset.refl _⟩

theorem told_awaited (h : Told executions v) :
    Told executions (Registry.awaited executions v) ∧
      Follows v (Registry.awaited executions v) := by
  unfold Registry.awaited
  cases hstage : v.stage with
  | racing g t =>
    obtain ⟨hrequest, htrail, c, hc, rfl⟩ : g.request = v.request ∧
        v.trail = [v.event (some g.tool) none] ∧
        ∃ c, executions.calls[t]? = some c ∧ c.request = g := by
      simpa only [Told, hstage] using h
    dsimp only
    rw [hc, Option.bind_some]
    cases hresult : c.result? with
    | none => exact ⟨h, Follows.refl v⟩
    | some result => exact told_settle (List.mem_of_getElem? hc) hrequest htrail hresult
  | arrived | checking | starting | finishing | done => exact ⟨h, Follows.refl v⟩

end Invocation

/-! ### Runs -/

section Runs

variable {M : Machine I Unit} {Q : Request → Prop} {s : Registry R} {v w : Invocation R} {i : Nat}
  {c : Call I (Granted R) (Except String JsValue)} {e : Event I} {es : List (Event I)}

/-- The audit was told by this invocation that the execution begins. -/
def Begins (v : Invocation R) (c : Call I (Granted R) (Except String JsValue)) : Prop :=
  c.request.request = v.request ∧ v.event (some c.request.tool) none ∈ v.trail

/-- What was told of an execution stays told. -/
theorem Follows.begins (h : Follows v w) (hc : Begins v c) : Begins w c :=
  ⟨hc.1.trans h.request.symm, h.event _ _ ▸ h.trail hc.2⟩

/-- The audit was told what happened to the invocations, which were asked for, and of every
execution that it was to begin. -/
structure Sound (Q : Request → Prop) (s : Registry R) : Prop where
  told : ∀ v ∈ s.invocations, Told s.executions v ∧ Q v.request
  begun : ∀ c ∈ s.executions.calls, ∃ v ∈ s.invocations, Begins v c

theorem extends_refl (executions : Executions R) : Extends executions executions :=
  fun _ c hc => ⟨c, hc, rfl, fun _ h => h⟩

theorem extends_spawn (executions : Executions R) (g : Granted R) :
    Extends executions (executions.spawn execution g) := by
  intro t c hc
  refine ⟨c, ?_, rfl, fun _ h => h⟩
  change (executions.calls ++ _)[t]? = some c
  rw [List.getElem?_append_left (List.getElem?_eq_some_iff.mp hc).1, hc]

theorem extends_step (executions : Executions R) (t : Nat) (ans : ∀ o, I.Ans o) :
    Extends executions (executions.step M t ans) := by
  intro u c hc
  rcases Pool.step_cases (M := M) executions t ans with heq | ⟨d, o, k, hd, hrest, heq⟩
  · rw [heq]
    exact ⟨c, hc, rfl, fun _ h => h⟩
  · rw [heq]
    by_cases hut : t = u
    · subst hut
      obtain rfl : c = d := Option.some_inj.mp (hc.symm.trans hd)
      refine ⟨_, List.getElem?_set_self (List.getElem?_eq_some_iff.mp hc).1, rfl, ?_⟩
      -- an execution that still makes calls has not ended
      intro r hr
      rw [Call.result?_eq_some, hrest] at hr
      cases hr
    · exact ⟨c, (List.getElem?_set_ne hut).trans hc, rfl, fun _ h => h⟩

/-- Something happens to one invocation, which may begin an execution. -/
theorem Sound.set (h : Sound Q s) {executions : Executions R}
    (hext : Extends s.executions executions)
    (hbegun : ∀ c ∈ executions.calls, c ∈ s.executions.calls ∨ Begins w c)
    (hv : s.invocations[i]? = some v) (hw : Told executions w ∧ Follows v w) :
    Sound Q { s with executions, invocations := s.invocations.set i w } where
  told u hu := by
    rcases List.mem_or_eq_of_mem_set hu with hu | rfl
    · exact ⟨(h.told u hu).1.mono hext, (h.told u hu).2⟩
    · exact ⟨hw.1, hw.2.request ▸ (h.told v (List.mem_of_getElem? hv)).2⟩
  begun c hc := by
    have hmem : w ∈ s.invocations.set i w := List.mem_set (List.getElem?_eq_some_iff.mp hv).1 w
    rcases hbegun c hc with hc | hc
    · obtain ⟨u, hu, hbegins⟩ := h.begun c hc
      obtain ⟨j, hj⟩ := List.mem_iff_getElem?.mp hu
      by_cases hij : i = j
      · subst hij
        obtain rfl : v = u := Option.some_inj.mp (hv.symm.trans hj)
        exact ⟨w, hmem, hw.2.begins hbegins⟩
      · exact ⟨u, List.mem_of_getElem? ((List.getElem?_set_ne hij).trans hj), hbegins⟩
    · exact ⟨w, hmem, hc⟩

/-- Something happens to one invocation, and no execution begins. -/
theorem Sound.modify (h : Sound Q s) {f : Invocation R → Invocation R}
    (hf : ∀ v, Told s.executions v → Told s.executions (f v) ∧ Follows v (f v)) (i : Nat) :
    Sound Q { s with invocations := s.invocations.modify i f } := by
  rw [List.modify_eq_set_getElem?]
  cases hv : s.invocations[i]? with
  | none => exact h
  | some v =>
    exact h.set (extends_refl _) (fun _ => .inl) hv (hf v (h.told v (List.mem_of_getElem? hv)).1)

theorem Sound.invoke (h : Sound Q s) {r : Request} (hr : Q r) : Sound Q (s.invoke r) where
  told v hv := by
    rcases List.mem_append.mp hv with hv | hv
    · exact h.told v hv
    · obtain ⟨htold, hfollows⟩ : Told s.executions _ ∧ Follows _ _ := told_check (v := ⟨r,
        r.invocationId.getD ("tool-" ++ toString (s.sequence + 1)), .arrived, r.aborted, none, false,
        []⟩) rfl
      rw [List.mem_singleton.mp hv]
      exact ⟨htold, hfollows.request ▸ hr⟩
  begun c hc := by
    obtain ⟨v, hv, hbegins⟩ := h.begun c hc
    exact ⟨v, List.mem_append_left _ hv, hbegins⟩

theorem Sound.emitted (h : Sound Q s) (i : Nat) : Sound Q (s.emitted i) := by
  unfold Registry.emitted
  cases hv : s.invocations[i]? with
  | none => exact h
  | some v =>
    have htold := (h.told v (List.mem_of_getElem? hv)).1
    dsimp only
    cases hstage : v.stage with
    | arrived | checking | racing | done => exact h
    | finishing outcome =>
      rw [Told, hstage] at htold
      exact h.set (extends_refl _) (fun _ => .inl) hv ⟨htold, rfl, rfl, List.Subset.refl _⟩
    | starting g =>
      rw [Told, hstage] at htold
      have hnew : (s.executions.spawn execution g).calls[s.executions.calls.length]? =
          some ⟨g, [], some (execution g)⟩ := List.getElem?_concat_length
      dsimp only
      rw [hnew, Option.bind_some]
      have hstarted := told_started hnew htold.1 htold.2
      refine h.set (extends_spawn _ g) (fun c hc => ?_) hv hstarted
      -- the new execution is the one of this invocation
      refine (List.mem_append.mp hc).imp_right fun hc => ?_
      rw [List.mem_singleton.mp hc]
      exact hstarted.2.begins ⟨htold.1, htold.2 ▸ List.mem_singleton_self _⟩

theorem Sound.execute (h : Sound Q s) (t : Nat) (ans : ∀ o, I.Ans o) :
    Sound Q (step M s (.execute t ans)) where
  told w hw := by
    obtain ⟨v, hv, rfl⟩ := List.mem_map.mp hw
    obtain ⟨htold, hfollows⟩ := told_awaited ((h.told v hv).1.mono (extends_step (M := M) _ t ans))
    exact ⟨htold, hfollows.request ▸ (h.told v hv).2⟩
  begun c hc := by
    obtain ⟨d, hd, hsame⟩ : ∃ d ∈ s.executions.calls, d.request = c.request := by
      rcases Pool.step_cases (M := M) s.executions t ans with heq | ⟨d, o, k, hd, -, heq⟩
      · exact ⟨c, heq ▸ hc, rfl⟩
      · change c ∈ (s.executions.step M t ans).calls at hc
        rw [heq] at hc
        rcases List.mem_or_eq_of_mem_set hc with hc | rfl
        · exact ⟨c, hc, rfl⟩
        · exact ⟨d, List.mem_of_getElem? hd, rfl⟩
    obtain ⟨v, hv, hbegins⟩ := h.begun d hd
    have htold := (h.told v hv).1.mono (extends_step (M := M) _ t ans)
    exact ⟨_, List.mem_map_of_mem hv,
      (told_awaited htold).2.begins ⟨hsame ▸ hbegins.1, hsame ▸ hbegins.2⟩⟩

theorem Sound.step (h : Sound Q s) (he : ∀ r, e = .invoke r → Q r) : Sound Q (step M s e) := by
  cases e with
  | invoke r => exact h.invoke (he r rfl)
  | available i seen =>
    refine h.modify (fun v hv => ?_) i
    cases hstage : v.stage with
    | checking p =>
      rw [Told, hstage] at hv
      exact told_available hv.1 hv.2 seen
    | arrived | starting | racing | finishing | done => exact ⟨hv, Follows.refl v⟩
  | emitted i => exact h.emitted i
  | abort i reason => exact h.modify (fun v hv => told_signal hv reason) i
  | timeout i => exact h.modify (fun v hv => told_abort hv true _) i
  | execute t ans => exact h.execute t ans

theorem sound_run : Sound (fun r => .invoke r ∈ es) (run R M es) :=
  List.foldlRecOn es (Tools.step M)
    ⟨fun _ hv => absurd hv List.not_mem_nil, fun _ hc => absurd hc List.not_mem_nil⟩
    fun _ h _ hmem => h.step fun _ he => he ▸ hmem

/-- In every run, whatever the tools answer and whenever the audit, the timers and the callers'
signals come: the audit was told of every invocation what its result says, once, and that it
started if it did; every execution belongs to such an invocation, and was told of before; and where
an invocation returns data, its execution has returned what the schema made the data of. -/
theorem invocations_told (R : ToolRegistry I) (M : Machine I Unit) (es : List (Event I)) :
    (∀ v ∈ (run R M es).invocations, Told (run R M es).executions v) ∧
      ∀ c ∈ (run R M es).executions.calls, ∃ v ∈ (run R M es).invocations,
        c.request.request = v.request ∧ v.event (some c.request.tool) none ∈ v.trail :=
  ⟨fun v hv => (sound_run.told v hv).1, sound_run.begun⟩

end Runs

end AriOs.Tools
