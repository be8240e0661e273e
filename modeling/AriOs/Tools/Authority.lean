import AriOs.Tools.Audit
import AriOs.Tools.Bridge

/-!
# What tools may move

Only what was granted the capability to write can move value, however invocations interleave, time
out or are cancelled, and also where the execution goes on after its invocation was given up.
-/

namespace AriOs.Tools

open AriOs.Async AriOs.Js TRADING_CAPABILITIES

/-- A call that moves value. -/
def ToolOp.MovesValue : ToolOp → Prop
  | .execute _ _ _ | .trade _ _ => True
  | _ => False

instance ToolOp.decidableMovesValue : DecidablePred ToolOp.MovesValue
  | .execute _ _ _ | .trade _ _ => isTrue trivial
  | .context | .newIdempotencyKey | .confirmedByUser _ _ | .read _ | .now | .quote _ => isFalse id

instance (e : Entry tooling) : Decidable (ToolOp.MovesValue e.op) :=
  ToolOp.decidableMovesValue e.op

/-- An execution: its tool and its input, and what it has called so far. -/
abbrev Progress := Trace tooling (ToolDefinition tooling × JsValue)

/-- It has not moved anything. -/
def Untouched (v : Progress) : Prop := ∀ e ∈ v.history, ¬ ToolOp.MovesValue e.op

/-- The tool needs a capability to write. -/
def NeedsWrite (tool : ToolDefinition tooling) : Prop :=
  ORDER_WRITE ∈ tool.capabilities ∨ POSITION_WRITE ∈ tool.capabilities

/-- What the tool promises when it makes a call: what moves value needs the capability for it, and
comes once; what the gateway is handed, it was handed by the runtime. -/
def Promised (v : Progress) : ToolOp → Prop
  | .execute _ idempotencyKey confirmedByUser =>
    Untouched v ∧ NeedsWrite v.request.1 ∧
      (⟨.newIdempotencyKey, idempotencyKey⟩ : Entry tooling) ∈ v.history ∧
      (confirmedByUser = true → (⟨.confirmedByUser v.request.1.name v.request.2,
        (.ok true : Except String Bool)⟩ : Entry tooling) ∈ v.history)
  | .trade _ _ => Untouched v ∧ NeedsWrite v.request.1
  | _ => True

/-- A tool that keeps its promises. -/
def Careful (tool : ToolDefinition tooling) : Prop :=
  ∀ config, (tool.execute config).run.Safe (.ofTrace Promised) (fun _ _ => True)
    (.start (tool, config))

/-! ### The tools -/

section Tools

variable {α : Type} {v : Progress} {Q : Progress → α → Prop} {o : ToolOp}

/-- Tools are looked at until they return; a throw ends them. -/
theorem careful_of_returns {tool : ToolDefinition tooling}
    (h : ∀ config, Task.Returns (.ofTrace Promised) (fun _ _ => True) (tool.execute config)
      (.start (tool, config))) : Careful tool :=
  fun config => Prog.Safe.mono (h config) fun _ _ _ => trivial

theorem returns_called {x : Task tooling String (Except String α)}
    (h : Task.Returns (.ofTrace Promised) (fun w r => ∀ a, r = .ok a → Q w a) x v) :
    Task.Returns (.ofTrace Promised) Q (called x) v := by
  refine Task.returns_bind.mpr (h.mono fun w r hr => ?_)
  cases r with
  | ok a => exact Task.returns_pure.mpr (hr a rfl)
  | error message => exact Task.returns_throw

/-- What is known is still known when code that reads returns. -/
theorem returns_reading {K : Progress → Prop} {x : Reading α} (hv : K v)
    (hK : ∀ w what r, K w → K (w.push ⟨.read what, r⟩)) :
    Task.Returns (.ofTrace Promised) (fun w _ => K w) (reading x) v := by
  have hsafe : ∀ (p : Prog ⟨JsValue, fun _ => Except String JsValue,
      fun _ => Except String JsValue⟩ (Except String α)) (v : Progress), K v →
      (p.interpret fun what => Prog.ask (I := tooling) (.read what)).Safe (.ofTrace Promised)
        (fun w _ => K w) v := by
    intro p
    induction p with
    | pure a => exact fun _ hv => hv
    | call what k ih => exact fun v hv => ⟨trivial, fun r _ => ih r _ (hK v what r hv)⟩
  exact (hsafe x.run v hv).mono fun _ _ hw _ _ => hw

theorem returns_wrap {source : String} {data : JsValue} :
    Task.Returns (.ofTrace Promised) (fun _ _ => True) (wrap source data) v :=
  Task.returns_bind.mpr (Task.returns_total.mpr
    ⟨trivial, fun _ _ => Task.returns_pure.mpr trivial⟩)

theorem Untouched.push {e : Entry tooling} (h : Untouched v) (he : ¬ ToolOp.MovesValue e.op) :
    Untouched (v.push e) := by
  intro e' he'
  rcases List.mem_append.mp he' with he' | he'
  · exact h e' he'
  · rwa [List.mem_singleton.mp he']

/-! #### The bridge -/

variable {tool : IntentToolDefinition} {config : JsValue} {envelope : Schema}

/-- What is known of an execution before the tool itself runs. -/
structure Handed (tool : ToolDefinition tooling) (config : JsValue) (opts : ToolExecOptions)
    (v : Progress) : Prop where
  request : v.request = (tool, config)
  untouched : Untouched v
  key : (⟨.newIdempotencyKey, opts.idempotencyKey⟩ : Entry tooling) ∈ v.history
  confirmed : opts.confirmedByUser = true → (⟨.confirmedByUser tool.name config,
    (.ok true : Except String Bool)⟩ : Entry tooling) ∈ v.history

theorem Handed.push {tool : ToolDefinition tooling} {opts : ToolExecOptions} {e : Entry tooling}
    (h : Handed tool config opts v) (he : ¬ ToolOp.MovesValue e.op) :
    Handed tool config opts (v.push e) where
  request := h.request
  untouched := h.untouched.push he
  key := List.mem_append_left _ h.key
  confirmed hconfirmed := List.mem_append_left _ (h.confirmed hconfirmed)

/-- The tool itself keeps the promises on both surfaces, once it was handed what it needs. -/
structure Bridged (envelope : Schema) (tool : IntentToolDefinition) : Prop where
  execute : ∀ config opts v, Handed (executeTool envelope tool) config opts v →
    Task.Returns (.ofTrace Promised) (fun _ _ => True) (tool.execute config opts) v
  simulate : ∀ config v, Task.Returns (.ofTrace Promised) (fun _ _ => True) (tool.simulate config) v

theorem careful_executeTool (h : Bridged envelope tool) : Careful (executeTool envelope tool) := by
  refine careful_of_returns fun config => Task.returns_bind.mpr (returns_called ?_)
  refine Task.returns_total.mpr ⟨trivial, fun ctx _ _ _ => ?_⟩
  refine Task.returns_bind.mpr (Task.returns_total.mpr ⟨trivial, fun key _ => ?_⟩)
  refine Task.returns_bind.mpr (returns_called (Task.returns_total.mpr ⟨trivial, ?_⟩))
  rintro r - confirmed rfl
  refine Task.returns_bind.mpr ((h.execute config ⟨key, confirmed⟩ _ ⟨rfl, ?_, ?_, ?_⟩).mono ?_)
  · simp [Untouched, Discipline.ofTrace, Trace.start, ToolOp.MovesValue]
  · simp [Discipline.ofTrace, Trace.start]
  · rintro ⟨⟩
    simp [Discipline.ofTrace, Trace.start, executeTool]
  · intro w outcome _
    cases outcome.isError with
    | true => exact Task.returns_bind.mpr Task.returns_throw
    | false => exact returns_wrap

theorem careful_previewTool (h : Bridged envelope tool) : Careful (previewTool envelope tool) := by
  refine careful_of_returns fun config => Task.returns_bind.mpr (returns_called ?_)
  refine Task.returns_total.mpr ⟨trivial, fun _ _ _ _ => ?_⟩
  exact Task.returns_bind.mpr ((h.simulate config _).mono fun _ _ _ => returns_wrap)

/-- A tool that only reads needs nothing. -/
theorem bridged_makeReadTool {name : String} {category : ToolCategory}
    {capabilities : List ToolCapability} {idempotent : Bool} (b : ReadBackend) :
    Bridged envelope (makeReadTool name category capabilities idempotent b) where
  execute _ _ _ _ := returns_reading (K := fun _ => True) trivial fun _ _ _ _ => trivial
  simulate _ _ := returns_reading (K := fun _ => True) trivial fun _ _ _ _ => trivial

theorem needsWrite_makeSpendTool {name : String} {category : ToolCategory} (b : SpendBackend) :
    NeedsWrite (executeTool envelope (makeSpendTool name category b)) := by
  have hspends : movesValue [.sign, .spend, .network] = true := rfl
  by_cases hperps : category = .perps
  · exact .inr (by simp [executeTool, makeSpendTool, capabilityFor, hspends, hperps])
  · exact .inl (by simp [executeTool, makeSpendTool, capabilityFor, hspends, hperps])

/-- A tool that spends hands the gateway what it was handed. -/
theorem bridged_makeSpendTool {name : String} {category : ToolCategory} (b : SpendBackend) :
    Bridged envelope (makeSpendTool name category b) where
  execute config opts v hv := by
    refine Task.returns_bind.mpr ((returns_reading hv fun w what r hw => hw.push id).mono ?_)
    intro w built hw
    cases built with
    | nothing outcome preview => exact Task.returns_pure.mpr trivial
    | intent intent preview report =>
      refine Task.returns_bind.mpr (returns_called (Task.returns_total.mpr ⟨?_, ?_⟩))
      · refine ⟨hw.untouched, ?_, hw.key, ?_⟩
        · rw [hw.request]
          exact needsWrite_makeSpendTool b
        · rw [hw.request]
          exact hw.confirmed
      · exact fun _ _ _ _ => returns_reading (K := fun _ => True) trivial fun _ _ _ _ => trivial
  simulate config v := by
    refine Task.returns_bind.mpr ((returns_reading (K := fun _ => True) trivial
      fun _ _ _ _ => trivial).mono fun _ _ _ => Task.returns_pure.mpr trivial)

/-! #### The other tools -/

theorem careful_builtInTool (d : BuiltInDependencies) (name : String) (effect : ToolEffect)
    (capability : String) : Careful (builtInTool d name effect capability) := by
  refine careful_of_returns fun config => ?_
  unfold builtInTool
  dsimp only
  cases d.backend name with
  | none => exact Task.returns_throw
  | some fn =>
    exact Task.returns_bind.mpr ((returns_reading (K := fun _ => True) trivial
      fun _ _ _ _ => trivial).mono fun _ _ _ => returns_wrap)

theorem careful_tradeTool (schemas : TradingSchemas) (side : String) :
    Careful (tradeTool schemas side) := by
  refine careful_of_returns fun config => Task.returns_bind.mpr (returns_called ?_)
  refine Task.returns_total.mpr ⟨trivial, fun _ _ _ _ => returns_called ?_⟩
  refine Task.returns_total.mpr ⟨⟨?_, .inl (List.mem_singleton_self _)⟩, fun _ _ _ _ => trivial⟩
  simp [Untouched, Discipline.ofTrace, Trace.start, ToolOp.MovesValue]

theorem careful_statusTool (schemas : TradingSchemas) : Careful (statusTool schemas) :=
  careful_of_returns fun _ => returns_called
    (Task.returns_total.mpr ⟨trivial, fun _ _ _ _ => trivial⟩)

end Tools

/-! ### The registry -/

section Registration

variable {R R' : ToolRegistry tooling} {envelope : Schema}

/-- All tools of a registry keep their promises. -/
def AllCareful (R : ToolRegistry tooling) : Prop := ∀ t ∈ R.tools, Careful t

theorem AllCareful.register (h : AllCareful R) {tool : ToolDefinition tooling}
    (htool : Careful tool) (hok : R.register tool = .ok R') : AllCareful R' := by
  intro t ht
  rcases (ToolRegistry.mem_register hok).mp ht with ht | rfl
  · exact h t ht
  · exact htool

/-- What every step of a loop keeps, the loop keeps. -/
theorem foldlM_ok {α β : Type} {f : β → α → Except String β} {P : β → Prop} {xs : List α} {b b' : β}
    (hb : P b) (hf : ∀ b x b', x ∈ xs → P b → f b x = .ok b' → P b')
    (hok : xs.foldlM f b = .ok b') : P b' := by
  induction xs generalizing b with
  | nil => cases hok; exact hb
  | cons x xs ih =>
    rw [List.foldlM_cons, bind_eq_ok] at hok
    obtain ⟨b₁, hx, hxs⟩ := hok
    refine ih (hf b x b₁ List.mem_cons_self hb hx) (fun b x b' hmem => ?_) hxs
    exact hf b x b' (List.mem_cons_of_mem _ hmem)

theorem AllCareful.registerIntentTool (h : AllCareful R) {tool : IntentToolDefinition}
    (htool : Bridged envelope tool) (hok : registerIntentTool envelope R tool = .ok R') :
    AllCareful R' := by
  unfold Tools.registerIntentTool at hok
  obtain ⟨R₁, hexecute, hpreview⟩ := bind_eq_ok.mp hok
  have h₁ := h.register (careful_executeTool htool) hexecute
  split_ifs at hpreview
  · exact h₁.register (careful_previewTool htool) hpreview
  · cases hpreview
    exact h₁

theorem AllCareful.registerIntentTools (h : AllCareful R) {tools : List IntentToolDefinition}
    (htools : ∀ tool ∈ tools, Bridged envelope tool)
    (hok : registerIntentTools envelope R tools = .ok R') : AllCareful R' :=
  foldlM_ok h (fun _ tool _ hmem h => h.registerIntentTool (htools tool hmem)) hok

theorem bridged_createPerpsTools (d : PerpsToolDeps) :
    ∀ tool ∈ createPerpsTools d, Bridged envelope tool := by
  simp [createPerpsTools, bridged_makeReadTool]

theorem bridged_makePoolsTools (d : PoolsDeps) :
    ∀ tool ∈ makePoolsTools d, Bridged envelope tool := by
  simp [makePoolsTools, bridged_makeReadTool, bridged_makeSpendTool]

theorem AllCareful.registerVenueTools (h : AllCareful R) {mounts : VenueMounts}
    (hok : registerVenueTools envelope R mounts = .ok R') : AllCareful R' := by
  obtain ⟨R₁, hperps, hpools⟩ := bind_eq_ok.mp hok
  have h₁ : AllCareful R₁ := by
    refine h.registerIntentTools (fun tool hmem => ?_) hperps
    cases hd : mounts.perps with
    | none => simp [hd] at hmem
    | some d => exact bridged_createPerpsTools d tool (by simpa [hd] using hmem)
  refine h₁.registerIntentTools (fun tool hmem => ?_) hpools
  cases hd : mounts.pools with
  | none => simp [hd] at hmem
  | some d => exact bridged_makePoolsTools d tool (by simpa [hd] using hmem)

theorem careful_builtInTools (d : BuiltInDependencies) :
    ∀ tool ∈ builtInTools d, Careful tool := by
  intro tool hmem
  rcases List.mem_append.mp hmem with hmem | hmem
  · obtain ⟨name, -, rfl⟩ := List.mem_map.mp hmem
    exact careful_builtInTool d _ _ _
  · rcases List.mem_pair.mp hmem with rfl | rfl <;> exact careful_builtInTool d _ _ _

/-- Every tool of the program keeps its promises. -/
theorem careful_of_createRegistry {d : BuiltInDependencies} {trading : Option TradingSchemas}
    (hok : createRegistry envelope d trading = .ok R) : AllCareful R := by
  obtain ⟨R₁, hbuiltIn, hrest⟩ := bind_eq_ok.mp hok
  obtain ⟨R₀, hreg, hvenues⟩ := bind_eq_ok.mp hbuiltIn
  have h₀ : AllCareful R₀ :=
    foldlM_ok (P := AllCareful) (fun _ ht => absurd ht List.not_mem_nil)
      (fun _ tool _ hmem h => h.register (careful_builtInTools d tool hmem)) hreg
  have h₁ : AllCareful R₁ := by
    cases hd : d.venues with
    | none =>
      rw [hd] at hvenues
      cases hvenues
      exact h₀
    | some mounts =>
      rw [hd] at hvenues
      exact h₀.registerVenueTools hvenues
  cases trading with
  | none =>
    cases hrest
    exact h₁
  | some schemas =>
    refine foldlM_ok h₁ (fun _ tool _ hmem h => h.register ?_) hrest
    rcases List.mem_cons.mp hmem with rfl | hmem
    · exact careful_tradeTool schemas _
    · rcases List.mem_pair.mp hmem with rfl | rfl
      · exact careful_tradeTool schemas _
      · exact careful_statusTool schemas

end Registration

/-! ### Runs -/

section Runs

variable {R : ToolRegistry tooling} {envelope : Schema} {d : BuiltInDependencies}
  {trading : Option TradingSchemas} {es : List (Event tooling)} {t : Nat}
  {c : Call tooling (Granted R) (Except String JsValue)}

/-- An execution of a tool, at its start. -/
def begun (g : Granted R) : Progress := .start (g.tool, g.config)

theorem tools_modular (h : AllCareful R) : Modular toolMachine execution (.ofTrace Promised) begun
    (fun _ _ => True) (fun _ => True) (fun _ _ => True) (fun _ _ => True)
    (fun (_ : Executions R) _ => True) where
  body_safe g := h g.tool (ToolRegistry.mem_of_find? g.registered).1 g.config
  symm _ _ _ := trivial
  spawn _ _ _ _ := ⟨trivial, fun _ _ => trivial⟩
  call _ _ _ _ _ _ _ _ _ _ _ _ := ⟨trivial, trivial, trivial⟩
  frame _ _ _ _ _ _ _ _ _ _ := ⟨trivial, trivial⟩

/-- All executions keep the promises of their tools. -/
def Registry.Kept (s : Registry R) : Prop :=
  Coherent (.ofTrace Promised) begun (fun _ _ => True) (fun _ => True) (fun _ _ => True)
    (fun _ _ => True) s.executions

theorem Registry.Kept.step {s : Registry R} (hs : s.Kept) (h : AllCareful R) (e : Event tooling) :
    (step toolMachine s e).Kept := by
  have hm := tools_modular h
  cases e with
  | invoke | available | abort | timeout => exact hs
  | execute t ans => exact hm.coherent_step hs trivial
  | emitted i =>
    change (s.emitted i).Kept
    unfold Registry.emitted
    cases s.invocations[i]? with
    | none => exact hs
    | some v =>
      dsimp only
      cases v.stage with
      | starting g => exact hm.coherent_spawn hs trivial
      | arrived | checking | racing | finishing | done => exact hs

/-- In every run the executions keep the promises of their tools. -/
theorem kept_run (h : AllCareful R) : (run R toolMachine es).Kept := by
  have hstart : (Registry.start R).Kept := Modular.coherent_start trivial
  exact List.foldlRecOn es _ hstart fun _ hs e _ => hs.step h e

theorem kept_history (h : AllCareful R) (hc : c ∈ (run R toolMachine es).executions.calls) :
    (Discipline.ofTrace Promised).Kept (begun c.request) c.history := by
  obtain ⟨t, ht⟩ := List.mem_iff_getElem?.mp hc
  exact (kept_run h).kept t c ht

theorem foldl_push_begun (g : Granted R) (es : List (Entry tooling)) :
    es.foldl Trace.push (begun g) = ⟨(g.tool, g.config), es⟩ := by
  rw [Trace.foldl_push]
  rfl

/-- What moves value comes first, with the capability for it. -/
theorem Promised.of_movesValue {v : Progress} {o : ToolOp} (h : Promised v o) (ho : o.MovesValue) :
    Untouched v ∧ NeedsWrite v.request.1 := by
  cases o with
  | execute => exact ⟨h.1, h.2.1⟩
  | trade => exact h
  | context | newIdempotencyKey | confirmedByUser | read | now | quote => cases ho

/-- In every run of the program's tools, however invocations interleave, time out or are cancelled,
a call that moves value was made by an execution that is the only such call of; that belongs to an
invocation which was granted a capability to write, and whose start the audit was told; and that
hands the gateway a key it has just been given, and a confirmation only if the runtime gave one for
this tool and these arguments. -/
theorem value_granted (hR : createRegistry envelope d trading = .ok R)
    (hc : c ∈ (run R toolMachine es).executions.calls) {before after : List (Entry tooling)}
    {e : Entry tooling} (hhistory : c.history = before ++ e :: after)
    (he : ToolOp.MovesValue e.op) :
    (ORDER_WRITE ∈ c.request.request.capabilities ∨
        POSITION_WRITE ∈ c.request.request.capabilities) ∧
      (∃ v ∈ (run R toolMachine es).invocations, v.request = c.request.request ∧
        v.event (some c.request.tool) none ∈ v.trail) ∧
      (∀ e' ∈ before ++ after, ¬ ToolOp.MovesValue e'.op) ∧
      ∀ intent key confirmed, e.op = .execute intent key confirmed →
        (⟨.newIdempotencyKey, key⟩ : Entry tooling) ∈ before ∧
        (confirmed = true → (⟨.confirmedByUser c.request.request.name c.request.config,
          (.ok true : Except String Bool)⟩ : Entry tooling) ∈ before) := by
  have hkept := kept_history (careful_of_createRegistry hR) hc
  have hpre : Promised ⟨(c.request.tool, c.request.config), before⟩ e.op := by
    rw [← foldl_push_begun]
    exact Discipline.Kept.pre (hhistory ▸ hkept)
  obtain ⟨huntouched, hwrite⟩ := hpre.of_movesValue he
  refine ⟨hwrite.imp (c.request.granted _) (c.request.granted _), ?_, ?_, ?_⟩
  · obtain ⟨v, hv, hrequest, htrail⟩ := sound_run.begun c hc
    exact ⟨v, hv, hrequest.symm, htrail⟩
  · intro e' he'
    rcases List.mem_append.mp he' with he' | he'
    · exact huntouched e' he'
    · -- a later one would have found this one
      intro hmoves
      obtain ⟨mid, rest, hsplit⟩ := List.append_of_mem he'
      have hlater : Promised ⟨(c.request.tool, c.request.config), before ++ e :: mid⟩ e'.op := by
        rw [← foldl_push_begun]
        have hprefix : (Discipline.ofTrace Promised).Kept (begun c.request)
            ((before ++ e :: mid) ++ e' :: rest) := by
          rwa [hhistory, hsplit, ← List.cons_append, ← List.append_assoc] at hkept
        exact hprefix.pre
      exact (hlater.of_movesValue hmoves).1 e (by simp) he
  · intro intent key confirmed hop
    rw [hop] at hpre
    obtain ⟨-, -, hkey, hconfirmed⟩ := hpre
    rw [← (ToolRegistry.mem_of_find? c.request.registered).2]
    exact ⟨hkey, hconfirmed⟩

/-- In every run in which all invocations come from clients of the stdio server, whatever they
invoke, nothing moves value. -/
theorem mcp_moves_nothing (hR : createRegistry envelope d trading = .ok R)
    (hmcp : ∀ r, .invoke r ∈ es → r.capabilities = MCP_CAPABILITIES)
    (hc : c ∈ (run R toolMachine es).executions.calls) :
    ∀ e ∈ c.history, ¬ ToolOp.MovesValue e.op := by
  intro e he hmoves
  obtain ⟨before, after, hsplit⟩ := List.append_of_mem he
  obtain ⟨hwrite, ⟨v, hv, hrequest, -⟩, -⟩ := value_granted hR hc hsplit hmoves
  rw [← hrequest, hmcp _ (sound_run.told v hv).2] at hwrite
  exact absurd hwrite (by decide)

end Runs

/-! A purchase on a bonding curve, and its preview by a client of the stdio server. -/

def idleReader : ReadBackend := ⟨.ok, fun _ => pure .null, fun _ => pure ⟨false, "", .null⟩⟩

def idleSpender : SpendBackend :=
  ⟨.ok, fun _ => pure (.intent .null .null fun _ => pure ⟨false, "done", .null⟩)⟩

def withPools : BuiltInDependencies where
  input _ := .ok
  output := .ok
  backend _ := none
  venues := some ⟨none, some ⟨idleReader, idleReader, idleReader, idleSpender, idleSpender,
    idleSpender, idleSpender, idleSpender⟩⟩

def confirms : ∀ o, tooling.Ans o
  | .context => .ok ()
  | .newIdempotencyKey => "key"
  | .confirmedByUser _ _ => .ok true
  | .now => .ofInt 0
  | .read _ | .execute _ _ _ | .quote _ | .trade _ _ => .ok .null

/-- An invocation of the tool, and its execution to the end. -/
def purchase (name : String) (capabilities : List String) : List (Event tooling) :=
  [.invoke ⟨name, .object [], capabilities, none, none⟩, .available 0 .null, .emitted 0] ++
    List.replicate 5 (.execute 0 confirms) ++ [.emitted 0]

theorem value_granted_sample :
    ∃ R c before after e, createRegistry .ok withPools none = .ok R ∧
      c ∈ (run R toolMachine (purchase "pumpfun_buy" [ORDER_WRITE])).executions.calls ∧
      c.history = before ++ e :: after ∧ ToolOp.MovesValue e.op ∧
      (ORDER_WRITE ∈ c.request.request.capabilities ∨
        POSITION_WRITE ∈ c.request.request.capabilities) := by
  have hmoved : (createRegistry .ok withPools none).toOption.map (fun R =>
      (run R toolMachine (purchase "pumpfun_buy" [ORDER_WRITE])).executions.calls.any fun c =>
        c.history.any fun e => decide (ToolOp.MovesValue e.op)) = some true := by
    decide +kernel
  cases hR : createRegistry .ok withPools none with
  | error message => simp [hR, Except.toOption] at hmoved
  | ok R =>
    simp only [hR, Except.toOption, Option.map_some, Option.some.injEq, List.any_eq_true,
      decide_eq_true_eq] at hmoved
    obtain ⟨c, hc, e, he, hmoves⟩ := hmoved
    obtain ⟨before, after, hsplit⟩ := List.append_of_mem he
    exact ⟨R, c, before, after, e, rfl, hc, hsplit, hmoves, (value_granted hR hc hsplit hmoves).1⟩

theorem mcp_moves_nothing_sample :
    ∃ R c, createRegistry .ok withPools none = .ok R ∧
      c ∈ (run R toolMachine (purchase "pumpfun_buy.preview" MCP_CAPABILITIES)).executions.calls ∧
      c.history.length = 2 ∧ ∀ e ∈ c.history, ¬ ToolOp.MovesValue e.op := by
  have hpreviewed : (createRegistry .ok withPools none).toOption.map (fun R =>
      (run R toolMachine (purchase "pumpfun_buy.preview" MCP_CAPABILITIES)).executions.calls.any
        fun c => c.history.length == 2) = some true := by
    decide +kernel
  cases hR : createRegistry .ok withPools none with
  | error message => simp [hR, Except.toOption] at hpreviewed
  | ok R =>
    simp only [hR, Except.toOption, Option.map_some, Option.some.injEq, List.any_eq_true,
      beq_iff_eq] at hpreviewed
    obtain ⟨c, hc, hlength⟩ := hpreviewed
    refine ⟨R, c, rfl, hc, hlength, mcp_moves_nothing hR (fun r hr => ?_) hc⟩
    simp [purchase] at hr
    rw [hr]

end AriOs.Tools
