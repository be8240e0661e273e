import AriOs.LiveTrading.Effects

/-!
# Terminal states

`reconcile` writes whatever the cluster says over whatever state it read, terminal or not.
A terminal state therefore lasts exactly as long as nobody asks the cluster about it, or the
cluster keeps saying the same.
-/

namespace AriOs.LiveTrading

open AriOs.Async AriOs.Execution AriOs.Js AriOs.Storage Live

/-! ### What the cluster has to say -/

/-- The answer about the signature of `x` settles `x` where it already is. -/
def Confirms (cfg : Config) (x : Execution) : Except String (Option SignatureStatus) → Prop
  | .ok (some st) => settledState cfg st = x.state
  | .ok none => x.state = .dropped ∧ x.lastValidBlockHeight.isSome
  | .error _ => True

/-- The height says that the blockhash of `x` is dead. -/
def ConfirmsDead (x : Execution) : Except String JsNumber → Prop
  | .ok height => ∀ last ∈ x.lastValidBlockHeight, isPast height last = true
  | .error _ => True

/-- The cluster says nothing new about an execution that `reconcile` read in a terminal
state. -/
def ConfirmsTerminal (cfg : Config) (p : LivePool) : Event interface Request → Prop
  | .step t ans =>
    match p.next? t with
    | some (.status x) => x.state.Terminal → Confirms cfg x (statusOf ans x)
    | some (.heightFor x) => x.state.Terminal → ConfirmsDead x (heightOf ans x)
    | _ => True
  | _ => True

instance (cfg : Config) (x : Execution) (r : Except String (Option SignatureStatus)) :
    Decidable (Confirms cfg x r) := by
  unfold Confirms; split <;> infer_instance

instance (x : Execution) (r : Except String JsNumber) : Decidable (ConfirmsDead x r) := by
  unfold ConfirmsDead; split <;> infer_instance

instance (cfg : Config) (p : LivePool) : ∀ e, Decidable (ConfirmsTerminal cfg p e)
  | .step t _ => by
    dsimp only [ConfirmsTerminal]
    generalize p.next? t = next
    change Option Op at next
    rcases next with _ | o
    · exact isTrue trivial
    · rcases o with ⟨⟩ <;> infer_instance
  | .spawn _ | .kill _ => isTrue trivial

/-- What an operation was told about executions it had read in a terminal state. -/
def Told (cfg : Config) (h : History) : Prop :=
  ∀ x : Execution, x.state.Terminal →
    (∀ answer, Answered h x answer → Confirms cfg x (.ok answer)) ∧
    ∀ height, Measured h x height → ConfirmsDead x (.ok height)

/-! ### Moves out of a terminal state -/

/-- An operation that was told nothing new moves nothing out of a terminal state. -/
theorem Move.of_terminal {cfg : Config} {h : History} {id : String} {source : List TradeState}
    {patch : Patch} (hmove : Move cfg h id source patch) (htold : Told cfg h) {state : TradeState}
    (hmem : state ∈ source) (hterminal : state.Terminal) : patch.state = some state := by
  cases hmove with
  | register | approve | deny | enterSigning | authorize | persist | acknowledge | doubt =>
    rw [List.mem_singleton] at hmem
    subst hmem
    simp [TradeState.Terminal] at hterminal
  | expire state hstate hreading =>
    rw [List.mem_singleton] at hmem
    subst hmem
    rcases hstate with rfl | rfl <;> simp [TradeState.Terminal] at hterminal
  | settle x st signature hlooked hanswered =>
    rw [List.mem_singleton] at hmem
    subst hmem
    exact congrArg some ((htold x hterminal).1 _ hanswered)
  | drop x last height hlooked hanswered hlast hmeasured hpast =>
    rw [List.mem_singleton] at hmem
    subst hmem
    exact congrArg some ((htold x hterminal).1 _ hanswered).1.symm
  | requeue x hlooked hanswered halive hstate =>
    -- a dropped execution whose blockhash is dead is not queued again
    rw [List.mem_singleton] at hmem
    subst hmem
    obtain ⟨last, hlast⟩ := Option.isSome_iff_exists.mp ((htold x hterminal).1 _ hanswered).2
    obtain ⟨height, hmeasured, halive⟩ := halive last hlast
    have hpast := (htold x hterminal).2 height hmeasured last hlast
    simp [halive] at hpast

/-! ### Runs -/

section Runs

variable {cfg : Config}

theorem told_append {h : History} {e : Entry interface} (htold : Told cfg h)
    (hstatus : ∀ x answer, x.state.Terminal →
      e = ⟨.status x, (.ok answer : Except String (Option SignatureStatus))⟩ →
        Confirms cfg x (.ok answer))
    (hheight : ∀ x height, x.state.Terminal →
      e = ⟨.heightFor x, (.ok height : Except String JsNumber)⟩ → ConfirmsDead x (.ok height)) :
    Told cfg (h ++ [e]) := by
  intro x hterminal
  refine ⟨fun answer hanswered => ?_, fun height hmeasured => ?_⟩
  · rcases List.mem_append.mp hanswered with hmem | hmem
    · exact (htold x hterminal).1 answer hmem
    · exact hstatus x answer hterminal (List.mem_singleton.mp hmem).symm
  · rcases List.mem_append.mp hmeasured with hmem | hmem
    · exact (htold x hterminal).2 height hmem
    · exact hheight x height hterminal (List.mem_singleton.mp hmem).symm

theorem finality_modular (cfg : Config) :
    Modular (machine cfg) (fun r => (serve cfg r).run) (discipline cfg) Trace.start
      (fun _ r => ∀ a, r = .ok a → True) (fun _ => True) (fun _ v => Told cfg v.history)
      (fun _ _ => True) (ConfirmsTerminal cfg) where
  body_safe r := serve_returns cfg r
  symm _ _ h := h
  spawn p r _ _ := by
    refine ⟨fun x _ => ⟨fun _ hmem => ?_, fun _ hmem => ?_⟩, fun _ _ => trivial⟩
    · simp [Trace.start, Answered] at hmem
    · simp [Trace.start, Measured] at hmem
  call p t ans c o k hcond hct hrest _ hR _ := by
    refine ⟨trivial, trivial, told_append (hR t c hct) (fun x answer hterminal he => ?_)
      fun x height hterminal he => ?_⟩
    · obtain ⟨rfl, hres⟩ := Entry.mk.inj he
      -- the condition is about this very answer
      have hconfirms : x.state.Terminal → Confirms cfg x (statusOf ans x) := by
        simpa only [ConfirmsTerminal, Pool.next?_eq hct hrest] using hcond
      obtain heq : statusOf ans x = .ok answer := eq_of_heq hres
      exact heq ▸ hconfirms hterminal
    · obtain ⟨rfl, hres⟩ := Entry.mk.inj he
      have hconfirms : x.state.Terminal → ConfirmsDead x (heightOf ans x) := by
        simpa only [ConfirmsTerminal, Pool.next?_eq hct hrest] using hcond
      obtain heq : heightOf ans x = .ok height := eq_of_heq hres
      exact heq ▸ hconfirms hterminal
  frame _ _ _ _ _ _ _ _ hw _ := ⟨hw, trivial⟩

/-- What is known of a pool whose operations were told nothing new. -/
abbrev Confirmed (cfg : Config) (p : LivePool) : Prop :=
  Coherent (discipline cfg) Trace.start (fun _ r => ∀ a, r = .ok a → True) (fun _ => True)
    (fun _ v => Told cfg v.history) (fun _ _ => True) p

theorem confirmed_liveRun {es : List (Event interface Request)}
    (h : liveMeets cfg (ConfirmsTerminal cfg) es) : Confirmed cfg (liveRun cfg es) :=
  (finality_modular cfg).run h (Modular.coherent_start trivial)

/-- An operation that was told nothing new leaves terminal states alone. -/
theorem stateOf_handle_of_terminal {s : LiveStore} {v : Trace interface Request} {o : Op}
    (a : o.Ans) (hallows : Allows cfg v o) (htold : Told cfg v.history) {id : String}
    {state : TradeState} (hstate : s.stateOf id = some state) (hterminal : state.Terminal) :
    ((machine cfg).handle o s a).2.stateOf id = some state := by
  obtain ⟨x, hx, rfl⟩ := Option.map_eq_some_iff.mp hstate
  unfold LiveStore.stateOf
  rcases executions_handle cfg o s a with heq | ⟨_, _, row, -, -, hins⟩ |
    ⟨id', source, patch, now, old, rfl, hold, hmem, hfind⟩
  · rw [heq, hx]
    rfl
  · rw [Table.find?_insert?_of_some hins hx]
    rfl
  · rw [hfind]
    split
    · rename_i hid
      subst hid
      obtain rfl := Option.some_inj.mp (hold.symm.trans hx)
      have hpatch := Move.of_terminal hallows htold hmem hterminal
      simp [hpatch]
    · rw [hx]
      rfl

end Runs

/-! ### What operations are shown -/

/-- The executions an answer shows. -/
def shown : (o : Op) → o.Res → List Execution
  | .byIdempotency _, r | .get _ _, r => Option.toList r
  | .list _, r => r
  | .create _ _, r | .transition _ _ _, r => (Except.toOption r).toList
  | _, _ => []

/-- The executions an event shows to an operation. -/
def Shows (cfg : Config) (p : LivePool) (e : Event interface Request) (x : Execution) : Prop :=
  ∃ t ans o, e = .step t ans ∧ p.next? t = some o ∧
    x ∈ shown o ((machine cfg).handle o p.shared (ans o)).1

/-- What is shown is what the store then holds. -/
theorem find?_of_shown {cfg : Config} {s : LiveStore} {o : Op} (a : o.Ans) {x : Execution}
    (h : x ∈ shown o ((machine cfg).handle o s a).1) :
    ((machine cfg).handle o s a).2.executions.find? x.id = some x := by
  cases o with
  | byIdempotency key =>
    exact Table.mem_rows_iff.mp (List.mem_of_find?_eq_some (Option.mem_toList.mp h))
  | get caller id =>
    have hfind : s.executions.find? id = some x := Option.mem_toList.mp h
    obtain rfl := (Table.find?_eq_some_iff.mp hfind).2
    exact hfind
  | list states => exact Table.mem_rows_iff.mp (List.mem_filter.mp h).1
  -- what a write answers with is the row that it wrote
  | create new state =>
    change x ∈ (s.create new state a.1 a.2).1.toOption.toList at h
    rcases create_cases s new state a.1 a.2 with ⟨⟨e, herr⟩, -⟩ | ⟨row, hok, -, -, hins, -⟩
    · rw [herr] at h
      exact absurd h List.not_mem_nil
    · rw [hok] at h
      obtain rfl := List.mem_singleton.mp h
      exact (Table.find?_insert? hins).trans (if_pos rfl)
  | transition id source patch =>
    change x ∈ (s.transition id source patch a).1.toOption.toList at h
    rcases transition_cases s id source patch a with ⟨⟨e, herr⟩, -⟩ |
      ⟨old, hold, -, hok, -, -, hfind⟩
    · rw [herr] at h
      exact absurd h List.not_mem_nil
    · rw [hok] at h
      obtain rfl := List.mem_singleton.mp h
      obtain rfl := (Table.find?_eq_some_iff.mp hold).2
      exact (hfind _).trans (if_pos rfl)
  | _ => exact absurd h List.not_mem_nil

/-! ### Whole runs -/

section Final

variable {cfg : Config} {id : String} {state : TradeState}

/-- The call an operation is about to make leaves terminal states alone. -/
theorem stateOf_next {p : LivePool} (hp : Confirmed cfg p) {t : Nat}
    {c : Call interface Request (Except String Response)} {o : Op}
    {k : o.Res → Prog interface (Except String Response)} (hct : p.calls[t]? = some c)
    (hrest : c.rest = some (.call o k)) (a : o.Ans) (hstate : p.shared.stateOf id = some state)
    (hterminal : state.Terminal) :
    ((machine cfg).handle o p.shared a).2.stateOf id = some state :=
  stateOf_handle_of_terminal a (hp.safe t c hct _ hrest).1 (hp.known t c hct) hstate hterminal

theorem stateOf_apply {p : LivePool} (hp : Confirmed cfg p) (e : Event interface Request)
    (hstate : p.shared.stateOf id = some state) (hterminal : state.Terminal) :
    (p.apply (machine cfg) (fun r => (serve cfg r).run) e).shared.stateOf id = some state := by
  cases e with
  | spawn r => exact hstate
  | kill t => exact hstate
  | step t ans =>
    rcases Pool.step_cases (M := machine cfg) p t ans with heq | ⟨c, o, k, hct, hrest, heq⟩
    · rw [Pool.apply, heq]
      exact hstate
    · rw [Pool.apply, heq]
      exact stateOf_next hp hct hrest (ans o) hstate hterminal

theorem stateOf_liveRun {before after : List (Event interface Request)}
    (hmeets : liveMeets cfg (ConfirmsTerminal cfg) (before ++ after))
    (hstate : (liveRun cfg before).shared.stateOf id = some state) (hterminal : state.Terminal) :
    (liveRun cfg (before ++ after)).shared.stateOf id = some state := by
  induction after generalizing before with
  | nil => simpa using hstate
  | cons e after ih =>
    have hbefore : liveMeets cfg (ConfirmsTerminal cfg) before := (Pool.meets_append.mp hmeets).1
    rw [List.append_cons] at hmeets ⊢
    refine ih hmeets ?_
    rw [liveRun, Pool.run_append]
    exact stateOf_apply (confirmed_liveRun hbefore) e hstate hterminal

/-- **Terminal states are final** in every run whose operations are told nothing new about
executions they read in a terminal state: the state never changes, and is what every
operation is shown from then on. -/
theorem terminal_is_final (cfg : Config) (before after : List (Event interface Request))
    (hmeets : liveMeets cfg (ConfirmsTerminal cfg) (before ++ after)) (id : String)
    (state : TradeState) (hstate : (liveRun cfg before).shared.stateOf id = some state)
    (hterminal : state.Terminal) :
    (liveRun cfg (before ++ after)).shared.stateOf id = some state ∧
    ∀ mid e rest, after = mid ++ e :: rest → ∀ x, Shows cfg (liveRun cfg (before ++ mid)) e x →
      x.id = id → x.state = state := by
  refine ⟨stateOf_liveRun hmeets hstate hterminal, ?_⟩
  rintro mid e rest rfl x ⟨t, ans, o, rfl, hnext, hx⟩ rfl
  have hmid : liveMeets cfg (ConfirmsTerminal cfg) (before ++ mid) := by
    rw [← List.append_assoc] at hmeets
    exact (Pool.meets_append.mp hmeets).1
  obtain ⟨c, k, hct, hrest⟩ := Pool.exists_of_next? hnext
  have hafter := stateOf_next (confirmed_liveRun hmid) hct hrest (ans o)
    (stateOf_liveRun hmid hstate hterminal) hterminal
  rw [LiveStore.stateOf, find?_of_shown (ans o) hx] at hafter
  exact Option.some_inj.mp hafter

end Final

/-! ### A contradicted answer -/

/-- The cluster has not seen the signature, and is at height 101. -/
def sampleUnseen : ∀ o, interface.Ans o
  | .status _ => (.ok none : Except String (Option SignatureStatus))
  | .heightFor _ => (.ok (.ofInt 101) : Except String JsNumber)
  | o => sampleAnswers o

/-- The execution `x1` is settled as final. -/
def sampleFinalized : List (Event interface Request) :=
  sampleBroadcast ++ sampleCall 3 (.reconcile "x1") 3 sampleAnswers

/-- A finalized execution is dropped by the next `reconcile`, if the node it asks has not
seen the signature. -/
theorem finalized_is_dropped :
    (liveRun sampleConfig sampleFinalized).shared.stateOf "x1" = some .finalized ∧
    (liveRun sampleConfig (sampleFinalized ++
      sampleCall 4 (.reconcile "x1") 5 sampleUnseen)).shared.stateOf "x1" = some .dropped := by
  decide

/-- Asked again, the cluster says the same. -/
theorem terminal_is_final_asked_again :
    (liveRun sampleConfig (sampleFinalized ++
      sampleCall 4 (.reconcile "x1") 3 sampleAnswers)).shared.stateOf "x1" = some .finalized :=
  (terminal_is_final sampleConfig sampleFinalized _ (by decide) "x1" .finalized
    (by decide) (by decide)).1

end AriOs.LiveTrading
