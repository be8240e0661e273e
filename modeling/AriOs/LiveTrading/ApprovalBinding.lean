import AriOs.Async.Environment
import AriOs.Execution.ApprovalConsumption
import AriOs.LiveTrading.Effects

/-!
# What an approval is bound to

`execute` simulates the transaction of its quote again and registers the approval under a
binding to what that simulation said. `submit` presents a binding to what the simulation of the
quote had said. The two are the same text only if both simulations say the same.

Here the approval engine is the one of `AriOs.Execution.Approvals`: what the orchestrator calls
on it is performed on its database.
-/

namespace AriOs.Execution.Approvals

open AriOs.Js AriOs.Storage

/-! ### Bindings of the registered requests -/

/-- What each request is bound to is as `P` says of its id. -/
def ApprovalDb.Bound (P : String → String → Prop) (db : ApprovalDb) : Prop :=
  ∀ k r, db.raw k = some r → P k r.binding

section Bound

variable {P : String → String → Prop} {E : Engine} {db db' : ApprovalDb} {id : String}

theorem ApprovalDb.Bound.mono {Q : String → String → Prop} (h : db.Bound P)
    (hPQ : ∀ k text, P k text → Q k text) : db.Bound Q :=
  fun k r hr => hPQ k _ (h k r hr)

/-- Requests change in place, and keep their bindings. -/
theorem ApprovalDb.Bound.map (h : db.Bound P) {g : RequestRow → RequestRow}
    (hraw : ∀ k, db'.raw k = (db.raw k).map g) (hg : ∀ r, (g r).binding = r.binding) :
    db'.Bound P := by
  intro k r' hr'
  rw [hraw, Option.map_eq_some_iff] at hr'
  obtain ⟨r, hr, rfl⟩ := hr'
  rw [hg]
  exact h k r hr

theorem ApprovalDb.Bound.expire (h : db.Bound P) (r₀ : RequestRow) : (db.expire r₀).Bound P :=
  h.map (raw_expire r₀) fun r => by split <;> rfl

theorem ApprovalDb.Bound.advance (h : db.Bound P) (status : ApprovalStatus) :
    (db.advance id status).Bound P :=
  h.map (raw_advance status) fun r => by split <;> rfl

theorem ApprovalDb.Bound.get (h : db.Bound P) (clock : Int) : (get id clock db).2.Bound P := by
  unfold Approvals.get
  split
  · exact h
  · split
    · split
      · exact h
      · exact h.expire _
    · exact h

theorem ApprovalDb.Bound.request (h : db.Bound P) {input : ApprovalRequestInput}
    (hinput : ∀ text, E.binding input.toBoundTransaction = .ok text → P input.id text)
    (options : RequestOptions) (challenge : String) (clock : Nat → Int) :
    (E.request input options challenge clock db).2.Bound P := by
  unfold Engine.request
  split
  · exact h
  · rename_i row hnew
    split
    · exact h
    · rename_i db' hins
      obtain ⟨hreg, -⟩ := newRequest_cases hnew
      obtain ⟨requests, hinsert, rfl⟩ := insertRequest_eq_ok hins
      refine ApprovalDb.Bound.get ?_ _
      intro k r hr
      change requests.find? k = some r at hr
      rw [Table.find?_insert? hinsert] at hr
      split at hr
      · -- the new row is bound to the text of this input
        rename_i hk
        obtain rfl := Option.some_inj.mp hr
        rw [← hk, ← hreg.id]
        exact hinput _ hreg.binding
      · exact h k r hr

theorem ApprovalDb.Bound.decide (h : db.Bound P) (input : DecisionInput) (clock : Nat → Int) :
    (E.decide id input clock db).2.Bound P := by
  unfold Engine.decide
  split
  · exact h
  · split
    · exact h
    · split
      · exact h
      · split
        · rename_i db' hdecide
          obtain ⟨r, row, db₁, -, -, -, -, -, -, -, -, hins, rfl⟩ := decideIn_cases hdecide
          obtain ⟨decisions, -, rfl⟩ := insertDecision_eq_ok hins
          have hsame : ({ db with decisions } : ApprovalDb).Bound P := h
          exact (hsame.advance _).get _
        · exact h

theorem ApprovalDb.Bound.consume (h : db.Bound P) (input : BoundTransaction) (clock : Nat → Int) :
    (E.consume id input clock db).2.Bound P := by
  rcases consume_cases E db id input clock with ⟨e, heq⟩ | ⟨-, r, -, ⟨e, heq⟩ |
    ⟨e, b, heq⟩ | ⟨-, -, -, heq⟩⟩
  · rw [heq]
    exact h
  · rw [heq]
    exact h.expire r
  · rw [heq]
    exact h
  · rw [heq]
    exact (h.advance _).get _

end Bound

/-- A request that is approved, within its deadline and bound to what is presented is
consumed. -/
theorem consume_of_bound {E : Engine} {db : ApprovalDb} {id : String} {r : RequestRow}
    {input : BoundTransaction} {clock : Nat → Int} (hclosed : db.inTransaction = false)
    (hr : db.raw id = some r) (hlive : clock 0 < r.expiresAt) (happroved : r.status = .approved)
    (hbinding : E.binding input = .ok r.binding) :
    ∃ x, (E.consume id input clock db).1 = .ok x := by
  have hcheck : E.checkConsumption r input = .ok () := by
    simp [Engine.checkConsumption, happroved, hbinding, throwIf, bind, Except.bind]
  obtain ⟨x, hx⟩ := get_ok (show (db.advance id .consumed).inTransaction = false from hclosed) id
    (clock 1)
  refine ⟨x, ?_⟩
  rw [← hx]
  simp [Engine.consume, hclosed, hr, not_le.mpr hlive, hcheck]

/-- What is presented for a request is refused as a mismatch only if it is bound to something
else. -/
theorem consume_ne_mismatch {E : Engine} {db : ApprovalDb} {id : String}
    {input : BoundTransaction} {clock : Nat → Int}
    (hbound : ∀ r, db.raw id = some r → E.binding input = .ok r.binding) :
    (E.consume id input clock db).1 ≠ .error "Exact transaction mismatch" := by
  intro hmismatch
  cases htx : db.inTransaction with
  | true => simp [Engine.consume, htx, nestedTransaction] at hmismatch
  | false =>
    cases hr : db.raw id with
    | none => simp [Engine.consume, htx, hr] at hmismatch
    | some r =>
      by_cases hlive : clock 0 < r.expiresAt
      · by_cases happroved : r.status = .approved
        · obtain ⟨x, hx⟩ := consume_of_bound htx hr hlive happroved (hbound r hr)
          rw [hx] at hmismatch
          simp at hmismatch
        · have hcheck : E.checkConsumption r input = .error ("Approval is " ++ r.status.name) := by
            simp [Engine.checkConsumption, happroved, throwIf, bind, Except.bind]
          simp only [Engine.consume, htx, hr, not_le.mpr hlive, hcheck] at hmismatch
          cases hstatus : r.status <;> simp [hstatus, ApprovalStatus.name] at hmismatch
      · simp [Engine.consume, htx, hr, not_lt.mp hlive] at hmismatch

end AriOs.Execution.Approvals

namespace AriOs.LiveTrading

open AriOs.Async AriOs.Execution AriOs.Execution.Approvals AriOs.Js AriOs.Storage

/-! ### Bindings of a quote -/

/-- An array of texts. -/
def textValues (texts : List String) : JsValue := .array (texts.map .string)

/-- An instruction, as plain data. -/
def instructionValue (i : InstructionSummary) : JsValue :=
  .object [
    ("programId", .string i.programId),
    ("accounts", .array (i.accounts.map fun
      | some key => .string key
      | none => .null)),
    ("data", .string i.data)]

/-- The transaction of a quote, under the names the approval engine knows it by. -/
def serializedTransaction (q : Quote) (r : SimulationRequest) : JsValue :=
  .object [
    ("transaction", .string r.transaction),
    ("message", .string r.message),
    ("messageHash", .string r.messageHash),
    ("feePayer", .string r.feePayer),
    ("recentBlockhash", .string r.recentBlockhash),
    ("lastValidBlockHeight", .number (.ofInt r.lastValidBlockHeight)),
    ("programIds", textValues r.programIds),
    ("accountKeys", textValues r.accountKeys),
    ("instructions", .array (r.instructions.map instructionValue)),
    ("addressTableLookups", textValues r.addressTableLookups),
    ("to", .string (String.intercalate "," r.programIds)),
    ("data", .string r.message),
    ("value", .string (toString q.amountIn)),
    ("nonce", .string r.recentBlockhash)]

/-- `binding`: a quote and a simulation of it, in the shape of the approval engine. -/
def binding (cfg : Config) (q : Quote) (e : SimulationEvidence) : Except String BoundTransaction :=
  match q.request with
  | none => .error "Cannot read properties of undefined (reading 'transaction')"
  | some r => .ok {
      chain := q.cluster
      serializedTransaction := serializedTransaction q r
      intentHash := q.intentHash
      policyHash := q.policyHash
      policyVersion := toString cfg.policyVersion
      simulationHash := e.hash
      simulationBlock := toString e.slot
      simulationState := e.blockhash
      account := r.feePayer
      nonce := r.recentBlockhash
      value := toString q.amountIn
      calldata := r.message
      router := String.intercalate "," r.programIds }

/-- Two simulations say the same about what an approval is bound to. -/
def Alike (e e' : SimulationEvidence) : Prop :=
  e.hash = e'.hash ∧ e.slot = e'.slot ∧ e.blockhash = e'.blockhash

instance (e e' : SimulationEvidence) : Decidable (Alike e e') := by
  unfold Alike; infer_instance

theorem binding_congr (cfg : Config) (q : Quote) {e e' : SimulationEvidence}
    (h : Alike e e') : binding cfg q e = binding cfg q e' := by
  obtain ⟨hhash, hslot, hblockhash⟩ := h
  simp only [binding, hhash, hslot, hblockhash]

/-! ### The orchestrator and the approval engine -/

structure BoundStore where
  live : LiveStore
  approvals : ApprovalDb

def BoundStore.empty : BoundStore := ⟨.empty, .empty⟩

/-- What the environment contributes: also, a challenge and readings of the clock for the
approval engine. -/
def BoundAns (o : Op) : Type := o.Ans × String × (Nat → Int)

abbrev boundInterface : Interface := interface.within BoundAns

/-- What the orchestrator makes of an outcome it does not look into. -/
def acknowledged (out : Outcome) : Except String Unit × ApprovalDb :=
  (out.1.map fun _ => (), out.2)

/-- A call on the approval engine, performed on its database. -/
def approvalCall (E : Engine) (cfg : Config) (db : ApprovalDb) (challenge : String)
    (clock : Nat → Int) : (o : Op) → Option (o.Res × ApprovalDb)
  | .requestApproval approvalId actor q e => some (
    match binding cfg q e with
    | .error msg => ((.error msg : Except String Unit), db)
    | .ok b => acknowledged (E.request
        { b with
          id := approvalId, type := .sign, proposerId := actor
          expiresAt := .ofInt q.expiresAt, displayImpact := none }
        ⟨.ofInt 1, false⟩ challenge clock db))
  | .approvalStatus approvalId =>
    let out := Approvals.get approvalId (clock 0) db
    some ((out.1.map fun row => row.map RequestRow.status :
      Except String (Option ApprovalStatus)), out.2)
  | .decide approvalId input => some (acknowledged (E.decide approvalId input clock db))
  | .consumeApproval approvalId q e => some (
    match binding cfg q e with
    | .error msg => ((.error msg : Except String Unit), db)
    | .ok b => acknowledged (E.consume approvalId b clock db))
  | _ => none

/-- What each call does: to the approval engine, or to the stores of live trading. -/
def bound (E : Engine) (cfg : Config) : Machine boundInterface BoundStore where
  handle o s a :=
    match approvalCall E cfg s.approvals a.2.1 a.2.2 o with
    | some out => (out.1, { s with approvals := out.2 })
    | none =>
      let out := (machine cfg).handle o s.live a.1
      (out.1, { s with live := out.2 })

abbrev BoundPool := Pool boundInterface BoundStore Request (Except String Response)

/-- Any number of operations, interleaved in any way, from empty stores. -/
def boundRun (E : Engine) (cfg : Config) (es : List (Event boundInterface Request)) : BoundPool :=
  (Pool.start .empty).run (bound E cfg) (fun r => (serve cfg r).run.within BoundAns) es

/-! ### The property -/

/-- What `submit` presents for an execution is, as canonical text, what was registered for it. -/
def PresentsRegistered (E : Engine) (cfg : Config) (s : BoundStore) : Prop :=
  ∀ x ∈ s.live.executions.rows, ∀ approvalId row q e, x.approvalId = some approvalId →
    s.approvals.raw approvalId = some row → cfg.quotes.find? x.quoteId = some q →
    q.evidence = some e → ∃ b, binding cfg q e = .ok b ∧ E.binding b = .ok row.binding

/-- An operation was refused an approval because of what it presented. -/
def Refused (h : History) : Prop :=
  ∃ approvalId q e, (⟨.consumeApproval approvalId q e,
    (.error "Exact transaction mismatch" : Except String Unit)⟩ : Entry interface) ∈ h

/-- An approval that was given, and is used before its deadline, is accepted. -/
def AcceptsApproved (E : Engine) (cfg : Config) (p : BoundPool) : Prop :=
  ∀ t approvalId q e row, p.next? t = some (.consumeApproval approvalId q e) →
    p.shared.approvals.raw approvalId = some row → row.status = .approved →
    p.shared.approvals.inTransaction = false → ∀ a : BoundAns (.consumeApproval approvalId q e),
      a.2.2 0 < row.expiresAt →
        ((bound E cfg).handle (.consumeApproval approvalId q e) p.shared a).1 =
          (.ok () : Except String Unit)

/-- What is registered for an approval and what is presented for it agree. -/
structure BindingsAgree (E : Engine) (cfg : Config) (p : BoundPool) : Prop where
  presents : PresentsRegistered E cfg p.shared
  accepts : AcceptsApproved E cfg p
  never : ∀ c ∈ p.calls, ¬ Refused (c.history.map Entry.outside)

/-- What the simulator answered for the quote is what the evidence of the quote says. -/
def SimulatedAlike (h : History) (q : Quote) : Prop :=
  ∀ e e₀, Simulated h q e → q.evidence = some e₀ → Alike e e₀

/-- An `execute` that registers its execution was told by the simulator what the evidence of the
quote says. -/
def RegistersAlike (p : BoundPool) : Event boundInterface Request → Prop
  | .step t _ =>
    match p.calls[t]?, p.next? t with
    | some c, some (.requestApproval _ _ q _) => SimulatedAlike (c.history.map Entry.outside) q
    | _, _ => True
  | _ => True

/-- What the simulator answered for the quote. -/
def simulations (h : History) (q : Quote) : List SimulationEvidence :=
  h.filterMap fun
    | ⟨.simulate q', r⟩ =>
      match (r : Except String SimulationAnswer) with
      | .ok (.evidence e) => if q' = q then some e else none
      | _ => none
    | _ => none

theorem simulated_iff {h : History} {q : Quote} {e : SimulationEvidence} :
    Simulated h q e ↔ e ∈ simulations h q := by
  constructor
  · exact fun hmem => List.mem_filterMap.mpr ⟨_, hmem, if_pos rfl⟩
  · intro he
    obtain ⟨⟨o, r⟩, hmem, heq⟩ := List.mem_filterMap.mp he
    cases o with
    | simulate q' =>
      change Except String SimulationAnswer at r
      cases r with
      | error msg => exact absurd heq (by nofun)
      | ok answer =>
        cases answer with
        | plain success => exact absurd heq (by nofun)
        | evidence e' =>
          change (if q' = q then some e' else none) = some e at heq
          split at heq
          · rename_i hq
            obtain rfl := hq
            obtain rfl := Option.some_inj.mp heq
            exact hmem
          · exact absurd heq (by simp)
    | _ => exact absurd heq (by nofun)

instance (h : History) (q : Quote) : Decidable (SimulatedAlike h q) :=
  decidable_of_iff (∀ e ∈ simulations h q, ∀ e₀ ∈ q.evidence.toList, Alike e e₀) (by
    simp only [SimulatedAlike, simulated_iff, Option.mem_toList]
    exact forall_congr' fun e => forall_comm)

instance (p : BoundPool) (e : Event boundInterface Request) : Decidable (RegistersAlike p e) := by
  unfold RegistersAlike; split
  · split <;> infer_instance
  · infer_instance

/-! ### What links an execution to its approval -/

/-- The text is what `submit` would present for the execution `id`. -/
def BoundTo (E : Engine) (cfg : Config) (s : LiveStore) (id text : String) : Prop :=
  ∃ x, s.executions.find? id = some x ∧ ∀ q e, cfg.quotes.find? x.quoteId = some q →
    q.evidence = some e → ∃ b, binding cfg q e = .ok b ∧ E.binding b = .ok text

/-- An approval has the id of its execution, and is bound to what `submit` would present. -/
structure Linked (E : Engine) (cfg : Config) (s : BoundStore) : Prop where
  approvalId : ∀ k x id, s.live.executions.find? k = some x → x.approvalId = some id → id = k
  registered : s.approvals.Bound (BoundTo E cfg s.live)

/-- What an operation created and read is still there, under the same quote, and it was never
refused. -/
structure Known (s : BoundStore) (h : History) : Prop where
  created : ∀ new state x,
    (⟨.create new state, (.ok x : Except String Execution)⟩ : Entry interface) ∈ h →
    ∃ y, s.live.executions.find? x.id = some y ∧ y.quoteId = new.quoteId
  read : ∀ id x approvalId,
    (⟨.get .submit id, (some x : Option Execution)⟩ : Entry interface) ∈ h →
    x.approvalId = some approvalId →
    ∃ y, s.live.executions.find? approvalId = some y ∧ y.quoteId = x.quoteId
  never : ¬ Refused h

section Linked

variable {E : Engine} {cfg : Config} {s : BoundStore} {v : Trace interface Request}

theorem known_start (s : BoundStore) : Known s [] where
  created := by simp
  read := by simp
  never := by simp [Refused]

/-- No move gives an execution the approval of another one. -/
theorem Move.approvalId_or {h : History} {id : String} {source : List TradeState} {patch : Patch}
    (hmove : Move cfg h id source patch) :
    patch.approvalId = none ∨ patch.approvalId = some id := by
  cases hmove with
  | register => exact .inr rfl
  | _ => exact .inl rfl

/-- The orchestrator's own stores: approvals stay with their executions. -/
theorem Linked.handle_live (h : Linked E cfg s) {o : Op} (a : o.Ans) (hallows : Allows cfg v o) :
    Linked E cfg { s with live := ((machine cfg).handle o s.live a).2 } where
  approvalId k x id hx hid := by
    rcases executions_handle cfg o s.live a with heq | ⟨_, _, row, rfl, hrow, hins⟩ |
      ⟨id', source, patch, now, old, rfl, hold, hmem, hfind⟩
    · exact h.approvalId k x id (heq ▸ hx) hid
    · dsimp only at hx
      rw [Table.find?_insert? hins] at hx
      split at hx
      · -- a new execution has no approval
        obtain rfl := Option.some_inj.mp hx
        exact absurd hid (by simp [hrow.2])
      · exact h.approvalId k x id hx hid
    · dsimp only at hx
      rw [hfind] at hx
      split at hx
      · rename_i hk
        subst hk
        obtain rfl := Option.some_inj.mp hx
        rcases Move.approvalId_or hallows with hnone | hsome
        · exact h.approvalId k old id hold (by simpa [Patch.apply, hnone] using hid)
        · simpa [Patch.apply, hsome, eq_comm] using hid
      · exact h.approvalId k x id hx hid
  registered := h.registered.mono fun k text ⟨x, hx, hbound⟩ => by
    obtain ⟨y, hy, hquote⟩ : ∃ y, ((machine cfg).handle o s.live a).2.executions.find? k = some y ∧
      y.quoteId = x.quoteId := quoteId_handle a hx
    exact ⟨y, hy, fun q e hq => hbound q e (hquote ▸ hq)⟩

/-- What is registered is bound to what `submit` would present, if it was simulated alike. -/
theorem boundTo_of_alike {approvalId : String} {q : Quote} {e : SimulationEvidence} {text : String}
    {b : BoundTransaction} (hknown : Known s v.history)
    (hcreated : Created cfg v.history approvalId q)
    (halike : ∀ e₀, q.evidence = some e₀ → Alike e e₀) (hb : binding cfg q e = .ok b)
    (htext : E.binding b = .ok text) : BoundTo E cfg s.live approvalId text := by
  obtain ⟨new, state, x, hmem, rfl, hquote⟩ := hcreated
  obtain ⟨y, hy, hyquote⟩ := hknown.created new state x hmem
  refine ⟨y, hy, fun q' e₀ hq' he₀ => ⟨b, ?_, htext⟩⟩
  rw [hyquote, hquote] at hq'
  obtain rfl := Option.some_inj.mp hq'
  rw [← binding_congr cfg q (halike e₀ he₀)]
  exact hb

/-- What `submit` presents is what was registered. -/
theorem Linked.presented (h : Linked E cfg s) (hknown : Known s v.history) {approvalId : String}
    {q : Quote} {e : SimulationEvidence} (happroved : Approved cfg v.history approvalId q)
    (hevidence : q.evidence = some e) {row : RequestRow}
    (hrow : s.approvals.raw approvalId = some row) :
    ∃ b, binding cfg q e = .ok b ∧ E.binding b = .ok row.binding := by
  obtain ⟨id, x, hmem, happroval, hquote⟩ := happroved
  obtain ⟨y, hy, hyquote⟩ := hknown.read id x approvalId hmem happroval
  obtain ⟨z, hz, hbound⟩ := h.registered approvalId row hrow
  obtain rfl := Option.some_inj.mp (hy.symm.trans hz)
  exact hbound q e (by rw [hyquote]; exact hquote) hevidence

/-- The approval engine: only `request` adds a binding. -/
theorem Linked.handle_approvals (h : Linked E cfg s) (hknown : Known s v.history) {o : Op}
    (hallows : Allows cfg v o)
    (halike : ∀ approvalId actor q e, o = .requestApproval approvalId actor q e →
      ∀ e₀, q.evidence = some e₀ → Alike e e₀) {challenge : String} {clock : Nat → Int}
    {out : o.Res × ApprovalDb} (hcall : approvalCall E cfg s.approvals challenge clock o = some out) :
    Linked E cfg { s with approvals := out.2 } := by
  refine ⟨h.approvalId, ?_⟩
  dsimp only
  cases o with
  | requestApproval approvalId actor q e =>
    obtain rfl := Option.some_inj.mp hcall
    cases hb : binding cfg q e with
    | error msg => exact h.registered
    | ok b =>
      -- what is registered is bound to a quote with the same evidence
      refine h.registered.request (fun text htext => ?_) _ _ _
      exact boundTo_of_alike hknown hallows.1 (halike approvalId actor q e rfl) hb htext
  | approvalStatus approvalId =>
    obtain rfl := Option.some_inj.mp hcall
    exact h.registered.get _
  | decide approvalId input =>
    obtain rfl := Option.some_inj.mp hcall
    exact h.registered.decide _ _
  | consumeApproval approvalId q e =>
    obtain rfl := Option.some_inj.mp hcall
    cases hb : binding cfg q e with
    | error msg => exact h.registered
    | ok b => exact h.registered.consume _ _
  | _ => exact absurd hcall (by nofun)

/-- What a call does to both stores keeps approvals linked to their executions. -/
theorem Linked.handle (h : Linked E cfg s) (hknown : Known s v.history) {o : Op}
    (a : BoundAns o) (hallows : Allows cfg v o)
    (halike : ∀ approvalId actor q e, o = .requestApproval approvalId actor q e →
      ∀ e₀, q.evidence = some e₀ → Alike e e₀) :
    Linked E cfg ((bound E cfg).handle o s a).2 := by
  cases hcall : approvalCall E cfg s.approvals a.2.1 a.2.2 o with
  | some out => simpa only [bound, hcall] using h.handle_approvals hknown hallows halike hcall
  | none => simpa only [bound, hcall] using h.handle_live a.1 hallows

/-- An execution stays, and is of the quote it was created for. -/
theorem quoteId_bound (E : Engine) (cfg : Config) {s : BoundStore} {o : Op} (a : BoundAns o)
    {k : String} {x : Execution} (hx : s.live.executions.find? k = some x) :
    ∃ y, ((bound E cfg).handle o s a).2.live.executions.find? k = some y ∧
      y.quoteId = x.quoteId := by
  cases hcall : approvalCall E cfg s.approvals a.2.1 a.2.2 o with
  | some out => exact ⟨x, by simpa only [bound, hcall] using hx, rfl⟩
  | none =>
    have hlive : ∃ y, ((machine cfg).handle o s.live a.1).2.executions.find? k = some y ∧
      y.quoteId = x.quoteId := quoteId_handle a.1 hx
    simpa only [bound, hcall] using hlive

/-- What an operation knows survives every call. -/
theorem Known.handle {h : History} (hknown : Known s h) {o : Op} (a : BoundAns o) :
    Known ((bound E cfg).handle o s a).2 h where
  created new state x hmem := by
    obtain ⟨y, hy, hquote⟩ := hknown.created new state x hmem
    obtain ⟨z, hz, hzquote⟩ := quoteId_bound E cfg a hy
    exact ⟨z, hz, hzquote.trans hquote⟩
  read id x approvalId hmem happroval := by
    obtain ⟨y, hy, hquote⟩ := hknown.read id x approvalId hmem happroval
    obtain ⟨z, hz, hzquote⟩ := quoteId_bound E cfg a hy
    exact ⟨z, hz, hzquote.trans hquote⟩
  never := hknown.never

/-- A presented binding goes to `consume`. -/
theorem handle_consumeApproval {approvalId : String} {q : Quote} {e : SimulationEvidence}
    {b : BoundTransaction} (hb : binding cfg q e = .ok b)
    (a : BoundAns (.consumeApproval approvalId q e)) :
    ((bound E cfg).handle (.consumeApproval approvalId q e) s a).1 =
      ((E.consume approvalId b a.2.2 s.approvals).1.map fun _ => () : Except String Unit) := by
  simp only [bound, approvalCall, hb]
  rfl

/-- What `submit` presents is not refused as a mismatch. -/
theorem Linked.accepts (h : Linked E cfg s) (hknown : Known s v.history) {approvalId : String}
    {q : Quote} {e : SimulationEvidence} (happroved : Approved cfg v.history approvalId q)
    (hevidence : q.evidence = some e) (a : BoundAns (.consumeApproval approvalId q e)) :
    ((bound E cfg).handle (.consumeApproval approvalId q e) s a).1 ≠
      (.error "Exact transaction mismatch" : Except String Unit) := by
  intro hmismatch
  cases hb : binding cfg q e with
  | error msg =>
    -- without a binding the call fails, but with another text
    have hmsg : binding cfg q e =
        .error "Cannot read properties of undefined (reading 'transaction')" := by
      unfold binding at hb ⊢
      split at hb
      · rfl
      · exact absurd hb (by nofun)
    simp only [bound, approvalCall, hmsg] at hmismatch
    exact absurd (Except.error.inj hmismatch) (by simp)
  | ok b =>
    rw [handle_consumeApproval hb] at hmismatch
    -- the row was approved for this very quote
    have hbound : ∀ r, s.approvals.raw approvalId = some r → E.binding b = .ok r.binding := by
      intro r hr
      obtain ⟨b', hb', hr'⟩ := h.presented hknown happroved hevidence hr
      obtain rfl := Except.ok.inj (hb.symm.trans hb')
      exact hr'
    have hne : (E.consume approvalId b a.2.2 s.approvals).1 ≠ .error "Exact transaction mismatch" :=
      consume_ne_mismatch hbound
    cases hout : (E.consume approvalId b a.2.2 s.approvals).1 with
    | ok x => simp [hout, Except.map] at hmismatch
    | error msg =>
      rw [hout] at hne hmismatch
      exact hne (congrArg Except.error (Except.error.inj hmismatch))

/-- What an operation learns from a call. -/
theorem Known.push (hlinked : Linked E cfg s) (hknown : Known s v.history) {o : Op}
    (a : BoundAns o) (hallows : Allows cfg v o) :
    Known ((bound E cfg).handle o s a).2
      (v.history ++ [(⟨o, ((bound E cfg).handle o s a).1⟩ : Entry interface)]) where
  created new state x hmem := by
    rcases List.mem_append.mp hmem with hmem | hmem
    · exact (hknown.handle a).created new state x hmem
    · obtain ⟨rfl, hres⟩ := Entry.mk.inj (List.mem_singleton.mp hmem)
      have hok : (s.live.create new state (a.1 : String × Int).1 (a.1 : String × Int).2).1 = .ok x :=
        (eq_of_heq hres).symm
      rcases create_cases s.live new state (a.1 : String × Int).1 (a.1 : String × Int).2 with
        ⟨⟨e, herr⟩, -⟩ | ⟨row, hrow, -, hnew, hins, -⟩
      · simp [herr] at hok
      · obtain rfl := Except.ok.inj (hrow.symm.trans hok)
        refine ⟨row, ?_, congrArg NewExecution.quoteId hnew.1⟩
        exact (Table.find?_insert? hins).trans (if_pos rfl)
  read id x approvalId hmem happroval := by
    rcases List.mem_append.mp hmem with hmem | hmem
    · exact (hknown.handle a).read id x approvalId hmem happroval
    · obtain ⟨rfl, hres⟩ := Entry.mk.inj (List.mem_singleton.mp hmem)
      have hx : s.live.executions.find? id = some x := (eq_of_heq hres).symm
      -- the approval of an execution has its id
      obtain rfl := hlinked.approvalId id x approvalId hx happroval
      exact ⟨x, hx, rfl⟩
  never := by
    rintro ⟨approvalId, q, e, hmem⟩
    rcases List.mem_append.mp hmem with hmem | hmem
    · exact hknown.never ⟨approvalId, q, e, hmem⟩
    · obtain ⟨rfl, hres⟩ := Entry.mk.inj (List.mem_singleton.mp hmem)
      exact hlinked.accepts hknown hallows.1 hallows.2 a (eq_of_heq hres).symm

end Linked

/-! ### Runs -/

section Runs

variable {E : Engine} {cfg : Config}

theorem view_bound (c : Call boundInterface Request (Except String Response)) :
    c.view ((discipline cfg).within BoundAns) Trace.start =
      ⟨c.request, c.history.map Entry.outside⟩ :=
  Call.view_within_push rfl c

theorem linked_modular (E : Engine) (cfg : Config) :
    Modular (bound E cfg) (fun r => (serve cfg r).run.within BoundAns)
      ((discipline cfg).within BoundAns) Trace.start (fun _ r => ∀ a, r = .ok a → True)
      (Linked E cfg) (fun s v => Known s v.history) (fun _ _ => True) RegistersAlike where
  body_safe r := Prog.safe_within.mpr (serve_returns cfg r)
  symm _ _ h := h
  spawn p r _ _ := ⟨known_start p.shared, fun _ _ => trivial⟩
  call p t ans c o k hcond hct hrest hJ hR hallows := by
    have hknown := hR t c hct
    rw [view_bound] at hknown hallows ⊢
    have halike : ∀ approvalId actor q e, o = .requestApproval approvalId actor q e →
        ∀ e₀, q.evidence = some e₀ → Alike e e₀ := by
      rintro approvalId actor q e rfl e₀ he₀
      have halike : SimulatedAlike (c.history.map Entry.outside) q := by
        simpa only [RegistersAlike, hct, Pool.next?_eq hct hrest] using hcond
      exact halike e e₀ hallows.2 he₀
    exact ⟨trivial, hJ.handle hknown (ans o) hallows halike, Known.push hJ hknown (ans o) hallows⟩
  frame s v o a w _ _ _ hw _ := ⟨hw.handle a, trivial⟩

/-- What is known of a pool that registered what was simulated alike. -/
abbrev Agreeing (E : Engine) (cfg : Config) (p : BoundPool) : Prop :=
  Coherent ((discipline cfg).within BoundAns) Trace.start (fun _ r => ∀ a, r = .ok a → True)
    (Linked E cfg) (fun s v => Known s v.history) (fun _ _ => True) p

theorem Linked.presentsRegistered {s : BoundStore} (h : Linked E cfg s) :
    PresentsRegistered E cfg s := by
  intro x hx approvalId row q e happroval hrow hquote hevidence
  have hfind := Table.find?_eq_some_iff.mpr ⟨hx, rfl⟩
  obtain rfl := h.approvalId x.id x approvalId hfind happroval
  obtain ⟨y, hy, hbound⟩ := h.registered x.id row hrow
  obtain rfl := Option.some_inj.mp (hfind.symm.trans hy)
  exact hbound q e hquote hevidence

theorem Agreeing.acceptsApproved {p : BoundPool} (h : Agreeing E cfg p) :
    AcceptsApproved E cfg p := by
  intro t approvalId q e row hnext hrow happroved hclosed a hlive
  obtain ⟨c, k, hct, hrest⟩ := Pool.exists_of_next? hnext
  have hallows := (h.safe t c hct _ hrest).1
  have hknown := h.known t c hct
  rw [view_bound] at hknown hallows
  obtain ⟨b, hb, hbinding⟩ := h.shared.presented hknown hallows.1 hallows.2 hrow
  obtain ⟨x, hx⟩ := consume_of_bound hclosed hrow hlive happroved hbinding
  rw [handle_consumeApproval hb, hx]
  rfl

/-- **Bindings agree** in every run in which what `execute` registers was simulated as the quote
was: `submit` presents what was registered, an approval that was given in time is accepted, and
none is refused for a mismatch. -/
theorem bindings_agree (E : Engine) (cfg : Config) (es : List (Event boundInterface Request))
    (hmeets : Pool.Meets (bound E cfg) (fun r => (serve cfg r).run.within BoundAns)
      RegistersAlike (Pool.start .empty) es) :
    ∀ before after, es = before ++ after → BindingsAgree E cfg (boundRun E cfg before) := by
  rintro before after rfl
  have hempty : Linked E cfg .empty :=
    ⟨by simp [BoundStore.empty, LiveStore.empty, Table.find?_empty],
      by simp [ApprovalDb.Bound, BoundStore.empty, ApprovalDb.raw, ApprovalDb.empty,
        Table.find?_empty]⟩
  have hagreeing : Agreeing E cfg (boundRun E cfg before) :=
    (linked_modular E cfg).run (Pool.meets_append.mp hmeets).1 (Modular.coherent_start hempty)
  refine ⟨hagreeing.shared.presentsRegistered, hagreeing.acceptsApproved, fun c hc => ?_⟩
  obtain ⟨t, ht⟩ := List.mem_iff_getElem?.mp hc
  have hknown := hagreeing.known t c ht
  rw [view_bound] at hknown
  exact hknown.never

end Runs

/-! ### A simulation that says something else -/

/-- The collaborators answer as before; what else the approval engine needs. -/
def boundAnswers (o : Op) : BoundAns o := (sampleAnswers o, "challenge", fun _ => 10)

/-- The simulator runs one slot later. -/
def driftedAnswers : (o : Op) → BoundAns o
  | .simulate _ => ((.ok (.evidence { sampleEvidence with hash := "evidence2", slot := 6 }) :
      Except String SimulationAnswer), "challenge", fun _ => 10)
  | o => boundAnswers o

/-- An execution is created and registered, approved by the one operator it takes, and
submitted. -/
def boundEvents (ans : (o : Op) → BoundAns o) : List (Event boundInterface Request) :=
  .spawn (.execute "q1" "key" "agent" false) :: (List.replicate 8 (.step 0 ans) ++
    .spawn (.approve "x1" "ana" (some { sampleDecision with proof := some "signed" })) ::
      (List.replicate 5 (.step 1 ans) ++ .spawn (.submit "x1") :: List.replicate 6 (.step 2 ans)))

/-- The operator approved in time, and `submit` is refused: `execute` had registered the approval
for a simulation in slot 6. -/
theorem approved_and_refused :
    ((boundRun sampleEngine sampleConfig (boundEvents driftedAnswers)).shared.approvals.raw
      "x1").map RequestRow.status = some .approved ∧
    ((boundRun sampleEngine sampleConfig (boundEvents driftedAnswers)).calls[2]?.bind
      Call.result?) = some (.error "Exact transaction mismatch") ∧
    ¬ BindingsAgree sampleEngine sampleConfig
      (boundRun sampleEngine sampleConfig (boundEvents driftedAnswers)) := by
  refine ⟨by decide +kernel, by decide +kernel, fun h => ?_⟩
  have hrows : ∃ x ∈ (boundRun sampleEngine sampleConfig
        (boundEvents driftedAnswers)).shared.live.executions.rows,
      x.approvalId = some "x1" ∧ sampleConfig.quotes.find? x.quoteId = some sampleQuote := by
    decide
  obtain ⟨x, hx, happroval, hquote⟩ := hrows
  have hbound : ((boundRun sampleEngine sampleConfig (boundEvents driftedAnswers)).shared.approvals.raw
      "x1").map (fun row => decide ((binding sampleConfig sampleQuote sampleEvidence).bind
        sampleEngine.binding = .ok row.binding)) = some false := by decide +kernel
  obtain ⟨row, hrow, hne⟩ := Option.map_eq_some_iff.mp hbound
  obtain ⟨b, hb, htext⟩ := h.presents x hx "x1" row sampleQuote sampleEvidence happroval hrow
    hquote rfl
  simp [hb, Except.bind, htext] at hne

/-- Simulated alike, it is accepted. -/
theorem bindings_agree_sample :
    BindingsAgree sampleEngine sampleConfig
      (boundRun sampleEngine sampleConfig (boundEvents boundAnswers)) :=
  bindings_agree sampleEngine sampleConfig (boundEvents boundAnswers) (by decide) _ []
    (List.append_nil _).symm

example : ((boundRun sampleEngine sampleConfig (boundEvents boundAnswers)).shared.approvals.raw
    "x1").map RequestRow.status = some .consumed := by decide +kernel

end AriOs.LiveTrading
