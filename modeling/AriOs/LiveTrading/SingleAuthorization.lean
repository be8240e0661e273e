import AriOs.LiveTrading.Effects

/-!
# One authorization for one execution

`submit` may be entered again from `signing`, and then issues another envelope, whatever
became of the first. So an execution is handed to the signer once as long as nobody enters
again while an earlier attempt may still hand an envelope over, or has done so.
-/

namespace AriOs.LiveTrading

open AriOs.Async AriOs.Execution AriOs.Js AriOs.Storage Live

/-- An envelope for the execution was handed over by this operation. -/
def Signed (id : String) (c : LiveCall) : Prop := ∃ e ∈ c.history, isSign id e = true

/-- The operation handed an envelope over, or still may. -/
def Active (id : String) (c : LiveCall) : Prop :=
  Signed id c ∨ (c.Running ∧ Holding id c.history)

instance (id : String) (c : LiveCall) : Decidable (Signed id c) := by
  unfold Signed; infer_instance

instance (id : String) (c : LiveCall) : Decidable (Active id c) := by
  unfold Active; infer_instance

/-- `submit` finds an execution in `signing` only when no operation is active on it. -/
def ReentersIdle (p : LivePool) : Event interface Request → Prop
  | .step t _ =>
    match p.next? t with
    | some (.get .submit id) =>
      p.shared.stateOf id = some .signing → ∀ c ∈ p.calls, ¬ Active id c
    | _ => True
  | _ => True

instance (p : LivePool) : ∀ e, Decidable (ReentersIdle p e)
  | .step t _ => by
    dsimp only [ReentersIdle]
    generalize p.next? t = next
    change Option Op at next
    rcases next with _ | o
    · exact isTrue trivial
    · rcases o with ⟨⟩ | _ | ⟨⟨⟩, _⟩ <;> infer_instance
  | .spawn _ | .kill _ => isTrue trivial

/-! ### Past approval -/

/-- The execution has left the states before `signing`. -/
def PastApproval (s : LiveStore) (id : String) : Prop :=
  ∃ x, s.executions.find? id = some x ∧ x.state ≠ .awaitingApproval ∧ x.state ≠ .approved

/-- No move leads back to an approval, and each one leaves `approved`. -/
theorem Move.pastApproval {cfg : Config} {h : History} {id : String} {source : List TradeState}
    {patch : Patch} (hmove : Move cfg h id source patch) {state : TradeState}
    (hmem : state ∈ source) (hstate : state ≠ .awaitingApproval) :
    patch.state.getD state ≠ .awaitingApproval ∧ patch.state.getD state ≠ .approved := by
  cases hmove with
  | register | approve | deny =>
    rw [List.mem_singleton] at hmem
    exact absurd hmem hstate
  | authorize =>
    rw [List.mem_singleton] at hmem
    simp [hmem]
  | settle x st signature hlooked hanswered =>
    simp only [Option.getD_some, settledState]
    split
    · simp
    · split <;> simp
  | _ => simp [submittingPatch]

theorem PastApproval.handle {cfg : Config} {s : LiveStore} {v : Trace interface Request} {o : Op}
    (a : o.Ans) (hallows : Allows cfg v o) {id : String} (h : PastApproval s id) :
    PastApproval ((machine cfg).handle o s a).2 id := by
  obtain ⟨x, hx, hawaiting, happroved⟩ := h
  rcases executions_handle cfg o s a with heq | ⟨_, _, row, -, -, hins⟩ |
    ⟨id', source, patch, now, old, rfl, hold, hmem, hfind⟩
  · exact ⟨x, heq ▸ hx, hawaiting, happroved⟩
  · exact ⟨x, Table.find?_insert?_of_some hins hx, hawaiting, happroved⟩
  · rw [PastApproval, hfind]
    split
    · rename_i hid
      subst hid
      obtain rfl := Option.some_inj.mp (hold.symm.trans hx)
      exact ⟨_, rfl, Move.pastApproval hallows hmem hawaiting⟩
    · exact ⟨x, hx, hawaiting, happroved⟩

theorem acquires_cases {id : String} {e : Entry interface} (h : acquires id e = true) :
    (∃ patch x, e = ⟨.transition id [.approved] patch, (.ok x : Except String Execution)⟩) ∨
      ∃ x, e = ⟨.get .submit id, (some x : Option Execution)⟩ ∧ x.state = .signing := by
  unfold acquires at h
  split at h
  · rename_i id' patch x
    obtain rfl : id' = id := by simpa using h
    exact .inl ⟨patch, x, rfl⟩
  · rename_i id' x
    obtain ⟨rfl, hstate⟩ : id' = id ∧ x.state = .signing := by simpa using h
    exact .inr ⟨x, rfl, hstate⟩
  · simp at h

/-- A call that gives hold of an execution found it approved, or it is `submit` finding it in
`signing`. Either way it is past approval then. -/
theorem pastApproval_of_acquires {cfg : Config} {s : LiveStore} {v : Trace interface Request}
    {o : Op} (a : o.Ans) (hallows : Allows cfg v o) {id : String}
    (h : acquires id ⟨o, ((machine cfg).handle o s a).1⟩ = true) :
    PastApproval ((machine cfg).handle o s a).2 id ∧
      (s.stateOf id = some .approved ∨ (o = .get .submit id ∧ s.stateOf id = some .signing)) := by
  rcases acquires_cases h with ⟨patch, x, he⟩ | ⟨x, he, hstate⟩
  · obtain ⟨rfl, hres⟩ := Entry.mk.inj he
    have hok : (s.transition id [.approved] patch a).1 = .ok x := eq_of_heq hres
    rcases transition_cases s id [.approved] patch a with ⟨⟨e, herr⟩, -⟩ |
      ⟨old, hold, hmem, -, -, -, hfind⟩
    · simp [herr] at hok
    · have happroved : old.state = .approved := List.mem_singleton.mp hmem
      refine ⟨⟨patch.apply a old, (hfind id).trans (if_pos rfl), ?_⟩, .inl ?_⟩
      · exact Move.pastApproval hallows hmem (by simp [happroved])
      · rw [LiveStore.stateOf, hold, Option.map_some, happroved]
  · obtain ⟨rfl, hres⟩ := Entry.mk.inj he
    have hx : s.executions.find? id = some x := eq_of_heq hres
    refine ⟨⟨x, hx, by simp [hstate]⟩, .inr ⟨rfl, ?_⟩⟩
    rw [LiveStore.stateOf, hx, Option.map_some, hstate]

/-! ### Histories -/

theorem signed_advance {id : String} {c : LiveCall} {o : Op}
    {k : o.Res → Prog interface (Except String Response)} {r : o.Res} :
    Signed id (c.advance o k r) ↔ Signed id c ∨ isSign id ⟨o, r⟩ = true := by
  simp [Signed, Call.advance, or_and_right, exists_or]

/-- A hold was once acquired. -/
theorem exists_acquires_of_holding {id : String} {h : History} (hh : Holding id h) :
    ∃ e ∈ h, acquires id e = true := by
  induction h using List.reverseRecOn with
  | nil => simp [Holding] at hh
  | append_singleton h e ih =>
    rcases holding_append.mp hh with hacquires | ⟨-, hh⟩
    · exact ⟨e, by simp, hacquires⟩
    · obtain ⟨e', hmem, hacquires⟩ := ih hh
      exact ⟨e', List.mem_append_left _ hmem, hacquires⟩

theorem not_acquires_of_isSign {id id' : String} {e : Entry interface} (h : isSign id e = true) :
    acquires id' e = false := by
  obtain ⟨o, r⟩ := e
  cases o with
  | sign => rfl
  | _ => simp [isSign] at h

/-! ### At most one operation is active -/

/-- At most one operation is active on the execution, and hands over at most one envelope. -/
structure Exclusive (id : String) (p : LivePool) : Prop where
  past : ∀ c ∈ p.calls, ∀ e ∈ c.history, acquires id e = true → PastApproval p.shared id
  acquired : ∀ c ∈ p.calls, Signed id c → ∃ e ∈ c.history, acquires id e = true
  apart : ∀ (t u : Nat) (c d : LiveCall), t ≠ u → p.calls[t]? = some c → p.calls[u]? = some d →
    Active id c → ¬ Active id d
  once : ∀ c ∈ p.calls, c.history.countP (isSign id) ≤ 1
  unused : ∀ c ∈ p.calls, c.Running → Holding id c.history → ¬ Signed id c

namespace Exclusive

variable {id : String} {p : LivePool}

theorem exists_acquires (h : Exclusive id p) {c : LiveCall} (hc : c ∈ p.calls)
    (hactive : Active id c) : ∃ e ∈ c.history, acquires id e = true := by
  rcases hactive with hsigned | ⟨-, hholding⟩
  · exact h.acquired c hc hsigned
  · exact exists_acquires_of_holding hholding

/-- On an approved execution nobody is active. -/
theorem idle_of_approved (h : Exclusive id p) (hstate : p.shared.stateOf id = some .approved) :
    ∀ c ∈ p.calls, ¬ Active id c := by
  intro c hc hactive
  obtain ⟨e, hmem, hacquires⟩ := h.exists_acquires hc hactive
  obtain ⟨x, hx, -, hne⟩ := h.past c hc e hmem hacquires
  rw [LiveStore.stateOf, hx] at hstate
  exact hne (Option.some_inj.mp hstate)

theorem spawn (h : Exclusive id p) (body : Request → Prog interface (Except String Response))
    (r : Request) : Exclusive id (p.spawn body r) := by
  -- a body that has made no call has neither acquired nor signed anything
  have hnew : ∀ c : LiveCall, c.history = [] → ¬ Active id c ∧ ¬ Signed id c :=
    fun c hc => by simp [Active, Signed, Holding, hc]
  have hcases : ∀ c ∈ (p.spawn body r).calls, c ∈ p.calls ∨ c.history = [] := by
    intro c hc
    rcases List.mem_append.mp hc with hc | hc
    · exact .inl hc
    · exact .inr (by rw [List.mem_singleton.mp hc])
  refine ⟨fun c hc e he hacquires => ?_, fun c hc hsigned => ?_, fun t u c d htu hc hd hca => ?_,
    fun c hc => ?_, fun c hc hrunning hholding => ?_⟩
  · rcases hcases c hc with hc | hnil
    · exact h.past c hc e he hacquires
    · simp [hnil] at he
  · rcases hcases c hc with hc | hnil
    · exact h.acquired c hc hsigned
    · exact absurd hsigned (hnew c hnil).2
  · rcases getElem?_append_singleton_cases hc with ⟨-, rfl⟩ | hc
    · exact absurd hca (hnew _ rfl).1
    · rcases getElem?_append_singleton_cases hd with ⟨-, rfl⟩ | hd
      · exact (hnew _ rfl).1
      · exact h.apart t u c d htu hc hd hca
  · rcases hcases c hc with hc | hnil
    · exact h.once c hc
    · simp [hnil]
  · rcases hcases c hc with hc | hnil
    · exact h.unused c hc hrunning hholding
    · exact (hnew c hnil).2

theorem kill (h : Exclusive id p) (u : Nat) : Exclusive id (p.kill u) := by
  -- a dead operation was at least as active before
  have hcases : ∀ (t : Nat) (c : LiveCall), (p.kill u).calls[t]? = some c →
      ∃ d : LiveCall, p.calls[t]? = some d ∧ c.history = d.history ∧ (c.Running → d.Running) := by
    intro t c ht
    obtain ⟨d, hd, -, hhist, hrest | rfl⟩ := Pool.getElem?_kill ht
    · refine ⟨d, hd, hhist, ?_⟩
      rintro ⟨o, k, hrun⟩
      simp [hrest] at hrun
    · exact ⟨c, hd, rfl, fun hrun => hrun⟩
  have hmem : ∀ c ∈ (p.kill u).calls, ∃ d ∈ p.calls, c.history = d.history ∧
      (c.Running → d.Running) := by
    intro c hc
    obtain ⟨t, ht⟩ := List.mem_iff_getElem?.mp hc
    obtain ⟨d, hd, hhist⟩ := hcases t c ht
    exact ⟨d, List.mem_of_getElem? hd, hhist⟩
  refine ⟨fun c hc => ?_, fun c hc => ?_, fun t w c d htw hc hd => ?_, fun c hc => ?_,
    fun c hc => ?_⟩
  · obtain ⟨d, hd, hhist, -⟩ := hmem c hc
    rw [hhist]
    exact h.past d hd
  · obtain ⟨d, hd, hhist, -⟩ := hmem c hc
    rw [Signed, hhist]
    exact h.acquired d hd
  · obtain ⟨c', hc', hchist, hcrun⟩ := hcases t c hc
    obtain ⟨d', hd', hdhist, hdrun⟩ := hcases w d hd
    have hapart := h.apart t w c' d' htw hc' hd'
    rw [Active, Active, Signed, Signed, hchist, hdhist]
    exact fun hca hda => hapart (hca.imp_right (And.imp_left hcrun))
      (hda.imp_right (And.imp_left hdrun))
  · obtain ⟨d, hd, hhist, -⟩ := hmem c hc
    rw [hhist]
    exact h.once d hd
  · obtain ⟨d, hd, hhist, hrun⟩ := hmem c hc
    rw [Signed, hhist]
    exact fun hrunning => h.unused d hd (hrun hrunning)

/-- The next call of an operation, if nobody is active when it acquires hold. -/
theorem step (h : Exclusive id p) {cfg : Config} {t : Nat} {c : LiveCall} {o : Op}
    {k : o.Res → Prog interface (Except String Response)} (a : o.Ans)
    (hct : p.calls[t]? = some c) (hrest : c.rest = some (.call o k))
    (hallows : Allows cfg ⟨c.request, c.history⟩ o)
    (hidle : acquires id ⟨o, ((machine cfg).handle o p.shared a).1⟩ = true →
      ∀ d ∈ p.calls, ¬ Active id d) :
    Exclusive id
      { shared := ((machine cfg).handle o p.shared a).2,
        calls := p.calls.set t (c.advance o k ((machine cfg).handle o p.shared a).1) } := by
  set out := (machine cfg).handle o p.shared a with hout
  have hc : c ∈ p.calls := List.mem_of_getElem? hct
  have hrunning : c.Running := ⟨o, k, hrest⟩
  have hheld : isSign id ⟨o, out.1⟩ = true → Holding id c.history := by
    intro hsign
    cases o with
    | sign id' transaction authorizationId =>
      obtain rfl : id' = id := by simpa [isSign] using hsign
      exact hallows
    | _ => simp [isSign] at hsign
  have hactive : Active id (c.advance o k out.1) →
      Active id c ∨ acquires id ⟨o, out.1⟩ = true := by
    rintro (hsigned | ⟨-, hholding⟩)
    · rcases signed_advance.mp hsigned with hsigned | hsign
      · exact .inl (.inl hsigned)
      · exact .inl (.inr ⟨hrunning, hheld hsign⟩)
    · rcases holding_append.mp hholding with hacquires | ⟨-, hholding⟩
      · exact .inr hacquires
      · exact .inl (.inr ⟨hrunning, hholding⟩)
  have hcases : ∀ d ∈ p.calls.set t (c.advance o k out.1), d ∈ p.calls ∨ d = c.advance o k out.1 :=
    fun d hd => List.mem_or_eq_of_mem_set hd
  refine ⟨fun d hd e he hacquires => ?_, fun d hd hsigned => ?_,
    fun u w d e huw hd he hda hea => ?_, fun d hd => ?_, fun d hd hrun hholding hsigned => ?_⟩
  · rcases hcases d hd with hd | rfl
    · exact (h.past d hd e he hacquires).handle a hallows
    · rcases List.mem_append.mp he with he | he
      · exact (h.past c hc e he hacquires).handle a hallows
      · rw [List.mem_singleton.mp he] at hacquires
        exact (pastApproval_of_acquires a hallows hacquires).1
  · rcases hcases d hd with hd | rfl
    · exact h.acquired d hd hsigned
    · have hbefore : ∃ e ∈ c.history, acquires id e = true := by
        rcases signed_advance.mp hsigned with hsigned | hsign
        · exact h.acquired c hc hsigned
        · exact exists_acquires_of_holding (hheld hsign)
      obtain ⟨e, he, hacquires⟩ := hbefore
      exact ⟨e, List.mem_append_left _ he, hacquires⟩
  · -- of two active operations, neither has just acquired hold, so both were active before
    rcases getElem?_set_cases hd with ⟨rfl, rfl⟩ | ⟨hut, hd'⟩
    · rcases getElem?_set_cases he with ⟨hwt, -⟩ | ⟨-, he'⟩
      · exact huw hwt.symm
      · rcases hactive hda with hca | hacquires
        · exact h.apart _ w c e huw hct he' hca hea
        · exact hidle hacquires e (List.mem_of_getElem? he') hea
    · rcases getElem?_set_cases he with ⟨rfl, rfl⟩ | ⟨-, he'⟩
      · rcases hactive hea with hca | hacquires
        · exact h.apart u _ d c hut hd' hct hda hca
        · exact hidle hacquires d (List.mem_of_getElem? hd') hda
      · exact h.apart u w d e huw hd' he' hda hea
  · rcases hcases d hd with hd | rfl
    · exact h.once d hd
    · change List.countP (isSign id) (c.history ++ [⟨o, out.1⟩]) ≤ 1
      rw [List.countP_append, List.countP_singleton]
      split
      · rename_i hsign
        have hzero : c.history.countP (isSign id) = 0 := by
          refine List.countP_eq_zero.mpr fun e he hsigned => ?_
          exact h.unused c hc hrunning (hheld hsign) ⟨e, he, hsigned⟩
        omega
      · exact h.once c hc
  · rcases hcases d hd with hd | rfl
    · exact h.unused d hd hrun hholding hsigned
    · rcases holding_append.mp hholding with hacquires | ⟨hsign, hholding⟩
      · rcases signed_advance.mp hsigned with hsigned | hsign
        · exact hidle hacquires c hc (.inl hsigned)
        · simp [not_acquires_of_isSign hsign] at hacquires
      · rcases signed_advance.mp hsigned with hsigned | hsigned
        · exact h.unused c hc hrunning hholding hsigned
        · simp [hsign] at hsigned

end Exclusive

/-! ### Runs -/

/-- Every operation of a run keeps its promises. -/
theorem allows_modular (cfg : Config) :
    Modular (machine cfg) (fun r => (serve cfg r).run) (discipline cfg) Trace.start
      (fun _ r => ∀ a, r = .ok a → True) (fun _ => True) (fun _ _ => True) (fun _ _ => True)
      ReentersIdle where
  body_safe r := serve_returns cfg r
  symm _ _ h := h
  spawn _ _ _ _ := ⟨trivial, fun _ _ => trivial⟩
  call _ _ _ _ _ _ _ _ _ _ _ _ := ⟨trivial, trivial, trivial⟩
  frame _ _ _ _ _ _ _ _ _ _ := ⟨trivial, trivial⟩

theorem exclusive_liveRun {cfg : Config} {es : List (Event interface Request)}
    (hmeets : liveMeets cfg ReentersIdle es) (id : String) : Exclusive id (liveRun cfg es) := by
  induction es using List.reverseRecOn with
  | nil =>
    exact ⟨fun c hc => absurd hc List.not_mem_nil, fun c hc => absurd hc List.not_mem_nil,
      fun t u c d _ hc => by simp [liveRun, Pool.start] at hc,
      fun c hc => absurd hc List.not_mem_nil, fun c hc => absurd hc List.not_mem_nil⟩
  | append_singleton es e ih =>
    obtain ⟨hbefore, hcond, -⟩ := Pool.meets_append.mp hmeets
    have hexclusive := ih hbefore
    rw [liveRun, Pool.run_append]
    cases e with
    | spawn r => exact hexclusive.spawn _ r
    | kill t => exact hexclusive.kill t
    | step t ans =>
      change Exclusive id ((liveRun cfg es).step (machine cfg) t ans)
      change ReentersIdle (liveRun cfg es) (.step t ans) at hcond
      have hp := (allows_modular cfg).run hbefore (Modular.coherent_start trivial)
      rcases Pool.step_cases (M := machine cfg) (liveRun cfg es) t ans with
        heq | ⟨c, o, k, hct, hrest, heq⟩
      · rw [heq]
        exact hexclusive
      · have hallows := (hp.safe t c hct _ hrest).1
        rw [view_discipline] at hallows
        rw [heq]
        refine hexclusive.step (ans o) hct hrest hallows fun hacquires => ?_
        -- an execution is acquired when it was approved, or when signing is entered again
        rcases (pastApproval_of_acquires (ans o) hallows hacquires).2 with
          happroved | ⟨rfl, hsigning⟩
        · exact hexclusive.idle_of_approved happroved
        · simp only [ReentersIdle, Pool.next?_eq hct hrest] at hcond
          exact hcond hsigning

/-- **One envelope for one execution**, in every run in which `submit` finds an execution in
`signing` only when no operation handed an envelope for it over and none still may. -/
theorem authorized_at_most_once (cfg : Config) (es : List (Event interface Request))
    (hmeets : liveMeets cfg ReentersIdle es) (id : String) :
    (liveRun cfg es).occurrences (fun _ => true) (isSign id) ≤ 1 := by
  have h := exclusive_liveRun hmeets id
  refine sum_map_le_one (fun c hc => h.once c (List.mem_filter.mp hc).1) ?_
  rw [List.filter_true, List.pairwise_iff_getElem]
  intro t u ht hu htu
  by_contra hboth
  rw [not_or, ← ne_eq, ← ne_eq, ← Nat.pos_iff_ne_zero, ← Nat.pos_iff_ne_zero,
    List.countP_pos_iff, List.countP_pos_iff] at hboth
  exact h.apart t u _ _ (by omega) (List.getElem?_eq_getElem ht) (List.getElem?_eq_getElem hu)
    (.inl hboth.1) (.inl hboth.2)

/-! ### A lost response -/

/-- The signer's response is lost. -/
def sampleLostResponse : ∀ o, interface.Ans o
  | .sign _ _ _ => (.error "timeout" : Except String SignerSignResponse)
  | o => sampleAnswers o

/-- The approval was consumed before, and the issuer issues another envelope. -/
def sampleSecondEnvelope : ∀ o, interface.Ans o
  | .approvalStatus _ => (.ok (some .consumed) : Except String (Option Approvals.ApprovalStatus))
  | .issue _ _ => (.ok "a2" : Except String String)
  | o => sampleAnswers o

/-- Two envelopes are handed over for one execution: the response to the first was lost, and
`submit` is called again. -/
theorem authorized_twice :
    (liveRun sampleConfig (sampleApproved ++ sampleCall 2 (.submit "x1") 12 sampleLostResponse ++
      sampleCall 3 (.submit "x1") 12 sampleSecondEnvelope)).occurrences (fun _ => true)
        (isSign "x1") = 2 := by
  decide

/-- A single call of `submit` hands over one. -/
theorem authorized_at_most_once_broadcast :
    (liveRun sampleConfig sampleBroadcast).occurrences (fun _ => true) (isSign "x1") ≤ 1 :=
  authorized_at_most_once sampleConfig sampleBroadcast (by decide) "x1"

end AriOs.LiveTrading
