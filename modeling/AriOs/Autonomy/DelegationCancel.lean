import AriOs.Autonomy.DelegationLifecycle
import Mathlib.Algebra.Order.BigOperators.Group.List

/-!
# Cancelling delegations

Cancelling ends a queued child at once and aborts one that waits for its runtime, which then
ends as cancelled. It does nothing to a child whose result is being verified: this one completes
and is announced. `cancelParent` goes down the sessions of unfinished children only, so it does
not find a child whose parent session has ended; `cancel` goes down no session at all. And
`authorizeDispatch` does not look at the status: it is left to the enforcer to refuse.
-/

namespace AriOs.Autonomy.Delegation

open AriOs.Async AriOs.Async.Transition AriOs.Js AriOs.Storage

/-- The child has not ended. -/
def Entry.Unfinished (e : Entry) : Prop := e.status.terminal = false

/-- The result of the child is being verified. -/
def Entry.IsVerified (e : Entry) : Prop := ∃ result, e.stage = .verifying result

/-! ### Who is below a session -/

/-- Child `i` is below a session, through any chain of sessions. -/
inductive Below (m : Manager) : String → Nat → Prop
  | child {p : String} {i : Nat} {e : Entry} (hi : m.entries[i]? = some e)
      (hp : e.request.parentSessionId = p) : Below m p i
  | descend {p : String} {i j : Nat} {e : Entry} (hi : m.entries[i]? = some e)
      (hp : e.request.parentSessionId = p) (hj : Below m e.id j) : Below m p j

/-- Child `i` is below a session, through a chain of sessions none of which has ended. -/
inductive Reached (m : Manager) : String → Nat → Prop
  | child {p : String} {i : Nat} {e : Entry} (hi : m.entries[i]? = some e)
      (hp : e.request.parentSessionId = p) (hunfinished : e.Unfinished) : Reached m p i
  | descend {p : String} {i j : Nat} {e : Entry} (hi : m.entries[i]? = some e)
      (hp : e.request.parentSessionId = p) (hunfinished : e.Unfinished)
      (hj : Reached m e.id j) : Reached m p j

theorem Reached.below_session {m : Manager} {p : String} {i : Nat} (h : Reached m p i) :
    Below m p i := by
  induction h with
  | child hi hp => exact .child hi hp
  | descend hi hp _ _ ih => exact .descend hi hp ih

/-! ### Halted children -/

/-- Cancelled, or aborted while it waits for its runtime: whatever comes next, it ends as
cancelled. -/
def Entry.Halted (e : Entry) : Prop :=
  e.status = .cancelled ∨ (e.status = .running ∧ e.stage = .racing ∧ e.reason.isSome = true)

/-- The hook `announce` is not called for the child, and was not. -/
structure Entry.Unannounced (e : Entry) : Prop where
  stage : ∀ r, e.stage ≠ .announcing r
  archiving : ∀ r errors, e.stage = .archiving r errors → r.announced = false
  resolved : ∀ r ∈ e.resolved, r.announced = false

/-- Cancelled or about to be, and never announced. -/
def Entry.Quiet (e : Entry) : Prop := e.Halted ∧ e.Unannounced

variable {o : Options} {m m₀ m' : Manager} {i j : Nat} {e e' e₀ : Entry} {p : String}

theorem Entry.Step.halted (h : Entry.Step e e') (he : e.Halted) : e'.Halted := by
  cases h with
  -- an entry that is halted is cancelled, or it races with its signal aborted
  | begin hqueued => rcases he with he | he <;> simp [he] at hqueued
  | abort reason => exact he.imp (fun h => h) fun h => ⟨h.1, h.2.1, rfl⟩
  | verify hracing hreason =>
    rcases he with he | ⟨-, -, he⟩
    · exact .inl he
    · simp [hreason] at he
  | succeed hrunning hstage =>
    rcases he with he | ⟨-, hracing, he⟩
    · simp [he] at hrunning
    · rcases hstage with ⟨-, hreason⟩ | ⟨r, hstage⟩
      · simp [hreason] at he
      · simp [hracing] at hstage
  | fail hunfinished _ hstatus hreason =>
    rcases he with he | ⟨-, hracing, he⟩
    · simp [he, DelegationStatus.terminal] at hunfinished
    · exact .inl (hreason hracing he)
  | archive hstage =>
    rcases he with he | ⟨-, hracing, -⟩
    · exact .inl he
    · simp [hracing] at hstage
  | leave hstage =>
    rcases he with he | ⟨-, hracing, -⟩
    · exact .inl he
    · simp [hracing] at hstage

/-- A child that is quiet stays quiet. -/
theorem Entry.Step.quiet (h : Entry.Step e e') (he : e.Quiet) : e'.Quiet := by
  refine ⟨h.halted he.1, ?_⟩
  obtain ⟨hhalted, hstage', harchiving, hresolved⟩ := he
  cases h with
  | begin hqueued => exact ⟨by simp, by simp, hresolved⟩
  | abort reason => exact ⟨hstage', harchiving, hresolved⟩
  | verify => exact ⟨by simp, by simp, hresolved⟩
  | succeed hrunning hstage =>
    -- only a child that is neither cancelled nor aborted succeeds
    exfalso
    rcases hhalted with he | ⟨-, hracing, he⟩
    · simp [he] at hrunning
    · rcases hstage with ⟨-, hreason⟩ | ⟨r, hstage⟩
      · simp [hreason] at he
      · simp [hracing] at hstage
  | fail =>
    refine ⟨by simp [Entry.ended], ?_, hresolved⟩
    intro r errors hr
    simp only [Entry.ended, Bool.false_eq_true, if_false, Stage.archiving.injEq] at hr
    rw [← hr.1]
  | archive hstage => exact absurd hstage (hstage' _)
  | leave hstage hr =>
    refine ⟨by simp, by simp, ?_⟩
    intro r hmem
    rcases List.mem_append.mp hmem with hmem | hmem
    · exact hresolved r hmem
    · rw [List.mem_singleton.mp hmem, hr]
      exact harchiving _ _ hstage

theorem quiet_of_steps (h : Relation.ReflTransGen Entry.Step e e') (he : e.Quiet) : e'.Quiet := by
  induction h with
  | refl => exact he
  | tail _ hstep ih => exact hstep.quiet ih

theorem halted_of_steps (h : Relation.ReflTransGen Entry.Step e e') (he : e.Halted) :
    e'.Halted := by
  induction h with
  | refl => exact he
  | tail _ hstep ih => exact hstep.halted ih

/-- Child `i` is halted. -/
def HaltedAt (m : Manager) (i : Nat) : Prop := ∃ e, m.entries[i]? = some e ∧ e.Halted

theorem HaltedAt.evolves (h : HaltedAt m i) (hevolves : Evolves m m') : HaltedAt m' i := by
  obtain ⟨e, hi, he⟩ := h
  obtain ⟨e', hi', hsteps⟩ := hevolves i e hi
  exact ⟨e', hi', halted_of_steps hsteps he⟩

/-! ### The cascade -/

/-- The children of `m₀`, some of them cancelled since. -/
structure Cascaded (m₀ m : Manager) : Prop where
  length : m.entries.length = m₀.entries.length
  entry : ∀ (i : Nat) e, m.entries[i]? = some e → ∃ e₀, m₀.entries[i]? = some e₀ ∧
    e.request = e₀.request ∧ e.sequence = e₀.sequence ∧
    ((e.status = e₀.status ∧ e.stage = e₀.stage) ∨ e.status = .cancelled)
  /-- below a child that was cancelled everyone is halted -/
  closed : ∀ (i : Nat) e₀ e, m₀.entries[i]? = some e₀ → m.entries[i]? = some e →
    e₀.Unfinished → e.status = .cancelled → ∀ j, Reached m₀ e₀.id j → HaltedAt m j

theorem Cascaded.refl (m : Manager) : Cascaded m m where
  length := rfl
  entry i e hi := ⟨e, hi, rfl, rfl, .inl ⟨rfl, rfl⟩⟩
  closed i e₀ e h h' hunfinished hcancelled := by
    obtain rfl := Option.some.inj (h.symm.trans h')
    simp [Entry.Unfinished, hcancelled, DelegationStatus.terminal] at hunfinished

theorem Cascaded.exists_entry (h : Cascaded m₀ m) (hi : m₀.entries[i]? = some e₀) :
    ∃ e, m.entries[i]? = some e := by
  have hlt := (List.getElem?_eq_some_iff.mp hi).1
  exact ⟨_, List.getElem?_eq_getElem (h.length ▸ hlt)⟩

/-- What `#cancel` does to the entry. -/
theorem cancel_entries (h : Sound o m) (i : Nat) (text : String)
    (hm' : m.cancel i (some text) = .ok m') :
    m'.entries.length = m.entries.length ∧
      (∀ j, j ≠ i → m'.entries[j]? = m.entries[j]?) ∧
      ∀ e, m.entries[i]? = some e → ∃ e', m'.entries[i]? = some e' ∧
        e'.request = e.request ∧ e'.sequence = e.sequence ∧
        ((e'.status = e.status ∧ e'.stage = e.stage) ∨ e'.status = .cancelled) ∧
        (e.Unfinished → ¬e.IsVerified → e'.Halted) := by
  unfold Manager.cancel at hm'
  cases hi : m.entries[i]? with
  | none =>
    simp only [hi, Except.ok.injEq] at hm'
    subst hm'
    exact ⟨rfl, fun _ _ => rfl, by simp⟩
  | some e =>
    have hok := h.ok hi
    simp only [hi] at hm'
    split at hm'
    · -- the child has ended
      rename_i hended
      obtain rfl := Except.ok.inj hm'
      refine ⟨rfl, fun _ _ => rfl, fun x hx => ?_⟩
      obtain rfl := Option.some.inj hx
      exact ⟨e, hi, rfl, rfl, .inl ⟨rfl, rfl⟩, fun hunfinished => absurd hended (by
        rw [hunfinished]
        simp)⟩
    · split at hm'
      · -- a queued child is finished at once
        rename_i hqueued
        have hsettled : (e.abort (some text)).settled = false := by
          have hstage := hok.2
          rw [hqueued] at hstage
          cases hs : e.stage <;> simp_all [DelegationStatus.terminal, Entry.abort]
        obtain rfl := Except.ok.inj hm'
        unfold Manager.finish
        rw [hsettled, if_neg (by simp)]
        refine ⟨by simp, fun j hne => List.getElem?_set_ne (Ne.symm hne), fun x hx => ?_⟩
        obtain rfl := Option.some.inj hx
        exact ⟨_, getElem?_set_of_some hi, rfl, rfl, .inr rfl, fun _ _ => .inl rfl⟩
      · -- a child that runs is asked to stop
        rename_i hunfinished hqueued
        obtain rfl := Except.ok.inj hm'
        refine ⟨by simp, fun j hne => List.getElem?_set_ne (Ne.symm hne), fun x hx => ?_⟩
        obtain rfl := Option.some.inj hx
        refine ⟨_, getElem?_set_of_some hi, rfl, rfl, .inl ⟨rfl, rfl⟩, fun _ hverified => .inr ?_⟩
        -- a child that is neither queued nor verified waits for its runtime
        have hstage := hok.2
        cases hs : e.stage with
        | queued =>
          rw [hs] at hstage
          exact absurd hstage.1 hqueued
        | racing =>
          rw [hs] at hstage
          exact ⟨hstage.1, hs, rfl⟩
        | verifying r => exact absurd ⟨r, hs⟩ hverified
        | announcing r | archiving r errors | finished =>
          rw [hs] at hstage
          exact absurd hstage.1 hunfinished

/-- A child below which everyone is halted is asked to stop. -/
theorem Cascaded.cancel (h : Cascaded m₀ m) (hsound : Sound o m) {text : String}
    (hm' : m.cancel i (some text) = .ok m') (hevolves : Evolves m m')
    (hbelow : ∀ e, m₀.entries[i]? = some e → ∀ j, Reached m₀ e.id j → HaltedAt m j) :
    Cascaded m₀ m' := by
  obtain ⟨hlength, hothers, hself⟩ := cancel_entries hsound i text hm'
  refine ⟨hlength.trans h.length, fun k e' hk => ?_,
    fun k e₀ e' hk₀ hk hunfinished hcancelled => ?_⟩
  · -- the entry that is cancelled goes from its state to `cancelled` or stays
    by_cases hki : k = i
    · subst hki
      cases hold : m.entries[k]? with
      | none =>
        have hge := List.getElem?_eq_none_iff.mp hold
        have hlt := (List.getElem?_eq_some_iff.mp hk).1
        omega
      | some e =>
        obtain ⟨x, hx, hrequest, hsequence, hstatus, -⟩ := hself e hold
        obtain rfl := Option.some.inj (hx.symm.trans hk)
        obtain ⟨e₀, hk₀, hrequest₀, hsequence₀, hstatus₀⟩ := h.entry k e hold
        refine ⟨e₀, hk₀, hrequest.trans hrequest₀, hsequence.trans hsequence₀, ?_⟩
        rcases hstatus with ⟨hs, hg⟩ | hs
        · rcases hstatus₀ with ⟨hs₀, hg₀⟩ | hs₀
          · exact .inl ⟨hs.trans hs₀, hg.trans hg₀⟩
          · exact .inr (hs.trans hs₀)
        · exact .inr hs
    · exact h.entry k e' (hothers k hki ▸ hk)
  · intro j hj
    by_cases hki : k = i
    · subst hki
      exact (hbelow e₀ hk₀ j hj).evolves hevolves
    · exact (h.closed k e₀ e' hk₀ (hothers k hki ▸ hk) hunfinished hcancelled j hj).evolves hevolves

/-- The id of a child is longer than that of its parent. -/
theorem Entry.length_id (e : Entry) : e.request.parentSessionId.length < e.id.length := by
  unfold Entry.id
  rw [String.length_append, String.length_append]
  have hchild : ":child:".length = 7 := by decide
  omega

/-- What the cascade at a session comes to. -/
structure Halts (o : Options) (m₀ m m' : Manager) (p : String) : Prop where
  sound : Sound o m'
  evolves : Evolves m m'
  cascaded : Cascaded m₀ m'
  halted : ∀ j, Reached m₀ p j → HaltedAt m' j

/-- What the loop of the cascade at a session comes to, once it has passed the entries at `l`. -/
structure Passes (o : Options) (m₀ m m' : Manager) (p : String) (l : List Nat) : Prop where
  sound : Sound o m'
  evolves : Evolves m m'
  cascaded : Cascaded m₀ m'
  /-- the children among them are halted, and so is everyone below these -/
  halted : ∀ i ∈ l, ∀ e, m₀.entries[i]? = some e → e.request.parentSessionId = p →
    e.Unfinished → HaltedAt m' i ∧ ∀ j, Reached m₀ e.id j → HaltedAt m' j

theorem Passes.nil (hs : Sound o m) (hc : Cascaded m₀ m) : Passes o m₀ m m p [] :=
  ⟨hs, .refl m, hc, by simp⟩

theorem Passes.cons {m₁ m₂ : Manager} {l : List Nat} (h : Passes o m₀ m m₁ p [i])
    (hrest : Passes o m₀ m₁ m₂ p l) : Passes o m₀ m m₂ p (i :: l) := by
  refine ⟨hrest.sound, h.evolves.trans hrest.evolves, hrest.cascaded, fun k hk e hk₀ hp hu => ?_⟩
  rcases List.mem_cons.mp hk with rfl | hk
  · obtain ⟨hself, hbelow⟩ := h.halted k (List.mem_singleton.mpr rfl) e hk₀ hp hu
    exact ⟨hself.evolves hrest.evolves, fun j hj => (hbelow j hj).evolves hrest.evolves⟩
  · exact hrest.halted k hk e hk₀ hp hu

/-- A child that is not verified is halted by its cancellation, once everyone below it is. -/
theorem Passes.cancel {m₁ m₂ : Manager} {text : String} (h : Halts o m₀ m m₁ e₀.id)
    (hi₀ : m₀.entries[i]? = some e₀) (hunfinished : e₀.Unfinished) (hverify : ¬e₀.IsVerified)
    (hm₂ : m₁.cancel i (some text) = .ok m₂) : Passes o m₀ m m₂ p [i] := by
  obtain ⟨_, hm, hs₂, hevolves₂⟩ := h.sound.cancel i (show (some text).isSome = true from rfl)
  obtain rfl := Except.ok.inj (hm₂.symm.trans hm)
  have hbelow : ∀ x, m₀.entries[i]? = some x → ∀ j, Reached m₀ x.id j → HaltedAt m₁ j := by
    intro x hx j hj
    obtain rfl := Option.some.inj (hi₀.symm.trans hx)
    exact h.halted j hj
  refine ⟨hs₂, h.evolves.trans hevolves₂, h.cascaded.cancel h.sound hm₂ hevolves₂ hbelow,
    fun k hk x hx hxp hxu => ?_⟩
  obtain rfl := List.mem_singleton.mp hk
  refine ⟨?_, fun j hj => (hbelow x hx j hj).evolves hevolves₂⟩
  obtain ⟨e₁, hi₁⟩ := h.cascaded.exists_entry hi₀
  obtain ⟨y, hy, -, -, hstatus₁⟩ := h.cascaded.entry k e₁ hi₁
  obtain rfl := Option.some.inj (hi₀.symm.trans hy)
  -- the child is as it was, or it was cancelled while those below it were
  rcases hstatus₁ with ⟨hs₁, hg₁⟩ | hcancelled
  · obtain ⟨e₂, hi₂, -, -, -, hhalted⟩ := (cancel_entries h.sound k text hm₂).2.2 e₁ hi₁
    refine ⟨e₂, hi₂, hhalted ?_ ?_⟩
    · rw [Entry.Unfinished, hs₁]
      exact hunfinished
    · rintro ⟨r, hr⟩
      exact hverify ⟨r, hg₁ ▸ hr⟩
  · exact HaltedAt.evolves ⟨e₁, hi₁, .inl hcancelled⟩ hevolves₂

/-- One turn of the loop, when the cascade at the child itself halts everyone that it reaches. -/
theorem visitEntry_passes (text : String) {deeper : String → Manager → Except Manager Manager}
    (hs : Sound o m) (hc : Cascaded m₀ m)
    (hdeeper : ∀ e, m₀.entries[i]? = some e → e.request.parentSessionId = p → e.Unfinished →
      ¬e.IsVerified ∧ ∃ m', deeper e.id m = .ok m' ∧ Halts o m₀ m m' e.id) :
    ∃ m', Manager.visitEntry p (some text) deeper m i = .ok m' ∧ Passes o m₀ m m' p [i] := by
  unfold Manager.visitEntry
  cases hi : m.entries[i]? with
  | none =>
    refine ⟨m, rfl, hs, .refl m, hc, fun k hk e hk₀ => ?_⟩
    obtain rfl := List.mem_singleton.mp hk
    obtain ⟨x, hx⟩ := hc.exists_entry hk₀
    simp [hi] at hx
  | some e =>
    obtain ⟨e₀, hi₀, hrequest, hsequence, hstatus⟩ := hc.entry i e hi
    have hid : e.id = e₀.id := by
      unfold Entry.id
      rw [hrequest, hsequence]
    dsimp only
    split
    · rename_i hvisited
      obtain ⟨hp, hunfinished⟩ := hvisited
      have hsame : e.status = e₀.status ∧ e.stage = e₀.stage := by
        refine hstatus.resolve_right fun hcancelled => ?_
        simp [hcancelled, DelegationStatus.terminal] at hunfinished
      have hunfinished₀ : e₀.Unfinished := by
        rw [Entry.Unfinished, ← hsame.1]
        exact hunfinished
      obtain ⟨hverify, m₁, hm₁, hhalts⟩ := hdeeper e₀ hi₀ (hrequest ▸ hp) hunfinished₀
      obtain ⟨m₂, hm₂, -, -⟩ := hhalts.sound.cancel i (show (some text).isSome = true from rfl)
      refine ⟨m₂, ?_, .cancel hhalts hi₀ hunfinished₀ hverify hm₂⟩
      rw [hid, hm₁]
      exact hm₂
    · rename_i hskipped
      refine ⟨m, rfl, hs, .refl m, hc, fun k hk x hx hxp hxu => ?_⟩
      obtain rfl := List.mem_singleton.mp hk
      obtain rfl := Option.some.inj (hi₀.symm.trans hx)
      -- an unfinished child is skipped only if it was cancelled on the way
      have hcancelled : e.status = .cancelled := by
        refine hstatus.resolve_left fun hsame => hskipped ⟨hrequest ▸ hxp, ?_⟩
        rw [hsame.1]
        exact hxu
      exact ⟨⟨e, hi, .inl hcancelled⟩, hc.closed k e₀ e hi₀ hi hxu hcancelled⟩

/-- The loop, turn by turn. -/
theorem foldlM_visitEntry_passes (p text : String)
    (deeper : String → Manager → Except Manager Manager)
    (hdeeper : ∀ (i : Nat) e, m₀.entries[i]? = some e → e.request.parentSessionId = p →
      e.Unfinished → ¬e.IsVerified ∧ ∀ m, Sound o m → Cascaded m₀ m →
        ∃ m', deeper e.id m = .ok m' ∧ Halts o m₀ m m' e.id)
    (l : List Nat) {m : Manager} (hs : Sound o m) (hc : Cascaded m₀ m) :
    ∃ m', l.foldlM (Manager.visitEntry p (some text) deeper) m = .ok m' ∧
      Passes o m₀ m m' p l := by
  induction l generalizing m with
  | nil => exact ⟨m, rfl, .nil hs hc⟩
  | cons i l ih =>
    obtain ⟨m₁, hm₁, hpasses⟩ := visitEntry_passes text hs hc fun e hi hp hu =>
      ⟨(hdeeper i e hi hp hu).1, (hdeeper i e hi hp hu).2 m hs hc⟩
    obtain ⟨m₂, hm₂, hrest⟩ := ih hpasses.sound hpasses.cascaded
    refine ⟨m₂, ?_, hpasses.cons hrest⟩
    rw [List.foldlM_cons, hm₁]
    exact hm₂

/-- The cascade halts every child that it reaches. -/
theorem visit_halts (depth : Nat) (p : String) (text : String) {m : Manager} (hsound : Sound o m)
    (hcascaded : Cascaded m₀ m)
    (hdepth : ∀ e ∈ m₀.entries, e.request.parentSessionId.length < p.length + depth)
    (hverify : ∀ (j : Nat) e, m₀.entries[j]? = some e → Reached m₀ p j → ¬e.IsVerified) :
    ∃ m', Manager.visit depth p (some text) m = .ok m' ∧ Halts o m₀ m m' p := by
  induction depth generalizing p m with
  | zero =>
    refine ⟨m, rfl, hsound, .refl m, hcascaded, fun j hj => ?_⟩
    -- no session is as long as this one
    have hnone : ∀ (i : Nat) e, m₀.entries[i]? = some e → e.request.parentSessionId ≠ p := by
      rintro i e hi rfl
      have hlt := hdepth e (List.mem_of_getElem? hi)
      omega
    cases hj with
    | child hi hp => exact absurd hp (hnone _ _ hi)
    | descend hi hp => exact absurd hp (hnone _ _ hi)
  | succ depth ih =>
    -- a child's session is longer than `p`, so what is left of the depth is enough for it
    obtain ⟨m', hm', hpasses⟩ := foldlM_visitEntry_passes p text
      (fun id m => Manager.visit depth id (some text) m)
      (fun i e hi hp hunfinished => ⟨hverify i e hi (.child hi hp hunfinished),
        fun m hs hc => ih e.id hs hc
          (fun x hx => by
            have hlt := hdepth x hx
            have hlonger := e.length_id
            rw [hp] at hlonger
            omega)
          fun j x hj hreached => hverify j x hj (.descend hi hp hunfinished hreached)⟩)
      (List.range m.entries.length) hsound hcascaded
    refine ⟨m', hm', hpasses.sound, hpasses.evolves, hpasses.cascaded, fun j hj => ?_⟩
    have hrange : ∀ (i : Nat) e, m₀.entries[i]? = some e → i ∈ List.range m.entries.length := by
      intro i e hi
      rw [List.mem_range, hcascaded.length]
      exact (List.getElem?_eq_some_iff.mp hi).1
    cases hj with
    | child hi hp hunfinished =>
      exact (hpasses.halted j (hrange j _ hi) _ hi hp hunfinished).1
    | descend hi hp hunfinished hj =>
      exact (hpasses.halted _ (hrange _ _ hi) _ hi hp hunfinished).2 j hj

theorem lt_visitDepth (h : e ∈ m.entries) (p : String) :
    e.request.parentSessionId.length < p.length + m.visitDepth := by
  have hle : e.request.parentSessionId.length + 1 ≤ m.visitDepth :=
    List.le_sum_of_mem (List.mem_map.mpr ⟨e, h, rfl⟩)
  omega

/-! ### Whole runs -/

/-- The children that a cancellation is about. -/
def Affected (m : Manager) : Event → Nat → Prop
  | .cancelParent p _, i => Below m p i
  | .cancel j _, i => i = j ∨ ∃ e, m.entries[j]? = some e ∧ Below m e.id i
  | _, _ => False

/-- The cancellation gets to every unfinished child that it is about, and none of them is being
verified; everything thrown has a text. -/
def FindsAll (m : Manager) (ev : Event) : Prop :=
  Textual ev ∧ ∀ (i : Nat) e, m.entries[i]? = some e → e.Unfinished → Affected m ev i →
    ¬e.IsVerified ∧ match ev with
      | .cancelParent p _ => Reached m p i
      | .cancel j _ => i = j
      | _ => True

/-- The enforcer refuses children that were cancelled or are about to be. -/
def Refuses (enforcer : Manager → Option (String → String → String → Bool)) : Prop :=
  ∀ m, ∀ e ∈ m.entries, e.Halted → ∃ f, enforcer m = some f ∧ ∀ c p, f c e.id p = false

/-- The child is quiet, and none of its capabilities is authorised. -/
def Refused (o : Options) (enforcer : Manager → Option (String → String → String → Bool))
    (m : Manager) (i : Nat) : Prop :=
  ∃ e, m.entries[i]? = some e ∧ e.Quiet ∧
    ∀ capability, m.authorizeDispatch o (enforcer m) e.id capability = false

/-- Child `i` is cancelled. -/
def CancelledAt (m : Manager) (i : Nat) : Prop :=
  ∃ e, m.entries[i]? = some e ∧ e.status = .cancelled

/-- Whenever a cancellation was made, the unfinished children that it was about are cancelled or
about to be, are never announced and are not authorised any more. Those that were queued are
cancelled, and so are the others once their runtime has returned or the abort has got to them. -/
def CancelsAll (o : Options) (enforcer : Manager → Option (String → String → String → Bool))
    (es : List Event) : Prop :=
  ∀ before ev after, es = before ++ ev :: after → ∀ (i : Nat) e,
    (run (Manager.apply o) .start before).entries[i]? = some e → e.Unfinished →
    Affected (run (Manager.apply o) .start before) ev i →
    Refused o enforcer (run (Manager.apply o) .start es) i ∧
      (e.status = .queued ∨ 0 < answers o i (run (Manager.apply o) .start (before ++ [ev])) after →
        CancelledAt (run (Manager.apply o) .start es) i)

theorem authorizeDispatch_eq_false {enforcer : Option (String → String → String → Bool)}
    {f : String → String → String → Bool} (hf : enforcer = some f) {id : String}
    (hrefuses : ∀ c p, f c id p = false) (c : String) :
    m.authorizeDispatch o enforcer id c = false := by
  unfold Manager.authorizeDispatch
  split
  · rfl
  · simp [hf, hrefuses]

/-- A child that waits in the queue or for its runtime has announced nothing. -/
theorem Entry.Ok.unannounced (h : e.Ok) (hunfinished : e.Unfinished) (hverified : ¬e.IsVerified) :
    e.Unannounced := by
  have hstage := h.2
  cases hs : e.stage with
  | queued =>
    rw [hs] at hstage
    exact ⟨by simp [hs], by simp [hs], by simp [hstage.2.2.2.2]⟩
  | racing =>
    rw [hs] at hstage
    exact ⟨by simp [hs], by simp [hs], by simp [hstage.2.2.2.2]⟩
  | verifying r => exact absurd ⟨r, hs⟩ hverified
  | announcing r | archiving r errors | finished =>
    rw [hs] at hstage
    simp [Entry.Unfinished, hstage.1] at hunfinished

/-- A child that announced nothing announces nothing, unless it completes. -/
theorem Entry.Step.unannounced (h : Entry.Step e e') (he : e.Unannounced ∨ e.status = .completed) :
    e'.Unannounced ∨ e'.status = .completed := by
  rcases he with he | he
  · cases h with
    | begin | verify => exact .inl ⟨by simp, by simp, he.resolved⟩
    | abort => exact .inl ⟨he.stage, he.archiving, he.resolved⟩
    | succeed => exact .inr rfl
    | fail =>
      refine .inl ⟨by simp [Entry.ended], fun r errors hr => ?_, he.resolved⟩
      simp only [Entry.ended, Bool.false_eq_true, if_false, Stage.archiving.injEq] at hr
      rw [← hr.1]
    | archive hstage => exact absurd hstage (he.stage _)
    | leave hstage hr =>
      refine .inl ⟨by simp, by simp, fun r hmem => ?_⟩
      rcases List.mem_append.mp hmem with hmem | hmem
      · exact he.resolved r hmem
      · rw [List.mem_singleton.mp hmem, hr]
        exact he.archiving _ _ hstage
  · exact .inr ((h.status (by simp [he, DelegationStatus.terminal])).trans he)

/-- Steps that leave a child halted leave it quiet: it did not complete. -/
theorem quiet_of_halted (h : Relation.ReflTransGen Entry.Step e e') (he : e.Unannounced)
    (hhalted : e'.Halted) : e'.Quiet := by
  have hor : e'.Unannounced ∨ e'.status = .completed := by
    clear hhalted
    induction h with
    | refl => exact .inl he
    | tail _ hstep ih => exact hstep.unannounced ih
  refine ⟨hhalted, hor.resolve_right fun hcompleted => ?_⟩
  rcases hhalted with hcancelled | ⟨hrunning, -⟩
  · simp [hcompleted] at hcancelled
  · simp [hcompleted] at hrunning

/-- A cancellation that gets to all the children it is about halts them, and starts none. -/
theorem Sound.halts (h : Sound o m) {ev : Event} (hfinds : FindsAll m ev)
    (hi : m.entries[i]? = some e) (hunfinished : e.Unfinished) (haffected : Affected m ev i) :
    ∃ x, (m.apply o ev).entries[i]? = some x ∧ x.Halted ∧
      (x.status = e.status ∨ x.status = .cancelled) := by
  obtain ⟨htextual, hall⟩ := hfinds
  cases ev with
  | cancel j reason =>
    obtain ⟨text, rfl⟩ := Option.isSome_iff_exists.mp htextual
    -- one entry is cancelled
    obtain ⟨hverified, hij⟩ := hall i e hi hunfinished haffected
    obtain rfl : i = j := hij
    obtain ⟨m', hm', -⟩ := h.cancel i (show (some text).isSome = true from rfl)
    obtain ⟨e', hi', -, -, hstatus, hhalted⟩ := (cancel_entries h i text hm').2.2 e hi
    simp only [Manager.apply, hm']
    exact ⟨e', hi', hhalted hunfinished hverified, hstatus.imp And.left fun h => h⟩
  | cancelParent p reason =>
    obtain ⟨text, rfl⟩ := Option.isSome_iff_exists.mp htextual
    -- all entries below a session are
    obtain ⟨m', hm', hhalts⟩ := visit_halts m.visitDepth p text h (.refl m)
      (fun x hx => lt_visitDepth hx p) (fun j x hj hreached => by
        have hbelow := hreached.below_session
        by_cases hx : x.Unfinished
        · exact (hall j x hj hx hbelow).1
        · rintro ⟨r, hr⟩
          have hstage := (h.ok hj).2
          rw [hr] at hstage
          exact hx (by rw [Entry.Unfinished, hstage.1]; rfl))
    simp only [Manager.apply, Manager.cancelParent, hm']
    obtain ⟨x, hx, hhalted⟩ := hhalts.halted i (hall i e hi hunfinished haffected).2
    obtain ⟨y, hy, -, -, hstatus⟩ := hhalts.cascaded.entry i x hx
    obtain rfl := Option.some.inj (hi.symm.trans hy)
    exact ⟨x, hx, hhalted, hstatus.imp And.left fun h => h⟩
  | spawn | drain | deadline | runtime | aborted | verifier | hook => exact haffected.elim

/-- A child that is halted has nothing to wait for but its runtime, and is cancelled by that. -/
theorem Entry.Halted.cancelled (h : e.Halted) (hwaits : e.waits < 4) : e.status = .cancelled := by
  rcases h with hcancelled | ⟨hrunning, hracing, -⟩
  · exact hcancelled
  · simp [Entry.waits, hrunning, hracing] at hwaits

/-- In a run whose cancellations get to all the children they are about, and with an enforcer
that refuses children that were cancelled, these are never announced, not authorised any more, and
end as cancelled. -/
theorem cancelsAll_of_findsAll (o : Options)
    (enforcer : Manager → Option (String → String → String → Bool)) (hrefuses : Refuses enforcer)
    (es : List Event) (hfinds : Meets (Manager.apply o) FindsAll .start es) :
    CancelsAll o enforcer es := by
  have htextual : ∀ (s : Manager) (es : List Event), Meets (Manager.apply o) FindsAll s es →
      ∀ ev ∈ es, Textual ev := by
    intro s es hmeets ev hev
    induction es generalizing s with
    | nil => exact absurd hev List.not_mem_nil
    | cons ev' es ih =>
      rcases List.mem_cons.mp hev with rfl | hev
      · exact hmeets.1.1
      · exact ih _ hmeets.2 hev
  rintro before ev after rfl i e hi hunfinished haffected
  have htexts := htextual _ _ hfinds
  obtain ⟨-, hfinds⟩ := meets_append.mp hfinds
  have hsound := (goes_run (sound_start o) fun ev' hev =>
    htexts ev' (List.mem_append_left _ hev)).1
  have hnext := hsound.apply hfinds.1.1
  obtain ⟨e', hi', hsteps⟩ := hnext.2 i e hi
  obtain ⟨x, hx, hhalted, hstatus⟩ := hsound.halts hfinds.1 hi hunfinished haffected
  obtain rfl := Option.some.inj (hx.symm.trans hi')
  have hquiet := quiet_of_halted hsteps ((hsound.ok hi).unannounced hunfinished
    (hfinds.1.2 i e hi hunfinished haffected).1) hhalted
  -- what is quiet stays quiet to the end of the run
  have htexts' : ∀ ev' ∈ after, Textual ev' := fun ev' hev =>
    htexts ev' (List.mem_append_right _ (List.mem_cons_of_mem ev hev))
  obtain ⟨e'', hi'', hsteps'⟩ := (goes_run hnext.1 htexts').2 i x hi'
  rw [run_append, run_cons, run_append_singleton]
  have hquiet' := quiet_of_steps hsteps' hquiet
  obtain ⟨f, hf, hrefused⟩ := hrefuses _ e'' (List.mem_of_getElem? hi'') hquiet'.1
  refine ⟨⟨e'', hi'', hquiet', authorizeDispatch_eq_false hf (hrefused · ·)⟩, fun hends =>
    ⟨e'', hi'', ?_⟩⟩
  -- one that is not cancelled already waits for its runtime, and an answer ends that
  rcases hhalted with hcancelled | ⟨hrunning, hracing, -⟩
  · exact (status_of_steps hsteps' (by rw [hcancelled]; rfl)).trans hcancelled
  · rcases hends with hqueued | hanswered
    · rcases hstatus with hsame | hcancelled
      · simp [hrunning, hqueued] at hsame
      · simp [hrunning] at hcancelled
    · have hrun := waits_run hnext.1 htexts' hi' hi''
      have hwaits : x.waits = 4 := by simp [Entry.waits, hrunning, hracing]
      exact hquiet'.1.cancelled (by omega)

/-- An enforcer that looks at the children: it refuses those that were cancelled or aborted. -/
def watchful (m : Manager) : Option (String → String → String → Bool) :=
  some fun _ id _ => m.entries.all fun e =>
    e.id ≠ id || !(e.status = .cancelled || e.status = .running && e.reason.isSome)

theorem refuses_watchful : Refuses watchful := by
  intro m e he hhalted
  refine ⟨_, rfl, fun c p => ?_⟩
  refine List.all_eq_false.mpr ⟨e, he, ?_⟩
  rcases hhalted with hcancelled | ⟨hrunning, -, hreason⟩
  · simp [hcancelled]
  · simp [hrunning, hreason]

/-- What the runtime returns. -/
def finding : JsValue := .object [("summary", .string "calm"), ("iterations", .number (.finite 1)),
  ("costUsd", .number (.finite 0))]

/-- A child is spawned and started, and has a child of its own, which is queued. -/
def family : List Event :=
  [.spawn (research "parent"), .spawn (research "parent:child:1"), .drain]

theorem cancelsAll_oneLane :
    CancelsAll oneLane watchful (family ++ [.cancelParent "parent" (some "stop"),
        .runtime 0 (.ok finding)]) ∧
      (run (Manager.apply oneLane) .start (family ++ [.cancelParent "parent" (some "stop"),
        .runtime 0 (.ok finding)])).entries.map Entry.status = [.cancelled, .cancelled] := by
  refine ⟨cancelsAll_of_findsAll oneLane watchful refuses_watchful _ (meets_append.mpr
    ⟨⟨⟨trivial, by simp [Affected]⟩, ⟨trivial, by simp [Affected]⟩, ⟨trivial, by simp [Affected]⟩,
      trivial⟩, ⟨rfl, ?_⟩, ⟨trivial, by simp [Affected]⟩, trivial⟩), by decide +kernel⟩
  -- the one waits for its runtime, the other one in the queue
  have hentries : (run (Manager.apply oneLane) .start family).entries.map
      (fun e => (e.status, e.request.parentSessionId, e.id, e.waits)) =
        [(.running, "parent", "parent:child:1", 4),
          (.queued, "parent:child:1", "parent:child:1:child:2", 5)] := by
    decide +kernel
  obtain ⟨child, rest, hm, hchild, hrest⟩ := List.map_eq_cons_iff.mp hentries
  obtain ⟨grandchild, rest', rfl, hgrandchild, hnil⟩ := List.map_eq_cons_iff.mp hrest
  obtain rfl := List.map_eq_nil_iff.mp hnil
  simp only [Prod.mk.injEq] at hchild hgrandchild
  obtain ⟨hrunning, hparent, hid, hwaits⟩ := hchild
  obtain ⟨hqueued, hparent', -, -⟩ := hgrandchild
  have h₀ : (run (Manager.apply oneLane) .start family).entries[0]? = some child := by rw [hm]; rfl
  have h₁ : (run (Manager.apply oneLane) .start family).entries[1]? = some grandchild := by
    rw [hm]
    rfl
  intro i e hi hunfinished _
  match i with
  | 0 =>
    obtain rfl := Option.some.inj (h₀.symm.trans hi)
    refine ⟨?_, .child hi hparent hunfinished⟩
    rintro ⟨r, hr⟩
    simp [Entry.waits, hrunning, hr] at hwaits
  | 1 =>
    obtain rfl := Option.some.inj (h₁.symm.trans hi)
    refine ⟨?_, .descend h₀ hparent (by rw [Entry.Unfinished, hrunning]; rfl)
      (.child hi (hparent'.trans hid.symm) hunfinished)⟩
    rintro ⟨r, hr⟩
    have hsound : Sound oneLane (run (Manager.apply oneLane) .start family) :=
      (goes_run (sound_start oneLane) fun ev hev => by
        simp only [family, List.mem_cons, List.not_mem_nil, or_false] at hev
        rcases hev with rfl | rfl | rfl <;> trivial).1
    have hstage := (hsound.ok h₁).2
    rw [hr] at hstage
    have hrunning' := hstage.1
    simp [hqueued] at hrunning'
  | i + 2 =>
    rw [hm] at hi
    simp at hi

/-- One lane, with a verifier. -/
def checked : Options := { oneLane with verifies := true }

/-- The parent is cancelled while the result is verified: the child completes. -/
theorem verified_after_cancel :
    ¬∀ (o : Options) (enforcer : Manager → Option (String → String → String → Bool)),
      Refuses enforcer → ∀ es : List Event, CancelsAll o enforcer es := by
  intro h
  -- the child waits for its verifier when its parent is cancelled
  have hbefore : (run (Manager.apply checked) .start
      [.spawn (research "parent"), .drain, .runtime 0 (.ok finding)]).entries[0]?.map
        (fun e => (e.status, e.request.parentSessionId)) = some (.running, "parent") := by
    decide +kernel
  -- the verifier agrees, and the child completes
  have hafter : (run (Manager.apply checked) .start
      [.spawn (research "parent"), .drain, .runtime 0 (.ok finding),
        .cancelParent "parent" (some "stop"), .verifier 0 (.ok true)]).entries[0]?.map
        Entry.status = some .completed := by
    decide +kernel
  obtain ⟨e, hi, he⟩ := Option.map_eq_some_iff.mp hbefore
  obtain ⟨hrunning, hparent⟩ := Prod.mk.inj he
  obtain ⟨⟨e', hi', hquiet, -⟩, -⟩ := h checked watchful refuses_watchful
    [.spawn (research "parent"), .drain, .runtime 0 (.ok finding),
      .cancelParent "parent" (some "stop"), .verifier 0 (.ok true)]
    [.spawn (research "parent"), .drain, .runtime 0 (.ok finding)] _ _ rfl 0 e hi
    (by rw [Entry.Unfinished, hrunning]; rfl) (.child hi hparent)
  rw [hi'] at hafter
  have hcompleted : e'.status = .completed := Option.some.inj hafter
  rcases hquiet.1 with hcancelled | ⟨hrunning', -⟩
  · simp [hcompleted] at hcancelled
  · simp [hcompleted] at hrunning'

end AriOs.Autonomy.Delegation
