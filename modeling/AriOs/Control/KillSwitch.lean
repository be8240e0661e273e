import AriOs.Async.Beside
import AriOs.Kernel.Interleaving

/-!
# The kill switch

The gateway reads the policy once for every trade, before it holds anything, from a controller that
the console writes to. Trades and writes come in any order. A trade that moves anything has read a
policy that was armed; so once the console has stopped the process, only trades that were past their
check go on, until the console starts it again.

The console can stop the process at any time. It can start it only as far as the process was booted
to, and only if something reads the policy at all.
-/

namespace AriOs.Control

open AriOs.Async AriOs.Js AriOs.Kernel
open AriOs.Kernel.Gateway

/-! ### The live handle on the policy -/

inductive PolicyControlCode where
  | POLICY_NOT_ENFORCED | EXECUTION_NOT_PERMITTED
  deriving DecidableEq, Repr

structure PolicyControlError where
  code : PolicyControlCode
  message : String
  deriving DecidableEq, Repr

structure PolicyController where
  policy : PolicyConfig
  enforced : Bool
  canArm : Bool

namespace PolicyController

/-- `new PolicyController(initial, options)`. -/
def new (initial : PolicyConfig) (canArm : Option Bool) : PolicyController :=
  ⟨initial, false, canArm.getD initial.executionEnabled⟩

variable (c : PolicyController)

def get : PolicyConfig := c.policy

def markEnforced : PolicyController := { c with enforced := true }

def requireEnforced (action : String) : Except PolicyControlError Unit :=
  throwIf (c.enforced = false) ⟨.POLICY_NOT_ENFORCED,
    "no money path is reading this policy, so it cannot " ++ action ++
      "; the kernel gateway is not composed (no wallet is mounted)"⟩

def setKillSwitch (engaged : Bool) : Except PolicyControlError PolicyController := do
  -- engaging a stop is always safe
  if engaged = false then c.requireEnforced "release the kill switch"
  .ok { c with policy := { c.policy with killSwitch := engaged } }

def setExecutionEnabled (enabled : Bool) : Except PolicyControlError PolicyController := do
  if enabled then
    c.requireEnforced "arm execution"
    throwIf (c.canArm = false) ⟨.EXECUTION_NOT_PERMITTED,
      "this process was not booted with live execution enabled; arm it in the environment " ++
        "(EXECUTION_MODE) and restart"⟩
  .ok { c with policy := { c.policy with executionEnabled := enabled } }

variable {c} {c' : PolicyController} {b : Bool}

/-- The kill switch is engaged at any time, and released if something reads the policy. -/
theorem setKillSwitch_eq_ok : c.setKillSwitch b = .ok c' ↔
    (b = false → c.enforced = true) ∧ c' = { c with policy := { c.policy with killSwitch := b } } := by
  cases b with
  | true => simp [setKillSwitch, eq_comm (a := c')]
  | false => simp [setKillSwitch, requireEnforced, eq_comm (a := c')]

/-- Execution is disabled at any time, and enabled if something reads the policy and the process was
booted for it. -/
theorem setExecutionEnabled_eq_ok : c.setExecutionEnabled b = .ok c' ↔
    (b = true → c.enforced = true ∧ c.canArm = true) ∧
      c' = { c with policy := { c.policy with executionEnabled := b } } := by
  cases b with
  | true => simp [setExecutionEnabled, requireEnforced, and_assoc, eq_comm (a := c')]
  | false => simp [setExecutionEnabled, eq_comm (a := c')]

end PolicyController

/-- What the console writes. -/
inductive PolicyEvent where
  | killSwitch (engaged : Bool)
  | execution (enabled : Bool)
  deriving DecidableEq, Repr

/-- The console writes. What is refused is not written. -/
def writePolicy (c : PolicyController) : PolicyEvent → PolicyController
  | .killSwitch engaged => (c.setKillSwitch engaged).toOption.getD c
  | .execution enabled => (c.setExecutionEnabled enabled).toOption.getD c

/-- The policy does not let trades pass. -/
def Stopped (c : PolicyController) : Prop :=
  c.policy.killSwitch = true ∨ c.policy.executionEnabled = false

/-- A write that may start a stopped process, and is permitted. -/
def Restarts (c : PolicyController) : PolicyEvent → Prop
  | .killSwitch engaged => engaged = false ∧ c.enforced = true
  | .execution enabled => enabled = true ∧ c.enforced = true ∧ c.canArm = true

/-- A write changes nothing, or it is permitted and changes its switch. -/
theorem writePolicy_cases (c : PolicyController) (e : PolicyEvent) :
    writePolicy c e = c ∨
      (∃ engaged, e = .killSwitch engaged ∧ (engaged = false → c.enforced = true) ∧
        writePolicy c e = { c with policy := { c.policy with killSwitch := engaged } }) ∨
      ∃ enabled, e = .execution enabled ∧ (enabled = true → c.enforced = true ∧ c.canArm = true) ∧
        writePolicy c e = { c with policy := { c.policy with executionEnabled := enabled } } := by
  cases e with
  | killSwitch engaged =>
    cases hset : c.setKillSwitch engaged with
    | error e => exact .inl (by simp [writePolicy, hset, Except.toOption])
    | ok c' =>
      obtain ⟨hpermitted, rfl⟩ := PolicyController.setKillSwitch_eq_ok.mp hset
      exact .inr (.inl ⟨engaged, rfl, hpermitted, by simp [writePolicy, hset, Except.toOption]⟩)
  | execution enabled =>
    cases hset : c.setExecutionEnabled enabled with
    | error e => exact .inl (by simp [writePolicy, hset, Except.toOption])
    | ok c' =>
      obtain ⟨hpermitted, rfl⟩ := PolicyController.setExecutionEnabled_eq_ok.mp hset
      exact .inr (.inr ⟨enabled, rfl, hpermitted, by simp [writePolicy, hset, Except.toOption]⟩)

/-- Only a permitted write starts a stopped process again. -/
theorem restarts_of_started {c : PolicyController} {e : PolicyEvent} (hstopped : Stopped c)
    (hstarted : ¬ Stopped (writePolicy c e)) : Restarts c e := by
  rcases writePolicy_cases c e with heq | ⟨engaged, rfl, hpermitted, heq⟩ |
    ⟨enabled, rfl, hpermitted, heq⟩
  · exact absurd hstopped (heq ▸ hstarted)
  · cases engaged with
    | true => exact absurd (.inl (congrArg (·.policy.killSwitch) heq)) hstarted
    | false => exact ⟨rfl, hpermitted rfl⟩
  · cases enabled with
    | true => exact ⟨rfl, hpermitted rfl⟩
    | false => exact absurd (.inr (congrArg (·.policy.executionEnabled) heq)) hstarted

/-! ### The ceiling -/

/-- What the console may have left of the policy that the process was booted with: execution is
enabled and the kill switch released only as far as the boot allows, and nothing else is changed. -/
structure Below (boot c : PolicyController) : Prop where
  enforced : c.enforced = boot.enforced
  canArm : c.canArm = boot.canArm
  execution : c.policy.executionEnabled = true →
    boot.policy.executionEnabled = true ∨ boot.enforced = true ∧ boot.canArm = true
  killSwitch : c.policy.killSwitch = false → boot.policy.killSwitch = false ∨ boot.enforced = true
  rest : { c.policy with
      executionEnabled := boot.policy.executionEnabled
      killSwitch := boot.policy.killSwitch } = boot.policy

theorem Below.write {boot c : PolicyController} (h : Below boot c) (e : PolicyEvent) :
    Below boot (writePolicy c e) := by
  rcases writePolicy_cases c e with heq | ⟨engaged, -, hpermitted, heq⟩ |
    ⟨enabled, -, hpermitted, heq⟩
  · rw [heq]
    exact h
  · rw [heq]
    exact ⟨h.enforced, h.canArm, h.execution, fun hoff => .inr (h.enforced ▸ hpermitted hoff),
      h.rest⟩
  · rw [heq]
    refine ⟨h.enforced, h.canArm, fun hon => .inr ?_, h.killSwitch, h.rest⟩
    rw [← h.enforced, ← h.canArm]
    exact hpermitted hon

/-- **The ceiling.** Whatever the console has written, the policy is below the one the process was
booted with. -/
theorem ceiling (boot : PolicyController) (es : List PolicyEvent) :
    Transition.Throughout writePolicy (Below boot) boot es :=
  Transition.throughout_of_invariant (fun _ e h => h.write e) ⟨rfl, rfl, .inl, .inl, rfl⟩

/-! ### A trade reads the policy first -/

/-- The calls of a trade that hold, sign or send something. -/
def Moves : Op → Prop
  | .reserve _ | .insertTrade _ _ | .sign _ | .persistSigned _ _ _ _ | .broadcast _ _ _ => True
  | _ => False

instance decidableMoves (e : Entry interface) : Decidable (Moves e.op) :=
  match e with
  | ⟨.reserve _, _⟩ | ⟨.insertTrade _ _, _⟩ | ⟨.sign _, _⟩ | ⟨.persistSigned _ _ _ _, _⟩
  | ⟨.broadcast _ _ _, _⟩ => isTrue trivial
  | ⟨.now, _⟩ | ⟨.newTradeId, _⟩ | ⟨.policy, _⟩ | ⟨.claimIdempotency _ _ _, _⟩
  | ⟨.getTradeByIdempotency _, _⟩ | ⟨.usage _ _, _⟩ | ⟨.inspectMints _ _, _⟩
  | ⟨.readPair _ _ _, _⟩ | ⟨.readPosition _, _⟩ | ⟨.appendJournal _, _⟩ | ⟨.simulate _, _⟩
  | ⟨.setSignature _ _ _, _⟩ | ⟨.setState _ _ _, _⟩ | ⟨.confirm _ _, _⟩
  | ⟨.releaseReservation _, _⟩ | ⟨.consumeReservation _, _⟩ | ⟨.fail _ _ _ _, _⟩
  | ⟨.pendingSent, _⟩ => isFalse id

/-- A policy that lets trades pass. -/
def Armed (policy : PolicyConfig) : Prop :=
  policy.killSwitch = false ∧ policy.executionEnabled = true

/-- An armed policy was read. -/
def ReadArmed (history : List (Entry interface)) : Prop :=
  ∃ policy : PolicyConfig, ⟨.policy, policy⟩ ∈ history ∧ Armed policy

/-- A trade promises to read an armed policy before it moves anything. -/
def arming : Discipline interface (Trace interface Kernel.Request) :=
  .ofTrace fun v o => Moves o → ReadArmed v.history

variable {d : Deps} {intent : TradeIntent} {opts : ExecuteOptions} {tradeId : String} {at_ : Int}
  {v : Trace interface Kernel.Request} {α : Type}

theorem ReadArmed.push {e : Entry interface} (h : ReadArmed v.history) :
    ReadArmed (v.push e).history := by
  obtain ⟨policy, hmem, harmed⟩ := h
  exact ⟨policy, List.mem_append_left _ hmem, harmed⟩

/-- After that, whatever a trade does keeps the promise. -/
theorem safe_of_readArmed {p : Prog interface α} (h : ReadArmed v.history) :
    p.Safe arming (fun w _ => ReadArmed w.history) v := by
  induction p generalizing v with
  | pure a => exact h
  | call o k ih => exact ⟨fun _ => h, fun r _ => ih r h.push⟩

/-- A body that moves nothing keeps the promise. -/
theorem safe_of_only {p : Prog interface α} (h : p.Only fun o => ¬ Moves o) :
    p.Safe arming (fun _ _ => True) v :=
  h.safe (K := fun _ => True) (fun _ _ _ ho => ⟨fun hmoves => absurd hmoves ho, fun _ => trivial⟩)
    trivial

/-- The guards of a trade let an armed policy pass only. -/
theorem armed_of_staticGuards {policy : PolicyConfig} {u : Unit}
    (h : staticGuards policy intent ⟨false, opts.confirmedByUser⟩ = .ok u) : Armed policy := by
  unfold staticGuards at h
  obtain ⟨_, hkill, h⟩ := bind_eq_ok.mp h
  obtain ⟨_, henabled, -⟩ := bind_eq_ok.mp h
  rw [throwIf_eq_ok] at hkill henabled
  exact ⟨by simpa using hkill, by simpa using henabled⟩

theorem only_liveCatch {reservationId : Option String} {inserted : Bool} {err : KernelError} :
    Task.Only (fun o => ¬ Moves o) (liveCatch tradeId reservationId inserted err) := by
  have hnow : Task.Only (fun o => ¬ Moves o) now := Task.only_total id
  have hjournal (event : JournalEvent) :
      Task.Only (fun o => ¬ Moves o) (store (.appendJournal event)) := Task.only_perform id
  have hrelease : Task.Only (fun o => ¬ Moves o) (releaseIfHeld reservationId) := by
    cases reservationId with
    | none => exact Task.only_pure _
    | some rid => exact Task.only_perform id
  refine hrelease.bind fun _ => Task.Only.bind ?_ fun _ => Task.only_pure _
  unfold recordFailure
  split
  · refine hnow.bind fun failedAt => Task.Only.bind (Task.only_perform id) fun _ => ?_
    exact hnow.bind fun journaledAt => hjournal _
  · exact hnow.bind fun journaledAt => hjournal _

/-- A quote card moves nothing. -/
theorem only_preview : Task.Only (fun o => ¬ Moves o) (preview d intent opts) := by
  have hcaps (policy : PolicyConfig) :
      Task.Only (fun o => ¬ Moves o) (previewCaps policy intent) := by
    unfold previewCaps
    split
    · refine Task.Only.bind (Task.only_total id) fun at_ => ?_
      exact Task.Only.bind (Task.only_total id) fun used => Task.only_ofExcept _
    · exact Task.only_pure _
  refine Task.Only.bind (Task.only_total id) fun tradeId => ?_
  refine Task.Only.orCatch ?_ (fun _ => Task.only_pure _) fun _ => Task.only_pure _
  refine Task.Only.bind (Task.only_total id) fun policy => ?_
  refine (Task.only_ofExcept _).bind fun _ => (Task.only_ofExcept _).bind fun _ => ?_
  refine Task.Only.bind (Task.Only.bind ⟨id, fun _ => trivial⟩ fun _ => Task.only_ofExcept _)
    fun _ => ?_
  refine (hcaps policy).bind fun _ => ?_
  refine Task.Only.bind ⟨id, fun _ => trivial⟩ fun sim => ?_
  exact (Task.only_ofExcept _).bind fun _ => Task.only_pure _

/-- Once the key is claimed, the policy is the first thing that is read. -/
theorem liveClaimed_arming : Task.Ends arming (fun _ _ => True) (fun _ _ => True)
    (liveClaimed d intent opts tradeId at_) v := by
  refine Task.ends_orCatch.mpr (Task.ends_bind.mpr (Task.ends_total.mpr ⟨fun h => h.elim, ?_⟩))
  intro policy _
  refine Task.ends_bind.mpr (Task.ends_ofExcept.mpr ⟨fun u hguards => ?_, fun err _ => ?_⟩)
  · have hread : ReadArmed (v.push ⟨.policy, policy⟩).history :=
      ⟨policy, List.mem_append_right _ (List.mem_singleton_self _), armed_of_staticGuards hguards⟩
    refine Prog.Safe.mono (safe_of_readArmed hread) fun w r hw => ?_
    cases r with
    | ok a => exact (safe_of_readArmed hw).mono fun _ r _ => by cases r <;> trivial
    | error e => exact (safe_of_readArmed hw).mono fun _ r _ => by cases r <;> trivial
  · exact (safe_of_only only_liveCatch).mono fun _ r _ => by cases r <;> trivial

/-- **A trade reads an armed policy before it moves anything.** -/
theorem execute_arming (r : Kernel.Request) :
    (execute d r).Safe arming (fun _ _ => True) (.start r) := by
  unfold execute Task.attempt
  split
  · exact safe_of_only only_preview
  · have hlive : Task.Ends arming (fun _ _ => True) (fun _ _ => True) (live d r.intent r.opts)
        (.start r) := by
      refine Task.ends_bind.mpr (Task.ends_total.mpr ⟨fun h => h.elim, fun at_ _ => ?_⟩)
      refine Task.ends_bind.mpr (Task.ends_total.mpr ⟨fun h => h.elim, fun tradeId _ => ?_⟩)
      refine Task.ends_bind.mpr (Task.ends_total.mpr ⟨fun h => h.elim, fun claimed _ => ?_⟩)
      cases claimed with
      | true => exact liveClaimed_arming
      | false =>
        have hprior : Task.Only (fun o => ¬ Moves o) (do
            let prior ← getTradeByIdempotency r.opts.idempotencyKey
            pure (duplicateResult tradeId prior)) :=
          Task.Only.bind (Task.only_total id) fun _ => Task.only_pure _
        exact (safe_of_only hprior).mono fun _ r _ => by cases r <;> trivial
    exact Prog.Safe.mono hlive fun _ _ _ => trivial

/-! ### Trades and the console -/

/-- The trades of a process, and the policy that its console writes. -/
abbrev Process := Beside interface KernelStore Kernel.Request (Except KernelError ExecuteResult)
  PolicyController

abbrev ProcessEvent := Beside.Event interface Kernel.Request PolicyEvent

/-- The policy that a trade reads is the one the console has left. -/
def answers (c : PolicyController) (ans : ∀ o, interface.Ans o) : ∀ o, interface.Ans o
  | .policy => c.get
  | o => ans o

/-- One of the trades moves, or the console writes. -/
def processStep (d : Deps) : Process → ProcessEvent → Process :=
  Beside.step machine (execute d) answers writePolicy

/-- The process as it is booted. -/
def booted (store : KernelStore) (boot : PolicyController) : Process := ⟨Pool.start store, boot⟩

/-- The trade `t` reads the policy. -/
def ReadsPolicy (d : Deps) (s : Process) (es : List ProcessEvent) (t : Nat) : Prop :=
  ∃ before ans after, es = before ++ .pool (.step t ans) :: after ∧
    (Transition.run (processStep d) s before).pool.next? t = some .policy

variable {kernel : KernelStore} {boot : PolicyController} {es before after : List ProcessEvent}
  {t : Nat} {c : Call interface Kernel.Request (Except KernelError ExecuteResult)}
  {entry : Entry interface}

/-- What moves anything has an armed policy in its history. -/
theorem readArmed_of_moves
    (hc : c ∈ (Transition.run (processStep d) (booted kernel boot) es).pool.calls)
    (hentry : entry ∈ c.history) (hmoves : Moves entry.op) : ReadArmed c.history := by
  have hmodular : Modular machine (execute d) arming Trace.start (fun _ _ => True) (fun _ => True)
      (fun _ _ => True) (fun _ _ => True) (fun _ _ => True) :=
    { body_safe := execute_arming
      symm := fun _ _ _ => trivial
      spawn := fun _ _ _ _ => ⟨trivial, fun _ _ => trivial⟩
      call := fun _ _ _ _ _ _ _ _ _ _ _ _ => ⟨trivial, trivial, trivial⟩
      frame := fun _ _ _ _ _ _ _ _ _ _ => ⟨trivial, trivial⟩ }
  have hcoherent : Coherent arming Trace.start (fun _ _ => True) (fun _ => True) (fun _ _ => True)
      (fun _ _ => True) (Transition.run (processStep d) (booted kernel boot) es).pool :=
    Beside.coherent_run hmodular (Modular.coherent_start trivial)
  obtain ⟨earlier, later, hhistory⟩ := List.append_of_mem hentry
  obtain ⟨policy, hmem, harmed⟩ := hcoherent.pre_of_history hc hhistory hmoves
  exact ⟨policy, hhistory ▸ List.mem_append_left _ hmem, harmed⟩

/-- The policy that a trade went by was the console's, in some state of the run. -/
theorem armed_when_read
    (hc : (Transition.run (processStep d) (booted kernel boot) es).pool.calls[t]? = some c)
    (hentry : entry ∈ c.history) (hmoves : Moves entry.op) :
    ∃ before ans after, es = before ++ .pool (.step t ans) :: after ∧
      (Transition.run (processStep d) (booted kernel boot) before).pool.next? t = some .policy ∧
      ¬ Stopped (Transition.run (processStep d) (booted kernel boot) before).other := by
  obtain ⟨policy, hmem, hkill, henabled⟩ :=
    readArmed_of_moves (List.mem_of_getElem? hc) hentry hmoves
  obtain ⟨before, ans, after, hes, hnext, hres⟩ := Beside.exists_step_of_mem_history rfl hc hmem
  refine ⟨before, ans, after, hes, hnext, ?_⟩
  have hpolicy : policy =
      (Transition.run (processStep d) (booted kernel boot) before).other.policy := hres
  rw [hpolicy] at hkill henabled
  rintro (h | h)
  · exact absurd h (by simp [hkill])
  · exact absurd h (by simp [henabled])

/-- The console's writes are all that happens to the policy. -/
theorem below_run : Below boot (Transition.run (processStep d) (booted kernel boot) es).other := by
  rw [processStep, Beside.other_run]
  exact ceiling boot _ _ [] (List.append_nil _).symm

/-- **Who moves anything after a stop.** Where the console has stopped the process, whatever trade
has moved something later had read the policy before the stop, or the console has since released the
kill switch or enabled execution, as far as the process was booted for that. -/
theorem restarted_of_moves
    (hstopped : Stopped (Transition.run (processStep d) (booted kernel boot) before).other)
    (hc : (Transition.run (processStep d) (booted kernel boot) (before ++ after)).pool.calls[t]? =
      some c) (hentry : entry ∈ c.history) (hmoves : Moves entry.op) :
    ReadsPolicy d (booted kernel boot) before t ∨
      ∃ earlier e later, after = earlier ++ .other e :: later ∧ Restarts boot e := by
  obtain ⟨read, ans, rest, hes, hnext, harmed⟩ := armed_when_read hc hentry hmoves
  rcases List.append_eq_append_iff.mp hes with ⟨mid, rfl, hafter⟩ | ⟨mid, rfl, hrest⟩
  · -- the policy was read after the stop, so some event in between has ended it
    right
    rw [Transition.run_append] at harmed
    obtain ⟨earlier, e, later, rfl, hbefore, hended⟩ := Transition.exists_step_of_not
      (Q := fun s : Process => Stopped s.other) hstopped harmed
    rw [Transition.run_append_singleton] at hended
    rw [← Transition.run_append] at hbefore hended
    cases e with
    | pool e => exact absurd hbefore hended
    | other e =>
      have hrestarts := restarts_of_started hbefore hended
      have hbelow : Below boot (Transition.run (processStep d) (booted kernel boot)
          (before ++ earlier)).other := below_run
      refine ⟨earlier, e, later ++ .pool (.step t ans) :: rest, ?_, ?_⟩
      · rw [hafter, List.append_assoc, List.cons_append]
      · cases e with
        | killSwitch engaged => exact ⟨hrestarts.1, hbelow.enforced ▸ hrestarts.2⟩
        | execution enabled =>
          exact ⟨hrestarts.1, hbelow.enforced ▸ hrestarts.2.1, hbelow.canArm ▸ hrestarts.2.2⟩
  · cases mid with
    | nil =>
      rw [List.append_nil] at hstopped
      exact absurd hstopped harmed
    | cons e mid =>
      obtain ⟨rfl, -⟩ := List.cons.inj hrest
      exact .inl ⟨read, ans, mid, rfl, hnext⟩

/-- **Dry run.** In a process that was booted without live execution, and may not be armed, no trade
ever holds, signs or sends anything, whatever the console writes. -/
theorem dry_run (hdry : boot.policy.executionEnabled = false) (hcannot : boot.canArm = false)
    (hc : c ∈ (Transition.run (processStep d) (booted kernel boot) es).pool.calls) :
    ∀ entry ∈ c.history, ¬ Moves entry.op := by
  intro entry hentry hmoves
  obtain ⟨t, ht⟩ := List.mem_iff_getElem?.mp hc
  obtain ⟨before, -, -, -, -, harmed⟩ := armed_when_read ht hentry hmoves
  have hbelow : Below boot (Transition.run (processStep d) (booted kernel boot) before).other :=
    below_run
  have henabled : (Transition.run (processStep d) (booted kernel boot)
      before).other.policy.executionEnabled = true := by
    by_contra hoff
    exact harmed (.inr (Bool.eq_false_iff.mpr hoff))
  rcases hbelow.execution henabled with hon | ⟨-, harm⟩
  · exact absurd hon (by simp [hdry])
  · exact absurd harm (by simp [hcannot])

/-! A trade reads the policy, and then the kill switch is engaged; and a trade in a process that was
booted without live execution. -/

def sampleBoot : PolicyController := (PolicyController.new Kernel.samplePolicy none).markEnforced

def sampleSteps (n : Nat) : List ProcessEvent :=
  List.replicate n (.pool (.step 0 (sampleAnswers "a" 0 (.ok .confirmed))))

def sampleStopped : List ProcessEvent :=
  .pool (.spawn (Kernel.sampleRequest "k")) :: (sampleSteps 4 ++ [.other (.killSwitch true)])

theorem restarted_of_moves_sample :
    ReadsPolicy sampleDeps (booted .empty sampleBoot) sampleStopped 0 ∨
      ∃ earlier e later, sampleSteps 8 = earlier ++ .other e :: later ∧ Restarts sampleBoot e := by
  have hmoves : ((Transition.run (processStep sampleDeps) (booted .empty sampleBoot)
      (sampleStopped ++ sampleSteps 8)).pool.calls[0]?).any
        fun c => c.history.any fun e => decide (Moves e.op) := by decide +kernel
  obtain ⟨c, hc, hany⟩ := (Option.any_eq_true _ _).mp hmoves
  obtain ⟨entry, hentry, hmove⟩ := List.any_eq_true.mp hany
  exact restarted_of_moves (.inl (by decide +kernel)) hc hentry (of_decide_eq_true hmove)

def sampleDry : PolicyController :=
  (PolicyController.new { Kernel.samplePolicy with executionEnabled := false } none).markEnforced

theorem dry_run_sample :
    ∃ c ∈ (Transition.run (processStep sampleDeps) (booted .empty sampleDry)
        (.other (.execution true) :: .pool (.spawn (Kernel.sampleRequest "k")) ::
          sampleSteps 8)).pool.calls,
      c.history.length = 6 ∧ ∀ entry ∈ c.history, ¬ Moves entry.op := by
  have htraded : (Transition.run (processStep sampleDeps) (booted .empty sampleDry)
      (.other (.execution true) :: .pool (.spawn (Kernel.sampleRequest "k")) ::
        sampleSteps 8)).pool.calls.any fun c => c.history.length == 6 := by decide +kernel
  obtain ⟨c, hc, hlength⟩ := List.any_eq_true.mp htraded
  exact ⟨c, hc, by simpa using hlength, dry_run rfl rfl hc⟩

end AriOs.Control
