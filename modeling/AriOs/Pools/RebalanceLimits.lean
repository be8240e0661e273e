import AriOs.Pools.Rebalance

/-!
# Rate limits of rebalancing

Any number of calls of the tool next to each other, on one ledger. A rebalance is decided on a
look at the ledger, lands in the gateway and is recorded when the tool hears of it, and in
between other calls may look and land. As long as no rebalance of a position lands on a look that
missed another one, and the ledger remembers as far back as the interval asks for, the rebalances
of a position are the interval apart and no more than the cap in a day.
-/

namespace AriOs.Pools.Rebalance

open AriOs.Async AriOs.Js AriOs.Kernel AriOs.Storage RollingWindow

/-! ### What the ledger does -/

section Ledger

variable {l : RebalanceLedger} {pos pos' : String} {now at_ : ℚ}

/-- What a look makes of the times of a position. -/
def RebalanceLedger.kept (l : RebalanceLedger) (pos : String) (now : ℚ) : List ℚ :=
  l.prune (l.times pos) now

theorem history_eq : (l.history pos now).1 = ⟨(l.kept pos now).max?, (l.kept pos now).length⟩ := by
  unfold RebalanceLedger.history RebalanceLedger.kept RebalanceLedger.times
  split
  · rename_i hget
    rw [hget]
    rfl
  · rename_i hget
    rw [hget]
    rfl
  · rename_i list _ hget
    rw [hget, Option.getD_some]
    dsimp only
    split
    · rename_i hnil
      rw [hnil]
      rfl
    · rfl

@[simp] theorem history_windowMs : (l.history pos now).2.windowMs = l.windowMs := by
  unfold RebalanceLedger.history
  split <;> rfl

theorem times_history : (l.history pos now).2.times pos' =
    if pos = pos' then l.kept pos now else l.times pos' := by
  have hempty : ∀ {list : Option (List ℚ)}, l.byPosition.get pos = list → list.getD [] = [] →
      l.times pos' = if pos = pos' then l.kept pos now else l.times pos' := by
    intro list hget hnil
    split
    · rename_i heq
      subst heq
      rw [RebalanceLedger.kept, RebalanceLedger.times, hget, hnil]
      rfl
    · rfl
  unfold RebalanceLedger.history
  split
  · rename_i hget
    exact hempty hget rfl
  · rename_i hget
    exact hempty hget rfl
  · rename_i list _ hget
    simp only [RebalanceLedger.times, OrderedMap.get_set, RebalanceLedger.kept, hget]
    split <;> rfl

@[simp] theorem record_windowMs : (l.record pos at_).windowMs = l.windowMs := rfl

theorem times_record : (l.record pos at_).times pos' =
    if pos = pos' then l.prune (l.times pos ++ [at_]) at_ else l.times pos' := by
  simp only [RebalanceLedger.record, RebalanceLedger.times, OrderedMap.get_set]
  split <;> rfl

end Ledger

/-! ### What is asked for -/

/-- The rebalances of one position. -/
def timesOf (pos : String) (executed : List (String × ℚ)) : List ℚ :=
  (executed.filter fun e => e.1 = pos).map Prod.snd

/-- What the policy asks of the rebalances of one position: no two are closer than the interval,
and no day that has any holds more than the cap. -/
structure LimitsHold (policy : RebalancePolicy) (ts : List ℚ) : Prop where
  apart : ts.Pairwise fun a b => (JsNumber.finite (b - a)).lt policy.minIntervalMs = false
  few : ∀ x, 0 < countIn DAY_MS x ts →
    policy.maxPerDay.lt (.ofInt (countIn DAY_MS x ts)) = false

/-- The limits hold of every position. -/
def WithinLimits (policy : RebalancePolicy) (executed : List (String × ℚ)) : Prop :=
  ∀ pos, LimitsHold policy (timesOf pos executed)

/-- The policy asks for nothing the ledger cannot tell: the interval is no longer than what it
remembers, and the cap, if it allows anything, is whole. -/
structure Covered (policy : RebalancePolicy) : Prop where
  interval : (JsNumber.finite DAY_MS).lt policy.minIntervalMs = false
  cap : ∀ q, policy.maxPerDay = .finite q → q ≤ 0 ∨ q.den = 1

/-- At `now` the history of a position has reached neither limit. -/
structure Passed (policy : RebalancePolicy) (history : RebalanceHistory) (now : ℚ) : Prop where
  interval : ∀ last, history.lastAt = some last →
    (JsNumber.finite (now - last)).lt policy.minIntervalMs = false
  cap : policy.maxPerDay.le (.ofInt history.countInWindow) = false

section Limits

variable {policy : RebalancePolicy} {ts rs : List ℚ} {now time : ℚ}
  {history : RebalanceHistory}

@[simp] theorem timesOf_append (pos : String) (executed executed' : List (String × ℚ)) :
    timesOf pos (executed ++ executed') = timesOf pos executed ++ timesOf pos executed' := by
  simp [timesOf]

/-- A longer gap is no shorter than the interval if the gap is not. -/
theorem not_lt_mono {n : JsNumber} (a b : ℚ) (h : (JsNumber.finite a).lt n = false) (hab : a ≤ b) :
    (JsNumber.finite b).lt n = false := by
  cases n with
  | nan => rfl
  | infinity negative => cases negative <;> simp_all [JsNumber.lt]
  | finite q =>
    simp only [JsNumber.lt_finite, decide_eq_false_iff_not, not_lt] at h ⊢
    exact h.trans hab

/-- A cap that has not been reached has room for one more, if it is whole. -/
theorem cap_succ {cap : JsNumber} (hwhole : ∀ q, cap = .finite q → q ≤ 0 ∨ q.den = 1) {n m : Nat}
    (hn : cap.le (.ofInt n) = false) (hm : m ≤ n + 1) : cap.lt (.ofInt m) = false := by
  cases cap with
  | nan => rfl
  | infinity negative => cases negative <;> simp_all [JsNumber.lt, JsNumber.le, JsNumber.ofInt]
  | finite q =>
    simp only [JsNumber.ofInt, JsNumber.le_finite, JsNumber.lt_finite, decide_eq_false_iff_not,
      not_le, not_lt, Int.cast_natCast] at hn ⊢
    have hm : (m : ℚ) ≤ n + 1 := by exact_mod_cast hm
    rcases hwhole q rfl with hneg | hden
    · have : (0 : ℚ) ≤ n := Nat.cast_nonneg n
      linarith
    · have hq : ((q.num : ℤ) : ℚ) = q := Rat.coe_int_num_of_den_eq_one hden
      rw [← hq] at hn ⊢
      have hlt : (n : ℤ) < q.num := by exact_mod_cast hn
      have hle : ((n : ℤ) + 1 : ℤ) ≤ q.num := hlt
      have hle : (n : ℚ) + 1 ≤ q.num := by exact_mod_cast hle
      linarith

/-- One more rebalance, on a history in which all the others are noted. -/
theorem LimitsHold.append (h : LimitsHold policy ts) (hcovered : Covered policy)
    (hnoted : Noted ts rs) (hpassed : Passed policy history now)
    (hhistory : history = ⟨(rs.filter fun t => now - DAY_MS ≤ t).max?,
      (rs.filter fun t => now - DAY_MS ≤ t).length⟩)
    (hnow : now ≤ time) : LimitsHold policy (ts ++ [time]) where
  apart := by
    let Gap : ℚ → Prop := fun g => (JsNumber.finite g).lt policy.minIntervalMs = false
    have hmono : ∀ a b, Gap a → a ≤ b → Gap b := fun a b => not_lt_mono a b
    have hwindow : ∀ g, DAY_MS < g → Gap g := fun g hg => not_lt_mono _ _ hcovered.interval hg.le
    refine apart_append hmono hwindow h.apart hnow fun t ht hin => ?_
    obtain ⟨noted, hmem, hle⟩ := hnoted.exists_le ht
    have hmem : noted ∈ rs.filter fun t => now - DAY_MS ≤ t := by
      simpa using And.intro hmem (hin.trans hle)
    -- the last kept time is the latest, so the gap to any other is at least as long
    obtain ⟨last, hlast⟩ : ∃ last, (rs.filter fun t => now - DAY_MS ≤ t).max? = some last :=
      Option.isSome_iff_exists.mp (by
        rw [Option.isSome_iff_ne_none, ne_eq, List.max?_eq_none_iff]
        exact List.ne_nil_of_mem hmem)
    have hlatest : t ≤ last := hle.trans ((List.max?_eq_some_iff.mp hlast).2 noted hmem)
    exact not_lt_mono _ _ (hpassed.interval last (by rw [hhistory]; exact hlast))
      (sub_le_sub_left hlatest _)
  few x hx := by
    have hcount : countIn DAY_MS x (ts ++ [time]) = countIn DAY_MS x ts ∨
        countIn DAY_MS x (ts ++ [time]) ≤
          (ts.filter fun t => now - DAY_MS ≤ t).length + 1 := countIn_append_le hnow
    rcases hcount with heq | hle
    · rw [heq] at hx ⊢
      exact h.few x hx
    · have hcap := hpassed.cap
      rw [hhistory] at hcap
      refine cap_succ hcovered.cap hcap (hle.trans ?_)
      simpa only [← List.countP_eq_length_filter] using
        Nat.succ_le_succ (hnoted.countP_le (now - DAY_MS))

end Limits

/-! ### The decision -/

/-- The brakes that look at the past hold, or let pass what has reached neither limit. -/
theorem limited_cases (s : RebalanceSubject) (range : BinRange) (drift : JsNumber)
    (fraction : Option JsNumber) :
    (∃ held, limited s range drift fraction = some held ∧ held.action = .hold) ∨
      limited s range drift fraction = none ∧ Passed s.policy s.history s.now := by
  unfold limited
  split
  · exact .inl ⟨_, rfl, rfl⟩
  · rename_i hsoon
    split
    · exact .inl ⟨_, rfl, rfl⟩
    · rename_i hcap
      refine .inr ⟨rfl, fun last hlast => ?_, by simpa using hcap⟩
      by_contra hnot
      simp [tooSoon, hlast, hnot] at hsoon

/-- A decision to move has passed both limits. -/
theorem decideRebalance_passed {sqrt : ℚ → ℚ} {s : RebalanceSubject} {decision : RebalanceDecision}
    (h : decideRebalance sqrt s = .ok decision) (hact : decision.action = .rebalance) :
    Passed s.policy s.history s.now := by
  have hhold : ∀ {held : RebalanceDecision}, held.action = .hold →
      (pure held : Except PoolError RebalanceDecision) ≠ .ok decision := by
    rintro held hheld heq
    obtain rfl := Except.ok.inj heq
    simp [hheld] at hact
  unfold decideRebalance at h
  dsimp only at h
  -- what comes before the limits is a decision to hold
  split at h
  · exact absurd h (hhold rfl)
  split at h
  · exact absurd h (hhold rfl)
  split at h
  · exact absurd h (hhold rfl)
  rcases limited_cases s ⟨s.position.lowerLevel, s.position.upperLevel⟩
      (binDrift ⟨s.position.lowerLevel, s.position.upperLevel⟩ s.pool.activeLevel)
      (activePositionInRange ⟨s.position.lowerLevel, s.position.upperLevel⟩ s.pool.activeLevel) with
    ⟨held, hlimited, hheld⟩ | ⟨-, hpassed⟩
  · rw [hlimited] at h
    exact absurd h (hhold hheld)
  · exact hpassed

/-! ### The tool -/

/-- The call may move the position. -/
def Invocation.Moves : Invocation → Prop
  | .execute r => r.dryRun = false
  | .simulate _ => False

instance (x : Invocation) : Decidable x.Moves := by
  unfold Invocation.Moves; split <;> infer_instance

/-- The gateway tells the tool that the exit was executed. -/
def Execution.Reported (x : Execution) : Prop :=
  match x.result with
  | .ok result => ¬ Refused result
  | .error _ => False

instance (x : Execution) : Decidable x.Reported := by
  unfold Execution.Reported; split <;> infer_instance

/-- What the gateway did with the intents of a call. -/
def execution? : Entry interface → Option (String × Execution)
  | ⟨.gatewayExecute pos _ _, x⟩ => some (pos, x)
  | _ => none

/-- A call has looked at the ledger and may go on. -/
def HasPassed (policy : RebalancePolicy) (pos : String) (h : List (Entry interface)) : Prop :=
  ∃ look : Look, (⟨.history pos, look⟩ : Entry interface) ∈ h ∧
    Passed policy look.history look.now

/-- What the tool makes sure of before it hands an intent over. -/
def Promises (d : PoolsDeps) (v : Trace interface Invocation) : Op → Prop
  | .gatewayExecute pos _ _ => v.request.Moves ∧ HasPassed d.rebalancePolicy pos v.history ∧
      ∀ e ∈ v.history, e.op ≠ .record pos
  | _ => True

abbrev discipline (d : PoolsDeps) : Discipline interface (Trace interface Invocation) :=
  .ofTrace (Promises d)

/-- Whatever the tool was told of is recorded. -/
def Settled (h : List (Entry interface)) : Prop :=
  ∀ e ∈ h, ∀ x ∈ execution? e, x.2.Reported → ∃ e' ∈ h, e'.op = .record x.1

/-- The tool has handed over nothing, and recorded nothing. -/
def Unsent (h : List (Entry interface)) : Prop :=
  ∀ e ∈ h, execution? e = none ∧ ∀ pos, e.op ≠ .record pos

section Tool

variable {d : PoolsDeps} {r : RebalanceRequest} {v : Trace interface Invocation}

theorem Unsent.settled {h : List (Entry interface)} (hv : Unsent h) : Settled h :=
  fun e he x hx => by simp [(hv e he).1] at hx

theorem Unsent.append {h : List (Entry interface)} (hv : Unsent h) {e : Entry interface}
    (he : execution? e = none) (hop : ∀ pos, e.op ≠ .record pos) : Unsent (h ++ [e]) :=
  fun e' he' => (List.mem_append.mp he').elim (hv e') fun h =>
    List.mem_singleton.mp h ▸ ⟨he, hop⟩

theorem decide_ends (hv : Unsent v.history) : Task.Ends (discipline d)
    (fun w out => Unsent w.history ∧ (out.2.2.action = .rebalance →
      HasPassed d.rebalancePolicy r.positionAddress w.history))
    (fun w _ => Unsent w.history) (decide d r) v := by
  unfold decide
  refine Task.ends_bind.mpr ⟨trivial, fun read _ => ?_⟩
  have hw := hv.append (e := ⟨.getPoolAndPosition r.poolAddress r.positionAddress r.ownerWallet,
    read⟩) rfl (fun _ => nofun)
  cases read with
  | error e => exact hw
  | ok read =>
    refine Task.ends_bind.mpr (Task.ends_ofExcept.mpr ⟨fun position _ => ?_, fun _ _ => hw⟩)
    refine Task.ends_bind.mpr (Task.ends_ofExcept.mpr ⟨fun _ _ => ?_, fun _ _ => hw⟩)
    refine Task.ends_bind.mpr (Task.ends_total.mpr ⟨trivial, fun look _ => ?_⟩)
    have hw := hw.append (e := ⟨.history r.positionAddress, look⟩) rfl (fun _ => nofun)
    refine Task.ends_bind.mpr (Task.ends_ofExcept.mpr ⟨fun economics _ => ?_, fun _ _ => hw⟩)
    refine Task.ends_bind.mpr (Task.ends_ofExcept.mpr ⟨fun decision hdecision => ?_, fun _ _ => hw⟩)
    refine ⟨hw, fun hact => ⟨look, ?_, decideRebalance_passed hdecision hact⟩⟩
    exact List.mem_append_right _ (List.mem_singleton.mpr rfl)

theorem build_ends (hv : Unsent v.history) : Task.Ends (discipline d)
    (fun w out => Unsent w.history ∧ (out.2.isSome → r.dryRun = false ∧
      HasPassed d.rebalancePolicy r.positionAddress w.history))
    (fun w _ => Unsent w.history) (build d r) v := by
  unfold build
  refine Task.ends_bind.mpr ((decide_ends hv).mono ?_)
  rintro w ⟨pool, position, decision⟩ ⟨hw, hpassed⟩
  dsimp only at hpassed ⊢
  split
  · exact ⟨hw, fun h => by simp at h⟩
  · rename_i hgo
    -- only a decision to rebalance goes on, and that one has passed its limits
    obtain ⟨hact, hdry⟩ := not_or.mp hgo
    have hpassed := hpassed (by
      cases haction : decision.action with
      | rebalance => rfl
      | hold => exact absurd haction hact)
    split
    · exact ⟨hw, fun h => by simp at h⟩
    · rename_i target _
      refine Task.ends_bind.mpr (Task.ends_ofExcept.mpr ⟨fun _ _ => ?_, fun _ _ => hw⟩)
      refine Task.ends_bind.mpr ⟨trivial, fun draft _ => ?_⟩
      have hw := hw.append (e := ⟨.buildRemove ⟨r.poolAddress, r.positionAddress, r.ownerWallet,
        10000, true, true, d.priorityFeeLamports.getD (.ofInt 200000)⟩, draft⟩) rfl (fun _ => nofun)
      cases draft with
      | error e => exact hw
      | ok draft =>
        refine Task.ends_bind.mpr (Task.ends_ofExcept.mpr ⟨fun intent _ => ?_, fun _ _ => hw⟩)
        obtain ⟨look, hmem, hlook⟩ := hpassed
        exact ⟨hw, fun _ => ⟨by simpa using hdry, look, List.mem_append_left _ hmem, hlook⟩⟩

theorem execute_ends (hv : Unsent v.history) (hreq : v.request = .execute r) :
    Task.Ends (discipline d) (fun w _ => Settled w.history) (fun w _ => Settled w.history)
      (execute d r) v := by
  unfold execute
  refine Task.ends_bind.mpr (Task.Ends.imp
    ((build_ends hv).preserves (f := Trace.request) fun _ _ => rfl) ?_ fun w _ hw => hw.1.settled)
  rintro w ⟨decision, built⟩ ⟨⟨hw, hpassed⟩, hsame⟩
  dsimp only at hpassed hsame ⊢
  split
  · exact hw.settled
  · rename_i intent
    obtain ⟨hdry, hpassed⟩ := hpassed rfl
    refine Task.ends_bind.mpr ⟨⟨hsame.trans hreq ▸ hdry, hpassed,
      fun e he => (hw e he).2 _⟩, fun x _ => ?_⟩
    -- what was executed, if anything, is the intent handed over now
    have hown : ∀ e ∈ w.history ++ [(⟨.gatewayExecute r.positionAddress intent
        ⟨r.idempotencyKey, false, r.confirmedByUser⟩, x⟩ : Entry interface)],
        ∀ y ∈ execution? e, y = (r.positionAddress, x) := by
      intro e he y hy
      rcases List.mem_append.mp he with he | he
      · simp [(hw e he).1] at hy
      · obtain rfl := List.mem_singleton.mp he
        exact (Option.some_inj.mp hy).symm
    obtain ⟨result, landedAt⟩ := x
    cases result with
    | error e => exact fun e he y hy hrep => by simp [hown e he y hy, Execution.Reported] at hrep
    | ok result =>
      refine Task.ends_pure.mpr ?_
      split
      · rename_i hrefused
        intro e he y hy hrep
        rw [hown e he y hy] at hrep
        exact absurd hrefused hrep
      · refine Task.ends_bind.mpr ⟨trivial, fun _ _ e he y hy _ => ?_⟩
        refine ⟨_, List.mem_append_right _ (List.mem_singleton.mpr rfl), ?_⟩
        rcases List.mem_append.mp he with he | he
        · rw [hown e he y hy]
        · simp [List.mem_singleton.mp he, execution?] at hy

end Tool

/-- Every call of the tool keeps its promise, and has recorded what it was told of. -/
theorem body_safe (d : PoolsDeps) (x : Invocation) :
    (x.body d).Safe (discipline d) (fun w _ => Settled w.history) (.start x) := by
  have hstart : Unsent (Trace.start x : Trace interface Invocation).history := by
    simp [Unsent, Trace.start]
  cases x with
  | execute r =>
    refine Prog.Safe.mono (execute_ends hstart rfl) fun w out h => ?_
    cases out <;> exact h
  | simulate r =>
    have hsim : Task.Ends (discipline d) (fun w _ => Settled w.history)
        (fun w _ => Settled w.history) (simulate d r) (.start (.simulate r)) :=
      Task.ends_bind.mpr (Task.Ends.imp (build_ends hstart) (fun _ _ h => h.1.settled)
        fun _ _ h => h.settled)
    refine Prog.Safe.mono hsim fun w out h => ?_
    cases out <;> exact h

/-! ### Every run -/

/-- The calls of the tool on one ledger. -/
abbrev Calls := Pool interface Desk Invocation (Except PoolError ToolOutcome)

/-- A new ledger, at some moment. -/
def deskStart (clock : ℚ) : Calls := Pool.start ⟨.new DAY_MS, [], [], clock⟩

/-- Any interleaving of calls, with any answers. -/
def toolRun (d : PoolsDeps) (clock : ℚ) (es : List (Event interface Invocation)) : Calls :=
  (deskStart clock).run machine (Invocation.body d) es

/-- The moment of a call, where the clock is read or a rebalance lands. -/
def moment? : (o : Op) → o.Ans → Option ℚ
  | .history _, at_ => some at_
  | .record _, at_ => some at_
  | .gatewayExecute _ _ _, x => Execution.landedAt x
  | _, _ => none

/-- The clock does not go back. -/
def Ticks (p : Calls) : Event interface Invocation → Prop
  | .step t ans => ∀ o ∈ p.next? t, ∀ at_ ∈ moment? o (ans o), p.shared.clock ≤ at_
  | _ => True

instance (p : Calls) (e : Event interface Invocation) : Decidable (Ticks p e) := by
  unfold Ticks
  split <;> infer_instance

/-- The looks of a call. -/
def look? : Entry interface → Option Look
  | ⟨.history _, look⟩ => some look
  | _ => none

/-- No rebalance of the position is on its way: whoever landed one has returned. -/
def Quiet (p : Calls) (pos : String) : Prop :=
  ∀ c ∈ p.calls, ∀ e ∈ c.history, ∀ x ∈ execution? e, x.1 = pos → x.2.landedAt.isSome → c.Finished

instance (p : Calls) (pos : String) : Decidable (Quiet p pos) := by
  unfold Quiet; infer_instance

/-- What lands is reported as executed, and missed no other rebalance of the position. -/
def Unmissed (s : Desk) (h : List (Entry interface)) (pos : String) (x : Execution) : Prop :=
  x.landedAt.isSome → x.Reported ∧
    ∀ look ∈ h.filterMap look?, timesOf pos (s.executed.drop look.executed) = []

instance (s : Desk) (h : List (Entry interface)) (pos : String) (x : Execution) :
    Decidable (Unmissed s h pos x) := by
  unfold Unmissed; infer_instance

/-- A call that may move the position looks while no rebalance of it is on its way; what lands
has been landed by no other call since the look, and is reported as executed. -/
def Fresh (p : Calls) : Event interface Invocation → Prop
  | .step t ans =>
    match p.calls[t]?, p.next? t with
    | some c, some (.history pos) => c.request.Moves → Quiet p pos
    | some c, some (.gatewayExecute pos intent opts) =>
      Unmissed p.shared c.history pos (ans (.gatewayExecute pos intent opts))
    | _, _ => True
  | _ => True

instance (p : Calls) (e : Event interface Invocation) : Decidable (Fresh p e) := by
  unfold Fresh
  split
  · split
    · infer_instance
    · exact (inferInstance : ∀ s h pos x, Decidable (Unmissed s h pos x)) _ _ _ _
    · infer_instance
  · infer_instance

/-- What a call knows of its looks. -/
structure LookedAt (s : Desk) (pos : String) (look : Look) : Prop where
  executed : look.executed ≤ s.executed.length
  recorded : look.recorded ≤ s.recorded.length
  now : look.now ≤ s.clock
  history : look.history = ⟨((timesOf pos (s.recorded.take look.recorded)).filter fun t =>
      look.now - DAY_MS ≤ t).max?, ((timesOf pos (s.recorded.take look.recorded)).filter fun t =>
      look.now - DAY_MS ≤ t).length⟩

/-- The looks of a call were right when they were made. -/
def Knows (s : Desk) (v : Trace interface Invocation) : Prop :=
  ∀ pos look, (⟨.history pos, look⟩ : Entry interface) ∈ v.history → LookedAt s pos look

/-- The ledger has kept what is not older than some moment outside its window. -/
structure Sound (s : Desk) : Prop where
  window : s.ledger.windowMs = DAY_MS
  sorted : ∀ pos, (timesOf pos s.recorded).Pairwise (· ≤ ·)
  past : ∀ e ∈ s.recorded, e.2 ≤ s.clock
  landed : ∀ e ∈ s.executed, e.2 ≤ s.clock
  kept : ∀ pos, ∃ cutoff, cutoff ≤ s.clock - DAY_MS ∧
    s.ledger.times pos = (timesOf pos s.recorded).filter fun t => cutoff ≤ t

section Runs

variable {d : PoolsDeps} {policy : RebalancePolicy} {s : Desk} {pos pos' : String} {now time : ℚ}
  {look : Look}

theorem LookedAt.grows (h : LookedAt s pos look) (l : RebalanceLedger)
    (executed recorded : List (String × ℚ)) {clock : ℚ} (hclock : s.clock ≤ clock) :
    LookedAt ⟨l, s.executed ++ executed, s.recorded ++ recorded, clock⟩ pos look where
  executed := by simpa using Nat.le_add_right_of_le h.executed
  recorded := by simpa using Nat.le_add_right_of_le h.recorded
  now := h.now.trans hclock
  history := by
    rw [List.take_append_of_le_length h.recorded]
    exact h.history

/-- No call makes another one's knowledge wrong. -/
theorem Knows.handle {v : Trace interface Invocation} (h : Knows s v) (o : Op) (a : o.Ans) :
    Knows (machine.handle o s a).2 v := by
  intro pos look hmem
  have hl := h pos look hmem
  cases o with
  | history pos' =>
    have := hl.grows (s.ledger.history pos' a).2 [] [] (le_max_left s.clock a)
    rwa [List.append_nil, List.append_nil] at this
  | record pos' =>
    have := hl.grows (s.ledger.record pos' a) [] [(pos', a)] (le_max_left s.clock a)
    rwa [List.append_nil] at this
  | gatewayExecute pos' _ _ =>
    obtain ⟨result, _ | at_⟩ := a
    · exact hl
    · have := hl.grows s.ledger [(pos', at_)] [] (le_max_left s.clock at_)
      rwa [List.append_nil] at this
  | getPoolAndPosition _ _ _ => exact hl
  | buildRemove _ => exact hl

/-- What a look at a sound ledger keeps: the times of its day. -/
theorem Sound.kept_eq (hs : Sound s) (hnow : s.clock ≤ now) :
    s.ledger.kept pos now = (timesOf pos s.recorded).filter fun t => now - DAY_MS ≤ t := by
  obtain ⟨cutoff, hcutoff, hkept⟩ := hs.kept pos
  rw [RebalanceLedger.kept, RebalanceLedger.prune, hs.window, hkept]
  exact prune_filter (hs.sorted pos) (hcutoff.trans (sub_le_sub_right hnow _))

theorem Sound.looked (hs : Sound s) (hnow : s.clock ≤ now) :
    Sound (s.look pos now).2 ∧ LookedAt (s.look pos now).2 pos (s.look pos now).1 := by
  have hmax : max s.clock now = now := max_eq_right hnow
  refine ⟨⟨?_, hs.sorted, fun e he => (hs.past e he).trans (le_max_left _ _),
    fun e he => (hs.landed e he).trans (le_max_left _ _), fun pos' => ?_⟩,
    ⟨le_refl _, le_refl _, le_max_right _ _, ?_⟩⟩
  · exact history_windowMs.trans hs.window
  · by_cases heq : pos = pos'
    · subst heq
      refine ⟨now - DAY_MS, by simp [Desk.look, hmax], ?_⟩
      simp only [Desk.look, times_history, if_true]
      exact hs.kept_eq hnow
    · obtain ⟨cutoff, hcutoff, hkept⟩ := hs.kept pos'
      refine ⟨cutoff, hcutoff.trans (sub_le_sub_right (le_max_left _ _) _), ?_⟩
      simp only [Desk.look, times_history, if_neg heq]
      exact hkept
  · simp only [Desk.look, List.take_length]
    rw [history_eq, hs.kept_eq hnow]
    rfl

theorem timesOf_concat (pos pos' : String) (at_ : ℚ) (executed : List (String × ℚ)) :
    timesOf pos' (executed ++ [(pos, at_)]) =
      timesOf pos' executed ++ if pos = pos' then [at_] else [] := by
  rw [timesOf_append]
  by_cases heq : pos = pos' <;> simp [timesOf, heq]

theorem Sound.record (hs : Sound s) (htime : s.clock ≤ time) : Sound (s.record pos time) := by
  have hmax : max s.clock time = time := max_eq_right htime
  have hlast : ∀ t ∈ timesOf pos s.recorded, t ≤ time := by
    intro t ht
    obtain ⟨e, he, rfl⟩ := List.mem_map.mp ht
    exact (hs.past e (List.mem_filter.mp he).1).trans htime
  have hsorted : (timesOf pos s.recorded ++ [time]).Pairwise (· ≤ ·) :=
    List.pairwise_append.mpr ⟨hs.sorted pos, List.pairwise_singleton _ _, fun t ht b hb => by
      obtain rfl := List.mem_singleton.mp hb
      exact hlast t ht⟩
  refine ⟨hs.window, fun pos' => ?_, ?_, fun e he => (hs.landed e he).trans (le_max_left _ _),
    fun pos' => ?_⟩
  · rw [Desk.record, timesOf_concat]
    by_cases heq : pos = pos'
    · subst heq
      simpa using hsorted
    · simpa [heq] using hs.sorted pos'
  · intro e he
    rcases List.mem_append.mp he with he | he
    · exact (hs.past e he).trans (le_max_left _ _)
    · obtain rfl := List.mem_singleton.mp he
      exact le_max_right _ _
  · rw [Desk.record, timesOf_concat]
    -- what is kept is what came after some cutoff; the next one is a day before now
    obtain ⟨cutoff, hcutoff, hkept⟩ := hs.kept pos'
    by_cases heq : pos = pos'
    · subst heq
      refine ⟨time - DAY_MS, by simp [hmax], ?_⟩
      have hday : cutoff ≤ time := by
        have : (0 : ℚ) ≤ DAY_MS := by norm_num [DAY_MS]
        linarith
      have hfilter : (timesOf pos s.recorded).filter (fun t => cutoff ≤ t) ++ [time] =
          (timesOf pos s.recorded ++ [time]).filter fun t => cutoff ≤ t := by
        simp [List.filter_append, hday]
      simp only [times_record, if_true, RebalanceLedger.prune, hs.window, hkept, hfilter]
      exact prune_filter hsorted (hcutoff.trans (sub_le_sub_right htime _))
    · refine ⟨cutoff, hcutoff.trans (sub_le_sub_right (le_max_left _ _) _), ?_⟩
      simp only [times_record, if_neg heq, List.append_nil]
      exact hkept

theorem Sound.land (hs : Sound s) : Sound (s.land pos (some time)) where
  window := hs.window
  sorted := hs.sorted
  past e he := (hs.past e he).trans (le_max_left _ _)
  landed e he := by
    rcases List.mem_append.mp he with he | he
    · exact (hs.landed e he).trans (le_max_left _ _)
    · obtain rfl := List.mem_singleton.mp he
      exact le_max_right _ _
  kept pos' := by
    obtain ⟨cutoff, hcutoff, hkept⟩ := hs.kept pos'
    exact ⟨cutoff, hcutoff.trans (sub_le_sub_right (le_max_left _ _) _), hkept⟩

/-- What one call does to the ledger, on a clock that goes on. -/
theorem Sound.handle (hs : Sound s) (o : Op) (a : o.Ans)
    (hticks : ∀ at_ ∈ moment? o a, s.clock ≤ at_) : Sound (machine.handle o s a).2 := by
  cases o with
  | history pos => exact (hs.looked (hticks a rfl)).1
  | record pos => exact hs.record (hticks a rfl)
  | gatewayExecute pos _ _ =>
    obtain ⟨result, _ | at_⟩ := a
    · exact hs
    · exact hs.land
  | getPoolAndPosition _ _ _ => exact hs
  | buildRemove _ => exact hs

theorem view_eq (c : Call interface Invocation (Except PoolError ToolOutcome)) :
    c.view (discipline d) Trace.start = ⟨c.request, c.history⟩ :=
  Call.view_ofTrace _ c

/-- Calls of the tool can be checked one by one. -/
theorem tool_modular (d : PoolsDeps) :
    Modular machine (Invocation.body d) (discipline d) Trace.start (fun w _ => Settled w.history)
      Sound Knows (fun _ _ => True) Ticks where
  body_safe := body_safe d
  symm _ _ h := h
  spawn _ _ _ _ := ⟨fun pos look hmem => by simp [Trace.start] at hmem, fun _ _ => trivial⟩
  call p t ans c o k hticks hc hrest hs hknows hpre := by
    have hmine := hknows t c hc
    have hmoment := hticks o (Pool.next?_eq hc hrest)
    rw [view_eq] at hmine hpre ⊢
    refine ⟨trivial, hs.handle o (ans o) hmoment, ?_⟩
    intro pos look hmem
    rcases List.mem_append.mp hmem with hmem | hmem
    · exact hmine.handle o (ans o) pos look hmem
    · -- the look that was just made
      obtain ⟨rfl, hlook⟩ := Entry.mk.inj (List.mem_singleton.mp hmem)
      obtain rfl := eq_of_heq hlook
      exact (hs.looked (hmoment _ rfl)).2
  frame s v o a w _ _ _ hw _ := ⟨hw.handle o a, trivial⟩

/-- What holds of the calls of a run whose clock goes on. -/
abbrev Tools (d : PoolsDeps) (p : Calls) : Prop :=
  Coherent (discipline d) Trace.start (fun w _ => Settled w.history) Sound Knows
    (fun _ _ => True) p

theorem tools_start (d : PoolsDeps) (clock : ℚ) : Tools d (deskStart clock) := by
  refine Modular.coherent_start ⟨?_, fun _ => .nil, fun e he => by simp at he,
    fun e he => by simp at he, fun pos => ⟨_, le_refl _, rfl⟩⟩
  have hday : max 1 ((DAY_MS.floor : ℤ) : ℚ) = DAY_MS := by decide
  exact hday

/-! #### Landed, and not recorded yet -/

/-- The call has landed a rebalance of the position, was told so, and has not recorded it. -/
def Open (h : List (Entry interface)) (pos : String) (at_ : ℚ) : Prop :=
  (∃ e ∈ h, ∃ x, execution? e = some (pos, x) ∧ x.landedAt = some at_ ∧ x.Reported) ∧
    ∀ e ∈ h, e.op ≠ .record pos

/-- Every rebalance that landed is noted in the ledger, but for the last one while it is open; the
looks of the calls that may move a position missed none. -/
structure Turn (policy : RebalancePolicy) (p : Calls) : Prop where
  limits : WithinLimits policy p.shared.executed
  noted : ∀ pos, Noted (timesOf pos p.shared.executed) (timesOf pos p.shared.recorded) ∨
    ∃ (t : Nat) (c : Call interface Invocation (Except PoolError ToolOutcome)) (ts : List ℚ)
      (at_ : ℚ), p.calls[t]? = some c ∧ Open c.history pos at_ ∧
      timesOf pos p.shared.executed = ts ++ [at_] ∧ Noted ts (timesOf pos p.shared.recorded)
  looks : ∀ c ∈ p.calls, c.request.Moves → ∀ pos look,
    (⟨.history pos, look⟩ : Entry interface) ∈ c.history →
      Noted (timesOf pos (p.shared.executed.take look.executed))
        (timesOf pos (p.shared.recorded.take look.recorded))

variable {p : Calls} {t : Nat} {ans : ∀ o, interface.Ans o}
  {c : Call interface Invocation (Except PoolError ToolOutcome)} {o : Op}
  {k : o.Res → Prog interface (Except PoolError ToolOutcome)}

/-- While none is on its way every rebalance is noted. -/
theorem Turn.noted_of_quiet (h : Turn policy p) (hp : Tools d p) (hquiet : Quiet p pos) :
    Noted (timesOf pos p.shared.executed) (timesOf pos p.shared.recorded) := by
  rcases h.noted pos with hnoted | ⟨u, c, ts, at_, hc, ⟨⟨e, he, x, hx, hland, hrep⟩, hopen⟩, -⟩
  · exact hnoted
  · -- the call it is open in has returned, so it has recorded it
    obtain ⟨a, hsettled⟩ := (hp.safe u c hc).finished
      (hquiet c (List.mem_of_getElem? hc) e he _ hx rfl (by simp [hland]))
    rw [view_eq] at hsettled
    obtain ⟨e', he', hop⟩ := hsettled e he _ hx hrep
    exact absurd hop (hopen e' he')

theorem Open.append {h : List (Entry interface)} {at_ : ℚ} (hopen : Open h pos at_)
    {e : Entry interface} (he : e.op ≠ .record pos) : Open (h ++ [e]) pos at_ := by
  obtain ⟨⟨e', he', hx⟩, hrecord⟩ := hopen
  refine ⟨⟨e', List.mem_append_left _ he', hx⟩, fun e'' he'' => ?_⟩
  rcases List.mem_append.mp he'' with he'' | he''
  · exact hrecord e'' he''
  · rwa [List.mem_singleton.mp he'']

/-- A call that makes another call than its record leaves open what is open. -/
theorem exists_open_set {at_ : ℚ} {u : Nat}
    {c₀ c' : Call interface Invocation (Except PoolError ToolOutcome)} {e : Entry interface}
    (hc : p.calls[t]? = some c) (hc' : c'.history = c.history ++ [e]) (he : e.op ≠ .record pos)
    (hu : p.calls[u]? = some c₀) (hopen : Open c₀.history pos at_) :
    ∃ (u : Nat) (c₁ : Call interface Invocation (Except PoolError ToolOutcome)),
      (p.calls.set t c')[u]? = some c₁ ∧ Open c₁.history pos at_ := by
  by_cases hut : u = t
  · subst hut
    obtain rfl := Option.some_inj.mp (hc.symm.trans hu)
    exact ⟨u, c', List.getElem?_set_self (List.getElem?_eq_some_iff.mp hc).1,
      hc' ▸ hopen.append he⟩
  · exact ⟨u, c₀, by rw [List.getElem?_set_ne (Ne.symm hut), hu], hopen⟩

/-- What lands or is recorded later does not touch the looks that were made. -/
theorem Turn.looks_grow (h : Turn policy p) (hp : Tools d p) (executed recorded : List (String × ℚ))
    (hc : c ∈ p.calls) (hmoves : c.request.Moves)
    (hmem : (⟨.history pos, look⟩ : Entry interface) ∈ c.history) :
    Noted (timesOf pos ((p.shared.executed ++ executed).take look.executed))
      (timesOf pos ((p.shared.recorded ++ recorded).take look.recorded)) := by
  have hknown := hp.known_mem hc
  rw [view_eq] at hknown
  have hl := hknown pos look hmem
  rw [List.take_append_of_le_length hl.executed, List.take_append_of_le_length hl.recorded]
  exact h.looks c hc hmoves pos look hmem

/-- A step that neither lands nor records, nor looks on behalf of a call that may move. -/
theorem Turn.unchanged (h : Turn policy p) (hc : p.calls[t]? = some c) {e : Entry interface}
    {c' : Call interface Invocation (Except PoolError ToolOutcome)} {s' : Desk}
    (hc' : c'.history = c.history ++ [e]) (hreq : c'.request = c.request)
    (he : ∀ pos, e.op ≠ .record pos) (hexecuted : s'.executed = p.shared.executed)
    (hrecorded : s'.recorded = p.shared.recorded)
    (hlook : c.request.Moves → ∀ pos look, e = ⟨.history pos, look⟩ →
      Noted (timesOf pos (p.shared.executed.take look.executed))
        (timesOf pos (p.shared.recorded.take look.recorded))) :
    Turn policy ⟨s', p.calls.set t c'⟩ where
  limits := by rw [hexecuted]; exact h.limits
  noted pos := by
    rw [hexecuted, hrecorded]
    refine (h.noted pos).imp_right ?_
    rintro ⟨u, c₀, ts, at_, hu, hopen, hts, hnoted⟩
    obtain ⟨u', c₁, hu', hopen'⟩ := exists_open_set hc hc' (he pos) hu hopen
    exact ⟨u', c₁, ts, at_, hu', hopen', hts, hnoted⟩
  looks c₁ hc₁ hmoves pos look hmem := by
    rw [hexecuted, hrecorded]
    rcases List.mem_or_eq_of_mem_set hc₁ with hc₁ | rfl
    · exact h.looks c₁ hc₁ hmoves pos look hmem
    · rw [hreq] at hmoves
      rw [hc'] at hmem
      rcases List.mem_append.mp hmem with hmem | hmem
      · exact h.looks c (List.mem_of_getElem? hc) hmoves pos look hmem
      · exact hlook hmoves pos look (List.mem_singleton.mp hmem).symm

/-- A record notes what was open. -/
theorem Turn.record (h : Turn policy p) (hp : Tools d p) (hc : p.calls[t]? = some c)
    {c' : Call interface Invocation (Except PoolError ToolOutcome)}
    (hc' : c'.history = c.history ++ [⟨.record pos, ()⟩]) (hreq : c'.request = c.request)
    (htime : p.shared.clock ≤ time) :
    Turn policy ⟨p.shared.record pos time, p.calls.set t c'⟩ where
  limits := h.limits
  noted pos' := by
    rw [Desk.record, timesOf_concat]
    rcases h.noted pos' with hnoted | ⟨u, c₀, ts, at_, hu, hopen, hts, hnoted⟩
    · exact .inl (hnoted.append_right _)
    by_cases heq : pos = pos'
    · -- it landed before now
      subst heq
      have hmem : at_ ∈ timesOf pos p.shared.executed := by simp [hts]
      obtain ⟨e, he, rfl⟩ := List.mem_map.mp hmem
      have hle := (hp.shared.landed e (List.mem_filter.mp he).1).trans htime
      rw [if_pos rfl]
      exact .inl (hts ▸ hnoted.concat hle)
    · obtain ⟨u', c₁, hu', hopen'⟩ :=
        exists_open_set hc hc' (fun h => heq (Op.record.inj h)) hu hopen
      exact .inr ⟨u', c₁, ts, at_, hu', hopen', hts, hnoted.append_right _⟩
  looks c₁ hc₁ hmoves pos' look hmem := by
    have hgrow : ∀ c ∈ p.calls, c.request.Moves →
        (⟨.history pos', look⟩ : Entry interface) ∈ c.history →
          Noted (timesOf pos' (p.shared.executed.take look.executed))
            (timesOf pos' ((p.shared.recorded ++ [(pos, time)]).take look.recorded)) := by
      intro c hc hmoves hmem
      simpa using h.looks_grow hp [] [(pos, time)] hc hmoves hmem
    rcases List.mem_or_eq_of_mem_set hc₁ with hc₁ | rfl
    · exact hgrow c₁ hc₁ hmoves hmem
    · rw [hc'] at hmem
      refine hgrow c (List.mem_of_getElem? hc) (hreq ▸ hmoves) ?_
      exact (List.mem_append.mp hmem).resolve_right fun h => nomatch List.mem_singleton.mp h

/-- A rebalance that lands on a look that missed none keeps the limits, and is open. -/
theorem Turn.land (h : Turn d.rebalancePolicy p) (hp : Tools d p)
    (hcovered : Covered d.rebalancePolicy) (hc : p.calls[t]? = some c)
    {c' : Call interface Invocation (Except PoolError ToolOutcome)} {intent : TradeIntent}
    {opts : ExecuteOptions} {x : Execution}
    (hc' : c'.history = c.history ++ [⟨.gatewayExecute pos intent opts, x⟩])
    (hreq : c'.request = c.request) (hland : x.landedAt = some time)
    (hpre : Promises d ⟨c.request, c.history⟩ (.gatewayExecute pos intent opts))
    (hfresh : Unmissed p.shared c.history pos x) (htime : p.shared.clock ≤ time) :
    Turn d.rebalancePolicy ⟨p.shared.land pos (some time), p.calls.set t c'⟩ := by
  obtain ⟨hmoves, ⟨look, hmem, hpassed⟩, hunrecorded⟩ := hpre
  obtain ⟨hreported, hmissed⟩ := hfresh (by simp [hland])
  have hcmem := List.mem_of_getElem? hc
  have hknown := hp.known t c hc
  rw [view_eq] at hknown
  have hl := hknown pos look hmem
  -- the look saw every rebalance of the position
  have hnoted := h.looks c hcmem hmoves pos look hmem
  have hall : timesOf pos (p.shared.executed.take look.executed) =
      timesOf pos p.shared.executed := by
    conv_rhs => rw [← List.take_append_drop look.executed p.shared.executed, timesOf_append,
      hmissed look (List.mem_filterMap.mpr ⟨_, hmem, rfl⟩), List.append_nil]
  rw [hall] at hnoted
  have hrecorded : Noted (timesOf pos p.shared.executed) (timesOf pos p.shared.recorded) := by
    have := hnoted.append_right (timesOf pos (p.shared.recorded.drop look.recorded))
    rwa [← timesOf_append, List.take_append_drop] at this
  refine ⟨fun pos' => ?_, fun pos' => ?_, fun c₁ hc₁ hmoves₁ pos' look' hmem' => ?_⟩
  · simp only [Desk.land, timesOf_concat]
    by_cases heq : pos = pos'
    · subst heq
      rw [if_pos rfl]
      exact (h.limits pos).append hcovered hnoted hpassed hl.history (hl.now.trans htime)
    · simpa [heq] using h.limits pos'
  · simp only [Desk.land, timesOf_concat]
    by_cases heq : pos = pos'
    · subst heq
      refine .inr ⟨t, c', _, time, List.getElem?_set_self (List.getElem?_eq_some_iff.mp hc).1, ?_,
        by rw [if_pos rfl], hrecorded⟩
      rw [hc']
      refine ⟨⟨_, List.mem_append_right _ (List.mem_singleton.mpr rfl), x, rfl, hland, hreported⟩,
        fun e he => ?_⟩
      rcases List.mem_append.mp he with he | he
      · exact hunrecorded e he
      · obtain rfl := List.mem_singleton.mp he
        exact nofun
    · rw [if_neg heq, List.append_nil]
      refine (h.noted pos').imp_right ?_
      rintro ⟨u, c₀, ts, at_, hu, hopen, hts, hold⟩
      obtain ⟨u', c₁, hu', hopen'⟩ := exists_open_set hc hc' nofun hu hopen
      exact ⟨u', c₁, ts, at_, hu', hopen', hts, hold⟩
  · have hgrow : ∀ c ∈ p.calls, c.request.Moves →
        (⟨.history pos', look'⟩ : Entry interface) ∈ c.history →
          Noted (timesOf pos' ((p.shared.executed ++ [(pos, time)]).take look'.executed))
            (timesOf pos' (p.shared.recorded.take look'.recorded)) := by
      intro c hc hmoves hmem
      simpa using h.looks_grow hp [(pos, time)] [] hc hmoves hmem
    rcases List.mem_or_eq_of_mem_set hc₁ with hc₁ | rfl
    · exact hgrow c₁ hc₁ hmoves₁ hmem'
    · rw [hc'] at hmem'
      refine hgrow c hcmem hmoves ?_
      exact (List.mem_append.mp hmem').resolve_right fun h => nomatch List.mem_singleton.mp h

/-- One call of one body. -/
theorem Turn.step (h : Turn d.rebalancePolicy p) (hp : Tools d p)
    (hcovered : Covered d.rebalancePolicy) (hc : p.calls[t]? = some c)
    (hrest : c.rest = some (.call o k)) (hticks : Ticks p (.step t ans))
    (hfresh : Fresh p (.step t ans)) :
    Turn d.rebalancePolicy ⟨(machine.handle o p.shared (ans o)).2,
      p.calls.set t (c.advance o k (machine.handle o p.shared (ans o)).1)⟩ := by
  have hnext := Pool.next?_eq hc hrest
  have hmoment := hticks o hnext
  have hpre := hp.safe t c hc _ hrest
  rw [view_eq] at hpre
  simp only [Fresh, hc, hnext] at hfresh
  cases o with
  | history pos =>
    refine h.unchanged hc rfl rfl (fun _ => nofun) rfl rfl fun hmoves pos' look heq => ?_
    obtain ⟨hop, hlook⟩ := Entry.mk.inj heq
    obtain rfl := Op.history.inj hop
    obtain rfl := eq_of_heq hlook
    have hnoted := h.noted_of_quiet hp (hfresh hmoves)
    simpa only [machine, Desk.look, List.take_length] using hnoted
  | record pos => exact h.record hp hc rfl rfl (hmoment _ rfl)
  | gatewayExecute pos intent opts =>
    cases hland : Execution.landedAt (ans (.gatewayExecute pos intent opts)) with
    | none =>
      refine h.unchanged hc rfl rfl (fun _ => nofun) ?_ ?_ fun _ _ _ => nofun
      all_goals simp only [machine, hland, Desk.land]
    | some time =>
      have hturn := @Turn.land _ _ _ _ _ _ h hp hcovered hc
        (c.advance (.gatewayExecute pos intent opts) k _) _ _ _
        rfl rfl hland hpre.1 hfresh (hmoment time hland)
      simpa only [machine, hland] using hturn
  | getPoolAndPosition _ _ _ =>
    exact h.unchanged hc rfl rfl (fun _ => nofun) rfl rfl fun _ _ _ => nofun
  | buildRemove _ => exact h.unchanged hc rfl rfl (fun _ => nofun) rfl rfl fun _ _ _ => nofun

/-- Any event. -/
theorem Turn.apply (h : Turn d.rebalancePolicy p) (hp : Tools d p)
    (hcovered : Covered d.rebalancePolicy) {e : Event interface Invocation} (hticks : Ticks p e)
    (hfresh : Fresh p e) : Turn d.rebalancePolicy (p.apply machine (Invocation.body d) e) := by
  cases e with
  | spawn r =>
    refine ⟨h.limits, fun pos => (h.noted pos).imp_right ?_, fun c hc => ?_⟩
    · rintro ⟨u, c₀, ts, at_, hu, hrest⟩
      refine ⟨u, c₀, ts, at_, ?_, hrest⟩
      rw [Pool.apply, Pool.spawn, List.getElem?_append_left (List.getElem?_eq_some_iff.mp hu).1, hu]
    · rcases List.mem_append.mp hc with hc | hc
      · exact h.looks c hc
      · obtain rfl := List.mem_singleton.mp hc
        exact fun _ _ _ hmem => by simp at hmem
  | kill t =>
    refine ⟨h.limits, fun pos => (h.noted pos).imp_right ?_, fun c hc => ?_⟩
    · rintro ⟨u, c₀, ts, at_, hu, hopen, hrest⟩
      refine ⟨u, if t = u then { c₀ with rest := none } else c₀, ts, at_, ?_, ?_, hrest⟩
      · rw [Pool.apply, Pool.kill, List.getElem?_modify, hu]
        split <;> rfl
      · split <;> exact hopen
    · obtain ⟨u, hu⟩ := List.mem_iff_getElem?.mp hc
      obtain ⟨c₀, hc₀, hreq, hhist, -⟩ := Pool.getElem?_kill hu
      rw [hreq, hhist]
      exact h.looks c₀ (List.mem_of_getElem? hc₀)
  | step t ans =>
    rw [Pool.apply]
    rcases Pool.step_cases (M := machine) p t ans with heq | ⟨c, o, k, hc, hrest, heq⟩
    · rwa [heq]
    · rw [heq]
      exact h.step hp hcovered hc hrest hticks hfresh

/-- **The limits hold while no look is outdated.** For every policy whose interval is no longer
than the ledger's day and whose cap is whole, in every interleaving of calls in which no
rebalance lands on a look that missed another one of its position, and whatever lands is
reported, the rebalances that land for a position are at least the interval apart, and no day
holds more of them than the cap. -/
theorem rebalance_limits_hold (d : PoolsDeps) (hcovered : Covered d.rebalancePolicy) (clock : ℚ)
    (es : List (Event interface Invocation))
    (hticks : Pool.Meets machine (Invocation.body d) Ticks (deskStart clock) es)
    (hfresh : Pool.Meets machine (Invocation.body d) Fresh (deskStart clock) es) :
    WithinLimits d.rebalancePolicy (toolRun d clock es).shared.executed := by
  have hboth : ∀ p e, Tools d p ∧ Turn d.rebalancePolicy p → Ticks p e ∧ Fresh p e →
      Tools d (p.apply machine (Invocation.body d) e) ∧
        Turn d.rebalancePolicy (p.apply machine (Invocation.body d) e) := by
    rintro p e ⟨hp, h⟩ ⟨hticks, hfresh⟩
    have hone : Tools d (p.run machine (Invocation.body d) [e]) :=
      (tool_modular d).run ⟨hticks, trivial⟩ hp
    exact ⟨hone, h.apply hp hcovered hticks hfresh⟩
  refine (Pool.run_induction hboth (hticks.and hfresh) ⟨tools_start d clock, ?_⟩).2.limits
  refine ⟨fun pos => ⟨.nil, fun x hx => ?_⟩, fun pos => .inl .nil, fun c hc => ?_⟩
  · simp [countIn, timesOf, deskStart, Pool.start] at hx
  · simp [deskStart, Pool.start] at hc

end Runs

/-! ### Two runs that break the limits -/

/-- A position of ten bins, ninety bins below the active one. -/
def samplePosition : LpPosition := ⟨"pool", "wallet", 9, 6, .ofInt 0, .ofInt 10, 0, 1000000000, 0⟩

/-- A pool that pays well. -/
def samplePool : PoolSummary :=
  ⟨"pool", USDC_MINT, 9, 6, .ofInt 20, .ofInt 100, .finite (1 / 1000), .ofInt 20, some (.ofInt 100)⟩

def samplePolicy (minIntervalMs : JsNumber) : RebalancePolicy :=
  { defaultRebalancePolicy with minIntervalMs, requireIlRecovery := false }

def sampleDeps (minIntervalMs : JsNumber) : PoolsDeps :=
  ⟨samplePolicy minIntervalMs, .ofInt 70, none, id⟩

def sampleRequest (idempotencyKey : String) : RebalanceRequest :=
  ⟨"wallet", "pool", "pos", false, none, idempotencyKey, true⟩

def sampleResult : ExecuteResult := ⟨"trd", .confirmed, some "sig", false, "exit", none, none⟩

/-- The venue and the gateway answer, and the clock stands at `at_`. -/
def sampleAnswers (at_ : ℚ) : ∀ o : Op, o.Ans
  | .getPoolAndPosition _ _ _ => .ok (samplePool, some samplePosition)
  | .history _ => at_
  | .buildRemove _ => .ok ⟨"AQ==", 100, .ofInt 200000, []⟩
  | .gatewayExecute _ _ _ => ⟨.ok sampleResult, some at_⟩
  | .record _ => at_

/-- One call, to its end. -/
def sampleCall (t : Nat) (at_ : ℚ) : List (Event interface Invocation) :=
  .spawn (.execute (sampleRequest "k")) :: List.replicate 5 (.step t (sampleAnswers at_))

/-- Two calls that look at the ledger before either has recorded. -/
def sampleOverlap : List (Event interface Invocation) :=
  [.spawn (.execute (sampleRequest "k")), .spawn (.execute (sampleRequest "l"))] ++
    List.replicate 4 (.step 0 (sampleAnswers 0)) ++ List.replicate 4 (.step 1 (sampleAnswers 0)) ++
    [.step 0 (sampleAnswers 0), .step 1 (sampleAnswers 0)]

/-- An hour between rebalances is less than a day, and four a day is a whole number. -/
theorem samplePolicy_covered : Covered (samplePolicy (.ofInt 3600000)) where
  interval := by decide
  cap q hq := by
    obtain rfl : q = 4 := (JsNumber.finite.inj hq).symm
    right
    decide

/-- Two calls one after the other, an hour apart. -/
theorem rebalance_limits_hold_twice :
    timesOf "pos" (toolRun (sampleDeps (.ofInt 3600000)) 0
      (sampleCall 0 0 ++ sampleCall 1 3600000)).shared.executed = [0, 3600000] ∧
    WithinLimits (samplePolicy (.ofInt 3600000)) (toolRun (sampleDeps (.ofInt 3600000)) 0
      (sampleCall 0 0 ++ sampleCall 1 3600000)).shared.executed :=
  ⟨by decide +kernel, rebalance_limits_hold (sampleDeps (.ofInt 3600000)) samplePolicy_covered 0 _
    (by decide +kernel) (by decide +kernel)⟩

/-- Two calls that overlap rebalance one position twice in the same moment, although the policy
asks for an hour in between. -/
theorem overlapping_executions : ¬ ∀ (d : PoolsDeps) (clock : ℚ)
    (es : List (Event interface Invocation)),
    Pool.Meets machine (Invocation.body d) Ticks (deskStart clock) es →
      WithinLimits d.rebalancePolicy (toolRun d clock es).shared.executed := by
  intro h
  have hlimits := (h (sampleDeps (.ofInt 3600000)) 0 sampleOverlap (by decide +kernel) "pos").apart
  have hrun : timesOf "pos" (toolRun (sampleDeps (.ofInt 3600000)) 0
      sampleOverlap).shared.executed = [0, 0] := by decide +kernel
  rw [hrun] at hlimits
  revert hlimits
  decide +kernel

/-- One call after the other: with two days asked for, the ledger has forgotten the first
rebalance after one. -/
theorem forgotten_rebalance : ¬ WithinLimits (samplePolicy (.ofInt 172800000))
    (toolRun (sampleDeps (.ofInt 172800000)) 0
      (sampleCall 0 0 ++ sampleCall 1 86400001)).shared.executed := by
  intro h
  have hlimits := (h "pos").apart
  have hrun : timesOf "pos" (toolRun (sampleDeps (.ofInt 172800000)) 0
      (sampleCall 0 0 ++ sampleCall 1 86400001)).shared.executed = [0, 86400001] := by
    decide +kernel
  rw [hrun] at hlimits
  revert hlimits
  decide +kernel

end AriOs.Pools.Rebalance
