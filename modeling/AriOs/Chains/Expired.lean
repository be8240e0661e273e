import AriOs.Async.Transition
import AriOs.Chains.SolanaRpc
import AriOs.Kernel.Reconciler

/-!
# A verdict of expiry

Trade gateways and reconcilers share a store, and the confirmer they ask is `SolanaRpc`, whose
reads interleave with everything else and with the chain. A verdict of expiry releases the
spend reservation, so it has to mean that the transaction can no longer land. It means that
unless the loop gives up on its own clock while the transaction may still land, or reads a
height past the last valid one when the transaction is on the chain already.
-/

namespace AriOs.Chains.Solana

open AriOs.Async AriOs.Async.Transition AriOs.Kernel

/-! ### The system -/

/-- What the kernel is asked to do. -/
inductive Job where
  | execute (r : Request)
  | recover

/-- The code that does it. -/
def body (d : Deps) : Job → Prog interface (Except KernelError (ExecuteResult ⊕ ReconcileSummary))
  | .execute r => (execute d r).bind fun result => .pure (result.map Sum.inl)
  | .recover => recover.run.bind fun summary => .pure (summary.map Sum.inr)

/-- The jobs that share one store. -/
abbrev Jobs :=
  Pool interface KernelStore Job (Except KernelError (ExecuteResult ⊕ ReconcileSummary))

/-- The world, how far the `confirm` call of each job has come, and the jobs. -/
structure System where
  world : World
  polls : Nat → Polling
  jobs : Jobs

/-- Everything that can happen. -/
inductive Happening where
  | world (c : Change)
  | poll (t : Nat)
  | reject (t : Nat) (e : KernelError)
  | job (e : Event interface Job)

/-- The `confirm` call that job `t` waits for returns. -/
def Jobs.answer (jobs : Jobs) (t : Nat) (r : Except KernelError ConfirmStatus) : Jobs :=
  match jobs.calls[t]? with
  | some c =>
    match c.rest with
    | some (.call (.confirm signature height) k) =>
      { jobs with calls := jobs.calls.set t (c.advance (.confirm signature height) k r) }
    | _ => jobs
  | none => jobs

namespace System

/-- The `confirm` call of job `t` returns, and the next one starts afresh. -/
def answer (s : System) (t : Nat) (r : Except KernelError ConfirmStatus) : System :=
  { s with polls := Function.update s.polls t .called, jobs := s.jobs.answer t r }

variable (d : Deps) (lastValid : String → Int)

/-- One event. A `confirm` call is answered by its own loop and by nothing else. -/
def apply (s : System) : Happening → System
  | .world c => { s with world := s.world.apply lastValid c }
  | .poll t =>
    match s.jobs.next? t with
    | some (.confirm signature height) =>
      match confirmStep s.world signature height (s.polls t) with
      | .inl p => { s with polls := Function.update s.polls t p }
      | .inr outcome => s.answer t (.ok outcome.status)
    | _ => s
  | .reject t e =>
    match s.jobs.next? t with
    | some (.confirm _ _) => if (s.polls t).Remote then s.answer t (.error e) else s
    | _ => s
  | .job (.step t ans) =>
    match s.jobs.next? t with
    | some (.confirm _ _) => s
    | _ => { s with jobs := s.jobs.step machine t ans }
  | .job e => { s with jobs := s.jobs.apply machine (body d) e }

/-- A store, whatever it holds, and a world before the first job. -/
def start (w : World) (store : KernelStore) : System := ⟨w, fun _ => .called, Pool.start store⟩

end System

/-! ### What expiry should mean -/

/-- The transaction, and the height asked about, of a verdict of expiry. -/
def expiredVerdict? : Entry interface → Option (String × Int)
  | ⟨.confirm signature height, .ok .expired⟩ => some (signature, height)
  | _ => none

/-- What a job was told had expired. -/
def expiredVerdicts (history : List (Entry interface)) : List (String × Int) :=
  history.filterMap expiredVerdict?

/-- The reservations a job released right on such a verdict. -/
def releasedOnExpired : List (Entry interface) → List (String × Int × String)
  | ⟨.confirm signature height, .ok .expired⟩ :: ⟨.releaseReservation id, _⟩ :: es =>
    (signature, height, id) :: releasedOnExpired es
  | _ :: es => releasedOnExpired es
  | [] => []

/-- Asked about a transaction with its last valid height, `confirm` says `expired` only if the
transaction is not on the chain and never will be; and no reservation released on that word
belongs to a transaction that is confirmed later. -/
structure ExpiredIsFinal (lastValid : String → Int) (s : System) : Prop where
  verdict : ∀ c ∈ s.jobs.calls, ∀ signature,
    (signature, lastValid signature) ∈ expiredVerdicts c.history →
      NeverLands lastValid s.world signature
  release : ∀ c ∈ s.jobs.calls, ∀ signature id,
    (signature, lastValid signature, id) ∈ releasedOnExpired c.history → ∀ cs : List Change,
      ∀ status ∈ (cs.foldl (World.apply lastValid) s.world).status signature, ¬status.Confirmed

/-- What a read of `confirm` may find: when its time is over, the transaction is past its last
valid height and not on the chain; and it is not on the chain when a height past the last
valid one is read. -/
def SoundRead (lastValid : String → Int) (s : System) : Happening → Prop
  | .poll t => ∀ signature,
    s.jobs.next? t = some (.confirm signature (lastValid signature)) →
      match s.polls t with
      | .checking start => CONFIRM_TIMEOUT_MS ≤ s.world.now - start →
          s.world.status signature = none ∧ lastValid signature < s.world.height
      | .askingHeight _ => lastValid signature < s.world.height →
          s.world.status signature = none
      | _ => True
  | _ => True

/-! ### Histories -/

section Histories

variable {es : List (Entry interface)} {e : Entry interface}

/-- A reservation is released on a verdict that was given. -/
theorem mem_expiredVerdicts_of_released {signature : String} {height : Int} {id : String}
    (h : (signature, height, id) ∈ releasedOnExpired es) :
    (signature, height) ∈ expiredVerdicts es := by
  fun_induction releasedOnExpired es with
  | case1 s ht rid u es ih =>
    rcases List.mem_cons.mp h with heq | hmem
    · cases heq
      exact List.mem_cons_self
    · exact List.mem_cons_of_mem _ (ih hmem)
  | case2 e es hne ih =>
    obtain ⟨e', he', hverdict⟩ := List.mem_filterMap.mp (ih h)
    exact List.mem_filterMap.mpr ⟨e', List.mem_cons_of_mem e he', hverdict⟩
  | case3 => simp at h

end Histories

/-- It is enough that the verdicts are right. -/
theorem expiredIsFinal_iff {lastValid : String → Int} {s : System} :
    ExpiredIsFinal lastValid s ↔ ∀ c ∈ s.jobs.calls, ∀ signature,
      (signature, lastValid signature) ∈ expiredVerdicts c.history →
        NeverLands lastValid s.world signature := by
  refine ⟨ExpiredIsFinal.verdict, fun h => ⟨h, ?_⟩⟩
  intro c hc signature id hrel cs status hstatus
  have hnever := h c hc signature (mem_expiredVerdicts_of_released hrel) cs
  rw [hnever] at hstatus
  simp at hstatus

/-! ### One event -/

section OneEvent

variable {d : Deps} {lastValid : String → Int} {s : System} {t : Nat}

/-- What an answer adds to the histories. -/
theorem mem_answer {jobs : Jobs} {signature : String} {height : Int}
    (hnext : jobs.next? t = some (.confirm signature height))
    (r : Except KernelError ConfirmStatus) :
    (∀ c ∈ (jobs.answer t r).calls, c ∈ jobs.calls ∨
      ∃ c₀ ∈ jobs.calls, c.history = c₀.history ++ [⟨.confirm signature height, r⟩]) ∧
    ∃ c ∈ (jobs.answer t r).calls, (⟨.confirm signature height, r⟩ : Entry interface) ∈ c.history := by
  obtain ⟨c, k, hc, hrest⟩ := Pool.exists_of_next? hnext
  have hanswer : (jobs.answer t r).calls =
      jobs.calls.set t (c.advance (.confirm signature height) k r) := by
    simp only [Jobs.answer, hc, hrest]
  rw [hanswer]
  constructor
  · intro c' hc'
    rcases List.mem_or_eq_of_mem_set hc' with hmem | rfl
    · exact .inl hmem
    · exact .inr ⟨c, List.mem_of_getElem? hc, rfl⟩
  · refine ⟨_, List.mem_set (List.getElem?_eq_some_iff.mp hc).1 _, ?_⟩
    exact List.mem_append_right _ (List.mem_singleton_self _)

/-- An answer keeps expiry final, unless it is a wrong verdict of expiry. -/
theorem final_answer (h : ExpiredIsFinal lastValid s) {signature : String} {height : Int}
    (hnext : s.jobs.next? t = some (.confirm signature height))
    (r : Except KernelError ConfirmStatus) :
    ExpiredIsFinal lastValid (s.answer t r) ↔
      (r = .ok .expired → height = lastValid signature →
        NeverLands lastValid s.world signature) := by
  obtain ⟨hold, c₁, hc₁, hnew⟩ := mem_answer hnext r
  rw [expiredIsFinal_iff]
  constructor
  · rintro hfinal rfl rfl
    exact hfinal c₁ hc₁ signature (List.mem_filterMap.mpr ⟨_, hnew, rfl⟩)
  · intro hright c hc signature' hmem
    rcases hold c hc with hc | ⟨c₀, hc₀, heq⟩
    · exact h.verdict c hc signature' hmem
    · rw [heq, expiredVerdicts, List.filterMap_append] at hmem
      rcases List.mem_append.mp hmem with hmem | hmem
      · exact h.verdict c₀ hc₀ signature' hmem
      · -- the only new verdict is this answer
        obtain ⟨e, he, hverdict⟩ := List.mem_filterMap.mp hmem
        obtain rfl := List.mem_singleton.mp he
        unfold expiredVerdict? at hverdict
        split at hverdict
        · rename_i heq'
          cases heq'
          cases hverdict
          exact hright rfl rfl
        · simp at hverdict

/-- What the loop says is right exactly when its read was sound. -/
theorem soundRead_poll_iff {signature : String} {height : Int}
    (hnext : s.jobs.next? t = some (.confirm signature height)) :
    SoundRead lastValid s (.poll t) ↔
      ((∃ outcome, confirmStep s.world signature height (s.polls t) = .inr outcome ∧
        outcome.status = .expired) → height = lastValid signature →
          NeverLands lastValid s.world signature) := by
  -- the job confirms one signature, so the condition is about that one
  have hsound : SoundRead lastValid s (.poll t) ↔ (height = lastValid signature →
      match s.polls t with
      | .checking start => CONFIRM_TIMEOUT_MS ≤ s.world.now - start →
          s.world.status signature = none ∧ lastValid signature < s.world.height
      | .askingHeight _ => lastValid signature < s.world.height →
          s.world.status signature = none
      | _ => True) := by
    constructor
    · rintro h rfl
      exact h signature hnext
    · intro h signature' hnext'
      obtain ⟨rfl, hheight⟩ := Op.confirm.inj (Option.some.inj (hnext.symm.trans hnext'))
      exact h hheight
  rw [hsound, confirmStep_expired_iff, forall_comm]
  refine forall_congr' fun hheight => ?_
  subst hheight
  rw [neverLands_iff]
  -- only the two last reads of a poll can tell that it expired
  cases s.polls t with
  | called => simp
  | askingStatus start => simp
  | sleeping start => simp
  | checking start => simp
  | askingHeight start => simp +contextual

/-- The jobs make other calls than `confirm` without saying anything about expiry. -/
theorem final_job (h : ExpiredIsFinal lastValid s) (e : Event interface Job) :
    ExpiredIsFinal lastValid (s.apply d lastValid (.job e)) := by
  rw [expiredIsFinal_iff]
  cases e with
  | spawn r =>
    intro c hc signature hmem
    rcases List.mem_append.mp hc with hc | hc
    · exact h.verdict c hc signature hmem
    · obtain rfl := List.mem_singleton.mp hc
      simp [expiredVerdicts] at hmem
  | kill u =>
    intro c hc signature hmem
    obtain ⟨v, hv⟩ := List.mem_iff_getElem?.mp hc
    obtain ⟨c₀, hc₀, -, hhist, -⟩ := Pool.getElem?_kill hv
    rw [hhist] at hmem
    exact h.verdict c₀ (List.mem_of_getElem? hc₀) signature hmem
  | step u ans =>
    simp only [System.apply]
    split
    · exact h.verdict
    · rename_i hother
      intro c hc signature hmem
      rcases Pool.step_cases (M := machine) s.jobs u ans with heq | ⟨c₀, o, k, hc₀, hrest, heq⟩
      · exact h.verdict c (heq ▸ hc) signature hmem
      · rw [heq] at hc
        rcases List.mem_or_eq_of_mem_set hc with hc | rfl
        · exact h.verdict c hc signature hmem
        · -- the call that was made is not a `confirm`
          refine h.verdict c₀ (List.mem_of_getElem? hc₀) signature ?_
          simp only [Call.advance, expiredVerdicts, List.filterMap_append] at hmem
          refine (List.mem_append.mp hmem).resolve_right fun hlast => ?_
          obtain ⟨e, he, hverdict⟩ := List.mem_filterMap.mp hlast
          obtain rfl := List.mem_singleton.mp he
          unfold expiredVerdict? at hverdict
          split at hverdict
          · rename_i heq'
            obtain rfl := congrArg Entry.op heq'
            exact hother _ _ (Pool.next?_eq hc₀ hrest)
          · simp at hverdict

/-- An event keeps expiry final exactly when it is not an unsound read. -/
theorem final_apply_iff (h : ExpiredIsFinal lastValid s) (e : Happening) :
    ExpiredIsFinal lastValid (s.apply d lastValid e) ↔ SoundRead lastValid s e := by
  cases e with
  | world c =>
    refine iff_of_true (expiredIsFinal_iff.mpr ?_) trivial
    intro c₀ hc₀ signature hmem
    exact (h.verdict c₀ hc₀ signature hmem).apply c
  | job e => exact iff_of_true (final_job h e) trivial
  -- a rejected call is no verdict
  | reject t e =>
    refine iff_of_true ?_ trivial
    simp only [System.apply]
    split
    · rename_i signature height hnext
      split
      · exact (final_answer h hnext _).mpr fun hok => by simp at hok
      · exact h
    · exact h
  -- a poll is what the condition is about
  | poll t =>
    simp only [System.apply]
    split
    · rename_i signature height hnext
      rw [soundRead_poll_iff hnext]
      split
      · rename_i p hp
        refine iff_of_true (expiredIsFinal_iff.mpr h.verdict) ?_
        rintro ⟨outcome, hout, -⟩
        simp [hp] at hout
      · rename_i outcome hout
        rw [final_answer h hnext]
        simp [hout]
    · rename_i hother
      exact iff_of_true h fun signature hnext => (hother _ _ hnext).elim

end OneEvent

/-! ### Every run -/

/-- **Expired means it can never land.** Whatever a store holds, in every interleaving of
gateways, reconcilers, their polling and the chain: a transaction that was said to have expired
never lands, and none whose reservation was released for that is confirmed later, exactly when
no loop gives up while its transaction may still land, and none reads a height past the last
valid one when its transaction is on the chain. -/
theorem expired_final_iff (d : Deps) (lastValid : String → Int) (w : World) (store : KernelStore)
    (es : List Happening) :
    Throughout (System.apply d lastValid) (ExpiredIsFinal lastValid) (System.start w store) es ↔
      Meets (System.apply d lastValid) (SoundRead lastValid) (System.start w store) es := by
  refine throughout_iff_meets (I := ExpiredIsFinal lastValid) (fun _ h => h)
    (fun s e h hsound => (final_apply_iff h e).mpr hsound)
    (fun s e h hunsound hfinal => hunsound ((final_apply_iff h e).mp hfinal)) ?_
  rw [expiredIsFinal_iff]
  simp [System.start, Pool.start]

/-- A trade is broadcast with the height at 0 and its last valid height at 5; the first poll
finds nothing, ninety seconds pass on the wall clock, and the second check of the clock gives up.
The reservation is released, and then the transaction gets into a block. -/
def gaveUpRun : List Happening :=
  .job (.spawn (.execute (sampleRequest "k"))) ::
    List.replicate 26 (.job (.step 0 (sampleAnswers "a" 0 (.ok .confirmed)))) ++
    List.replicate 5 (.poll 0) ++ [.world (.clock 90000), .poll 0,
      .job (.step 0 (sampleAnswers "a" 0 (.ok .confirmed))),
      .world (.transaction "sig" (some ⟨some 7, none, some .confirmed⟩))]

/-- A reservation is released on a verdict of expiry, and its transaction is confirmed. -/
theorem released_then_confirmed :
    ¬ ∀ (d : Deps) (lastValid : String → Int) (w : World) (store : KernelStore)
      (es : List Happening),
      Throughout (System.apply d lastValid) (ExpiredIsFinal lastValid) (System.start w store) es := by
  intro h
  have hfinal := h sampleDeps (fun _ => 5) ⟨0, 0, fun _ => none⟩ .empty gaveUpRun gaveUpRun []
    (List.append_nil _).symm
  have hrun : ∃ c ∈ (run (System.apply sampleDeps fun _ => 5)
        (System.start ⟨0, 0, fun _ => none⟩ .empty) gaveUpRun).jobs.calls,
      ("sig", (5 : Int), "rsv_a") ∈ releasedOnExpired c.history := by decide +kernel
  have hstatus : (run (System.apply sampleDeps fun _ => 5)
      (System.start ⟨0, 0, fun _ => none⟩ .empty) gaveUpRun).world.status "sig" =
        some ⟨some 7, none, some .confirmed⟩ := by decide +kernel
  generalize run (System.apply sampleDeps fun _ => 5) _ gaveUpRun = s at hfinal hrun hstatus
  obtain ⟨c, hc, hrel⟩ := hrun
  exact hfinal.release c hc "sig" "rsv_a" hrel [] _ hstatus (by decide)

end AriOs.Chains.Solana
