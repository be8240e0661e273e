import AriOs.Autonomy.JobLifecycle

/-!
# Runs of the job queue

Workers promise little: a job is enqueued with its counters at zero, and `complete` asks about
the job of its own lease. Under these promises every call is a sequence of changes, so what
every change keeps holds in every run, whatever the clocks of the workers say.
-/

namespace AriOs.Autonomy.Jobs

open AriOs.Async AriOs.Js AriOs.Storage Relation

/-! ### What the operations promise -/

/-- What an answer tells `complete`: the job has succeeded with the same result, or the
transaction went through. -/
def tellsTrue (resultRef : Option String) : Entry interface → Bool
  | ⟨.get _, .ok (some j)⟩ => j.status = .succeeded && j.resultRef = resultRef
  | ⟨.complete _ _ _, .ok b⟩ => b
  | _ => false

/-- What an operation promises when it makes a call. -/
def Promises (v : Trace interface Request) : Op → Prop
  | .insertJob row => Fresh row
  | .get id => ∀ l resultRef, v.request = .complete l resultRef → id = l.job.id
  | .complete l resultRef _ => v.request = .complete l resultRef
  | _ => True

def discipline : Discipline interface (Trace interface Request) := Discipline.ofTrace Promises

theorem view_eq {α : Type} (c : Call interface Request α) :
    c.view discipline Trace.start = ⟨c.request, c.history⟩ := Call.view_ofTrace _ c

/-- `complete` returns true only if it was told so. -/
def WasTold (v : Trace interface Request) (r : Response) : Prop :=
  ∀ l resultRef, v.request = .complete l resultRef → r = .done true →
    ∃ e ∈ v.history, tellsTrue resultRef e = true

section Bodies

variable {v : Trace interface Request}

theorem returns_check {α : Type} {P : Trace interface Request → α → Prop} {x : Except String α} :
    Task.Returns discipline P (Queue.check x) v ↔ ∀ a, x = .ok a → P v a := Iff.rfl

theorem now_returns {P : Trace interface Request → Int → Prop}
    (h : ∀ i x, P (v.push ⟨.now, x⟩) i) : Task.Returns discipline P now v := by
  refine Task.returns_bind.mpr (Task.returns_total.mpr ⟨trivial, fun x _ => ?_⟩)
  exact returns_check.mpr fun i _ => h i x

theorem retryOptions_ok {o : EnqueueOptions} {now at_ back : Int} {max : Nat} {jitter : JsNumber}
    (h : retryOptions o now = .ok (at_, max, back, jitter)) : 1 ≤ max := by
  simp only [retryOptions, bind_eq_ok, orThrow_eq_ok] at h
  obtain ⟨_, -, i, hi, _, -, _, -, hret⟩ := h
  have hpos := (Option.filter_eq_some_iff.mp hi).2
  obtain ⟨-, rfl, -⟩ : _ ∧ i.toNat = max ∧ _ := by
    simpa only [Except.ok.injEq, Prod.mk.injEq, Pure.pure, Except.pure] using hret
  simp only [decide_eq_true_eq] at hpos
  omega

theorem enqueue_returns (Q : JobQueue) (type : String) (payload : JsValue) (o : EnqueueOptions) :
    Task.Returns discipline (fun _ _ => True) (enqueue Q type payload o) v := by
  refine Task.returns_bind.mpr (returns_check.mpr fun schema _ => ?_)
  refine Task.returns_bind.mpr (returns_check.mpr fun payloadJson _ => ?_)
  refine Task.returns_bind.mpr (now_returns fun now x => ?_)
  have hid : Task.Returns discipline (fun _ _ => True) (newId o.id) (v.push ⟨.now, x⟩) := by
    unfold newId
    split
    · exact Task.returns_pure.mpr trivial
    · exact Task.returns_total.mpr ⟨trivial, fun _ _ => trivial⟩
  refine Task.returns_bind.mpr (hid.mono fun w id _ => ?_)
  refine Task.returns_bind.mpr (returns_check.mpr fun _ _ => ?_)
  refine Task.returns_bind.mpr (returns_check.mpr fun _ _ => ?_)
  refine Task.returns_bind.mpr (returns_check.mpr fun opts hopts => ?_)
  obtain ⟨at_, max, back, jitter⟩ := opts
  refine ⟨⟨?_, rfl, rfl, retryOptions_ok hopts⟩, fun _ _ _ _ => trivial⟩
  dsimp only
  split <;> simp [JobStatus.Waiting]

theorem complete_returns {l : Lease} {resultRef : Option String}
    (hv : v.request = .complete l resultRef) :
    Task.Returns discipline (fun w b => WasTold w (.done b)) (complete l resultRef) v := by
  refine Task.returns_bind.mpr (returns_check.mpr fun _ _ => ?_)
  refine Task.returns_bind.mpr ⟨?_, fun answer _ existing hexisting => ?_⟩
  · intro l' resultRef' hv'
    rw [hv] at hv'
    obtain ⟨rfl, -⟩ := Request.complete.inj hv'
    rfl
  · obtain rfl : answer = .ok existing := hexisting
    split
    · -- a success that is found tells true exactly for its own result
      rename_i ref href
      refine Task.returns_pure.mpr fun l' resultRef' hv' htrue => ?_
      obtain ⟨rfl, rfl⟩ := Request.complete.inj (hv.symm.trans hv')
      obtain ⟨j, hj, rfl⟩ := Option.map_eq_some_iff.mp href
      obtain ⟨rfl, hstatus⟩ := Option.filter_eq_some_iff.mp hj
      have hsame : j.resultRef = resultRef := by simpa using htrue
      refine ⟨_, List.mem_append_right _ (List.mem_singleton.mpr rfl), ?_⟩
      have hstatus := of_decide_eq_true hstatus
      simp [tellsTrue, hstatus, hsame]
    · refine Task.returns_bind.mpr (now_returns fun now x => ?_)
      refine ⟨hv, fun answer _ b hb l' resultRef' hv' htrue => ?_⟩
      obtain rfl : answer = .ok b := hb
      obtain rfl : b = true := by simpa using htrue
      exact ⟨_, List.mem_append_right _ (List.mem_singleton.mpr rfl), rfl⟩

theorem claim_returns (workerId : String) (leaseMs : JsNumber) :
    Task.Returns discipline (fun _ _ => True) (claim workerId leaseMs) v := by
  refine Task.returns_bind.mpr (returns_check.mpr fun _ _ => ?_)
  refine Task.returns_bind.mpr (returns_check.mpr fun _ _ => ?_)
  refine Task.returns_bind.mpr (now_returns fun _ _ => ?_)
  refine Task.returns_bind.mpr (returns_check.mpr fun _ _ => ?_)
  exact ⟨trivial, fun _ _ _ _ => trivial⟩

theorem heartbeat_returns (l : Lease) (leaseMs : JsNumber) :
    Task.Returns discipline (fun _ _ => True) (heartbeat l leaseMs) v := by
  refine Task.returns_bind.mpr (returns_check.mpr fun _ _ => ?_)
  refine Task.returns_bind.mpr (now_returns fun _ _ => ?_)
  refine Task.returns_bind.mpr (returns_check.mpr fun _ _ => ?_)
  exact ⟨trivial, fun _ _ _ _ => trivial⟩

theorem fail_returns (l : Lease) (error : String) :
    Task.Returns discipline (fun _ _ => True) (fail l error) v := by
  refine Task.returns_bind.mpr (returns_check.mpr fun _ _ => ?_)
  refine Task.returns_bind.mpr (now_returns fun _ _ => ?_)
  exact ⟨trivial, fun _ _ _ _ => trivial⟩

theorem cancel_returns (id : String) :
    Task.Returns discipline (fun _ _ => True) (cancel id) v := by
  refine Task.returns_bind.mpr (now_returns fun _ _ => ?_)
  exact ⟨trivial, fun _ _ _ _ => trivial⟩

/-- Any operation but `complete`. -/
theorem returns_wasTold {α : Type} {x : Queue α} {f : α → Response}
    (hne : ∀ l resultRef, v.request ≠ .complete l resultRef)
    (h : Task.Returns discipline (fun _ _ => True) x v) :
    Task.Returns discipline WasTold (do return f (← x)) v := by
  refine Task.returns_bind.mpr ((h.request_eq fun _ _ => rfl).mono ?_)
  rintro w a ⟨-, hw⟩
  exact Task.returns_pure.mpr fun l resultRef hreq => absurd (hw.symm.trans hreq) (hne l resultRef)

/-- Whatever the answers, every operation keeps its promises. -/
theorem serve_returns (Q : JobQueue) (r : Request) :
    Task.Returns discipline WasTold (serve Q r) (Trace.start r) := by
  cases r with
  | enqueue type payload o =>
    exact returns_wasTold (by simp [Trace.start]) (enqueue_returns Q type payload o)
  | claim workerId leaseMs =>
    exact returns_wasTold (by simp [Trace.start]) (claim_returns workerId leaseMs)
  | heartbeat l leaseMs =>
    exact returns_wasTold (by simp [Trace.start]) (heartbeat_returns l leaseMs)
  | complete l resultRef =>
    exact Task.returns_bind.mpr ((complete_returns rfl).mono fun _ _ h => Task.returns_pure.mpr h)
  | fail l error => exact returns_wasTold (by simp [Trace.start]) (fail_returns l error)
  | cancel id => exact returns_wasTold (by simp [Trace.start]) (cancel_returns id)

end Bodies

/-! ### Every run -/

section Runs

variable {Q : JobQueue}

theorem Promises.fresh {v : Trace interface Request} {o : Op} (h : Promises v o) (row : Job)
    (ho : o = .insertJob row) : Fresh row := by
  subst ho
  exact h

theorem changes_keep {K : JobStore → Prop} (hK : ∀ s s', K s → Change s s' → K s')
    {s s' : JobStore} (h : K s) (hchanges : ReflTransGen Change s s') : K s' := by
  induction hchanges with
  | refl => exact h
  | tail _ hchange ih => exact hK _ _ ih hchange

/-- What every change keeps, every run keeps. -/
theorem jobs_modular (Q : JobQueue) {K : JobStore → Prop}
    (hK : ∀ s s', K s → Change s s' → K s') :
    Modular (machine Q) (fun r => (serve Q r).run) discipline Trace.start
      (fun v r => ∀ a, r = .ok a → WasTold v a) (fun s => Sound s ∧ K s) (fun _ _ => True)
      (fun _ _ => True) (fun _ _ => True) where
  body_safe r := serve_returns Q r
  symm _ _ h := h
  spawn _ _ _ _ := ⟨trivial, fun _ _ => trivial⟩
  call p t ans c o k _ _ _ hJ _ hpre := by
    have hchanges := handle_changes Q hJ.1 (Promises.fresh hpre) (ans o)
    exact ⟨trivial, ⟨hJ.1.changes hchanges, changes_keep hK hJ.2 hchanges⟩, trivial⟩
  frame _ _ _ _ _ _ _ _ _ _ := ⟨trivial, trivial⟩

theorem coherent_jobRun (es : List (Event interface Request)) :
    Coherent discipline Trace.start (fun v r => ∀ a, r = .ok a → WasTold v a)
      (fun s => Sound s ∧ True) (fun _ _ => True) (fun _ _ => True) (jobRun Q es) :=
  (jobs_modular Q fun _ _ _ _ => trivial).run (Pool.meets_true _ _)
    (Modular.coherent_start ⟨sound_empty, trivial⟩)

/-- What a change keeps is kept from any state of a run on. -/
theorem jobRun_append {K : JobStore → Prop} (hK : ∀ s s', K s → Change s s' → K s')
    {es : List (Event interface Request)} (h : K (jobRun Q es).shared)
    (es' : List (Event interface Request)) : K (jobRun Q (es ++ es')).shared := by
  have hp := coherent_jobRun (Q := Q) es
  rw [jobRun, Pool.run_append]
  exact ((jobs_modular Q hK).run (Pool.meets_true _ es')
    ⟨⟨hp.shared.1, h⟩, hp.known, hp.apart, hp.safe, hp.kept⟩).shared.2

/-- The open attempts of a job. -/
def JobStore.openAttempts (s : JobStore) (id : String) : List Attempt :=
  s.attempts.rows.filter fun a => a.jobId = id ∧ a.finishedAt = none

/-- A sound job is running exactly if it has one open attempt, under its own token. -/
theorem Sound.running_iff {s : JobStore} (h : Sound s) {j : Job} (hj : j ∈ s.jobs.rows) :
    j.status = .running ↔ ∃ a, s.openAttempts j.id = [a] ∧ a.fencingToken = j.fencingToken := by
  have hsound := h.job j hj
  constructor
  · intro hrunning
    obtain ⟨a, ha, hopen⟩ := hsound.started hrunning
    obtain ⟨hid, htoken, hnone⟩ := isOpen_iff.mp hopen
    refine ⟨a, Table.filter_eq_singleton ha (by simp [hid, hnone]) fun b hb hopenb => ?_, htoken⟩
    obtain ⟨hidb, hnoneb⟩ := of_decide_eq_true hopenb
    have htokenb := (hsound.unfinished b hb hidb hnoneb).2
    exact hsound.attempt_unique hb ha hidb hid (htokenb.trans htoken.symm)
  · rintro ⟨a, hopen, -⟩
    have hmem : a ∈ s.openAttempts j.id := by simp [hopen]
    obtain ⟨ha, hrest⟩ := List.mem_filter.mp hmem
    obtain ⟨hid, hnone⟩ := of_decide_eq_true hrest
    exact (hsound.unfinished a ha hid hnone).1

/-- **The invariant of the job queue.** In every run of any number of workers, whatever their
clocks say: a job is running exactly if it has one open attempt, under its own token; its
attempts are counted right and never too many; a waiting job has an attempt left; a job that has
ended keeps its status for good; and the recovery loop of `claim` ends without an error. -/
theorem job_queue_invariant (Q : JobQueue) (es : List (Event interface Request)) :
    (∀ j ∈ (jobRun Q es).shared.jobs.rows,
      (j.status = .running ↔ ∃ a, (jobRun Q es).shared.openAttempts j.id = [a] ∧
        a.fencingToken = j.fencingToken) ∧
      j.attemptCount = j.fencingToken ∧
      j.fencingToken = (jobRun Q es).shared.attempts.count (fun a => a.jobId = j.id) ∧
      j.attemptCount ≤ j.maxAttempts ∧
      (j.status.Waiting → j.attemptCount < j.maxAttempts) ∧
      (j.status.Ended → ∀ es', ∃ j', (jobRun Q (es ++ es')).shared.jobs.find? j.id = some j' ∧
        j'.status = j.status)) ∧
    ∀ now n, (jobRun Q es).shared.jobs.rows.length < n →
      ∃ s, JobStore.recoverExpired now n (jobRun Q es).shared = some (.ok s) := by
  have hsound : Sound (jobRun Q es).shared := (coherent_jobRun es).shared.1
  constructor
  · intro j hj
    have hjob := hsound.job j hj
    refine ⟨hsound.running_iff hj, hjob.token, hjob.token.symm.trans hjob.count.symm, hjob.bound,
      hjob.waiting, fun hended es' => ?_⟩
    refine jobRun_append (K := fun s => ∃ j', s.jobs.find? j.id = some j' ∧ j'.status = j.status)
      ?_ ⟨j, Table.mem_rows_iff.mp hj, rfl⟩ es'
    -- every change leaves the status of a job that has ended
    rintro s s' ⟨j', hj', hstatus⟩ hchange
    obtain ⟨j'', hj'', hstatus'⟩ := hchange.ended hj' (by rw [hstatus]; exact hended)
    exact ⟨j'', hj'', hstatus'.trans hstatus⟩
  · intro now n hn
    -- of the rows at most all have an expired lease, and each turn takes one of them
    have hle : (jobRun Q es).shared.jobs.count (JobStore.leaseExpired now) ≤
        (jobRun Q es).shared.jobs.rows.length := List.countP_le_length
    have hfuel : (jobRun Q es).shared.jobs.count (JobStore.leaseExpired now) < n := by omega
    obtain ⟨s, hs, -⟩ := recoverExpired_ends hsound hfuel
    exact ⟨s, hs⟩

end Runs

end AriOs.Autonomy.Jobs
