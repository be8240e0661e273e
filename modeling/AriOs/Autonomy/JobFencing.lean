import AriOs.Autonomy.JobRuns

/-!
# Fencing

`complete` is fenced: its transaction goes through for the worker that holds the job, and for no
other. But a job that has succeeded already is answered before that, by comparing results, so
that a worker may repeat itself. Nothing there asks whose result it is.
-/

namespace AriOs.Autonomy.Jobs

open AriOs.Async AriOs.Js AriOs.Storage Relation

/-- The attempt of a lease is recorded as succeeded, and no other attempt of its job is. -/
def SucceededAs (s : JobStore) (l : Lease) : Prop :=
  (∃ a ∈ s.attempts.rows, a.jobId = l.job.id ∧ a.fencingToken = l.fencingToken ∧
    a.outcome = some .succeeded) ∧
  ∀ a ∈ s.attempts.rows, a.jobId = l.job.id → a.outcome = some .succeeded →
    a.fencingToken = l.fencingToken

instance (s : JobStore) (l : Lease) : Decidable (SucceededAs s l) := by
  unfold SucceededAs; infer_instance

/-- Every worker that was told its completion took effect was told the truth. -/
def ToldTruth (p : JobPool) : Prop :=
  ∀ c ∈ p.calls, ∀ l resultRef, c.request = .complete l resultRef →
    c.result? = some (.ok (.done true)) → SucceededAs p.shared l

/-- Whether the environment lets a reading of a job fail. -/
def getFailure (ans : ∀ o, interface.Ans o) (id : String) : Option String := ans (.get id)

/-- A worker that reads its job as succeeded, with the result it reports itself, holds the lease
it succeeded under. -/
def ReadsOwnSuccess (p : JobPool) : Event interface Request → Prop
  | .step t ans => ∀ c l resultRef j, p.calls[t]? = some c → c.request = .complete l resultRef →
      p.next? t = some (.get l.job.id) → getFailure ans l.job.id = none →
      p.shared.jobs.find? l.job.id = some j → j.status = .succeeded → j.resultRef = resultRef →
      j.fencingToken = l.fencingToken
  | _ => True

/-! ### What the tables say of a success -/

section Success

variable {s s' : JobStore} {l : Lease}

theorem Sound.succeededAs (h : Sound s) {j : Job} (hj : s.jobs.find? l.job.id = some j)
    (hstatus : j.status = .succeeded) (htoken : j.fencingToken = l.fencingToken) :
    SucceededAs s l := by
  obtain ⟨hmem, hid⟩ := Table.find?_eq_some_iff.mp hj
  have hjob := h.job j hmem
  constructor
  · obtain ⟨a, ha, haid, hatoken, houtcome⟩ := hjob.completed hstatus
    exact ⟨a, ha, haid.trans hid, hatoken.trans htoken, houtcome⟩
  · intro a ha haid houtcome
    exact (hjob.success a ha (haid.trans hid.symm) houtcome).2.trans htoken

theorem Sound.token_of_succeededAs (h : Sound s) (hl : SucceededAs s l) {j : Job}
    (hj : s.jobs.find? l.job.id = some j) : j.fencingToken = l.fencingToken := by
  obtain ⟨hmem, hid⟩ := Table.find?_eq_some_iff.mp hj
  obtain ⟨⟨a, ha, haid, hatoken, houtcome⟩, -⟩ := hl
  exact ((h.job j hmem).success a ha (haid.trans hid.symm) houtcome).2.symm.trans hatoken

/-- A recorded success stays on record, and stays the only one. -/
theorem SucceededAs.changes (hl : SucceededAs s l) (h : Sound s)
    (hchanges : ReflTransGen Change s s') : SucceededAs s' l := by
  induction hchanges with
  | refl => exact hl
  | tail hbefore hchange ih =>
    have hsound := h.changes hbefore
    have hsound' := hsound.change hchange
    obtain ⟨a, ha, haid, hatoken, houtcome⟩ := ih.1
    have ha' := hchange.succeeded hsound ha houtcome
    refine ⟨⟨a, ha', haid, hatoken, houtcome⟩, fun b hb hbid hsuccess => ?_⟩
    -- both are attempts of the one job there is, and a job succeeds under one token
    obtain ⟨j, hj, hja⟩ := hsound'.owned a ha'
    have hjob := hsound'.job j hj
    have htokena := (hjob.success a ha' hja houtcome).2
    have htokenb := (hjob.success b hb (hbid.trans (haid.symm.trans hja)) hsuccess).2
    rw [htokenb, ← htokena, hatoken]

/-- An attempt that could be ended left its job as `f` says. -/
theorem finish_ok {j : Job} {f : Job → Job} (hf : ∀ k, (f k).id = k.id) {g : Attempt → Attempt}
    (hg : ∀ a, (g a).key = a.key) {answer b : Bool} {now : Int} (hheld : s.held l now = some j)
    (hok : (s.finish l f hf g hg answer).1 = .ok b) :
    answer = b ∧ (s.finish l f hf g hg answer).2.jobs.find? l.job.id = some (f j) := by
  obtain ⟨hj, hid, -, -⟩ := held_some hheld
  unfold JobStore.finish at hok ⊢
  split at hok
  · simp at hok
  · rename_i hcount
    rw [if_neg hcount]
    refine ⟨Except.ok.inj hok, ?_⟩
    change (s.updateJob l.job.id f hf).jobs.find? l.job.id = some (f j)
    rw [← hid, find?_updateJob hf hj, if_pos rfl]

/-- The transaction of `complete` returns true for the attempt it has just recorded. -/
theorem complete_true (h : Sound s) {resultRef : Option String} {now : Int}
    (htrue : (s.complete l resultRef now).1 = .ok true) :
    SucceededAs (s.complete l resultRef now).2 l := by
  have hsound : Sound (s.complete l resultRef now).2 := h.changes complete_changes
  unfold JobStore.complete at htrue hsound ⊢
  cases hheld : s.held l now with
  | none => simp [hheld] at htrue
  | some j =>
    simp only [hheld] at htrue hsound ⊢
    obtain ⟨hanswer, hjob⟩ := finish_ok _ _ hheld htrue
    have hcancel : j.cancelRequested = false := by simpa using hanswer
    have htoken := (held_some hheld).2.2.2
    refine hsound.succeededAs hjob ?_ htoken
    simp [hcancel]

end Success

/-! ### Runs -/

section Runs

variable {Q : JobQueue}

/-- What an operation was told is on record. -/
def Recorded (s : JobStore) (v : Trace interface Request) : Prop :=
  ∀ l resultRef, v.request = .complete l resultRef → ∀ e ∈ v.history,
    tellsTrue resultRef e = true → SucceededAs s l

theorem Recorded.handle {s : JobStore} (hs : Sound s) {v w : Trace interface Request}
    (hw : Recorded s w) {o : Op} (hpre : Promises v o) (a : o.Ans) :
    Recorded ((machine Q).handle o s a).2 w := by
  intro l resultRef hreq e he htells
  exact (hw l resultRef hreq e he htells).changes hs (handle_changes Q hs (Promises.fresh hpre) a)

/-- The new answer of a step that keeps to `ReadsOwnSuccess`. -/
theorem recorded_answer {p : JobPool} {t : Nat} {ans : ∀ o, interface.Ans o}
    {c : Call interface Request (Except String Response)} {o : Op}
    {k : interface.Res o → Prog interface (Except String Response)}
    (hcond : ReadsOwnSuccess p (.step t ans)) (hc : p.calls[t]? = some c)
    (hrest : c.rest = some (.call o k)) (hs : Sound p.shared) {l : Lease}
    {resultRef : Option String} (hreq : c.request = .complete l resultRef)
    (hpre : Promises ⟨c.request, c.history⟩ o)
    (htells : tellsTrue resultRef ⟨o, ((machine Q).handle o p.shared (ans o)).1⟩ = true) :
    SucceededAs ((machine Q).handle o p.shared (ans o)).2 l := by
  cases o with
  -- a success that is read was recorded under this lease, which the condition asks for
  | get id =>
    obtain rfl := hpre l resultRef hreq
    change tellsTrue resultRef ⟨.get l.job.id, (transaction p.shared (getFailure ans l.job.id)
      (.ok (p.shared.jobs.find? l.job.id), p.shared)).1⟩ = true at htells
    change SucceededAs (transaction p.shared (getFailure ans l.job.id)
      (.ok (p.shared.jobs.find? l.job.id), p.shared)).2 l
    cases hfail : getFailure ans l.job.id with
    | some e => simp [hfail, transaction, tellsTrue] at htells
    | none =>
      cases hj : p.shared.jobs.find? l.job.id with
      | none => simp [hfail, transaction, tellsTrue, hj] at htells
      | some j =>
        simp only [hfail, transaction, tellsTrue, hj, Bool.and_eq_true, decide_eq_true_eq] at htells
        exact hs.succeededAs hj htells.1
          (hcond c l resultRef j hc hreq (Pool.next?_eq hc hrest) hfail hj htells.1 htells.2)
  -- a success that is written carries the token of the lease
  | complete l' resultRef' now =>
    obtain ⟨rfl, rfl⟩ := Request.complete.inj (hreq.symm.trans hpre)
    have hcomplete : ∀ failure : Option String,
        tellsTrue resultRef ⟨.complete l resultRef now, (transaction p.shared failure
          (p.shared.complete l resultRef now)).1⟩ = true →
        SucceededAs (transaction p.shared failure (p.shared.complete l resultRef now)).2 l := by
      intro failure htells
      cases failure with
      | some e => simp [transaction, tellsTrue] at htells
      | none =>
        refine complete_true hs ?_
        simp only [transaction] at htells
        cases hout : (p.shared.complete l resultRef now).1 with
        | error e => simp [hout, tellsTrue] at htells
        | ok b => simpa [hout, tellsTrue] using htells
    exact hcomplete _ htells
  | now | randomUUID | insertJob | claim | heartbeat | fail | cancel => simp [tellsTrue] at htells

theorem fencing_modular (Q : JobQueue) :
    Modular (machine Q) (fun r => (serve Q r).run) discipline Trace.start
      (fun v r => ∀ a, r = .ok a → WasTold v a) Sound Recorded (fun _ _ => True)
      ReadsOwnSuccess where
  body_safe r := serve_returns Q r
  symm _ _ h := h
  spawn _ _ _ _ := ⟨fun _ _ _ e he => by simp [Trace.start] at he, fun _ _ => trivial⟩
  call p t ans c o k hcond hc hrest hs hR hpre := by
    refine ⟨trivial, hs.changes (handle_changes Q hs (Promises.fresh hpre) (ans o)), ?_⟩
    have hold := hR t c hc
    rw [view_eq] at hpre hold ⊢
    intro l resultRef hreq e he htells
    rcases List.mem_append.mp he with he | he
    · exact (hold.handle hs hpre (ans o)) l resultRef hreq e he htells
    · obtain rfl := List.mem_singleton.mp he
      exact recorded_answer hcond hc hrest hs hreq hpre htells
  frame s v o a w hs _ hpre hw _ := ⟨hw.handle hs hpre a, trivial⟩

/-- Workers are told the truth in every run that keeps to the condition. -/
theorem toldTruth_of_meets {es : List (Event interface Request)}
    (h : Pool.Meets (machine Q) (fun r => (serve Q r).run) ReadsOwnSuccess (Pool.start .empty) es) :
    ToldTruth (jobRun Q es) := by
  have hp := (fencing_modular Q).run h (Modular.coherent_start sound_empty)
  intro c hc l resultRef hreq hresult
  have hrest := Call.result?_eq_some.mp hresult
  have htold := hp.safe_mem hc _ hrest (.done true) rfl
  have hrecorded := hp.known_mem hc
  rw [view_eq] at htold hrecorded
  obtain ⟨e, he, htells⟩ := htold l resultRef hreq rfl
  exact hrecorded l resultRef hreq e he htells

/-- Calls other than readings of a job. -/
def noReading : Discipline interface Unit where
  upd _ _ := ()
  pre _ o := ∀ id, o ≠ .get id
  adm _ _ := True

/-- `complete` after it has read its job. -/
def completeFrom (l : Lease) (resultRef : Option String) (existing : Option Job) :
    Queue Bool :=
  match succeededWith existing with
  | some ref => return ref = resultRef
  | none => do
    let now ← now
    Queue.completeTx l resultRef now

/-- What `complete` does with the answer to its reading. -/
def completeAnswer (l : Lease) (resultRef : Option String) :
    Except String (Option Job) → Prog interface (Except String Response)
  | .ok existing => ExceptT.run do return .done (← completeFrom l resultRef existing)
  | .error e => .pure (.error e)

theorem completeAnswer_returns (l : Lease) (resultRef : Option String)
    (r : Except String (Option Job)) :
    Task.Returns noReading (fun _ _ => True) (ExceptT.mk (completeAnswer l resultRef r)) () := by
  cases r with
  | error e => exact fun _ _ => trivial
  | ok existing =>
    refine Task.returns_bind.mpr (Task.Returns.mono (Q := fun _ _ => True) ?_ fun _ _ _ =>
      Task.returns_pure.mpr trivial)
    unfold completeFrom
    split
    · exact Task.returns_pure.mpr trivial
    · refine Task.returns_bind.mpr (Task.returns_bind.mpr ⟨fun id => Op.noConfusion, fun x _ => ?_⟩)
      rintro _ - i -
      exact ⟨fun id => Op.noConfusion, fun _ _ _ _ => trivial⟩

/-- A success with the same result is what `complete` returns at once. -/
theorem completeAnswer_of_succeeded {l : Lease} {resultRef : Option String} {j : Job}
    (hstatus : j.status = .succeeded) (hresult : j.resultRef = resultRef) :
    completeAnswer l resultRef (.ok (some j)) = .pure (.ok (.done true)) := by
  have hread : succeededWith (some j) = some resultRef := by
    simp [succeededWith, hstatus, hresult]
  have hfrom : completeFrom l resultRef (some j) = pure true := by
    simp [completeFrom, hread]
  rw [completeAnswer, hfrom]
  rfl

/-- `complete` reads its job in its first call. -/
theorem complete_body {l : Lease} {resultRef : Option String}
    (hvalid : validResult resultRef = .ok ()) :
    (serve Q (.complete l resultRef)).run = .call (.get l.job.id) (completeAnswer l resultRef) := by
  simp only [serve, complete, hvalid]
  change Prog.call (I := interface) (.get l.job.id) _ = _
  congr 1
  funext r
  cases r with
  | error e => rfl
  | ok existing => rfl

/-- What is left of `complete` when it reads its job. -/
theorem complete_reading {l : Lease} {resultRef : Option String} {h : List (Entry interface)}
    {id : String} {k : Except String (Option Job) → Prog interface (Except String Response)}
    (hreach : (serve Q (.complete l resultRef)).run.Reaches h (.call (.get id) k)) :
    k = completeAnswer l resultRef := by
  cases hvalid : validResult resultRef with
  | error e =>
    have hbody : (serve Q (.complete l resultRef)).run = .pure (.error e) := by
      simp only [serve, complete, hvalid]
      rfl
    have hend := hreach.residual (S := fun q => q = .pure (.error e)) hbody fun _ _ _ h => by cases h
    cases hend
  | ok u =>
    -- the row is read once, as the first thing
    have hrest := hreach.residual (S := fun q =>
        q = .call (.get l.job.id) (completeAnswer l resultRef) ∨ 
          Task.Returns noReading (fun _ _ => True) (ExceptT.mk q) ())
      (.inl (complete_body hvalid)) (by
        rintro o k r (heq | hk)
        · cases heq
          exact .inr (completeAnswer_returns l resultRef r)
        · exact .inr (hk.2 r trivial))
    rcases hrest with heq | hk
    · cases heq
      rfl
    · exact absurd rfl (hk.1 id)

/-- If workers are told the truth after every step, every step keeps to the condition. -/
theorem readsOwnSuccess_of_toldTruth {es : List (Event interface Request)}
    {e : Event interface Request} (h : ToldTruth (jobRun Q (es ++ [e]))) :
    ReadsOwnSuccess (jobRun Q es) e := by
  cases e with
  | spawn | kill => trivial
  | step t ans =>
    intro c l resultRef j hc hreq hnext hfail hj hstatus hresult
    obtain ⟨c', k, hc', hrest⟩ := Pool.exists_of_next? hnext
    obtain rfl := Option.some_inj.mp (hc.symm.trans hc')
    have hreplayed : Pool.Replayed (fun r => (serve Q r).run) (jobRun Q es) :=
      Pool.replayed_run JobStore.empty es
    have hreach := hreplayed t c _ hc hrest
    rw [hreq] at hreach
    have hk := complete_reading hreach
    -- the step ends the body, and leaves the tables alone
    have hhandle : (machine Q).handle (.get l.job.id) (jobRun Q es).shared (ans (.get l.job.id)) =
        (.ok (some j), (jobRun Q es).shared) := by
      change transaction (jobRun Q es).shared (getFailure ans l.job.id)
        (.ok ((jobRun Q es).shared.jobs.find? l.job.id), (jobRun Q es).shared) = _
      rw [hfail, hj]
      rfl
    have hstep : jobRun Q (es ++ [.step t ans]) =
        ⟨(jobRun Q es).shared, (jobRun Q es).calls.set t
          (c.advance (.get l.job.id) k (.ok (some j)))⟩ := by
      rw [jobRun, Pool.run_append]
      change Pool.step (machine Q) (jobRun Q es) t ans = _
      simp only [Pool.step, hc, hrest, hhandle]
    rw [hstep] at h
    have hlt : t < (jobRun Q es).calls.length := (List.getElem?_eq_some_iff.mp hc).1
    have htruth := h _ (List.mem_set hlt _) l resultRef hreq (by
      rw [Call.result?_eq_some]
      change some (k (.ok (some j))) = _
      rw [hk, completeAnswer_of_succeeded hstatus hresult])
    exact (coherent_jobRun es).shared.1.token_of_succeededAs htruth hj

/-- **Workers are told the truth** in every state of a run iff at no step a worker whose lease is
another one reads its job as succeeded with the result it reports itself: then whoever is told
that its completion took effect holds the lease of the one attempt recorded as succeeded. -/
theorem completion_is_own_iff (Q : JobQueue) (es : List (Event interface Request)) :
    (∀ es', es' <+: es → ToldTruth (jobRun Q es')) ↔
      Pool.Meets (machine Q) (fun r => (serve Q r).run) ReadsOwnSuccess (Pool.start .empty) es := by
  constructor
  · intro h
    refine Pool.meets_of_forall_split fun before e after heq => ?_
    exact readsOwnSuccess_of_toldTruth (h (before ++ [e]) ⟨after, by simp [heq]⟩)
  · rintro h es' ⟨after, rfl⟩
    exact toldTruth_of_meets (Pool.meets_append.mp h).1

/-! ### A stale worker -/

def sampleQueue : JobQueue where
  schemas _ := some fun _ => .ok "null"
  retryDelay _ _ _ _ := .ofInt 0

/-- Nothing fails, and the clock shows `now`. -/
def sampleAnswer (now : Int) : ∀ o, interface.Ans o
  | .now => JsNumber.ofInt now
  | .randomUUID => "uuid"
  | .fail _ _ _ => ((none : Option String), JsNumber.ofInt 0)
  | .get _ | .insertJob _ | .claim _ _ _ | .heartbeat _ _ _ | .complete _ _ _ | .cancel _ _ =>
    (none : Option String)

/-- The job as `worker` claimed it at `now`, for 100 milliseconds. -/
def sampleLease (worker : String) (now : Int) (token : Nat) (error : Option String) : Lease where
  job := {
    id := "job", type := "type", payloadJson := "null", status := .running, scheduledAt := 1000
    attemptCount := token, maxAttempts := 3, idempotencyKey := none, backoffMs := 1000
    jitter := .ofInt 0, workerId := some worker, fencingToken := token
    leaseExpiresAt := some (now + 100), error, createdAt := 1000, updatedAt := now }
  workerId := worker
  fencingToken := token
  leaseExpiresAt := now + 100

def firstLease : Lease := sampleLease "worker-a" 1000 1 none

def secondLease : Lease := sampleLease "worker-b" 1201 2 (some "Lease expired")

/-- A job is claimed by one worker, claimed again by another one after the lease ran out, and
completed by the second one without a result. Then the first one completes it as well. -/
def staleEvents : List (Event interface Request) :=
  [.spawn (.enqueue "type" .null { id := some "job" }), .step 0 (sampleAnswer 1000),
    .step 0 (sampleAnswer 1000),
    .spawn (.claim "worker-a" (.ofInt 100)), .step 1 (sampleAnswer 1000),
    .step 1 (sampleAnswer 1000),
    .spawn (.claim "worker-b" (.ofInt 100)), .step 2 (sampleAnswer 1201),
    .step 2 (sampleAnswer 1201),
    .spawn (.complete secondLease none), .step 3 (sampleAnswer 1202), .step 3 (sampleAnswer 1202),
    .step 3 (sampleAnswer 1202),
    .spawn (.complete firstLease none), .step 4 (sampleAnswer 1203)]

/-- Both workers are told that their completion took effect. -/
theorem stale_completion_confirmed :
    ((jobRun sampleQueue staleEvents).calls.map Call.result?).tail =
      [some (.ok (.lease (some firstLease))), some (.ok (.lease (some secondLease))),
        some (.ok (.done true)), some (.ok (.done true))] ∧
    ¬ SucceededAs (jobRun sampleQueue staleEvents).shared firstLease ∧
    ¬ ToldTruth (jobRun sampleQueue staleEvents) := by
  have hstale : ¬ SucceededAs (jobRun sampleQueue staleEvents).shared firstLease := by
    decide
  refine ⟨by decide, hstale, fun htruth => hstale ?_⟩
  have hrequest : (jobRun sampleQueue staleEvents).calls[4]?.map Call.request =
      some (.complete firstLease none) := rfl
  have hresult : (jobRun sampleQueue staleEvents).calls[4]?.bind Call.result? =
      some (.ok (.done true)) := by decide
  obtain ⟨c, hc, hreq⟩ := Option.map_eq_some_iff.mp hrequest
  rw [hc] at hresult
  exact htruth c (List.mem_of_getElem? hc) firstLease none hreq hresult

end Runs

end AriOs.Autonomy.Jobs
