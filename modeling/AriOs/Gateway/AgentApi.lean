import AriOs.Gateway.MemoryRuns
import Mathlib.Data.List.Induction

/-!
# The agent API

A request starts a run and is answered at once; the run goes on in the background, and its status is
set when it ends. A cancellation is answered when the runtime has carried it out, and sets the
status then. Between these the handlers of other requests run.

## Main results

* `cancelled_after_completion` — a run that is reported completed, then cancelled
-/

namespace AriOs.Gateway.Api

open AriOs.Js AriOs.Storage

/-! ### Requests and answers -/

structure Principal where
  subject : String
  tenantId : String
  scopes : List String

structure RunInput where
  sessionId : String
  input : String

structure PublicRun where
  id : String
  sessionId : String
  status : Status
  createdAt : Int

def publicRun (r : Run) : PublicRun := ⟨r.id, r.sessionId, r.status, r.createdAt⟩

inductive Reply where
  | run (code : Nat) (r : PublicRun)
  | error (code : Nat) (name message : String)

structure Config where
  maxConcurrentRuns : Option Nat
  retention : Nat

/-- The server: the store, the runs whose background task has not ended, and the runs that pending
requests want to cancel. -/
structure Server where
  store : MemoryRunStore
  tasks : List String
  cancels : List String

def start (c : Config) : Server := ⟨.empty c.retention, [], []⟩

/-- What happens. A request comes with the principal it is authenticated as, if it is; a new run
with the id and the time it is given. -/
inductive Event where
  | post (who : Option Principal) (body : RunInput) (key id : String) (now : Int)
  | get (who : Option Principal) (id : String)
  | cancel (who : Option Principal) (id : String)
  /-- the runtime emits an event of a run -/
  | emit (id type : String) (data : JsValue)
  /-- `runtime.start` is fulfilled or rejected -/
  | settle (id : String) (outcome : Except String Unit)
  /-- `runtime.cancel`, which a pending request waits for, is fulfilled or rejected -/
  | cancelled (request : Nat) (outcome : Except String Bool)

def unauthorized : Reply := .error 401 "UNAUTHORIZED" "Authentication required"

def forbidden (message : String) : Reply := .error 403 "FORBIDDEN" message

def notFound : Reply := .error 404 "NOT_FOUND" "Run not found"

def internalError : Reply := .error 500 "INTERNAL_ERROR" "Unexpected server error"

variable (c : Config)

/-- `POST /v1/runs`. -/
def post (s : Server) (who : Principal) (body : RunInput) (key id : String) (now : Int) :
    Server × Reply :=
  if body.sessionId = "" ∨ body.input = "" then
    (s, .error 400 "VALIDATION_ERROR" "Request rejected")
  else if "agent:write" ∉ who.scopes then (s, forbidden "Missing scope")
  else
    match if key = "" then none else s.store.idempotent who.tenantId key with
    | some old => (s, .run 202 (publicRun old))
    | none =>
      if c.maxConcurrentRuns.getD 10 ≤ s.store.active who.tenantId then
        (s, .error 429 "QUOTA_EXCEEDED" "Concurrent run quota exceeded")
      else
        let run : Run := ⟨id, who.tenantId, some who.subject, body.sessionId, .running, now, []⟩
        ({ s with store := s.store.create run (some key), tasks := s.tasks ++ [id] },
          .run 202 (publicRun run))

/-- `GET /v1/runs/:id`. -/
def getRun (s : Server) (who : Principal) (id : String) : Reply :=
  match s.store.get id who.tenantId with
  | some x => .run 200 (publicRun x)
  | none => notFound

/-- `POST /v1/runs/:id/cancel`, up to the call of the runtime. -/
def cancelRun (s : Server) (who : Principal) (id : String) : Server × Option Reply :=
  let admin := "agent:admin" ∈ who.scopes
  if ¬admin ∧ "agent:cancel" ∉ who.scopes then (s, some (forbidden "Missing scope"))
  else
    match s.store.get id who.tenantId with
    | none => (s, some notFound)
    | some x =>
      if ¬admin ∧ x.subject ≠ some who.subject then (s, some (forbidden "Run ownership required"))
      else ({ s with cancels := s.cancels ++ [x.id] }, none)

/-- The rest of the request, when the runtime has cancelled the run. -/
def finishCancel (s : Server) (id : String) : Server × Option Reply :=
  let store := (s.store.setStatus id .cancelled).emit id "cancelled" (.object [])
  ({ s with store }, (store.runs.get id).map fun x => .run 200 (publicRun x))

/-- The background task, when `runtime.start` has settled. -/
def finishTask (s : Server) (id : String) : Except String Unit → Server
  | .ok _ =>
    if (s.store.runs.get id).map Run.status = some .running then
      { s with store := s.store.setStatus id .completed }
    else s
  | .error message =>
    { s with
      store := (s.store.setStatus id .failed).emit id "error"
        (.object [("message", .string message)]) }

/-- What happens, and how it is answered. -/
def handle (s : Server) : Event → Server × Option Reply
  | .post none .. | .get none _ | .cancel none _ => (s, some unauthorized)
  | .post (some who) body key id now =>
    let (s, reply) := post c s who body key id now
    (s, some reply)
  | .get (some who) id => (s, some (getRun s who id))
  | .cancel (some who) id => cancelRun s who id
  | .emit id type data => ({ s with store := s.store.emit id type data }, none)
  | .settle id outcome =>
    if id ∈ s.tasks then (finishTask { s with tasks := s.tasks.erase id } id outcome, none)
    else (s, none)
  | .cancelled request outcome =>
    match s.cancels[request]? with
    | none => (s, none)
    | some id =>
      let s := { s with cancels := s.cancels.eraseIdx request }
      match outcome with
      | .error _ => (s, some internalError)
      | .ok _ => finishCancel s id

def step (s : Server) (e : Event) : Server := (handle c s e).1

def reply (s : Server) (e : Event) : Option Reply := (handle c s e).2

def run (s : Server) (es : List Event) : Server := es.foldl (step c) s

/-! ### What is reported -/

/-- The run and the status that an answer reports. -/
def Reply.report? : Reply → Option (String × Status)
  | .run _ r => some (r.id, r.status)
  | .error .. => none

/-- The statuses that are reported, one after the other. -/
def reports (s : Server) : List Event → List (String × Status)
  | [] => []
  | e :: es => ((reply c s e).bind Reply.report?).toList ++ reports (step c s e) es

/-- A status that ends a run is the one that is reported from then on. -/
def Final (es : List Event) : Prop :=
  (reports c (start c) es).Pairwise fun a b => a.1 = b.1 → a.2 ≠ .running → b.2 = a.2

/-- No run gets the id of another. -/
def newId : Event → Option String
  | .post _ _ _ id _ => some id
  | _ => none

def Fresh (es : List Event) : Prop := (es.filterMap newId).Nodup

instance (es : List Event) : Decidable (Fresh es) := inferInstanceAs (Decidable (List.Nodup _))

def isGet : Event → Bool
  | .get .. => true
  | _ => false

/-- The same events, but for requests that ask for runs. -/
def SameApart (es es' : List Event) : Prop :=
  es.filter (fun e => !isGet e) = es'.filter fun e => !isGet e

/-- The status of a run. -/
def Server.status (s : Server) (id : String) : Option Status :=
  (s.store.runs.get id).map Run.status

/-- A task that fails finds its run running, or failed; a cancellation that is carried out finds it
running, or cancelled. -/
def Fits (s : Server) : Event → Prop
  | .settle id (.error _) => id ∈ s.tasks →
    ∀ status, s.status id = some status → status = .running ∨ status = .failed
  | .cancelled request (.ok _) => ∀ id, s.cancels[request]? = some id →
    ∀ status, s.status id = some status → status = .running ∨ status = .cancelled
  | _ => True

/-- Nothing sets the status of a run that ended in another way. -/
def Undisturbed (s : Server) : List Event → Prop
  | [] => True
  | e :: es => Fits s e ∧ Undisturbed (step c s e) es

/-! ### Who sets a status -/

section Status

variable {c} {s : Server} {id i : String} {status : Status} {es es' : List Event} {e : Event}

/-- The statuses that are kept. -/
def statusIn (store : MemoryRunStore) (id : String) : Option Status :=
  (store.runs.get id).map Run.status

theorem statusIn_emit {store : MemoryRunStore} {type : String} {data : JsValue} :
    statusIn (store.emit id type data) i = statusIn store i := by
  rw [statusIn, MemoryRunStore.emit, MemoryRunStore.get_runs_change]
  split
  · rw [Option.map_map]
    rfl
  · rfl

theorem statusIn_setStatus {store : MemoryRunStore} :
    statusIn (store.setStatus id status) i =
      if id = i then (statusIn store i).map fun _ => status else statusIn store i := by
  rw [statusIn, MemoryRunStore.setStatus, MemoryRunStore.get_runs_change]
  split
  · rw [statusIn, Option.map_map, Option.map_map]
    rfl
  · rfl

theorem status_finishCancel : (finishCancel s id).1.status i =
    if id = i then (s.status i).map fun _ => .cancelled else s.status i := by
  change statusIn ((s.store.setStatus id .cancelled).emit id "cancelled" (.object [])) i = _
  rw [statusIn_emit, statusIn_setStatus]
  rfl

theorem status_finishTask_error {message : String} :
    (finishTask s id (.error message)).status i =
      if id = i then (s.status i).map fun _ => .failed else s.status i := by
  change statusIn ((s.store.setStatus id .failed).emit id "error" _) i = _
  rw [statusIn_emit, statusIn_setStatus]
  rfl

theorem status_finishTask_ok {u : Unit} : (finishTask s id (.ok u)).status i =
    if id = i ∧ s.status i = some .running then some .completed else s.status i := by
  change (if s.status id = some .running then
    ({ s with store := s.store.setStatus id .completed } : Server) else s).status i = _
  by_cases hrunning : s.status id = some .running
  · rw [if_pos hrunning]
    change statusIn (s.store.setStatus id .completed) i = _
    rw [statusIn_setStatus]
    by_cases heq : id = i
    · rw [if_pos heq, if_pos ⟨heq, heq ▸ hrunning⟩]
      change (s.status i).map _ = _
      rw [← heq, hrunning]
      rfl
    · rw [if_neg heq, if_neg fun h => heq h.1]
      rfl
  · rw [if_neg hrunning, if_neg]
    rintro ⟨rfl, h⟩
    exact hrunning h

/-- A request that starts a run changes no other. -/
theorem status_post {who : Principal} {body : RunInput} {key : String} {now : Int} (hi : id ≠ i) :
    (post c s who body key id now).1.status i = s.status i := by
  unfold post
  split
  · rfl
  · split
    · rfl
    · split
      · rfl
      · split
        · rfl
        · unfold Server.status
          dsimp only
          rw [MemoryRunStore.get_runs_create, if_neg hi]

theorem status_cancelRun {who : Principal} : (cancelRun s who id).1.status i = s.status i := by
  unfold cancelRun
  dsimp only
  split
  · rfl
  · split
    · rfl
    · split <;> rfl

/-- The status of a run that is there is set when its task ends and when it is cancelled, and by
nothing else. -/
theorem status_step_cases (hi : newId e ≠ some i) : (step c s e).status i = s.status i ∨
    (∃ u, e = .settle i (.ok u) ∧ s.status i = some .running ∧
      (step c s e).status i = some .completed) ∨
    (∃ message, e = .settle i (.error message) ∧ i ∈ s.tasks ∧
      (step c s e).status i = (s.status i).map fun _ => .failed) ∨
    (∃ request admitted, e = .cancelled request (.ok admitted) ∧ s.cancels[request]? = some i ∧
      (step c s e).status i = (s.status i).map fun _ => .cancelled) := by
  unfold step handle
  cases e with
  | post who body key id now =>
    cases who with
    | none => exact .inl rfl
    | some who => exact .inl (status_post fun h => hi (congrArg some h))
  | get who id => cases who <;> exact .inl rfl
  | cancel who id =>
    cases who with
    | none => exact .inl rfl
    | some who => exact .inl status_cancelRun
  | emit id type data => exact .inl statusIn_emit
  | settle id outcome =>
    dsimp only
    -- the run has a task, or nothing happens
    split
    · next htask =>
      cases outcome with
      | ok u =>
        rw [status_finishTask_ok]
        split
        · next h =>
          obtain ⟨rfl, hrunning⟩ := h
          exact .inr (.inl ⟨u, rfl, hrunning, rfl⟩)
        · exact .inl rfl
      | error message =>
        rw [status_finishTask_error]
        split
        · next heq =>
          subst heq
          exact .inr (.inr (.inl ⟨message, rfl, htask, rfl⟩))
        · exact .inl rfl
    · exact .inl rfl
  | cancelled request outcome =>
    dsimp only
    split
    · exact .inl rfl
    · next id hpending =>
      cases outcome with
      | error message => exact .inl rfl
      | ok admitted =>
        dsimp only
        rw [status_finishCancel]
        split
        · next heq =>
          subst heq
          exact .inr (.inr (.inr ⟨request, admitted, rfl, hpending, rfl⟩))
        · exact .inl rfl

/-- A status that ends a run stays, where the step fits. -/
theorem status_step_of_fits (hi : newId e ≠ some i) (hfits : Fits s e)
    (hstatus : s.status i = some status) (hended : status ≠ .running) :
    (step c s e).status i = some status := by
  rcases @status_step_cases c s i e hi with h | ⟨u, rfl, h, -⟩ | ⟨message, rfl, htask, h⟩ |
    ⟨request, admitted, rfl, hpending, h⟩
  · rw [h, hstatus]
  · rw [hstatus] at h
    exact absurd (Option.some.inj h) hended
  · rw [h, hstatus]
    exact congrArg some ((hfits htask status hstatus).resolve_left hended).symm
  · rw [h, hstatus]
    exact congrArg some ((hfits i hpending status hstatus).resolve_left hended).symm

/-! ### Runs are kept under their ids -/

def Keyed (store : MemoryRunStore) : Prop := ∀ i r, store.runs.get i = some r → r.id = i

theorem Keyed.change {store : MemoryRunStore} {f : Run → Run} (h : Keyed store)
    (hf : ∀ r, (f r).id = r.id) : Keyed (store.change id f) := by
  intro i r hr
  rw [MemoryRunStore.get_runs_change] at hr
  split at hr
  · obtain ⟨r', hr', rfl⟩ := Option.map_eq_some_iff.mp hr
    rw [hf]
    exact h i r' hr'
  · exact h i r hr

theorem Keyed.setStatus {store : MemoryRunStore} (h : Keyed store) :
    Keyed (store.setStatus id status) :=
  h.change fun _ => rfl

theorem Keyed.emit {store : MemoryRunStore} {type : String} {data : JsValue} (h : Keyed store) :
    Keyed (store.emit id type data) :=
  h.change fun _ => rfl

theorem Keyed.create {store : MemoryRunStore} (h : Keyed store) (r : Run) (key : Option String) :
    Keyed (store.create r key) := by
  intro i r' hr'
  rw [MemoryRunStore.get_runs_create] at hr'
  split at hr'
  · next heq =>
    rw [← Option.some.inj hr', heq]
  · exact h i r' hr'

theorem keyed_step (h : Keyed s.store) : Keyed (step c s e).store := by
  unfold step handle
  cases e with
  | post who body key id now =>
    cases who with
    | none => exact h
    | some who =>
      dsimp only
      unfold post
      split
      · exact h
      · split
        · exact h
        · split
          · exact h
          · split
            · exact h
            · exact h.create _ _
  | get who id => cases who <;> exact h
  | cancel who id =>
    cases who with
    | none => exact h
    | some who =>
      dsimp only
      unfold cancelRun
      dsimp only
      split
      · exact h
      · split
        · exact h
        · split <;> exact h
  | emit id type data => exact h.emit
  | settle id outcome =>
    dsimp only
    split
    · cases outcome with
      | ok u =>
        dsimp only [finishTask]
        split
        · exact h.setStatus
        · exact h
      | error message => exact h.setStatus.emit
    · exact h
  | cancelled request outcome =>
    dsimp only
    split
    · exact h
    · cases outcome with
      | error message => exact h
      | ok admitted => exact h.setStatus.emit

theorem keyed_run (h : Keyed s.store) (es : List Event) : Keyed (run c s es).store := by
  induction es generalizing s with
  | nil => exact h
  | cons e es ih => exact ih (keyed_step h)

/-! ### What is reported is the status -/

/-- An answer with a run that is kept reports its status. -/
theorem statusIn_of_report {store : MemoryRunStore} {x : Run} {code : Nat} (h : Keyed store)
    (hx : store.runs.get id = some x)
    (hreport : (Reply.run code (publicRun x)).report? = some (i, status)) :
    statusIn store i = some status := by
  obtain ⟨rfl, rfl⟩ := Prod.mk.inj (Option.some.inj hreport)
  rw [statusIn, publicRun, h id x hx, hx]
  rfl

theorem get_of_idempotent {store : MemoryRunStore} {tenant key : String} {x : Run}
    (h : store.idempotent tenant key = some x) : ∃ id, store.runs.get id = some x := by
  obtain ⟨id, -, hx⟩ := Option.bind_eq_some_iff.mp h
  split at hx
  · exact absurd hx (by simp)
  · exact ⟨id, hx⟩

theorem status_of_post {who : Principal} {body : RunInput} {key : String} {now : Int}
    (h : Keyed s.store)
    (hreport : (post c s who body key id now).2.report? = some (i, status)) :
    (post c s who body key id now).1.status i = some status := by
  unfold post at hreport ⊢
  split at hreport
  · exact absurd hreport (by simp [Reply.report?])
  · next hbody =>
    rw [if_neg hbody]
    split at hreport
    · exact absurd hreport (by simp [Reply.report?, forbidden])
    · next hscope =>
      rw [if_neg hscope]
      split at hreport
      · next old hold =>
        -- the key was used before: what is reported is the run that is stored
        have hold' : s.store.idempotent who.tenantId key = some old := by
          split at hold
          · exact absurd hold (by simp)
          · exact hold
        obtain ⟨id', hx⟩ := get_of_idempotent hold'
        exact statusIn_of_report h hx hreport
      · next hnone =>
        split at hreport
        · exact absurd hreport (by simp [Reply.report?])
        · next hquota =>
          rw [if_neg hquota]
          -- a new run is reported as it was created
          refine @statusIn_of_report id _ _ _ _ _ (h.create _ _) ?_ hreport
          rw [MemoryRunStore.get_runs_create, if_pos rfl]

/-- An answer reports the status after the step. -/
theorem status_of_reply (h : Keyed s.store) {r : Reply} (hreply : reply c s e = some r)
    (hreport : r.report? = some (i, status)) : (step c s e).status i = some status := by
  unfold reply step handle at *
  cases e with
  | post who body key id now =>
    cases who with
    | none =>
      obtain rfl := Option.some.inj hreply
      exact absurd hreport (by simp [Reply.report?, unauthorized])
    | some who =>
      obtain rfl := Option.some.inj hreply
      exact status_of_post h hreport
  -- what is read was stored under the id
  | get who id =>
    cases who with
    | none =>
      obtain rfl := Option.some.inj hreply
      exact absurd hreport (by simp [Reply.report?, unauthorized])
    | some who =>
      obtain rfl := Option.some.inj hreply
      unfold getRun at hreport
      split at hreport
      · next x hx => exact statusIn_of_report h (Option.filter_eq_some_iff.mp hx).1 hreport
      · exact absurd hreport (by simp [Reply.report?, notFound])
  | cancel who id =>
    cases who with
    | none =>
      obtain rfl := Option.some.inj hreply
      exact absurd hreport (by simp [Reply.report?, unauthorized])
    | some who =>
      -- it is answered before the runtime is called only if it is refused
      exfalso
      dsimp only at hreply
      unfold cancelRun at hreply
      dsimp only at hreply
      split at hreply
      · obtain rfl := Option.some.inj hreply
        simp [Reply.report?, forbidden] at hreport
      · split at hreply
        · obtain rfl := Option.some.inj hreply
          simp [Reply.report?, notFound] at hreport
        · split at hreply
          · obtain rfl := Option.some.inj hreply
            simp [Reply.report?, forbidden] at hreport
          · simp at hreply
  | emit id type data => simp at hreply
  | settle id outcome =>
    dsimp only at hreply
    split at hreply <;> simp at hreply
  | cancelled request outcome =>
    dsimp only at hreply ⊢
    split at hreply
    · simp at hreply
    · next id hpending =>
      cases outcome with
      | error message =>
        obtain rfl := Option.some.inj hreply
        exact absurd hreport (by simp [Reply.report?, internalError])
      | ok admitted =>
        obtain ⟨x, hx, rfl⟩ := Option.map_eq_some_iff.mp hreply
        exact statusIn_of_report (Keyed.emit (Keyed.setStatus h)) hx hreport

/-! ### Runs of the server -/

/-- The runs that are there have none of the ids that come. -/
def Ahead (s : Server) (es : List Event) : Prop :=
  (∀ i, (s.status i).isSome → i ∉ es.filterMap newId) ∧ Fresh es

theorem Ahead.not_newId (h : Ahead s (e :: es)) (hi : (s.status i).isSome) : newId e ≠ some i := by
  intro heq
  have hnot := h.1 i hi
  rw [List.filterMap_cons_some heq] at hnot
  exact hnot List.mem_cons_self

theorem Ahead.step (h : Ahead s (e :: es)) : Ahead (step c s e) es := by
  obtain ⟨hids, hfresh⟩ := h
  constructor
  · intro i hi hmem
    -- the new run takes the id that was set aside for it
    by_cases hnew : newId e = some i
    · rw [Fresh, List.filterMap_cons_some hnew] at hfresh
      exact (List.nodup_cons.mp hfresh).1 hmem
    · have hthere : (s.status i).isSome := by
        rcases @status_step_cases c s i e hnew with h | ⟨u, -, h, -⟩ | ⟨m, -, -, h⟩ | ⟨n, a, -, -, h⟩
        · rwa [h] at hi
        · rw [h]
          rfl
        · rwa [h, Option.isSome_map] at hi
        · rwa [h, Option.isSome_map] at hi
      refine hids i hthere ?_
      cases hid : newId e with
      | none => rwa [List.filterMap_cons_none hid]
      | some id =>
        rw [List.filterMap_cons_some hid]
        exact List.mem_cons_of_mem id hmem
  · cases hid : newId e with
    | none => rwa [Fresh, List.filterMap_cons_none hid] at hfresh
    | some id =>
      rw [Fresh, List.filterMap_cons_some hid] at hfresh
      exact (List.nodup_cons.mp hfresh).2

theorem mem_report (h : Keyed s.store)
    (hmem : (i, status) ∈ ((reply c s e).bind Reply.report?).toList) :
    (step c s e).status i = some status := by
  obtain ⟨r, hreply, hreport⟩ := Option.bind_eq_some_iff.mp (Option.mem_toList.mp hmem)
  exact status_of_reply h hreply hreport

/-- A status that ends a run is the only one that is reported of it. -/
theorem eq_of_mem_reports (hkeyed : Keyed s.store) (hahead : Ahead s es)
    (hundisturbed : Undisturbed c s es) (hstatus : s.status i = some status)
    (hended : status ≠ .running) {status' : Status} (hmem : (i, status') ∈ reports c s es) :
    status' = status := by
  induction es generalizing s with
  | nil => exact absurd hmem List.not_mem_nil
  | cons e es ih =>
    have hstep := status_step_of_fits (c := c) (hahead.not_newId (by rw [hstatus]; rfl))
      hundisturbed.1 hstatus hended
    rcases List.mem_append.mp hmem with hmem | hmem
    · exact Option.some.inj ((mem_report hkeyed hmem).symm.trans hstep)
    · exact ih (keyed_step hkeyed) hahead.step hundisturbed.2 hstep hmem

theorem pairwise_reports (hkeyed : Keyed s.store) (hahead : Ahead s es)
    (hundisturbed : Undisturbed c s es) :
    (reports c s es).Pairwise fun a b => a.1 = b.1 → a.2 ≠ .running → b.2 = a.2 := by
  induction es generalizing s with
  | nil => exact .nil
  | cons e es ih =>
    refine List.pairwise_append.mpr
      ⟨?_, ih (keyed_step hkeyed) hahead.step hundisturbed.2, fun a ha b hb heq hended => ?_⟩
    · cases (reply c s e).bind Reply.report? with
      | none => exact .nil
      | some a => exact List.pairwise_singleton _ a
    · refine eq_of_mem_reports (keyed_step hkeyed) hahead.step hundisturbed.2
        (mem_report hkeyed ha) hended ?_
      rw [heq]
      exact hb

/-! ### Asking for a run -/

theorem reports_append (es₁ es₂ : List Event) :
    reports c s (es₁ ++ es₂) = reports c s es₁ ++ reports c (run c s es₁) es₂ := by
  induction es₁ generalizing s with
  | nil => rfl
  | cons e es₁ ih =>
    rw [List.cons_append, reports, reports, ih, List.append_assoc]
    rfl

theorem step_of_isGet (h : isGet e = true) : step c s e = s := by
  cases e with
  | get who id => cases who <;> rfl
  | post | cancel | emit | settle | cancelled => simp [isGet] at h

theorem fits_of_isGet (h : isGet e = true) : Fits s e := by
  cases e with
  | get who id => trivial
  | post | cancel | emit | settle | cancelled => simp [isGet] at h

/-- Asking for runs disturbs nothing. -/
theorem undisturbed_filter :
    Undisturbed c s (es.filter fun e => !isGet e) ↔ Undisturbed c s es := by
  induction es generalizing s with
  | nil => exact Iff.rfl
  | cons e es ih =>
    by_cases hget : isGet e = true
    · rw [List.filter_cons_of_neg (by simp [hget]), ih, Undisturbed, step_of_isGet hget]
      exact (and_iff_right (fits_of_isGet hget)).symm
    · rw [List.filter_cons_of_pos (by simp [hget]), Undisturbed, Undisturbed, ih]

/-- A run can be asked for. -/
theorem exists_get (hkeyed : Keyed s.store) (hstatus : s.status i = some status) :
    ∃ e, isGet e = true ∧ ((reply c s e).bind Reply.report?).toList = [(i, status)] := by
  obtain ⟨r, hr, rfl⟩ := Option.map_eq_some_iff.mp hstatus
  refine ⟨.get (some ⟨"", r.tenantId, []⟩) i, rfl, ?_⟩
  have hget : s.store.get i r.tenantId = some r := by
    rw [MemoryRunStore.get, hr]
    simp
  simp only [reply, handle, getRun, hget, Option.bind_some, Reply.report?, publicRun,
    hkeyed i r hr, Option.toList_some]

theorem exists_not_fits (h : ¬Undisturbed c s es) :
    ∃ es₁ e es₂, es = es₁ ++ e :: es₂ ∧ ¬Fits (run c s es₁) e := by
  induction es generalizing s with
  | nil => exact absurd trivial h
  | cons e es ih =>
    rw [Undisturbed, not_and_or] at h
    rcases h with h | h
    · exact ⟨[], e, es, rfl, h⟩
    · obtain ⟨es₁, e', es₂, rfl, hfits⟩ := ih h
      exact ⟨e :: es₁, e', es₂, rfl, hfits⟩

/-- A step that does not fit sets the status of a run that ended. -/
theorem exists_set (h : ¬Fits s e) : isGet e = false ∧ ∃ i status status',
    s.status i = some status ∧ status ≠ .running ∧ (step c s e).status i = some status' ∧
      status' ≠ status := by
  cases e with
  | post | get | cancel | emit => exact absurd trivial h
  | settle id outcome =>
    cases outcome with
    | ok u => exact absurd trivial h
    | error message =>
      simp only [Fits, not_forall, not_or] at h
      -- a task that fails after its run was ended otherwise
      obtain ⟨htask, status, hstatus, hrunning, hfailed⟩ := h
      refine ⟨rfl, id, status, .failed, hstatus, hrunning, ?_, Ne.symm hfailed⟩
      simp only [step, handle, if_pos htask]
      rw [status_finishTask_error, if_pos rfl]
      change (s.status id).map _ = _
      rw [hstatus]
      rfl
  | cancelled request outcome =>
    cases outcome with
    | error message => exact absurd trivial h
    | ok admitted =>
      simp only [Fits, not_forall, not_or] at h
      -- a cancellation that is admitted after its run was ended otherwise
      obtain ⟨id, hpending, status, hstatus, hrunning, hcancelled⟩ := h
      refine ⟨rfl, id, status, .cancelled, hstatus, hrunning, ?_, Ne.symm hcancelled⟩
      simp only [step, handle, hpending]
      rw [status_finishCancel, if_pos rfl]
      change (s.status id).map _ = _
      rw [hstatus]
      rfl

theorem keyed_start : Keyed (start c).store := fun i r hr =>
  absurd hr (by simp [start, MemoryRunStore.empty, RunStore.empty])

theorem fresh_of_sameApart (h : SameApart es es') (hfresh : Fresh es) : Fresh es' := by
  have hids : ∀ es : List Event,
      (es.filter fun e => !isGet e).filterMap newId = es.filterMap newId := by
    intro es
    induction es with
    | nil => rfl
    | cons e es ih =>
      cases e with
      | get who id => rw [List.filter_cons_of_neg (by simp [isGet]), ih]; rfl
      | post | cancel | emit | settle | cancelled =>
        rw [List.filter_cons_of_pos (by simp [isGet]), List.filterMap_cons, List.filterMap_cons, ih]
  rw [Fresh, ← hids es', ← h, hids es]
  exact hfresh

/-- However often runs are asked for in between, a status that ends a run is reported from then on,
exactly if no task fails after its run ended in another way and no cancellation is carried out after
that. -/
theorem final_iff (hfresh : Fresh es) :
    (∀ es', SameApart es es' → Final c es') ↔ Undisturbed c (start c) es := by
  constructor
  · intro hfinal
    by_contra hdisturbed
    obtain ⟨es₁, e, es₂, rfl, hfits⟩ := exists_not_fits hdisturbed
    obtain ⟨hget, i, status, status', hstatus, hended, hset, hne⟩ := exists_set (c := c) hfits
    -- ask for the run before and after the step
    have hkeyed := @keyed_run c (start c) keyed_start es₁
    obtain ⟨before, hbefore, hreport⟩ := exists_get (c := c) hkeyed hstatus
    obtain ⟨after, hafter, hreport'⟩ := exists_get (c := c) (keyed_step hkeyed) hset
    have hpairwise := hfinal (es₁ ++ before :: e :: after :: es₂) (by
      simp [SameApart, hbefore, hafter, hget])
    rw [Final, reports_append] at hpairwise
    have htail := (List.pairwise_append.mp hpairwise).2.1
    rw [reports, hreport, step_of_isGet hbefore, reports, reports, hreport'] at htail
    have hrel := (List.pairwise_append.mp htail).2.2 (i, status) (List.mem_singleton.mpr rfl)
      (i, status')
      (List.mem_append_right _ (List.mem_append_left _ (List.mem_singleton.mpr rfl)))
    exact hne (hrel rfl hended)
  · intro hundisturbed es' hsame
    have hundisturbed' : Undisturbed c (start c) es' := by
      rw [← undisturbed_filter, ← hsame, undisturbed_filter]
      exact hundisturbed
    refine pairwise_reports keyed_start ⟨fun i hi => absurd hi ?_, fresh_of_sameApart hsame hfresh⟩
      hundisturbed'
    simp [Server.status, start, MemoryRunStore.empty, RunStore.empty]

end Status

/-! ### A cancellation after the run -/

section Sample

def sampleConfig : Config := ⟨none, 100⟩

def alice : Principal := ⟨"alice", "acme", ["agent:write", "agent:cancel"]⟩

def started : Event := .post (some alice) ⟨"s", "hello"⟩ "" "r1" 0

/-- A run that is completed and reported, and a cancellation that is carried out after that. -/
def cancelledLate : List Event :=
  [started, .settle "r1" (.ok ()), .get (some alice) "r1", .cancel (some alice) "r1",
    .cancelled 0 (.ok false)]

theorem cancelled_after_completion :
    Fresh cancelledLate ∧ reports sampleConfig (start sampleConfig) cancelledLate =
      [("r1", .running), ("r1", .completed), ("r1", .cancelled)] ∧
    ¬ Final sampleConfig cancelledLate := by
  have hreports : reports sampleConfig (start sampleConfig) cancelledLate =
      [("r1", .running), ("r1", .completed), ("r1", .cancelled)] := by decide
  refine ⟨by decide, hreports, fun hfinal => ?_⟩
  rw [Final, hreports] at hfinal
  exact absurd hfinal (by decide)

/-- A run that is cancelled while it runs, and then ends. -/
def cancelledInTime : List Event :=
  [started, .cancel (some alice) "r1", .cancelled 0 (.ok true), .settle "r1" (.ok ())]

theorem final_cancelledInTime :
    Undisturbed sampleConfig (start sampleConfig) cancelledInTime ∧
      ∀ es', SameApart cancelledInTime es' → Final sampleConfig es' := by
  have hundisturbed : Undisturbed sampleConfig (start sampleConfig) cancelledInTime := by
    refine ⟨trivial, trivial, fun id hid status hstatus => ?_, trivial, trivial⟩
    obtain rfl : "r1" = id := Option.some.inj hid
    exact .inl (Option.some.inj hstatus).symm
  exact ⟨hundisturbed, (@final_iff sampleConfig cancelledInTime (by decide)).mpr hundisturbed⟩

end Sample

end AriOs.Gateway.Api
