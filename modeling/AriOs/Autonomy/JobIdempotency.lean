import AriOs.Autonomy.JobIdentity
import AriOs.Autonomy.JobFencing
import AriOs.Js.Canonical
import AriOs.Js.Stringify

/-!
# Idempotent enqueueing

A job that is enqueued with an idempotency key is there once. Whoever enqueues with the same key
again gets that job, whatever has become of it, if type and payload are the same; otherwise it
gets an error, and nothing has changed. Payloads are compared by their canonical text, so the
order of keys does not matter.

A payload goes through the schema that is registered for its type where the call is made. Each
request comes with these schemas, as processes and moments may differ in them.
-/

namespace AriOs.Autonomy.Jobs

open AriOs.Async AriOs.Js AriOs.Storage

/-! ### Payloads -/

/-- A schema: what it makes of a payload is a value of the source language, whose objects have
each key once. -/
structure JobSchema where
  safeParse : JsValue → Except String JsValue
  distinct : ∀ payload data, safeParse payload = .ok data → data.Distinct

/-- `canonical`. -/
def canonical (j : Stringify) (v : JsValue) : Except String String := canonicalText MAX_TEXT j v

/-- How `enqueue` gets from a payload to the text it stores. -/
def JobSchema.read (j : Stringify) (schema : JobSchema) (payload : JsValue) :
    Except String String :=
  match schema.safeParse payload with
  | .error message => .error ("Invalid job payload: " ++ message)
  | .ok data => canonical j data

theorem JobSchema.read_eq {j : Stringify} {schema : JobSchema} {payload data : JsValue}
    (h : schema.safeParse payload = .ok data) : schema.read j payload = canonical j data := by
  rw [JobSchema.read, h]

/-! ### Runs -/

/-- What the host contributes: how it writes texts and numbers, and its arithmetic. -/
structure QueueHost where
  json : Stringify
  retryDelay : (backoffMs : Int) → (attemptCount : Nat) → (jitter random : JsNumber) → JsNumber

/-- A request, with the schemas that are registered where it is made. -/
structure Submission where
  schemas : String → Option JobSchema
  request : Request

variable {H : QueueHost}

def Submission.queue (H : QueueHost) (x : Submission) : JobQueue where
  schemas type := (x.schemas type).map (JobSchema.read H.json)
  retryDelay := H.retryDelay

def Submission.body (H : QueueHost) (x : Submission) : Prog interface (Except String Response) :=
  (serve (x.queue H) x.request).run

def QueueHost.machine (H : QueueHost) : Machine interface JobStore :=
  Jobs.machine ⟨fun _ => none, H.retryDelay⟩

abbrev SubmissionPool := Pool interface JobStore Submission (Except String Response)

abbrev SubmissionCall := Call interface Submission (Except String Response)

/-- Any number of callers, interleaved in any way, from an empty store. -/
def queueRun (H : QueueHost) (es : List (Event interface Submission)) : SubmissionPool :=
  (Pool.start .empty).run H.machine (Submission.body H) es

/-- The request enqueues with this key, and this is what its payload is read as. -/
def Submission.Asks (x : Submission) (key type : String) (data : JsValue) : Prop :=
  ∃ payload o schema, x.request = .enqueue type payload o ∧ o.idempotencyKey = some key ∧
    x.schemas type = some schema ∧ schema.safeParse payload = .ok data

/-- The row is the one a request enqueues. -/
def Submission.Makes (H : QueueHost) (x : Submission) (row : Job) : Prop :=
  ∃ payload o schema, x.request = .enqueue row.type payload o ∧
    o.idempotencyKey = row.idempotencyKey ∧ x.schemas row.type = some schema ∧
    schema.read H.json payload = .ok row.payloadJson

/-- The row a request makes is what it asks for. -/
theorem Submission.Asks.row {x : Submission} {key type : String} {data : JsValue} {row : Job}
    (h : x.Asks key type data) (hrow : x.Makes H row) :
    row.idempotencyKey = some key ∧ row.type = type ∧
      canonical H.json data = .ok row.payloadJson := by
  obtain ⟨payload, o, schema, hreq, hkey, hschema, hparse⟩ := h
  obtain ⟨payload', o', schema', hreq', hkey', hschema', hread⟩ := hrow
  obtain ⟨rfl, rfl, rfl⟩ := Request.enqueue.inj (hreq.symm.trans hreq')
  obtain rfl := Option.some.inj (hschema.symm.trans hschema')
  exact ⟨hkey'.symm.trans hkey, rfl, (JobSchema.read_eq hparse).symm.trans hread⟩

theorem Submission.Asks.distinct {x : Submission} {key type : String} {data : JsValue}
    (h : x.Asks key type data) : data.Distinct := by
  obtain ⟨payload, o, schema, -, -, -, hparse⟩ := h
  exact schema.distinct payload data hparse

/-! ### The body of `enqueue` -/

/-- A call that only reads the clock, or draws an id. -/
def Quiet (o : Op) : Prop := o = .now ∨ o = .randomUUID

/-- A body that makes quiet calls, and may end with a transaction: this makes the row the request
asks for, and its outcome, through `g`, is that of the body. -/
def EndsInserting (H : QueueHost) (x : Submission) {α : Type}
    (g : Except String Job → Except String α) : Prog interface (Except String α) → Prop
  | .pure _ => True
  | .call (.insertJob row) k => x.Makes H row ∧ ∀ r : Except String Job, k r = .pure (g r)
  | .call .now k => ∀ r : JsNumber, EndsInserting H x g (k r)
  | .call .randomUUID k => ∀ r : String, EndsInserting H x g (k r)
  | .call _ _ => False

section Body

variable {x : Submission} {α β : Type}

theorem endsInserting_bind {g : Except String Job → Except String β} {y : Queue α}
    {f : α → Queue β} (hy : Task.Only Quiet y) (hf : ∀ a, EndsInserting H x g (f a).run) :
    EndsInserting H x g (y >>= f).run := by
  have hp : y.run.Only Quiet := hy
  rw [ExceptT.run_bind, Prog.bind_eq]
  generalize y.run = p at hp
  induction p with
  | pure r =>
    cases r with
    | ok a => exact hf a
    | error e => trivial
  | call o k ih =>
    rcases hp.1 with rfl | rfl
    · exact fun r => ih r (hp.2 r)
    · exact fun r => ih r (hp.2 r)

theorem endsInserting_check {g : Except String Job → Except String β} {r : Except String α}
    {f : α → Queue β} (h : ∀ a, r = .ok a → EndsInserting H x g (f a).run) :
    EndsInserting H x g (Queue.check r >>= f).run := by
  cases r with
  | ok a => exact h a rfl
  | error e => trivial

theorem endsInserting_map {y : Queue Job} (f : Job → α) (h : EndsInserting H x id y.run) :
    EndsInserting H x (Except.map f) (do return f (← y) : Queue α).run := by
  rw [ExceptT.run_bind, Prog.bind_eq]
  generalize y.run = p at h
  induction p with
  | pure r => cases r <;> trivial
  | call o k ih =>
    cases o with
    | now | randomUUID => exact fun r => ih r (h r)
    | insertJob row =>
      refine ⟨h.1, fun r => ?_⟩
      have hend : k r = .pure r := h.2 r
      change (k r).bind _ = _
      rw [hend]
      cases r <;> rfl
    | get | claim | heartbeat | complete | fail | cancel => exact h.elim

theorem only_now : Task.Only Quiet now :=
  ⟨.inl rfl, fun r => by cases (JsValue.number r).safeInteger?.filter fun i => 0 ≤ i <;> trivial⟩

theorem only_newId (id : Option String) : Task.Only Quiet (newId id) := by
  cases id with
  | some id => trivial
  | none => exact ⟨.inr rfl, fun _ => trivial⟩

/-- `enqueue` makes the row that is asked for, last. -/
theorem endsInserting_enqueue {type : String} {payload : JsValue} {o : EnqueueOptions}
    (hreq : x.request = .enqueue type payload o) :
    EndsInserting H x id (enqueue (x.queue H) type payload o).run := by
  unfold enqueue
  cases hschema : x.schemas type with
  | none =>
    simp only [Submission.queue, hschema]
    trivial
  | some schema =>
    have hqueue : (x.queue H).schemas type = some (schema.read H.json) :=
      congrArg (Option.map (JobSchema.read H.json)) hschema
    rw [hqueue]
    refine endsInserting_check fun read hr => ?_
    obtain rfl := Except.ok.inj hr
    refine endsInserting_check fun payloadJson hread => ?_
    refine endsInserting_bind only_now fun now => ?_
    refine endsInserting_bind (only_newId o.id) fun id => ?_
    refine endsInserting_check fun _ _ => endsInserting_check fun _ _ => ?_
    refine endsInserting_check fun opts _ => ?_
    exact ⟨⟨payload, o, schema, hreq, rfl, hschema, hread⟩, fun _ => rfl⟩

/-- A call that enqueues nothing. -/
def NoInsert (o : Op) : Prop := ∀ row, o ≠ .insertJob row

/-- Every operation but `enqueue` enqueues nothing. -/
theorem serve_only {Q : JobQueue} {r : Request}
    (hr : ∀ type payload o, r ≠ .enqueue type payload o) : Task.Only NoInsert (serve Q r) := by
  -- checks ask nothing of the database
  have hcheck : ∀ {α : Type} (r : Except String α), Task.Only NoInsert (Queue.check r) :=
    fun r => Task.only_ofExcept r
  have hnow : Task.Only NoInsert now :=
    Task.Only.bind (Task.only_total fun _ => Op.noConfusion) fun _ => hcheck _
  cases r with
  | enqueue type payload o => exact absurd rfl (hr type payload o)
  | claim workerId leaseMs =>
    refine Task.Only.bind ?_ fun _ => Task.only_pure _
    refine (hcheck _).bind fun _ => (hcheck _).bind fun _ => hnow.bind fun _ => ?_
    exact (hcheck _).bind fun _ => ⟨fun _ => Op.noConfusion, fun _ => trivial⟩
  | heartbeat l leaseMs =>
    refine Task.Only.bind ?_ fun _ => Task.only_pure _
    refine (hcheck _).bind fun _ => hnow.bind fun _ => (hcheck _).bind fun _ => ?_
    exact ⟨fun _ => Op.noConfusion, fun _ => trivial⟩
  | complete l resultRef =>
    refine Task.Only.bind ?_ fun _ => Task.only_pure _
    refine (hcheck _).bind fun _ => Task.Only.bind
      ⟨fun _ => Op.noConfusion, fun _ => trivial⟩ fun existing => ?_
    split
    · exact Task.only_pure _
    · exact hnow.bind fun _ => ⟨fun _ => Op.noConfusion, fun _ => trivial⟩
  | fail l error =>
    refine Task.Only.bind ?_ fun _ => Task.only_pure _
    exact (hcheck _).bind fun _ => hnow.bind fun _ => ⟨fun _ => Op.noConfusion, fun _ => trivial⟩
  | cancel id =>
    refine Task.Only.bind ?_ fun _ => Task.only_pure _
    exact hnow.bind fun _ => ⟨fun _ => Op.noConfusion, fun _ => trivial⟩

/-- Whatever is enqueued is what the request asks for. -/
def EnqueuePromise (H : QueueHost) (v : Trace interface Submission) : Op → Prop
  | .insertJob row => v.request.Makes H row
  | _ => True

def submissions (H : QueueHost) : Discipline interface (Trace interface Submission) :=
  Discipline.ofTrace (EnqueuePromise H)

theorem EndsInserting.safe {g : Except String Job → Except String α}
    {p : Prog interface (Except String α)} (h : EndsInserting H x g p)
    {v : Trace interface Submission} (hv : v.request = x) :
    p.Safe (submissions H) (fun _ _ => True) v := by
  induction p generalizing v with
  | pure r => trivial
  | call o k ih =>
    cases o with
    | now | randomUUID => exact ⟨trivial, fun r _ => ih r (h r) hv⟩
    | insertJob row =>
      subst hv
      refine ⟨h.1, fun r _ => ?_⟩
      rw [h.2 r]
      trivial
    | get | claim | heartbeat | complete | fail | cancel => exact h.elim

theorem endsInserting_body {type : String} {payload : JsValue} {o : EnqueueOptions}
    (hreq : x.request = .enqueue type payload o) :
    EndsInserting H x (Except.map Response.job) (x.body H) := by
  rw [Submission.body, hreq]
  exact endsInserting_map _ (endsInserting_enqueue hreq)

theorem body_safe (H : QueueHost) (x : Submission) :
    (x.body H).Safe (submissions H) (fun _ _ => True) (Trace.start x) := by
  by_cases hreq : ∃ type payload o, x.request = .enqueue type payload o
  · obtain ⟨type, payload, o, hreq⟩ := hreq
    exact (endsInserting_body hreq).safe rfl
  · have hother : ∀ type payload o, x.request ≠ .enqueue type payload o :=
      fun type payload o h => hreq ⟨type, payload, o, h⟩
    refine Prog.Only.safe (K := fun _ => True) (serve_only hother)
      (fun v o _ ho => ⟨?_, fun _ => trivial⟩) trivial
    cases o with
    | insertJob row => exact absurd rfl (ho row)
    | now | randomUUID | get | claim | heartbeat | complete | fail | cancel => trivial

end Body

/-! ### One job for each key -/

section Keys

variable {s : JobStore}

/-- No two jobs have the same idempotency key. -/
def KeysApart (s : JobStore) : Prop :=
  s.identities.Pairwise fun a b => a.idempotencyKey = b.idempotencyKey → a.idempotencyKey = none

theorem KeysApart.eq (h : KeysApart s) {a b : JobIdentity} {key : String} (ha : a ∈ s.identities)
    (hb : b ∈ s.identities) (hakey : a.idempotencyKey = some key)
    (hbkey : b.idempotencyKey = some key) : a = b := by
  by_contra hne
  have hsymm : Std.Symm fun a b : JobIdentity =>
      a.idempotencyKey = b.idempotencyKey → a.idempotencyKey = none :=
    ⟨fun a b hab heq => heq.trans (hab heq.symm)⟩
  have hnone := List.Pairwise.forall h ha hb hne (hakey.trans hbkey.symm)
  rw [hakey] at hnone
  cases hnone

theorem keysApart_insertJob (h : KeysApart s) (row : Job) : KeysApart (s.insertJob row).2 := by
  rcases insertJob_cases s row with ⟨old, -, -, ⟨-, -, heq⟩ | ⟨-, heq⟩⟩ |
    ⟨hfree, ⟨jobs, hins, heq⟩ | ⟨-, heq⟩⟩
  · rw [heq]
    exact h
  · rw [heq]
    exact h
  · rw [heq, KeysApart, identities_of_insert? hins, List.pairwise_append]
    refine ⟨h, List.pairwise_singleton _ _, fun a ha b hb hkey => ?_⟩
    obtain rfl := List.mem_singleton.mp hb
    by_contra hsome
    exact hfree a ⟨ha, Option.isSome_iff_ne_none.mpr hsome, hkey⟩
  · rw [heq]
    exact h

/-- What an insert answers: a job with the key and the identity that was asked for. -/
theorem identity_of_insertJob {row j : Job} (h : (s.insertJob row).1 = .ok j) :
    (⟨j.id, row.type, row.payloadJson, row.idempotencyKey⟩ : JobIdentity) ∈
      (s.insertJob row).2.identities := by
  rcases insertJob_cases s row with ⟨old, hold, ⟨hmem, -, hkey⟩, ⟨htype, hpayload, heq⟩ | ⟨-, heq⟩⟩ |
    ⟨-, ⟨jobs, hins, heq⟩ | ⟨-, heq⟩⟩
  · rw [heq] at h ⊢
    obtain rfl := Except.ok.inj h
    rw [← htype, ← hpayload, ← hkey]
    exact hmem
  · rw [heq] at h
    cases h
  · rw [heq] at h ⊢
    obtain rfl := Except.ok.inj h
    rw [identities_of_insert? hins]
    exact List.mem_append_right _ (List.mem_singleton.mpr rfl)
  · rw [heq] at h
    cases h

/-- No call takes a job away. -/
theorem identities_subset_handle (Q : JobQueue) (s : JobStore) (o : Op) (a : o.Ans) :
    s.identities ⊆ ((machine Q).handle o s a).2.identities := by
  by_cases ho : ∃ row, o = .insertJob row
  · obtain ⟨row, rfl⟩ := ho
    cases a with
    | some e => exact fun _ h => h
    | none =>
      change s.identities ⊆ (s.insertJob row).2.identities
      rcases insertJob_cases s row with ⟨old, -, -, ⟨-, -, heq⟩ | ⟨-, heq⟩⟩ |
        ⟨-, ⟨jobs, hins, heq⟩ | ⟨-, heq⟩⟩
      · rw [heq]
        exact fun _ h => h
      · rw [heq]
        exact fun _ h => h
      · rw [heq, identities_of_insert? hins]
        exact List.subset_append_left _ _
      · rw [heq]
        exact fun _ h => h
  · rw [handle_identities Q a fun row h => ho ⟨row, h⟩]
    exact fun _ h => h

end Keys

/-! ### Every run -/

section Runs

/-- A request got a job: its transaction went through. -/
def Answered (c : SubmissionCall) (j : Job) : Prop :=
  ∃ row, (⟨.insertJob row, .ok j⟩ : Entry interface) ∈ c.history

/-- Every job a request got is in the tables, as what was asked for. -/
def OnRecord (H : QueueHost) (s : JobStore) (v : Trace interface Submission) : Prop :=
  ∀ row j, (⟨.insertJob row, .ok j⟩ : Entry interface) ∈ v.history → v.request.Makes H row ∧
    (⟨j.id, row.type, row.payloadJson, row.idempotencyKey⟩ : JobIdentity) ∈ s.identities

/-- What the environment does to a transaction of `enqueue`. -/
def insertFailure (ans : ∀ o, interface.Ans o) (row : Job) : Option String := ans (.insertJob row)

theorem keysApart_handle (Q : JobQueue) {s : JobStore} (h : KeysApart s) (o : Op) (a : o.Ans) :
    KeysApart ((machine Q).handle o s a).2 := by
  by_cases ho : ∃ row, o = .insertJob row
  · obtain ⟨row, rfl⟩ := ho
    cases a with
    | some e => exact h
    | none => exact keysApart_insertJob h row
  · rw [KeysApart, handle_identities Q a fun row h => ho ⟨row, h⟩]
    exact h

theorem OnRecord.handle {s : JobStore} {v : Trace interface Submission} (h : OnRecord H s v)
    (o : Op) (a : o.Ans) : OnRecord H (H.machine.handle o s a).2 v := fun row j hmem =>
  ⟨(h row j hmem).1, identities_subset_handle _ s o a (h row j hmem).2⟩

theorem view_submissions (c : SubmissionCall) :
    c.view (submissions H) Trace.start = ⟨c.request, c.history⟩ := Call.view_ofTrace _ c

theorem enqueue_modular (H : QueueHost) :
    Modular H.machine (Submission.body H) (submissions H) Trace.start (fun _ _ => True) KeysApart
      (OnRecord H) (fun _ _ => True) (fun _ _ => True) where
  body_safe := body_safe H
  symm _ _ h := h
  spawn _ _ _ _ := ⟨fun _ _ hmem => by simp [Trace.start] at hmem, fun _ _ => trivial⟩
  call p t ans c o k _ hc hrest hJ hR hpre := by
    have hold := (hR t c hc).handle o (ans o)
    refine ⟨trivial, keysApart_handle _ hJ o (ans o), ?_⟩
    rw [view_submissions] at hold hpre ⊢
    intro row j hmem
    rcases List.mem_append.mp hmem with hmem | hmem
    · exact hold row j hmem
    · -- the job this call was answered with
      obtain heq := List.mem_singleton.mp hmem
      obtain ⟨rfl, hres⟩ := Entry.mk.inj heq
      have hres := eq_of_heq hres
      have hanswer : ∀ failure : Option String,
          (transaction p.shared failure (p.shared.insertJob row)).1 = .ok j →
          (⟨j.id, row.type, row.payloadJson, row.idempotencyKey⟩ : JobIdentity) ∈
            (transaction p.shared failure (p.shared.insertJob row)).2.identities := by
        intro failure hok
        cases failure with
        | some e => cases hok
        | none => exact identity_of_insertJob hok
      exact ⟨hpre, hanswer (insertFailure ans row) hres.symm⟩
  frame s v o a w _ _ _ hw _ := ⟨hw.handle o a, trivial⟩

theorem coherent_queueRun (H : QueueHost) (es : List (Event interface Submission)) :
    Coherent (submissions H) Trace.start (fun _ _ => True) KeysApart (OnRecord H)
      (fun _ _ => True) (queueRun H es) :=
  (enqueue_modular H).run (Pool.meets_true _ _)
    (Modular.coherent_start (by simp [KeysApart, JobStore.identities, JobStore.empty, Table.empty]))

/-- What a request asked for, once it got a job. -/
theorem identity_of_answered {p : SubmissionPool}
    (hp : Coherent (submissions H) Trace.start (fun _ _ => True) KeysApart (OnRecord H)
      (fun _ _ => True) p)
    {c : SubmissionCall} (hc : c ∈ p.calls) {key type : String} {data : JsValue} {j : Job}
    (hasks : c.request.Asks key type data) (hj : Answered c j) :
    ∃ text, canonical H.json data = .ok text ∧
      (⟨j.id, type, text, some key⟩ : JobIdentity) ∈ p.shared.identities := by
  obtain ⟨row, hrow⟩ := hj
  have hknown := hp.known_mem hc
  rw [view_submissions] at hknown
  obtain ⟨hmakes, hmem⟩ := hknown row j hrow
  obtain ⟨hkey, rfl, htext⟩ := hasks.row hmakes
  rw [hkey] at hmem
  exact ⟨row.payloadJson, htext, hmem⟩

theorem canonical_eq_iff (hJ : H.json.Lawful) {v w : JsValue} {text text' : String}
    (hv : v.Distinct) (hw : w.Distinct) (htext : canonical H.json v = .ok text)
    (htext' : canonical H.json w = .ok text') : text = text' ↔ v.Same w :=
  canonicalText_eq_iff hJ hv hw htext htext'

/-- The transaction of `enqueue` where the key is taken. -/
theorem insertJob_of_key {s : JobStore} (hs : KeysApart s) {old : JobIdentity} {row : Job}
    {key : String} (hold : old ∈ s.identities) (holdKey : old.idempotencyKey = some key)
    (hrow : row.idempotencyKey = some key) :
    (old.type = row.type ∧ old.payloadJson = row.payloadJson →
      ∃ j, j.id = old.id ∧ s.insertJob row = (.ok j, s)) ∧
    (¬(old.type = row.type ∧ old.payloadJson = row.payloadJson) →
      s.insertJob row = (.error "Idempotency key conflict", s)) := by
  rcases insertJob_cases s row with ⟨j, -, ⟨hmem, -, hkey⟩, hcases⟩ | ⟨hfree, -⟩
  · obtain rfl := hs.eq hold hmem holdKey (hkey.trans hrow)
    rcases hcases with ⟨htype, hpayload, heq⟩ | ⟨hne, heq⟩
    · exact ⟨fun _ => ⟨j, rfl, heq⟩, fun hne => absurd ⟨htype, hpayload⟩ hne⟩
    · exact ⟨fun hsame => absurd hsame hne, fun _ => heq⟩
  · exact absurd ⟨hold, by rw [holdKey]; rfl, holdKey.trans hrow.symm⟩ (hfree old)

/-- What is left of a request to enqueue. -/
theorem endsInserting_rest {es : List (Event interface Submission)} {t : Nat} {c : SubmissionCall}
    {type : String} {payload : JsValue} {o : EnqueueOptions}
    (hc : (queueRun H es).calls[t]? = some c) (hreq : c.request.request = .enqueue type payload o)
    {q : Prog interface (Except String Response)} (hrest : c.rest = some q) :
    EndsInserting H c.request (Except.map Response.job) q := by
  have hreplayed : Pool.Replayed (Submission.body H) (queueRun H es) :=
    Pool.replayed_run JobStore.empty es
  refine (hreplayed t c q hc hrest).residual (endsInserting_body hreq) fun op k r h => ?_
  cases op with
  | now | randomUUID => exact h r
  | insertJob row =>
    rw [h.2 r]
    trivial
  | get | claim | heartbeat | complete | fail | cancel => exact h.elim

/-- **One job for each key.** Once a request has got a job under a key, this job is the one row
with the key. Whoever got a job under the key got this one, for the same type and payload. A
request that uses the key again changes nothing: its transaction returns the job if type and
payload are the same, up to the order of keys, and is refused otherwise. -/
theorem enqueue_idempotent (H : QueueHost) (hJ : H.json.Lawful)
    (es : List (Event interface Submission)) {c₀ : SubmissionCall}
    (hc₀ : c₀ ∈ (queueRun H es).calls) {key type : String} {data : JsValue} {j : Job}
    (hasks₀ : c₀.request.Asks key type data) (hj : Answered c₀ j) :
    (∃ row, (queueRun H es).shared.jobs.rows.filter (fun r => r.idempotencyKey = some key) = [row] ∧
      row.id = j.id) ∧
    (∀ c ∈ (queueRun H es).calls, ∀ type' data' j', c.request.Asks key type' data' →
      Answered c j' → j'.id = j.id ∧ type' = type ∧ data'.Same data) ∧
    ∀ t c type' data' ans, (queueRun H es).calls[t]? = some c → c.request.Asks key type' data' →
      ((queueRun H es).step H.machine t ans).shared = (queueRun H es).shared ∧
      ∀ row, (queueRun H es).next? t = some (.insertJob row) → insertFailure ans row = none →
        (type' = type ∧ data'.Same data → ∃ j', j'.id = j.id ∧
          ((queueRun H es).step H.machine t ans).calls[t]?.bind Call.result? =
            some (.ok (.job j'))) ∧
        (¬(type' = type ∧ data'.Same data) →
          ((queueRun H es).step H.machine t ans).calls[t]?.bind Call.result? =
            some (.error "Idempotency key conflict")) := by
  have hp := coherent_queueRun H es
  obtain ⟨text, htext, hold⟩ := identity_of_answered hp hc₀ hasks₀ hj
  refine ⟨?_, ?_, ?_⟩
  · -- the key is that of one row
    obtain ⟨row, hrow, heq⟩ := List.mem_map.mp hold
    have hrowKey : row.idempotencyKey = some key := congrArg JobIdentity.idempotencyKey heq
    refine ⟨row, Table.filter_eq_singleton hrow (by simp [hrowKey]) fun r hr hkey => ?_,
      congrArg JobIdentity.id heq⟩
    have hrkey : r.idempotencyKey = some key := by simpa using hkey
    have hsame := hp.shared.eq (List.mem_map.mpr ⟨r, hr, rfl⟩) (List.mem_map.mpr ⟨row, hrow, rfl⟩)
      hrkey hrowKey
    exact Table.eq_of_key hr hrow (congrArg JobIdentity.id hsame)
  · -- two calls that were answered found the same row
    intro c hc type' data' j' hasks hj'
    obtain ⟨text', htext', hnew⟩ := identity_of_answered hp hc hasks hj'
    obtain ⟨hid, htype, hsame, -⟩ := JobIdentity.mk.inj (hp.shared.eq hnew hold rfl rfl)
    exact ⟨hid, htype,
      (canonical_eq_iff hJ hasks.distinct hasks₀.distinct htext' htext).mp hsame⟩
  · -- the next step of a call under the key: only `insertJob` writes jobs
    intro t c type' data' ans hc hasks
    cases hnext : (queueRun H es).next? t with
    | none => exact ⟨by rw [Pool.step_eq_self hnext], fun row hrow => by cases hrow⟩
    | some o =>
      obtain ⟨c', k, hc', hrest⟩ := Pool.exists_of_next? hnext
      obtain rfl := Option.some.inj (hc.symm.trans hc')
      obtain ⟨payload, opts, schema, hreq, -⟩ := id hasks
      have hbody := endsInserting_rest hc hreq hrest
      rw [Pool.step_shared hnext]
      cases o with
      | now | randomUUID => exact ⟨rfl, fun row hrow => by cases hrow⟩
      | get | claim | heartbeat | complete | fail | cancel => exact hbody.elim
      | insertJob row =>
        obtain ⟨hmakes, hend⟩ := hbody
        obtain ⟨hkey, rfl, htext'⟩ := hasks.row hmakes
        have hiff : (type = row.type ∧ text = row.payloadJson) ↔
            (row.type = type ∧ data'.Same data) := by
          rw [← canonical_eq_iff hJ hasks.distinct hasks₀.distinct htext' htext, eq_comm,
            eq_comm (a := text)]
        obtain ⟨hsame, hdiffer⟩ := insertJob_of_key hp.shared hold rfl hkey
        have hkeeps : ((queueRun H es).shared.insertJob row).2 = (queueRun H es).shared := by
          by_cases h : type = row.type ∧ text = row.payloadJson
          · obtain ⟨j', -, heq⟩ := hsame h
            rw [heq]
          · rw [hdiffer h]
        have hhandle : H.machine.handle (.insertJob row) (queueRun H es).shared (ans _) =
            transaction (queueRun H es).shared (insertFailure ans row)
              ((queueRun H es).shared.insertJob row) := rfl
        rw [hhandle]
        constructor
        · cases insertFailure ans row with
          | none => exact hkeeps
          | some e => rfl
        · rintro row' hrow' hok
          obtain rfl := Op.insertJob.inj (Option.some.inj hrow')
          rw [Pool.result?_step hc hrest ans, hhandle, hok]
          refine ⟨fun h => ?_, fun h => ?_⟩
          · obtain ⟨j', hid, heq⟩ := hsame (hiff.mpr h)
            refine ⟨j', hid, ?_⟩
            rw [Call.result?_eq_some, transaction, heq]
            exact congrArg some (hend (.ok j'))
          · rw [Call.result?_eq_some, transaction, hdiffer fun heq => h (hiff.mp heq)]
            exact congrArg some (hend (.error "Idempotency key conflict"))

/-! ### The same payload twice -/

/-- The job a transaction of `enqueue` answered with. -/
def answeredJob? : Entry interface → Option Job
  | ⟨.insertJob _, .ok j⟩ => some j
  | _ => none

theorem answered_of_mem {c : SubmissionCall} {j : Job} (h : j ∈ c.history.filterMap answeredJob?) :
    Answered c j := by
  obtain ⟨e, he, hj⟩ := List.mem_filterMap.mp h
  unfold answeredJob? at hj
  split at hj
  · rename_i row j'
    obtain rfl := Option.some.inj hj
    exact ⟨row, he⟩
  · cases hj

def sampleHost : QueueHost := ⟨stringify, fun _ _ _ _ => .ofInt 0⟩

/-- A schema that takes two numbers under different names. -/
def pairSchema : JobSchema where
  safeParse
    | .object [(k, .number m), (l, .number n)] =>
      if k = l then .error "Expected two keys" else .ok (.object [(k, .number m), (l, .number n)])
    | _ => .error "Expected two numbers"
  distinct := by
    intro payload data h
    split at h
    · split at h
      · cases h
      · rename_i hkeys
        obtain rfl := Except.ok.inj h
        exact ⟨by simpa using hkeys, trivial, trivial, trivial⟩
    · cases h

/-- Two numbers, the first one under the name `k`. -/
def pair (k l : String) (m n : Int) : JsValue :=
  .object [(k, .number (.ofInt m)), (l, .number (.ofInt n))]

def submission (id : String) (payload : JsValue) : Submission :=
  ⟨fun _ => some pairSchema,
    .enqueue "type" payload { id := some id, idempotencyKey := some "key" }⟩

/-- A job is enqueued, and another one with the same key is about to be. -/
def twiceEvents : List (Event interface Submission) :=
  [.spawn (submission "first" (pair "a" "b" 1 2)), .step 0 (sampleAnswer 1000),
    .step 0 (sampleAnswer 1000),
    .spawn (submission "second" (pair "b" "a" 2 1)), .step 1 (sampleAnswer 1001)]

/-- The row a call is about to insert. -/
def insertedRow? : Op → Option Job
  | .insertJob row => some row
  | _ => none

theorem eq_insertJob_of_insertedRow? {o : Op} {row : Job} (h : insertedRow? o = some row) :
    o = .insertJob row := by
  cases o with
  | insertJob row' => rw [Option.some.inj h]
  | now | randomUUID | get | claim | heartbeat | complete | fail | cancel => cases h

/-- The second request gets the first one's job. -/
theorem enqueue_idempotent_twice :
    ∃ j : Job, j.id = "first" ∧
      ((queueRun sampleHost twiceEvents).step sampleHost.machine 1
        (sampleAnswer 1001)).calls[1]?.bind Call.result? = some (.ok (.job j)) := by
  have hrequests : (queueRun sampleHost twiceEvents).calls.map Call.request =
      [submission "first" (pair "a" "b" 1 2), submission "second" (pair "b" "a" 2 1)] :=
    Pool.requests_run _ _
  have hanswer : ((queueRun sampleHost twiceEvents).calls[0]?.map fun c =>
      (c.history.filterMap answeredJob?).map Job.id) = some ["first"] := by
    decide
  have hnext : ((queueRun sampleHost twiceEvents).next? 1).bind insertedRow? ≠ none := by
    decide
  obtain ⟨c₀, hc₀, hid⟩ := Option.map_eq_some_iff.mp hanswer
  obtain ⟨row, hrow⟩ := Option.ne_none_iff_exists'.mp hnext
  obtain ⟨o, ho, hinserted⟩ := Option.bind_eq_some_iff.mp hrow
  obtain rfl := eq_insertJob_of_insertedRow? hinserted
  obtain ⟨c, k, hc, -⟩ := Pool.exists_of_next? ho
  have hreq₀ : c₀.request = submission "first" (pair "a" "b" 1 2) := by
    have hmap := congrArg (fun l => l[0]?) hrequests
    simpa [hc₀] using hmap
  have hreq : c.request = submission "second" (pair "b" "a" 2 1) := by
    have hmap := congrArg (fun l => l[1]?) hrequests
    simpa [hc] using hmap
  obtain ⟨j, hjs⟩ : ∃ j, c₀.history.filterMap answeredJob? = [j] :=
    List.length_eq_one_iff.mp (by simpa using congrArg List.length hid)
  have hasks₀ : c₀.request.Asks "key" "type" (pair "a" "b" 1 2) :=
    hreq₀ ▸ ⟨_, _, pairSchema, rfl, rfl, rfl, rfl⟩
  have hasks : c.request.Asks "key" "type" (pair "b" "a" 2 1) :=
    hreq ▸ ⟨_, _, pairSchema, rfl, rfl, rfl, rfl⟩
  have hsame : (pair "b" "a" 2 1).Same (pair "a" "b" 1 2) := by
    refine ⟨rfl, ⟨.number (.ofInt 2), rfl, rfl⟩, ⟨.number (.ofInt 1), rfl, rfl⟩, trivial⟩
  obtain ⟨j', hj', hresult⟩ := ((enqueue_idempotent sampleHost stringify_lawful twiceEvents
    (List.mem_of_getElem? hc₀) hasks₀
    (answered_of_mem (by rw [hjs]; exact List.mem_singleton.mpr rfl))).2.2
      1 c "type" (pair "b" "a" 2 1) (sampleAnswer 1001) hc hasks).2 row ho rfl |>.1 ⟨rfl, hsame⟩
  refine ⟨j', hj'.trans ?_, hresult⟩
  simpa [hjs] using hid

end Runs

end AriOs.Autonomy.Jobs
