import AriOs.Autonomy.Jobs

/-!
# What a job is

A job keeps its id, its type, its payload and its idempotency key from the row it is enqueued
with to the end. Enqueueing appends a job or leaves the tables alone; every other call leaves the
list of what the jobs are as it is.
-/

namespace AriOs.Autonomy.Jobs

open AriOs.Async AriOs.Js AriOs.Storage

/-- What a job is, whatever has become of it. -/
structure JobIdentity where
  id : String
  type : String
  payloadJson : String
  idempotencyKey : Option String
  deriving DecidableEq

def Job.identity (j : Job) : JobIdentity := ⟨j.id, j.type, j.payloadJson, j.idempotencyKey⟩

namespace JobStore

/-- What the jobs are, in the order in which they were enqueued. -/
def identities (s : JobStore) : List JobIdentity := s.jobs.rows.map Job.identity

section Operations

variable {s s' : JobStore} {id : String} {now : Int} {l : Lease}

theorem identities_updateJob {f : Job → Job} (hf : ∀ j, (f j).id = j.id)
    (hsame : ∀ j, (f j).identity = j.identity) :
    (s.updateJob id f hf).identities = s.identities := by
  unfold identities updateJob
  rw [Table.rows_update, List.map_map]
  refine List.map_congr_left fun j _ => ?_
  simp only [Function.comp_apply]
  split
  · exact hsame j
  · rfl

theorem identities_recoverJob {j : Job} (h : s.recoverJob now j = .ok s') :
    s'.identities = s.identities := by
  unfold recoverJob at h
  extract_lets outcome error s₁ at h
  split at h
  · cases h
  · split at h
    · cases h
    · obtain rfl := Except.ok.inj h
      exact identities_updateJob _ fun _ => rfl

theorem identities_recoverExpired {n : Nat} (h : recoverExpired now n s = some (.ok s')) :
    s'.identities = s.identities := by
  induction n generalizing s with
  | zero => cases h
  | succ n ih =>
    rw [recoverExpired] at h
    split at h
    · obtain rfl := Except.ok.inj (Option.some.inj h)
      rfl
    · split at h
      · simp at h
      · rename_i s₁ hround
        exact (ih h).trans (identities_recoverJob hround)

theorem identities_claimNext {workerId : String} {leaseMs : Int} :
    (s.claimNext workerId leaseMs now).2.identities = s.identities := by
  unfold claimNext
  split
  · rfl
  · dsimp only
    split
    · rfl
    · split
      · rfl
      · exact identities_updateJob (f := claimedJob workerId leaseMs now) (fun _ => rfl)
          fun _ => rfl

theorem identities_claim {workerId : String} {leaseMs : Int} :
    (s.claim workerId leaseMs now).2.identities = s.identities := by
  unfold claim
  split
  · rfl
  · rfl
  · rename_i s₁ hrecover
    split
    · rename_i lease s₂ hnext
      have hclaimed : (s₁.claimNext workerId leaseMs now).2.identities = s₁.identities :=
        identities_claimNext
      rw [hnext] at hclaimed
      exact hclaimed.trans (identities_recoverExpired hrecover)
    · rfl

theorem identities_heartbeat {leaseMs : Int} :
    (s.heartbeat l leaseMs now).2.identities = s.identities := by
  unfold heartbeat
  split
  · split
    · rfl
    · exact identities_updateJob _ fun _ => rfl
  · rfl

theorem identities_finish {f : Job → Job} (hf : ∀ j, (f j).id = j.id)
    (hsame : ∀ j, (f j).identity = j.identity) {g : Attempt → Attempt}
    (hg : ∀ a, (g a).key = a.key) {answer : Bool} :
    (s.finish l f hf g hg answer).2.identities = s.identities := by
  unfold finish
  split
  · rfl
  · exact identities_updateJob hf hsame

theorem identities_complete {resultRef : Option String} :
    (s.complete l resultRef now).2.identities = s.identities := by
  unfold complete
  split
  · rfl
  · apply identities_finish
    intro k
    rfl

theorem identities_fail {error : String} {delay : Job → JsNumber} :
    (s.fail l error now delay).2.identities = s.identities := by
  unfold fail
  split
  · rfl
  · split
    · rfl
    · apply identities_finish
      intro k
      rfl

theorem identities_cancel : (s.cancel id now).2.identities = s.identities := by
  unfold cancel
  split
  · rfl
  · split
    · rfl
    · split <;> exact identities_updateJob _ fun _ => rfl

end Operations

end JobStore

theorem transaction_identities {β : Type} {s : JobStore} {failure : Option String}
    {out : Except String β × JobStore} (h : out.2.identities = s.identities) :
    (transaction s failure out).2.identities = s.identities := by
  cases failure with
  | none => exact h
  | some e => rfl

/-- A call that enqueues nothing leaves the jobs what they are. -/
theorem handle_identities (Q : JobQueue) {s : JobStore} {o : Op} (a : o.Ans)
    (ho : ∀ row, o ≠ .insertJob row) : ((machine Q).handle o s a).2.identities = s.identities := by
  cases o with
  | now | randomUUID => rfl
  | get id => exact transaction_identities rfl
  | insertJob row => exact absurd rfl (ho row)
  | claim workerId leaseMs now => exact transaction_identities JobStore.identities_claim
  | heartbeat l leaseMs now => exact transaction_identities JobStore.identities_heartbeat
  | complete l resultRef now => exact transaction_identities JobStore.identities_complete
  | fail l error now => exact transaction_identities JobStore.identities_fail
  | cancel id now => exact transaction_identities JobStore.identities_cancel

/-! ### Enqueueing -/

section Insert

variable {s : JobStore} {row : Job}

/-- A job with the same idempotency key is there. -/
def JobStore.Holds (s : JobStore) (row : Job) (old : JobIdentity) : Prop :=
  old ∈ s.identities ∧ old.idempotencyKey.isSome ∧ old.idempotencyKey = row.idempotencyKey

/-- `enqueue` finds a job with the key, or appends the row, or refuses it for its id. -/
theorem insertJob_cases (s : JobStore) (row : Job) :
    (∃ old ∈ s.jobs.rows, s.Holds row old.identity ∧
      ((old.type = row.type ∧ old.payloadJson = row.payloadJson ∧
          s.insertJob row = (.ok old, s)) ∨
        (¬(old.type = row.type ∧ old.payloadJson = row.payloadJson) ∧
          s.insertJob row = (.error "Idempotency key conflict", s)))) ∨
    ((∀ old, ¬s.Holds row old) ∧
      ((∃ jobs, s.jobs.insert? row = some jobs ∧ s.insertJob row = (.ok row, { s with jobs })) ∨
        (s.jobs.insert? row = none ∧
          s.insertJob row = (.error "UNIQUE constraint failed: jobs.id", s)))) := by
  unfold JobStore.insertJob
  cases hfind : row.idempotencyKey.bind fun key =>
      s.jobs.rows.find? fun j => j.idempotencyKey = some key with
  | some old =>
    obtain ⟨key, hkey, hold⟩ := Option.bind_eq_some_iff.mp hfind
    have hmem := List.mem_of_find?_eq_some hold
    have holdKey : old.idempotencyKey = some key := by simpa using List.find?_some hold
    have hidentity : old.identity.idempotencyKey = some key := holdKey
    refine .inl ⟨old, hmem, ⟨List.mem_map.mpr ⟨old, hmem, rfl⟩, ?_, ?_⟩, ?_⟩
    · rw [hidentity]
      rfl
    · rw [hidentity, hkey]
    · by_cases hsame : old.type = row.type ∧ old.payloadJson = row.payloadJson
      · refine .inl ⟨hsame.1, hsame.2, ?_⟩
        simp only [hsame.1, hsame.2, ne_eq, not_true_eq_false, or_self, if_false]
      · refine .inr ⟨hsame, ?_⟩
        dsimp only
        rw [if_pos (by tauto)]
  | none =>
    -- a row with the key would have been found
    have hnone : ∀ old, ¬s.Holds row old := by
      rintro old ⟨hmem, hsome, hkey⟩
      obtain ⟨j, hj, rfl⟩ := List.mem_map.mp hmem
      obtain ⟨key, hjkey⟩ := Option.isSome_iff_exists.mp hsome
      have hmiss : ∀ k, row.idempotencyKey = some k →
          s.jobs.rows.find? (fun j => j.idempotencyKey = some k) = none :=
        fun k hk => Option.bind_eq_none_iff.mp hfind k hk
      exact absurd (decide_eq_true (show j.idempotencyKey = some key from hjkey))
        (List.find?_eq_none.mp (hmiss key (hkey.symm.trans hjkey)) j hj)
    refine .inr ⟨hnone, ?_⟩
    cases hins : s.jobs.insert? row with
    | some jobs => exact .inl ⟨jobs, rfl, rfl⟩
    | none => exact .inr ⟨rfl, rfl⟩

theorem identities_of_insert? {jobs : Table Job.id} (h : s.jobs.insert? row = some jobs) :
    JobStore.identities { s with jobs } = s.identities ++ [row.identity] := by
  unfold JobStore.identities
  rw [Table.rows_of_insert? h, List.map_append, List.map_singleton]

end Insert

end AriOs.Autonomy.Jobs
