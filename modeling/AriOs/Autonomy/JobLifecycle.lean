import AriOs.Autonomy.Jobs
import Mathlib.Logic.Relation

/-!
# The lifecycle of a job

Whatever is called, the tables change in one of five ways: a job is enqueued, an attempt is
started, an attempt is finished, a job is touched without changing its status, or a waiting job
is cancelled. The recovery loop finishes attempts, one in each round. An invariant of the two
tables is checked against these five, once.
-/

namespace AriOs.Autonomy.Jobs

open AriOs.Async AriOs.Js AriOs.Storage Relation

/-! ### The five ways the tables change -/

/-- A new value of a job that keeps its counters. -/
structure KeepsCounters (j j' : Job) : Prop where
  attemptCount : j'.attemptCount = j.attemptCount
  fencingToken : j'.fencingToken = j.fencingToken
  maxAttempts : j'.maxAttempts = j.maxAttempts

/-- One change of the tables. -/
inductive Change : JobStore → JobStore → Prop where
  | enqueue {s : JobStore} (row : Job) (jobs : Table Job.id) (hwaiting : row.status.Waiting)
      (hcount : row.attemptCount = 0) (htoken : row.fencingToken = 0)
      (hmax : 1 ≤ row.maxAttempts) (hins : s.jobs.insert? row = some jobs) :
      Change s { s with jobs }
  | start {s : JobStore} (j : Job) (f : Job → Job) (hf : ∀ k, (f k).id = k.id) (a : Attempt)
      (attempts : Table Attempt.key) (hj : s.jobs.find? j.id = some j)
      (hwaiting : j.status.Waiting) (hfew : j.attemptCount < j.maxAttempts)
      (hstatus : (f j).status = .running) (hlease : (f j).leaseExpiresAt.isSome)
      (hcount : (f j).attemptCount = j.attemptCount + 1)
      (htoken : (f j).fencingToken = j.fencingToken + 1)
      (hmax : (f j).maxAttempts = j.maxAttempts) (hjob : a.jobId = j.id)
      (hnumber : a.number = j.attemptCount + 1) (hfence : a.fencingToken = j.fencingToken + 1)
      (hopen : a.finishedAt = none) (houtcome : a.outcome = none)
      (hins : s.attempts.insert? a = some attempts) :
      Change s { s.updateJob j.id f hf with attempts }
  | finish {s : JobStore} (j : Job) (f : Job → Job) (hf : ∀ k, (f k).id = k.id)
      (g : Attempt → Attempt) (hg : ∀ a, (g a).key = a.key) (hj : s.jobs.find? j.id = some j)
      (hrunning : j.status = .running)
      (hstatus : (f j).status.Ended ∨
        ((f j).status.Waiting ∧ j.attemptCount < j.maxAttempts))
      (hkeeps : KeepsCounters j (f j)) (hfence : ∀ a, (g a).fencingToken = a.fencingToken)
      (hclosed : ∀ a, (g a).finishedAt.isSome)
      (houtcome : ∀ a, (g a).outcome = some .succeeded ↔ (f j).status = .succeeded) :
      Change s ((s.updateJob j.id f hf).closeAttempt j.id j.fencingToken g hg)
  | touch {s : JobStore} (j : Job) (f : Job → Job) (hf : ∀ k, (f k).id = k.id)
      (hj : s.jobs.find? j.id = some j) (hstatus : (f j).status = j.status)
      (hlease : j.leaseExpiresAt.isSome → (f j).leaseExpiresAt.isSome)
      (hkeeps : KeepsCounters j (f j)) : Change s (s.updateJob j.id f hf)
  | cancel {s : JobStore} (j : Job) (f : Job → Job) (hf : ∀ k, (f k).id = k.id)
      (hj : s.jobs.find? j.id = some j) (hwaiting : j.status.Waiting)
      (hstatus : (f j).status = .cancelled) (hkeeps : KeepsCounters j (f j)) :
      Change s (s.updateJob j.id f hf)

/-! ### Rows after a change -/

section Rows

variable {s : JobStore} {id : String} {token : Nat} {f : Job → Job} (hf : ∀ k, (f k).id = k.id)
  {g : Attempt → Attempt} (hg : ∀ a, (g a).key = a.key)

/-- The jobs after one of them was updated. -/
theorem mem_updateJob {j k : Job} (hj : s.jobs.find? j.id = some j) :
    k ∈ (s.updateJob j.id f hf).jobs.rows ↔ k = f j ∨ (k ∈ s.jobs.rows ∧ k.id ≠ j.id) := by
  simp only [JobStore.updateJob, Table.rows_update, List.mem_map]
  constructor
  · rintro ⟨k', hk', rfl⟩
    by_cases hid : k'.id = j.id
    · -- keys are unique, so this is the job that was updated
      have hsame := Table.mem_rows_iff.mp hk'
      rw [hid, hj] at hsame
      obtain rfl := Option.some_inj.mp hsame
      exact .inl (by simp)
    · exact .inr (by simp [hid, hk'])
  · rintro (rfl | ⟨hk, hid⟩)
    · exact ⟨j, (Table.find?_eq_some_iff.mp hj).1, by simp⟩
    · exact ⟨k, hk, by simp [hid]⟩

/-- No job goes away by being updated. -/
theorem exists_updateJob {j k : Job} (hj : s.jobs.find? j.id = some j) (hk : k ∈ s.jobs.rows) :
    ∃ k' ∈ (s.updateJob j.id f hf).jobs.rows, k'.id = k.id := by
  by_cases hkj : k.id = j.id
  · exact ⟨f j, (mem_updateJob hf hj).mpr (.inl rfl), (hf j).trans hkj.symm⟩
  · exact ⟨k, (mem_updateJob hf hj).mpr (.inr ⟨hk, hkj⟩), rfl⟩

theorem mem_closeAttempt {a : Attempt} :
    a ∈ (s.closeAttempt id token g hg).attempts.rows ↔
      (∃ b ∈ s.attempts.rows, JobStore.isOpen id token b = true ∧ a = g b) ∨
        (a ∈ s.attempts.rows ∧ JobStore.isOpen id token a = false) := by
  simp only [JobStore.closeAttempt, Table.rows_update, List.mem_map]
  constructor
  · rintro ⟨b, hb, rfl⟩
    by_cases hopen : JobStore.isOpen id token b = true
    · exact .inl ⟨b, hb, hopen, by simp [hopen]⟩
    · exact .inr (by simpa [hopen] using hb)
  · rintro (⟨b, hb, hopen, rfl⟩ | ⟨ha, hopen⟩)
    · exact ⟨b, hb, by simp [hopen]⟩
    · exact ⟨a, ha, by simp [hopen]⟩

theorem isOpen_iff {a : Attempt} :
    JobStore.isOpen id token a = true ↔
      a.jobId = id ∧ a.fencingToken = token ∧ a.finishedAt = none := by
  simp [JobStore.isOpen, and_assoc]

/-- Closing attempts leaves the number of attempts of each job alone. -/
theorem count_closeAttempt (k : String) :
    (s.closeAttempt id token g hg).attempts.count (fun a => a.jobId = k) =
      s.attempts.count fun a => a.jobId = k := by
  have hjob : ∀ a, (g a).jobId = a.jobId := fun a => congrArg Prod.fst (hg a)
  unfold Table.count JobStore.closeAttempt
  rw [Table.rows_update, List.countP_map]
  congr 1
  funext a
  by_cases h : JobStore.isOpen id token a = true <;> simp [h, hjob]

end Rows

/-! ### Jobs and their attempts -/

/-- What ties a job to its attempts. -/
structure JobSound (attempts : Table Attempt.key) (j : Job) : Prop where
  token : j.attemptCount = j.fencingToken
  bound : j.attemptCount ≤ j.maxAttempts
  count : attempts.count (fun a => a.jobId = j.id) = j.attemptCount
  waiting : j.status.Waiting → j.attemptCount < j.maxAttempts
  lease : j.status = .running → j.leaseExpiresAt.isSome
  numbered : ∀ a ∈ attempts.rows, a.jobId = j.id →
    a.number = a.fencingToken ∧ a.fencingToken ≤ j.fencingToken
  started : j.status = .running → ∃ a ∈ attempts.rows,
    JobStore.isOpen j.id j.fencingToken a = true
  unfinished : ∀ a ∈ attempts.rows, a.jobId = j.id → a.finishedAt = none →
    j.status = .running ∧ a.fencingToken = j.fencingToken
  completed : j.status = .succeeded → ∃ a ∈ attempts.rows,
    a.jobId = j.id ∧ a.fencingToken = j.fencingToken ∧ a.outcome = some .succeeded
  success : ∀ a ∈ attempts.rows, a.jobId = j.id → a.outcome = some .succeeded →
    j.status = .succeeded ∧ a.fencingToken = j.fencingToken

/-- Every job is sound, and every attempt is that of a job. -/
structure Sound (s : JobStore) : Prop where
  job : ∀ j ∈ s.jobs.rows, JobSound s.attempts j
  owned : ∀ a ∈ s.attempts.rows, ∃ j ∈ s.jobs.rows, a.jobId = j.id

theorem sound_empty : Sound .empty :=
  ⟨by simp [JobStore.empty], by simp [JobStore.empty]⟩

section Soundness

variable {s s' : JobStore} {j j' : Job} {attempts attempts' : Table Attempt.key}

/-- At most one attempt of a job has a given fencing token. -/
theorem JobSound.attempt_unique (h : JobSound attempts j) {a b : Attempt} (ha : a ∈ attempts.rows)
    (hb : b ∈ attempts.rows) (hja : a.jobId = j.id) (hjb : b.jobId = j.id)
    (htoken : a.fencingToken = b.fencingToken) : a = b := by
  have hkey : a.key = b.key := by
    have hna := (h.numbered a ha hja).1
    have hnb := (h.numbered b hb hjb).1
    rw [Attempt.key, Attempt.key, hja, hjb, hna, hnb, htoken]
  have hfind := Table.mem_rows_iff.mp ha
  rw [hkey, Table.mem_rows_iff.mp hb] at hfind
  exact (Option.some_inj.mp hfind).symm

/-- A job that changes nothing its attempts are tied to stays sound. -/
theorem JobSound.of_keeps (h : JobSound attempts j) (hid : j'.id = j.id)
    (hkeeps : KeepsCounters j j') (hstatus : j'.status = j.status)
    (hlease : j.leaseExpiresAt.isSome → j'.leaseExpiresAt.isSome) : JobSound attempts j' where
  token := by rw [hkeeps.attemptCount, hkeeps.fencingToken, h.token]
  bound := by rw [hkeeps.attemptCount, hkeeps.maxAttempts]; exact h.bound
  count := by rw [hid, hkeeps.attemptCount, h.count]
  waiting := by rw [hstatus, hkeeps.attemptCount, hkeeps.maxAttempts]; exact h.waiting
  lease := by rw [hstatus]; exact fun hr => hlease (h.lease hr)
  numbered := by rw [hid, hkeeps.fencingToken]; exact h.numbered
  started := by rw [hid, hkeeps.fencingToken, hstatus]; exact h.started
  unfinished := by rw [hid, hkeeps.fencingToken, hstatus]; exact h.unfinished
  completed := by rw [hid, hkeeps.fencingToken, hstatus]; exact h.completed
  success := by rw [hid, hkeeps.fencingToken, hstatus]; exact h.success

/-- A job stays sound if none of its own attempts change. -/
theorem JobSound.of_attempts (h : JobSound attempts j)
    (hsame : ∀ a, a.jobId = j.id → (a ∈ attempts'.rows ↔ a ∈ attempts.rows))
    (hcount : attempts'.count (fun a => a.jobId = j.id) = attempts.count fun a => a.jobId = j.id) :
    JobSound attempts' j where
  token := h.token
  bound := h.bound
  count := hcount.trans h.count
  waiting := h.waiting
  lease := h.lease
  numbered a ha hj := h.numbered a ((hsame a hj).mp ha) hj
  started hr := by
    obtain ⟨a, ha, hopen⟩ := h.started hr
    exact ⟨a, (hsame a (isOpen_iff.mp hopen).1).mpr ha, hopen⟩
  unfinished a ha hj := h.unfinished a ((hsame a hj).mp ha) hj
  completed hs := by
    obtain ⟨a, ha, hj, hrest⟩ := h.completed hs
    exact ⟨a, (hsame a hj).mpr ha, hj, hrest⟩
  success a ha hj := h.success a ((hsame a hj).mp ha) hj

/-- A waiting job has neither an open attempt nor a successful one. -/
theorem JobSound.cancelled (h : JobSound attempts j) (hid : j'.id = j.id)
    (hkeeps : KeepsCounters j j') (hwaiting : j.status.Waiting)
    (hstatus : j'.status = .cancelled) : JobSound attempts j' where
  token := by rw [hkeeps.attemptCount, hkeeps.fencingToken, h.token]
  bound := by rw [hkeeps.attemptCount, hkeeps.maxAttempts]; exact h.bound
  count := by rw [hid, hkeeps.attemptCount, h.count]
  waiting hw := by simp [hstatus, JobStatus.Waiting] at hw
  lease hr := by simp [hstatus] at hr
  numbered := by rw [hid, hkeeps.fencingToken]; exact h.numbered
  started hr := by simp [hstatus] at hr
  unfinished a ha hja hopen := by
    have hrunning := (h.unfinished a ha (hja.trans hid) hopen).1
    rcases hwaiting with hw | hw <;> simp [hw] at hrunning
  completed hs := by simp [hstatus] at hs
  success a ha hja hs := by
    have hsucceeded := (h.success a ha (hja.trans hid) hs).1
    rcases hwaiting with hw | hw <;> simp [hw] at hsucceeded

/-- A waiting job becomes a running one with one more attempt. -/
theorem JobSound.start (h : JobSound attempts j) (hid : j'.id = j.id) {a : Attempt}
    (hins : attempts.insert? a = some attempts') (hwaiting : j.status.Waiting)
    (hfew : j.attemptCount < j.maxAttempts) (hstatus : j'.status = .running)
    (hlease : j'.leaseExpiresAt.isSome) (hcount : j'.attemptCount = j.attemptCount + 1)
    (htoken : j'.fencingToken = j.fencingToken + 1) (hmax : j'.maxAttempts = j.maxAttempts)
    (hjob : a.jobId = j.id) (hnumber : a.number = j.attemptCount + 1)
    (hfence : a.fencingToken = j.fencingToken + 1) (hopen : a.finishedAt = none)
    (houtcome : a.outcome = none) : JobSound attempts' j' := by
  have hrows := Table.rows_of_insert? hins
  have hmem : ∀ b, b ∈ attempts'.rows ↔ b ∈ attempts.rows ∨ b = a := fun b => by simp [hrows]
  have hold := h.token
  constructor
  case token => omega
  case bound => omega
  case count =>
    have hbefore := h.count
    unfold Table.count at hbefore ⊢
    rw [hrows, List.countP_append, hid, hbefore, hcount]
    simp [hjob]
  case waiting => simp [hstatus, JobStatus.Waiting]
  case lease => exact fun _ => hlease
  case numbered =>
    intro b hb hjb
    rcases (hmem b).mp hb with hb | rfl
    · have hnumbered := h.numbered b hb (hjb.trans hid)
      exact ⟨hnumbered.1, by omega⟩
    · exact ⟨by omega, by omega⟩
  case started =>
    intro _
    refine ⟨a, (hmem a).mpr (.inr rfl), isOpen_iff.mpr ⟨hjob.trans hid.symm, ?_, hopen⟩⟩
    rw [hfence, htoken]
  case unfinished =>
    intro b hb hjb hnone
    rcases (hmem b).mp hb with hb | rfl
    · -- an attempt that was open before would have been one of a running job
      have hrunning := (h.unfinished b hb (hjb.trans hid) hnone).1
      rcases hwaiting with hw | hw <;> simp [hw] at hrunning
    · exact ⟨hstatus, by rw [hfence, htoken]⟩
  case completed => simp [hstatus]
  case success =>
    intro b hb hjb hs
    rcases (hmem b).mp hb with hb | rfl
    · have hsucceeded := (h.success b hb (hjb.trans hid) hs).1
      rcases hwaiting with hw | hw <;> simp [hw] at hsucceeded
    · simp [houtcome] at hs

/-- A running job leaves `running` as its attempt is closed. -/
theorem JobSound.finish (h : JobSound s.attempts j) (hid : j'.id = j.id) {g : Attempt → Attempt}
    (hg : ∀ a, (g a).key = a.key) (hrunning : j.status = .running)
    (hstatus : j'.status.Ended ∨ (j'.status.Waiting ∧ j.attemptCount < j.maxAttempts))
    (hkeeps : KeepsCounters j j') (hfence : ∀ a, (g a).fencingToken = a.fencingToken)
    (hclosed : ∀ a, (g a).finishedAt.isSome)
    (houtcome : ∀ a, (g a).outcome = some .succeeded ↔ j'.status = .succeeded) :
    JobSound (s.closeAttempt j.id j.fencingToken g hg).attempts j' := by
  have hjob : ∀ a, (g a).jobId = a.jobId := fun a => congrArg Prod.fst (hg a)
  have hnumber : ∀ a, (g a).number = a.number := fun a => congrArg Prod.snd (hg a)
  have hnot : j'.status ≠ .running := by
    rintro heq
    rcases hstatus with hended | ⟨hwaiting, -⟩
    · simp [heq, JobStatus.Ended] at hended
    · simp [heq, JobStatus.Waiting] at hwaiting
  constructor
  case token => rw [hkeeps.attemptCount, hkeeps.fencingToken, h.token]
  case bound => rw [hkeeps.attemptCount, hkeeps.maxAttempts]; exact h.bound
  case count => rw [count_closeAttempt hg, hid, h.count, hkeeps.attemptCount]
  case waiting =>
    intro hw
    rw [hkeeps.attemptCount, hkeeps.maxAttempts]
    rcases hstatus with hended | ⟨-, hfew⟩
    · rcases hw with hw | hw <;> simp [hw, JobStatus.Ended] at hended
    · exact hfew
  case lease => exact fun hr => absurd hr hnot
  -- an attempt that is closed keeps its number and its token
  case numbered =>
    intro a ha hja
    rcases (mem_closeAttempt hg).mp ha with ⟨b, hb, -, rfl⟩ | ⟨ha, -⟩
    · have hnumbered := h.numbered b hb ((hjob b).symm.trans (hja.trans hid))
      rw [hnumber, hfence, hkeeps.fencingToken]
      exact hnumbered
    · rw [hkeeps.fencingToken]
      exact h.numbered a ha (hja.trans hid)
  case started => exact fun hr => absurd hr hnot
  case unfinished =>
    intro a ha hja hnone
    rcases (mem_closeAttempt hg).mp ha with ⟨b, hb, -, rfl⟩ | ⟨ha, hopen⟩
    · have hsome := hclosed b
      simp [hnone] at hsome
    · -- an open attempt of a running job has its token, so it was closed
      have htoken := (h.unfinished a ha (hja.trans hid) hnone).2
      rw [isOpen_iff.mpr ⟨hja.trans hid, htoken, hnone⟩] at hopen
      simp at hopen
  case completed =>
    intro hs
    obtain ⟨a, ha, hopen⟩ := h.started hrunning
    have hopen' := isOpen_iff.mp hopen
    refine ⟨g a, (mem_closeAttempt hg).mpr (.inl ⟨a, ha, hopen, rfl⟩), ?_, ?_, (houtcome a).mpr hs⟩
    · rw [hjob, hopen'.1, hid]
    · rw [hfence, hopen'.2.1, hkeeps.fencingToken]
  case success =>
    intro a ha hja hs
    rcases (mem_closeAttempt hg).mp ha with ⟨b, hb, hopen, rfl⟩ | ⟨ha, -⟩
    · refine ⟨(houtcome b).mp hs, ?_⟩
      rw [hfence, (isOpen_iff.mp hopen).2.1, hkeeps.fencingToken]
    · have hsucceeded := (h.success a ha (hja.trans hid) hs).1
      simp [hrunning] at hsucceeded

end Soundness

/-- An update of a job that keeps it sound. -/
theorem Sound.updateJob {s : JobStore} (h : Sound s) {j : Job} {f : Job → Job}
    (hf : ∀ k, (f k).id = k.id) (hj : s.jobs.find? j.id = some j)
    (hkeeps : JobSound s.attempts j → JobSound s.attempts (f j)) :
    Sound (s.updateJob j.id f hf) := by
  have hjmem := (Table.find?_eq_some_iff.mp hj).1
  constructor
  · intro k hk
    rcases (mem_updateJob hf hj).mp hk with rfl | ⟨hk, -⟩
    · exact hkeeps (h.job j hjmem)
    · exact h.job k hk
  · intro a ha
    obtain ⟨k, hk, hka⟩ := h.owned a ha
    obtain ⟨k', hk', hid⟩ := exists_updateJob hf hj hk
    exact ⟨k', hk', hka.trans hid.symm⟩

/-- Every change keeps the tables sound. -/
theorem Sound.change {s s' : JobStore} (h : Sound s) (hchange : Change s s') : Sound s' := by
  cases hchange with
  | enqueue row jobs hwaiting hcount htoken hmax hins =>
    have hrows := Table.rows_of_insert? hins
    -- the id is new, and attempts are of jobs that are there
    have hfresh : ∀ a ∈ s.attempts.rows, a.jobId ≠ row.id := by
      intro a ha heq
      obtain ⟨j, hj, hja⟩ := h.owned a ha
      exact Table.key_ne_of_insert? hins (Table.mem_rows_iff.mp hj) (heq.symm.trans hja)
    constructor
    · intro j hj
      rw [hrows, List.mem_append, List.mem_singleton] at hj
      rcases hj with hj | rfl
      · exact h.job j hj
      · refine ⟨by omega, by omega, ?_, fun _ => by omega, fun hr => ?_,
          fun a ha hja => absurd hja (hfresh a ha), fun hr => ?_,
          fun a ha hja => absurd hja (hfresh a ha), fun hs => ?_,
          fun a ha hja => absurd hja (hfresh a ha)⟩
        · rw [hcount]
          exact List.countP_eq_zero.mpr fun a ha => by simp [hfresh a ha]
        · rcases hwaiting with hw | hw <;> simp [hw] at hr
        · rcases hwaiting with hw | hw <;> simp [hw] at hr
        · rcases hwaiting with hw | hw <;> simp [hw] at hs
    · intro a ha
      obtain ⟨j, hj, hja⟩ := h.owned a ha
      exact ⟨j, by simp [hrows, hj], hja⟩
  | start j f hf a attempts hj hwaiting hfew hstatus hlease hcount htoken hmax hjob hnumber hfence
      hopen houtcome hins =>
    have hrows := Table.rows_of_insert? hins
    have hjmem := (Table.find?_eq_some_iff.mp hj).1
    constructor
    · intro k hk
      -- the job itself, and the others, which have no part in the attempt
      rcases (mem_updateJob hf hj).mp hk with rfl | ⟨hk, hne⟩
      · exact (h.job j hjmem).start (hf j) hins hwaiting hfew hstatus hlease hcount htoken hmax hjob
          hnumber hfence hopen houtcome
      · apply (h.job k hk).of_attempts
        · intro b hjb
          have hba : b ≠ a := by
            rintro rfl
            exact hne (hjb.symm.trans hjob)
          simp [hrows, hba]
        · have hka : a.jobId ≠ k.id := fun heq => hne (heq.symm.trans hjob)
          simp [Table.count, hrows, List.countP_append, hka]
    · intro b hb
      have hcases : b ∈ s.attempts.rows ∨ b = a := by simpa [hrows] using hb
      rcases hcases with hb | rfl
      · obtain ⟨k, hk, hbk⟩ := h.owned b hb
        obtain ⟨k', hk', hid⟩ := exists_updateJob hf hj hk
        exact ⟨k', hk', hbk.trans hid.symm⟩
      · exact ⟨f j, (mem_updateJob hf hj).mpr (.inl rfl), hjob.trans (hf j).symm⟩
  | finish j f hf g hg hj hrunning hstatus hkeeps hfence hclosed houtcome =>
    have hjmem := (Table.find?_eq_some_iff.mp hj).1
    have hjob : ∀ a, (g a).jobId = a.jobId := fun a => congrArg Prod.fst (hg a)
    constructor
    · intro k hk
      rcases (mem_updateJob hf hj).mp hk with rfl | ⟨hk, hne⟩
      · exact (h.job j hjmem).finish (hf j) hg hrunning hstatus hkeeps hfence hclosed houtcome
      · apply (h.job k hk).of_attempts
        · intro b hjb
          constructor
          · intro hb
            rcases (mem_closeAttempt hg).mp hb with ⟨c, -, hopen, rfl⟩ | ⟨hb, -⟩
            · have hjc := (isOpen_iff.mp hopen).1
              exact absurd (hjb.symm.trans ((hjob c).trans hjc)) hne
            · exact hb
          · intro hb
            refine (mem_closeAttempt hg).mpr (.inr ⟨hb, ?_⟩)
            simp [JobStore.isOpen, hjb, hne]
        · exact count_closeAttempt hg k.id
    · intro b hb
      have howned : ∃ c ∈ s.attempts.rows, b.jobId = c.jobId := by
        rcases (mem_closeAttempt hg).mp hb with ⟨c, hc, -, rfl⟩ | ⟨hb, -⟩
        · exact ⟨c, hc, hjob c⟩
        · exact ⟨b, hb, rfl⟩
      obtain ⟨c, hc, hbc⟩ := howned
      obtain ⟨k, hk, hck⟩ := h.owned c hc
      obtain ⟨k', hk', hid⟩ := exists_updateJob hf hj hk
      exact ⟨k', hk', hbc.trans (hck.trans hid.symm)⟩
  | touch j f hf hj hstatus hlease hkeeps =>
    exact h.updateJob hf hj fun hsound => hsound.of_keeps (hf j) hkeeps hstatus hlease
  | cancel j f hf hj hwaiting hstatus hkeeps =>
    exact h.updateJob hf hj fun hsound => hsound.cancelled (hf j) hkeeps hwaiting hstatus

/-! ### Recovery -/

section Recovery

variable {s : JobStore}

theorem JobStore.first_some {p : Job → Bool} {j : Job} (h : s.first p = some j) :
    s.jobs.find? j.id = some j ∧ p j = true := by
  have hmem := List.mem_of_head? h
  rw [List.mem_insertionSort, List.mem_filter] at hmem
  exact ⟨Table.mem_rows_iff.mp hmem.1, hmem.2⟩

/-- A running job has one open attempt. -/
theorem JobSound.open_filter {attempts : Table Attempt.key} {j : Job} (h : JobSound attempts j)
    (hrunning : j.status = .running) :
    ∃ a, attempts.rows.filter (JobStore.isOpen j.id j.fencingToken) = [a] := by
  obtain ⟨a, ha, hopen⟩ := h.started hrunning
  refine ⟨a, Table.filter_eq_singleton ha hopen fun b hb hopenb => ?_⟩
  have ha' := isOpen_iff.mp hopen
  have hb' := isOpen_iff.mp hopenb
  exact h.attempt_unique hb ha hb'.1 ha'.1 (hb'.2.1.trans ha'.2.1.symm)

theorem Sound.count_open (h : Sound s) {j : Job} (hj : s.jobs.find? j.id = some j)
    (hrunning : j.status = .running) :
    s.attempts.count (JobStore.isOpen j.id j.fencingToken) = 1 := by
  obtain ⟨a, ha⟩ := (h.job j (Table.find?_eq_some_iff.mp hj).1).open_filter hrunning
  rw [Table.count, List.countP_eq_length_filter, ha, List.length_singleton]

/-- One round of recovery: the job leaves `running`, and one expired lease fewer is left. -/
theorem recoverJob_ok (h : Sound s) {now : Int} {j : Job} (hj : s.jobs.find? j.id = some j)
    (hexpired : JobStore.leaseExpired now j = true) :
    ∃ s', s.recoverJob now j = .ok s' ∧ Change s s' ∧
      s'.jobs.count (JobStore.leaseExpired now) < s.jobs.count (JobStore.leaseExpired now) := by
  have hrunning : j.status = .running := by
    simp only [JobStore.leaseExpired, Bool.and_eq_true, decide_eq_true_eq] at hexpired
    exact hexpired.1
  have hjmem := (Table.find?_eq_some_iff.mp hj).1
  have hunique : ∀ k ∈ s.jobs.rows, k.id = j.id → k = j := by
    intro k hk hid
    have hsame := Table.mem_rows_iff.mp hk
    rw [hid, hj] at hsame
    exact (Option.some_inj.mp hsame).symm
  have hcount : s.jobs.count (fun k => k.id = j.id ∧ k.status = .running ∧
      k.fencingToken = j.fencingToken) = 1 :=
    Table.count_eq_one hjmem (by simp [hrunning]) fun k hk hkj =>
      hunique k hk (of_decide_eq_true hkj).1
  -- both updates meet exactly one row, so neither throws
  unfold JobStore.recoverJob
  dsimp only
  rw [if_neg (by rw [h.count_open hj hrunning]; simp), if_neg (by exact not_not.mpr hcount)]
  refine ⟨_, rfl, ?_, ?_⟩
  · refine Change.finish j _ ?_ _ ?_ hj hrunning ?_ ⟨rfl, rfl, rfl⟩ ?_ ?_ ?_
    · exact fun _ => rfl
    · exact fun _ => rfl
    · dsimp only
      unfold JobStore.recoveredStatus
      split
      · exact .inl (by simp [JobStatus.Ended])
      · split
        · exact .inl (by simp [JobStatus.Ended])
        · exact .inr ⟨by simp [JobStatus.Waiting], by omega⟩
    · exact fun _ => rfl
    · exact fun _ => rfl
    · intro a
      dsimp only
      unfold JobStore.recoveredStatus
      by_cases hcancel : j.cancelRequested = true
      · simp [hcancel]
      · by_cases hlast : j.maxAttempts ≤ j.attemptCount <;> simp [hcancel, hlast]
  · -- the job is no longer among those whose lease has expired
    refine Table.count_update_lt ?_ hjmem (by simp) hexpired ?_ ?_
    · exact fun _ => rfl
    · simp [JobStore.leaseExpired]
    · intro k _ _ hk
      simp [JobStore.leaseExpired] at hk

/-- The recovery loop ends after as many rounds as there are expired leases, and none of them
raises an error. -/
theorem recoverExpired_ends {now : Int} {n : Nat} (h : Sound s)
    (hn : s.jobs.count (JobStore.leaseExpired now) < n) :
    ∃ s', JobStore.recoverExpired now n s = some (.ok s') ∧ ReflTransGen Change s s' := by
  induction n generalizing s with
  | zero => omega
  | succ n ih =>
    cases hfirst : s.first (JobStore.leaseExpired now) with
    | none => exact ⟨s, by rw [JobStore.recoverExpired, hfirst], .refl⟩
    | some j =>
      obtain ⟨hj, hexpired⟩ := JobStore.first_some hfirst
      obtain ⟨s₁, hround, hchange, hless⟩ := recoverJob_ok h hj hexpired
      obtain ⟨s', hrest, hchanges⟩ := ih (h.change hchange) (by omega)
      refine ⟨s', ?_, .head hchange hchanges⟩
      simp only [JobStore.recoverExpired, hfirst, hround, hrest]

theorem Sound.changes {s s' : JobStore} (h : Sound s) (hchanges : ReflTransGen Change s s') :
    Sound s' := by
  induction hchanges with
  | refl => exact h
  | tail _ hchange ih => exact ih.change hchange

end Recovery

/-! ### What each transaction does -/

section Transactions

variable {s : JobStore} {l : Lease} {now : Int}

/-- The row of a job that was just enqueued. -/
structure Fresh (row : Job) : Prop where
  waiting : row.status.Waiting
  attemptCount : row.attemptCount = 0
  fencingToken : row.fencingToken = 0
  maxAttempts : 1 ≤ row.maxAttempts

theorem insertJob_changes {row : Job} (hrow : Fresh row) :
    ReflTransGen Change s (s.insertJob row).2 := by
  unfold JobStore.insertJob
  split
  · split <;> exact .refl
  · split
    · rename_i jobs hins
      exact .single (.enqueue row jobs hrow.waiting hrow.attemptCount hrow.fencingToken
        hrow.maxAttempts hins)
    · exact .refl

theorem claimNext_changes {workerId : String} {leaseMs : Int} :
    ReflTransGen Change s (s.claimNext workerId leaseMs now).2 := by
  unfold JobStore.claimNext
  split
  · exact .refl
  · rename_i j hfirst
    obtain ⟨hj, hclaimable⟩ := JobStore.first_some hfirst
    simp only [JobStore.claimable, Bool.and_eq_true, decide_eq_true_eq] at hclaimable
    dsimp only
    split
    · exact .refl
    · split
      · exact .refl
      · rename_i attempts hins
        apply ReflTransGen.single
        refine .start j _ ?_ _ attempts hj hclaimable.1.1.2 hclaimable.2 ?_ ?_ ?_ ?_ ?_ ?_ ?_ ?_ ?_ ?_
          hins
        all_goals rfl

theorem claim_changes (h : Sound s) {workerId : String} {leaseMs : Int} :
    ReflTransGen Change s (s.claim workerId leaseMs now).2 := by
  have hfuel : s.jobs.count (JobStore.leaseExpired now) < s.jobs.rows.length + 1 :=
    Nat.lt_succ_of_le List.countP_le_length
  obtain ⟨s₁, hrecover, hchanges⟩ := recoverExpired_ends h hfuel
  unfold JobStore.claim
  rw [hrecover]
  dsimp only
  split
  · rename_i lease s₂ hnext
    have hclaimed : ReflTransGen Change s₁ (s₁.claimNext workerId leaseMs now).2 :=
      claimNext_changes
    rw [hnext] at hclaimed
    exact hchanges.trans hclaimed
  · exact .refl

/-- A lease that is held is that of the running attempt. -/
theorem held_some {j : Job} (h : s.held l now = some j) :
    s.jobs.find? j.id = some j ∧ j.id = l.job.id ∧ j.status = .running ∧
      j.fencingToken = l.fencingToken := by
  obtain ⟨hfind, hholds⟩ := Option.filter_eq_some_iff.mp h
  simp only [JobStore.holds, Bool.and_eq_true, decide_eq_true_eq] at hholds
  obtain ⟨⟨⟨⟨hid, hrunning⟩, -⟩, htoken⟩, -⟩ := hholds
  exact ⟨by rw [hid]; exact hfind, hid, hrunning, htoken⟩

theorem heartbeat_changes {leaseMs : Int} :
    ReflTransGen Change s (s.heartbeat l leaseMs now).2 := by
  unfold JobStore.heartbeat
  split
  · rename_i j hheld
    split
    · exact .refl
    · obtain ⟨hj, hid, -, -⟩ := held_some hheld
      rw [← hid]
      apply ReflTransGen.single
      refine .touch j _ _ hj ?_ ?_ ⟨rfl, rfl, rfl⟩
      · rfl
      · exact fun _ => rfl
  · exact .refl

/-- An attempt that ends is the open attempt of a running job. -/
theorem finish_changes {j : Job} {f : Job → Job} (hf : ∀ k, (f k).id = k.id)
    {g : Attempt → Attempt} (hg : ∀ a, (g a).key = a.key) {answer : Bool}
    (hheld : s.held l now = some j)
    (hstatus : (f j).status.Ended ∨ ((f j).status.Waiting ∧ j.attemptCount < j.maxAttempts))
    (hkeeps : KeepsCounters j (f j)) (hfence : ∀ a, (g a).fencingToken = a.fencingToken)
    (hclosed : ∀ a, (g a).finishedAt.isSome)
    (houtcome : ∀ a, (g a).outcome = some .succeeded ↔ (f j).status = .succeeded) :
    ReflTransGen Change s (s.finish l f hf g hg answer).2 := by
  obtain ⟨hj, hid, hrunning, htoken⟩ := held_some hheld
  unfold JobStore.finish
  split
  · exact .refl
  · dsimp only
    rw [← hid, ← htoken]
    exact .single (.finish j f hf g hg hj hrunning hstatus hkeeps hfence hclosed houtcome)

theorem complete_changes {resultRef : Option String} :
    ReflTransGen Change s (s.complete l resultRef now).2 := by
  unfold JobStore.complete
  split
  · exact .refl
  · rename_i j hheld
    refine finish_changes _ _ hheld (.inl ?_) ⟨rfl, rfl, rfl⟩ (fun _ => rfl) (fun _ => rfl)
      fun a => ?_
    · by_cases hcancel : j.cancelRequested = true <;> simp [hcancel, JobStatus.Ended]
    · by_cases hcancel : j.cancelRequested = true <;> simp [hcancel]

/-- A job that failed ends, or has an attempt left. -/
theorem failedStatus_ok {j : Job} {delay : JsNumber} {status : JobStatus} {at_ : Int}
    (h : JobStore.failedStatus j now delay = .ok (status, at_)) :
    status ≠ .succeeded ∧ (status.Ended ∨ (status.Waiting ∧ j.attemptCount < j.maxAttempts)) := by
  unfold JobStore.failedStatus at h
  split at h
  · obtain ⟨rfl, -⟩ := Prod.mk.inj (Except.ok.inj h)
    simp [JobStatus.Ended]
  · split at h
    · obtain ⟨rfl, -⟩ := Prod.mk.inj (Except.ok.inj h)
      simp [JobStatus.Ended]
    · rename_i hfew
      split at h
      · simp at h
      · obtain ⟨rfl, -⟩ := Prod.mk.inj (Except.ok.inj h)
        exact ⟨by simp, .inr ⟨by simp [JobStatus.Waiting], by omega⟩⟩

theorem fail_changes {error : String} {delay : Job → JsNumber} :
    ReflTransGen Change s (s.fail l error now delay).2 := by
  unfold JobStore.fail
  split
  · exact .refl
  · rename_i j hheld
    split
    · exact .refl
    · rename_i status at_ hstatus
      obtain ⟨hne, hnext⟩ := failedStatus_ok hstatus
      refine finish_changes _ _ hheld hnext ⟨rfl, rfl, rfl⟩ (fun _ => rfl) (fun _ => rfl)
        fun a => ?_
      by_cases hcancel : status = .cancelled <;> simp [hcancel, hne]

theorem cancel_changes {id : String} : ReflTransGen Change s (s.cancel id now).2 := by
  unfold JobStore.cancel
  split
  · exact .refl
  · rename_i j hfind
    have hid := (Table.find?_eq_some_iff.mp hfind).2
    subst hid
    split
    · exact .refl
    · rename_i hended
      split
      · apply ReflTransGen.single
        refine .touch j _ _ hfind ?_ ?_ ⟨rfl, rfl, rfl⟩
        · rfl
        · exact fun h => h
      · -- a job that has not ended and does not run waits
        rename_i hrunning
        have hwaiting : j.status.Waiting := by
          revert hended hrunning
          cases j.status <;> simp [JobStatus.Ended, JobStatus.Waiting]
        apply ReflTransGen.single
        refine .cancel j _ _ hfind hwaiting ?_ ⟨rfl, rfl, rfl⟩
        rfl

end Transactions

/-- Every call is a sequence of changes, if only fresh rows are inserted. -/
theorem handle_changes (Q : JobQueue) {s : JobStore} (h : Sound s) {o : Op}
    (hrow : ∀ row, o = .insertJob row → Fresh row) (a : o.Ans) :
    ReflTransGen Change s ((machine Q).handle o s a).2 := by
  have htransaction : ∀ {β : Type} {failure : Option String} {out : Except String β × JobStore},
      ReflTransGen Change s out.2 → ReflTransGen Change s (transaction s failure out).2 := by
    intro β failure out hout
    cases failure with
    | none => exact hout
    | some e => exact .refl
  cases o with
  | now | randomUUID => exact .refl
  | get id => exact htransaction .refl
  | insertJob row => exact htransaction (insertJob_changes (hrow row rfl))
  | claim workerId leaseMs now => exact htransaction (claim_changes h)
  | heartbeat l leaseMs now => exact htransaction heartbeat_changes
  | complete l resultRef now => exact htransaction complete_changes
  | fail l error now => exact htransaction fail_changes
  | cancel id now => exact htransaction cancel_changes

/-! ### What a change leaves alone -/

section Stability

variable {s s' : JobStore}

theorem find?_updateJob {f : Job → Job} (hf : ∀ k, (f k).id = k.id) {j : Job}
    (hj : s.jobs.find? j.id = some j) (id : String) :
    (s.updateJob j.id f hf).jobs.find? id = if id = j.id then some (f j) else s.jobs.find? id := by
  rw [JobStore.updateJob, Table.find?_update]
  split
  · rename_i hid
    rw [hid, hj]
    simp
  · rename_i hid
    cases hfind : s.jobs.find? id with
    | none => rfl
    | some k =>
      have hk := (Table.find?_eq_some_iff.mp hfind).2
      simp [hk, hid]

/-- A job that has ended keeps its status. -/
theorem Change.ended (h : Change s s') {id : String} {j : Job} (hj : s.jobs.find? id = some j)
    (hended : j.status.Ended) : ∃ j', s'.jobs.find? id = some j' ∧ j'.status = j.status := by
  -- an update of one row keeps the others
  have hkept : ∀ {k : Job} {f : Job → Job} (hf : ∀ k, (f k).id = k.id),
      s.jobs.find? k.id = some k → (k.status.Ended → (f k).status = k.status) →
      ∃ j', (s.updateJob k.id f hf).jobs.find? id = some j' ∧ j'.status = j.status := by
    intro k f hf hk hstatus
    rw [find?_updateJob hf hk]
    split
    · rename_i hid
      rw [hid, hk] at hj
      obtain rfl := Option.some_inj.mp hj
      exact ⟨f k, rfl, hstatus hended⟩
    · exact ⟨j, hj, rfl⟩
  cases h with
  | enqueue row jobs hwaiting hcount htoken hmax hins =>
    exact ⟨j, Table.find?_insert?_of_some hins hj, rfl⟩
  -- a job that has ended neither waits nor runs
  | start k f hf a attempts hk hwaiting =>
    refine hkept hf hk fun hended => ?_
    rcases hwaiting with hw | hw <;> simp [hw, JobStatus.Ended] at hended
  | finish k f hf g hg hk hrunning =>
    refine hkept hf hk fun hended => ?_
    simp [hrunning, JobStatus.Ended] at hended
  | touch k f hf hk hstatus => exact hkept hf hk fun _ => hstatus
  | cancel k f hf hk hwaiting =>
    refine hkept hf hk fun hended => ?_
    rcases hwaiting with hw | hw <;> simp [hw, JobStatus.Ended] at hended

/-- An attempt that was recorded as succeeded stays as it is. -/
theorem Change.succeeded (h : Change s s') (hs : Sound s) {a : Attempt} (ha : a ∈ s.attempts.rows)
    (houtcome : a.outcome = some .succeeded) : a ∈ s'.attempts.rows := by
  cases h with
  | enqueue | touch | cancel => exact ha
  | start j f hf b attempts _ _ _ _ _ _ _ _ _ _ _ _ _ hins =>
    change a ∈ attempts.rows
    simp [Table.rows_of_insert? hins, ha]
  | finish j f hf g hg hj hrunning =>
    refine (mem_closeAttempt hg).mpr (.inr ⟨ha, ?_⟩)
    by_contra hopen
    rw [Bool.not_eq_false] at hopen
    -- the job of a recorded success has succeeded, so it is not running
    have hstatus := ((hs.job j (Table.find?_eq_some_iff.mp hj).1).success a ha
      (isOpen_iff.mp hopen).1 houtcome).1
    simp [hrunning] at hstatus

end Stability

end AriOs.Autonomy.Jobs
