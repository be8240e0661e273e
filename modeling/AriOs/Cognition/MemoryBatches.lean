import AriOs.Async.Transition
import AriOs.Cognition.Memory

/-!
# Batches of curated memory

A batch is applied as a whole or not at all, whoever else holds the database. The constraint on
values is part of the tables and the budgets are checked before the transaction ends. What a call
reports is another matter: it reads the entries after `COMMIT`, and where that statement fails it
throws, with its batch applied. Nothing else does so, since both namespaces were read inside the
transaction. The revision admits one batch for each of its values.

## Main results

* `transact_spec` — a transaction commits, or leaves the tables as they are
-/

namespace AriOs.Cognition

open AriOs.Js AriOs.Storage AriOs.Async.Transition

variable (H : MemoryHost)

/-! ### What operations should do -/

/-- What should be stored of an entry. -/
def storedAs (n : MemoryNamespace) (entry : EntryInput) : CleanEntry where
  memoryNamespace := n
  value := normalize H entry.value
  normalized := H.nfkc (H.lower (normalize H entry.value))
  source := normalize H entry.source

/-- One operation on the rows. What it names has to be there, in the namespace it names. -/
inductive Applied (o : Occasion) : List MemoryRow → MemoryOperation → List MemoryRow → Prop
  | add {rows : List MemoryRow} {entry : EntryInput} {n : MemoryNamespace} {now : Int}
      (hn : entry.memoryNamespace = n.text) (hnow : safe? o.at_ = some now) :
      Applied o rows (.add entry) (rows ++ [newRow H (storedAs H n entry) o.uuid now])
  | replace {rows : List MemoryRow} {id : String} {entry : EntryInput} {n : MemoryNamespace}
      {now : Int} (hn : entry.memoryNamespace = n.text) (hnow : safe? o.at_ = some now)
      (hsome : ∃ r ∈ rows, r.id = id) (hall : ∀ r ∈ rows, r.id = id → r.memoryNamespace = n) :
      Applied o rows (.replace id entry)
        (rows.map fun r => if r.id = id then replacedRow H (storedAs H n entry) now r else r)
  | remove {rows : List MemoryRow} {id : String} {name : Option String}
      (hsome : ∃ r ∈ rows, r.id = id)
      (hall : ∀ r ∈ rows, r.id = id → ∀ n ∈ name, n ≠ "" → r.memoryNamespace.text = n) :
      Applied o rows (.remove id name) (rows.filter fun r => r.id ≠ id)

/-- The operations one after the other, from the `k`-th on. -/
inductive AppliedAll (occasion : Nat → Occasion) :
    Nat → List MemoryRow → List MemoryOperation → List MemoryRow → Prop
  | nil {k : Nat} {rows : List MemoryRow} : AppliedAll occasion k rows [] rows
  | cons {k : Nat} {rows rows' rows'' : List MemoryRow} {operation : MemoryOperation}
      {operations : List MemoryOperation} (hone : Applied H (occasion k) rows operation rows')
      (hrest : AppliedAll occasion (k + 1) rows' operations rows'') :
      AppliedAll occasion k rows (operation :: operations) rows''

/-- What a batch that succeeds has done. -/
structure Committed (options : MemoryStoreOptions) (t : MemoryTables) (call : BatchCall)
    (revision : Int) (t' : MemoryTables) : Prop where
  expected : safe? call.expectedRevision = some t.revision
  returned : revision = t.revision + 1
  revision : t'.revision = t.revision + 1
  applied : AppliedAll H call.occasion 0 t.curated.table.rows call.operations t'.curated.table.rows
  unique : (t'.curated.table.rows.map MemoryRow.uniqueKey).Nodup
  budget : ∀ n, ∃ entries, list H t'.curated (some n) = .ok entries ∧
    totalBytes H entries ≤ options.byteBudgets n
  snapshots : t'.snapshots = t.snapshots

/-- The call returns with its batch applied, or throws and leaves the tables alone, whatever other
holders do before it reads the entries. -/
def Atomic (options : MemoryStoreOptions) (t : MemoryTables) (call : BatchCall)
    (es : List MemoryEvent) : Prop :=
  (∃ revision entries, applyBatch H options t call
      (run (memoryStep H) (transact H options t call).2 es) = .ok (revision, entries) ∧
    Committed H options t call revision (transact H options t call).2) ∨
  ((∃ err, applyBatch H options t call
      (run (memoryStep H) (transact H options t call).2 es) = .error err) ∧
    (transact H options t call).2 = t)

/-- Nothing stands against the batch: it is of this revision, its operations go through and stay
within the budgets, and the database begins and commits the transaction. -/
structure Admitted (options : MemoryStoreOptions) (t : MemoryTables) (call : BatchCall) : Prop where
  expected : safe? call.expectedRevision = some t.revision
  operations : call.operations ≠ []
  begins : call.begins = true
  applies : ∃ curated, applyOperations H call.occasion 0 t.curated call.operations = .ok curated ∧
    ∀ n, ∃ entries, list H curated (some n) = .ok entries ∧
      totalBytes H entries ≤ options.byteBudgets n
  commits : call.commits = true

/-- The batch succeeds under an expected revision. -/
def Wins (t : MemoryTables) (e : MemoryEvent) (expected : Int) : Prop :=
  ∃ options call revision, e = .applyBatch options call ∧
    safe? call.expectedRevision = some expected ∧
    (transact H options t call).1 = .ok revision

/-- What is said of batches and snapshots. -/
structure BatchesSound : Prop where
  /-- A call is atomic unless it commits and then fails to read the entries. -/
  atomic : ∀ (options : MemoryStoreOptions) (t : MemoryTables) (call : BatchCall)
    (es : List MemoryEvent), Atomic H options t call es ↔
      (Admitted H options t call → call.reads = true)
  /-- Of the batches with one expected revision at most one succeeds. -/
  exclusive : ∀ (t : MemoryTables) (expected : Int) (before between : List MemoryEvent)
    (e e' : MemoryEvent), Wins H (run (memoryStep H) t before) e expected →
      ¬Wins H (run (memoryStep H) t (before ++ e :: between)) e' expected
  /-- A batch of one namespace leaves the others alone. -/
  separate : ∀ (options : MemoryStoreOptions) (t : MemoryTables) (call : BatchCall)
    (n : MemoryNamespace) (operations : List ScopedOperation),
    call.operations = operations.map (scopedOperation n) →
    (transact H options t call).2.curated.table.rows.filter (·.memoryNamespace ≠ n) =
      t.curated.table.rows.filter (·.memoryNamespace ≠ n)
  /-- The snapshot of a session is the same as long as it is there. -/
  snapshot : ∀ (t : MemoryTables) (sessionId : String) (es : List MemoryEvent),
    Throughout (memoryStep H) (fun t => (t.snapshots.find? sessionId).isSome) t es →
    (run (memoryStep H) t es).snapshots.find? sessionId = t.snapshots.find? sessionId

/-! ### One operation -/

variable {H} {m m' : CuratedMemory} {t t' : MemoryTables} {o : Occasion}
  {options : MemoryStoreOptions} {call : BatchCall}

theorem namespaceOf_eq_ok {text : String} {n : MemoryNamespace} :
    namespaceOf text = .ok n ↔ text = n.text := by
  unfold namespaceOf
  split
  · rename_i h
    subst h
    cases n <;> simp [MemoryNamespace.text]
  · split
    · rename_i h
      subst h
      cases n <;> simp [MemoryNamespace.text]
    · split
      · rename_i h
        subst h
        cases n <;> simp [MemoryNamespace.text]
      · rename_i hpolicy huser hagent
        cases n <;> simp [MemoryNamespace.text, huser, hagent]

theorem validate_spec {entry : EntryInput} {clean : CleanEntry}
    (h : validate H entry = .ok clean) : ∃ n, entry.memoryNamespace = MemoryNamespace.text n ∧
      clean = storedAs H n entry := by
  simp only [validate, bind_eq_ok] at h
  obtain ⟨n, hn, _, _, _, _, _, _, _, _, _, _, h⟩ := h
  exact ⟨n, namespaceOf_eq_ok.mp hn, (Except.ok.inj h).symm⟩

theorem insert_spec {row : MemoryRow} (h : m.insert row = .ok m') :
    m'.table.rows = m.table.rows ++ [row] := by
  unfold CuratedMemory.insert at h
  split at h
  · simp at h
  · rename_i table hinsert
    split at h
    · simp at h
    · rw [← Except.ok.inj h]
      exact Table.rows_of_insert? hinsert

theorem update_spec {id : String} {f : MemoryRow → MemoryRow} {hf : ∀ r, (f r).id = r.id}
    (h : m.update id f hf = .ok m') :
    m'.table.rows = m.table.rows.map fun r => if r.id = id then f r else r := by
  simp only [CuratedMemory.update] at h
  split at h
  · rw [← Except.ok.inj h]
    simp
  · simp at h

/-- The row a deletion hits is the only one with its id. -/
theorem delete_spec {id : String} {name : Option String}
    (h : m.table.count (fun r =>
      r.id = id && ((name.filter (· ≠ "")).all (· = r.memoryNamespace.text))) = 1) :
    (∃ r ∈ m.table.rows, r.id = id) ∧
    (∀ r ∈ m.table.rows, r.id = id → ∀ n ∈ name, n ≠ "" → r.memoryNamespace.text = n) ∧
    (m.delete fun r =>
      r.id = id && ((name.filter (· ≠ "")).all (· = r.memoryNamespace.text))).table.rows =
      m.table.rows.filter fun r => r.id ≠ id := by
  have hpos : 0 < m.table.rows.countP (fun r =>
      r.id = id && ((name.filter (· ≠ "")).all (· = r.memoryNamespace.text))) := by
    have hcount : m.table.rows.countP _ = 1 := h
    omega
  obtain ⟨r, hr, hhit⟩ := List.countP_pos_iff.mp hpos
  simp only [Bool.and_eq_true, decide_eq_true_eq] at hhit
  -- ids are unique, so what holds of this row holds of every row with the id
  have honly : ∀ r' ∈ m.table.rows, r'.id = id → r' = r := fun r' hr' hid =>
    Table.eq_of_key hr' hr (hid.trans hhit.1.symm)
  refine ⟨⟨r, hr, hhit.1⟩, ?_, ?_⟩
  · intro r' hr' hid n hn hne
    obtain rfl := honly r' hr' hid
    have hall := hhit.2
    rw [Option.mem_def.mp hn] at hall
    simpa [Option.filter, hne, eq_comm] using hall
  · refine List.filter_congr fun r' hr' => ?_
    by_cases hid : r'.id = id
    · obtain rfl := honly r' hr' hid
      beta_reduce
      rw [hhit.2]
      simp [hid]
    · simp [hid]

theorem applyOperation_spec {operation : MemoryOperation}
    (h : applyOperation H m operation o = .ok m') :
    Applied H o m.table.rows operation m'.table.rows := by
  cases operation with
  | add entry =>
    simp only [applyOperation, bind_eq_ok, orThrow_eq_ok] at h
    obtain ⟨clean, hclean, now, hnow, _, _, h⟩ := h
    obtain ⟨n, hn, rfl⟩ := validate_spec hclean
    rw [insert_spec h]
    exact .add hn hnow
  | replace id entry =>
    simp only [applyOperation, bind_eq_ok, orThrow_eq_ok, throwIf_eq_ok, not_not] at h
    obtain ⟨clean, hclean, now, hnow, _, _, current, hcurrent, _, hname, h⟩ := h
    obtain ⟨n, hn, rfl⟩ := validate_spec hclean
    obtain ⟨hmem, hid⟩ := Table.find?_eq_some_iff.mp hcurrent
    rw [update_spec h]
    -- there is one row with the id, and its namespace was compared
    refine .replace hn hnow ⟨current, hmem, hid⟩ ?_
    intro r hr hr'
    obtain rfl := Table.eq_of_key hr hmem (hr'.trans hid.symm)
    rw [hn] at hname
    cases n <;> cases hns : r.memoryNamespace <;> simp_all [MemoryNamespace.text]
  | remove id name =>
    simp only [applyOperation, bind_eq_ok, throwIf_eq_ok, not_not] at h
    obtain ⟨_, _, _, hcount, h⟩ := h
    obtain ⟨hsome, hall, hrows⟩ := delete_spec hcount
    rw [← Except.ok.inj h, hrows]
    exact .remove hsome hall

theorem applyOperations_spec {k : Nat} {operations : List MemoryOperation}
    (h : applyOperations H call.occasion k m operations = .ok m') :
    AppliedAll H call.occasion k m.table.rows operations m'.table.rows := by
  induction operations generalizing k m with
  | nil =>
    rw [← Except.ok.inj h]
    exact .nil
  | cons operation operations ih =>
    simp only [applyOperations, bind_eq_ok] at h
    obtain ⟨m₁, hone, hrest⟩ := h
    exact .cons (applyOperation_spec hone) (ih hrest)

/-! ### The transaction -/

theorem checkBudget_eq_ok {n : MemoryNamespace} {u : Unit} :
    checkBudget H options m n = .ok u ↔
      ∃ entries, list H m (some n) = .ok entries ∧
        totalBytes H entries ≤ options.byteBudgets n := by
  simp only [checkBudget, bind_eq_ok, throwIf_eq_ok, not_lt]

theorem safe?_isSafe {n : JsNumber} {i : Int} (h : safe? n = some i) : IsSafe i := by
  simpa using (Option.filter_eq_some_iff.mp h).2

theorem checkCall_eq_ok {expected : Int} : checkCall call = .ok expected ↔
    safe? call.expectedRevision = some expected ∧ call.operations ≠ [] := by
  simp only [checkCall, bind_eq_ok, orThrow_eq_ok, throwIf_eq_ok]
  constructor
  · rintro ⟨_, hsafe, _, hne, h⟩
    exact ⟨Except.ok.inj h ▸ hsafe, hne⟩
  · rintro ⟨hsafe, hne⟩
    exact ⟨expected, hsafe, (), hne, rfl⟩

theorem readRevision_eq_ok {revision : Int} :
    readRevision t = .ok revision ↔ IsSafe t.revision ∧ revision = t.revision := by
  simp only [readRevision, bind_eq_ok, throwIf_eq_ok, not_not]
  constructor
  · rintro ⟨_, hsafe, h⟩
    exact ⟨hsafe, (Except.ok.inj h).symm⟩
  · rintro ⟨hsafe, rfl⟩
    exact ⟨(), hsafe, rfl⟩

theorem transact_spec (H : MemoryHost) (options : MemoryStoreOptions) (t : MemoryTables)
    (call : BatchCall) :
    (∃ revision, (transact H options t call).1 = .ok revision ∧
      Committed H options t call revision (transact H options t call).2) ∨
    ((∃ err, (transact H options t call).1 = .error err) ∧
      (transact H options t call).2 = t) := by
  unfold transact
  cases hcheck : checkCall call with
  | error err => exact .inr ⟨⟨err, rfl⟩, rfl⟩
  | ok expected =>
    -- what fails leaves the tables as they are: the check, the begin, the body and the commit
    by_cases hbegins : call.begins = false
    · simp only [if_pos hbegins]
      exact .inr ⟨⟨_, rfl⟩, trivial⟩
    simp only [if_neg hbegins]
    cases hbody : batchBody H options t expected call with
    | error err => exact .inr ⟨⟨err, rfl⟩, rfl⟩
    | ok t' =>
      by_cases hcommits : call.commits = false
      · simp only [if_pos hcommits]
        exact .inr ⟨⟨_, rfl⟩, trivial⟩
      left
      simp only [if_neg hcommits]
      refine ⟨t'.revision, rfl, ?_⟩
      obtain ⟨hexpected, -⟩ := checkCall_eq_ok.mp hcheck
      simp only [batchBody, bind_eq_ok, readRevision_eq_ok, throwIf_eq_ok, not_not] at hbody
      obtain ⟨_, ⟨_, rfl⟩, _, rfl, curated, hcurated, _, huser, _, hagent, h⟩ := hbody
      obtain rfl := Except.ok.inj h
      exact {
        expected := hexpected
        returned := rfl
        revision := rfl
        applied := applyOperations_spec hcurated
        unique := curated.unique
        budget := by
          intro n
          cases n with
          | user => exact checkBudget_eq_ok.mp huser
          | agent => exact checkBudget_eq_ok.mp hagent
        snapshots := rfl }

/-- The body goes through for a batch of this revision whose operations go through in their
budgets. -/
theorem exists_batchBody_iff {expected : Int} (hsafe : IsSafe expected) :
    (∃ t', batchBody H options t expected call = .ok t') ↔ t.revision = expected ∧
      ∃ curated, applyOperations H call.occasion 0 t.curated call.operations = .ok curated ∧
        ∀ n, ∃ entries, list H curated (some n) = .ok entries ∧
          totalBytes H entries ≤ options.byteBudgets n := by
  simp only [batchBody, bind_eq_ok, readRevision_eq_ok, throwIf_eq_ok, not_not]
  constructor
  · rintro ⟨_, _, ⟨_, rfl⟩, _, hsame, curated, hcurated, _, huser, _, hagent, _⟩
    refine ⟨hsame, curated, hcurated, fun n => ?_⟩
    cases n with
    | user => exact checkBudget_eq_ok.mp huser
    | agent => exact checkBudget_eq_ok.mp hagent
  · rintro ⟨rfl, curated, hcurated, hbudget⟩
    exact ⟨_, _, ⟨hsafe, rfl⟩, (), rfl, curated, hcurated, (),
      checkBudget_eq_ok.mpr (hbudget .user), (), checkBudget_eq_ok.mpr (hbudget .agent), rfl⟩

/-- The transactions that commit are those of admitted batches. -/
theorem transact_ok_iff :
    (∃ revision, (transact H options t call).1 = .ok revision) ↔ Admitted H options t call := by
  constructor
  · rintro ⟨revision, h⟩
    unfold transact at h
    split at h
    · simp at h
    · rename_i expected hcheck
      obtain ⟨hexpected, hne⟩ := checkCall_eq_ok.mp hcheck
      split at h
      · simp at h
      · rename_i hbegins
        split at h
        · simp at h
        · rename_i t' hbody
          split at h
          · simp at h
          · rename_i hcommits
            obtain ⟨rfl, happlies⟩ := (exists_batchBody_iff (safe?_isSafe hexpected)).mp ⟨t', hbody⟩
            exact ⟨hexpected, hne, by simpa using hbegins, happlies, by simpa using hcommits⟩
  · intro h
    obtain ⟨t', hbody⟩ := (exists_batchBody_iff (safe?_isSafe h.expected)).mpr ⟨rfl, h.applies⟩
    refine ⟨t'.revision, ?_⟩
    simp [transact, checkCall_eq_ok.mpr ⟨h.expected, h.operations⟩, h.begins, hbody, h.commits]

/-! ### Reading after the transaction -/

/-- Every row can be read as an entry. -/
def Readable (H : MemoryHost) (m : CuratedMemory) : Prop :=
  ∀ r ∈ m.table.rows, ∃ e, rowEntry H r = .ok e

theorem exists_list_iff : (∃ entries, list H m none = .ok entries) ↔ Readable H m := by
  simp [list, exists_mapM_eq_ok_iff, Readable]

/-- What is in its budgets can be read. -/
theorem Committed.readable {revision : Int} (h : Committed H options t call revision t') :
    Readable H t'.curated := by
  intro r hr
  obtain ⟨entries, hlist, -⟩ := h.budget r.memoryNamespace
  refine exists_mapM_eq_ok_iff.mp ⟨entries, hlist⟩ r (List.mem_filter.mpr ⟨hr, ?_⟩)
  simp

/-- Starting a session writes no entry and no revision. -/
theorem startSession_frame (H : MemoryHost) (options : MemoryStoreOptions) (t : MemoryTables)
    (call : SessionCall) : (startSession H options t call).2.curated = t.curated ∧
      (startSession H options t call).2.revision = t.revision := by
  unfold startSession
  split
  · exact ⟨rfl, rfl⟩
  · split
    · exact ⟨rfl, rfl⟩
    · split
      · exact ⟨rfl, rfl⟩
      · exact ⟨rfl, rfl⟩
      · split
        · exact ⟨rfl, rfl⟩
        · rename_i t' hinsert
          simp only [insertSnapshot, bind_eq_ok] at hinsert
          obtain ⟨_, _, _, _, _, _, _, _, h⟩ := hinsert
          obtain rfl := Except.ok.inj h
          split <;> exact ⟨rfl, rfl⟩

theorem readable_step (h : Readable H t.curated) (e : MemoryEvent) :
    Readable H (memoryStep H t e).curated := by
  cases e with
  | applyBatch options call =>
    rcases transact_spec H options t call with ⟨_, _, hcommitted⟩ | ⟨_, hsame⟩
    · exact hcommitted.readable
    · rwa [memoryStep, hsame]
  | startSession options call => rwa [memoryStep, (startSession_frame H options t call).1]
  | deleteSessionSnapshot sessionId =>
    simp only [memoryStep, deleteSessionSnapshot]
    split <;> exact h

theorem readable_run (h : Readable H t.curated) (es : List MemoryEvent) :
    Readable H (run (memoryStep H) t es).curated :=
  run_invariant (P := fun t : MemoryTables => Readable H t.curated)
    (fun _ e h => readable_step h e) h

/-- A call that commits returns, whatever others do before it reads the entries, unless that read
fails. -/
theorem applyBatch_of_committed {revision : Int} (h : (transact H options t call).1 = .ok revision)
    (hcommitted : Committed H options t call revision (transact H options t call).2)
    (hreads : call.reads = true) (es : List MemoryEvent) : ∃ entries, applyBatch H options t call
      (run (memoryStep H) (transact H options t call).2 es) = .ok (revision, entries) := by
  obtain ⟨entries, hlist⟩ := exists_list_iff.mpr (readable_run hcommitted.readable es)
  refine ⟨entries, ?_⟩
  rw [applyBatch, h, hlist]
  simp [hreads, throwIf]

/-- A call that cannot read the entries throws. -/
theorem applyBatch_of_not_reads (hreads : call.reads = false) (later : MemoryTables) :
    ∃ err, applyBatch H options t call later = .error err := by
  cases h : (transact H options t call).1 with
  | error err => exact ⟨err, by simp [applyBatch, h]; rfl⟩
  | ok revision => exact ⟨_, by simp [applyBatch, h, hreads, throwIf]; rfl⟩

/-- A call is atomic unless its batch commits and the read after it fails. -/
theorem atomic_iff (es : List MemoryEvent) :
    Atomic H options t call es ↔ (Admitted H options t call → call.reads = true) := by
  rcases transact_spec H options t call with ⟨revision, hok, hcommitted⟩ | ⟨⟨err, herr⟩, hsame⟩
  · have hadmitted := transact_ok_iff.mp ⟨revision, hok⟩
    cases hreads : call.reads with
    | true =>
      obtain ⟨entries, hreturns⟩ := applyBatch_of_committed hok hcommitted hreads es
      exact iff_of_true (.inl ⟨revision, entries, hreturns, hcommitted⟩) fun _ => rfl
    | false =>
      have hthrows : ∃ err, applyBatch H options t call
          (run (memoryStep H) (transact H options t call).2 es) = .error err :=
        applyBatch_of_not_reads hreads _
      obtain ⟨err, hthrows⟩ := hthrows
      refine iff_of_false ?_ fun h => Bool.noConfusion (h hadmitted)
      rintro (⟨_, _, hreturns, _⟩ | ⟨_, hsame⟩)
      · rw [hthrows] at hreturns
        simp at hreturns
      · -- the revision shows that the batch was applied
        have hrevision := hcommitted.revision
        rw [hsame] at hrevision
        omega
  · refine iff_of_true (.inr ⟨⟨err, ?_⟩, hsame⟩) fun h => ?_
    · rw [applyBatch, herr]
      rfl
    · obtain ⟨revision, hok⟩ := transact_ok_iff.mpr h
      rw [herr] at hok
      simp at hok

/-! ### The revision -/

theorem revision_step (H : MemoryHost) (t : MemoryTables) (e : MemoryEvent) :
    t.revision ≤ (memoryStep H t e).revision := by
  cases e with
  | applyBatch options call =>
    rcases transact_spec H options t call with ⟨_, _, hcommitted⟩ | ⟨_, hsame⟩
    · rw [memoryStep, hcommitted.revision]
      omega
    · rw [memoryStep, hsame]
  | startSession options call => rw [memoryStep, (startSession_frame H options t call).2]
  | deleteSessionSnapshot sessionId =>
    simp only [memoryStep, deleteSessionSnapshot]
    split <;> exact le_rfl

theorem revision_run (H : MemoryHost) (t : MemoryTables) (es : List MemoryEvent) :
    t.revision ≤ (run (memoryStep H) t es).revision := by
  induction es generalizing t with
  | nil => exact le_rfl
  | cons e es ih => exact (revision_step H t e).trans (ih _)

/-- A batch that succeeds found the revision it expected, and leaves the next one. -/
theorem Wins.revision {e : MemoryEvent} {expected : Int} (h : Wins H t e expected) :
    t.revision = expected ∧ (memoryStep H t e).revision = expected + 1 := by
  obtain ⟨options, call, revision, rfl, hexpected, hok⟩ := h
  rcases transact_spec H options t call with ⟨_, _, hcommitted⟩ | ⟨⟨err, herr⟩, _⟩
  · obtain rfl := Option.some.inj (hexpected.symm.trans hcommitted.expected)
    exact ⟨rfl, hcommitted.revision⟩
  · rw [hok] at herr
    simp at herr

/-! ### Namespaces -/

theorem text_injective {n n' : MemoryNamespace} (h : n.text = n'.text) : n = n' := by
  cases n <;> cases n' <;> simp_all [MemoryNamespace.text]

/-- Rows that are changed among those that are left out do not show. -/
theorem filter_map_eq {α : Type} {l : List α} {f : α → α} {p : α → Bool}
    (h : ∀ a ∈ l, f a = a ∨ p a = false ∧ p (f a) = false) : (l.map f).filter p = l.filter p := by
  induction l with
  | nil => rfl
  | cons a l ih =>
    have hrest := ih fun b hb => h b (List.mem_cons_of_mem a hb)
    rcases h a List.mem_cons_self with hsame | ⟨hout, hout'⟩
    · rw [List.map_cons, hsame]
      simp only [List.filter_cons, hrest]
    · rw [List.map_cons, List.filter_cons_of_neg (by simp [hout']),
        List.filter_cons_of_neg (by simp [hout]), hrest]

/-- An operation of one namespace leaves the rows of the others alone. -/
theorem Applied.filter_ne {rows rows' : List MemoryRow} {n : MemoryNamespace}
    {operation : ScopedOperation} (h : Applied H o rows (scopedOperation n operation) rows') :
    rows'.filter (·.memoryNamespace ≠ n) = rows.filter (·.memoryNamespace ≠ n) := by
  cases operation with
  -- the new row is of this namespace, as are those that are written or removed
  | add value source =>
    cases h with
    | add hn _ =>
      obtain rfl := text_injective hn
      simp [newRow, storedAs]
  | replace id value source =>
    cases h with
    | replace hn _ _ hall =>
      obtain rfl := text_injective hn
      refine filter_map_eq fun r hr => ?_
      by_cases hid : r.id = id
      · simp [hid, replacedRow, hall r hr hid]
      · simp [hid]
  | remove id =>
    cases h with
    | remove _ hall =>
      rw [List.filter_filter]
      refine List.filter_congr fun r hr => ?_
      by_cases hid : r.id = id
      · have hn : r.memoryNamespace = n := by
          refine text_injective (hall r hr hid n.text rfl ?_)
          cases n <;> decide
        simp [hn]
      · simp [hid]

theorem AppliedAll.filter_ne {rows rows' : List MemoryRow} {n : MemoryNamespace} {k : Nat}
    {operations : List ScopedOperation}
    (h : AppliedAll H call.occasion k rows (operations.map (scopedOperation n)) rows') :
    rows'.filter (·.memoryNamespace ≠ n) = rows.filter (·.memoryNamespace ≠ n) := by
  induction operations generalizing k rows with
  | nil =>
    cases h
    rfl
  | cons operation operations ih =>
    cases h with
    | cons hone hrest => rw [ih hrest, hone.filter_ne]

/-! ### Snapshots -/

/-- A session that is started inserts a snapshot at most, and takes some out. -/
theorem startSession_snapshots (H : MemoryHost) (options : MemoryStoreOptions) (t : MemoryTables)
    (call : SessionCall) : (startSession H options t call).2.snapshots = t.snapshots ∨
      ∃ row snapshots p, t.snapshots.insert? row = some snapshots ∧
        (startSession H options t call).2.snapshots = snapshots.delete p := by
  unfold startSession
  split
  · exact .inl rfl
  · split
    · exact .inl rfl
    · split
      · exact .inl rfl
      · exact .inl rfl
      · split
        · exact .inl rfl
        · rename_i t' hinsert
          simp only [insertSnapshot, bind_eq_ok, orThrow_eq_ok] at hinsert
          obtain ⟨_, _, _, _, _, _, snapshots, hrow, h⟩ := hinsert
          obtain rfl := Except.ok.inj h
          split
          · exact .inl rfl
          · exact .inr ⟨_, snapshots, _, hrow, rfl⟩

theorem find?_delete_of_some {snapshots : Table SnapshotRow.sessionId} {p : SnapshotRow → Bool}
    {sessionId : String} {r r' : SnapshotRow} (h : snapshots.find? sessionId = some r)
    (h' : (snapshots.delete p).find? sessionId = some r') : r' = r := by
  rw [Table.find?_delete, h] at h'
  exact (Option.some.inj (Option.filter_eq_some_iff.mp h').1).symm

/-- No event writes a snapshot that is there: it is kept or taken out. -/
theorem snapshot_step (H : MemoryHost) (t : MemoryTables) (e : MemoryEvent) {sessionId : String}
    {r r' : SnapshotRow} (h : t.snapshots.find? sessionId = some r)
    (h' : (memoryStep H t e).snapshots.find? sessionId = some r') : r' = r := by
  cases e with
  | applyBatch options call =>
    -- a batch changes no snapshot
    have hsame : (transact H options t call).2.snapshots = t.snapshots := by
      rcases transact_spec H options t call with ⟨_, _, hcommitted⟩ | ⟨_, hsame⟩
      · exact hcommitted.snapshots
      · rw [hsame]
    rw [memoryStep, hsame, h] at h'
    exact (Option.some.inj h').symm
  | startSession options call =>
    rw [memoryStep] at h'
    rcases startSession_snapshots H options t call with hsame | ⟨row, snapshots, p, hinsert, hrows⟩
    · rw [hsame, h] at h'
      exact (Option.some.inj h').symm
    · rw [hrows] at h'
      -- a session has one snapshot, which is not written again
      exact find?_delete_of_some (Table.find?_insert?_of_some hinsert h) h'
  | deleteSessionSnapshot id =>
    simp only [memoryStep, deleteSessionSnapshot] at h'
    split at h'
    · rw [h] at h'
      exact (Option.some.inj h').symm
    · exact find?_delete_of_some h h'

theorem snapshot_run (H : MemoryHost) (t : MemoryTables) (sessionId : String)
    (es : List MemoryEvent) (h : Throughout (memoryStep H)
      (fun t => (t.snapshots.find? sessionId).isSome) t es) :
    (run (memoryStep H) t es).snapshots.find? sessionId = t.snapshots.find? sessionId := by
  induction es generalizing t with
  | nil => rfl
  | cons e es ih =>
    obtain ⟨hhere, hrest⟩ := throughout_cons.mp h
    obtain ⟨r, hr⟩ := Option.isSome_iff_exists.mp hhere
    obtain ⟨r', hr'⟩ := Option.isSome_iff_exists.mp (hrest [] es rfl)
    rw [run_cons, ih _ hrest, hr]
    exact (snapshot_step H t e hr hr') ▸ hr'

/-! ### Batches and snapshots -/

/-- **Curated memory.** Batches are atomic under every interleaving, but for those that commit and
cannot read the entries afterwards; one at most succeeds for each revision; those of one namespace
leave the others alone; snapshots never change. -/
theorem batches_sound (H : MemoryHost) : BatchesSound H where
  atomic _ _ _ es := atomic_iff es
  exclusive := by
    intro t expected before between e e' hwins hwins'
    rw [run_append, run_cons] at hwins'
    -- the revision has gone on since the first batch
    have hbehind := revision_run H (memoryStep H (run (memoryStep H) t before) e) between
    rw [hwins.revision.2, hwins'.revision.1] at hbehind
    omega
  separate := by
    intro options t call n operations hoperations
    rcases transact_spec H options t call with ⟨_, _, hcommitted⟩ | ⟨_, hsame⟩
    · have happlied := hcommitted.applied
      rw [hoperations] at happlied
      exact happlied.filter_ne
    · rw [hsame]
  snapshot := snapshot_run H

/-- Entries and sources as they are, no secrets, no budget. -/
def plainMemory : MemoryHost where
  nfkc := id
  lower := id
  secret _ := false
  provenanceJson source := source
  parseProvenance := some
  entriesJson _ := ""
  parseEntries _ := none

/-- A call that adds one entry to an empty store and cannot read the entries after its `COMMIT`. -/
def unread : BatchCall where
  expectedRevision := .finite 0
  operations := [.add ⟨"user", "prefers SOL", "chat"⟩]
  occasion _ := ⟨.finite 1760000000000, "m1", true⟩
  begins := true
  commits := true
  reads := false

/-- It throws, and its entry is there. -/
theorem unread_not_atomic : ¬Atomic plainMemory ⟨fun _ => 65536, 10⟩
    ⟨⟨⟨[], by simp⟩, by simp⟩, 0, ⟨[], by simp⟩⟩ unread [] := by
  rw [atomic_iff]
  intro h
  refine Bool.noConfusion (h (transact_ok_iff.mp ⟨1, ?_⟩))
  rfl

end AriOs.Cognition
