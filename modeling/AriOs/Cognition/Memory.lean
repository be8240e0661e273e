import AriOs.Js.Numeral
import AriOs.Js.Throw
import AriOs.Js.Value
import AriOs.Storage.Table
import Mathlib.Data.List.Sort

/-!
# Curated memory

Entries of two namespaces, a revision that counts the batches applied to them, and snapshots of
the entries that sessions were started with, in three tables of one database. A batch runs in one
transaction, which holds the write lock from its first statement on, so that no other holder of
the database writes in between. A batch ends by reading the entries once more, a start by reading
its snapshot, both outside of the transaction: such a read can fail after `COMMIT`.

Unicode normalisation, lower case, the patterns for secrets and the JSON of the columns are
parameters.
-/

namespace AriOs.Cognition

open AriOs.Js AriOs.Storage

inductive MemoryNamespace where
  | user | agent
  deriving DecidableEq, Repr

def MemoryNamespace.text : MemoryNamespace → String
  | .user => "user"
  | .agent => "agent"

/-! ### Tables -/

/-- A row of `curated_memory`. -/
structure MemoryRow where
  id : String
  memoryNamespace : MemoryNamespace
  value : String
  normalizedValue : String
  provenanceJson : String
  createdAt : Int
  updatedAt : Int
  deriving DecidableEq, Repr

/-- What `UNIQUE(namespace,normalized_value)` is about. -/
def MemoryRow.uniqueKey (r : MemoryRow) : MemoryNamespace × String :=
  (r.memoryNamespace, r.normalizedValue)

/-- The entries under both constraints of their table. -/
structure CuratedMemory where
  table : Table MemoryRow.id
  unique : (table.rows.map MemoryRow.uniqueKey).Nodup

structure SnapshotRow where
  sessionId : String
  revision : Int
  createdAt : Int
  entriesJson : String
  deriving DecidableEq, Repr

structure MemoryTables where
  curated : CuratedMemory
  revision : Int
  snapshots : Table SnapshotRow.sessionId

inductive ErrorCode where
  | revisionConflict | secretDetected | duplicate | budgetExceeded | invalidOperation | corruptData
  deriving DecidableEq, Repr

/-- An error of the store, or one of the database. -/
inductive MemoryError where
  | store (code : ErrorCode) (message : String)
  | database (message : String)
  deriving DecidableEq, Repr

def invalid (message : String) : MemoryError := .store .invalidOperation message

def corrupt : MemoryError := .store .corruptData "Corrupt durable memory data"

namespace CuratedMemory

/-- `INSERT INTO curated_memory`. -/
def insert (m : CuratedMemory) (row : MemoryRow) : Except MemoryError CuratedMemory :=
  match h : m.table.insert? row with
  | none => .error (.database "UNIQUE constraint failed: curated_memory.id")
  | some table =>
    if hunique : row.uniqueKey ∈ m.table.rows.map MemoryRow.uniqueKey then
      .error (.store .duplicate "Duplicate normalized memory entry")
    else .ok ⟨table, by
      rw [Table.rows_of_insert? h, List.map_append, List.nodup_append]
      refine ⟨m.unique, by simp, ?_⟩
      intro a ha b hb
      simp only [List.map_cons, List.map_nil, List.mem_singleton] at hb
      rintro rfl
      exact hunique (hb ▸ ha)⟩

/-- `UPDATE curated_memory SET ... WHERE id=?`. -/
def update (m : CuratedMemory) (id : String) (f : MemoryRow → MemoryRow)
    (hf : ∀ r, (f r).id = r.id) : Except MemoryError CuratedMemory :=
  let table := m.table.update (·.id = id) f hf
  if hunique : (table.rows.map MemoryRow.uniqueKey).Nodup then .ok ⟨table, hunique⟩
  else .error (.store .duplicate "Duplicate normalized memory entry")

/-- `DELETE FROM curated_memory WHERE p`. -/
def delete (m : CuratedMemory) (p : MemoryRow → Bool) : CuratedMemory where
  table := m.table.delete p
  unique := m.unique.sublist (List.filter_sublist.map _)

end CuratedMemory

/-! ### Entries -/

structure MemoryEntry where
  id : String
  memoryNamespace : MemoryNamespace
  value : String
  normalizedValue : String
  source : String
  createdAt : Int
  updatedAt : Int
  deriving DecidableEq, Repr

/-- What the language and its libraries provide. -/
structure MemoryHost where
  /-- `s.normalize("NFKC")` -/
  nfkc : String → String
  /-- `s.toLocaleLowerCase("en-US")` -/
  lower : String → String
  /-- some pattern for secrets is found -/
  secret : String → Bool
  /-- `JSON.stringify({ source })` -/
  provenanceJson : String → String
  /-- the source in a text of this form -/
  parseProvenance : String → Option String
  entriesJson : List MemoryEntry → String
  parseEntries : String → Option (List MemoryEntry)

/-- The options of a store that was opened on the database. -/
structure MemoryStoreOptions where
  byteBudgets : MemoryNamespace → Nat
  snapshotRetention : Nat

def MAX_VALUE_BYTES : Nat := 64 * 1024
def MAX_SOURCE_BYTES : Nat := 1024
def MAX_SESSION_BYTES : Nat := 256

/-- A nonnegative safe integer. -/
def IsSafe (n : Int) : Prop := 0 ≤ n ∧ n ≤ JsNumber.maxSafeInteger

instance (n : Int) : Decidable (IsSafe n) := inferInstanceAs (Decidable (_ ∧ _))

/-- The integer in a number, if it is a nonnegative safe one. -/
def safe? (n : JsNumber) : Option Int := n.toBigInt?.filter fun i => IsSafe i

structure EntryInput where
  memoryNamespace : String
  value : String
  source : String

inductive MemoryOperation where
  | add (entry : EntryInput)
  | replace (id : String) (entry : EntryInput)
  | remove (id : String) (memoryNamespace : Option String)

/-- What is stored of an entry. -/
structure CleanEntry where
  memoryNamespace : MemoryNamespace
  value : String
  normalized : String
  source : String
  deriving DecidableEq

variable (H : MemoryHost)

def normalize (value : String) : String :=
  H.nfkc (String.intercalate " " ((words value).map String.ofList))

def namespaceOf (text : String) : Except MemoryError MemoryNamespace :=
  if text = "policy" then .error (invalid "Policy memory namespace is forbidden")
  else if text = "user" then .ok .user
  else if text = "agent" then .ok .agent
  else .error (invalid "Invalid memory namespace")

def validate (entry : EntryInput) : Except MemoryError CleanEntry := do
  let memoryNamespace ← namespaceOf entry.memoryNamespace
  throwIf (entry.value.utf8ByteSize > MAX_VALUE_BYTES)
    (invalid "Memory value is invalid or too large")
  throwIf (entry.source.utf8ByteSize > MAX_SOURCE_BYTES)
    (invalid "Memory provenance is invalid or too large")
  let value := normalize H entry.value
  let source := normalize H entry.source
  throwIf (value = "") (invalid "Memory value is empty")
  throwIf (source = "") (invalid "Memory provenance is required")
  throwIf (H.secret value ∨ H.secret source) (.store .secretDetected
    "Potential secret or credential detected by defense-in-depth scanning; memory was not stored")
  .ok { memoryNamespace, value, normalized := H.nfkc (H.lower value), source }

/-- A row as an entry. -/
def rowEntry (r : MemoryRow) : Except MemoryError MemoryEntry := do
  let source ← orThrow (H.parseProvenance r.provenanceJson) corrupt
  throwIf (¬IsSafe r.createdAt ∨ ¬IsSafe r.updatedAt) corrupt
  .ok { id := r.id, memoryNamespace := r.memoryNamespace, value := r.value
        normalizedValue := r.normalizedValue, source
        createdAt := r.createdAt, updatedAt := r.updatedAt }

/-- `list`, of one namespace or of both. -/
def list (m : CuratedMemory) (memoryNamespace : Option MemoryNamespace) :
    Except MemoryError (List MemoryEntry) :=
  (m.table.rows.filter fun r => ∀ n ∈ memoryNamespace, r.memoryNamespace = n).mapM (rowEntry H)

/-! ### Batches -/

/-- The row of a new entry. -/
def newRow (clean : CleanEntry) (id : String) (createdAt : Int) : MemoryRow where
  id := id
  memoryNamespace := clean.memoryNamespace
  value := clean.value
  normalizedValue := clean.normalized
  provenanceJson := H.provenanceJson clean.source
  createdAt := createdAt
  updatedAt := createdAt

/-- A row after its entry was replaced. -/
def replacedRow (clean : CleanEntry) (updatedAt : Int) (r : MemoryRow) : MemoryRow :=
  { r with
    value := clean.value, normalizedValue := clean.normalized
    provenanceJson := H.provenanceJson clean.source, updatedAt }

/-- What an operation finds: the clock, a random id, and whether the database does its part. -/
structure Occasion where
  at_ : JsNumber
  uuid : String
  works : Bool

/-- One operation of a batch. -/
def applyOperation (m : CuratedMemory) (operation : MemoryOperation) (o : Occasion) :
    Except MemoryError CuratedMemory :=
  match operation with
  | .remove id memoryNamespace => do
    throwIf (o.works = false) (.database "disk I/O error")
    let hit : MemoryRow → Bool := fun r =>
      r.id = id && ((memoryNamespace.filter (· ≠ "")).all (· = r.memoryNamespace.text))
    throwIf (m.table.count hit ≠ 1) (invalid s!"Unknown memory entry: {id}")
    .ok (m.delete hit)
  | .add entry => do
    let clean ← validate H entry
    let createdAt ← orThrow (safe? o.at_)
      (invalid "Memory timestamp must be a nonnegative safe integer")
    throwIf (o.works = false) (.database "disk I/O error")
    m.insert (newRow H clean o.uuid createdAt)
  | .replace id entry => do
    let clean ← validate H entry
    let updatedAt ← orThrow (safe? o.at_)
      (invalid "Memory timestamp must be a nonnegative safe integer")
    throwIf (o.works = false) (.database "disk I/O error")
    let current ← orThrow (m.table.find? id) (invalid s!"Unknown memory entry: {id}")
    throwIf (current.memoryNamespace.text ≠ entry.memoryNamespace)
      (invalid "Cross-namespace replacement is forbidden")
    m.update id (replacedRow H clean updatedAt) fun _ => rfl

/-- What an entry counts towards the budget of its namespace. -/
def entryBytes (e : MemoryEntry) : Nat :=
  (e.id ++ e.memoryNamespace.text ++ e.value ++ e.normalizedValue ++
    H.provenanceJson e.source).utf8ByteSize + 16

def totalBytes (entries : List MemoryEntry) : Nat := (entries.map (entryBytes H)).sum

def checkBudget (options : MemoryStoreOptions) (m : CuratedMemory) (n : MemoryNamespace) :
    Except MemoryError Unit := do
  let entries ← list H m (some n)
  throwIf (totalBytes H entries > options.byteBudgets n)
    (.store .budgetExceeded s!"{n.text} memory byte budget exceeded")

/-- `revision`. -/
def readRevision (t : MemoryTables) : Except MemoryError Int := do
  throwIf (¬IsSafe t.revision) corrupt
  .ok t.revision

/-- A call of `applyBatch`, with what it finds on its way; `reads` is about the statement after
`COMMIT`. -/
structure BatchCall where
  expectedRevision : JsNumber
  operations : List MemoryOperation
  occasion : Nat → Occasion
  begins : Bool
  commits : Bool
  reads : Bool

/-- The operations from the `k`-th on. -/
def applyOperations (occasion : Nat → Occasion) :
    Nat → CuratedMemory → List MemoryOperation → Except MemoryError CuratedMemory
  | _, m, [] => .ok m
  | k, m, operation :: operations => do
    let m' ← applyOperation H m operation (occasion k)
    applyOperations occasion (k + 1) m' operations

/-- The transaction of a batch. -/
def batchBody (options : MemoryStoreOptions) (t : MemoryTables) (expected : Int)
    (call : BatchCall) : Except MemoryError MemoryTables := do
  let revision ← readRevision t
  throwIf (revision ≠ expected) (.store .revisionConflict "Memory revision conflict")
  let curated ← applyOperations H call.occasion 0 t.curated call.operations
  checkBudget H options curated .user
  checkBudget H options curated .agent
  .ok { t with curated, revision := expected + 1 }

/-- What is checked before the transaction. -/
def checkCall (call : BatchCall) : Except MemoryError Int := do
  let expected ← orThrow (safe? call.expectedRevision)
    (invalid "Expected revision must be a nonnegative safe integer")
  throwIf (call.operations = []) (invalid "Empty memory batch")
  .ok expected

/-- The transaction, with the revision it leaves and the tables after its end: `ROLLBACK` where
something was thrown. -/
def transact (options : MemoryStoreOptions) (t : MemoryTables) (call : BatchCall) :
    Except MemoryError Int × MemoryTables :=
  match checkCall call with
  | .error e => (.error e, t)
  | .ok expected =>
    if call.begins = false then (.error (.database "database is locked"), t)
    else
      match batchBody H options t expected call with
      | .error e => (.error e, t)
      | .ok t' =>
        if call.commits = false then (.error (.database "disk I/O error"), t)
        else (.ok t'.revision, t')

/-- What `applyBatch` returns after its transaction, from the tables at that time: another holder
may have written since. -/
def applyBatch (options : MemoryStoreOptions) (t : MemoryTables) (call : BatchCall)
    (later : MemoryTables) : Except MemoryError (Int × List MemoryEntry) := do
  let revision ← (transact H options t call).1
  throwIf (call.reads = false) (.database "disk I/O error")
  let entries ← list H later.curated none
  .ok (revision, entries)

/-! ### Namespaces -/

inductive ScopedOperation where
  | add (value source : String)
  | replace (id value source : String)
  | remove (id : String)

/-- What `forNamespace` makes of an operation. -/
def scopedOperation (n : MemoryNamespace) : ScopedOperation → MemoryOperation
  | .add value source => .add ⟨n.text, value, source⟩
  | .replace id value source => .replace id ⟨n.text, value, source⟩
  | .remove id => .remove id (some n.text)

/-! ### Snapshots -/

structure MemorySnapshot where
  sessionId : String
  revision : Int
  createdAt : Int
  entries : List MemoryEntry
  deriving DecidableEq

def validateSessionId (id : String) : Except MemoryError Unit :=
  throwIf (isBlank id ∨ id.utf8ByteSize > MAX_SESSION_BYTES ∨ id ≠ H.nfkc id)
    (invalid "Session ID is invalid, non-canonical, or too large")

/-- A row as a snapshot. -/
def rowSnapshot (r : SnapshotRow) : Except MemoryError MemorySnapshot := do
  let entries ← orThrow (H.parseEntries r.entriesJson) corrupt
  throwIf (¬IsSafe r.revision ∨ ¬IsSafe r.createdAt) corrupt
  .ok { sessionId := r.sessionId, revision := r.revision, createdAt := r.createdAt, entries }

def getSessionSnapshot (t : MemoryTables) (sessionId : String) :
    Except MemoryError (Option MemorySnapshot) := do
  validateSessionId H sessionId
  match t.snapshots.find? sessionId with
  | none => .ok none
  | some r => do
    let snapshot ← rowSnapshot H r
    .ok (some snapshot)

/-- The snapshots that are kept: the latest ones, and of those created at one time the ones that
were inserted last. -/
def keptSnapshots (retention : Nat) (rows : List SnapshotRow) : List SnapshotRow :=
  (rows.reverse.insertionSort fun a b => b.createdAt ≤ a.createdAt).take retention

/-- The transaction of `startSession` where the session has no snapshot yet. -/
def insertSnapshot (options : MemoryStoreOptions) (t : MemoryTables) (sessionId : String)
    (now : JsNumber) : Except MemoryError MemoryTables := do
  let createdAt ← orThrow (safe? now)
    (invalid "Snapshot timestamp must be a nonnegative safe integer")
  let revision ← readRevision t
  let entries ← list H t.curated none
  let snapshots ← orThrow
    (t.snapshots.insert? ⟨sessionId, revision, createdAt, H.entriesJson entries⟩)
    (.database "UNIQUE constraint failed: memory_snapshots.session_id")
  let kept := keptSnapshots options.snapshotRetention snapshots.rows
  .ok { t with snapshots := snapshots.delete fun r => r ∉ kept }

/-- A call of `startSession`, with what it finds on its way. -/
structure SessionCall where
  sessionId : String
  now : JsNumber
  begins : Bool
  commits : Bool
  reads : Bool

/-- `startSession`, with the tables after it. -/
def startSession (options : MemoryStoreOptions) (t : MemoryTables) (call : SessionCall) :
    Except MemoryError MemorySnapshot × MemoryTables :=
  match validateSessionId H call.sessionId with
  | .error e => (.error e, t)
  | .ok _ =>
    if call.begins = false then (.error (.database "database is locked"), t)
    else
      match getSessionSnapshot H t call.sessionId with
      | .error e => (.error e, t)
      | .ok (some existing) =>
        (if call.commits = false then .error (.database "disk I/O error") else .ok existing, t)
      | .ok none =>
        match insertSnapshot H options t call.sessionId call.now with
        | .error e => (.error e, t)
        | .ok t' =>
          if call.commits = false then (.error (.database "disk I/O error"), t)
          else (do
            throwIf (call.reads = false) (.database "disk I/O error")
            let snapshot ← getSessionSnapshot H t' call.sessionId
            orThrow snapshot (invalid "Snapshot was removed by retention policy"), t')

/-- `deleteSessionSnapshot`, with the tables after it. -/
def deleteSessionSnapshot (t : MemoryTables) (sessionId : String) :
    Except MemoryError Bool × MemoryTables :=
  match validateSessionId H sessionId with
  | .error e => (.error e, t)
  | .ok _ => (.ok ((t.snapshots.find? sessionId).isSome),
    { t with snapshots := t.snapshots.delete (·.sessionId = sessionId) })

/-! ### Runs -/

/-- What a holder of the database does in one transaction. -/
inductive MemoryEvent where
  | applyBatch (options : MemoryStoreOptions) (call : BatchCall)
  | startSession (options : MemoryStoreOptions) (call : SessionCall)
  | deleteSessionSnapshot (sessionId : String)

/-- The tables after it. -/
def memoryStep (t : MemoryTables) : MemoryEvent → MemoryTables
  | .applyBatch options call => (transact H options t call).2
  | .startSession options call => (startSession H options t call).2
  | .deleteSessionSnapshot sessionId => (deleteSessionSnapshot H t sessionId).2

end AriOs.Cognition
