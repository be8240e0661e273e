import AriOs.Js.Throw
import AriOs.Storage.Table
import Mathlib.Data.List.Sort

/-!
# The session store

Sessions hold messages; a session may be branched from a message of another one. The two tables
live in a database whose constraints refuse a branch without a branch point, a message without a
session, and a second row under an id. Messages are numbered as they are inserted.

The history of a session is read up its lineage: of every ancestor the messages up to the branch
point, then the session's own.

## Main definitions

* `Session`, `Message`, `SessionStore`
* `createSession`, `appendMessage` — the statements, with what they return and the store they leave
-/

namespace AriOs.Storage

open AriOs.Js

inductive MessageRole where
  | user | assistant | system | tool
  deriving DecidableEq, Repr

/-- Where a session was branched from; a row has both columns or neither. -/
structure Branch where
  parentSessionId : String
  parentMessageId : String
  deriving DecidableEq, Repr

structure Session where
  id : String
  title : Option String
  branch : Option Branch
  createdAt : Int
  deriving DecidableEq, Repr

/-- Where a session cuts the one it was branched from. -/
def Session.cut (s : Session) : Option String := s.branch.map Branch.parentMessageId

structure Message where
  id : String
  sessionId : String
  role : MessageRole
  content : String
  createdAt : Int
  sequence : Nat
  deriving DecidableEq, Repr

structure SessionInput where
  id : String
  title : Option String
  parentSessionId : Option String
  parentMessageId : Option String
  createdAt : Option Int

structure MessageInput where
  id : String
  sessionId : String
  role : MessageRole
  content : String
  createdAt : Int

/-- The row of a message under its number. -/
def MessageInput.row (i : MessageInput) (sequence : Nat) : Message :=
  ⟨i.id, i.sessionId, i.role, i.content, i.createdAt, sequence⟩

/-- The two tables, and the last sequence number that was given out. -/
structure SessionStore where
  sessions : Table Session.id
  messages : Table Message.id
  sequence : Nat

namespace SessionStore

def empty : SessionStore := ⟨Table.empty, Table.empty, 0⟩

/-- `CHECK((parent_session_id IS NULL)=(parent_message_id IS NULL))`. -/
def checkBranch (i : SessionInput) : Except String (Option Branch) :=
  match i.parentSessionId, i.parentMessageId with
  | some s, some m => .ok (some ⟨s, m⟩)
  | none, none => .ok none
  | _, _ =>
    .error "CHECK constraint failed: (parent_session_id IS NULL)=(parent_message_id IS NULL)"

/-- The message a branch refers to, in the session it refers to. -/
def branchPoint (st : SessionStore) (b : Branch) : Option Message :=
  (st.messages.find? b.parentMessageId).filter (·.sessionId = b.parentSessionId)

/-- `INSERT INTO sessions ... ON CONFLICT DO NOTHING`. -/
def insertSession (st : SessionStore) (row : Session) : Except String SessionStore :=
  match st.sessions.insert? row with
  | none => .ok st
  | some sessions => do
    throwIf (∃ b ∈ row.branch, st.branchPoint b = none) "FOREIGN KEY constraint failed"
    .ok { st with sessions }

def getSession (st : SessionStore) (id : String) : Option Session := st.sessions.find? id

/-- What the insertion returns: the row that is there now, if it is the one asked for. -/
def sessionCreated (st : SessionStore) (row : Session) : Except String Session := do
  let s ← orThrow (st.getSession row.id) s!"Session id conflict: {row.id}"
  throwIf (s.title ≠ row.title ∨ s.branch ≠ row.branch ∨ s.createdAt ≠ row.createdAt)
    s!"Session id conflict: {row.id}"
  .ok s

/-- `createSession`, and `branchSession` where the input has a parent. -/
def createSession (st : SessionStore) (i : SessionInput) (now : Int) :
    Except String Session × SessionStore :=
  match checkBranch i with
  | .error err => (.error err, st)
  | .ok branch =>
    let row : Session := ⟨i.id, i.title, branch, i.createdAt.getD now⟩
    match st.insertSession row with
    | .error err => (.error err, st)
    | .ok st' => (st'.sessionCreated row, st')

/-- `INSERT INTO messages ... ON CONFLICT DO NOTHING`. A conflict uses up the number. -/
def insertMessage (st : SessionStore) (i : MessageInput) : Except String SessionStore :=
  match st.messages.insert? (i.row (st.sequence + 1)) with
  | none => .ok { st with sequence := st.sequence + 1 }
  | some messages => do
    throwIf (st.getSession i.sessionId = none) "FOREIGN KEY constraint failed"
    .ok { st with messages, sequence := st.sequence + 1 }

def messageAppended (st : SessionStore) (i : MessageInput) : Except String Message := do
  let m ← orThrow (st.messages.find? i.id) s!"Message id conflict: {i.id}"
  throwIf (m.sessionId ≠ i.sessionId ∨ m.role ≠ i.role ∨ m.content ≠ i.content ∨
    m.createdAt ≠ i.createdAt) s!"Message id conflict: {i.id}"
  .ok m

def appendMessage (st : SessionStore) (i : MessageInput) : Except String Message × SessionStore :=
  match st.insertMessage i with
  | .error err => (.error err, st)
  | .ok st' => (st'.messageAppended i, st')

/-- `SELECT * FROM messages WHERE session_id=? ORDER BY sequence`. -/
def ownMessages (st : SessionStore) (id : String) : List Message :=
  (st.messages.rows.filter (·.sessionId = id)).insertionSort (·.sequence ≤ ·.sequence)

/-- What reading a history can throw; `exhausted` stands for a loop that does not end. -/
inductive HistoryError where
  | lineageCycle | missingBranchPoint | exhausted
  deriving DecidableEq, Repr

/-- The session the loop goes on with; an empty id counts as none. -/
def parentOf (st : SessionStore) (s : Session) : Option Session :=
  match s.branch with
  | some b => if b.parentSessionId = "" then none else st.getSession b.parentSessionId
  | none => none

/-- The loop up the ancestors, which puts each of them in front of the line. -/
def lineage (st : SessionStore) :
    Nat → List String → List Session → Option Session → Except HistoryError (List Session)
  | _, _, line, none => .ok line
  | 0, _, _, some _ => .error .exhausted
  | fuel + 1, seen, line, some s =>
    if s.id ∈ seen then .error .lineageCycle
    else st.lineage fuel (s.id :: seen) (s :: line) (st.parentOf s)

/-- The messages of one session of the line; an empty branch point does not cut. -/
def piece (st : SessionStore) (s : Session) (cut : Option String) :
    Except HistoryError (List Message) :=
  let rows := st.ownMessages s.id
  match cut.filter (· ≠ "") with
  | none => .ok rows
  | some cut =>
    match rows.findIdx? (·.id = cut) with
    | none => .error .missingBranchPoint
    | some p => .ok (rows.take (p + 1))

/-- `line[n + 1]?.parentMessageId`, where the rest of the line is given; behind it is `last`. -/
def nextCut (last : Option String) : List Session → Option String
  | [] => last
  | next :: _ => next.cut

/-- The loop down the line: each session is cut where the next one was branched, and the last one
at `last`. -/
def gather (st : SessionStore) (last : Option String) :
    List Session → Except HistoryError (List Message)
  | [] => .ok []
  | s :: line => do
    let messages ← st.piece s (nextCut last line)
    let rest ← st.gather last line
    .ok (messages ++ rest)

/-- `getMessages`. A loop over different sessions ends before there are none left. -/
def getMessages (st : SessionStore) (id : String) (includeAncestors : Bool) :
    Except HistoryError (List Message) :=
  if includeAncestors then do
    let line ← st.lineage (st.sessions.rows.length + 1) [] [] (st.getSession id)
    st.gather none line
  else .ok (st.ownMessages id)

/-! ### Runs -/

/-- A call of the store. -/
inductive Call where
  | createSession (i : SessionInput) (now : Int)
  | appendMessage (i : MessageInput)

/-- The store after a call, whether it returned or threw. -/
def step (st : SessionStore) : Call → SessionStore
  | .createSession i now => (st.createSession i now).2
  | .appendMessage i => (st.appendMessage i).2

end SessionStore

end AriOs.Storage
