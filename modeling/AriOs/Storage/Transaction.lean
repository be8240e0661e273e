import Mathlib.Control.Monad.Basic

/-!
# Transactions on one connection

Code that works on a connection throws or returns, and what it wrote stays written when it
throws: only a rollback takes it back. A connection has at most one transaction open, and
remembers what the tables were when it began.

## Main definitions

* `Work.exec` — what it returns or throws, and the connection after it

## Main results

* `exec_bind`, `exec_tryCatch` — what a sequence does, and what a handler does
-/

namespace AriOs.Storage

/-- A connection. While a transaction is open, `saved` is what the tables were when it began. -/
structure Connection (τ : Type) where
  tables : τ
  saved : Option τ := none

/-- Code that works on a connection and may throw. -/
abbrev Work (τ α : Type) := ExceptT String (StateM (Connection τ)) α

namespace Work

variable {τ α β : Type}

/-- What the code returns or throws, and the connection after it. -/
def exec (w : Work τ α) (c : Connection τ) : Except String α × Connection τ := StateT.run w.run c

/-- The tables as the code sees them. -/
def tables : Work τ τ := do return (← getThe (Connection τ)).tables

/-- A statement that writes. -/
def write (t : τ) : Work τ Unit := modifyThe (Connection τ) fun c => { c with tables := t }

/-- `BEGIN IMMEDIATE`. -/
def begin_ : Work τ Unit := do
  let c ← getThe (Connection τ)
  if c.saved.isSome then throw "cannot start a transaction within a transaction"
  else set { c with saved := some c.tables }

/-- `COMMIT`. -/
def commit : Work τ Unit := do
  let c ← getThe (Connection τ)
  if c.saved.isSome then set { c with saved := none }
  else throw "cannot commit - no transaction is active"

/-- `ROLLBACK`. -/
def rollback : Work τ Unit := do
  let c ← getThe (Connection τ)
  match c.saved with
  | some t => set ({ tables := t } : Connection τ)
  | none => throw "cannot rollback - no transaction is active"

/-- A check, or a computation that may throw. -/
def check (x : Except String α) : Work τ α :=
  match x with
  | .ok a => return a
  | .error e => throw e

/-- `try { w } catch {}`. -/
def quietly (w : Work τ Unit) : Work τ Unit := tryCatch w fun _ => return ()

/-- What is left after a handler that cleans up where something was thrown. -/
def cleanedUp (out : Except String α × Connection τ) (cleanUp : Work τ Unit) :
    Except String α × Connection τ :=
  match out with
  | (.ok a, c) => (.ok a, c)
  | (.error e, c) => (.error e, (exec cleanUp c).2)

section Exec

variable {c : Connection τ} {t : τ}

@[simp] theorem exec_pure (a : α) : exec (pure a : Work τ α) c = (.ok a, c) := rfl

@[simp] theorem exec_throw (e : String) : exec (throw e : Work τ α) c = (.error e, c) := rfl

theorem exec_bind (w : Work τ α) (f : α → Work τ β) : exec (w >>= f) c =
    match exec w c with
    | (.ok a, c') => exec (f a) c'
    | (.error e, c') => (.error e, c') := by
  simp only [exec, StateT.run, ExceptT.run, bind, ExceptT.bind, ExceptT.mk, StateT.bind,
    ExceptT.bindCont]
  rcases w c with ⟨_ | a, c'⟩ <;> rfl

theorem exec_tryCatch (w : Work τ α) (f : String → Work τ α) : exec (tryCatch w f) c =
    match exec w c with
    | (.ok a, c') => (.ok a, c')
    | (.error e, c') => exec (f e) c' := by
  simp only [exec, StateT.run, ExceptT.run, tryCatch, tryCatchThe, MonadExceptOf.tryCatch,
    ExceptT.tryCatch, ExceptT.mk, bind, StateT.bind]
  rcases w c with ⟨_ | a, c'⟩ <;> rfl

@[simp] theorem exec_tables : exec tables c = (.ok c.tables, c) := rfl

@[simp] theorem exec_write : exec (write t) c = (.ok (), { c with tables := t }) := rfl

@[simp] theorem exec_begin_closed :
    exec begin_ (⟨t, none⟩ : Connection τ) = (.ok (), ⟨t, some t⟩) := rfl

@[simp] theorem exec_commit_open {old : τ} :
    exec commit (⟨t, some old⟩ : Connection τ) = (.ok (), ⟨t, none⟩) := rfl

@[simp] theorem exec_rollback_open {old : τ} :
    exec rollback (⟨t, some old⟩ : Connection τ) = (.ok (), ⟨old, none⟩) := rfl

/-- A rollback that there is nothing to roll back for changes nothing. -/
@[simp] theorem exec_rollback_closed : exec rollback (⟨t, none⟩ : Connection τ) =
    (.error "cannot rollback - no transaction is active", ⟨t, none⟩) := rfl

@[simp] theorem exec_check (x : Except String α) : exec (check x) c = (x, c) := by
  cases x <;> rfl

@[simp] theorem exec_quietly (w : Work τ Unit) :
    exec (quietly w) c = (.ok (), (exec w c).2) := by
  rw [quietly, exec_tryCatch]
  rcases exec w c with ⟨_ | _, c'⟩ <;> rfl

/-- A handler that cleans up and throws on. -/
theorem exec_guarded (w : Work τ α) (cleanUp : Work τ Unit) :
    exec (tryCatch w fun e => do quietly cleanUp; throw e) c = cleanedUp (exec w c) cleanUp := by
  rw [exec_tryCatch]
  rcases exec w c with ⟨e | a, c'⟩
  · dsimp only
    rw [exec_bind, exec_quietly, cleanedUp]
    rfl
  · rfl

end Exec

end Work

end AriOs.Storage
