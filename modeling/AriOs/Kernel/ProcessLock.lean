import AriOs.Async.Transition
import AriOs.Js.Value
import Mathlib.Data.Fintype.Basic

/-!
# The boot lock

`ProcessLock` creates a file exclusively and writes the pid of its process into it. A file that
is found there is left alone if the process it names is alive, and otherwise removed, whereupon
creating is tried once more. Reading, probing, removing, creating and writing are steps of
their own: a file that was found stale may be gone when it is removed, and another one in its
place.

A path names a file, and a descriptor keeps its file also when the path no longer names it;
files are numbered in the order they were created. Instances of one process may interleave too,
which the program does not need.
-/

namespace AriOs.Kernel.ProcessLock

open AriOs.Async AriOs.Async.Transition AriOs.Js

/-! ### The system -/

/-- `#readPid`, of the text of a file: a positive number at its beginning. -/
def readPid (raw : String) : Option Nat :=
  let digits := (match raw.toList.dropWhile isSpace with
    | '+' :: cs => cs
    | cs => cs).takeWhile Char.isDigit
  let pid := digits.foldl (fun n c => n * 10 + (c.toNat - '0'.toNat)) 0
  if 0 < pid then some pid else none

/-- What `#create` writes. -/
def pidText (pid : Nat) : String := toString pid ++ "\n"

/-- Where an instance stands in `acquire` or `release`. -/
inductive Pc where
  | idle
  /-- before `openSync(path, "wx")`, for the second time or not -/
  | create (again : Bool)
  /-- before `writeSync`, having created the file -/
  | write (file : Nat)
  | read
  | probe (pid : Nat)
  /-- before the `rmSync` of `acquire` -/
  | reclaim
  /-- before the `rmSync` of `release`, having closed the file it held, if it held one -/
  | remove (closed : Option Nat)
  deriving DecidableEq, Repr

/-- A `ProcessLock` of a process. -/
structure Instance where
  proc : Nat
  /-- the file behind `#fd` -/
  fd : Option Nat
  pc : Pc
  deriving DecidableEq, Repr

structure Process where
  pid : Nat
  alive : Bool
  deriving DecidableEq, Repr

structure System where
  /-- the file the path names -/
  path : Option Nat
  /-- what is in each file that was ever created -/
  files : List String
  processes : List Process
  instances : List Instance
  deriving DecidableEq, Repr

inductive Event where
  /-- a process starts; pids of live processes differ -/
  | start (pid : Nat)
  | construct (proc : Nat)
  | acquire (i : Nat)
  | release (i : Nat)
  /-- instance `i` makes its next step -/
  | step (i : Nat)
  /-- the next step of instance `i` throws, for another reason than a file that is there -/
  | fail (i : Nat)
  | die (proc : Nat)
  deriving DecidableEq, Repr

namespace System

/-- Before any process: an earlier one may have left a file. -/
def boot (leftover : Option String) : System where
  path := leftover.map fun _ => 0
  files := leftover.toList
  processes := []
  instances := []

variable (s : System)

def Alive (proc : Nat) : Prop := ∃ p ∈ s.processes[proc]?, p.alive = true

instance (proc : Nat) : Decidable (s.Alive proc) := by unfold Alive; infer_instance

/-- `pidAlive`. -/
def pidAlive (pid : Nat) : Bool := s.processes.any fun p => p.pid = pid && p.alive

/-- `#readPid`: a file that is not there reads as one without a pid. -/
def holder : Option Nat := (s.path.bind (s.files[·]?)).bind readPid

def setInstance (i : Nat) (x : Instance) : System := { s with instances := s.instances.set i x }

/-- `writeSync(fd, ..)` then `this.#fd = fd`. -/
def written (i : Nat) (x : Instance) (file : Nat) : System :=
  { s with
    files := s.files.set file (pidText ((s.processes[x.proc]?.map Process.pid).getD 0))
    instances := s.instances.set i { x with fd := some file, pc := .idle } }

/-- `openSync(path, "wx")`: a file that is there is looked at once. -/
def create (i : Nat) (x : Instance) (again : Bool) : System :=
  match s.path with
  | none => { s with
      path := some s.files.length
      files := s.files ++ [""]
      instances := s.instances.set i { x with pc := .write s.files.length } }
  | some _ => s.setInstance i { x with pc := if again then .idle else .read }

/-- The next step of an instance. -/
def advance (i : Nat) (x : Instance) : System :=
  match x.pc with
  | .idle => s
  | .create again => s.create i x again
  | .write file => s.written i x file
  | .read => s.setInstance i { x with pc := match s.holder with
      | some pid => .probe pid
      | none => .reclaim }
  | .probe pid => s.setInstance i { x with pc := if s.pidAlive pid then .idle else .reclaim }
  | .reclaim => { s with
      path := none, instances := s.instances.set i { x with pc := .create true } }
  | .remove _ => { s with path := none, instances := s.instances.set i { x with pc := .idle } }

/-- The next step throws. What `#readPid` throws it catches itself. -/
def failed (i : Nat) (x : Instance) : System :=
  s.setInstance i { x with pc := if x.pc = .read then .reclaim else .idle }

/-- A call, if the instance is there, its process alive and no other call of it under way. -/
def call (i : Nat) (f : Instance → Instance) : System :=
  match s.instances[i]? with
  | some x => if x.pc = .idle ∧ s.Alive x.proc then s.setInstance i (f x) else s
  | none => s

/-- One event. -/
def apply : Event → System
  | .start pid => if s.pidAlive pid then s else { s with processes := s.processes ++ [⟨pid, true⟩] }
  | .construct proc =>
    if s.Alive proc then { s with instances := s.instances ++ [⟨proc, none, .idle⟩] } else s
  | .acquire i => s.call i fun x => { x with pc := .create false }
  | .release i => s.call i fun x => { x with fd := none, pc := .remove x.fd }
  | .step i =>
    match s.instances[i]? with
    | some x => if s.Alive x.proc then s.advance i x else s
    | none => s
  | .fail i =>
    match s.instances[i]? with
    | some x => if s.Alive x.proc then s.failed i x else s
    | none => s
  | .die proc => { s with processes := s.processes.modify proc fun p => { p with alive := false } }

end System

/-! ### Mutual exclusion -/

/-- The instance has returned from `acquire` and has not returned from `release` since. -/
def Instance.Holds (x : Instance) : Prop :=
  x.fd.isSome ∨ ∃ file, x.pc = .remove (some file)

instance (x : Instance) : Decidable x.Holds :=
  decidable_of_iff (x.fd.isSome ∨ (x.pc matches .remove (some _)))
    (or_congr Iff.rfl (by split <;> simp_all))

/-- Some lock of the live process is held. -/
def System.Holds (s : System) (proc : Nat) : Prop :=
  s.Alive proc ∧ ∃ x ∈ s.instances, x.proc = proc ∧ x.Holds

instance (s : System) (proc : Nat) : Decidable (s.Holds proc) := by
  unfold System.Holds; infer_instance

/-- No two live processes hold the lock. -/
def System.Exclusive (s : System) : Prop := ∀ p q, s.Holds p → s.Holds q → p = q

/-- The instance holds the lock with this file, or is about to. -/
def Instance.Uses (x : Instance) (file : Nat) : Prop :=
  x.fd = some file ∨ x.pc = .write file ∨ x.pc = .remove (some file)

instance (x : Instance) (file : Nat) : Decidable (x.Uses file) := by
  unfold Instance.Uses; infer_instance

/-- The instance removes what the path names next. -/
def Instance.Removes (x : Instance) : Prop := x.pc = .reclaim ∨ ∃ closed, x.pc = .remove closed

instance (x : Instance) : Decidable x.Removes :=
  decidable_of_iff (x.pc = .reclaim ∨ (x.pc matches .remove _))
    (or_congr Iff.rfl (by split <;> simp_all))

/-- A step that removes a file removes none that a live process uses, except its own in
`release`. -/
def SparesUsers (s : System) : Event → Prop
  | .step i => ∀ x ∈ s.instances[i]?, s.Alive x.proc → x.Removes → ∀ file ∈ s.path,
      ∀ j y, s.instances[j]? = some y → s.Alive y.proc → y.Uses file →
        j = i ∧ x.pc = .remove (some file)
  | _ => True

instance (s : System) : ∀ e, Decidable (SparesUsers s e)
  | .step i => decidable_of_iff
      (∀ x ∈ s.instances[i]?, s.Alive x.proc → x.Removes → ∀ file ∈ s.path,
        ∀ j : Fin s.instances.length, s.Alive (s.instances.get j).proc →
          (s.instances.get j).Uses file → j.val = i ∧ x.pc = .remove (some file)) <| by
    simp only [SparesUsers, Fin.forall_iff, List.get_eq_getElem, List.getElem?_eq_some_iff]
    grind
  | .start _ | .construct _ | .acquire _ | .release _ | .fail _ | .die _ => isTrue trivial

/-! ### The invariant -/

/-- Every file is used by one instance, and those that live processes use the path names. -/
structure Guarded (s : System) : Prop where
  present : ∀ (i : Nat) x file, s.instances[i]? = some x → s.Alive x.proc → x.Uses file →
    s.path = some file
  unique : ∀ (i j : Nat) x y file, s.instances[i]? = some x → s.instances[j]? = some y →
    x.Uses file → y.Uses file → i = j
  created : ∀ (i : Nat) x file, s.instances[i]? = some x → x.Uses file → file < s.files.length
  owned : ∀ (i : Nat) x, s.instances[i]? = some x → x.proc < s.processes.length
  closed : ∀ (i : Nat) x file, s.instances[i]? = some x → x.pc = .remove file → x.fd = none

section Invariant

variable {s s' : System} {i : Nat} {x x' : Instance}

theorem guarded_boot (leftover : Option String) : Guarded (.boot leftover) where
  present _ _ _ h := by simp [System.boot] at h
  unique _ _ _ _ _ h := by simp [System.boot] at h
  created _ _ _ h := by simp [System.boot] at h
  owned _ _ h := by simp [System.boot] at h
  closed _ _ _ h := by simp [System.boot] at h

/-- An instance that comes to use no other file, where the path stays. -/
theorem Guarded.update (h : Guarded s) (hx : s.instances[i]? = some x)
    (hinstances : s'.instances = s.instances.set i x') (hpath : s'.path = s.path)
    (hfiles : s'.files.length = s.files.length) (hprocesses : s'.processes = s.processes)
    (hproc : x'.proc = x.proc) (huses : ∀ file, x'.Uses file → x.Uses file)
    (hclosed : ∀ file, x'.pc = .remove file → x'.fd = none) : Guarded s' := by
  have halive : ∀ proc, s'.Alive proc ↔ s.Alive proc := by simp [System.Alive, hprocesses]
  -- every instance uses what it used before, at most
  have hback : ∀ (j : Nat) (y : Instance), s'.instances[j]? = some y →
      ∃ z : Instance, s.instances[j]? = some z ∧ z.proc = y.proc ∧
        ∀ file, y.Uses file → z.Uses file := by
    intro j y hy
    rcases getElem?_set_cases (hinstances ▸ hy) with ⟨rfl, rfl⟩ | ⟨-, hy⟩
    · exact ⟨x, hx, hproc.symm, huses⟩
    · exact ⟨y, hy, rfl, fun _ h => h⟩
  refine ⟨fun j y file hy hlive hused => ?_, fun j k y z file hy hz hused hused' => ?_,
    fun j y file hy hused => ?_, fun j y hy => ?_, fun j y file hy hpc => ?_⟩
  · obtain ⟨z, hz, hzproc, hzuses⟩ := hback j y hy
    exact hpath.trans (h.present j z file hz (hzproc ▸ (halive _).mp hlive) (hzuses file hused))
  · obtain ⟨y', hy', -, hyuses⟩ := hback j y hy
    obtain ⟨z', hz', -, hzuses⟩ := hback k z hz
    exact h.unique j k y' z' file hy' hz' (hyuses file hused) (hzuses file hused')
  · obtain ⟨z, hz, -, hzuses⟩ := hback j y hy
    exact hfiles ▸ h.created j z file hz (hzuses file hused)
  · obtain ⟨z, hz, hzproc, -⟩ := hback j y hy
    rw [← hzproc, hprocesses]
    exact h.owned j z hz
  · rcases getElem?_set_cases (hinstances ▸ hy) with ⟨rfl, rfl⟩ | ⟨-, hy⟩
    · exact hclosed file hpc
    · exact h.closed j y file hy hpc

theorem Guarded.setInstance (h : Guarded s) (hx : s.instances[i]? = some x)
    (hproc : x'.proc = x.proc) (huses : ∀ file, x'.Uses file → x.Uses file)
    (hclosed : ∀ file, x'.pc = .remove file → x'.fd = none) : Guarded (s.setInstance i x') :=
  h.update hx rfl rfl rfl rfl hproc huses hclosed

/-- An instance that goes on without creating a file uses what it held. -/
theorem uses_of_pc {pc : Pc} (hwrite : ∀ file, pc ≠ .write file)
    (hremove : ∀ closed, pc ≠ .remove closed) (file : Nat)
    (h : Instance.Uses { x with pc } file) : x.Uses file := by
  rcases h with h | h | h
  · exact .inl h
  · exact absurd h (hwrite file)
  · exact absurd h (hremove _)

/-- Creating names a file that nobody else uses; who used the old one is dead. -/
theorem Guarded.create (h : Guarded s) (hx : s.instances[i]? = some x) (again : Bool) :
    Guarded (s.create i x again) := by
  unfold System.create
  split
  · rename_i hpath
    -- the new file is used by its creator alone, the others use what they used
    have hback : ∀ (j : Nat) (y : Instance) (file : Nat),
        (s.instances.set i { x with pc := .write s.files.length })[j]? = some y → y.Uses file →
        (j = i ∧ file = s.files.length) ∨
          ∃ z : Instance, s.instances[j]? = some z ∧ z.proc = y.proc ∧ z.Uses file := by
      intro j y file hy hused
      rcases getElem?_set_cases hy with ⟨rfl, rfl⟩ | ⟨-, hy⟩
      · rcases hused with hused | hused | hused
        · exact .inr ⟨x, hx, rfl, .inl hused⟩
        · exact .inl ⟨rfl, (Pc.write.inj hused).symm⟩
        · simp at hused
      · exact .inr ⟨y, hy, rfl, hused⟩
    refine ⟨fun j y file hy hlive hused => ?_, fun j k y z file hy hz hused hused' => ?_,
      fun j y file hy hused => ?_, fun j y hy => ?_, fun j y file hy hpc => ?_⟩
    · rcases hback j y file hy hused with ⟨-, rfl⟩ | ⟨z, hz, hproc, hused⟩
      · rfl
      · have hnamed := h.present j z file hz (hproc ▸ hlive) hused
        simp [hpath] at hnamed
    · rcases hback j y file hy hused with ⟨rfl, rfl⟩ | ⟨y', hy', -, hused⟩
      · rcases hback k z _ hz hused' with ⟨rfl, -⟩ | ⟨z', hz', -, hused'⟩
        · rfl
        · exact absurd (h.created k z' _ hz' hused') (lt_irrefl _)
      · rcases hback k z file hz hused' with ⟨rfl, rfl⟩ | ⟨z', hz', -, hused'⟩
        · exact absurd (h.created j y' _ hy' hused) (lt_irrefl _)
        · exact h.unique j k y' z' file hy' hz' hused hused'
    · rw [List.length_append]
      rcases hback j y file hy hused with ⟨-, rfl⟩ | ⟨z, hz, -, hused⟩
      · simp
      · exact Nat.lt_succ_of_lt (h.created j z file hz hused)
    · rcases getElem?_set_cases hy with ⟨rfl, rfl⟩ | ⟨-, hy⟩
      · exact h.owned j x hx
      · exact h.owned j y hy
    · rcases getElem?_set_cases hy with ⟨rfl, rfl⟩ | ⟨-, hy⟩
      · simp at hpc
      · exact h.closed j y file hy hpc
  · refine h.setInstance hx rfl (fun file => uses_of_pc ?_ ?_ file) ?_
    all_goals intro file; cases again <;> simp

/-- Removing a file that no live process uses. -/
theorem Guarded.removed (h : Guarded s) (hx : s.instances[i]? = some x) {pc : Pc}
    (hwrite : ∀ file, pc ≠ .write file) (hremove : ∀ closed, pc ≠ .remove closed)
    (hspares : ∀ file ∈ s.path, ∀ j y, s.instances[j]? = some y → s.Alive y.proc → y.Uses file →
      j = i ∧ x.pc = .remove (some file)) :
    Guarded { s with path := none, instances := s.instances.set i { x with pc } } := by
  have hupdated : Guarded (s.setInstance i { x with pc }) :=
    h.setInstance hx rfl (fun file => uses_of_pc hwrite hremove file) fun file hpc =>
      absurd hpc (hremove file)
  refine { hupdated with present := fun j y file hy hlive hused => ?_ }
  exfalso
  rcases getElem?_set_cases hy with ⟨rfl, rfl⟩ | ⟨hne, hy⟩
  · have hused : x.Uses file := uses_of_pc hwrite hremove file hused
    have hpc := (hspares file (h.present j x file hx hlive hused) j x hx hlive hused).2
    rcases ‹Instance.Uses { x with pc } file› with hfd | hpc' | hpc'
    · rw [h.closed j x _ hx hpc] at hfd
      simp at hfd
    · exact hwrite file hpc'
    · exact hremove _ hpc'
  · exact hne (hspares file (h.present j y file hy hlive hused) j y hy hlive hused).1

/-- Processes that start or die; nobody who uses a file comes to life. -/
theorem Guarded.processes (h : Guarded s) {ps : List Process}
    (hlength : s.processes.length ≤ ps.length)
    (halive : ∀ proc < s.processes.length, System.Alive { s with processes := ps } proc →
      s.Alive proc) : Guarded { s with processes := ps } where
  present i x file hx hlive := h.present i x file hx (halive _ (h.owned i x hx) hlive)
  unique := h.unique
  created := h.created
  owned i x hx := (h.owned i x hx).trans_le hlength
  closed := h.closed

theorem System.Alive.lt {proc : Nat} (h : s.Alive proc) : proc < s.processes.length := by
  obtain ⟨p, hp, -⟩ := h
  exact (List.getElem?_eq_some_iff.mp hp).1

theorem Guarded.start (h : Guarded s) (pid : Nat) :
    Guarded { s with processes := s.processes ++ [⟨pid, true⟩] } := by
  refine h.processes (by simp) fun proc hproc hlive => ?_
  obtain ⟨p, hp, halive⟩ := hlive
  rw [List.getElem?_append_left hproc] at hp
  exact ⟨p, hp, halive⟩

theorem Guarded.die (h : Guarded s) (proc : Nat) : Guarded (s.apply (.die proc)) := by
  refine h.processes (by simp) fun other _ hlive => ?_
  obtain ⟨p, hp, halive⟩ := hlive
  rw [List.getElem?_modify] at hp
  obtain ⟨p', hp', rfl⟩ := Option.map_eq_some_iff.mp hp
  by_cases hother : proc = other
  · simp [hother] at halive
  · exact ⟨p', hp', by simpa [hother] using halive⟩

/-- A new instance uses nothing. -/
theorem Guarded.construct (h : Guarded s) {proc : Nat} (hlive : s.Alive proc) :
    Guarded { s with instances := s.instances ++ [⟨proc, none, .idle⟩] } := by
  have hback : ∀ (j : Nat) (y : Instance), (s.instances ++ [⟨proc, none, .idle⟩])[j]? = some y →
      s.instances[j]? = some y ∨ y = ⟨proc, none, .idle⟩ := by
    intro j y hy
    rcases getElem?_append_singleton_cases hy with ⟨-, rfl⟩ | hy
    · exact .inr rfl
    · exact .inl hy
  -- a new instance uses no file
  have hunused : ∀ file, ¬Instance.Uses ⟨proc, none, .idle⟩ file := by simp [Instance.Uses]
  refine ⟨fun j y file hy hlive hused => ?_, fun j k y z file hy hz hused hused' => ?_,
    fun j y file hy hused => ?_, fun j y hy => ?_, fun j y file hy hpc => ?_⟩
  · rcases hback j y hy with hy | rfl
    · exact h.present j y file hy hlive hused
    · exact absurd hused (hunused file)
  · rcases hback j y hy with hy | rfl
    · rcases hback k z hz with hz | rfl
      · exact h.unique j k y z file hy hz hused hused'
      · exact absurd hused' (hunused file)
    · exact absurd hused (hunused file)
  · rcases hback j y hy with hy | rfl
    · exact h.created j y file hy hused
    · exact absurd hused (hunused file)
  · rcases hback j y hy with hy | rfl
    · exact h.owned j y hy
    · exact hlive.lt
  · rcases hback j y hy with hy | rfl
    · exact h.closed j y file hy hpc
    · simp at hpc

/-- A call is begun with what the instance uses already. -/
theorem Guarded.call (h : Guarded s) {f : Instance → Instance}
    (hproc : ∀ x, (f x).proc = x.proc) (huses : ∀ x file, (f x).Uses file → x.Uses file)
    (hclosed : ∀ x file, (f x).pc = .remove file → (f x).fd = none) : Guarded (s.call i f) := by
  unfold System.call
  split
  · rename_i x hx
    split
    · exact h.setInstance hx (hproc x) (huses x) (hclosed x)
    · exact h
  · exact h

/-- The next step of a live instance, if it removes no file that another one uses. -/
theorem Guarded.advance (h : Guarded s) (hx : s.instances[i]? = some x)
    (hspares : x.Removes → ∀ file ∈ s.path, ∀ (j : Nat) (y : Instance),
      s.instances[j]? = some y → s.Alive y.proc → y.Uses file →
        j = i ∧ x.pc = .remove (some file)) : Guarded (s.advance i x) := by
  unfold System.advance
  cases hpc : x.pc with
  | idle => exact h
  | create again => exact h.create hx again
  -- writing touches the file that was created, the reads touch none
  | write file =>
    refine h.update hx rfl rfl (by simp [System.written]) rfl rfl (fun other hused => ?_) (by simp)
    rcases hused with hused | hused | hused
    · exact Option.some.inj hused ▸ .inr (.inl hpc)
    · simp at hused
    · simp at hused
  | read =>
    refine h.setInstance hx rfl (fun file => uses_of_pc ?_ ?_ file) ?_
    all_goals intro file; cases s.holder <;> simp
  | probe pid =>
    refine h.setInstance hx rfl (fun file => uses_of_pc ?_ ?_ file) ?_
    all_goals intro file; cases s.pidAlive pid <;> simp
  -- both removals remove what is at the path
  | reclaim => exact h.removed hx (by simp) (by simp) (hspares (.inl hpc))
  | remove closed => exact h.removed hx (by simp) (by simp) (hspares (.inr ⟨closed, hpc⟩))

theorem Guarded.failed (h : Guarded s) (hx : s.instances[i]? = some x) :
    Guarded (s.failed i x) := by
  refine h.setInstance hx rfl (fun file => uses_of_pc ?_ ?_ file) ?_
  all_goals intro file; split <;> simp

/-- Every event that removes no file in use keeps the invariant. -/
theorem Guarded.apply (h : Guarded s) (e : Event) (hspares : SparesUsers s e) :
    Guarded (s.apply e) := by
  cases e with
  | start pid =>
    simp only [System.apply]
    split
    · exact h
    · exact h.start pid
  | construct proc =>
    simp only [System.apply]
    split
    · exact h.construct ‹_›
    · exact h
  | acquire i =>
    exact h.call (fun _ => rfl) (fun x file => uses_of_pc (by simp) (by simp) file) (by simp)
  -- after the call the party is about to remove the file that it holds
  | release i =>
    refine h.call (fun _ => rfl) (fun x file hused => ?_) (by simp)
    rcases hused with hused | hused | hused
    · simp at hused
    · simp at hused
    · exact .inl (Pc.remove.inj hused)
  | step i =>
    simp only [System.apply]
    split
    · rename_i x hx
      split
      · -- what the next instruction may do to the others is the condition of the run
        exact h.advance hx (hspares x hx ‹_›)
      · exact h
    · exact h
  | fail i =>
    simp only [System.apply]
    split
    · rename_i x hx
      split
      · exact h.failed hx
      · exact h
    · exact h
  | die proc => exact h.die proc

theorem Instance.Holds.exists_uses (h : x.Holds) : ∃ file, x.Uses file := by
  rcases h with h | ⟨file, h⟩
  · obtain ⟨file, hfile⟩ := Option.isSome_iff_exists.mp h
    exact ⟨file, .inl hfile⟩
  · exact ⟨file, .inr (.inr h)⟩

/-- Two holders would use the one file that the path names. -/
theorem Guarded.exclusive (h : Guarded s) : s.Exclusive := by
  rintro p q ⟨hp, x, hx, rfl, hholdsx⟩ ⟨hq, y, hy, rfl, hholdsy⟩
  obtain ⟨i, hi⟩ := List.getElem?_of_mem hx
  obtain ⟨j, hj⟩ := List.getElem?_of_mem hy
  obtain ⟨file, hfile⟩ := hholdsx.exists_uses
  obtain ⟨file', hfile'⟩ := hholdsy.exists_uses
  have hsame : some file = some file' :=
    (h.present i x file hi hp hfile).symm.trans (h.present j y file' hj hq hfile')
  obtain rfl := Option.some.inj hsame
  obtain rfl := h.unique i j x y file hi hj hfile hfile'
  exact congrArg Instance.proc (Option.some.inj (hi.symm.trans hj))

end Invariant

/-- However many processes interleave and die, two live ones never hold the lock at once in a
run that removes no file in use. -/
theorem mutual_exclusion (leftover : Option String) (es : List Event)
    (hspares : Meets System.apply SparesUsers (.boot leftover) es) :
    Throughout System.apply System.Exclusive (.boot leftover) es :=
  (throughout_of_step (fun _ e h => h.apply e) hspares (guarded_boot leftover)).imp
    fun _ h => h.exclusive

/-- A process holds the lock, another one finds it held; the first one releases it. -/
def handover : List Event :=
  [.start 7, .construct 0, .acquire 0, .step 0, .step 0,
    .start 8, .construct 1, .acquire 1, .step 1, .step 1, .step 1,
    .release 0, .step 0, .acquire 1, .step 1, .step 1]

theorem mutual_exclusion_handover :
    Meets System.apply SparesUsers (.boot none) handover ∧
      Throughout System.apply System.Exclusive (.boot none) handover := by
  have hspares : Meets System.apply SparesUsers (.boot none) handover := by decide
  exact ⟨hspares, mutual_exclusion none handover hspares⟩

/-- Both processes find the file of a dead one. The first removes it and creates its own; the
second removes that one. -/
theorem two_reclaimers :
    ¬∀ (leftover : Option String) (es : List Event),
      Throughout System.apply System.Exclusive (.boot leftover) es := by
  intro h
  have hexclusive := h (some "5\n")
    [.start 7, .construct 0, .start 8, .construct 1,
      .acquire 0, .step 0, .step 0, .step 0, .acquire 1, .step 1, .step 1, .step 1,
      .step 0, .step 0, .step 0, .step 1, .step 1, .step 1] _ [] (List.append_nil _).symm
  have hsame := hexclusive 0 1 (by decide) (by decide)
  simp at hsame

end AriOs.Kernel.ProcessLock
