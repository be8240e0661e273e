import AriOs.Async.Transition
import AriOs.Js.Number
import AriOs.Storage.Merkle
import Mathlib.Data.List.Flatten
import Mathlib.Data.List.Nodup

/-!
# Audit roots

`AuditRootBatcher` collects the digests of audit events and hands the root of a hash tree over them
to a sink, which keeps it. The batch is emptied before the sink has answered: between the two more
events may be added and more roots handed over, and where the sink fails the batch is gone.

## Main results

* `Sound.leaves_eq` — roots of as many leaves are the same only if the leaves are
-/

namespace AriOs.Observability

open AriOs.Async.Transition AriOs.Js AriOs.Storage

/-- A digest, and the event it was added for, counted from the first one. -/
structure Leaf where
  event : Nat
  hash : String
  deriving DecidableEq, Repr

structure AuditRoot where
  root : String
  leafCount : Nat
  createdAt : Int
  deriving DecidableEq, Repr

/-- Where the call of the sink stands. -/
inductive Append where
  | pending | appended | failed
  deriving DecidableEq, Repr

/-- A root that was handed over, and the batch it was made of. -/
structure Flush where
  root : AuditRoot
  leaves : List Leaf
  append : Append
  deriving DecidableEq, Repr

structure AuditRootBatcher where
  /-- how many events were added -/
  added : Nat
  leaves : List Leaf
  flushes : List Flush

/-! ### The batcher -/

section Batcher

variable {Ev : Type} (hash : String → String) (canonical : Ev → String) (size : JsNumber)

/-- The loop over the levels; a batch is not empty. -/
def rootOf (level : List String) : String := (Merkle.root (· ++ ·) hash level).getD ""

namespace AuditRootBatcher

def start : AuditRootBatcher := ⟨0, [], []⟩

variable (b : AuditRootBatcher)

/-- `flush`, up to the answer of the sink. -/
def flush (now : Int) : AuditRootBatcher :=
  if b.leaves = [] then b
  else
    let root := ⟨rootOf hash (b.leaves.map Leaf.hash), b.leaves.length, now⟩
    { b with leaves := [], flushes := b.flushes ++ [⟨root, b.leaves, .pending⟩] }

/-- `add`, up to the answer of the sink if there is one to wait for. -/
def add (event : Ev) (now : Int) : AuditRootBatcher :=
  let b' := { b with
    added := b.added + 1, leaves := b.leaves ++ [⟨b.added, hash (canonical event)⟩] }
  if (JsNumber.ofInt b'.leaves.length).lt size then b' else b'.flush hash now

/-- The sink answers for a root. -/
def settle (i : Nat) (result : Append) : AuditRootBatcher :=
  { b with flushes := b.flushes.modify i fun f =>
      if f.append = .pending then { f with append := result } else f }

end AuditRootBatcher

/-- What happens to a batcher. -/
inductive Step (Ev : Type) where
  | add (event : Ev) (now : Int)
  | flush (now : Int)
  /-- the sink answers for a root -/
  | settle (i : Nat) (ok : Bool)

def step (b : AuditRootBatcher) : Step Ev → AuditRootBatcher
  | .add event now => b.add hash canonical size event now
  | .flush now => b.flush hash now
  | .settle i ok => b.settle i (if ok then .appended else .failed)

end Batcher

/-- The sink fails to append a root. -/
def Fails {Ev : Type} (b : AuditRootBatcher) : Step Ev → Prop
  | .settle i false => ∃ f, b.flushes[i]? = some f ∧ f.append = .pending
  | _ => False

/-- The leaves that are pending, or in a root that the sink has, or is about to have. -/
def AuditRootBatcher.held (b : AuditRootBatcher) : List Leaf :=
  (b.flushes.filter fun f => f.append ≠ .failed).flatMap Flush.leaves ++ b.leaves

/-- Every added event is pending, or in exactly one of these roots. -/
def Kept (b : AuditRootBatcher) : Prop :=
  ∀ n < b.added, (b.held.map Leaf.event).count n = 1

/-- What is hashed for the root of a batch. -/
def Flush.hashed (hash : String → String) (f : Flush) : List String :=
  Merkle.hashed (· ++ ·) hash (f.leaves.map Leaf.hash)

/-! ### What holds of every batcher -/

variable {Ev : Type} {hash : String → String} {canonical : Ev → String} {size : JsNumber}

/-- A digest of some text. -/
def IsDigest (hash : String → String) (s : String) : Prop := ∃ text, hash text = s

/-- The sink's answer changes one root, or none. -/
theorem AuditRootBatcher.settle_cases (b : AuditRootBatcher) (i : Nat) (result : Append) :
    (b.settle i result = b ∧ ∀ f, b.flushes[i]? = some f → f.append ≠ .pending) ∨
    ∃ pre f post, b.flushes = pre ++ f :: post ∧ b.flushes[i]? = some f ∧ f.append = .pending ∧
      b.settle i result = { b with flushes := pre ++ { f with append := result } :: post } := by
  unfold settle
  by_cases hi : i < b.flushes.length
  · rw [List.modify_eq_take_cons_drop hi]
    have hsplit : b.flushes = b.flushes.take i ++ b.flushes[i] :: b.flushes.drop (i + 1) := by simp
    by_cases hpending : b.flushes[i].append = .pending
    · rw [if_pos hpending]
      exact .inr ⟨_, _, _, hsplit, List.getElem?_eq_getElem hi, hpending, rfl⟩
    · rw [if_neg hpending, ← hsplit]
      refine .inl ⟨rfl, fun f hf => ?_⟩
      rw [List.getElem?_eq_getElem hi] at hf
      rwa [← Option.some.inj hf]
  · rw [List.modify_eq_self (by omega), List.getElem?_eq_none (by omega)]
    exact .inl ⟨rfl, fun f hf => nomatch hf⟩

structure Sound (hash : String → String) (b : AuditRootBatcher) : Prop where
  events : ((b.flushes.flatMap Flush.leaves ++ b.leaves).map Leaf.event) = List.range b.added
  digests : ∀ x ∈ b.leaves, IsDigest hash x.hash
  flushes : ∀ f ∈ b.flushes, f.leaves ≠ [] ∧ (∀ x ∈ f.leaves, IsDigest hash x.hash) ∧
    f.root.root = rootOf hash (f.leaves.map Leaf.hash) ∧ f.root.leafCount = f.leaves.length

namespace Sound

variable {b : AuditRootBatcher}

theorem start : Sound hash .start := ⟨rfl, by simp [AuditRootBatcher.start],
  by simp [AuditRootBatcher.start]⟩

theorem flush (h : Sound hash b) (now : Int) : Sound hash (b.flush hash now) := by
  unfold AuditRootBatcher.flush
  split
  · exact h
  · rename_i hne
    refine ⟨?_, by simp, ?_⟩
    · simpa using h.events
    · intro f hf
      rcases List.mem_append.mp hf with hf | hf
      · exact h.flushes f hf
      · obtain rfl := List.mem_singleton.mp hf
        exact ⟨hne, h.digests, rfl, rfl⟩

theorem add (h : Sound hash b) (event : Ev) (now : Int) :
    Sound hash (b.add hash canonical size event now) := by
  have hpushed : Sound hash { b with
      added := b.added + 1, leaves := b.leaves ++ [⟨b.added, hash (canonical event)⟩] } := by
    refine ⟨?_, ?_, h.flushes⟩
    · have hevents := h.events
      rw [List.range_succ, ← hevents]
      simp
    · intro x hx
      rcases List.mem_append.mp hx with hx | hx
      · exact h.digests x hx
      · obtain rfl := List.mem_singleton.mp hx
        exact ⟨_, rfl⟩
  unfold AuditRootBatcher.add
  dsimp only
  split
  · exact hpushed
  · exact hpushed.flush now

theorem settle (h : Sound hash b) (i : Nat) (result : Append) :
    Sound hash (b.settle i result) := by
  rcases b.settle_cases i result with ⟨heq, -⟩ | ⟨pre, f, post, hsplit, -, -, heq⟩
  · rwa [heq]
  · have hevents := h.events
    have hflushes := h.flushes
    rw [hsplit] at hevents hflushes
    rw [heq]
    refine ⟨by simpa using hevents, h.digests, fun f' hf' => ?_⟩
    simp only [List.mem_append, List.mem_cons] at hf' hflushes
    rcases hf' with hf' | rfl | hf'
    · exact hflushes f' (.inl hf')
    · exact hflushes f (.inr (.inl rfl))
    · exact hflushes f' (.inr (.inr hf'))

theorem step (h : Sound hash b) (e : Step Ev) : Sound hash (step hash canonical size b e) := by
  cases e with
  | add event now => exact h.add event now
  | flush now => exact h.flush now
  | settle i ok => exact h.settle i _

/-- Roots of as many leaves are the same only if the leaves are, unless two texts that are hashed
for them have the same digest. -/
theorem leaves_eq (hlength : ∀ s, (hash s).length = 64) {b' : AuditRootBatcher} {f f' : Flush}
    (h : Sound hash b) (hf : f ∈ b.flushes) (h' : Sound hash b') (hf' : f' ∈ b'.flushes)
    (hroot : f.root.root = f'.root.root) (hcount : f.root.leafCount = f'.root.leafCount)
    (hnone : Merkle.NoCollision hash (f.hashed hash ++ f'.hashed hash)) :
    f.leaves.map Leaf.hash = f'.leaves.map Leaf.hash := by
  obtain ⟨hne, hdigests, hfroot, hfcount⟩ := h.flushes f hf
  obtain ⟨hne', hdigests', hfroot', hfcount'⟩ := h'.flushes f' hf'
  -- every leaf is a digest, so all have one length
  have hgood : ∀ leaves : List Leaf, (∀ x ∈ leaves, IsDigest hash x.hash) →
      ∀ s ∈ leaves.map Leaf.hash, s.length = 64 := by
    intro leaves hall s hs
    obtain ⟨x, hx, rfl⟩ := List.mem_map.mp hs
    obtain ⟨text, htext⟩ := hall x hx
    rw [← htext, hlength]
  obtain ⟨r, hr⟩ := @Merkle.exists_root _ _ (· ++ ·) hash
    (f.leaves.map Leaf.hash) (by simpa using hne)
  obtain ⟨r', hr'⟩ := @Merkle.exists_root _ _ (· ++ ·) hash
    (f'.leaves.map Leaf.hash) (by simpa using hne')
  rw [hfroot, hfroot', rootOf, rootOf, hr, hr'] at hroot
  refine @Merkle.eq_of_root_eq _ _ _ _ _ _ (fun s => s.length = 64) ?_ hlength (hgood _ hdigests)
    (hgood _ hdigests') (by rw [List.length_map, List.length_map, ← hfcount, ← hfcount', hcount])
    hnone (by rw [hr, hr']; exact congrArg some hroot)
  -- a text of two digests is split in its middle
  intro s t s' t' hs ht hs' ht' h
  have htexts := congrArg String.toList h
  rw [String.toList_append, String.toList_append] at htexts
  obtain ⟨hleft, hright⟩ := List.append_inj htexts (hs.trans hs'.symm)
  exact ⟨String.toList_inj.mp hleft, String.toList_inj.mp hright⟩

end Sound

/-! ### What becomes of an event -/

/-- No root has failed. -/
structure Whole (hash : String → String) (b : AuditRootBatcher) : Prop extends Sound hash b where
  none_failed : ∀ f ∈ b.flushes, f.append ≠ .failed

variable {b : AuditRootBatcher}

theorem Whole.kept (h : Whole hash b) : Kept b := by
  intro n hn
  have hall : b.flushes.filter (fun f => f.append ≠ .failed) = b.flushes :=
    List.filter_eq_self.mpr fun f hf => decide_eq_true (h.none_failed f hf)
  rw [AuditRootBatcher.held, hall, h.events]
  exact List.count_eq_one_of_mem List.nodup_range (List.mem_range.mpr hn)

theorem Whole.flush (h : Whole hash b) (now : Int) : Whole hash (b.flush hash now) := by
  refine ⟨h.toSound.flush now, ?_⟩
  unfold AuditRootBatcher.flush
  split
  · exact h.none_failed
  · intro f hf
    rcases List.mem_append.mp hf with hf | hf
    · exact h.none_failed f hf
    · obtain rfl := List.mem_singleton.mp hf
      simp

/-- No root fails in a step in which the sink does not. -/
theorem Whole.step (h : Whole hash b) {e : Step Ev} (hnot : ¬ Fails b e) :
    Whole hash (step hash canonical size b e) := by
  refine ⟨h.toSound.step e, ?_⟩
  cases e with
  | add event now =>
    change ∀ f ∈ (b.add hash canonical size event now).flushes, _
    unfold AuditRootBatcher.add AuditRootBatcher.flush
    dsimp only
    split
    · -- too few events for a batch
      exact h.none_failed
    · split
      · exact h.none_failed
      · intro f hf
        rcases List.mem_append.mp hf with hf | hf
        · exact h.none_failed f hf
        · obtain rfl := List.mem_singleton.mp hf
          simp
  | flush now => exact (h.flush now).none_failed
  | settle i ok =>
    change ∀ f ∈ (b.settle i _).flushes, _
    rcases b.settle_cases i (if ok then .appended else .failed) with
      ⟨heq, -⟩ | ⟨pre, f, post, hsplit, hi, hpending, heq⟩
    · rw [heq]
      exact h.none_failed
    · -- the batch that settles was pending, so it is not the one that may fail
      have hok : ok = true := by
        by_contra hfalse
        rw [Bool.not_eq_true] at hfalse
        subst hfalse
        exact hnot ⟨f, hi, hpending⟩
      have hall := h.none_failed
      rw [hsplit] at hall
      rw [heq, hok]
      intro f' hf'
      simp only [List.mem_append, List.mem_cons] at hf' hall
      rcases hf' with hf' | rfl | hf'
      · exact hall f' (.inl hf')
      · simp
      · exact hall f' (.inr (.inr hf'))

/-- An event of a root that fails is in no other root, and not pending. -/
theorem Sound.not_kept (h : Sound hash b) {e : Step Ev} (hfails : Fails b e) :
    ¬ Kept (Observability.step hash canonical size b e) := by
  cases e with
  | add _ _ | flush _ => exact absurd hfails id
  | settle i ok =>
    cases ok with
    | true => exact absurd hfails id
    | false =>
      obtain ⟨f, hi, hpending⟩ := hfails
      change ¬ Kept (b.settle i .failed)
      rcases b.settle_cases i .failed with ⟨-, hnot⟩ | ⟨pre, f', post, hsplit, hi', -, heq⟩
      · exact absurd hpending (hnot f hi)
      · obtain rfl := Option.some.inj (hi.symm.trans hi')
        rw [heq]
        intro hkept
        -- the first event of the batch
        obtain ⟨hne, -⟩ := h.flushes f (List.mem_of_getElem? hi)
        obtain ⟨x, leaves, hleaves⟩ := List.exists_cons_of_ne_nil hne
        have hevents := h.events
        rw [hsplit] at hevents
        have hmem : x.event ∈ List.range b.added := by
          rw [← hevents]
          simp [hleaves]
        have hone : (List.range b.added).count x.event = 1 :=
          List.count_eq_one_of_mem List.nodup_range hmem
        have hheld := hkept x.event (List.mem_range.mp hmem)
        rw [← hevents] at hone
        simp only [AuditRootBatcher.held, List.filter_append, List.filter_cons, ne_eq,
          not_true_eq_false, decide_false, Bool.false_eq_true, if_false, List.flatMap_append,
          List.flatMap_cons, hleaves, List.map_append, List.map_cons, List.count_append,
          List.count_cons_self, List.cons_append] at hone hheld
        have hle : ∀ flushes : List Flush,
            (((flushes.filter fun f => f.append ≠ .failed).flatMap Flush.leaves).map
              Leaf.event).count x.event ≤ ((flushes.flatMap Flush.leaves).map Leaf.event).count
              x.event := fun flushes =>
          ((List.filter_sublist.flatMap _).map _).count_le _
        have hpre := hle pre
        have hpost := hle post
        simp only [ne_eq] at hpre hpost
        omega

/-- **Audit roots bind their batch, and every event is kept**, in every state of a run exactly if
the sink never fails to append a root. -/
theorem audit_roots_iff (hlength : ∀ s, (hash s).length = 64) (es : List (Step Ev)) :
    ((∀ es' : List (Step Ev), ∀ f ∈ (run (step hash canonical size) .start es).flushes,
      ∀ f' ∈ (run (step hash canonical size) .start es').flushes,
        Merkle.NoCollision hash (f.hashed hash ++ f'.hashed hash) →
        f.root.root = f'.root.root → f.root.leafCount = f'.root.leafCount →
        f.leaves.map Leaf.hash = f'.leaves.map Leaf.hash) ∧
      Throughout (step hash canonical size) Kept .start es) ↔
    Meets (step hash canonical size) (fun b e => ¬ Fails b e) .start es := by
  have hsound : ∀ es' : List (Step Ev), Sound hash (run (step hash canonical size) .start es') :=
    fun es' => run_invariant (fun b e h => h.step e) Sound.start
  rw [and_iff_right]
  · exact throughout_iff_meets (I := Whole hash) (fun b h => h.kept) (fun b e h => h.step)
      (fun b e h hfails => h.toSound.not_kept (not_not.mp hfails))
      ⟨Sound.start, by simp [AuditRootBatcher.start]⟩
  · intro es' f hf f' hf' hnone hroot hcount
    exact Sound.leaves_eq hlength (hsound es) hf (hsound es') hf' hroot hcount hnone

/-! ### Two events -/

/-- The first 64 characters of a text that is filled up with zeros. -/
def sampleHash (s : String) : String :=
  String.ofList ((s.toList ++ List.replicate 64 '0').take 64)

theorem length_sampleHash (s : String) : (sampleHash s).length = 64 := by
  simp [sampleHash]

/-- Two events make a batch, and the sink takes its root or not. -/
def twoEvents (ok : Bool) : List (Step String) := [.add "a" 1, .add "b" 2, .settle 0 ok]

theorem audit_roots_iff_taken :
    Throughout (step sampleHash id (.ofInt 2)) Kept .start (twoEvents true) :=
  ((audit_roots_iff length_sampleHash (twoEvents true)).mpr ⟨id, id, id, trivial⟩).2

/-- The sink fails, and both events are gone. -/
theorem audit_batch_lost :
    (run (step sampleHash id (.ofInt 2)) .start (twoEvents false)).held = [] ∧
      (run (step sampleHash id (.ofInt 2)) .start (twoEvents false)).added = 2 ∧
      ¬ Kept (run (step sampleHash id (.ofInt 2)) .start (twoEvents false)) := by
  refine ⟨rfl, rfl, fun hkept => ?_⟩
  have hone := hkept 0 (by decide)
  have hnone : (run (step sampleHash id (.ofInt 2)) .start (twoEvents false)).held = [] := rfl
  rw [hnone] at hone
  cases hone

end AriOs.Observability
