import AriOs.Kernel.Contracts
import Mathlib.Logic.Function.Basic

/-!
# Waiting for a signature

`SolanaRpc.confirm` polls the signature's status and the block height until one of them
settles the question, or until its own clock says that it has waited long enough. The two reads
and the reading of the clock happen at different moments, and the chain moves between them.

## Main results

* `neverLands_iff` — it is not there, and the height is past its last valid one
-/

namespace AriOs.Chains.Solana

open AriOs.Kernel

/-! ### The chain -/

/-- How firmly a block is part of the chain. -/
inductive ConfirmationStatus where
  | processed | confirmed | finalized
  deriving DecidableEq, Repr

/-- What a node answers for a signature it knows. -/
structure SignatureStatus where
  slot : Option Nat
  err : Option String
  confirmationStatus : Option ConfirmationStatus
  deriving DecidableEq, Repr

/-- The transaction is on the chain for good, and did what it was meant to. -/
def SignatureStatus.Confirmed (s : SignatureStatus) : Prop :=
  s.err.getD "" = "" ∧
    (s.confirmationStatus = some .confirmed ∨ s.confirmationStatus = some .finalized)

instance (s : SignatureStatus) : Decidable s.Confirmed :=
  inferInstanceAs (Decidable (_ ∧ _))

/-- What can be read: the wall clock, the block height and the status of every signature. -/
structure World where
  now : Int
  height : Int
  status : String → Option SignatureStatus

/-- How the world changes. -/
inductive Change where
  | clock (now : Int)
  | grow (blocks : Nat)
  | transaction (signature : String) (status : Option SignatureStatus)

namespace World

/-- One change. A transaction that is on the chain may change its status, or be dropped with
its block; one that is not gets into a block only while it is valid. -/
def apply (lastValid : String → Int) (w : World) : Change → World
  | .clock now => { w with now }
  | .grow blocks => { w with height := w.height + blocks }
  | .transaction signature status =>
    if (w.status signature).isSome ∨ w.height ≤ lastValid signature then
      { w with status := Function.update w.status signature status }
    else w

end World

/-- Whatever happens from here, the transaction is not on the chain. -/
def NeverLands (lastValid : String → Int) (w : World) (signature : String) : Prop :=
  ∀ cs : List Change, (cs.foldl (World.apply lastValid) w).status signature = none

section NeverLands

variable {lastValid : String → Int} {w : World} {signature : String}

/-- A transaction that is past its last valid height and not on the chain stays off it. -/
theorem past_apply (h : w.status signature = none ∧ lastValid signature < w.height)
    (c : Change) : (w.apply lastValid c).status signature = none ∧
      lastValid signature < (w.apply lastValid c).height := by
  obtain ⟨hstatus, hheight⟩ := h
  cases c with
  | clock now => exact ⟨hstatus, hheight⟩
  | grow blocks => exact ⟨hstatus, by simp only [World.apply]; omega⟩
  | transaction other status =>
    simp only [World.apply]
    split
    · rename_i hallowed
      have hne : signature ≠ other := by
        rintro rfl
        rcases hallowed with hsome | hle
        · simp [hstatus] at hsome
        · omega
      exact ⟨(Function.update_of_ne hne _ _).trans hstatus, hheight⟩
    · exact ⟨hstatus, hheight⟩

theorem neverLands_iff : NeverLands lastValid w signature ↔
    w.status signature = none ∧ lastValid signature < w.height := by
  constructor
  · intro h
    refine ⟨h [], ?_⟩
    by_contra hle
    -- while it is valid, it may still get into a block
    have hland := h [.transaction signature (some ⟨none, none, none⟩)]
    rw [List.foldl_cons, List.foldl_nil, World.apply, if_pos (Or.inr (by omega))] at hland
    simp at hland
  · intro h cs
    induction cs generalizing w with
    | nil => exact h.1
    | cons c cs ih => exact ih (past_apply h c)

theorem NeverLands.apply (h : NeverLands lastValid w signature) (c : Change) :
    NeverLands lastValid (w.apply lastValid c) signature :=
  fun cs => h (c :: cs)

end NeverLands

/-! ### The loop -/

def CONFIRM_TIMEOUT_MS : Int := 90000

/-- What `confirm` resolves to. -/
structure ConfirmOutcome where
  status : ConfirmStatus
  slot : Option Nat
  err : Option String
  deriving DecidableEq, Repr

def expired : ConfirmOutcome := ⟨.expired, none, none⟩

/-- What a status settles. One that is neither failed nor confirmed settles nothing, and so
does a missing one. -/
def settled : Option SignatureStatus → Option ConfirmOutcome
  | some status =>
    if status.err.getD "" ≠ "" then
      some ⟨.failed, status.slot, status.err⟩
    else if status.confirmationStatus = some .confirmed ∨
        status.confirmationStatus = some .finalized then
      some ⟨.confirmed, status.slot, none⟩
    else none
  | none => none

/-- Where a running `confirm` stands: the read it is about to make, and when it was called. -/
inductive Polling where
  | called
  | checking (start : Int)
  | askingStatus (start : Int)
  | askingHeight (start : Int)
  | sleeping (start : Int)
  deriving DecidableEq, Repr

/-- The stretch of `confirm` from one read to the next, or to its end. -/
def confirmStep (w : World) (signature : String) (lastValidBlockHeight : Int) :
    Polling → Polling ⊕ ConfirmOutcome
  | .called => .inl (.checking w.now)
  | .checking start =>
    if w.now - start < CONFIRM_TIMEOUT_MS then .inl (.askingStatus start)
    else .inr expired
  | .askingStatus start =>
    match settled (w.status signature) with
    | some outcome => .inr outcome
    | none => .inl (.askingHeight start)
  | .askingHeight start =>
    if w.height > lastValidBlockHeight then .inr expired
    else .inl (.sleeping start)
  | .sleeping start => .inl (.checking start)

/-- A read that may be rejected by the node. -/
def Polling.Remote : Polling → Prop
  | .askingStatus _ | .askingHeight _ => True
  | _ => False

instance (p : Polling) : Decidable p.Remote := by
  unfold Polling.Remote; split <;> infer_instance

/-- The status alone never says that a transaction expired. -/
theorem settled_ne_expired {status : Option SignatureStatus} {outcome : ConfirmOutcome}
    (h : settled status = some outcome) : outcome.status ≠ .expired := by
  unfold settled at h
  split at h
  · split at h
    · obtain rfl := Option.some_inj.mp h
      simp
    · split at h
      · obtain rfl := Option.some_inj.mp h
        simp
      · simp at h
  · simp at h

/-- `confirm` says `expired` when its time is over, and when it reads a height past the last
valid one. -/
theorem confirmStep_expired_iff {w : World} {signature : String} {lastValidBlockHeight : Int}
    {p : Polling} :
    (∃ outcome, confirmStep w signature lastValidBlockHeight p = .inr outcome ∧
      outcome.status = .expired) ↔
      (∃ start, p = .checking start ∧ CONFIRM_TIMEOUT_MS ≤ w.now - start) ∨
        ∃ start, p = .askingHeight start ∧ lastValidBlockHeight < w.height := by
  cases p with
  | called => simp [confirmStep]
  | sleeping start => simp [confirmStep]
  | checking start =>
    by_cases hover : w.now - start < CONFIRM_TIMEOUT_MS
    · simp [confirmStep, hover]
    · simp [confirmStep, hover, expired, not_lt.mp hover]
  | askingHeight start =>
    by_cases hpast : w.height > lastValidBlockHeight
    · simp [confirmStep, hpast, expired]
    · simp [confirmStep, hpast]
  -- a status is confirmed or failed, never expired
  | askingStatus start =>
    simp only [confirmStep, reduceCtorEq, false_and, exists_false, or_false, iff_false]
    rintro ⟨outcome, hout, hexp⟩
    split at hout
    · rename_i o ho
      obtain rfl := Sum.inr.inj hout
      exact settled_ne_expired ho hexp
    · simp at hout

end AriOs.Chains.Solana
