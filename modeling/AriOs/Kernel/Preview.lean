import AriOs.Kernel.TradeGateway

/-!
# A preview agrees with the live path

A preview reads the window usage and checks the caps on it itself; the live path leaves the
check to the transaction that inserts the reservation. Both come to the same condition on
the two windows, and the guards that need no network differ in the execution switch alone.

## Main results

* `assertWithinCaps_eq_ok_iff`, `denied_iff`, `reserved_iff` — what the check of a preview and
  the reservation of the live path come to
-/

namespace AriOs.Kernel

open AriOs.Async AriOs.Js AriOs.Storage AriOs.Kernel.Gateway

/-- A spend fits: the per-trade cap alone, the other two on top of what the hour and the day
already hold. -/
structure Admits (caps : SpendCaps) (used : Int × Int) (amount : Int) : Prop where
  perTrade : amount ≤ caps.perTrade
  perHour : used.1 + amount ≤ caps.perHour
  perDay : used.2 + amount ≤ caps.perDay

theorem assertWithinCaps_eq_ok_iff {bucket : QuoteBucket} {amount : Int} {caps : SpendCaps}
    {used : Int × Int} :
    assertWithinCaps bucket amount caps used = .ok () ↔ Admits caps used amount := by
  simp only [assertWithinCaps, bind_eq_ok, throwIf_eq_ok, not_lt, gt_iff_lt]
  constructor
  · rintro ⟨-, htrade, -, hhour, hday⟩
    exact ⟨htrade, hhour, hday⟩
  · intro h
    exact ⟨(), h.perTrade, (), h.perHour, h.perDay⟩

section Reserve

variable {s : KernelStore} {args : ReserveArgs} {id : String}

/-- A reservation is refused by a cap exactly when the spend does not fit. -/
theorem denied_iff :
    (∃ reason cap would, (s.reserve args id).1 = .ok (.denied reason cap would)) ↔
      ¬ Admits args.caps (s.usage args.bucket args.now) args.amount := by
  constructor
  · rintro ⟨reason, cap, would, hdenied⟩ h
    obtain ⟨htrade, hhour, hday⟩ := h
    simp only [KernelStore.usage] at hhour hday
    simp only [KernelStore.reserve, gt_iff_lt, not_lt.mpr htrade, not_lt.mpr hhour,
      not_lt.mpr hday, if_false] at hdenied
    split at hdenied <;> simp at hdenied
  · intro h
    by_contra hnone
    refine h ⟨?_, ?_, ?_⟩ <;> by_contra hover
    all_goals
      refine hnone ?_
      unfold KernelStore.reserve
      dsimp only [KernelStore.usage] at hover ⊢
      repeat' split
      all_goals first | exact ⟨_, _, _, rfl⟩ | omega

/-- A reservation is made exactly when the spend fits and its id is not taken. -/
theorem reserved_iff :
    (∃ usedHour usedDay, (s.reserve args id).1 = .ok (.reserved id usedHour usedDay)) ↔
      Admits args.caps (s.usage args.bucket args.now) args.amount ∧ s.spends.find? id = none := by
  rcases s.reserve_cases args id with
    ⟨spends, usedHour, usedDay, htrade, hhour, hday, hinsert, heq⟩ | ⟨-, hnot⟩
  · have hfree : s.spends.find? id = none := Table.find?_of_insert? hinsert
    rw [heq]
    exact ⟨fun _ => ⟨⟨htrade, hhour, hday⟩, hfree⟩, fun _ => ⟨usedHour, usedDay, rfl⟩⟩
  · constructor
    · rintro ⟨usedHour, usedDay, h⟩
      exact absurd h (hnot _ _ _)
    · rintro ⟨hfits, hfree⟩
      -- nothing refuses it, so the insert is reached, and it finds the id free
      exfalso
      have hallowed : ¬ ∃ reason cap would,
          (s.reserve args id).1 = .ok (.denied reason cap would) := by
        rw [denied_iff]
        exact not_not.mpr hfits
      unfold KernelStore.reserve at hnot hallowed
      dsimp only at hnot hallowed
      repeat' split at hnot
      all_goals simp_all [Table.insert?_eq_none_iff]

end Reserve

/-- The live path asks what a preview asks, and that execution is enabled. -/
theorem staticGuards_live_iff {policy : PolicyConfig} {intent : TradeIntent} {confirmed : Bool} :
    staticGuards policy intent ⟨false, confirmed⟩ = .ok () ↔
      staticGuards policy intent ⟨true, confirmed⟩ = .ok () ∧ policy.executionEnabled = true := by
  cases henabled : policy.executionEnabled <;> simp [staticGuards, henabled]

/-- The cap check of a preview, run at one reading of the clock. -/
theorem exec_previewCaps {policy : PolicyConfig} {intent : TradeIntent} {bucket : QuoteBucket}
    (hbucket : quoteBucketFor intent.input.mint = some bucket) (env : Nat → ∀ o, interface.Ans o)
    (n : Nat) (s : KernelStore) :
    (previewCaps policy intent).run.exec machine env n s =
      (assertWithinCaps bucket intent.input.amount (policy.capsFor bucket)
        (s.usage bucket (env n .now)), n + 2, s) := by
  simp only [previewCaps, hbucket]
  rfl

/-- **A preview agrees with the live path.** Run at any store and any reading of the clock, the
cap check of a preview changes nothing and passes exactly when no cap refuses the reservation
of the same intent at that time, that is, when `reserve` makes it under an id that is free; an
intent that spends no quote asset is checked by neither. The guards of the live path pass
exactly when those of a preview do and execution is enabled. -/
theorem preview_agrees (policy : PolicyConfig) (intent : TradeIntent) (s : KernelStore)
    (env : Nat → ∀ o, interface.Ans o) (n : Nat) (tradeId id : String) :
    (match quoteBucketFor intent.input.mint with
      | some bucket =>
        let at_ : Int := env n .now
        let outcome :=
          (s.reserve ⟨bucket, intent.input.amount, policy.capsFor bucket, tradeId, at_⟩ id).1
        let passed := ((previewCaps policy intent).run.exec machine env n s).1 = .ok ()
        (passed ↔ ¬ ∃ reason cap would, outcome = .ok (.denied reason cap would)) ∧
          (passed ∧ s.spends.find? id = none ↔
            ∃ usedHour usedDay, outcome = .ok (.reserved id usedHour usedDay))
      | none => ((previewCaps policy intent).run.exec machine env n s).1 = .ok ()) ∧
    ((previewCaps policy intent).run.exec machine env n s).2.2 = s ∧
    ∀ confirmed, staticGuards policy intent ⟨false, confirmed⟩ = .ok () ↔
      staticGuards policy intent ⟨true, confirmed⟩ = .ok () ∧ policy.executionEnabled = true := by
  refine ⟨?_, ?_, fun confirmed => staticGuards_live_iff⟩
  · cases hbucket : quoteBucketFor intent.input.mint with
    | none => simp only [previewCaps, hbucket]; rfl
    | some bucket =>
      dsimp only
      -- both compare the same totals with the same caps
      rw [exec_previewCaps hbucket, assertWithinCaps_eq_ok_iff, denied_iff, reserved_iff, not_not]
      exact ⟨Iff.rfl, Iff.rfl⟩
  · cases hbucket : quoteBucketFor intent.input.mint with
    | none => simp only [previewCaps, hbucket]; rfl
    | some bucket => rw [exec_previewCaps hbucket]

end AriOs.Kernel
