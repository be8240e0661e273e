import AriOs.Kernel.Interleaving
import Mathlib.Algebra.Order.BigOperators.Group.List
import Mathlib.Algebra.Order.Group.Int

/-!
# Spend caps

A reservation is checked once, against the windows trailing the moment it is made for.
Later the row changes state and the windows slide on. That the caps hold at every moment
and not only at those the code looked at rests on three facts: amounts are never negative,
no statement of the live path turns a spend that does not count into one that does, and a
window that ends after a reservation was made begins after the one it was checked against.
-/

namespace AriOs.Kernel

open AriOs.Async AriOs.Storage

/-- A spend counts against its bucket in the window from `lo` to `hi`. -/
def SpendRow.countsIn (bucket : QuoteBucket) (lo hi : Int) (r : SpendRow) : Bool :=
  r.activeSince bucket lo && decide (r.createdAt ≤ hi)

/-- The amounts of the reserved and consumed spends of a bucket created from `lo` to `hi`. -/
def windowSum (s : KernelStore) (bucket : QuoteBucket) (lo hi : Int) : Int :=
  ((s.spends.rows.filter (SpendRow.countsIn bucket lo hi)).map SpendRow.amount).sum

/-- Amounts are not negative, and every trailing hour and day is within its cap. -/
structure Capped (caps : QuoteBucket → SpendCaps) (s : KernelStore) : Prop where
  nonneg : ∀ r ∈ s.spends.rows, 0 ≤ r.amount
  hour : ∀ bucket t, windowSum s bucket (t - HOUR_MS) t ≤ (caps bucket).perHour
  day : ∀ bucket t, windowSum s bucket (t - DAY_MS) t ≤ (caps bucket).perDay

/-! ### Sums over windows -/

section Windows

variable {l : List SpendRow} {p q : SpendRow → Bool} {s : KernelStore} {bucket : QuoteBucket}
  {lo hi : Int}

/-- The sum over the selected rows, row by row. -/
theorem sum_filter_amount (l : List SpendRow) (p : SpendRow → Bool) :
    ((l.filter p).map SpendRow.amount).sum = (l.map fun r => if p r then r.amount else 0).sum := by
  induction l with
  | nil => rfl
  | cons r l ih =>
    by_cases h : p r <;> simp [h, ih]

/-- Selecting fewer rows of no negative amount adds up to no more. -/
theorem sum_filter_mono (hnonneg : ∀ r ∈ l, 0 ≤ r.amount) (hpq : ∀ r ∈ l, p r → q r) :
    ((l.filter p).map SpendRow.amount).sum ≤ ((l.filter q).map SpendRow.amount).sum := by
  rw [sum_filter_amount, sum_filter_amount]
  refine List.sum_le_sum fun r hr => ?_
  have hr0 := hnonneg r hr
  by_cases h : p r
  · simp [h, hpq r hr h]
  · by_cases h' : q r <;> simp [h, h', hr0]

/-- A window is within any that begins earlier and never ends. -/
theorem windowSum_le_sumActive (hnonneg : ∀ r ∈ s.spends.rows, 0 ≤ r.amount) {since : Int}
    (hlo : since ≤ lo) : windowSum s bucket lo hi ≤ s.sumActive bucket since := by
  refine sum_filter_mono hnonneg fun r _ h => ?_
  simp only [SpendRow.countsIn, SpendRow.activeSince, Bool.and_eq_true, decide_eq_true_eq] at h ⊢
  exact ⟨h.1.1, h.1.2.1, by omega⟩

/-- A statement that makes no spend count anew makes no window larger. -/
theorem windowSum_setSpendState_le (hnonneg : ∀ r ∈ s.spends.rows, 0 ≤ r.amount)
    {state : SpendState} (hstate : ∀ r ∈ s.spends.rows, p r = true → state = .released ∨
      r.state = .reserved) :
    windowSum (s.setSpendState p state) bucket lo hi ≤ windowSum s bucket lo hi := by
  unfold windowSum KernelStore.setSpendState
  rw [sum_filter_amount, sum_filter_amount, Table.rows_update, List.map_map]
  refine List.sum_le_sum fun r hr => ?_
  have hr0 := hnonneg r hr
  -- a row that counts afterwards counted before: released rows never count
  have hcount : SpendRow.countsIn bucket lo hi (if p r then { r with state } else r) = true →
      SpendRow.countsIn bucket lo hi r = true := by
    by_cases h : p r = true
    · rcases hstate r hr h with rfl | hres
      · simp [h, SpendRow.countsIn, SpendRow.activeSince]
      · simp only [h, SpendRow.countsIn, SpendRow.activeSince, hres, ↓reduceIte,
          Bool.and_eq_true, decide_eq_true_eq]
        tauto
    · simp [h]
  have hamount : (if p r then { r with state } else r).amount = r.amount := by split <;> rfl
  simp only [Function.comp_apply, hamount]
  by_cases hnew : SpendRow.countsIn bucket lo hi (if p r then { r with state } else r) = true
  · rw [if_pos hnew, if_pos (hcount hnew)]
  · rw [if_neg hnew]
    split <;> simp [hr0]

/-- A new spend that fits the window trailing its own moment fits every trailing window. -/
theorem windowSum_insert_le (hnonneg : ∀ r ∈ s.spends.rows, 0 ≤ r.amount) {row : SpendRow}
    {spends : Table SpendRow.id} (hins : s.spends.insert? row = some spends) {width t : Int}
    (cap : QuoteBucket → Int)
    (hfit : s.sumActive row.bucket (row.createdAt - width) + row.amount ≤ cap row.bucket)
    (hcap : windowSum s bucket (t - width) t ≤ cap bucket) :
    windowSum { s with spends } bucket (t - width) t ≤ cap bucket := by
  have hsplit : windowSum { s with spends } bucket (t - width) t =
      windowSum s bucket (t - width) t +
        if row.countsIn bucket (t - width) t then row.amount else 0 := by
    unfold windowSum
    rw [Table.rows_of_insert? hins, List.filter_append, List.map_append, List.sum_append]
    by_cases h : row.countsIn bucket (t - width) t <;> simp [h]
  rw [hsplit]
  split
  · rename_i h
    simp only [SpendRow.countsIn, SpendRow.activeSince, Bool.and_eq_true, decide_eq_true_eq] at h
    obtain ⟨⟨rfl, -, -⟩, hle⟩ := h
    -- the window ends at or after the new row, so it begins after the one that was checked
    have hold : windowSum s row.bucket (t - width) t ≤
        s.sumActive row.bucket (row.createdAt - width) :=
      windowSum_le_sumActive hnonneg (by omega)
    omega
  · omega

end Windows

/-! ### What each call keeps of the caps -/

section Capped

variable {caps : QuoteBucket → SpendCaps} {s : KernelStore} {v : Known}

theorem capped_setSpendState (hs : Capped caps s) {p : SpendRow → Bool} {state : SpendState}
    (hstate : ∀ r ∈ s.spends.rows, p r = true → state = .released ∨ r.state = .reserved) :
    Capped caps (s.setSpendState p state) where
  nonneg r hr := by
    obtain ⟨r₀, hr₀, rfl⟩ := List.mem_map.mp hr
    have := hs.nonneg r₀ hr₀
    split <;> exact this
  hour bucket t := (windowSum_setSpendState_le hs.nonneg hstate).trans (hs.hour bucket t)
  day bucket t := (windowSum_setSpendState_le hs.nonneg hstate).trans (hs.day bucket t)

theorem capped_reserve (hs : Capped caps s) {args : ReserveArgs} {id : String}
    (hamount : 0 ≤ args.amount) (hcaps : args.caps = caps args.bucket) :
    Capped caps (s.reserve args id).2 := by
  obtain ⟨spends, _, _, -, hhour, hday, hins, heq⟩ | ⟨heq, -⟩ := s.reserve_cases args id
  · rw [heq]
    rw [hcaps] at hhour hday
    refine ⟨fun r hr => ?_, fun bucket t => ?_, fun bucket t => ?_⟩
    · rw [Table.rows_of_insert? hins, List.mem_append, List.mem_singleton] at hr
      rcases hr with hr | rfl
      · exact hs.nonneg r hr
      · exact hamount
    · exact windowSum_insert_le hs.nonneg hins (fun b => (caps b).perHour) hhour
        (hs.hour bucket t)
    · exact windowSum_insert_le hs.nonneg hins (fun b => (caps b).perDay) hday (hs.day bucket t)
  · rw [heq]; exact hs

/-- The caps a call reserves under are those of the policy it read. -/
theorem capped_handle (hs : Capped caps s) (hv : Owns s v)
    (hpolicy : ∀ p, v.policy = some p → p.capsFor = caps) {o : Op} (hpre : v.Allows o)
    (a : o.Ans) : Capped caps (machine.handle o s a).2 := by
  cases o with
  | claimIdempotency key tradeId now =>
    have hspends : (s.claimIdempotency key tradeId now).2.spends = s.spends := by simp
    change Capped caps (s.claimIdempotency key tradeId now).2
    refine ⟨?_, fun bucket t => ?_, fun bucket t => ?_⟩
    · rw [hspends]; exact hs.nonneg
    · rw [windowSum, hspends]; exact hs.hour bucket t
    · rw [windowSum, hspends]; exact hs.day bucket t
  | reserve args =>
    obtain ⟨-, -, -, hamount, policy, hp, hcaps⟩ := hpre
    exact capped_reserve hs hamount (by rw [hcaps, hpolicy policy hp])
  | insertTrade row reservationId =>
    change Capped caps (s.insertTrade row reservationId).2
    obtain ⟨trades, -, heq⟩ | ⟨e, heq⟩ := s.insertTrade_cases row reservationId
    · rw [heq]; exact { hs with }
    · rw [heq]; exact hs
  | releaseReservation id => exact capped_setSpendState hs fun _ _ _ => .inl rfl
  | consumeReservation id =>
    refine capped_setSpendState hs fun r hr hp => .inr ?_
    -- the consumed row is the call's own, which it left reserved
    obtain ⟨hspend, hreserved, -⟩ := hpre
    obtain ⟨r', hr', hid⟩ := Option.map_eq_some_iff.mp hspend
    have hown := hv.spend r' hr'
    obtain rfl : r.id = id := by simpa using hp
    rw [hid, Table.mem_rows_iff.mp hr] at hown
    obtain rfl := Option.some_inj.mp hown
    exact hreserved r hr'
  | persistSigned id wire signature now => exact { hs with }
  | setSignature id signature now => exact { hs with }
  | setState id state now => exact { hs with }
  | fail id state error now => exact { hs with }
  | appendJournal event => exact { hs with }
  | _ => exact hs

end Capped

/-! ### Every run -/

/-- Only a reading of the policy changes which policy a call goes by. -/
theorem policy_upd {v : Known} {o : Op} {r : o.Res} {caps : QuoteBucket → SpendCaps}
    (hv : ∀ p, v.policy = some p → p.capsFor = caps)
    (hr : ∀ p, (⟨o, r⟩ : Entry interface) = ⟨.policy, p⟩ → PolicyConfig.capsFor p = caps) :
    ∀ p, (v.upd ⟨o, r⟩).policy = some p → p.capsFor = caps := by
  cases o with
  | policy =>
    rintro p ⟨rfl⟩
    exact hr r rfl
  | reserve args =>
    obtain ⟨spend, h⟩ := v.onReserve_eq args r
    intro p hp
    change (v.onReserve args r).policy = some p at hp
    rw [h] at hp
    exact hv p hp
  | insertTrade row id => cases r <;> exact hv
  | broadcast mode signed handle => cases r <;> exact hv
  | readPair owner input output => cases r <;> exact hv
  | _ => exact hv

/-- Every policy read in the run has the caps `caps`. -/
def FixedCaps (caps : QuoteBucket → SpendCaps) : Event interface Request → Prop
  | .step _ ans => PolicyConfig.capsFor (ans .policy) = caps
  | _ => True

theorem capped_modular (d : Deps) (caps : QuoteBucket → SpendCaps) :
    Modular machine (execute d) Known.discipline Known.start (fun w _ => w.Done)
      (fun s => Consistent s ∧ Capped caps s)
      (fun s v => Owns s v ∧ ∀ p, v.policy = some p → p.capsFor = caps) Apart
      fun _ e => FixedCaps caps e where
  body_safe := execute_safe d
  symm _ _ h := h.symm
  spawn p r _ hs := by
    obtain ⟨howns, hapart⟩ := (gateway_modular d).spawn p r trivial hs.1
    exact ⟨⟨howns, by simp [Known.start]⟩, fun w hw => hapart w hw.1⟩
  call p t ans c o k hfixed hct _ hs hknown hpre := by
    obtain hv := hknown t c hct
    refine ⟨trivial, ⟨consistent_handle hs.1 hv.1 hpre _, capped_handle hs.2 hv.1 hv.2 hpre _⟩,
      owns_handle hv.1 hpre _, policy_upd hv.2 fun policy heq => ?_⟩
    cases o <;> cases heq
    exact hfixed
  frame s v o a w hs hv hpre hw hp := by
    obtain ⟨howns, hapart⟩ := (gateway_modular d).frame s v o a w hs.1 hv.1 hpre hw.1 hp
    exact ⟨⟨howns, hw.2⟩, hapart⟩

/-- **The caps hold on every run.** As long as the caps stay the same, the reserved and
consumed spends created in the hour up to any moment are within the hourly cap of their
bucket, and those of the day up to it within the daily one. -/
theorem spend_caps_hold (d : Deps) (caps : QuoteBucket → SpendCaps)
    (es : List (Event interface Request)) (hfixed : ∀ e ∈ es, FixedCaps caps e)
    (bucket : QuoteBucket) (t : Int) :
    windowSum (gatewayRun d es).shared bucket (t - HOUR_MS) t ≤ (caps bucket).perHour ∧
      windowSum (gatewayRun d es).shared bucket (t - DAY_MS) t ≤ (caps bucket).perDay := by
  have hempty : Capped caps KernelStore.empty :=
    ⟨by simp [KernelStore.empty], by simp [windowSum, KernelStore.empty],
      by simp [windowSum, KernelStore.empty]⟩
  have hco := (capped_modular d caps).run (Pool.meets_of_forall hfixed)
    (Modular.coherent_start ⟨fun id t ht => by simp [KernelStore.empty] at ht, hempty⟩)
  exact ⟨hco.shared.2.hour bucket t, hco.shared.2.day bucket t⟩

/-- A confirmed swap counts in the hour it was made in. -/
theorem spend_caps_hold_sample :
    windowSum (gatewayRun sampleDeps (sampleEvents (.ok .confirmed) 40)).shared .sol
        (0 - HOUR_MS) 0 = 1000 ∧
      windowSum (gatewayRun sampleDeps (sampleEvents (.ok .confirmed) 40)).shared .sol
        (0 - HOUR_MS) 0 ≤ sampleCaps.perHour := by
  have hcaps : samplePolicy.capsFor = fun _ => sampleCaps := by
    funext bucket
    cases bucket <;> rfl
  have hfixed : ∀ e ∈ sampleEvents (.ok .confirmed) 40, FixedCaps (fun _ => sampleCaps) e := by
    intro e he
    rcases List.mem_cons.mp he with rfl | he
    · trivial
    · rw [List.eq_of_mem_replicate he]
      exact hcaps
  exact ⟨by decide +kernel, (spend_caps_hold sampleDeps (fun _ => sampleCaps) _ hfixed .sol 0).1⟩

end AriOs.Kernel
