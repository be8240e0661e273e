import AriOs.Pools.RebalanceLimits

/-!
# A better case for moving is no worse decided

Two subjects are compared: the same position, pool, policy and prices, once with costs and a past
that speak less against a move, and fees that speak more for it. Each brake of the decision looks
at one of these numbers only, and releases for the better one if it does for the other; the range
to move to depends on none of them.
-/

namespace AriOs.Pools.Rebalance

open AriOs.Js

/-! ### What a decision to move has passed -/

/-- The range the position has. -/
def LpPosition.range (p : LpPosition) : BinRange := ⟨p.lowerLevel, p.upperLevel⟩

/-- The first brake, and the checks in front of it: they look at the position, the pool and the
policy only. -/
structure Drifted (position : LpPosition) (pool : PoolSummary) (policy : RebalancePolicy) :
    Prop where
  wellFormed : ¬ (¬ position.lowerLevel.isInteger ∨ ¬ position.upperLevel.isInteger ∨
    position.upperLevel.lt position.lowerLevel)
  matching : position.poolAddress = pool.address
  drifted : ¬ (¬ policy.driftBins.lt (binDrift position.range pool.activeLevel).abs ∧
    ¬ nearEdge policy position.range (activePositionInRange position.range pool.activeLevel))

/-- Neither the interval nor the daily cap speaks against a move. -/
structure Unlimited (policy : RebalancePolicy) (history : RebalanceHistory) (now : ℚ) : Prop where
  interval : tooSoon policy history now = none
  cap : policy.maxPerDay.le (.ofInt history.countInWindow) = false

/-- The move to `target` pays for itself. -/
def Pays (sqrt : ℚ → ℚ) (s : RebalanceSubject) (target : BinRange) : Prop :=
  ∃ econ, computeEconomics sqrt s target = .ok (some econ) ∧ 0 < econ.netBenefitQuote ∧
    s.policy.minNetBenefitQuote ≤ econ.netBenefitQuote

/-- A subject passes every brake, towards `target`. -/
structure Moves (sqrt : ℚ → ℚ) (s : RebalanceSubject) (target : BinRange) : Prop where
  drifted : Drifted s.position s.pool s.policy
  unlimited : Unlimited s.policy s.history s.now
  range : rangeAroundActive s.pool.activeLevel s.policy.targetBelowBins s.policy.targetAboveBins =
    .ok target
  changed : target ≠ s.position.range
  pays : Pays sqrt s target

section Decision

variable {sqrt : ℚ → ℚ} {s : RebalanceSubject} {target range : BinRange} {drift : JsNumber}
  {fraction : Option JsNumber}

theorem limited_eq_none_iff :
    limited s range drift fraction = none ↔ Unlimited s.policy s.history s.now := by
  constructor
  · intro h
    unfold limited at h
    split at h
    · cases h
    · rename_i hsoon
      split at h
      · cases h
      · rename_i hcap
        exact ⟨hsoon, by simpa using hcap⟩
  · rintro ⟨hsoon, hcap⟩
    simp [limited, hsoon, hcap]

theorem action_of_limited {held : RebalanceDecision}
    (h : limited s range drift fraction = some held) : held.action = .hold := by
  unfold limited at h
  split at h
  · obtain rfl := Option.some.inj h
    rfl
  · split at h
    · obtain rfl := Option.some.inj h
      rfl
    · cases h

/-- What passes the last brake pays, and moves to the range it was asked about. -/
theorem pays_of_decideEconomics {d : RebalanceDecision}
    (h : decideEconomics sqrt s range target drift fraction = .ok d)
    (haction : d.action = .rebalance) : d.targetRange = some target ∧ Pays sqrt s target := by
  simp only [decideEconomics, bind_eq_ok] at h
  obtain ⟨econ, hecon, hd⟩ := h
  cases econ with
  | none =>
    obtain rfl := Except.ok.inj hd
    cases haction
  | some econ =>
    dsimp only at hd
    split at hd
    · obtain rfl := Except.ok.inj hd
      cases haction
    · rename_i hnet
      obtain rfl := Except.ok.inj hd
      exact ⟨rfl, econ, hecon, by omega, by omega⟩

theorem Pays.decideEconomics (h : Pays sqrt s target) :
    ∃ d, decideEconomics sqrt s range target drift fraction = .ok d ∧ d.action = .rebalance ∧
      d.targetRange = some target := by
  obtain ⟨econ, hecon, hpos, hmin⟩ := h
  have hnet : ¬ (econ.netBenefitQuote ≤ 0 ∨
      econ.netBenefitQuote < s.policy.minNetBenefitQuote) := by omega
  simp only [Rebalance.decideEconomics, bind_eq_ok]
  exact ⟨_, ⟨some econ, hecon, if_neg hnet⟩, rfl, rfl⟩

/-- What is decided to move has passed every brake. -/
theorem moves_of_decideRebalance {d : RebalanceDecision} (h : decideRebalance sqrt s = .ok d)
    (haction : d.action = .rebalance) : ∃ target, d.targetRange = some target ∧ Moves sqrt s target := by
  -- a decision to hold is none to rebalance
  have hhold : ∀ {held : RebalanceDecision}, held.action = .hold →
      (pure held : Except PoolError RebalanceDecision) ≠ .ok d := by
    rintro held hheld heq
    obtain rfl := Except.ok.inj heq
    rw [hheld] at haction
    cases haction
  -- check by check: each one that fails holds
  unfold decideRebalance at h
  dsimp only at h
  split at h
  · exact absurd h (hhold rfl)
  rename_i hwell
  split at h
  · exact absurd h (hhold rfl)
  rename_i hmatching
  split at h
  · exact absurd h (hhold rfl)
  rename_i hdrifted
  split at h
  · rename_i held hlimited
    exact absurd h (hhold (action_of_limited hlimited))
  rename_i hlimited
  obtain ⟨target, htarget, h⟩ := bind_eq_ok.mp h
  split at h
  · exact absurd h (hhold rfl)
  rename_i hchanged
  obtain ⟨heq, hpays⟩ := pays_of_decideEconomics h haction
  exact ⟨target, heq, ⟨hwell, not_not.mp hmatching, hdrifted⟩, limited_eq_none_iff.mp hlimited,
    htarget, hchanged, hpays⟩

/-- What passes every brake is moved. -/
theorem Moves.decideRebalance (h : Moves sqrt s target) : ∃ d, decideRebalance sqrt s = .ok d ∧
    d.action = .rebalance ∧ d.targetRange = some target := by
  obtain ⟨⟨hwell, hmatching, hdrifted⟩, hunlimited, htarget, hchanged, hpays⟩ := h
  obtain ⟨d, hd, haction, heq⟩ := hpays.decideEconomics
  refine ⟨d, ?_, haction, heq⟩
  refine (if_neg hwell).trans ((if_neg (not_not.mpr hmatching)).trans
    ((if_neg hdrifted).trans ?_))
  rw [limited_eq_none_iff.mpr hunlimited]
  exact bind_eq_ok.mpr ⟨target, htarget, (if_neg hchanged).trans hd⟩

end Decision

/-! ### Two subjects -/

/-- Two economic fields that are there and not negative, the second no larger. -/
def NoLarger (x y : Option Int) : Prop := ∃ a b, x = some a ∧ y = some b ∧ 0 ≤ b ∧ b ≤ a

/-- The second subject speaks more for a move than the first: it differs from it in costs that are
no larger, fees that are no smaller, no more rebalances in the window and no earlier a time. -/
structure Favours (s s' : RebalanceSubject) : Prop where
  position : s'.position = s.position
  pool : s'.pool = s.pool
  policy : s'.policy = s.policy
  lastAt : s'.history.lastAt = s.history.lastAt
  countInWindow : s'.history.countInWindow ≤ s.history.countInWindow
  now : s.now ≤ s'.now
  entryUiPrice : s'.economics.entryUiPrice = s.economics.entryUiPrice
  txCost : NoLarger s.economics.txCostQuote s'.economics.txCostQuote
  swapCost : NoLarger s.economics.inventorySwapCostQuote s'.economics.inventorySwapCostQuote
  notional : NoLarger s.economics.positionNotionalQuote s'.economics.positionNotionalQuote
  fees : NoLarger s'.economics.projectedFeesPerDayQuote s.economics.projectedFeesPerDayQuote

section Compare

variable {sqrt : ℚ → ℚ} {s s' : RebalanceSubject} {target : BinRange}

/-- A history with a past no closer and no fuller is limited no earlier. -/
theorem Unlimited.mono {policy : RebalancePolicy} {history history' : RebalanceHistory}
    {now now' : ℚ}
    (h : Unlimited policy history now) (hlast : history'.lastAt = history.lastAt)
    (hcount : history'.countInWindow ≤ history.countInWindow) (hnow : now ≤ now') :
    Unlimited policy history' now' := by
  obtain ⟨hsoon, hcap⟩ := h
  refine ⟨?_, ?_⟩
  · unfold tooSoon at hsoon ⊢
    rw [hlast]
    cases hlastAt : history.lastAt with
    | none => rfl
    | some lastAt =>
      rw [hlastAt] at hsoon
      -- a gap that was long enough only grows
      have hgap : (JsNumber.finite (now - lastAt)).lt policy.minIntervalMs = false := by
        by_contra hshort
        rw [Bool.not_eq_false] at hshort
        simp [hshort] at hsoon
      have hgap' := not_lt_mono _ (now' - lastAt) hgap (by linarith)
      simp [hgap']
  · by_contra hreached
    rw [Bool.not_eq_false] at hreached
    -- and a count below the cap only falls
    have hle : (JsNumber.ofInt history'.countInWindow).le (.ofInt history.countInWindow) = true := by
      rw [JsNumber.le_ofInt]
      exact decide_eq_true (by exact_mod_cast hcount)
    rw [JsNumber.le_trans hreached hle] at hcap
    cases hcap

theorem round_floor_nonneg {q : ℚ} (h : 0 ≤ q) :
    0 ≤ (JsNumber.finite q).round.floor?.getD 0 := by
  show 0 ≤ ⌊((⌊q + 1 / 2⌋ : ℤ) : ℚ)⌋
  positivity

/-- What is at least zero is no negative integer. -/
theorem bigInt_max_nonneg {n : JsNumber} {i : Int}
    (h : ((JsNumber.ofInt 0).max n).bigInt PoolError.other = .ok i) : 0 ≤ i := by
  have hi := JsNumber.eq_ofInt_of_toBigInt? (orThrow_eq_ok.mp h)
  unfold JsNumber.max at hi
  split at hi
  · cases hi
  · split at hi
    · rename_i hlt
      rw [hi, JsNumber.lt_ofInt] at hlt
      exact (of_decide_eq_true hlt).le
    · simp [JsNumber.ofInt] at hi
      exact_mod_cast hi.le

/-- A smaller notional loses no more to divergence. -/
theorem divergenceCost_mono (h : Favours s s') {cost : Int} {ilPct : Option ℚ}
    (hcost : divergenceCost sqrt s = .ok (some (cost, ilPct))) :
    ∃ cost' ≤ cost, divergenceCost sqrt s' = .ok (some (cost', ilPct)) := by
  -- the same factor is taken of a notional that is no larger
  obtain ⟨notional, notional', hnotional, hnotional', hpos, hle⟩ := h.notional
  unfold divergenceCost at hcost ⊢
  rw [h.policy, h.pool, h.entryUiPrice, hnotional']
  rw [hnotional] at hcost
  split at hcost
  · rename_i hrequire
    rw [if_pos hrequire]
    cases hentry : s.economics.entryUiPrice with
    | none =>
      rw [hentry] at hcost
      cases hcost
    | some entry =>
      rw [hentry] at hcost
      dsimp only at hcost ⊢
      split at hcost
      · cases hcost
      · rename_i hvalid
        rw [if_neg (by rintro (hneg | hrest); exacts [by omega, hvalid (.inr hrest)])]
        simp only [bind_eq_ok] at hcost ⊢
        obtain ⟨nowPrice, hprice, il, hil, hret⟩ := hcost
        obtain ⟨rfl, rfl⟩ := Prod.mk.inj (Option.some.inj (Except.ok.inj hret))
        refine ⟨_, ?_, nowPrice, hprice, il, hil, rfl⟩
        refine Int.tdiv_le_tdiv (by norm_num) (mul_le_mul_of_nonneg_right hle ?_)
        exact round_floor_nonneg (by positivity)
  · rename_i hrequire
    rw [if_neg hrequire]
    exact ⟨cost, le_rfl, hcost⟩

theorem Pays.mono (h : Favours s s') (hpays : Pays sqrt s target) : Pays sqrt s' target := by
  obtain ⟨tx, tx', htx, htx', htxPos, htxLe⟩ := h.txCost
  obtain ⟨swap, swap', hswap, hswap', hswapPos, hswapLe⟩ := h.swapCost
  obtain ⟨fees', fees, hfees', hfees, hfeesPos, hfeesLe⟩ := h.fees
  obtain ⟨econ, hecon, hpos, hmin⟩ := hpays
  unfold Pays
  unfold computeEconomics at hecon ⊢
  rw [htx', hswap', hfees', h.position, h.policy]
  rw [htx, hswap, hfees] at hecon
  dsimp only at hecon ⊢
  rw [if_neg (by omega)] at hecon ⊢
  split at hecon
  · cases hecon
  · rename_i hhorizon
    rw [if_neg hhorizon]
    simp only [bind_eq_ok] at hecon ⊢
    obtain ⟨scale, hscale, divergence, hdivergence, hret⟩ := hecon
    cases divergence with
    | none => cases hret
    | some divergence =>
      obtain ⟨cost, ilPct⟩ := divergence
      obtain rfl := Option.some.inj (Except.ok.inj hret)
      obtain ⟨cost', hcostLe, hcost'⟩ := divergenceCost_mono h hdivergence
      -- fees grow and costs shrink, with the same scale
      have hfees : (fees * scale).tdiv 1000000 ≤ (fees' * scale).tdiv 1000000 :=
        Int.tdiv_le_tdiv (by norm_num)
          (mul_le_mul_of_nonneg_right hfeesLe (bigInt_max_nonneg hscale))
      refine ⟨_, ⟨scale, hscale, _, hcost', rfl⟩, ?_, ?_⟩ <;> dsimp only at hpos hmin ⊢ <;> omega

/-- What moves the one subject moves the other, to the same range. -/
theorem Moves.mono (h : Favours s s') (hmoves : Moves sqrt s target) : Moves sqrt s' target where
  drifted := by rw [h.position, h.pool, h.policy]; exact hmoves.drifted
  unlimited := by
    rw [h.policy]
    exact hmoves.unlimited.mono h.lastAt h.countInWindow h.now
  range := by rw [h.pool, h.policy]; exact hmoves.range
  changed := by rw [h.position]; exact hmoves.changed
  pays := hmoves.pays.mono h

end Compare

/-! ### Fees that could be claimed -/

section Claimable

variable {sqrt : ℚ → ℚ} {s : RebalanceSubject} {target range : BinRange} {drift : JsNumber}
  {fraction : Option JsNumber}

/-- The subject, with other fees that could be claimed. -/
def RebalanceSubject.withClaimable (s : RebalanceSubject) (claimable : Int) : RebalanceSubject :=
  { s with economics := { s.economics with claimableFeesQuote := claimable } }

theorem map_bind_except {ε α β γ : Type} (f : β → γ) (x : Except ε α) (g : α → Except ε β) :
    (x >>= g).map f = x >>= fun a => (g a).map f := by
  cases x <;> rfl

theorem map_ite_congr {ε α β : Type} {c c' : Prop} [Decidable c] [Decidable c'] (hc : c ↔ c')
    (f : α → β) {x y x' y' : Except ε α} (hx : x.map f = x'.map f) (hy : y.map f = y'.map f) :
    (if c then x else y).map f = (if c' then x' else y').map f := by
  by_cases h : c
  · rwa [if_pos h, if_pos (hc.mp h)]
  · rwa [if_neg h, if_neg (mt hc.mpr h)]

/-- They are reported, and nothing else. -/
theorem computeEconomics_withClaimable (claimable : Int) :
    computeEconomics sqrt (s.withClaimable claimable) target =
      (computeEconomics sqrt s target).map
        (Option.map fun econ => { econ with claimableFeesQuote := claimable }) := by
  obtain ⟨position, pool, policy, ⟨fees, tx, swap, notional, entry, claimable'⟩, history, now⟩ := s
  -- the divergence term does not see the field either
  have hdivergence : divergenceCost sqrt ⟨position, pool, policy,
      ⟨fees, tx, swap, notional, entry, claimable⟩, history, now⟩ = divergenceCost sqrt
        ⟨position, pool, policy, ⟨fees, tx, swap, notional, entry, claimable'⟩, history, now⟩ := rfl
  simp only [computeEconomics, RebalanceSubject.withClaimable, hdivergence]
  split
  · rename_i fees tx swap
    by_cases hnegative : fees < 0 ∨ tx < 0 ∨ swap < 0
    · rw [if_pos hnegative, if_pos hnegative]
      rfl
    rw [if_neg hnegative, if_neg hnegative]
    by_cases hhorizon : ¬ policy.horizonMs.isFinite ∨ policy.horizonMs.le (.ofInt 0)
    · rw [if_pos hhorizon, if_pos hhorizon]
      rfl
    rw [if_neg hhorizon, if_neg hhorizon]
    rw [map_bind_except]
    refine congrArg₂ (· >>= ·) rfl (funext fun scale => ?_)
    rw [map_bind_except]
    refine congrArg₂ (· >>= ·) rfl (funext fun divergence => ?_)
    cases divergence <;> rfl
  · rfl

theorem decideEconomics_withClaimable (claimable : Int) :
    (decideEconomics sqrt (s.withClaimable claimable) range target drift fraction).map
        RebalanceDecision.action =
      (decideEconomics sqrt s range target drift fraction).map RebalanceDecision.action := by
  unfold decideEconomics
  rw [computeEconomics_withClaimable]
  cases computeEconomics sqrt s target with
  | error e => rfl
  | ok econ =>
    cases econ with
    | none => rfl
    | some econ => exact map_ite_congr Iff.rfl _ rfl rfl

/-- The decision is that of the last brake, or made before it. -/
theorem decideRebalance_congr {s' : RebalanceSubject} (hposition : s'.position = s.position)
    (hpool : s'.pool = s.pool) (hpolicy : s'.policy = s.policy) (hhistory : s'.history = s.history)
    (hnow : s'.now = s.now)
    (heconomics : ∀ range target drift fraction,
      (decideEconomics sqrt s' range target drift fraction).map RebalanceDecision.action =
        (decideEconomics sqrt s range target drift fraction).map RebalanceDecision.action) :
    (decideRebalance sqrt s').map RebalanceDecision.action =
      (decideRebalance sqrt s).map RebalanceDecision.action := by
  have hlimited : ∀ range drift fraction, limited s' range drift fraction =
      limited s range drift fraction := by
    intro range drift fraction
    simp only [limited, hpolicy, hhistory, hnow]
  unfold decideRebalance
  simp only [hposition, hpool, hpolicy, hlimited]
  refine map_ite_congr Iff.rfl _ rfl (map_ite_congr Iff.rfl _ rfl
    (map_ite_congr Iff.rfl _ rfl ?_))
  split
  · rfl
  · rw [map_bind_except, map_bind_except]
    refine congrArg _ (funext fun target => ?_)
    exact map_ite_congr Iff.rfl _ rfl (heconomics _ _ _ _)

/-- **A better case for moving is no worse decided**: what speaks less against a move, or more for
it, never turns a decision to move into another one, nor moves to another range; and what could be
claimed already does not bear on the decision. -/
theorem decideRebalance_monotone (sqrt : ℚ → ℚ) :
    (∀ (s s' : RebalanceSubject) (d : RebalanceDecision), Favours s s' →
      decideRebalance sqrt s = .ok d → d.action = .rebalance →
      ∃ d', decideRebalance sqrt s' = .ok d' ∧ d'.action = .rebalance ∧
        d'.targetRange = d.targetRange) ∧
    ∀ (s : RebalanceSubject) (claimable : Int),
      (decideRebalance sqrt (s.withClaimable claimable)).map RebalanceDecision.action =
        (decideRebalance sqrt s).map RebalanceDecision.action := by
  refine ⟨fun s s' d hfavours hd haction => ?_, fun s claimable => ?_⟩
  · obtain ⟨target, htarget, hmoves⟩ := moves_of_decideRebalance hd haction
    obtain ⟨d', hd', haction', htarget'⟩ := (hmoves.mono hfavours).decideRebalance
    exact ⟨d', hd', haction', htarget'.trans htarget.symm⟩
  · exact decideRebalance_congr rfl rfl rfl rfl rfl fun _ _ _ _ =>
      decideEconomics_withClaimable claimable

/-- A position that has drifted, with a history, a time, and what a move costs. -/
def sampleSubject (cost : Int) (countInWindow : Nat) (now : ℚ) : RebalanceSubject where
  position := samplePosition
  pool := samplePool
  policy := samplePolicy (.ofInt 3600000)
  economics := ⟨some 100, some cost, some 10, some 1000, some (.ofInt 1), 0⟩
  history := ⟨some 0, countInWindow⟩
  now := now

/-- A position that moves still moves an hour later, at half the costs. -/
theorem decideRebalance_monotone_later :
    ∃ d, decideRebalance id (sampleSubject 10 1 7200000) = .ok d ∧
    d.action = .rebalance ∧ d.targetRange = some ⟨.ofInt 90, .ofInt 110⟩ := by
  have hmoves : (decideRebalance id (sampleSubject 20 2 3600000)).map
      (fun d => (d.action, d.targetRange)) = .ok (.rebalance, some ⟨.ofInt 90, .ofInt 110⟩) := by
    decide +kernel
  have hfavours : Favours (sampleSubject 20 2 3600000) (sampleSubject 10 1 7200000) :=
    ⟨rfl, rfl, rfl, rfl, by decide, by decide, rfl, ⟨20, 10, rfl, rfl, by decide, by decide⟩,
      ⟨10, 10, rfl, rfl, by decide, by decide⟩, ⟨1000, 1000, rfl, rfl, by decide, by decide⟩,
      ⟨100, 100, rfl, rfl, by decide, by decide⟩⟩
  cases hd : decideRebalance id (sampleSubject 20 2 3600000) with
  | error e =>
    rw [hd] at hmoves
    cases hmoves
  | ok d =>
    rw [hd] at hmoves
    obtain ⟨haction, htarget⟩ := Prod.mk.inj (Except.ok.inj hmoves)
    obtain ⟨d', hd', haction', htarget'⟩ :=
      (decideRebalance_monotone id).1 _ _ d hfavours hd haction
    exact ⟨d', hd', haction', htarget'.trans htarget⟩

end Claimable

end AriOs.Pools.Rebalance
