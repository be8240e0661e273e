import AriOs.Storage.Weight
import AriOs.Strategy.Executor

/-!
# Budgets of strategies

What a strategy has used up is kept in its row, and a step is planned only where it fits into
what is left. The row counts a trade when the executor says that it was performed. So a budget
binds as long as no trade lands of which the runner was told otherwise: one whose fill is reported
with a problem, one that is given up and lands later, or one that a crash left uncounted, since
its key is then answered as a duplicate.

The row adds up numbers that are rounded, and allows for a tolerance, where the trades are of whole
base units. Whether the two agree is a matter of the parameters alone.
-/

namespace AriOs.Strategy

open AriOs.Async AriOs.Async.Transition AriOs.Js AriOs.Storage
open AriOs.Arith (toDouble)
open AriOs.Kernel (WSOL_MINT)

/-! ### What is used up -/

/-- What the row counts as used up. -/
def StrategyRow.used (r : StrategyRow) : ℚ :=
  match r.kind with
  | .dca => r.numParam "spentUi" 0
  | .twap => r.doneSlices
  | .trailingStop | .takeProfit => if r.status = .done then 1 else 0

/-- How a strategy goes on, which its parameters say once and for all. -/
structure Terms where
  /-- what its trades may come to -/
  limit : Option ℚ
  /-- what one of them comes to -/
  unit : ℚ
  /-- whether a step is planned, once this much is used up -/
  isOpen : ℚ → Bool
  /-- what is used up after one more -/
  next : ℚ → ℚ

/-- The terms of a strategy. A DCA counts base units, and has no limit without a budget; the
others count trades. -/
def StrategyRow.terms (r : StrategyRow) : Terms :=
  match r.kind with
  | .dca =>
    let per := r.numParam "amountUiPerStep" 0
    let total := r.numParam "totalBudgetUi" 0
    { limit := if total > 0 then some (total * 10 ^ SOL_DECIMALS) else none
      unit := ((toBaseUnits? per SOL_DECIMALS).getD 0 : ℤ)
      isOpen := fun used => !(nearest (total + TOLERANCE)).lt (nearest (used + per))
      next := fun used => num (.number (nearest (used + per))) 0 }
  | .twap =>
    { limit := some r.slices
      unit := 1
      isOpen := fun used => used < r.slices
      next := fun used => (num (.number (nearest (used + 1))) 0).floor }
  | .trailingStop | .takeProfit =>
    { limit := some 1, unit := 1, isOpen := fun used => used < 1, next := fun _ => 1 }

/-- What a trade comes to: the amount, of a DCA, and one otherwise. -/
def Trade.weight (kind : StrategyKind) (t : Trade) : ℚ :=
  match kind with
  | .dca => t.amount
  | .twap | .trailingStop | .takeProfit => 1

namespace Terms

variable {T : Terms} {n m : ℕ} {used : ℚ}

/-- After some steps, where this much is used up: as long as steps are planned, they are within
the limit. -/
def Affords (T : Terms) (n : ℕ) (used : ℚ) : Prop :=
  ∀ L ∈ T.limit, ∀ k : ℕ, (∀ i ≤ k, T.isOpen (T.next^[i] used)) → (n + k + 1) * T.unit ≤ L

theorem Affords.step (h : T.Affords n used) (hopen : ∀ L ∈ T.limit, T.isOpen used) :
    T.Affords (n + 1) (T.next used) := by
  intro L hL k hk
  have hle := h L hL (k + 1) fun i hi => by
    cases i with
    | zero => exact hopen L hL
    | succ i => exact hk i (by omega)
  push_cast at hle ⊢
  linarith

theorem Affords.room (h : T.Affords n used) (hopen : ∀ L ∈ T.limit, T.isOpen used) :
    ∀ L ∈ T.limit, n * T.unit + T.unit ≤ L := by
  intro L hL
  have hle := h L hL 0 fun i hi => by
    obtain rfl := Nat.le_zero.mp hi
    exact hopen L hL
  push_cast at hle
  linarith

/-- What the steps come to until none is planned decides. -/
theorem affords_of_closed (hunit : 0 ≤ T.unit) (hclosed : T.isOpen (T.next^[m] used) = false)
    (hle : ∀ L ∈ T.limit, (n + m) * T.unit ≤ L) : T.Affords n used := by
  intro L hL k hk
  have hlt : k < m := by
    by_contra! hge
    exact absurd (hk m hge) (by simp [hclosed])
  have hsteps : ((n : ℚ) + k + 1) ≤ n + m := by
    have : k + 1 ≤ m := hlt
    rw [add_assoc]
    exact add_le_add_right (by exact_mod_cast this) _
  exact (mul_le_mul_of_nonneg_right hsteps hunit).trans (hle L hL)

end Terms

variable {r r' row : StrategyRow} {trades : List Trade} {refused : List String}
  {request : StrategySwap} {hasPrice : Bool}

theorem weight_nonneg (kind : StrategyKind) {t : Trade} (h : 0 ≤ t.amount) :
    0 ≤ t.weight kind := by
  cases kind with
  | dca => exact Int.cast_nonneg h
  | twap | trailingStop | takeProfit => exact zero_le_one

theorem numParam_set {id : String} {kind : StrategyKind} {status : StrategyStatus} {p : Params}
    {key key' : String} {v : JsValue} {nextRunAt d : ℚ} {lastRunAt : Option ℚ} {runs errors : Nat}
    {lastError : Option String} :
    (StrategyRow.mk id kind status (Record.set p key v) nextRunAt lastRunAt runs errors
      lastError).numParam key' d = if key' = key then num v d else num (p.value key') d := by
  unfold StrategyRow.numParam
  rw [Params.value_set]
  split <;> rfl

/-- The row as it is stored. -/
def StrategyRow.stored (r : StrategyRow) : StrategyRow := { r with params := r.params.persisted }

@[simp] theorem numParam_stored (key : String) (d : ℚ) :
    r.stored.numParam key d = r.numParam key d := num_persisted _ _ _

@[simp] theorem used_stored : r.stored.used = r.used := by
  unfold StrategyRow.used StrategyRow.doneSlices
  simp only [numParam_stored]
  rfl

@[simp] theorem terms_stored : r.stored.terms = r.terms := by
  unfold StrategyRow.terms StrategyRow.slices
  simp only [numParam_stored]
  rfl

/-- A DCA asks for its own amount of SOL. -/
def Suits (r : StrategyRow) (request : StrategySwap) : Prop :=
  r.kind = .dca → request.amountUi = r.numParam "amountUiPerStep" 0 ∧ request.inputMint = WSOL_MINT

/-- A swap that was performed is counted. -/
theorem used_performed (hsuits : Suits r request) :
    (r.performed request).used = r.terms.next r.used := by
  unfold StrategyRow.performed StrategyRow.applyProgress
  cases hkind : r.kind with
  | dca =>
    simp only [StrategyRow.used, StrategyRow.terms, hkind]
    rw [numParam_set, if_pos rfl, (hsuits hkind).1]
    rfl
  | twap =>
    simp only [StrategyRow.used, StrategyRow.terms, hkind]
    rw [StrategyRow.doneSlices, numParam_set, if_pos rfl, Int.cast_add, Int.cast_one]
    rfl
  | trailingStop | takeProfit => simp [StrategyRow.used, StrategyRow.terms, hkind]

theorem terms_performed : (r.performed request).terms = r.terms := by
  unfold StrategyRow.performed StrategyRow.applyProgress
  cases hkind : r.kind with
  | dca =>
    have hper : "amountUiPerStep" ≠ "spentUi" := by decide
    have htotal : "totalBudgetUi" ≠ "spentUi" := by decide
    simp only [StrategyRow.terms, hkind, numParam_set, if_neg hper, if_neg htotal]
    rfl
  | twap =>
    have hne : "slices" ≠ "doneSlices" := by decide
    simp only [StrategyRow.terms, StrategyRow.slices, hkind, numParam_set, if_neg hne]
    rfl
  | trailingStop | takeProfit => simp [StrategyRow.terms, hkind]

theorem kind_performed : (r.performed request).kind = r.kind := by
  unfold StrategyRow.performed StrategyRow.applyProgress
  cases hkind : r.kind <;> simp

theorem runs_performed : (r.performed request).runs = r.runs := by
  unfold StrategyRow.performed StrategyRow.applyProgress
  cases r.kind <;> rfl

theorem used_failed (text : String) (hactive : r.status = .active) :
    (r.failed text).used = r.used := by
  unfold StrategyRow.used StrategyRow.failed
  cases r.kind with
  | dca | twap => rfl
  | trailingStop | takeProfit =>
    dsimp only
    rw [hactive]
    split <;> rfl

/-! ### Trades within the limit -/

/-- The trades of the strategy that the row has counted, or should have. -/
def StrategyRow.counts (r : StrategyRow) (refused : List String) (t : Trade) : Bool :=
  t.strategy = r.id && t.run < r.runs && t.key ∉ refused

/-- The trades of the strategy that may land. -/
def StrategyRow.exposes (r : StrategyRow) (refused : List String) (t : Trade) : Bool :=
  t.strategy = r.id && t.key ∉ refused

/-- The trades of the strategy that may land and that the row has not counted yet. -/
def StrategyRow.risks (r : StrategyRow) (refused : List String) (t : Trade) : Bool :=
  t.strategy = r.id && t.run = r.runs && t.key ∉ refused

/-- The trades of a strategy that may land are within its limit, and those of former runs are
counted in its row. -/
structure Fits (trades : List Trade) (refused : List String) (r : StrategyRow) : Prop where
  runs : ∀ t ∈ trades, t.strategy = r.id → t.run ≤ r.runs
  counted : ∃ n : ℕ, weigh (Trade.weight r.kind) (r.counts refused) trades ≤ n * r.terms.unit ∧
    r.terms.Affords n r.used
  exposed : ∀ L ∈ r.terms.limit, weigh (Trade.weight r.kind) (r.exposes refused) trades ≤ L

/-- A row of the same strategy that affords as much. -/
theorem Fits.of_affords (h : Fits trades refused r) (hid : r'.id = r.id) (hkind : r'.kind = r.kind)
    (hruns : r'.runs = r.runs) (hterms : r'.terms = r.terms)
    (hused : ∀ n, r.terms.Affords n r.used → r.terms.Affords n r'.used) :
    Fits trades refused r' where
  runs t ht hstrategy := by
    rw [hruns]
    exact h.runs t ht (hstrategy.trans hid)
  counted := by
    obtain ⟨n, hcounted, hafford⟩ := h.counted
    have hcounts : r'.counts refused = r.counts refused := by
      funext t
      simp only [StrategyRow.counts, hid, hruns]
    rw [hkind, hcounts, hterms]
    exact ⟨n, hcounted, hused n hafford⟩
  exposed L hL := by
    rw [hterms] at hL
    have hexposes : r'.exposes refused = r.exposes refused := by
      funext t
      simp only [StrategyRow.exposes, hid]
    rw [hkind, hexposes]
    exact h.exposed L hL

/-- A row of the same strategy that has used up as much. -/
theorem Fits.of_row (h : Fits trades refused r) (hid : r'.id = r.id) (hkind : r'.kind = r.kind)
    (hruns : r'.runs = r.runs) (hterms : r'.terms = r.terms) (hused : r'.used = r.used) :
    Fits trades refused r' :=
  h.of_affords hid hkind hruns hterms fun n hn => by rwa [hused]

/-- A price-triggered strategy that is done plans no step. -/
theorem Fits.done (h : Fits trades refused r) : Fits trades refused { r with status := .done } := by
  refine h.of_affords rfl rfl rfl rfl fun n hn => ?_
  unfold StrategyRow.used at hn ⊢
  cases hkind : r.kind with
  | dca | twap =>
    rw [hkind] at hn
    exact hn
  | trailingStop | takeProfit =>
    intro L hL k hk
    have hnot := hk 0 (Nat.zero_le k)
    simp [StrategyRow.terms, hkind] at hnot

/-- The next run begins: what the run before put at risk has been counted. -/
theorem Fits.next (h : Fits trades refused r) (hamounts : ∀ t ∈ trades, 0 ≤ t.amount) {m : ℕ}
    (hrisks : weigh (Trade.weight r.kind) (r.risks refused) trades ≤ m * r.terms.unit)
    (hid : r'.id = r.id) (hkind : r'.kind = r.kind) (hruns : r'.runs = r.runs + 1)
    (hterms : r'.terms = r.terms)
    (hused : ∀ n, r.terms.Affords n r.used → r.terms.Affords (n + m) r'.used) :
    Fits trades refused r' where
  runs t ht hstrategy := by
    rw [hruns]
    exact (h.runs t ht (hstrategy.trans hid)).trans (Nat.le_succ _)
  counted := by
    obtain ⟨n, hcounted, hafford⟩ := h.counted
    rw [hkind, hterms]
    refine ⟨n + m, ?_, hused n hafford⟩
    rw [Nat.cast_add, add_mul]
    refine le_trans ?_ (add_le_add hcounted hrisks)
    refine weigh_le_add (fun t ht => weight_nonneg _ (hamounts t ht)) fun t _ hcounts => ?_
    simp only [StrategyRow.counts, StrategyRow.risks, hid, hruns, Bool.and_eq_true,
      decide_eq_true_eq] at hcounts ⊢
    obtain ⟨⟨hstrategy, hrun⟩, hrefused⟩ := hcounts
    rcases Nat.lt_succ_iff_lt_or_eq.mp hrun with hlt | heq
    · exact .inl ⟨⟨hstrategy, hlt⟩, hrefused⟩
    · exact .inr ⟨⟨hstrategy, heq⟩, hrefused⟩
  exposed L hL := by
    rw [hterms] at hL
    have hexposes : r'.exposes refused = r.exposes refused := by
      funext t
      simp only [StrategyRow.exposes, hid]
    rw [hkind, hexposes]
    exact h.exposed L hL

/-- More is refused. -/
theorem Fits.refuse (h : Fits trades refused r) (hamounts : ∀ t ∈ trades, 0 ≤ t.amount)
    {refused' : List String} (hsub : refused ⊆ refused') : Fits trades refused' r where
  runs := h.runs
  counted := by
    obtain ⟨n, hcounted, hafford⟩ := h.counted
    refine ⟨n, le_trans (weigh_mono (fun t ht => weight_nonneg _ (hamounts t ht)) fun t _ ht => ?_)
      hcounted, hafford⟩
    simp only [StrategyRow.counts, Bool.and_eq_true, decide_eq_true_eq] at ht ⊢
    exact ⟨ht.1, fun hmem => ht.2 (hsub hmem)⟩
  exposed L hL := by
    refine le_trans (weigh_mono (fun t ht => weight_nonneg _ (hamounts t ht)) fun t _ ht => ?_)
      (h.exposed L hL)
    simp only [StrategyRow.exposes, Bool.and_eq_true, decide_eq_true_eq] at ht ⊢
    exact ⟨ht.1, fun hmem => ht.2 (hsub hmem)⟩

/-! ### Rows, trades and the tick -/

/-- The table has this strategy, as far as the runner has come with it. -/
def Stored (store : StrategyStore) (r : StrategyRow) : Prop :=
  ∃ x ∈ store.rows, x.id = r.id ∧ x.kind = r.kind ∧ x.runs = r.runs ∧ x.terms = r.terms

/-- An active row that the tick has yet to work on. -/
structure Waiting (trades : List Trade) (refused : List String) (store : StrategyStore)
    (r : StrategyRow) : Prop where
  fits : Fits trades refused r
  active : r.status = .active
  stored : Stored store r

/-- The table has this strategy. -/
def Listed (store : StrategyStore) (r : StrategyRow) : Prop :=
  ∃ x ∈ store.rows, x.id = r.id ∧ x.kind = r.kind

/-- The row that the tick works on is as the stage says. -/
def TickSound (d : Desk) (t : Tick) : Prop :=
  match t.stage with
  | .planning => Waiting d.trades d.refused d.world.store t.row
  | .swapping request => Waiting d.trades d.refused d.world.store t.row ∧
      (∀ L ∈ t.row.terms.limit, t.row.terms.isOpen t.row.used) ∧ Suits t.row request ∧
      (d.pending = some true → weigh (Trade.weight t.row.kind) (t.row.risks d.refused) d.trades ≤
        t.row.terms.unit)
  | .reporting | .completing => Fits d.trades d.refused t.row ∧ Listed d.world.store t.row
  | .leaving => True

/-- Rows, trades and the tick fit together. -/
structure Sound (d : Desk) : Prop where
  rows : ∀ r ∈ d.world.store.rows, Fits d.trades d.refused r
  known : ∀ t ∈ d.trades, ∃ r ∈ d.world.store.rows, r.id = t.strategy
  amounts : ∀ t ∈ d.trades, 0 ≤ t.amount
  landed : ∀ key ∈ d.landed, key ∉ d.refused
  pending : d.pending.isSome → d.swapping.isSome
  nodup : ∀ t, d.world.tick = some t → ((t.row :: t.rest).map StrategyRow.id).Nodup
  rest : ∀ t, d.world.tick = some t → ∀ r ∈ t.rest, Waiting d.trades d.refused d.world.store r
  row : ∀ t, d.world.tick = some t → TickSound d t

variable {d : Desk} {t : Tick} {store store' : StrategyStore} {x : StrategyRow}

theorem Stored.listed (h : Stored store r) : Listed store r := by
  obtain ⟨x, hx, hid, hkind, -⟩ := h
  exact ⟨x, hx, hid, hkind⟩

theorem Stored.of_eq (h : Stored store r) (hid : r'.id = r.id) (hkind : r'.kind = r.kind)
    (hruns : r'.runs = r.runs) (hterms : r'.terms = r.terms) : Stored store r' := by
  obtain ⟨x, hx, hxid, hxkind, hxruns, hxterms⟩ := h
  exact ⟨x, hx, hxid.trans hid.symm, hxkind.trans hkind.symm, hxruns.trans hruns.symm,
    hxterms.trans hterms.symm⟩

/-- The swap that the runner waits for. -/
theorem swapping_eq_some {p : StrategyRow × StrategySwap} (h : d.swapping = some p) :
    ∃ rest, d.world.tick = some ⟨p.1, .swapping p.2, rest⟩ := by
  unfold Desk.swapping at h
  split at h
  · rename_i row request rest htick
    obtain rfl := Option.some.inj h
    exact ⟨rest, htick⟩
  · cases h

theorem pending_eq_none (h : Sound d) (hnot : d.swapping = none) : d.pending = none := by
  cases hpending : d.pending with
  | none => rfl
  | some free =>
    have hsome := h.pending (by rw [hpending]; rfl)
    rw [hnot] at hsome
    cases hsome

theorem sound_start : Sound .start := by
  constructor <;> simp [Desk.start, World.start, Table.empty]

/-! ### Saving a row -/

theorem mem_save (h : x ∈ (store.save row).rows) : (x ∈ store.rows ∧ x.id ≠ row.id) ∨
    ∃ r ∈ store.rows, r.id = row.id ∧
      x = { row with id := r.id, kind := r.kind, params := row.params.persisted } := by
  rw [StrategyStore.save, Table.rows_update] at h
  obtain ⟨r, hr, rfl⟩ := List.mem_map.mp h
  by_cases hid : r.id = row.id
  · exact .inr ⟨r, hr, hid, by simp [hid]⟩
  · exact .inl (by simp [hid, hr])

theorem save_mem (hx : x ∈ store.rows) (hid : x.id ≠ row.id) : x ∈ (store.save row).rows := by
  rw [StrategyStore.save, Table.rows_update]
  exact List.mem_map.mpr ⟨x, hx, by simp [hid]⟩

theorem exists_save (row : StrategyRow) (hx : x ∈ store.rows) :
    ∃ y ∈ (store.save row).rows, y.id = x.id ∧ y.kind = x.kind := by
  rw [StrategyStore.save, Table.rows_update]
  refine ⟨_, List.mem_map.mpr ⟨x, hx, rfl⟩, ?_⟩
  split <;> exact ⟨rfl, rfl⟩

theorem Stored.save (h : Stored store r) (hid : r.id ≠ row.id) : Stored (store.save row) r := by
  obtain ⟨x, hx, hxid, hrest⟩ := h
  exact ⟨x, save_mem hx (by rwa [hxid]), hxid, hrest⟩

theorem Waiting.save (h : Waiting trades refused store r) (hid : r.id ≠ row.id) :
    Waiting trades refused (store.save row) r :=
  ⟨h.fits, h.active, h.stored.save hid⟩

/-- A row that fits is saved. -/
theorem fits_save (hrows : ∀ r ∈ store.rows, Fits trades refused r)
    (hfits : Fits trades refused row) (hlisted : Listed store row)
    (hx : x ∈ (store.save row).rows) : Fits trades refused x := by
  rcases mem_save hx with ⟨hx, -⟩ | ⟨r, hr, hid, rfl⟩
  · exact hrows x hx
  · obtain ⟨y, hy, hyid, hykind⟩ := hlisted
    obtain rfl : y = r := Table.eq_of_key hy hr (hyid.trans hid.symm)
    refine hfits.of_row hid hykind rfl ?_ ?_
    · rw [hykind]
      exact terms_stored
    · rw [hykind]
      exact used_stored

/-- The tick goes on to its next row. -/
theorem tickOf_sound {list : List StrategyRow} (htick : d.world.tick = tickOf list)
    (hnodup : (list.map StrategyRow.id).Nodup)
    (hrest : ∀ r ∈ list, Waiting d.trades d.refused d.world.store r) :
    (∀ t', d.world.tick = some t' → ((t'.row :: t'.rest).map StrategyRow.id).Nodup) ∧
    (∀ t', d.world.tick = some t' → ∀ r ∈ t'.rest,
      Waiting d.trades d.refused d.world.store r) ∧
    ∀ t', d.world.tick = some t' → TickSound d t' := by
  cases list with
  | nil => simp [htick, tickOf]
  | cons r rest =>
    refine ⟨fun t' ht' => ?_, fun t' ht' => ?_, fun t' ht' => ?_⟩
    all_goals
      rw [htick] at ht'
      obtain rfl := Option.some.inj ht'
    · exact hnodup
    · exact fun r' hr' => hrest r' (List.mem_cons_of_mem r hr')
    · exact hrest r List.mem_cons_self

/-- The row is saved, and the tick goes on, at once or after a notice. -/
theorem Sound.saved (h : Sound d) (htick : d.world.tick = some t) (hid : row.id = t.row.id)
    (hfits : Fits d.trades d.refused row) (hlisted : Listed d.world.store row) {tick : Option Tick}
    (hnext : tick = tickOf t.rest ∨ tick = some ⟨row, .leaving, t.rest⟩) :
    Sound { d with world := { d.world with store := d.world.store.save row, tick }, pending := none } := by
  have hnodup := h.nodup t htick
  rw [List.map_cons, List.nodup_cons] at hnodup
  -- the rows that wait have other ids
  have hrest : ∀ r ∈ t.rest, Waiting d.trades d.refused (d.world.store.save row) r := by
    intro r hr
    refine (h.rest t htick r hr).save ?_
    rw [hid]
    rintro heq
    exact hnodup.1 (List.mem_map.mpr ⟨r, hr, heq⟩)
  -- saving removes no strategy
  have hknown : ∀ tr ∈ d.trades, ∃ r ∈ (d.world.store.save row).rows, r.id = tr.strategy := by
    intro tr htr
    obtain ⟨r, hr, heq⟩ := h.known tr htr
    obtain ⟨y, hy, hyid, -⟩ := exists_save row hr
    exact ⟨y, hy, hyid.trans heq⟩
  have hrows : ∀ r ∈ (d.world.store.save row).rows, Fits d.trades d.refused r :=
    fun r hr => fits_save h.rows hfits hlisted hr
  rcases hnext with rfl | rfl
  · obtain ⟨hnodup', hrest', hrow'⟩ := tickOf_sound
      (d := { d with world := d.world.conclude row t.rest, pending := none }) rfl hnodup.2 hrest
    exact ⟨hrows, hknown, h.amounts, h.landed, by simp, hnodup', hrest', hrow'⟩
  · refine ⟨hrows, hknown, h.amounts, h.landed, by simp, ?_, ?_, ?_⟩
    all_goals
      intro t' ht'
      obtain rfl := Option.some.inj ht'
    · rw [List.map_cons, hid, List.nodup_cons]
      exact hnodup
    · exact hrest
    · trivial

/-- The row is saved, and the tick goes on to the next one. -/
theorem Sound.conclude (h : Sound d) (htick : d.world.tick = some t) (hid : row.id = t.row.id)
    (hfits : Fits d.trades d.refused row) (hlisted : Listed d.world.store row) :
    Sound { d with world := d.world.conclude row t.rest, pending := none } :=
  h.saved htick hid hfits hlisted (.inl rfl)

/-- The row is kept in memory, until a notice is done. -/
theorem Sound.await (h : Sound d) (htick : d.world.tick = some t) (hid : row.id = t.row.id)
    {stage : Stage} (hstage : stage = .reporting ∨ stage = .completing)
    (hfits : Fits d.trades d.refused row) (hlisted : Listed d.world.store row) :
    Sound { d with world := { d.world with tick := some ⟨row, stage, t.rest⟩ }, pending := none } := by
  refine ⟨h.rows, h.known, h.amounts, h.landed, by simp, ?_, ?_, ?_⟩
  all_goals
    intro t' ht'
    obtain rfl := Option.some.inj ht'
  · have hnodup := h.nodup t htick
    rwa [List.map_cons, ← hid, ← List.map_cons] at hnodup
  · exact h.rest t htick
  · rcases hstage with rfl | rfl <;> exact ⟨hfits, hlisted⟩

theorem Sound.finishStep (h : Sound d) (htick : d.world.tick = some t) (hid : row.id = t.row.id)
    (hfits : Fits d.trades d.refused row) (hlisted : Listed d.world.store row) (now : ℚ) :
    Sound { d with world := d.world.finishStep row t.rest now, pending := none } := by
  unfold World.finishStep
  split
  · refine h.await htick ?_ (.inr rfl) hfits.done hlisted
    exact hid
  · exact h.conclude htick hid (hfits.of_row rfl rfl rfl rfl rfl) hlisted

/-! ### What the console does -/

/-- The table changes, and every strategy is still there, as far as it has come. -/
theorem Sound.of_store (h : Sound d) (hrows : ∀ r ∈ store.rows, Fits d.trades d.refused r)
    (hkeep : ∀ r ∈ d.world.store.rows, Stored store r) :
    Sound { d with world := { d.world with store } } := by
  -- what a row waits for is in the new store as well
  have hwaiting : ∀ r, Waiting d.trades d.refused d.world.store r →
      Waiting d.trades d.refused store r := by
    rintro r ⟨hfits, hactive, x, hx, hid, hkind, hruns, hterms⟩
    exact ⟨hfits, hactive, (hkeep x hx).of_eq hid.symm hkind.symm hruns.symm hterms.symm⟩
  refine ⟨hrows, fun tr htr => ?_, h.amounts, h.landed, h.pending, h.nodup,
    fun t ht r hr => hwaiting r (h.rest t ht r hr), fun t ht => ?_⟩
  · obtain ⟨r, hr, hid⟩ := h.known tr htr
    obtain ⟨y, hy, hyid, -⟩ := hkeep r hr
    exact ⟨y, hy, hyid.trans hid⟩
  · have hrow := h.row t ht
    unfold TickSound at hrow ⊢
    cases hstage : t.stage with
    | planning =>
      rw [hstage] at hrow
      exact hwaiting _ hrow
    | swapping request =>
      rw [hstage] at hrow
      exact ⟨hwaiting _ hrow.1, hrow.2⟩
    | reporting | completing =>
      rw [hstage] at hrow
      obtain ⟨hfits, x, hx, hid, hkind⟩ := hrow
      obtain ⟨y, hy, hyid, hykind, -⟩ := hkeep x hx
      exact ⟨hfits, y, hy, hyid.trans hid, hykind.trans hkind⟩
    | leaving => trivial

theorem Sound.setStatus (h : Sound d) (id : String) (status : StrategyStatus)
    (hexit : status ≠ .done → ∀ r ∈ d.world.store.rows, r.id = id →
      r.kind = .trailingStop ∨ r.kind = .takeProfit → r.status ≠ .done) :
    Sound { d with world := { d.world with store := (d.world.store.setStatus id status).2 } } := by
  have hrows : (d.world.store.setStatus id status).2.rows = d.world.store.rows.map fun r =>
      if r.id = id then { r with status } else r := by
    simp [StrategyStore.setStatus, Table.rows_update]
  refine h.of_store (fun y hy => ?_) fun r hr => ?_
  · rw [hrows] at hy
    obtain ⟨r, hr, rfl⟩ := List.mem_map.mp hy
    split
    · rename_i hid
      by_cases hdone : status = .done
      · subst hdone
        exact (h.rows r hr).done
      · refine (h.rows r hr).of_row rfl rfl rfl rfl ?_
        -- a price-triggered strategy counts the same as long as it is not done
        have hnot := hexit hdone r hr hid
        unfold StrategyRow.used
        cases hkind : r.kind with
        | dca | twap => rfl
        | trailingStop => simp [hnot (.inl hkind), hdone]
        | takeProfit => simp [hnot (.inr hkind), hdone]
    · exact h.rows r hr
  · refine ⟨_, by rw [hrows]; exact List.mem_map.mpr ⟨r, hr, rfl⟩, ?_⟩
    split <;> exact ⟨rfl, rfl, rfl, rfl⟩

/-- A strategy as it is created. -/
def created (id : String) (kind : StrategyKind) (params : Params) (firstRunAt : ℚ) : StrategyRow :=
  ⟨id, kind, .active, params.persisted, firstRunAt, none, 0, 0, none⟩

theorem Sound.create (h : Sound d) {id : String} {kind : StrategyKind} {params : Params}
    {firstRunAt : ℚ} (hcreate : d.world.store.create id kind params firstRunAt = some store)
    (hafford : (created id kind params firstRunAt).terms.Affords 0
      (created id kind params firstRunAt).used) :
    Sound { d with world := { d.world with store } } := by
  have hrows : store.rows = d.world.store.rows ++ [created id kind params firstRunAt] :=
    Table.rows_of_insert? hcreate
  refine h.of_store (fun r hr => ?_) fun r hr =>
    ⟨r, by rw [hrows]; exact List.mem_append_left _ hr, rfl, rfl, rfl, rfl⟩
  rw [hrows, List.mem_append, List.mem_singleton] at hr
  rcases hr with hr | rfl
  · exact h.rows r hr
  · -- the id is new, so there is no trade yet
    have hnone : ∀ tr ∈ d.trades, tr.strategy ≠ id := by
      intro tr htr hstrategy
      obtain ⟨r, hr, hid⟩ := h.known tr htr
      have hfree := Table.find?_of_insert? hcreate
      exact Table.find?_eq_none_iff.mp hfree r hr (hid.trans hstrategy)
    refine ⟨fun tr htr hstrategy => absurd hstrategy (hnone tr htr), ⟨0, ?_, hafford⟩,
      fun L hL => ?_⟩
    · rw [weigh_eq_zero fun tr htr => by simp [StrategyRow.counts, created, hnone tr htr]]
      simp
    · rw [weigh_eq_zero fun tr htr => by simp [StrategyRow.exposes, created, hnone tr htr]]
      unfold StrategyRow.terms at hL
      cases kind with
      | dca =>
        obtain ⟨hpos, hL⟩ := Option.ite_none_right_eq_some.mp hL
        rw [← Option.some.inj hL]
        exact mul_nonneg (le_of_lt hpos) (by positivity)
      | twap =>
        rw [← Option.some.inj hL]
        have hslices : (0 : ℤ) ≤ (created id .twap params firstRunAt).slices :=
          le_trans zero_le_one (le_max_left _ _)
        exact_mod_cast hslices
      | trailingStop | takeProfit =>
        rw [← Option.some.inj hL]
        exact zero_le_one

/-! ### What the runner does -/

/-- The runner waits for no swap. -/
theorem Sound.idle (h : Sound d) (htick : ∀ row request rest,
    d.world.tick ≠ some ⟨row, .swapping request, rest⟩) : d.pending = none := by
  refine pending_eq_none h ?_
  unfold Desk.swapping
  split
  · exact absurd ‹_› (htick _ _ _)
  · rfl

/-- A step of the runner that waits for no swap leaves nothing pending. -/
theorem Sound.clear {w : World} (h : Sound { d with world := w, pending := none })
    (hpending : d.pending = none) : Sound { d with world := w } := by
  have heq : ({ d with world := w } : Desk) = { d with world := w, pending := none } := by
    rw [← hpending]
  rw [heq]
  exact h

/-- A tick begins. -/
theorem Sound.begin (h : Sound d) (htick : d.world.tick = none) (now : ℚ) :
    Sound { d with world := { d.world with tick := tickOf (d.world.store.due now) } } := by
  have hpending : d.pending = none := h.idle (by simp [htick])
  have hwaiting : ∀ r ∈ d.world.store.due now, Waiting d.trades d.refused d.world.store r := by
    intro r hr
    obtain ⟨hrow, hactive, -⟩ := StrategyStore.mem_due.mp hr
    exact ⟨h.rows r hrow, hactive, r, hrow, rfl, rfl, rfl, rfl⟩
  obtain ⟨hnodup', hrest', hrow'⟩ := tickOf_sound
    (d := { d with world := { d.world with tick := tickOf (d.world.store.due now) } }) rfl
    StrategyStore.due_nodup hwaiting
  exact ⟨h.rows, h.known, h.amounts, h.landed, by simp [hpending], hnodup', hrest', hrow'⟩

/-- A plan leaves everything that counts as it is. -/
theorem plan_keeps {price : Except String (Option JsNumber)} {p : Plan}
    (h : r.plan hasPrice price = .ok (r', p)) : r'.id = r.id ∧ r'.kind = r.kind ∧
      r'.status = r.status ∧ r'.runs = r.runs ∧ r'.terms = r.terms ∧ r'.used = r.used := by
  rcases StrategyRow.plan_cases h with ⟨-, rfl, -⟩ | ⟨-, rfl, -⟩ | ⟨hkind, params, rfl⟩
  · exact ⟨rfl, rfl, rfl, rfl, rfl, rfl⟩
  · exact ⟨rfl, rfl, rfl, rfl, rfl, rfl⟩
  · refine ⟨rfl, rfl, rfl, rfl, ?_, ?_⟩
    · unfold StrategyRow.terms
      rcases hkind with hkind | hkind <;> simp only [hkind]
    · unfold StrategyRow.used
      rcases hkind with hkind | hkind <;> simp only [hkind]

/-- A swap is planned where its row plans a step, and for what a step is. -/
theorem plan_open {price : Except String (Option JsNumber)}
    (h : r.plan hasPrice price = .ok (r', .swap request)) (hactive : r.status = .active) :
    (∀ L ∈ r.terms.limit, r.terms.isOpen r.used) ∧ Suits r' request := by
  rcases StrategyRow.plan_cases h with ⟨hkind, rfl, hplan⟩ | ⟨hkind, rfl, hplan⟩ |
    ⟨hkind, params, rfl⟩
  · -- a DCA has a total to spend, with a tolerance
    unfold StrategyRow.planDca at hplan
    dsimp only at hplan
    split at hplan
    · cases hplan
    · split at hplan
      · cases hplan
      · rename_i hnot
        obtain rfl := Plan.swap.inj hplan
        refine ⟨fun L hL => ?_, fun _ => ⟨rfl, rfl⟩⟩
        simp only [StrategyRow.terms, StrategyRow.used, hkind] at hL ⊢
        obtain ⟨hpos, -⟩ := Option.ite_none_right_eq_some.mp hL
        simpa using fun hlt => hnot ⟨hpos, hlt⟩
  · -- a TWAP counts its slices
    unfold StrategyRow.planTwap at hplan
    dsimp only at hplan
    split at hplan
    · cases hplan
    · rename_i hnot
      have hlt := not_le.mp fun hle => hnot (.inr hle)
      refine ⟨fun L _ => ?_, fun heq => absurd (hkind.symm.trans heq) (by simp)⟩
      simp only [StrategyRow.terms, StrategyRow.used, hkind]
      exact decide_eq_true (by exact_mod_cast hlt)
  · -- any other row trades once
    refine ⟨fun L _ => ?_, fun heq => ?_⟩
    · rcases hkind with hkind | hkind <;>
      simp [StrategyRow.terms, StrategyRow.used, hkind, hactive]
    · rcases hkind with hkind | hkind <;> exact absurd (hkind.symm.trans heq) (by simp)

theorem Sound.waiting (h : Sound d) (htick : d.world.tick = some t)
    (hstage : t.stage = .planning ∨ ∃ request, t.stage = .swapping request) :
    Waiting d.trades d.refused d.world.store t.row := by
  have hrow := h.row t htick
  unfold TickSound at hrow
  rcases hstage with hstage | ⟨request, hstage⟩
  · rw [hstage] at hrow
    exact hrow
  · rw [hstage] at hrow
    exact hrow.1

/-- The plan is made. -/
theorem Sound.planned (h : Sound d) (htick : d.world.tick = some t) (hstage : t.stage = .planning)
    (price : Except String (Option JsNumber)) (now : ℚ) :
    Sound { d with world := d.world.planned hasPrice t price now } := by
  have hwaiting := h.waiting htick (.inl hstage)
  have hpending : d.pending = none := by
    refine h.idle fun row request rest heq => ?_
    rw [htick] at heq
    obtain rfl := Option.some.inj heq
    cases hstage
  unfold World.planned
  split
  · -- the plan failed: the run is over and nothing was asked for
    rename_i text _
    have hused := used_failed text hwaiting.active
    have hfits : Fits d.trades d.refused ((t.row.failed text).reschedule now) :=
      hwaiting.fits.of_row rfl rfl rfl rfl hused
    exact Sound.clear (h.conclude htick rfl hfits hwaiting.stored.listed) hpending
  · -- the strategy is done
    rename_i row hplan
    obtain ⟨hid, hkind, -, hruns, hterms, hused⟩ := plan_keeps hplan
    have hfits := (hwaiting.fits.of_row hid hkind hruns hterms hused).done
    have hlisted := (hwaiting.stored.of_eq hid hkind hruns hterms).listed
    refine Sound.clear (h.saved htick ?_ hfits hlisted (.inr rfl)) hpending
    exact hid
  · rename_i row hplan
    obtain ⟨hid, hkind, -, hruns, hterms, hused⟩ := plan_keeps hplan
    have hfits : Fits d.trades d.refused (row.reschedule now) :=
      hwaiting.fits.of_row hid hkind hruns hterms hused
    have hlisted := (hwaiting.stored.of_eq hid hkind hruns hterms).listed
    exact Sound.clear (h.conclude htick hid hfits hlisted) hpending
  · -- a swap is asked for, which fits into what is left
    rename_i row request hplan
    obtain ⟨hid, hkind, hstatus, hruns, hterms, hused⟩ := plan_keeps hplan
    obtain ⟨hopen, hsuits⟩ := plan_open hplan hwaiting.active
    refine ⟨h.rows, h.known, h.amounts, h.landed, by simp [hpending], ?_, ?_, ?_⟩
    all_goals
      intro t' ht'
      obtain rfl := Option.some.inj ht'
    · have hnodup := h.nodup t htick
      rwa [List.map_cons, ← hid, ← List.map_cons] at hnodup
    · exact h.rest t htick
    · refine ⟨⟨hwaiting.fits.of_row hid hkind hruns hterms hused,
        hstatus.trans hwaiting.active, hwaiting.stored.of_eq hid hkind hruns hterms⟩, ?_, ?_, ?_⟩
      · dsimp only
        rw [hterms, hused]
        exact hopen
      · exact hsuits
      · dsimp only
        rw [hpending]
        exact fun heq => nomatch heq

/-- A notice is done. -/
theorem Sound.notified (h : Sound d) (htick : d.world.tick = some t) (now : ℚ) :
    Sound { d with world := d.world.notified t now } := by
  have hrow := h.row t htick
  -- only a step that swaps has a trade pending
  have hpending : (∀ request, t.stage ≠ .swapping request) → d.pending = none := by
    intro hnot
    refine h.idle fun row request rest heq => ?_
    rw [htick] at heq
    obtain rfl := Option.some.inj heq
    exact hnot request rfl
  unfold World.notified
  unfold TickSound at hrow
  cases hstage : t.stage with
  | reporting =>
    rw [hstage] at hrow
    exact Sound.clear (h.finishStep htick rfl hrow.1 hrow.2 now) (hpending (by simp [hstage]))
  | completing =>
    rw [hstage] at hrow
    have hfits : Fits d.trades d.refused (t.row.reschedule now) :=
      hrow.1.of_row rfl rfl rfl rfl rfl
    exact Sound.clear (h.conclude htick rfl hfits hrow.2) (hpending (by simp [hstage]))
  | leaving =>
    have hnodup := h.nodup t htick
    rw [List.map_cons, List.nodup_cons] at hnodup
    obtain ⟨hnodup', hrest', hrow'⟩ := tickOf_sound
      (d := { d with world := { d.world with tick := tickOf t.rest } }) rfl hnodup.2
      (h.rest t htick)
    exact ⟨h.rows, h.known, h.amounts, h.landed, by simp [hpending (by simp [hstage])], hnodup',
      hrest', hrow'⟩
  | planning | swapping request => exact h

/-- The process stops. -/
theorem Sound.crash (h : Sound d) :
    Sound { d with world := { d.world with tick := none }, pending := none } := by
  refine ⟨h.rows, h.known, h.amounts, h.landed, by simp, ?_, ?_, ?_⟩
  all_goals
    intro t ht
    cases ht

/-! ### What the gateway does -/

/-- A trade is taken on under a key that was free; the runner is at this run of its strategy, and
there is room for the trade. -/
theorem Fits.claim (h : Fits trades refused r) {new : Trade} (hfree : ∀ t ∈ trades, t.key ≠ new.key)
    (hrun : new.strategy = r.id → new.run = r.runs)
    (hroom : new.strategy = r.id → ∀ L ∈ r.terms.limit,
      weigh (Trade.weight r.kind) (r.exposes refused) trades + new.weight r.kind ≤ L) :
    Fits (trades ++ [new]) (refused.filter fun key => key ≠ new.key) r := by
  -- a new key is not refused, and the others are refused as before
  have hkey : ∀ t ∈ trades, (t.key ∉ refused.filter fun key => key ≠ new.key) ↔
      t.key ∉ refused := by
    intro t ht
    simp [hfree t ht]
  -- so the old trades weigh what they weighed
  have hexposed : weigh (Trade.weight r.kind)
      (r.exposes (refused.filter fun key => key ≠ new.key)) trades =
      weigh (Trade.weight r.kind) (r.exposes refused) trades := by
    refine weigh_congr fun t ht => ?_
    simp only [StrategyRow.exposes, hkey t ht]
  refine ⟨fun t ht hstrategy => ?_, ?_, fun L hL => ?_⟩
  · rcases List.mem_append.mp ht with ht | ht
    · exact h.runs t ht hstrategy
    · obtain rfl := List.mem_singleton.mp ht
      exact (hrun hstrategy).le
  · obtain ⟨n, hcounted, hafford⟩ := h.counted
    have hnew : r.counts (refused.filter fun key => key ≠ new.key) new = false := by
      -- a trade of this run is not yet counted
      by_cases hstrategy : new.strategy = r.id
      · simp [StrategyRow.counts, hrun hstrategy]
      · simp [StrategyRow.counts, hstrategy]
    rw [weigh_append_singleton, hnew, if_neg (by simp), add_zero]
    refine ⟨n, le_of_eq_of_le (weigh_congr fun t ht => ?_) hcounted, hafford⟩
    simp only [StrategyRow.counts, hkey t ht]
  · rw [weigh_append_singleton, hexposed]
    by_cases hstrategy : new.strategy = r.id
    · have hnew : r.exposes (refused.filter fun key => key ≠ new.key) new = true := by
        simp [StrategyRow.exposes, hstrategy]
      rw [hnew, if_pos rfl]
      -- but it is exposed, for which there was room
      exact hroom hstrategy L hL
    · have hnew : r.exposes (refused.filter fun key => key ≠ new.key) new = false := by
        simp [StrategyRow.exposes, hstrategy]
      rw [hnew, if_neg (by simp), add_zero]
      exact h.exposed L hL

theorem amountOf_eq {decimals : Nat} {amount : Int} (h : amountOf request decimals = some amount) :
    toBaseUnits? request.amountUi
      (if request.inputMint = WSOL_MINT then SOL_DECIMALS else decimals) = some amount ∧
      0 < amount := by
  unfold amountOf at h
  obtain ⟨-, h⟩ := Option.ite_none_left_eq_some.mp h
  obtain ⟨hunits, hpos⟩ := Option.filter_eq_some_iff.mp h
  exact ⟨hunits, of_decide_eq_true hpos⟩

/-- What a trade comes to is what a step does. -/
theorem weight_eq {decimals : Nat} {amount : Int} (hsuits : Suits row request)
    (h : amountOf request decimals = some amount) :
    (⟨row.id, row.runs, amount⟩ : Trade).weight row.kind = row.terms.unit := by
  unfold Trade.weight StrategyRow.terms
  cases hkind : row.kind with
  | dca =>
    obtain ⟨hamount, hmint⟩ := hsuits hkind
    have hunits := (amountOf_eq h).1
    rw [if_pos hmint, hamount] at hunits
    simp [hunits]
  | twap | trailingStop | takeProfit => rfl

/-- Of a run whose key is free there are no trades. -/
theorem run_ne_of_free (hfree : ∀ t ∈ trades, t.key ≠ row.idempotencyKey) {t : Trade}
    (ht : t ∈ trades) (hstrategy : t.strategy = row.id) : t.run ≠ row.runs := by
  intro hrun
  refine hfree t ht ?_
  simp only [Trade.key, StrategyRow.idempotencyKey, hstrategy, hrun]

/-- Nothing of a run whose key is free is at risk. -/
theorem risks_of_free (hfree : ∀ t ∈ trades, t.key ≠ row.idempotencyKey) :
    weigh (Trade.weight row.kind) (row.risks refused) trades = 0 := by
  refine weigh_eq_zero fun t ht => ?_
  by_cases hstrategy : t.strategy = row.id
  · simp [StrategyRow.risks, run_ne_of_free hfree ht hstrategy]
  · simp [StrategyRow.risks, hstrategy]

/-- Nothing of a run whose key is free may land, so what may land has been counted, and there is
room for a step. -/
theorem Fits.room (h : Fits trades refused row)
    (hopen : ∀ L ∈ row.terms.limit, row.terms.isOpen row.used)
    (hfree : ∀ t ∈ trades, t.key ≠ row.idempotencyKey) : ∀ L ∈ row.terms.limit,
      weigh (Trade.weight row.kind) (row.exposes refused) trades + row.terms.unit ≤ L := by
  intro L hL
  have hexposes : weigh (Trade.weight row.kind) (row.exposes refused) trades =
      weigh (Trade.weight row.kind) (row.counts refused) trades := by
    refine weigh_congr fun t ht => ?_
    by_cases hstrategy : t.strategy = row.id
    · have hrun : t.run < row.runs :=
        lt_of_le_of_ne (h.runs t ht hstrategy) (run_ne_of_free hfree ht hstrategy)
      simp [StrategyRow.exposes, StrategyRow.counts, hrun]
    · simp [StrategyRow.exposes, StrategyRow.counts, hstrategy]
  obtain ⟨n, hcounted, hafford⟩ := h.counted
  rw [hexposes]
  exact (add_le_add_left hcounted _).trans (hafford.room hopen L hL)

/-- The gateway is called. -/
theorem Sound.claim (h : Sound d) {rest : List StrategyRow} {decimals : Nat} {amount : Int}
    (htick : d.world.tick = some ⟨row, .swapping request, rest⟩)
    (hamount : amountOf request decimals = some amount) : Sound (d.claim row amount) := by
  have hpos := (amountOf_eq hamount).2
  have hswapping : d.swapping = some (row, request) := by
    unfold Desk.swapping
    rw [htick]
  have hwaiting := h.waiting htick (.inr ⟨request, rfl⟩)
  obtain ⟨-, hopen, hsuits, -⟩ : TickSound d ⟨row, .swapping request, rest⟩ := h.row _ htick
  have hweight := weight_eq hsuits hamount
  have hpending : d.swapping.isSome = true := by
    rw [hswapping]
    rfl
  unfold Desk.claim
  split
  · -- this run has claimed before, and the claim is the same
    refine ⟨h.rows, h.known, h.amounts, h.landed, fun _ => hpending, h.nodup, h.rest,
      fun t ht => ?_⟩
    obtain rfl := Option.some.inj (htick.symm.trans ht)
    exact ⟨hwaiting, hopen, hsuits, fun heq => nomatch heq⟩
  · rename_i hany
    have hfree : ∀ t ∈ d.trades, t.key ≠ row.idempotencyKey := by
      intro t ht heq
      exact hany (List.any_eq_true.mpr ⟨t, ht, decide_eq_true heq⟩)
    -- a row other than the own one does not see the trade, and the own one has room for it
    have hfits : ∀ x, Fits d.trades d.refused x → (x.id = row.id → x.kind = row.kind ∧
        x.runs = row.runs ∧ x.terms = row.terms) → Fits (d.trades ++ [⟨row.id, row.runs, amount⟩])
          (d.refused.filter fun key => key ≠ row.idempotencyKey) x := by
      intro x hx hsame
      refine hx.claim hfree (fun hid => ((hsame hid.symm).2.1).symm) fun hid L hL => ?_
      obtain ⟨hkind, -, hterms⟩ := hsame hid.symm
      have hexposes : x.exposes d.refused = row.exposes d.refused := by
        funext t
        simp only [StrategyRow.exposes, ← hid]
      rw [hexposes, hkind, hweight]
      exact hwaiting.fits.room hopen hfree L (hterms ▸ hL)
    obtain ⟨y, hy, hyid, hsame⟩ := hwaiting.stored
    have hrows : ∀ x ∈ d.world.store.rows, x.id = row.id → x.kind = row.kind ∧
        x.runs = row.runs ∧ x.terms = row.terms := by
      intro x hx hid
      obtain rfl := Table.eq_of_key hx hy (hid.trans hyid.symm)
      exact hsame
    have hrest : ∀ x ∈ rest, x.id ≠ row.id := by
      intro x hx hid
      have hnodup := h.nodup _ htick
      rw [List.map_cons, List.nodup_cons] at hnodup
      exact hnodup.1 (List.mem_map.mpr ⟨x, hx, hid⟩)
    have hrow := hfits row hwaiting.fits fun _ => ⟨rfl, rfl, rfl⟩
    refine ⟨fun x hx => hfits x (h.rows x hx) (hrows x hx), fun t ht => ?_, fun t ht => ?_,
      fun key hkey hmem => h.landed key hkey (List.mem_filter.mp hmem).1, fun _ => hpending,
      h.nodup, fun t ht x hx => ?_, fun t ht => ?_⟩
    · rcases List.mem_append.mp ht with ht | ht
      · exact h.known t ht
      · rw [List.mem_singleton.mp ht]
        exact ⟨y, hy, hyid⟩
    · rcases List.mem_append.mp ht with ht | ht
      · exact h.amounts t ht
      · rw [List.mem_singleton.mp ht]
        exact hpos.le
    · obtain rfl := Option.some.inj (htick.symm.trans ht)
      have hx' := h.rest _ htick x hx
      exact ⟨hfits x hx'.fits fun hid => absurd hid (hrest x hx), hx'.active, hx'.stored⟩
    · obtain rfl := Option.some.inj (htick.symm.trans ht)
      refine ⟨⟨hrow, hwaiting.active, hwaiting.stored⟩, hopen, hsuits, fun _ => ?_⟩
      -- this run is the only one at risk
      dsimp only
      rw [weigh_append_singleton, risks_of_free hfree, zero_add, ← hweight]
      split
      · exact le_rfl
      · exact weight_nonneg _ hpos.le

/-- The runner is told that nothing was performed, of a trade that has not landed. -/
theorem Sound.refuse (h : Sound d) {key : String} (hnot : key ∉ d.landed) :
    Sound { d with refused := key :: d.refused } := by
  -- a trade that is refused weighs on no row any more
  have hfits : ∀ x, Fits d.trades d.refused x → Fits d.trades (key :: d.refused) x :=
    fun x hx => hx.refuse h.amounts (List.subset_cons_self _ _)
  have hwaiting : ∀ x, Waiting d.trades d.refused d.world.store x →
      Waiting d.trades (key :: d.refused) d.world.store x :=
    fun x hx => ⟨hfits x hx.fits, hx.active, hx.stored⟩
  refine ⟨fun x hx => hfits x (h.rows x hx), h.known, h.amounts, fun k hk hmem => ?_, h.pending,
    h.nodup, fun t ht x hx => hwaiting x (h.rest t ht x hx), fun t ht => ?_⟩
  · rcases List.mem_cons.mp hmem with rfl | hmem
    · exact hnot hk
    · exact h.landed k hk hmem
  · have hrow := h.row t ht
    unfold TickSound at hrow ⊢
    cases hstage : t.stage with
    | planning =>
      rw [hstage] at hrow
      exact hwaiting _ hrow
    -- the trade of this step may be the one that is refused
    | swapping request =>
      rw [hstage] at hrow
      obtain ⟨hwait, hopen, hsuits, hrisks⟩ := hrow
      refine ⟨hwaiting _ hwait, hopen, hsuits, fun hpending => le_trans ?_ (hrisks hpending)⟩
      refine weigh_mono (fun tr htr => weight_nonneg _ (h.amounts tr htr)) fun tr _ htr => ?_
      simp only [StrategyRow.risks, Bool.and_eq_true, decide_eq_true_eq] at htr ⊢
      exact ⟨htr.1, fun hmem => htr.2 (List.mem_cons_of_mem _ hmem)⟩
    | reporting | completing =>
      rw [hstage] at hrow
      exact ⟨hfits _ hrow.1, hrow.2⟩
    | leaving => trivial

/-- The executor answers: what it says was performed is counted. -/
theorem Sound.performed (h : Sound d) {rest : List StrategyRow}
    (htick : d.world.tick = some ⟨row, .swapping request, rest⟩) (hpending : d.pending = some true)
    (now : ℚ) : Sound { d with
      world := { d.world with tick := some ⟨(row.ran now).performed request, .reporting, rest⟩ }
      pending := none } := by
  obtain ⟨hwaiting, hopen, hsuits, hrisks⟩ : TickSound d ⟨row, .swapping request, rest⟩ :=
    h.row _ htick
  have hid : ((row.ran now).performed request).id = row.id := StrategyRow.performed_id
  refine h.await htick hid (.inl rfl) ?_ ?_
  · refine hwaiting.fits.next h.amounts (m := 1) ?_ StrategyRow.performed_id kind_performed
      runs_performed terms_performed fun n hn => ?_
    · rw [Nat.cast_one, one_mul]
      exact hrisks hpending
    · have hused : ((row.ran now).performed request).used = row.terms.next row.used :=
        used_performed (r := row.ran now) hsuits
      rw [hused]
      exact hn.step hopen
  · obtain ⟨x, hx, hxid, hkind, -⟩ := hwaiting.stored
    have hkind' : ((row.ran now).performed request).kind = row.kind := kind_performed
    exact ⟨x, hx, hxid.trans hid.symm, hkind.trans hkind'.symm⟩

/-- The executor answers that nothing was performed. -/
theorem Sound.failed (h : Sound d) {rest : List StrategyRow}
    (htick : d.world.tick = some ⟨row, .swapping request, rest⟩)
    (hrefused : row.idempotencyKey ∈ d.refused) (text : String) (now : ℚ) :
    Fits d.trades d.refused ((row.ran now).failed text) := by
  obtain ⟨hwaiting, -, -, -⟩ : TickSound d ⟨row, .swapping request, rest⟩ := h.row _ htick
  have hused : ((row.ran now).failed text).used = row.used :=
    used_failed text (r := row.ran now) hwaiting.active
  refine hwaiting.fits.next h.amounts (m := 0) (le_of_eq ?_) rfl rfl rfl rfl fun n hn => ?_
  · rw [Nat.cast_zero, zero_mul]
    refine weigh_eq_zero fun t ht => ?_
    by_cases hrun : t.strategy = row.id ∧ t.run = row.runs
    · have hkey : t.key = row.idempotencyKey := by
        simp only [Trade.key, StrategyRow.idempotencyKey, hrun]
      simp [StrategyRow.risks, hkey, hrefused]
    · rw [not_and_or] at hrun
      rcases hrun with hrun | hrun <;> simp [StrategyRow.risks, hrun]
  · rwa [hused]

theorem Sound.answer (h : Sound d) {rest : List StrategyRow}
    (htick : d.world.tick = some ⟨row, .swapping request, rest⟩) (result : StrategySwapResult)
    (now : ℚ) (hok : result.ok = true → d.pending = some true)
    (hbad : result.ok = false → row.idempotencyKey ∉ d.landed) :
    Sound (d.answer hasPrice row result now) := by
  unfold Desk.answer World.apply
  simp only [htick, World.swapped]
  cases hresult : result.ok with
  -- performed: the trade is counted
  | true =>
    simp only [if_true]
    exact h.performed htick (hok hresult) now
  | false =>
    simp only [Bool.false_eq_true, if_false]
    -- not performed: by the condition it has not landed, and is refused
    have h' := h.refuse (hbad hresult)
    obtain ⟨hwaiting, -, -, -⟩ : TickSound _ ⟨row, .swapping request, rest⟩ := h'.row _ htick
    have hfits := h'.failed htick List.mem_cons_self result.text now
    have hlisted : Listed d.world.store ((row.ran now).failed result.text) :=
      hwaiting.stored.listed
    have hid : ((row.ran now).failed result.text).id = row.id := rfl
    split
    · exact h'.await htick hid (.inl rfl) hfits hlisted
    · exact h'.finishStep htick hid hfits hlisted now

/-! ### Whole runs -/

/-- No trade lands of which the runner is told that it was not performed, and it is told of none
that has landed. Apart from that: a strategy is created with parameters that afford its steps, and a
price-triggered one that is done is not set active again. -/
def Honoured (d : Desk) : Happening → Prop
  | .runner (.create id kind params firstRunAt) =>
    (created id kind params firstRunAt).terms.Affords 0 (created id kind params firstRunAt).used
  | .runner (.setStatus id status) => status ≠ .done → ∀ r ∈ d.world.store.rows, r.id = id →
      r.kind = .trailingStop ∨ r.kind = .takeProfit → r.status ≠ .done
  | .runner _ | .execute _ => True
  | .threw _ _ => ∀ row request, d.swapping = some (row, request) →
      row.idempotencyKey ∉ d.landed
  | .answered result prior _ => ∀ row request free, d.swapping = some (row, request) →
      d.pending = some free → (swapResult (Desk.returned free result prior)).ok = false →
        row.idempotencyKey ∉ d.landed
  | .lands key => key ∉ d.refused

/-- A duplicate was not performed, as far as the executor says. -/
theorem ok_returned {free : Bool} {result : Kernel.ExecuteResult} {prior : Option Kernel.TradeRow}
    (h : (swapResult (Desk.returned free result prior)).ok = true) : free = true := by
  cases free with
  | true => rfl
  | false => cases h

/-- Every happening that is honoured keeps a desk sound. -/
theorem Sound.apply (h : Sound d) {happening : Happening} (hhonoured : Honoured d happening) :
    Sound (d.apply hasPrice happening) := by
  cases happening with
  | runner ev =>
    cases ev with
    | create id kind params firstRunAt =>
      simp only [Desk.apply, World.apply]
      -- a row that would be there twice is refused
      split
      · exact h.create ‹_› hhonoured
      · exact h
    | setStatus id status => exact h.setStatus id status hhonoured
    | tick now =>
      cases htick : d.world.tick with
      | none =>
        simp only [Desk.apply, World.apply, htick]
        exact h.begin htick now
      | some t =>
        simp only [Desk.apply, World.apply, htick]
        exact h
    | planned price now =>
      cases htick : d.world.tick with
      | none =>
        simp only [Desk.apply, World.apply, htick]
        exact h
      | some t =>
        simp only [Desk.apply, World.apply, htick]
        split
        · exact h.planned htick ‹_› price now
        · exact h
    -- the answers of the executor come under their own names below
    | swapped outcome now => exact h
    | notified now =>
      cases htick : d.world.tick with
      | none =>
        simp only [Desk.apply, World.apply, htick]
        exact h
      | some t =>
        simp only [Desk.apply, World.apply, htick]
        exact h.notified htick now
    | crash => exact h.crash
  | execute decimals =>
    simp only [Desk.apply]
    split
    · rename_i row request hswapping hpending
      split
      · rename_i amount hamount
        obtain ⟨rest, htick⟩ := swapping_eq_some hswapping
        exact h.claim htick hamount
      · exact h
    · exact h
  | threw text now =>
    simp only [Desk.apply]
    split
    · rename_i row request hswapping
      obtain ⟨rest, htick⟩ := swapping_eq_some hswapping
      exact h.answer htick _ now (fun hok => nomatch hok) fun _ => hhonoured row request hswapping
    · exact h
  | answered result prior now =>
    simp only [Desk.apply]
    split
    · rename_i row request free hswapping hpending
      obtain ⟨rest, htick⟩ := swapping_eq_some hswapping
      refine h.answer htick _ now (fun hok => ?_) fun hbad =>
        hhonoured row request free hswapping hpending hbad
      rw [hpending, ok_returned hok]
    · exact h
  | lands key =>
    simp only [Desk.apply]
    split
    · refine ⟨h.rows, h.known, h.amounts, fun k hk hmem => ?_, h.pending, h.nodup, h.rest, h.row⟩
      rcases List.mem_cons.mp hk with rfl | hk
      · exact hhonoured hmem
      · exact h.landed k hk hmem
    · exact h

/-- The trades of a strategy that have landed. -/
def Desk.landedTrades (d : Desk) (id : String) : List Trade :=
  d.trades.filter fun t => t.strategy = id && t.key ∈ d.landed

/-- What has landed is within the budgets. -/
structure BudgetsBind (d : Desk) : Prop where
  dca : ∀ r ∈ d.world.store.rows, r.kind = .dca → 0 < r.numParam "totalBudgetUi" 0 →
    (((d.landedTrades r.id).map Trade.amount).sum : ℚ) ≤
      r.numParam "totalBudgetUi" 0 * 10 ^ SOL_DECIMALS
  twap : ∀ r ∈ d.world.store.rows, r.kind = .twap → ((d.landedTrades r.id).length : ℤ) ≤ r.slices
  exit : ∀ r ∈ d.world.store.rows, r.kind = .trailingStop ∨ r.kind = .takeProfit →
    (d.landedTrades r.id).length ≤ 1

theorem weigh_amounts (p : Trade → Bool) (l : List Trade) : weigh (Trade.weight .dca) p l =
    (((l.filter p).map Trade.amount).sum : ℚ) := by
  unfold weigh
  induction l.filter p with
  | nil => simp
  | cons t l ih =>
    rw [List.map_cons, List.sum_cons, ih, List.map_cons, List.sum_cons, Int.cast_add]
    rfl

/-- What has landed may land. -/
theorem Sound.landed_le (h : Sound d) (hr : r ∈ d.world.store.rows) {L : ℚ}
    (hL : r.terms.limit = some L) :
    weigh (Trade.weight r.kind) (fun t => t.strategy = r.id && t.key ∈ d.landed) d.trades ≤ L := by
  refine le_trans ?_ ((h.rows r hr).exposed L hL)
  refine weigh_mono (fun t ht => weight_nonneg _ (h.amounts t ht)) fun t _ ht => ?_
  simp only [StrategyRow.exposes, Bool.and_eq_true, decide_eq_true_eq] at ht ⊢
  exact ⟨ht.1, h.landed _ ht.2⟩

theorem Sound.budgetsBind (h : Sound d) : BudgetsBind d where
  dca r hr hkind hpos := by
    have hle := h.landed_le hr (L := r.numParam "totalBudgetUi" 0 * 10 ^ SOL_DECIMALS) (by
      simp [StrategyRow.terms, hkind, hpos])
    rwa [hkind, weigh_amounts] at hle
  twap r hr hkind := by
    have hle := h.landed_le hr (L := r.slices) (by simp [StrategyRow.terms, hkind])
    rw [hkind, show Trade.weight .twap = fun _ => 1 from rfl, weigh_one,
      List.countP_eq_length_filter] at hle
    exact_mod_cast hle
  exit r hr hkind := by
    have hle := h.landed_le hr (L := 1) (by
      rcases hkind with hkind | hkind <;> simp [StrategyRow.terms, hkind])
    have hone : Trade.weight r.kind = fun _ => 1 := by
      rcases hkind with hkind | hkind <;> rw [hkind] <;> rfl
    rw [hone, weigh_one, List.countP_eq_length_filter] at hle
    exact_mod_cast hle

/-- Budgets bind in every state of a run in which no trade lands of which the runner is told
otherwise. -/
theorem budgetsBind_of_honoured (hasPrice : Bool) (hs : List Happening)
    (h : Meets (Desk.apply hasPrice) Honoured .start hs) :
    Throughout (Desk.apply hasPrice) BudgetsBind .start hs :=
  (throughout_of_step (fun _ _ hd hhonoured => Sound.apply hd hhonoured) h sound_start).imp
    fun _ hd => hd.budgetsBind

/-! ### Runs -/

/-- A token is bought for this much a step, up to this budget. -/
def buying (per total : ℚ) : Params :=
  ⟨[("token", .string "token"), ("amountUiPerStep", .number (.finite per)),
    ("totalBudgetUi", .number (.finite total))], by simp⟩

/-- Ten steps of a tenth, of one. -/
example : (created "s" .dca (buying (toDouble (1 / 10)) 1) 0).terms.Affords 0 0 :=
  Terms.affords_of_closed (m := 10) (by decide +kernel) (by decide +kernel) (by decide +kernel)

/-- The trade confirmed, with this problem in its fill. -/
def confirmedWith (error : Option Kernel.Problem) : Kernel.ExecuteResult :=
  ⟨"trade", .confirmed, some "signature", false, "buy", none, error⟩

/-- A buy of a DCA, which lands; the gateway returns this. -/
def buy (key : String) (now : ℚ) (result : Kernel.ExecuteResult) : List Happening :=
  [.runner (.tick now), .runner (.planned (.ok none) now), .execute 9, .lands key,
    .answered result none now, .runner (.notified now)]

/-- Two buys of seven tenths, of one and a half, and a third time at which it is due. -/
def sevenTenths : List Happening :=
  .runner (.create "s" .dca (buying (toDouble (7 / 10)) (3 / 2)) 0) ::
    (buy "strat_s_0" 0 (confirmedWith none) ++ buy "strat_s_1" 10000000 (confirmedWith none) ++
      [.runner (.tick 20000000), .runner (.planned (.ok none) 20000000)])

theorem honoured_buy {d : Desk} {key : String} {now : ℚ}
    (hpending : (run (Desk.apply false) d ((buy key now (confirmedWith none)).take 4)).pending =
      some true)
    (hrefused : (run (Desk.apply false) d ((buy key now (confirmedWith none)).take 3)).refused =
      []) : Meets (Desk.apply false) Honoured d (buy key now (confirmedWith none)) := by
  have hlands : key ∉
      (run (Desk.apply false) d ((buy key now (confirmedWith none)).take 3)).refused := by
    rw [hrefused]
    exact List.not_mem_nil
  refine ⟨trivial, trivial, trivial, hlands, ?_, trivial, trivial⟩
  · intro row request free _ hfree hbad
    obtain rfl := Option.some.inj (hfree.symm.trans hpending)
    cases hbad

theorem budgetsBind_sevenTenths :
    Throughout (Desk.apply false) BudgetsBind .start sevenTenths ∧
      ((run (Desk.apply false) .start sevenTenths).landedTrades "s").map Trade.amount =
        [700000000, 700000000] := by
  refine ⟨budgetsBind_of_honoured false _ ⟨?_, ?_⟩, by decide +kernel⟩
  · exact Terms.affords_of_closed (m := 2) (by decide +kernel) (by decide +kernel)
      (by decide +kernel)
  · refine meets_append.mpr ⟨meets_append.mpr ⟨honoured_buy ?_ ?_, honoured_buy ?_ ?_⟩,
      trivial, trivial, trivial⟩
    all_goals decide +kernel

/-- The first buy of a budget of one buy is confirmed with a problem in its fill. -/
def shortfall : List Happening :=
  .runner (.create "s" .dca (buying 1 1) 0) ::
    (buy "strat_s_0" 0 (confirmedWith (some ⟨"SETTLE_SHORTFALL", "short"⟩)) ++
      buy "strat_s_1" 10000000 (confirmedWith none))

/-- The runner takes it for an error and buys again, for twice the budget in all. -/
theorem budget_exceeded : ¬∀ (hasPrice : Bool) (hs : List Happening),
    Throughout (Desk.apply hasPrice) BudgetsBind .start hs := by
  intro h
  have hbind := h false shortfall _ [] (List.append_nil _).symm
  -- both trades land, but the first one was reported with a problem and not counted
  have hrows : (run (Desk.apply false) .start shortfall).world.store.rows.map
      (fun r => (r.id, r.kind, r.numParam "totalBudgetUi" 0)) = [("s", .dca, 1)] := by
    decide +kernel
  have hlanded : ((run (Desk.apply false) .start shortfall).landedTrades "s").map Trade.amount =
      [1000000000, 1000000000] := by
    decide +kernel
  obtain ⟨r, hr⟩ := List.length_eq_one_iff.mp (by simpa using congrArg List.length hrows)
  rw [hr] at hrows
  obtain ⟨hid, hkind, htotal⟩ := by simpa using hrows
  have hdca := hbind.dca r (by rw [hr]; exact List.mem_singleton_self r) hkind (by
    rw [htotal]
    exact zero_lt_one)
  rw [hid, hlanded, htotal] at hdca
  exact absurd hdca (by decide +kernel)

end AriOs.Strategy
