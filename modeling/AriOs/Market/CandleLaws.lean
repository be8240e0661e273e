import AriOs.Market.Ohlcv

/-!
# What candles keep of the trades

The candles of valid trades do not depend on the order the trades are given in. They are in order,
aligned to the interval, and their range holds what they open and close at. Their volumes and counts
sum up to those of the trades, which are also what the analytics report. The candles of a multiple
of an interval are the merged candles of the interval.
-/

namespace AriOs.Market

open AriOs.Js AriOs.Storage

/-! ### What is asked of candles -/

/-- Two candles in one, the first of them earlier. -/
def combineCandles (c d : Candle Rational) : Candle Rational :=
  { c with
    high := if 0 < comparePrices d.high c.high then d.high else c.high
    low := if comparePrices d.low c.low < 0 then d.low else c.low
    close := d.close
    baseVolume := c.baseVolume + d.baseVolume
    quoteVolume := c.quoteVolume + d.quoteVolume
    trades := c.trades + d.trades }

/-- The candle as part of the longer one it lies in. -/
def regroup {π : Type} (interval : Int) (c : Candle π) : Candle π :=
  { c with
    start := c.start / interval * interval
    finish := finishOf (c.start / interval * interval) interval }

/-- The candles of a longer interval, from those of a shorter one. -/
def mergeCandles (interval : Int) (candles : List (Candle Rational)) : List (Candle Rational) :=
  Runs.compress Candle.start combineCandles (candles.map (regroup interval))

/-- The candles are in order and aligned, their range holds what they open and close at, and they
sum up to the trades. -/
structure CandlesSound (interval : Int) (trades : List MarketTrade)
    (candles : List (Candle Rational)) : Prop where
  increasing : candles.Pairwise fun c d => c.start < d.start
  aligned : ∀ c ∈ candles, interval ∣ c.start ∧ c.finish = finishOf c.start interval
  range : ∀ c ∈ candles, comparePrices c.low c.opening ≤ 0 ∧ comparePrices c.opening c.high ≤ 0 ∧
    comparePrices c.low c.close ≤ 0 ∧ comparePrices c.close c.high ≤ 0
  baseVolume : (candles.map Candle.baseVolume).sum = (trades.map MarketTrade.baseAmount).sum
  quoteVolume : (candles.map Candle.quoteVolume).sum = (trades.map MarketTrade.quoteAmount).sum
  trades : (candles.map Candle.trades).sum = trades.length

/-- The report has the totals of the candles, the least of their lows and the greatest of their
highs. -/
structure ReportAgrees (report : MarketReport) (candles : List (Candle Rational)) : Prop where
  tradeCount : report.tradeCount = (candles.map Candle.trades).sum
  baseVolume : report.baseVolume = (candles.map Candle.baseVolume).sum
  quoteVolume : report.quoteVolume = (candles.map Candle.quoteVolume).sum
  low : ∀ low, report.low = some low ↔
    (∃ c ∈ candles, c.low = low) ∧ ∀ c ∈ candles, comparePrices low c.low ≤ 0
  high : ∀ high, report.high = some high ↔
    (∃ c ∈ candles, c.high = high) ∧ ∀ c ∈ candles, comparePrices c.high high ≤ 0

/-! ### The candles -/

section Bars

variable {localeCompare : String → String → Ordering} {interval : Int} {trades : List MarketTrade}

theorem comparePrices_ofRat_nonpos {p q : ℚ} : comparePrices (ofRat p) (ofRat q) ≤ 0 ↔ p ≤ q := by
  have hpos := comparePrices_pos (denominator_ofRat_pos p) (denominator_ofRat_pos q)
  rw [value_ofRat, value_ofRat] at hpos
  rw [← not_lt, hpos, not_lt]

theorem start_combine (c d : Candle ℚ) (_ : c.start = d.start) :
    (combine c d).start = c.start := rfl

theorem MarketTrade.Valid.rank_eq {t : MarketTrade} (h : t.Valid) :
    rank t.timestamp = (((t.seconds : ℚ) : WithTop ℚ) : WithBot (WithTop ℚ)) := by
  have htime := h.safeInteger_eq.1
  unfold safeInteger at htime
  split at htime
  · rw [JsNumber.eq_ofInt_of_toBigInt? htime]
    rfl
  · cases htime

theorem seconds_le_of_rank_le {a b : MarketTrade} (ha : a.Valid) (hb : b.Valid)
    (h : rank a.timestamp ≤ rank b.timestamp) : a.seconds ≤ b.seconds := by
  rw [ha.rank_eq, hb.rank_eq, WithBot.coe_le_coe, WithTop.coe_le_coe] at h
  exact_mod_cast h

/-- Sums over the candles are sums over the trades. -/
theorem sum_bars {w : Candle ℚ → Int} (hw : ∀ c d, w (combine c d) = w c + w d) :
    ((bars interval trades).map w).sum = (trades.map fun t => w (single interval t)).sum := by
  rw [bars, Runs.sum_compress hw, List.map_map]
  rfl

/-- The candles are in order if the trades are. -/
theorem bars_pairwise (hinterval : 0 < interval)
    (h : trades.Pairwise fun a b => a.seconds ≤ b.seconds) :
    (bars interval trades).Pairwise fun c d => c.start < d.start := by
  refine Runs.compress_pairwise start_combine (List.pairwise_map.mpr (h.imp fun {a b} hab => ?_))
  exact mul_le_mul_of_nonneg_right (Int.ediv_le_ediv hinterval hab) hinterval.le

/-- What the range of a candle of rational prices is. -/
structure Ranged (interval : Int) (c : Candle ℚ) : Prop where
  aligned : interval ∣ c.start ∧ c.finish = finishOf c.start interval
  low : c.low ≤ c.opening ∧ c.low ≤ c.close
  high : c.opening ≤ c.high ∧ c.close ≤ c.high

theorem ranged_bars {c : Candle ℚ} (hc : c ∈ bars interval trades) : Ranged interval c := by
  refine Runs.forall_mem_compress_of (Q := Ranged interval) (fun c d _ hc hd => ?_) ?_ c hc
  · refine ⟨hc.aligned, ⟨(min_le_left _ _).trans hc.low.1, (min_le_right _ _).trans hd.low.2⟩,
      ⟨hc.high.1.trans (le_max_left _ _), hd.high.2.trans (le_max_right _ _)⟩⟩
  · intro c hc
    obtain ⟨t, -, rfl⟩ := List.mem_map.mp hc
    exact ⟨⟨Dvd.intro_left _ rfl, rfl⟩, ⟨le_rfl, le_rfl⟩, ⟨le_rfl, le_rfl⟩⟩

theorem forall_le_low_iff {p : ℚ} :
    (∀ c ∈ bars interval trades, p ≤ c.low) ↔ ∀ t ∈ trades, p ≤ t.price.value := by
  rw [bars, Runs.forall_mem_compress (Q := fun c : Candle ℚ => p ≤ c.low) fun c d _ => le_min_iff]
  simp [single]

theorem forall_lt_low_iff {p : ℚ} :
    (∀ c ∈ bars interval trades, p < c.low) ↔ ∀ t ∈ trades, p < t.price.value := by
  rw [bars, Runs.forall_mem_compress (Q := fun c : Candle ℚ => p < c.low) fun c d _ => lt_min_iff]
  simp [single]

theorem forall_high_le_iff {p : ℚ} :
    (∀ c ∈ bars interval trades, c.high ≤ p) ↔ ∀ t ∈ trades, t.price.value ≤ p := by
  rw [bars, Runs.forall_mem_compress (Q := fun c : Candle ℚ => c.high ≤ p) fun c d _ => max_le_iff]
  simp [single]

theorem forall_high_lt_iff {p : ℚ} :
    (∀ c ∈ bars interval trades, c.high < p) ↔ ∀ t ∈ trades, t.price.value < p := by
  rw [bars, Runs.forall_mem_compress (Q := fun c : Candle ℚ => c.high < p) fun c d _ => max_lt_iff]
  simp [single]

/-- The least price is the least of the lows. -/
theorem min?_prices : (trades.map fun t => t.price.value).min? =
    ((bars interval trades).map Candle.low).min? := by
  refine Option.ext fun p => ?_
  rw [List.min?_eq_some_iff, List.min?_eq_some_iff, List.forall_mem_map, List.forall_mem_map,
    forall_le_low_iff, List.mem_map, List.mem_map]
  refine and_congr_left fun hle => ?_
  have hiff := not_congr (@forall_lt_low_iff interval trades p)
  push Not at hiff
  have hbars := (@forall_le_low_iff interval trades p).mpr hle
  constructor
  · rintro ⟨t, ht, rfl⟩
    obtain ⟨c, hc, hlow⟩ := hiff.mpr ⟨t, ht, le_rfl⟩
    exact ⟨c, hc, le_antisymm hlow (hbars c hc)⟩
  · rintro ⟨c, hc, rfl⟩
    obtain ⟨t, ht, hlow⟩ := hiff.mp ⟨c, hc, le_rfl⟩
    exact ⟨t, ht, le_antisymm hlow (hle t ht)⟩

/-- The greatest price is the greatest of the highs. -/
theorem max?_prices : (trades.map fun t => t.price.value).max? =
    ((bars interval trades).map Candle.high).max? := by
  refine Option.ext fun p => ?_
  rw [List.max?_eq_some_iff, List.max?_eq_some_iff, List.forall_mem_map, List.forall_mem_map,
    forall_high_le_iff, List.mem_map, List.mem_map]
  refine and_congr_left fun hle => ?_
  have hiff := not_congr (@forall_high_lt_iff interval trades p)
  push Not at hiff
  have hbars := (@forall_high_le_iff interval trades p).mpr hle
  constructor
  · rintro ⟨t, ht, rfl⟩
    obtain ⟨c, hc, hhigh⟩ := hiff.mpr ⟨t, ht, le_rfl⟩
    exact ⟨c, hc, le_antisymm (hbars c hc) hhigh⟩
  · rintro ⟨c, hc, rfl⟩
    obtain ⟨t, ht, hhigh⟩ := hiff.mp ⟨c, hc, le_rfl⟩
    exact ⟨t, ht, le_antisymm (hle t ht) hhigh⟩

/-- The candles of valid trades are sound. -/
theorem candlesSound_of_valid [Std.TransCmp localeCompare] (hinterval : 0 < interval)
    (h : ∀ t ∈ trades, t.Valid) : CandlesSound interval trades
      ((bars interval (sortTrades localeCompare trades)).map (Candle.mapPrice ofRat)) := by
  have hperm := @sortTrades_perm localeCompare trades
  -- a quantity that adds up within a bar adds up over all of them
  have hsum : ∀ {w : Candle Rational → Int} {v : MarketTrade → Int},
      (∀ c d, w (Candle.mapPrice ofRat (combine c d)) =
        w (Candle.mapPrice ofRat c) + w (Candle.mapPrice ofRat d)) →
      (∀ t, w (Candle.mapPrice ofRat (single interval t)) = v t) →
      (((bars interval (sortTrades localeCompare trades)).map (Candle.mapPrice ofRat)).map w).sum =
        (trades.map v).sum := by
    intro w v hw hv
    rw [List.map_map, ← (hperm.map v).sum_eq]
    exact (sum_bars hw).trans (congrArg List.sum (List.map_congr_left fun t _ => hv t))
  -- trades in order are in order of their seconds
  have hsorted : (sortTrades localeCompare trades).Pairwise fun a b => a.seconds ≤ b.seconds := by
    refine (sortTrades_pairwise h).imp_of_mem fun {a b} ha hb hle => ?_
    exact seconds_le_of_rank_le (h a (hperm.subset ha)) (h b (hperm.subset hb)) hle
  refine ⟨?_, ?_, ?_, hsum (fun _ _ => rfl) fun _ => rfl, hsum (fun _ _ => rfl) fun _ => rfl, ?_⟩
  · exact List.pairwise_map.mpr (bars_pairwise hinterval hsorted)
  · intro c hc
    obtain ⟨b, hb, rfl⟩ := List.mem_map.mp hc
    exact (ranged_bars hb).aligned
  · intro c hc
    obtain ⟨b, hb, rfl⟩ := List.mem_map.mp hc
    have hranged := ranged_bars hb
    exact ⟨comparePrices_ofRat_nonpos.mpr hranged.low.1,
      comparePrices_ofRat_nonpos.mpr hranged.high.1,
      comparePrices_ofRat_nonpos.mpr hranged.low.2, comparePrices_ofRat_nonpos.mpr hranged.high.2⟩
  · rw [hsum (v := fun _ => 1) (fun _ _ => rfl) fun _ => rfl]
    simp

/-! ### Longer intervals -/

theorem combineCandles_mapPrice (c d : Candle ℚ) : (combine c d).mapPrice ofRat =
    combineCandles (c.mapPrice ofRat) (d.mapPrice ofRat) := by
  refine Candle.ext rfl rfl rfl ?_ ?_ rfl rfl rfl rfl
  · exact (ite_comparePrices_pos d.high c.high).symm
  · exact (ite_comparePrices_neg d.low c.low).symm

/-- The candle of a trade lies in the one of the longer interval. -/
theorem regroup_single {k n : Int} (hn : 0 < n) (t : MarketTrade) :
    regroup (k * n) (single n t) = single (k * n) t := by
  have hstart : t.seconds / n * n / (k * n) = t.seconds / (k * n) := by
    rw [Int.mul_ediv_mul_of_pos_left _ _ hn, Int.ediv_ediv_of_nonneg hn.le, mul_comm n k]
  simp only [regroup, single, hstart]

/-- Merging gives the candles of the longer interval. -/
theorem mergeCandles_eq {k n : Int} (hn : 0 < n) (trades : List MarketTrade) :
    mergeCandles (k * n) ((bars n trades).map (Candle.mapPrice ofRat)) =
      (bars (k * n) trades).map (Candle.mapPrice ofRat) := by
  have hregroup : ((bars n trades).map (Candle.mapPrice ofRat)).map (regroup (k * n)) =
      ((bars n trades).map (regroup (k * n))).map (Candle.mapPrice ofRat) := by
    rw [List.map_map, List.map_map]
    rfl
  have hsingles : (trades.map (single n)).map (regroup (k * n)) =
      trades.map (single (k * n)) := by
    rw [List.map_map]
    exact List.map_congr_left fun t _ => regroup_single hn t
  have hmerged : Runs.compress Candle.start combine ((bars n trades).map (regroup (k * n))) =
      bars (k * n) trades := by
    have hkey : ∀ c d : Candle ℚ, c.start = d.start →
        (regroup (k * n) c).start = (regroup (k * n) d).start :=
      fun c d h => by rw [regroup, regroup, h]
    have hcombine : ∀ c d : Candle ℚ,
        regroup (k * n) (combine c d) = combine (regroup (k * n) c) (regroup (k * n) d) :=
      fun _ _ => rfl
    rw [bars, bars, ← hsingles]
    exact Runs.compress_map_compress hkey hcombine start_combine combine_assoc _
  rw [mergeCandles, hregroup, ← hmerged]
  exact Runs.compress_map (fun _ _ => Iff.rfl) combineCandles_mapPrice _

/-! ### The analytics -/

/-- The first of some values in an order, in lowest terms. -/
theorem map_first_eq_some_iff {first : List ℚ → Option ℚ} {R : ℚ → ℚ → Prop}
    {S : Rational → Rational → Prop}
    (hfirst : ∀ {l p}, first l = some p ↔ p ∈ l ∧ ∀ q ∈ l, R p q)
    (hS : ∀ {p q}, S (ofRat p) (ofRat q) ↔ R p q) {f : Candle ℚ → ℚ}
    {g : Candle Rational → Rational} (hg : ∀ c, g (c.mapPrice ofRat) = ofRat (f c))
    {l : List (Candle ℚ)} {r : Rational} :
    (first (l.map f)).map ofRat = some r ↔
      (∃ c ∈ l.map (Candle.mapPrice ofRat), g c = r) ∧
        ∀ c ∈ l.map (Candle.mapPrice ofRat), S r (g c) := by
  simp only [Option.map_eq_some_iff, hfirst, List.forall_mem_map, hg]
  constructor
  · rintro ⟨p, ⟨hp, hle⟩, rfl⟩
    obtain ⟨c, hc, rfl⟩ := List.mem_map.mp hp
    exact ⟨⟨_, List.mem_map_of_mem hc, hg c⟩, fun d hd => hS.mpr (hle d hd)⟩
  · rintro ⟨⟨_, hmem, rfl⟩, hle⟩
    obtain ⟨c, hc, rfl⟩ := List.mem_map.mp hmem
    simp only [hg] at hle ⊢
    exact ⟨f c, ⟨List.mem_map_of_mem hc, fun d hd => hS.mp (hle d hd)⟩, rfl⟩

theorem min?_eq_of_perm {l l' : List ℚ} (h : l.Perm l') : l.min? = l'.min? :=
  Option.ext fun _ => by simp only [List.min?_eq_some_iff, h.mem_iff]

theorem max?_eq_of_perm {l l' : List ℚ} (h : l.Perm l') : l.max? = l'.max? :=
  Option.ext fun _ => by simp only [List.max?_eq_some_iff, h.mem_iff]

/-- The analytics agree with the candles. -/
theorem reportAgrees_of_valid [Std.TransCmp localeCompare] {activeLiquidity : Int}
    (hinterval : 0 < interval) (hliquidity : 0 ≤ activeLiquidity) (h : ∀ t ∈ trades, t.Valid)
    (hids : (trades.map MarketTrade.id).Nodup) :
    ∃ report, marketAnalytics trades activeLiquidity = .ok report ∧
      ReportAgrees report
        ((bars interval (sortTrades localeCompare trades)).map (Candle.mapPrice ofRat)) := by
  have hsound := @candlesSound_of_valid localeCompare interval trades _ hinterval h
  have hprices := (@sortTrades_perm localeCompare trades).map fun t => t.price.value
  obtain ⟨report, hreport, hcount, hbase, hquote, hlow, hhigh⟩ :=
    marketAnalytics_eq hliquidity h hids
  refine ⟨report, hreport, hcount.trans hsound.trades.symm, hbase.trans hsound.baseVolume.symm,
    hquote.trans hsound.quoteVolume.symm, fun low => ?_, fun high => ?_⟩
  · rw [hlow, ← min?_eq_of_perm hprices, @min?_prices interval]
    exact map_first_eq_some_iff (f := Candle.low) (g := Candle.low)
      (S := fun p q => comparePrices p q ≤ 0) List.min?_eq_some_iff
      comparePrices_ofRat_nonpos fun _ => rfl
  · rw [hhigh, ← max?_eq_of_perm hprices, @max?_prices interval]
    exact map_first_eq_some_iff (f := Candle.high) (g := Candle.high)
      (S := fun p q => comparePrices q p ≤ 0) List.max?_eq_some_iff
      comparePrices_ofRat_nonpos fun _ => rfl

end Bars

/-! ### All of it -/

/-- The candles of valid trades with ids of their own: the same for every order of the trades,
sound, those of a multiple of the interval when merged, and in agreement with the analytics. -/
theorem aggregateCandles_conserves (localeCompare : String → String → Ordering)
    [Std.TransCmp localeCompare] [Std.LawfulEqCmp localeCompare] (interval : JsNumber) (n : Int)
    (hinterval : checkInterval interval = .ok n) (trades : List MarketTrade)
    (h : ∀ t ∈ trades, t.Valid) (hids : (trades.map MarketTrade.id).Nodup) :
    ∃ candles, aggregateCandles localeCompare trades interval = .ok candles ∧
      (∀ trades', trades'.Perm trades →
        aggregateCandles localeCompare trades' interval = .ok candles) ∧
      CandlesSound n trades candles ∧
      (∀ k longer, checkInterval longer = .ok (k * n) →
        aggregateCandles localeCompare trades longer = .ok (mergeCandles (k * n) candles)) ∧
      ∀ activeLiquidity, 0 ≤ activeLiquidity →
        ∃ report, marketAnalytics trades activeLiquidity = .ok report ∧
          ReportAgrees report candles := by
  have hn : 0 < n := (checkInterval_eq_ok.mp hinterval).2
  refine ⟨_, aggregateCandles_eq hinterval h hids, fun trades' hperm => ?_,
    candlesSound_of_valid hn h, fun k longer hlonger => ?_, fun activeLiquidity hliquidity =>
      reportAgrees_of_valid hn hliquidity h hids⟩
  · rw [aggregateCandles_eq hinterval (fun t ht => h t (hperm.subset ht))
      ((hperm.map MarketTrade.id).nodup_iff.mpr hids), sortTrades_eq_of_perm h hids hperm]
  · rw [aggregateCandles_eq hlonger h hids, mergeCandles_eq hn]

/-- Two trades in one minute, the later one first. -/
def minute : List MarketTrade :=
  [{ id := "b", timestamp := .ofInt 119, price := ⟨3, 1⟩, baseAmount := 2, quoteAmount := 6,
     slot := 1, sequence := .ofInt 0 },
   { id := "a", timestamp := .ofInt 61, price := ⟨2, 1⟩, baseAmount := 1, quoteAmount := 2,
     slot := 1, sequence := .ofInt 0 }]

theorem minute_valid : ∀ t ∈ minute, t.Valid := by
  intro t ht
  rcases List.mem_cons.mp ht with rfl | ht
  · exact ⟨⟨119, rfl, by decide⟩, by decide, by decide, by decide, by decide⟩
  · obtain rfl := List.mem_singleton.mp ht
    exact ⟨⟨61, rfl, by decide⟩, by decide, by decide, by decide, by decide⟩

theorem aggregateCandles_conserves_minute :
    ∃ candles, aggregateCandles compare minute (.ofInt 60) = .ok candles ∧
      CandlesSound 60 minute candles := by
  obtain ⟨candles, hcandles, -, hsound, -⟩ :=
    aggregateCandles_conserves compare (.ofInt 60) 60 rfl minute minute_valid (by decide)
  exact ⟨candles, hcandles, hsound⟩

end AriOs.Market
