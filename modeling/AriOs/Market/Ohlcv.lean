import AriOs.Js.Number
import AriOs.Js.Throw
import AriOs.Storage.Runs
import Mathlib.Algebra.Order.BigOperators.Group.List
import Mathlib.Data.List.Sort
import Mathlib.Order.WithBot

/-!
# Candles of trades

Trades on a pair are aggregated into candles: they are put in the order of their time, their slot
and their place in it, and each is added to the last candle or opens a new one. Prices are fractions
in lowest terms.

A trade that is valid makes a candle of its own, and candles of one interval are combined. The loop
of the source is seen to be the fold that combines, over the trades in order; there prices are
rational numbers, of which the fractions in lowest terms are the images.
-/

namespace AriOs.Market

open AriOs.Js AriOs.Storage

/-- An exact price. -/
structure Rational where
  numerator : Int
  denominator : Int
  deriving DecidableEq

/-- The loop of `gcd`. -/
def gcdLoop (a b : Nat) : Nat := if b = 0 then a else gcdLoop b (a % b)
termination_by b
decreasing_by exact Nat.mod_lt _ (Nat.pos_of_ne_zero (by assumption))

def gcd (a b : Int) : Nat := gcdLoop a.natAbs b.natAbs

/-- Reduces to lowest terms. The division of the source truncates. -/
def rational (n d : Int) : Except String Rational := do
  throwIf (d ≤ 0) "denominator must be positive"
  .ok { numerator := n.tdiv (gcd n d), denominator := d.tdiv (gcd n d) }

structure MarketTrade where
  id : String
  timestamp : JsNumber
  price : Rational
  baseAmount : Int
  quoteAmount : Int
  slot : Int
  sequence : JsNumber

/-- A candle, over fractions in the source. -/
@[ext]
structure Candle (π : Type) where
  start : Int
  finish : JsNumber
  opening : π
  high : π
  low : π
  close : π
  baseVolume : Int
  quoteVolume : Int
  trades : Int
  deriving DecidableEq

/-- `valid`. -/
def validPrice (r : Rational) : Bool := 0 < r.numerator && 0 < r.denominator

/-- `compare`. -/
def comparePrices (a b : Rational) : Int :=
  a.numerator * b.denominator - b.numerator * a.denominator

def canonical (r : Rational) : Except String Rational := rational r.numerator r.denominator

/-- The sign of a difference that is not zero; the comparison goes on if it is zero or not a
number. -/
def signOf (n : JsNumber) : Ordering :=
  if n.lt (.ofInt 0) then .lt else if (JsNumber.ofInt 0).lt n then .gt else .eq

/-- The comparison that trades are sorted by. -/
def compareTrades (localeCompare : String → String → Ordering) (a b : MarketTrade) : Ordering :=
  (signOf (a.timestamp.sub b.timestamp)).then <|
    (compare a.slot b.slot).then <|
      (signOf (a.sequence.sub b.sequence)).then <| localeCompare a.id b.id

/-- The trades whose id has not been seen before. -/
def dedupe : List String → List MarketTrade → List MarketTrade
  | _, [] => []
  | seen, t :: ts => if t.id ∈ seen then dedupe seen ts else t :: dedupe (t.id :: seen) ts

def sortTrades (localeCompare : String → String → Ordering) (trades : List MarketTrade) :
    List MarketTrade :=
  trades.insertionSort fun a b => (compareTrades localeCompare a b).isLE = true

/-- `Number.isSafeInteger`, with the integer. -/
def safeInteger (n : JsNumber) : Option Int := if n.isSafeInteger then n.toBigInt? else none

/-- `start + interval`, a double. -/
def finishOf (start interval : Int) : JsNumber := (JsNumber.ofInt (start + interval)).rounded

/-- A trade is added to a candle. -/
def addTo (c : Candle Rational) (p : Rational) (t : MarketTrade) : Candle Rational :=
  { c with
    high := if 0 < comparePrices p c.high then p else c.high
    low := if comparePrices p c.low < 0 then p else c.low
    close := p
    baseVolume := c.baseVolume + t.baseAmount
    quoteVolume := c.quoteVolume + t.quoteAmount
    trades := c.trades + 1 }

/-- The body of the loop: a trade is added to the last candle or opens a new one. -/
def addTrade (interval : Int) (out : List (Candle Rational)) (t : MarketTrade) :
    Except String (List (Candle Rational)) := do
  let timestamp ← orThrow (safeInteger t.timestamp) "timestamp must be non-negative"
  throwIf (timestamp < 0) "timestamp must be non-negative"
  throwIf (validPrice t.price = false) "price must be positive"
  throwIf (t.baseAmount < 0 ∨ t.quoteAmount < 0) "volumes must be non-negative"
  let start := timestamp / interval * interval
  let p ← canonical t.price
  let fresh : Candle Rational :=
    { start, finish := finishOf start interval, opening := p, high := p, low := p, close := p,
      baseVolume := 0, quoteVolume := 0, trades := 0 }
  match out.getLast? with
  | some c =>
    if c.start = start then .ok (out.dropLast ++ [addTo c p t])
    else .ok (out ++ [addTo fresh p t])
  | none => .ok [addTo fresh p t]

def checkInterval (intervalSeconds : JsNumber) : Except String Int := do
  let interval ← orThrow (safeInteger intervalSeconds) "interval must be a positive integer"
  throwIf (interval ≤ 0) "interval must be a positive integer"
  .ok interval

def aggregateCandles (localeCompare : String → String → Ordering) (input : List MarketTrade)
    (intervalSeconds : JsNumber) : Except String (List (Candle Rational)) := do
  let interval ← checkInterval intervalSeconds
  (sortTrades localeCompare (dedupe [] input)).foldlM (addTrade interval) []

/-! ### Analytics -/

/-- The variables of the loop. -/
structure Totals where
  tradeCount : Int
  baseVolume : Int
  quoteVolume : Int
  low : Option Rational
  high : Option Rational

structure MarketReport extends Totals where
  vwap : Option Rational
  activeLiquidity : Int
  quotePerLiquidity : Option Rational

/-- The loop over the trades. -/
def totals : List String → Totals → List MarketTrade → Except String Totals
  | _, acc, [] => .ok acc
  | seen, acc, t :: ts =>
    if t.id ∈ seen then totals seen acc ts
    else do
      throwIf (validPrice t.price = false) "price must be positive"
      let p ← canonical t.price
      totals (t.id :: seen)
        { tradeCount := acc.tradeCount + 1
          baseVolume := acc.baseVolume + t.baseAmount
          quoteVolume := acc.quoteVolume + t.quoteAmount
          low := if acc.low.all fun low => comparePrices t.price low < 0 then some p else acc.low
          high := if acc.high.all fun high => 0 < comparePrices t.price high then some p
            else acc.high } ts

/-- `d ? rational(n, d) : null`. -/
def ratio (n d : Int) : Except String (Option Rational) :=
  if d = 0 then .ok none else some <$> rational n d

def marketAnalytics (trades : List MarketTrade) (activeLiquidity : Int) :
    Except String MarketReport := do
  throwIf (activeLiquidity < 0) "liquidity must be non-negative"
  let acc ← totals []
    { tradeCount := 0, baseVolume := 0, quoteVolume := 0, low := none, high := none } trades
  let vwap ← ratio acc.quoteVolume acc.baseVolume
  let quotePerLiquidity ← ratio acc.quoteVolume activeLiquidity
  .ok { acc with vwap, activeLiquidity, quotePerLiquidity }

/-! ### Prices -/

section Prices

variable {a b n d : Int} {r s : Rational} {p q : ℚ}

theorem gcdLoop_eq (a b : Nat) : gcdLoop a b = Nat.gcd a b := by
  induction b using Nat.strong_induction_on generalizing a with
  | _ b ih =>
    rw [gcdLoop]
    split
    · rename_i hb
      rw [hb, Nat.gcd_zero_right]
    · rename_i hb
      rw [ih (a % b) (Nat.mod_lt _ (Nat.pos_of_ne_zero hb)), Nat.gcd_comm b, ← Nat.gcd_rec,
        Nat.gcd_comm]

theorem gcd_eq : gcd a b = Int.gcd a b := gcdLoop_eq _ _

/-- The value of a price. -/
def Rational.value (r : Rational) : ℚ := r.numerator / r.denominator

/-- The fraction in lowest terms. -/
def ofRat (q : ℚ) : Rational := ⟨q.num, q.den⟩

theorem rational_eq_ok (hd : 0 < d) : rational n d = .ok (ofRat (n / d)) := by
  have hg : 0 < Int.gcd n d := Int.gcd_pos_of_ne_zero_right n hd.ne'
  have hgd : (Int.gcd n d : Int) ∣ d := Int.gcd_dvd_right ..
  have hgn : (Int.gcd n d : Int) ∣ n := Int.gcd_dvd_left ..
  have hpos : 0 < d / Int.gcd n d := Int.ediv_pos_of_pos_of_dvd hd (Int.natCast_nonneg _) hgd
  have hcoprime : Nat.Coprime (n / Int.gcd n d).natAbs (d / Int.gcd n d).natAbs :=
    Int.gcd_div_gcd_div_gcd hg
  have hvalue : (n : ℚ) / d = ((n / Int.gcd n d : Int) : ℚ) / ((d / Int.gcd n d : Int) : ℚ) := by
    have hgq : ((Int.gcd n d : Int) : ℚ) ≠ 0 := by exact_mod_cast hg.ne'
    rw [Int.cast_div hgn hgq, Int.cast_div hgd hgq, div_div_div_cancel_right₀ hgq]
  simp only [rational, bind_eq_ok, throwIf_eq_ok, not_le]
  refine ⟨(), hd, congrArg Except.ok ?_⟩
  rw [ofRat, gcd_eq, Int.tdiv_eq_ediv_of_dvd hgn, Int.tdiv_eq_ediv_of_dvd hgd, hvalue,
    Rat.num_div_eq_of_coprime hpos hcoprime, Rat.den_div_eq_of_coprime hpos hcoprime]

theorem validPrice_iff : validPrice r = true ↔ 0 < r.numerator ∧ 0 < r.denominator := by
  simp [validPrice]

/-- A price in lowest terms is the image of its value. -/
theorem canonical_eq_ok (h : validPrice r = true) : canonical r = .ok (ofRat r.value) :=
  rational_eq_ok (validPrice_iff.mp h).2

theorem value_ofRat (q : ℚ) : (ofRat q).value = q := Rat.num_div_den q

theorem comparePrices_pos (hr : 0 < r.denominator) (hs : 0 < s.denominator) :
    0 < comparePrices r s ↔ s.value < r.value := by
  have hr' : (0 : ℚ) < r.denominator := by exact_mod_cast hr
  have hs' : (0 : ℚ) < s.denominator := by exact_mod_cast hs
  rw [comparePrices, sub_pos, Rational.value, Rational.value, div_lt_div_iff₀ hs' hr']
  exact_mod_cast Iff.rfl

theorem comparePrices_swap : comparePrices s r = -comparePrices r s := by
  rw [comparePrices, comparePrices, neg_sub]

theorem comparePrices_neg (hr : 0 < r.denominator) (hs : 0 < s.denominator) :
    comparePrices r s < 0 ↔ r.value < s.value := by
  rw [← comparePrices_pos hs hr, comparePrices_swap (r := s) (s := r), neg_lt_zero]

theorem denominator_ofRat_pos (q : ℚ) : 0 < (ofRat q).denominator := Int.natCast_pos.mpr q.pos

end Prices

/-! ### The order of the trades -/

/-- A trade that is valid: its time is a whole number of seconds, its price is positive, its
volumes are not negative and its place in the slot is a number. -/
structure MarketTrade.Valid (t : MarketTrade) : Prop where
  timestamp : ∃ i, safeInteger t.timestamp = some i ∧ 0 ≤ i
  price : validPrice t.price = true
  baseAmount : 0 ≤ t.baseAmount
  quoteAmount : 0 ≤ t.quoteAmount
  sequence : t.sequence ≠ .nan

/-- The numbers in their order. -/
def rank : JsNumber → WithBot (WithTop ℚ)
  | .finite q => ((q : WithTop ℚ) : WithBot (WithTop ℚ))
  | .infinity true => ⊥
  | .infinity false => ((⊤ : WithTop ℚ) : WithBot (WithTop ℚ))
  | .nan => ⊥

section Ordered

variable {localeCompare : String → String → Ordering} {a b : MarketTrade}
  {trades trades' : List MarketTrade}

theorem signOf_finite (q : ℚ) :
    signOf (.finite q) = if q < 0 then .lt else if 0 < q then .gt else .eq := by
  simp [signOf, JsNumber.ofInt, JsNumber.lt_finite]

/-- The sign of a difference tells how the numbers compare. -/
theorem signOf_sub {m n : JsNumber} (hm : m ≠ .nan) (hn : n ≠ .nan) :
    signOf (m.sub n) = compare (rank m) (rank n) := by
  rcases m with _ | ⟨_ | _⟩ | p <;> rcases n with _ | ⟨_ | _⟩ | q
  all_goals try exact absurd rfl hm
  all_goals try exact absurd rfl hn
  -- the difference of equal infinities is no number, whose sign is zero
  case infinity.false.infinity.false | infinity.true.infinity.true =>
    exact (compare_eq_iff_eq.mpr rfl).symm
  case infinity.false.infinity.true | finite.infinity.true =>
    exact (compare_gt_iff_gt.mpr (by simp [rank])).symm
  case infinity.true.infinity.false | infinity.true.finite =>
    exact (compare_lt_iff_lt.mpr (by simp [rank])).symm
  case infinity.false.finite =>
    exact (compare_gt_iff_gt.mpr (WithBot.coe_lt_coe.mpr (WithTop.coe_lt_top q))).symm
  case finite.infinity.false =>
    exact (compare_lt_iff_lt.mpr (WithBot.coe_lt_coe.mpr (WithTop.coe_lt_top p))).symm
  case finite.finite =>
    rw [JsNumber.sub_finite, signOf_finite]
    rcases lt_trichotomy p q with hlt | rfl | hgt
    · rw [if_pos (sub_neg.mpr hlt)]
      exact (compare_lt_iff_lt.mpr (by simpa [rank] using hlt)).symm
    · rw [sub_self, if_neg (lt_irrefl 0), if_neg (lt_irrefl 0)]
      exact (compare_eq_iff_eq.mpr rfl).symm
    · rw [if_neg (sub_pos.mpr hgt).not_gt, if_pos (sub_pos.mpr hgt)]
      exact (compare_gt_iff_gt.mpr (by simpa [rank] using hgt)).symm

/-- The comparison as one on all trades. -/
def compareKeys (localeCompare : String → String → Ordering) : MarketTrade → MarketTrade →
    Ordering :=
  compareLex (fun a b => compare (rank a.timestamp) (rank b.timestamp)) <|
    compareLex (fun a b => compare a.slot b.slot) <|
      compareLex (fun a b => compare (rank a.sequence) (rank b.sequence)) fun a b =>
        localeCompare a.id b.id

theorem MarketTrade.Valid.timestamp_ne_nan {t : MarketTrade} (h : t.Valid) :
    t.timestamp ≠ .nan := by
  obtain ⟨i, hi, -⟩ := h.timestamp
  rintro hnan
  rw [hnan] at hi
  cases hi

theorem compareTrades_eq (ha : a.Valid) (hb : b.Valid) :
    compareTrades localeCompare a b = compareKeys localeCompare a b := by
  rw [compareTrades, signOf_sub ha.timestamp_ne_nan hb.timestamp_ne_nan,
    signOf_sub ha.sequence hb.sequence]
  rfl

/-- Valid trades are sorted by the comparison on all trades. -/
theorem sortTrades_eq (h : ∀ t ∈ trades, t.Valid) : sortTrades localeCompare trades =
    trades.insertionSort fun a b => (compareKeys localeCompare a b).isLE = true := by
  have hmap := List.map_insertionSort (r := fun a b => (compareTrades localeCompare a b).isLE = true)
    (s := fun a b => (compareKeys localeCompare a b).isLE = true) id trades
    fun a ha b hb => by rw [compareTrades_eq (h a ha) (h b hb)]; rfl
  rwa [List.map_id, List.map_id] at hmap

theorem sortTrades_perm : (sortTrades localeCompare trades).Perm trades :=
  List.perm_insertionSort _ _

theorem dedupe_eq_self {seen : List String} (hids : (trades.map MarketTrade.id).Nodup)
    (hseen : ∀ t ∈ trades, t.id ∉ seen) : dedupe seen trades = trades := by
  induction trades generalizing seen with
  | nil => rfl
  | cons t ts ih =>
    obtain ⟨ht, hts⟩ := List.nodup_cons.mp hids
    obtain ⟨htseen, hseen⟩ := List.forall_mem_cons.mp hseen
    rw [dedupe, if_neg htseen, ih hts]
    intro t' ht' hmem
    rcases List.mem_cons.mp hmem with heq | hmem
    · exact ht (List.mem_map.mpr ⟨t', ht', heq⟩)
    · exact hseen t' ht' hmem

variable [Std.TransCmp localeCompare]

instance : Std.TransCmp (compareKeys localeCompare) := by
  have hids : Std.TransCmp fun a b : MarketTrade => localeCompare a.id b.id :=
    { eq_swap := Std.OrientedCmp.eq_swap, isLE_trans := Std.TransCmp.isLE_trans }
  have htimes : Std.TransCmp fun a b : MarketTrade => compare (rank a.timestamp) (rank b.timestamp) :=
    inferInstanceAs (Std.TransCmp (compareOn fun t : MarketTrade => rank t.timestamp))
  have hslots : Std.TransCmp fun a b : MarketTrade => compare a.slot b.slot :=
    inferInstanceAs (Std.TransCmp (compareOn fun t : MarketTrade => t.slot))
  have hplaces : Std.TransCmp fun a b : MarketTrade => compare (rank a.sequence) (rank b.sequence) :=
    inferInstanceAs (Std.TransCmp (compareOn fun t : MarketTrade => rank t.sequence))
  unfold compareKeys
  infer_instance

theorem compareKeys_swap (a b : MarketTrade) :
    compareKeys localeCompare a b = (compareKeys localeCompare b a).swap :=
  Std.OrientedCmp.eq_swap

instance : Std.Total fun a b : MarketTrade => (compareKeys localeCompare a b).isLE = true where
  total a b := by
    rw [compareKeys_swap b a]
    cases compareKeys localeCompare a b <;> simp

instance : IsTrans MarketTrade fun a b => (compareKeys localeCompare a b).isLE = true where
  trans _ _ _ := Std.TransCmp.isLE_trans

/-- Valid trades are sorted by their time. -/
theorem sortTrades_pairwise (h : ∀ t ∈ trades, t.Valid) :
    (sortTrades localeCompare trades).Pairwise fun a b => rank a.timestamp ≤ rank b.timestamp := by
  rw [sortTrades_eq h]
  refine (List.pairwise_insertionSort _ trades).imp fun {a b} hle => ?_
  have hfirst : (compare (rank a.timestamp) (rank b.timestamp)).isLE = true := by
    rw [compareKeys, compareLex, Ordering.isLE_then_iff_and] at hle
    exact hle.1
  exact compare_le_iff_le.mp (Ordering.isLE_iff_ne_gt.mp hfirst)

/-- Trades with ids of their own are in one order only. -/
theorem sortTrades_eq_of_perm [Std.LawfulEqCmp localeCompare] (h : ∀ t ∈ trades, t.Valid)
    (hids : (trades.map MarketTrade.id).Nodup) (hperm : trades'.Perm trades) :
    sortTrades localeCompare trades' = sortTrades localeCompare trades := by
  rw [sortTrades_eq h, sortTrades_eq fun t ht => h t (hperm.subset ht)]
  refine List.Perm.eq_of_pairwise (fun a b ha hb hab hba => ?_)
    (List.pairwise_insertionSort _ _) (List.pairwise_insertionSort _ _)
    ((List.perm_insertionSort _ _).trans (hperm.trans (List.perm_insertionSort _ _).symm))
  have heq : compareKeys localeCompare a b = .eq := by
    rw [compareKeys_swap] at hba
    revert hab hba
    cases compareKeys localeCompare a b <;> simp
  have hid : localeCompare a.id b.id = .eq := by
    simp only [compareKeys, compareLex_eq_eq] at heq
    exact heq.2.2.2
  exact List.inj_on_of_nodup_map hids
    (hperm.subset ((List.mem_insertionSort _).mp ha)) ((List.mem_insertionSort _).mp hb)
    (Std.LawfulEqCmp.compare_eq_iff_eq.mp hid)

end Ordered

/-! ### Candles of rational prices -/

/-- The candle with other prices. -/
def Candle.mapPrice {π ρ : Type} (f : π → ρ) (c : Candle π) : Candle ρ :=
  { c with opening := f c.opening, high := f c.high, low := f c.low, close := f c.close }

/-- The seconds of a trade. -/
def MarketTrade.seconds (t : MarketTrade) : Int := (safeInteger t.timestamp).getD 0

/-- The candle of one trade. -/
def single (interval : Int) (t : MarketTrade) : Candle ℚ where
  start := t.seconds / interval * interval
  finish := finishOf (t.seconds / interval * interval) interval
  opening := t.price.value
  high := t.price.value
  low := t.price.value
  close := t.price.value
  baseVolume := t.baseAmount
  quoteVolume := t.quoteAmount
  trades := 1

/-- Two candles in one. -/
def combine (c d : Candle ℚ) : Candle ℚ :=
  { c with
    high := max c.high d.high
    low := min c.low d.low
    close := d.close
    baseVolume := c.baseVolume + d.baseVolume
    quoteVolume := c.quoteVolume + d.quoteVolume
    trades := c.trades + d.trades }

/-- The candles of trades that are in order. -/
def bars (interval : Int) (trades : List MarketTrade) : List (Candle ℚ) :=
  Runs.compress Candle.start combine (trades.map (single interval))

section Bars

variable {interval : Int} {t : MarketTrade} {trades : List MarketTrade} {out : List (Candle ℚ)}
  {c : Candle ℚ}

theorem combine_assoc (c d e : Candle ℚ) :
    combine (combine c d) e = combine c (combine d e) := by
  simp only [combine, max_assoc, min_assoc, add_assoc]

theorem ite_comparePrices_pos (p q : ℚ) :
    (if 0 < comparePrices (ofRat p) (ofRat q) then ofRat p else ofRat q) = ofRat (max q p) := by
  rw [max_def_lt, ← apply_ite ofRat]
  simp only [comparePrices_pos (denominator_ofRat_pos p) (denominator_ofRat_pos q), value_ofRat]

theorem ite_comparePrices_neg (p q : ℚ) :
    (if comparePrices (ofRat p) (ofRat q) < 0 then ofRat p else ofRat q) = ofRat (min q p) := by
  rw [min_comm, min_def_lt, ← apply_ite ofRat]
  simp only [comparePrices_neg (denominator_ofRat_pos p) (denominator_ofRat_pos q), value_ofRat]

/-- Adding a trade to a candle is combining it with the candle of the trade. -/
theorem addTo_mapPrice (interval : Int) (t : MarketTrade) (c : Candle ℚ) :
    addTo (c.mapPrice ofRat) (ofRat t.price.value) t =
      (combine c (single interval t)).mapPrice ofRat :=
  Candle.ext rfl rfl rfl (ite_comparePrices_pos _ _) (ite_comparePrices_neg _ _) rfl rfl rfl rfl

theorem MarketTrade.Valid.safeInteger_eq (h : t.Valid) :
    safeInteger t.timestamp = some t.seconds ∧ 0 ≤ t.seconds := by
  obtain ⟨i, hi, h0⟩ := h.timestamp
  rw [seconds, hi]
  exact ⟨rfl, h0⟩

/-- One turn of the loop, on a trade that is valid. -/
theorem addTrade_eq (h : t.Valid) : addTrade interval (out.map (Candle.mapPrice ofRat)) t =
    .ok ((Runs.push Candle.start combine out (single interval t)).map
      (Candle.mapPrice ofRat)) := by
  obtain ⟨htime, h0⟩ := h.safeInteger_eq
  -- a trade that is added to the empty candle at its own price makes the bar of one trade
  have hopen : addTo
      { start := t.seconds / interval * interval
        finish := finishOf (t.seconds / interval * interval) interval
        opening := ofRat t.price.value
        high := ofRat t.price.value
        low := ofRat t.price.value
        close := ofRat t.price.value
        baseVolume := 0
        quoteVolume := 0
        trades := 0 } (ofRat t.price.value) t = (single interval t).mapPrice ofRat := by
    simp [addTo, Candle.mapPrice, single]
  simp only [addTrade, htime, orThrow, throwIf, if_neg (not_lt.mpr h0), h.price,
    if_neg (not_or.mpr ⟨not_lt.mpr h.baseAmount, not_lt.mpr h.quoteAmount⟩),
    canonical_eq_ok h.price, Bool.true_eq_false, if_false, bind, Except.bind, hopen]
  rcases List.eq_nil_or_concat out with rfl | ⟨out, c, rfl⟩
  · rfl
  · rw [List.concat_eq_append, List.map_append, List.map_singleton, List.getLast?_concat]
    -- the last bar is the one of this trade, or a new one is begun
    by_cases hstart : c.start = (single interval t).start
    · rw [Runs.push_of_eq hstart, List.map_append, List.map_singleton, List.dropLast_concat,
        ← addTo_mapPrice interval]
      exact if_pos hstart
    · rw [Runs.push_of_ne hstart, List.map_append, List.map_append, List.map_singleton,
        List.map_singleton]
      exact if_neg hstart

/-- The loop, on trades that are valid. -/
theorem foldlM_addTrade (h : ∀ t ∈ trades, t.Valid) :
    trades.foldlM (addTrade interval) [] =
      .ok ((bars interval trades).map (Candle.mapPrice ofRat)) := by
  induction trades using List.reverseRecOn with
  | nil => rfl
  | append_singleton ts t ih =>
    rw [List.forall_mem_append, List.forall_mem_singleton] at h
    have hbars : bars interval (ts ++ [t]) =
        Runs.push Candle.start combine (bars interval ts) (single interval t) := by
      rw [bars, List.map_append, List.map_singleton, Runs.compress_concat]
      rfl
    rw [List.foldlM_append, ih h.1, hbars]
    simp only [List.foldlM_cons, List.foldlM_nil, bind, Except.bind, addTrade_eq h.2]
    rfl

theorem checkInterval_eq_ok {n : JsNumber} :
    checkInterval n = .ok interval ↔ safeInteger n = some interval ∧ 0 < interval := by
  simp only [checkInterval, bind_eq_ok, orThrow_eq_ok, throwIf_eq_ok, not_le]
  constructor
  · rintro ⟨i, hi, -, hpos, heq⟩
    obtain rfl := Except.ok.inj heq
    exact ⟨hi, hpos⟩
  · rintro ⟨hi, hpos⟩
    exact ⟨interval, hi, (), hpos, rfl⟩

/-- The candles are those of the trades in order, combined. -/
theorem aggregateCandles_eq {localeCompare : String → String → Ordering} {n : JsNumber}
    (hn : checkInterval n = .ok interval) (h : ∀ t ∈ trades, t.Valid)
    (hids : (trades.map MarketTrade.id).Nodup) :
    aggregateCandles localeCompare trades n =
      .ok ((bars interval (sortTrades localeCompare trades)).map (Candle.mapPrice ofRat)) := by
  simp only [aggregateCandles, hn, dedupe_eq_self hids fun _ _ => List.not_mem_nil, bind,
    Except.bind]
  exact foldlM_addTrade fun t ht => h t (sortTrades_perm.subset ht)

end Bars

/-! ### Totals of valid trades -/

section Analytics

variable {t : MarketTrade} {trades : List MarketTrade} {seen : List String} {low high : Option ℚ}
  {n b q : Int}

/-- The best of some prices and the one there is already, if any. -/
def bestFrom (best : ℚ → ℚ → ℚ) (old : Option ℚ) (prices : List ℚ) : Option ℚ :=
  prices.foldl (fun old p => some (old.elim p (best · p))) old

theorem bestFrom_some (best : ℚ → ℚ → ℚ) (p : ℚ) (prices : List ℚ) :
    bestFrom best (some p) prices = some (prices.foldl best p) := by
  induction prices generalizing p with
  | nil => rfl
  | cons p' prices ih => exact ih (best p p')

theorem bestFrom_min (prices : List ℚ) : bestFrom min none prices = prices.min? := by
  cases prices with
  | nil => rfl
  | cons p prices => exact bestFrom_some min p prices

theorem bestFrom_max (prices : List ℚ) : bestFrom max none prices = prices.max? := by
  cases prices with
  | nil => rfl
  | cons p prices => exact bestFrom_some max p prices

theorem low_step (h : validPrice t.price = true) :
    (if (low.map ofRat).all fun low => comparePrices t.price low < 0
      then some (ofRat t.price.value) else low.map ofRat) =
      (some (low.elim t.price.value (min · t.price.value))).map ofRat := by
  cases low with
  | none => rfl
  | some m =>
    have hlt := comparePrices_neg (validPrice_iff.mp h).2 (denominator_ofRat_pos m)
    rw [value_ofRat] at hlt
    simp only [Option.map_some, Option.all_some, hlt, decide_eq_true_eq, Option.elim_some]
    rw [min_comm, min_def_lt]
    split <;> rfl

theorem high_step (h : validPrice t.price = true) :
    (if (high.map ofRat).all fun high => 0 < comparePrices t.price high
      then some (ofRat t.price.value) else high.map ofRat) =
      (some (high.elim t.price.value (max · t.price.value))).map ofRat := by
  cases high with
  | none => rfl
  | some m =>
    have hlt := comparePrices_pos (validPrice_iff.mp h).2 (denominator_ofRat_pos m)
    rw [value_ofRat] at hlt
    simp only [Option.map_some, Option.all_some, hlt, decide_eq_true_eq, Option.elim_some]
    rw [max_def_lt]
    split <;> rfl

/-- The loop, on valid trades with ids of their own. -/
theorem totals_eq (h : ∀ t ∈ trades, t.Valid) (hids : (trades.map MarketTrade.id).Nodup)
    (hseen : ∀ t ∈ trades, t.id ∉ seen) :
    totals seen ⟨n, b, q, low.map ofRat, high.map ofRat⟩ trades =
      .ok ⟨n + trades.length, b + (trades.map MarketTrade.baseAmount).sum,
        q + (trades.map MarketTrade.quoteAmount).sum,
        (bestFrom min low (trades.map fun t => t.price.value)).map ofRat,
        (bestFrom max high (trades.map fun t => t.price.value)).map ofRat⟩ := by
  induction trades generalizing seen n b q low high with
  | nil => simp [totals, bestFrom]
  | cons t ts ih =>
    obtain ⟨ht, hts⟩ := List.forall_mem_cons.mp h
    obtain ⟨hid, hids⟩ := List.nodup_cons.mp hids
    obtain ⟨htseen, hseen⟩ := List.forall_mem_cons.mp hseen
    -- the ids are all different
    have hseen' : ∀ t' ∈ ts, t'.id ∉ t.id :: seen := by
      intro t' ht' hmem
      rcases List.mem_cons.mp hmem with heq | hmem
      · exact hid (List.mem_map.mpr ⟨t', ht', heq⟩)
      · exact hseen t' ht' hmem
    rw [totals, if_neg htseen]
    simp only [throwIf, ht.price, Bool.true_eq_false, if_false, canonical_eq_ok ht.price, bind,
      Except.bind, low_step ht.price, high_step ht.price]
    rw [ih hts hids hseen']
    simp only [List.map_cons, List.sum_cons, List.length_cons, bestFrom,
      List.foldl_cons, Nat.cast_add, Nat.cast_one, add_assoc, add_comm (1 : Int)]

theorem exists_ratio (h : 0 ≤ b) : ∃ r, ratio q b = .ok r := by
  rw [ratio]
  split
  · exact ⟨_, rfl⟩
  · rename_i hne
    rw [rational_eq_ok (lt_of_le_of_ne h (Ne.symm hne))]
    exact ⟨_, rfl⟩

/-- The totals and the range of valid trades. -/
theorem marketAnalytics_eq {activeLiquidity : Int} (hliquidity : 0 ≤ activeLiquidity)
    (h : ∀ t ∈ trades, t.Valid) (hids : (trades.map MarketTrade.id).Nodup) :
    ∃ report, marketAnalytics trades activeLiquidity = .ok report ∧
      report.tradeCount = trades.length ∧
      report.baseVolume = (trades.map MarketTrade.baseAmount).sum ∧
      report.quoteVolume = (trades.map MarketTrade.quoteAmount).sum ∧
      report.low = ((trades.map fun t => t.price.value).min?).map ofRat ∧
      report.high = ((trades.map fun t => t.price.value).max?).map ofRat := by
  have htotals := @totals_eq trades [] none none 0 0 0 h hids fun _ _ => List.not_mem_nil
  simp only [zero_add, bestFrom_min, bestFrom_max] at htotals
  have hbase : 0 ≤ (trades.map MarketTrade.baseAmount).sum := List.sum_nonneg fun x hx => by
    obtain ⟨t, ht, rfl⟩ := List.mem_map.mp hx
    exact (h t ht).baseAmount
  obtain ⟨vwap, hvwap⟩ := exists_ratio (q := (trades.map MarketTrade.quoteAmount).sum) hbase
  obtain ⟨perLiquidity, hper⟩ := exists_ratio (q := (trades.map MarketTrade.quoteAmount).sum)
    hliquidity
  refine ⟨⟨⟨_, _, _, _, _⟩, vwap, activeLiquidity, perLiquidity⟩, ?_, rfl, rfl, rfl, rfl, rfl⟩
  simp only [marketAnalytics, bind_eq_ok, throwIf_eq_ok, not_lt]
  exact ⟨(), hliquidity, _, htotals, vwap, hvwap, perLiquidity, hper, rfl⟩

end Analytics

end AriOs.Market
