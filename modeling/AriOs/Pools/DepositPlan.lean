import AriOs.Arith.Apportion
import AriOs.Js.Throw
import AriOs.Pools.Rebalance
import Mathlib.Data.List.Chain
import Mathlib.Data.List.Sort

/-!
# Laying out a deposit over bins

A deposit is spread over the bins of a range that its side may fund: the bins up to the active
one for the quote, the bins from the active one on for the base. Each bin has a weight, which is
a double; the weights are scaled and rounded to integers, and the amount is split by these.

What doubles do where they round is left to the host. Of it only this is used: whole steps within
the limits of the protocol are exact, a step never goes down, and a weight that is not negative
does not become so when it is scaled.
-/

namespace AriOs.Pools.Rebalance

open AriOs.Arith AriOs.Js

/-! ### Numbers that are rounded -/

/-- What the host makes of the operations on doubles whose rounding has a say here. -/
structure Doubles where
  /-- `b + 1`, as a loop counts. -/
  succ : JsNumber → JsNumber
  /-- `Math.exp(a)`. -/
  exp : JsNumber → JsNumber
  /-- `weights.reduce((a, b) => a + b, 0)`. -/
  sum : List JsNumber → JsNumber
  /-- `Math.round((w / floatSum) * Number(WEIGHT_SCALE))`. -/
  scale : ℚ → ℚ → JsNumber
  succ_ofInt : ∀ i : ℤ, MIN_BIN_ID ≤ i → i ≤ MAX_BIN_ID → succ (.ofInt i) = .ofInt (i + 1)
  le_succ : ∀ b : JsNumber, b ≠ .nan → b.le (succ b) = true
  scale_nonneg : ∀ {w s : ℚ} {n : ℤ}, 0 ≤ w → 0 < s → (scale w s).toBigInt? = some n → 0 ≤ n

/-! ### Shapes -/

inductive LiquidityShape where
  | spot
  | curve
  | bidAsk
  deriving DecidableEq

/-- `new Array(length)`. -/
def newArray (length : JsNumber) : Except PoolError ℕ :=
  match length.toBigInt? with
  | some n => if 0 ≤ n ∧ n < 2 ^ 32 then .ok n.toNat else .error (.other "Invalid array length")
  | none => .error (.other "Invalid array length")

/-- The length of `Array.from({ length })`. -/
def arrayFrom (length : JsNumber) : Except PoolError ℕ :=
  match length with
  | .nan | .infinity true => .ok 0
  | .infinity false => .error (.other "Invalid array length")
  | .finite q =>
    if q.floor < 2 ^ 32 then .ok q.floor.toNat else .error (.other "Invalid array length")

variable (host : Doubles)

/-- A gaussian with two of its widths at the edges of the range. -/
def curveWeight (lower centre span : JsNumber) (i : ℕ) : JsNumber :=
  let sigma := (span.div (.ofInt 4)).max (.finite (1 / 2))
  let z := ((lower.add (.ofInt i)).sub centre).div sigma
  (host.exp (((JsNumber.finite (-1 / 2)).mul z).mul z)).add (.finite (1 / 10 ^ 9))

/-- Thin at the centre, heavy at the edges. -/
def bidAskWeight (lower upper centre : JsNumber) (i : ℕ) : JsNumber :=
  let reach := ((centre.sub lower).max (upper.sub centre)).max (.ofInt 1)
  ((((lower.add (.ofInt i)).sub centre).abs).div reach).add (.finite (5 / 100))

/-- The weight of each bin of a range, not normalised. -/
def shapeWeights (shape : LiquidityShape) (range : BinRange) (activeBinId : JsNumber) :
    Except PoolError (List JsNumber) := do
  let span := binSpan range.lowerBinId range.upperBinId
  throwIf (span.le (.ofInt 0) = true)
    (.other s!"empty range {range.lowerBinId}..{range.upperBinId}")
  let centre := (activeBinId.max range.lowerBinId).min range.upperBinId
  match shape with
  | .spot => return List.replicate (← newArray span) (.ofInt 1)
  | .curve => return (List.range (← arrayFrom span)).map (curveWeight host range.lowerBinId centre span)
  | .bidAsk =>
    return (List.range (← arrayFrom span)).map
      (bidAskWeight range.lowerBinId range.upperBinId centre)

/-! ### The split -/

/-- What division cuts off a share, and of which one. -/
structure Remainder where
  rem : ℤ
  i : ℕ
  deriving DecidableEq

/-- The order the remainders are sorted in: the larger one first, ties as they stand. -/
def Remainder.before (a b : Remainder) : Prop := b.rem < a.rem ∨ a.rem = b.rem ∧ a.i ≤ b.i

instance : DecidableRel Remainder.before := fun a b =>
  inferInstanceAs (Decidable (b.rem < a.rem ∨ a.rem = b.rem ∧ a.i ≤ b.i))

/-- Where the loop over the remainders stands: those not visited, the shares and their sum. -/
structure Handout where
  left : List Remainder
  out : List ℤ
  assigned : ℤ
  deriving DecidableEq

/-- The loop over the remainders. -/
def handOut (total : ℤ) : List Remainder → List ℤ → ℤ → Handout
  | [], out, assigned => ⟨[], out, assigned⟩
  | r :: left, out, assigned =>
    if assigned < total then handOut total left (out.modify r.i (· + 1)) (assigned + 1)
    else ⟨r :: left, out, assigned⟩

/-- The whole parts of the shares, in the order of the weights. -/
def wholeShares (total : ℤ) (scaled : List ℤ) : List ℤ :=
  scaled.map fun w => (total * w).tdiv scaled.sum

/-- What is cut off them. -/
def cutOff (total : ℤ) (scaled : List ℤ) : List Remainder :=
  scaled.zipIdx.map fun (w, i) => ⟨(total * w).tmod scaled.sum, i⟩

/-- The split by integer weights, when its loop has ended. -/
def share (total : ℤ) (scaled : List ℤ) : Handout :=
  let out := wholeShares total scaled
  handOut total ((cutOff total scaled).insertionSort Remainder.before) out out.sum

/-- The sum of the weights, which has to be finite and positive. -/
def floatSum (weights : List JsNumber) : Except PoolError ℚ :=
  match host.sum weights with
  | .finite s =>
    if s ≤ 0 then .error (.other "weights must sum to a finite positive number") else .ok s
  | _ => .error (.other "weights must sum to a finite positive number")

/-- A weight as an integer. -/
def scaleWeight (floatSum : ℚ) (w : JsNumber) : Except PoolError ℤ :=
  match w with
  | .finite q =>
    if q < 0 then .error (.other s!"weight must be finite and non-negative, got {w}")
    else
      (host.scale q floatSum).bigInt .other
  | _ => .error (.other s!"weight must be finite and non-negative, got {w}")

/-- Split a total by weights. -/
def distributeAmount (total : ℤ) (weights : List JsNumber) : Except PoolError (List ℤ) := do
  throwIf (weights = []) (.other "cannot distribute across zero bins")
  throwIf (total < 0) (.other "total must be non-negative")
  let s ← floatSum host weights
  if total = 0 then return weights.map fun _ => 0
  let scaled ← weights.mapM (scaleWeight host s)
  throwIf (scaled.sum ≤ 0) (.other "weights round to zero at the working precision")
  return (share total scaled).out

/-! ### The plan -/

/-- The asset a deposit lays out. -/
inductive DepositAsset where
  | base
  | quote
  deriving DecidableEq

structure DepositArgs where
  range : BinRange
  activeBinId : JsNumber
  binStep : JsNumber
  shape : LiquidityShape
  amount : ℤ
  side : DepositAsset
  baseDecimals : ℤ
  quoteDecimals : ℤ

/-- What lands in a bin; the amount is undefined where the shares do not reach. -/
structure BinAllocation where
  binId : JsNumber
  uiPrice : ℚ
  amount : Option ℤ
  deriving DecidableEq

/-- The side may fund a bin: the quote up to the active bin, the base from there on. -/
def DepositArgs.eligible (args : DepositArgs) (b : JsNumber) : Bool :=
  match args.side with
  | .quote => b.le args.activeBinId
  | .base => args.activeBinId.le b

/-- The bins a loop counts from `b` to `upper`; `none` if it takes more turns. -/
def countUp (upper : JsNumber) : ℕ → JsNumber → Option (List JsNumber)
  | 0, _ => none
  | turns + 1, b =>
    if b.le upper then (countUp upper turns (host.succ b)).map (b :: ·) else some []

/-- The bins of the range that are eligible. -/
def DepositArgs.bins (args : DepositArgs) (turns : ℕ) : Option (List JsNumber) :=
  (countUp host args.range.upperBinId turns args.range.lowerBinId).map (·.filter args.eligible)

/-- The amounts of some bins. -/
def allocate (args : DepositArgs) : List JsNumber → Except PoolError (List BinAllocation)
  | [] => .ok []
  | first :: rest => do
    let subRange : BinRange := ⟨first, (first :: rest).getLast (by simp)⟩
    let weights ← shapeWeights host args.shape subRange args.activeBinId
    let amounts ← distributeAmount host args.amount weights
    (first :: rest).zipIdx.mapM fun (binId, i) => do
      let uiPrice ← uiPriceOfBin binId args.binStep args.baseDecimals args.quoteDecimals
      return ⟨binId, uiPrice, amounts[i]?⟩

/-- `planDeposit`; `none` if the loop over the range takes more turns. -/
def planDeposit (turns : ℕ) (args : DepositArgs) : Option (Except PoolError (List BinAllocation)) :=
  (args.bins host turns).map (allocate host args)

/-! ### The loop of the split -/

variable {total : ℤ} {ws : List ℤ}

instance : Std.Total Remainder.before := ⟨fun a b => by simp only [Remainder.before]; omega⟩

instance : IsTrans Remainder Remainder.before :=
  ⟨fun a b c => by simp only [Remainder.before]; omega⟩

/-- While there are remainders for what is missing, the loop hands out exactly that. -/
theorem handOut_eq {left : List Remainder} {out : List ℤ} {assigned : ℤ} (n : ℕ)
    (hn : n ≤ left.length) (htotal : assigned + n = total) :
    handOut total left out assigned =
      ⟨left.drop n, bump out ((left.take n).map Remainder.i), total⟩ := by
  induction n generalizing left out assigned with
  | zero =>
    obtain rfl : assigned = total := by simpa using htotal
    cases left with
    | nil => rfl
    | cons r left => exact if_neg (lt_irrefl assigned)
  | succ n ih =>
    cases left with
    | nil => simp at hn
    | cons r left =>
      push_cast at htotal
      rw [handOut, if_pos (by omega), ih (by simpa using hn) (by omega)]
      rfl

section Share

variable (htotal : 0 ≤ total) (hws : ∀ w ∈ ws, 0 ≤ w)
include htotal hws

/-- Nothing is negative, so division cuts off downwards. -/
theorem wholeShares_eq : wholeShares total ws = quotas total ws :=
  List.map_congr_left fun w hw => Int.tdiv_eq_ediv_of_nonneg (mul_nonneg htotal (hws w hw))

theorem rem_eq_getD {r : Remainder} (h : r ∈ cutOff total ws) :
    r.rem = (remainders total ws).getD r.i 0 := by
  obtain ⟨⟨w, i⟩, hmem, rfl⟩ := List.mem_map.mp h
  have hw : ws[i]? = some w := List.mem_zipIdx_iff_getElem?.mp hmem
  have hnonneg : 0 ≤ total * w := mul_nonneg htotal (hws w (List.mem_of_getElem? hw))
  simp only [List.getD, getElem?_remainders, hw, Option.map_some, Option.getD_some]
  exact Int.tmod_eq_emod_of_nonneg hnonneg

end Share

theorem map_i_cutOff : (cutOff total ws).map Remainder.i = List.range ws.length := by
  rw [cutOff, List.map_map, List.range_eq_range', ← List.zipIdx_map_snd 0 ws]
  rfl

/-- The loop ends because everything is handed out, before it runs out of remainders, and the
shares are an apportionment. -/
theorem share_spec (htotal : 0 ≤ total) (hws : ∀ w ∈ ws, 0 ≤ w) (hpos : 0 < ws.sum) :
    IsApportionment total ws (share total ws).out ∧ (share total ws).assigned = total ∧
      (share total ws).left ≠ [] := by
  have hnonneg : 0 ≤ leftover total ws := leftover_nonneg hpos
  have hlt : leftover total ws < ws.length := leftover_lt_length hpos
  set sorted := (cutOff total ws).insertionSort Remainder.before with hsorted
  have hperm : sorted.Perm (cutOff total ws) := List.perm_insertionSort _ _
  have hlength : sorted.length = ws.length := by
    rw [hperm.length_eq, cutOff, List.length_map, List.length_zipIdx]
  -- the remainders that come first get one more each, as many as units are left
  have hrun : share total ws = ⟨sorted.drop (leftover total ws).toNat,
      bump (quotas total ws) ((sorted.take (leftover total ws).toNat).map Remainder.i), total⟩ := by
    change handOut total sorted (wholeShares total ws) (wholeShares total ws).sum = _
    rw [wholeShares_eq htotal hws]
    refine handOut_eq _ (by omega) ?_
    rw [Int.toNat_of_nonneg hnonneg, leftover]
    omega
  -- the larger remainders come first, and so the positive ones
  have hfirst : (sorted.map Remainder.i).Pairwise fun i j =>
      0 < (remainders total ws).getD j 0 → 0 < (remainders total ws).getD i 0 := by
    rw [List.pairwise_map]
    refine (List.pairwise_insertionSort Remainder.before _).imp_of_mem fun ha hb hab hpos => ?_
    rw [← rem_eq_getD htotal hws (hperm.mem_iff.mp ha)]
    rw [← rem_eq_getD htotal hws (hperm.mem_iff.mp hb)] at hpos
    simp only [Remainder.before] at hab
    omega
  rw [hrun]
  refine ⟨?_, rfl, ?_⟩
  · rw [List.map_take]
    exact isApportionment_bump_take hpos (map_i_cutOff ▸ hperm.map Remainder.i) hfirst
  · rw [Ne, List.drop_eq_nil_iff]
    omega

/-! ### The split by doubles -/

variable {host} {weights : List JsNumber} {s : ℚ}

theorem floatSum_pos (h : floatSum host weights = .ok s) : 0 < s := by
  unfold floatSum at h
  split at h
  · split at h
    · cases h
    · obtain rfl := Except.ok.inj h
      exact not_le.mp ‹_›
  · cases h

theorem scaleWeight_nonneg {w : JsNumber} {n : ℤ} (hs : 0 < s)
    (h : scaleWeight host s w = .ok n) : 0 ≤ n := by
  unfold scaleWeight at h
  split at h
  · split at h
    · cases h
    · exact host.scale_nonneg (not_lt.mp ‹_›) hs (orThrow_eq_ok.mp h)
  · cases h

theorem scaled_nonneg (hs : floatSum host weights = .ok s)
    (hscaled : weights.mapM (scaleWeight host s) = .ok ws) : ∀ w ∈ ws, 0 ≤ w := by
  intro w hw
  obtain ⟨x, -, hx⟩ := exists_of_mem_mapM hscaled w hw
  exact scaleWeight_nonneg (floatSum_pos hs) hx

theorem length_scaled (hscaled : weights.mapM (scaleWeight host s) = .ok ws) :
    weights.length = ws.length :=
  (mapM_eq_ok_iff.mp hscaled).length_eq

/-- Whenever the weights can be scaled, what is returned is the split by them. -/
theorem distributeAmount_eq (htotal : 0 ≤ total) (hs : floatSum host weights = .ok s)
    (hscaled : weights.mapM (scaleWeight host s) = .ok ws) (hpos : 0 < ws.sum) :
    distributeAmount host total weights = .ok (share total ws).out := by
  have hne : weights ≠ [] := by
    rintro rfl
    obtain rfl : [] = ws := Except.ok.inj hscaled
    simp at hpos
  have hlt : ¬ total < 0 := by omega
  have hsum : ¬ ws.sum ≤ 0 := by omega
  simp only [distributeAmount, bind_eq_ok, throwIf_eq_ok]
  refine ⟨(), hne, (), hlt, s, hs, ?_⟩
  by_cases hzero : total = 0
  · subst hzero
    obtain ⟨happ, -⟩ := share_spec htotal (scaled_nonneg hs hscaled) hpos
    rw [happ.eq_replicate, ← length_scaled hscaled, ← List.map_const']
    rfl
  · rw [if_neg hzero]
    simp only [bind_eq_ok, throwIf_eq_ok]
    exact ⟨ws, hscaled, (), hsum, rfl⟩

/-- What is returned is one share for each weight, and they add up to the total. -/
theorem distributeAmount_spec {shares : List ℤ}
    (h : distributeAmount host total weights = .ok shares) :
    shares.length = weights.length ∧ shares.sum = total := by
  simp only [distributeAmount, bind_eq_ok, throwIf_eq_ok] at h
  obtain ⟨-, -, -, hnonneg, s, hs, h⟩ := h
  by_cases hzero : total = 0
  · rw [if_pos hzero] at h
    obtain rfl := Except.ok.inj h
    simp [hzero]
  · rw [if_neg hzero] at h
    simp only [bind_eq_ok, throwIf_eq_ok] at h
    obtain ⟨ws, hscaled, -, hsum, h⟩ := h
    obtain rfl := Except.ok.inj h
    obtain ⟨happ, -⟩ := share_spec (not_lt.mp hnonneg) (scaled_nonneg hs hscaled) (not_le.mp hsum)
    exact ⟨happ.length_eq.trans (length_scaled hscaled).symm, happ.sum_eq⟩

/-! ### The bins of a plan -/

variable {args : DepositArgs} {turns : ℕ} {bins : List JsNumber}

/-- A bin of the protocol. -/
def IsBin (b : JsNumber) : Prop := ∃ i : ℤ, b = .ofInt i ∧ MIN_BIN_ID ≤ i ∧ i ≤ MAX_BIN_ID

/-- Only bins of the protocol have a price. -/
theorem isBin_of_uiPriceOfBin {b binStep : JsNumber} {baseDecimals quoteDecimals : ℤ} {price : ℚ}
    (h : uiPriceOfBin b binStep baseDecimals quoteDecimals = .ok price) : IsBin b := by
  simp only [uiPriceOfBin, priceOfBin, bind_eq_ok] at h
  obtain ⟨-, ⟨-, -, id, hid, -⟩, -⟩ := h
  unfold assertBinId at hid
  split at hid
  · rename_i n hn
    split at hid
    · cases hid
    · exact ⟨n, JsNumber.eq_ofInt_of_toBigInt? hn, by omega⟩
  · cases hid

/-- What a loop has counted: one step after the other, and upwards. -/
theorem countUp_spec {upper b : JsNumber} (h : countUp host upper turns b = some bins) :
    bins.IsChain (fun x y => y = host.succ x) ∧ bins.Pairwise (fun x y => x.le y = true) ∧
      (∀ x ∈ bins, b.le x = true) ∧ ∀ x ∈ bins.head?, x = b := by
  induction turns generalizing b bins with
  | zero => cases h
  | succ turns ih =>
    rw [countUp] at h
    split at h
    · rename_i hle
      obtain ⟨rest, hrest, rfl⟩ := Option.map_eq_some_iff.mp h
      obtain ⟨hchain, hsorted, hbelow, hhead⟩ := ih hrest
      have hnan : b ≠ .nan := by
        rintro rfl
        simp [JsNumber.le, JsNumber.lt] at hle
      have hstep : ∀ x ∈ rest, b.le x = true := fun x hx =>
        JsNumber.le_trans (host.le_succ b hnan) (hbelow x hx)
      refine ⟨List.isChain_cons.mpr ⟨hhead, hchain⟩, List.pairwise_cons.mpr ⟨hstep, hsorted⟩,
        List.forall_mem_cons.mpr ⟨?_, hstep⟩, by simp⟩
      simp [JsNumber.le, hnan]
    · obtain rfl := Option.some_inj.mp h
      simp

/-- Where the elements with `p` come last, they are the end of the list. -/
theorem filter_isSuffix_of_pairwise {α : Type*} {p : α → Bool} {l : List α}
    (hl : l.Pairwise fun a b => p a → p b) : l.filter p <:+ l := by
  induction l with
  | nil => exact List.suffix_rfl
  | cons a l ih =>
    obtain ⟨ha, hl⟩ := List.pairwise_cons.mp hl
    by_cases hpa : p a
    · have hall : (a :: l).filter p = a :: l :=
        List.filter_eq_self.mpr (List.forall_mem_cons.mpr ⟨hpa, fun b hb => ha b hb hpa⟩)
      exact hall.symm ▸ List.suffix_rfl
    · rw [List.filter_cons_of_neg hpa]
      exact (ih hl).trans (List.suffix_cons a l)

/-- The eligible bins are one piece of the range. -/
theorem bins_isChain (h : args.bins host turns = some bins) :
    bins.IsChain fun x y => y = host.succ x := by
  obtain ⟨all, hall, rfl⟩ := Option.map_eq_some_iff.mp h
  obtain ⟨hchain, hsorted, -⟩ := countUp_spec hall
  cases hside : args.side with
  | quote =>
    -- what is up to the active bin is the front
    obtain ⟨_, heq⟩ : all.filter args.eligible <+: all :=
      filter_isPrefix_of_pairwise (hsorted.imp fun hle hy => by
        simp only [DepositArgs.eligible, hside] at hy ⊢
        exact JsNumber.le_trans hle hy)
    rw [← heq] at hchain
    exact (List.isChain_append.mp hchain).1
  | base =>
    obtain ⟨_, heq⟩ : all.filter args.eligible <:+ all :=
      filter_isSuffix_of_pairwise (hsorted.imp fun hle hx => by
        simp only [DepositArgs.eligible, hside] at hx ⊢
        exact JsNumber.le_trans hx hle)
    rw [← heq] at hchain
    exact (List.isChain_append.mp hchain).2.1

/-- Counted from a bin of the protocol, the last bin is as far as there are bins. -/
theorem getLast_eq {i : ℤ}
    (hchain : (JsNumber.ofInt i :: bins).IsChain fun x y => y = host.succ x)
    (hbins : ∀ b ∈ JsNumber.ofInt i :: bins, IsBin b) :
    (JsNumber.ofInt i :: bins).getLast (by simp) = .ofInt (i + bins.length) := by
  induction bins generalizing i with
  | nil => simp
  | cons c bins ih =>
    obtain ⟨hc, hrest⟩ := List.isChain_cons_cons.mp hchain
    obtain ⟨hfirst, hothers⟩ := List.forall_mem_cons.mp hbins
    obtain ⟨j, hj, hmin, hmax⟩ := hfirst
    obtain rfl : i = j := by simpa [JsNumber.ofInt] using hj
    obtain rfl : c = .ofInt (i + 1) := hc.trans (host.succ_ofInt i hmin hmax)
    rw [List.getLast_cons (by simp), ih hrest hothers, List.length_cons]
    congr 1
    push_cast
    ring

theorem binSpan_eq {first : JsNumber} {rest : List JsNumber}
    (hchain : (first :: rest).IsChain fun x y => y = host.succ x)
    (hbins : ∀ b ∈ first :: rest, IsBin b) :
    binSpan first ((first :: rest).getLast (by simp)) = .ofInt ((first :: rest).length : ℕ) := by
  obtain ⟨i, rfl, -⟩ := hbins first List.mem_cons_self
  rw [getLast_eq hchain hbins, binSpan, JsNumber.sub_ofInt, JsNumber.add_ofInt, List.length_cons]
  congr 1
  push_cast
  ring

/-- There is a weight for each bin. -/
theorem length_shapeWeights {shape : LiquidityShape} {range : BinRange} {active : JsNumber} {n : ℕ}
    (hspan : binSpan range.lowerBinId range.upperBinId = .ofInt n)
    (h : shapeWeights host shape range active = .ok weights) : weights.length = n := by
  -- both arrays have the length that is asked for, unless they throw
  have hnew : ∀ {m}, newArray (.ofInt n) = .ok m → m = n := by
    intro m hm
    rw [newArray, JsNumber.toBigInt?_ofInt] at hm
    dsimp only at hm
    split at hm
    · simpa using (Except.ok.inj hm).symm
    · cases hm
  have hfrom : ∀ {m}, arrayFrom (.ofInt n) = .ok m → m = n := by
    intro m hm
    simp only [arrayFrom, JsNumber.ofInt, Rat.floor_intCast] at hm
    split at hm
    · simpa using (Except.ok.inj hm).symm
    · cases hm
  simp only [shapeWeights, hspan, bind_eq_ok, throwIf_eq_ok] at h
  obtain ⟨-, -, h⟩ := h
  cases shape with
  | spot =>
    obtain ⟨m, hm, heq⟩ := bind_eq_ok.mp h
    obtain rfl := Except.ok.inj heq
    rw [List.length_replicate, hnew hm]
  | curve | bidAsk =>
    obtain ⟨m, hm, heq⟩ := bind_eq_ok.mp h
    obtain rfl := Except.ok.inj heq
    rw [List.length_map, List.length_range, hfrom hm]

/-- What the plan says of a bin: the bin, which has a price, and its share if there is one. -/
theorem allocation_eq {shares : List ℤ} {x : JsNumber × ℕ} {a : BinAllocation}
    (h : (do
      let uiPrice ← uiPriceOfBin x.1 args.binStep args.baseDecimals args.quoteDecimals
      return (⟨x.1, uiPrice, shares[x.2]?⟩ : BinAllocation)) = (.ok a : Except PoolError _)) :
    IsBin x.1 ∧ shares[x.2]? = a.amount := by
  obtain ⟨price, hprice, heq⟩ := bind_eq_ok.mp h
  obtain rfl := Except.ok.inj heq
  exact ⟨isBin_of_uiPriceOfBin hprice, rfl⟩

theorem map_getElem?_zipIdx {α β : Type*} {l : List α} {shares : List β}
    (h : shares.length = l.length) :
    (l.zipIdx.map fun x => shares[x.2]?) = shares.map some := by
  refine List.ext_getElem (by simp [h]) fun i hi hi' => ?_
  simp at hi'
  simp [hi']

/-- A plan over some bins hands out the amount asked for. -/
theorem allocate_sum {out : List BinAllocation}
    (hchain : bins.IsChain fun x y => y = host.succ x) (hne : bins ≠ [])
    (h : allocate host args bins = .ok out) :
    ∃ shares : List ℤ, out.map BinAllocation.amount = shares.map some ∧
      shares.sum = args.amount := by
  cases bins with
  | nil => exact absurd rfl hne
  | cons first rest =>
    simp only [allocate, bind_eq_ok] at h
    obtain ⟨weights, hweights, shares, hshares, h⟩ := h
    have hall := mapM_eq_ok_iff.mp h
    -- every bin that gets an allocation is a bin
    have hbins : ∀ b ∈ first :: rest, IsBin b := by
      intro b hb
      obtain ⟨i, hi, rfl⟩ := List.getElem_of_mem hb
      obtain ⟨a, ha⟩ := exists_mapM_eq_ok_iff.mp ⟨out, h⟩ ((first :: rest)[i], i)
        (List.mem_zipIdx_iff_getElem?.mpr (List.getElem?_eq_getElem hi))
      exact (allocation_eq ha).1
    obtain ⟨hlength, hsum⟩ := distributeAmount_spec hshares
    rw [length_shapeWeights (binSpan_eq hchain hbins) hweights] at hlength
    refine ⟨shares, ?_, hsum⟩
    rw [← map_getElem?_zipIdx hlength, eq_comm, ← List.forall₂_eq_eq_eq, List.forall₂_map_left_iff,
      List.forall₂_map_right_iff]
    exact hall.imp fun _ _ ha => (allocation_eq ha).2

/-! ### Conservation -/

/-- Nothing of a deposit is lost and nothing made up. The split by integer weights adds up, each
share is its quota rounded one way or the other, and its loop ends because all is handed out; a
plan hands out the amount asked for if the side may fund any bin of the range. -/
theorem distribution_conserves (host : Doubles) :
    (∀ (total : ℤ) (weights : List JsNumber) (s : ℚ) (ws : List ℤ), 0 ≤ total →
      floatSum host weights = .ok s → weights.mapM (scaleWeight host s) = .ok ws →
      0 < ws.sum →
      ∃ shares, distributeAmount host total weights = .ok shares ∧ shares.sum = total ∧
        shares.length = ws.length ∧
        (∀ (i : ℕ) (w x : ℤ), ws[i]? = some w → shares[i]? = some x →
          (x = total * w / ws.sum ∨ x = total * w / ws.sum + 1) ∧ (w = 0 → x = 0)) ∧
        (share total ws).out = shares ∧ (share total ws).assigned = total ∧
        (share total ws).left ≠ []) ∧
    ∀ (turns : ℕ) (args : DepositArgs) (bins : List JsNumber) (out : List BinAllocation),
      planDeposit host turns args = some (.ok out) → args.bins host turns = some bins →
      bins ≠ [] →
      ∃ shares : List ℤ, out.map BinAllocation.amount = shares.map some ∧
        shares.sum = args.amount := by
  refine ⟨fun total weights s ws htotal hs hscaled hpos => ?_,
    fun turns args bins out hplan hbins hne => ?_⟩
  · obtain ⟨happ, hassigned, hleft⟩ := share_spec htotal (scaled_nonneg hs hscaled) hpos
    refine ⟨_, distributeAmount_eq htotal hs hscaled hpos, happ.sum_eq, happ.length_eq,
      fun i w x hw hx => ⟨?_, ?_⟩, rfl, hassigned, hleft⟩
    · exact (happ.rounded i w x hw hx).imp_right And.left
    · rintro rfl
      exact happ.eq_zero hw hx
  · -- the amounts of the bins are the shares
    rw [planDeposit, hbins] at hplan
    exact allocate_sum (bins_isChain hbins) hne (Option.some_inj.mp hplan)

/-- Doubles that happen not to round; the exponential is right at the centre of a range. -/
def exactDoubles : Doubles where
  succ b := b.add (.ofInt 1)
  exp _ := .ofInt 1
  sum weights := weights.foldl JsNumber.add (.ofInt 0)
  scale w s := (JsNumber.finite (w / s * 10 ^ 9)).round
  succ_ofInt i _ _ := JsNumber.add_ofInt i 1
  le_succ b hb := by
    cases b with
    | nan => exact absurd rfl hb
    | infinity negative => cases negative <;> rfl
    | finite q => simp [JsNumber.ofInt, JsNumber.add_finite, JsNumber.le_finite]
  scale_nonneg {w s n} hw hs h := by
    rw [JsNumber.round, JsNumber.toBigInt?_ofInt] at h
    obtain rfl := Option.some_inj.mp h
    exact Rat.le_floor_iff.mpr (by positivity)

/-- The quote of a range around its active bin, in thirds. -/
def samplePlan : DepositArgs where
  range := ⟨.ofInt (-2), .ofInt 2⟩
  activeBinId := .ofInt 0
  binStep := .ofInt 100
  shape := .spot
  amount := 10
  side := .quote
  baseDecimals := 9
  quoteDecimals := 9

theorem distribution_conserves_thirds :
    (∃ shares, distributeAmount exactDoubles 10 [.ofInt 1, .ofInt 1, .ofInt 1] = .ok shares ∧
      shares.sum = 10) ∧
    ∃ out, ∃ shares : List ℤ, planDeposit exactDoubles 6 samplePlan = some (.ok out) ∧
      out.map BinAllocation.amount = shares.map some ∧ shares.sum = 10 := by
  obtain ⟨hsplit, hplan⟩ := distribution_conserves exactDoubles
  constructor
  · obtain ⟨shares, hshares, hsum, -⟩ := hsplit 10 [.ofInt 1, .ofInt 1, .ofInt 1] 3
      [333333333, 333333333, 333333333] (by decide) (by decide +kernel) (by decide +kernel)
      (by decide)
    exact ⟨shares, hshares, hsum⟩
  · have hout : planDeposit exactDoubles 6 samplePlan = some (.ok
        [⟨.ofInt (-2), 10000 / 10201, some 4⟩, ⟨.ofInt (-1), 100 / 101, some 3⟩,
          ⟨.ofInt 0, 1, some 3⟩]) := by
      decide +kernel
    obtain ⟨shares, hshares, hsum⟩ := hplan 6 samplePlan
      [.ofInt (-2), .ofInt (-1), .ofInt 0] _ hout (by decide +kernel) (by simp)
    exact ⟨_, shares, hout, hshares, hsum⟩

end AriOs.Pools.Rebalance
