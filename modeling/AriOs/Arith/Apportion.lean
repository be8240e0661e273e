import Mathlib.Algebra.BigOperators.Ring.List
import Mathlib.Algebra.Order.BigOperators.Group.List
import Mathlib.Algebra.Order.Ring.Int
import Mathlib.Data.List.GetD
import Mathlib.Data.List.Nodup
import Mathlib.Tactic.Linarith
import Mathlib.Tactic.Ring

/-!
# Apportionment by largest remainders

A total is split by integer weights: each weight gets the whole part of its quota, and the units
left over go one each to the places with the largest remainders. There are fewer units left over
than there are places with a remainder, so no place gets two of them and no place with a whole
quota gets one.

## Main results

* `sum_mul_leftover` — the remainders weigh as much as the units left over
* `leftover_lt_length` — there are fewer units left over than places
* `isApportionment_bump_take` — the largest remainders give an apportionment
-/

namespace AriOs.Arith

variable {total : ℤ} {weights shares : List ℤ} {places order : List ℕ}

/-- The whole part of the quota of each weight. -/
def quotas (total : ℤ) (weights : List ℤ) : List ℤ :=
  weights.map fun w => total * w / weights.sum

/-- What is cut off each quota, in parts of the weights' sum. -/
def remainders (total : ℤ) (weights : List ℤ) : List ℤ :=
  weights.map fun w => total * w % weights.sum

/-- The units that the whole parts leave over. -/
def leftover (total : ℤ) (weights : List ℤ) : ℤ := total - (quotas total weights).sum

/-- Shares that add up to the total, each of them a quota rounded down, or up if it is not whole. -/
structure IsApportionment (total : ℤ) (weights shares : List ℤ) : Prop where
  sum_eq : shares.sum = total
  length_eq : shares.length = weights.length
  rounded : ∀ (i : ℕ) (w s : ℤ), weights[i]? = some w → shares[i]? = some s →
    s = total * w / weights.sum ∨
      s = total * w / weights.sum + 1 ∧ 0 < total * w % weights.sum

/-- A weight of zero has no share. -/
theorem IsApportionment.eq_zero (h : IsApportionment total weights shares) {i : ℕ} {s : ℤ}
    (hw : weights[i]? = some 0) (hs : shares[i]? = some s) : s = 0 := by
  rcases h.rounded i 0 s hw hs with hs | ⟨-, hrem⟩
  · simpa using hs
  · simp at hrem

/-- Of nothing, nobody has a share. -/
theorem IsApportionment.eq_replicate (h : IsApportionment 0 weights shares) :
    shares = List.replicate weights.length 0 := by
  refine List.eq_replicate_iff.mpr ⟨h.length_eq, fun s hs => ?_⟩
  obtain ⟨i, hi, rfl⟩ := List.getElem_of_mem hs
  have hw : i < weights.length := h.length_eq ▸ hi
  rcases h.rounded i _ _ (List.getElem?_eq_getElem hw) (List.getElem?_eq_getElem hi)
    with hs | ⟨-, hrem⟩
  · simpa using hs
  · simp at hrem

@[simp] theorem length_quotas : (quotas total weights).length = weights.length := by
  simp [quotas]

@[simp] theorem length_remainders : (remainders total weights).length = weights.length := by
  simp [remainders]

theorem getElem?_quotas (i : ℕ) :
    (quotas total weights)[i]? = weights[i]?.map fun w => total * w / weights.sum :=
  List.getElem?_map

theorem getElem?_remainders (i : ℕ) :
    (remainders total weights)[i]? = weights[i]?.map fun w => total * w % weights.sum :=
  List.getElem?_map

/-- What is cut off the quotas is exactly what is left over. -/
theorem sum_mul_leftover :
    weights.sum * leftover total weights = (remainders total weights).sum := by
  have hparts : weights.sum * (quotas total weights).sum + (remainders total weights).sum =
      total * weights.sum := by
    rw [quotas, remainders, ← List.sum_map_mul_left, ← List.sum_map_add]
    simp only [Int.mul_ediv_add_emod]
    rw [List.sum_map_mul_left, List.map_id']
  rw [leftover, mul_sub]
  linarith

/-! ### How many units are left over -/

/-- A sum of numbers up to `m` is at most `m` for each that is not zero. -/
theorem sum_le_mul_countP {m : ℤ} {l : List ℤ} (h : ∀ x ∈ l, 0 ≤ x ∧ x ≤ m) :
    l.sum ≤ m * l.countP (0 < ·) := by
  induction l with
  | nil => simp
  | cons x l ih =>
    obtain ⟨⟨hx, hxm⟩, hl⟩ := List.forall_mem_cons.mp h
    have hsum := ih hl
    rw [List.sum_cons, List.countP_cons]
    by_cases hpos : 0 < x
    · simp only [hpos, decide_true, if_true]
      push_cast
      linarith
    · simp only [hpos, decide_false, Bool.false_eq_true, if_false, add_zero]
      linarith

section Leftover

variable (hpos : 0 < weights.sum)
include hpos

theorem mem_remainders_bounds {r : ℤ} (h : r ∈ remainders total weights) :
    0 ≤ r ∧ r ≤ weights.sum - 1 := by
  obtain ⟨w, -, rfl⟩ := List.mem_map.mp h
  exact ⟨Int.emod_nonneg _ hpos.ne', Int.le_sub_one_of_lt (Int.emod_lt_of_pos _ hpos)⟩

theorem leftover_nonneg : 0 ≤ leftover total weights := by
  have hsum : 0 ≤ (remainders total weights).sum :=
    List.sum_nonneg fun r hr => (mem_remainders_bounds hpos hr).1
  rw [← sum_mul_leftover] at hsum
  exact nonneg_of_mul_nonneg_right hsum hpos

/-- The units left over weigh less than one for each place with a remainder. -/
theorem mul_leftover_le : weights.sum * leftover total weights ≤
    (weights.sum - 1) * (remainders total weights).countP (0 < ·) := by
  rw [sum_mul_leftover]
  exact sum_le_mul_countP fun r => mem_remainders_bounds hpos

theorem leftover_le_countP :
    leftover total weights ≤ (remainders total weights).countP (0 < ·) := by
  have hle : weights.sum * leftover total weights ≤
      (weights.sum - 1) * (remainders total weights).countP (0 < ·) := mul_leftover_le hpos
  by_contra! hlt
  nlinarith

theorem leftover_lt_length : leftover total weights < weights.length := by
  have hle : weights.sum * leftover total weights ≤
      (weights.sum - 1) * (remainders total weights).countP (0 < ·) := mul_leftover_le hpos
  have hcount : (remainders total weights).countP (0 < ·) ≤ weights.length := by
    simpa using List.countP_le_length (p := (0 < ·)) (l := remainders total weights)
  have hlength : 0 < weights.length := by
    rw [List.length_pos_iff]
    rintro rfl
    simp at hpos
  by_contra! hlt
  nlinarith

end Leftover

/-! ### Handing them out -/

/-- One unit more at each of the places. -/
def bump (shares : List ℤ) (places : List ℕ) : List ℤ :=
  places.foldl (fun out i => out.modify i (· + 1)) shares

@[simp] theorem bump_nil : bump shares [] = shares := rfl

@[simp] theorem bump_cons (i : ℕ) :
    bump shares (i :: places) = bump (shares.modify i (· + 1)) places := rfl

theorem getElem?_bump (j : ℕ) :
    (bump shares places)[j]? = shares[j]?.map (· + (places.count j : ℤ)) := by
  induction places generalizing shares with
  | nil => simp
  | cons i places ih =>
    rw [bump_cons, ih, List.getElem?_modify, Option.map_eq_map, Option.map_map]
    congr 1
    funext s
    by_cases hij : i = j
    · simp [hij]
      ring
    · simp [hij]

@[simp] theorem length_bump : (bump shares places).length = shares.length := by
  induction places generalizing shares with
  | nil => rfl
  | cons i places ih => rw [bump_cons, ih, List.length_modify]

theorem sum_modify {i : ℕ} (h : i < shares.length) :
    (shares.modify i (· + 1)).sum = shares.sum + 1 := by
  induction shares generalizing i with
  | nil => simp at h
  | cons s shares ih =>
    cases i with
    | zero =>
      rw [List.modify_zero_cons, List.sum_cons, List.sum_cons]
      ring
    | succ i =>
      rw [List.modify_succ_cons, List.sum_cons, List.sum_cons, ih (Nat.lt_of_succ_lt_succ h)]
      ring

theorem sum_bump (h : ∀ i ∈ places, i < shares.length) :
    (bump shares places).sum = shares.sum + places.length := by
  induction places generalizing shares with
  | nil => simp
  | cons i places ih =>
    obtain ⟨hi, hplaces⟩ := List.forall_mem_cons.mp h
    rw [bump_cons, ih (by simpa using hplaces), sum_modify hi, List.length_cons]
    push_cast
    ring

/-- Handed out to different places with a remainder, the units left over make an
apportionment. -/
theorem isApportionment_bump (hnodup : places.Nodup)
    (hlength : (places.length : ℤ) = leftover total weights)
    (hrem : ∀ i ∈ places, ∃ r, (remainders total weights)[i]? = some r ∧ 0 < r) :
    IsApportionment total weights (bump (quotas total weights) places) where
  sum_eq := by
    have hlt : ∀ i ∈ places, i < (quotas total weights).length := fun i hi => by
      obtain ⟨r, hr, -⟩ := hrem i hi
      simpa using (List.getElem?_eq_some_iff.mp hr).1
    rw [sum_bump hlt, hlength, leftover]
    ring
  length_eq := by simp
  rounded i w s hw hs := by
    rw [getElem?_bump, getElem?_quotas, hw] at hs
    obtain rfl := Option.some_inj.mp hs
    -- a place gets one unit more, and only once
    by_cases hi : i ∈ places
    · right
      obtain ⟨r, hr, hpos⟩ := hrem i hi
      rw [getElem?_remainders, hw] at hr
      obtain rfl := Option.some_inj.mp hr
      exact ⟨by simp [List.count_eq_one_of_mem hnodup hi], hpos⟩
    · left
      simp [List.count_eq_zero_of_not_mem hi]

/-- Where the elements with `p` come first, they are the front of the list. -/
theorem filter_isPrefix_of_pairwise {α : Type*} {p : α → Bool} {l : List α}
    (hl : l.Pairwise fun a b => p b → p a) : l.filter p <+: l := by
  induction l with
  | nil => exact List.prefix_rfl
  | cons a l ih =>
    obtain ⟨ha, hl⟩ := List.pairwise_cons.mp hl
    by_cases hpa : p a
    · rw [List.filter_cons_of_pos hpa]
      exact List.prefix_cons_inj a |>.mpr (ih hl)
    · -- none of the others has it either
      have hnil : (a :: l).filter p = [] := by
        rw [List.filter_cons_of_neg hpa, List.filter_eq_nil_iff]
        exact fun b hb hpb => hpa (ha b hb hpb)
      rw [hnil]
      exact List.nil_prefix

/-- The first `n` elements then have it, if there are that many. -/
theorem forall_mem_take_of_le_countP {α : Type*} {p : α → Bool} {l : List α} {n : ℕ}
    (hl : l.Pairwise fun a b => p b → p a) (hn : n ≤ l.countP p) : ∀ x ∈ l.take n, p x := by
  have hfront : l.take n <+: l.filter p := by
    refine List.prefix_of_prefix_length_le (List.take_prefix n l)
      (filter_isPrefix_of_pairwise hl) ?_
    rw [← List.countP_eq_length_filter]
    exact (List.length_take_le n l).trans hn
  exact fun x hx => (List.mem_filter.mp (hfront.subset hx)).2

theorem countP_range_getD {α : Type*} (p : α → Bool) (l : List α) (a : α) :
    (List.range l.length).countP (fun i => p (l.getD i a)) = l.countP p := by
  have hmap : (List.range l.length).map (fun i => l.getD i a) = l :=
    List.ext_getElem (by simp) fun i _ _ => by simp [*]
  conv_rhs => rw [← hmap, List.countP_map]
  rfl

/-- Largest remainders first, or any order in which the places with a remainder come first. -/
theorem isApportionment_bump_take (hpos : 0 < weights.sum)
    (hperm : order.Perm (List.range weights.length))
    (hfirst : order.Pairwise fun i j =>
      0 < (remainders total weights).getD j 0 → 0 < (remainders total weights).getD i 0) :
    IsApportionment total weights
      (bump (quotas total weights) (order.take (leftover total weights).toNat)) := by
  have hleft : 0 ≤ leftover total weights := leftover_nonneg hpos
  have hlt : leftover total weights < weights.length := leftover_lt_length hpos
  have hlength : order.length = weights.length := by simpa using hperm.length_eq
  let p : ℤ → Bool := fun r => 0 < r
  -- there are at least as many positive remainders as units are left
  have hcount : (leftover total weights).toNat ≤
      order.countP fun i => p ((remainders total weights).getD i 0) := by
    have hle : leftover total weights ≤ (remainders total weights).countP p :=
      leftover_le_countP hpos
    rw [hperm.countP_eq, ← length_remainders, countP_range_getD]
    omega
  have hall := forall_mem_take_of_le_countP (by simpa [p] using hfirst) hcount
  refine isApportionment_bump ?_ ?_ fun i hi => ?_
  · exact (hperm.nodup_iff.mpr List.nodup_range).sublist (List.take_sublist _ _)
  · rw [List.length_take]
    omega
  · have hmem : i < weights.length := by
      simpa using hperm.mem_iff.mp (List.mem_of_mem_take hi)
    -- so each unit goes to a positive one
    have hrem : 0 < (remainders total weights).getD i 0 := by simpa [p] using hall i hi
    rw [List.getD_eq_getElem _ _ (by simpa using hmem)] at hrem
    exact ⟨_, List.getElem?_eq_getElem _, hrem⟩

end AriOs.Arith
