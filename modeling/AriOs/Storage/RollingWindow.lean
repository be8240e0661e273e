import Mathlib.Algebra.Order.Group.Defs
import Mathlib.Data.List.Forall2
import Mathlib.Data.List.Pairwise
import Mathlib.Order.Basic

/-!
# Rolling windows over a log of times

A log of times in the order they were written down, of which a limiter keeps the recent part.
What it keeps is enough to keep the times apart and few, as long as the gap it asks for fits
into what it keeps.

## Main results

* `prune_eq_filter` — of times in order, pruning keeps exactly those from the cutoff on
* `apart_append` — a new time keeps the log apart, if it is far enough from the kept ones
* `countIn_append_le` — a new time adds to windows that hold nothing but kept ones
-/

namespace AriOs.Storage.RollingWindow

variable {τ : Type} [LinearOrder τ] {ts : List τ} {c c' t now time : τ}

/-- Drop the times at the front that lie before the cutoff. -/
def prune (cutoff : τ) (ts : List τ) : List τ := ts.dropWhile fun t => t < cutoff

theorem prune_eq_filter (h : ts.Pairwise (· ≤ ·)) : prune c ts = ts.filter fun t => c ≤ t := by
  induction ts with
  | nil => rfl
  | cons t ts ih =>
    obtain ⟨hhead, htail⟩ := List.pairwise_cons.mp h
    rcases lt_or_ge t c with hlt | hge
    · simpa [prune, hlt, not_le.mpr hlt] using ih htail
    · -- from here on nothing is dropped, and the filter keeps everything
      have hall : ∀ u ∈ ts, c ≤ u := fun u hu => hge.trans (hhead u hu)
      have hfilter : ts.filter (fun t => c ≤ t) = ts := by
        simpa [List.filter_eq_self] using hall
      simp [prune, not_lt.mpr hge, hge, hfilter]

/-- Pruning twice is pruning at the later cutoff. -/
theorem prune_filter (h : ts.Pairwise (· ≤ ·)) (hc : c ≤ c') :
    prune c' (ts.filter fun t => c ≤ t) = ts.filter fun t => c' ≤ t := by
  rw [prune_eq_filter (h.filter _), List.filter_filter]
  refine List.filter_congr fun t _ => ?_
  by_cases ht : c' ≤ t
  · simp [ht, hc.trans ht]
  · simp [ht]

/-- Each time of `ts` has its own in `rs`, in this order, and none of these is earlier. -/
abbrev Noted (ts rs : List τ) : Prop := List.SublistForall₂ (· ≤ ·) ts rs

section Noted

variable {rs : List τ}

/-- What is noted later does not matter. -/
theorem Noted.append_right (h : Noted ts rs) (rs' : List τ) : Noted ts (rs ++ rs') := by
  obtain ⟨l, hl, hsub⟩ := List.sublistForall₂_iff.mp h
  exact List.sublistForall₂_iff.mpr ⟨l, hl, hsub.trans (List.sublist_append_left _ _)⟩

theorem Noted.concat (h : Noted ts rs) (ht : t ≤ time) : Noted (ts ++ [t]) (rs ++ [time]) := by
  obtain ⟨l, hl, hsub⟩ := List.sublistForall₂_iff.mp h
  refine List.sublistForall₂_iff.mpr ⟨l ++ [time], ?_, hsub.append (List.Sublist.refl _)⟩
  exact List.rel_append hl (.cons ht .nil)

theorem Noted.exists_le (h : Noted ts rs) (ht : t ∈ ts) : ∃ r ∈ rs, t ≤ r := by
  induction h with
  | nil => simp at ht
  | @cons a b ts rs hle _ ih =>
    rcases List.mem_cons.mp ht with rfl | ht
    · exact ⟨b, List.mem_cons_self, hle⟩
    · obtain ⟨r, hr, hle⟩ := ih ht
      exact ⟨r, List.mem_cons_of_mem _ hr, hle⟩
  | cons_right _ ih =>
    obtain ⟨r, hr, hle⟩ := ih ht
    exact ⟨r, List.mem_cons_of_mem _ hr, hle⟩

/-- From a cutoff on there are no more times than are noted. -/
theorem Noted.countP_le (h : Noted ts rs) (c : τ) :
    ts.countP (fun t => c ≤ t) ≤ rs.countP fun t => c ≤ t := by
  induction h with
  | nil => simp
  | @cons a b ts rs hle _ ih =>
    by_cases ha : c ≤ a
    · simpa [List.countP_cons, ha, ha.trans hle] using ih
    · simp only [List.countP_cons, ha, decide_false, Bool.false_eq_true, if_false]
      exact ih.trans (Nat.le_add_right _ _)
  | cons_right _ ih => exact ih.trans (by rw [List.countP_cons]; exact Nat.le_add_right _ _)

end Noted

section Group

variable [AddCommGroup τ] [IsOrderedAddMonoid τ] {w x : τ}

/-- How many of the times lie in the window of length `w` that starts at `x`. -/
def countIn (w x : τ) (ts : List τ) : Nat := ts.countP fun t => x ≤ t ∧ t ≤ x + w

/-- A new time keeps the log apart. The limiter looks at the kept times only, at a moment `now`
before the new one is written down; what it has dropped is further away than the window. -/
theorem apart_append {Gap : τ → Prop} (hmono : ∀ a b, Gap a → a ≤ b → Gap b)
    (hwindow : ∀ g, w < g → Gap g) (hts : ts.Pairwise fun a b => Gap (b - a)) (hnow : now ≤ time)
    (hkept : ∀ t ∈ ts, now - w ≤ t → Gap (now - t)) :
    (ts ++ [time]).Pairwise fun a b => Gap (b - a) := by
  refine List.pairwise_append.mpr ⟨hts, List.pairwise_singleton _ _, fun t ht b hb => ?_⟩
  obtain rfl := List.mem_singleton.mp hb
  have hle : now - t ≤ b - t := sub_le_sub_right hnow t
  rcases le_or_gt (now - w) t with hin | hout
  · exact hmono _ _ (hkept t ht hin) hle
  · refine hmono _ _ (hwindow (now - t) ?_) hle
    exact lt_sub_comm.mp hout

/-- A window that the new time falls into holds besides it only times that the limiter has
counted. -/
theorem countIn_append_le (hnow : now ≤ time) :
    countIn w x (ts ++ [time]) = countIn w x ts ∨
      countIn w x (ts ++ [time]) ≤ (ts.filter fun t => now - w ≤ t).length + 1 := by
  by_cases hin : x ≤ time ∧ time ≤ x + w
  · right
    have hsub : ts.countP (fun t => x ≤ t ∧ t ≤ x + w) ≤ ts.countP fun t => now - w ≤ t := by
      refine List.countP_mono_left fun t _ ht => ?_
      have ht : x ≤ t ∧ t ≤ x + w := by simpa using ht
      have hstart : now - w ≤ x := sub_le_iff_le_add.mpr (hnow.trans hin.2)
      simpa using hstart.trans ht.1
    rw [← List.countP_eq_length_filter]
    simp only [countIn, List.countP_append, List.countP_singleton, hin]
    simpa using hsub
  · left
    simp [countIn, List.countP_append, hin]

end Group

end AriOs.Storage.RollingWindow
