import Mathlib.Algebra.Order.Group.Int
import Mathlib.Data.List.DropRight
import Mathlib.Data.List.Induction

/-!
# The last items of a log

A log of which only so many items are kept, the last ones. What is kept can be told by counting
items, and of items with growing numbers also by their numbers: the two are the same as long as the
items to be kept are numbered without gaps that reach further back.

## Main results

* `rtake_rtake_concat` — forgetting early makes no difference
* `filter_eq_rtake` — keeping by number is keeping by count
-/

namespace AriOs.Storage.Retention

variable {α : Type} {l : List α} {x : α} {n : ℕ}

theorem rtake_rtake {m : ℕ} (h : m ≤ n) : (l.rtake n).rtake m = l.rtake m := by
  simp only [List.rtake_eq_reverse_take_reverse, List.reverse_reverse, List.take_take]
  rw [Nat.min_eq_left h]

/-- What was forgotten before an item came would be forgotten after it. -/
theorem rtake_rtake_concat : (l.rtake n ++ [x]).rtake n = (l ++ [x]).rtake n := by
  cases n with
  | zero => simp
  | succ n => rw [List.rtake_concat_succ, List.rtake_concat_succ, rtake_rtake (Nat.le_succ n)]

theorem rtake_of_length_le (h : l.length ≤ n) : l.rtake n = l := by
  rw [List.rtake, Nat.sub_eq_zero_of_le h, List.drop_zero]

/-- The last item is kept. -/
theorem getLast?_rtake (h : 0 < n) : (l.rtake n).getLast? = l.getLast? := by
  obtain ⟨m, rfl⟩ := Nat.exists_eq_succ_of_ne_zero h.ne'
  rcases List.eq_nil_or_concat l with rfl | ⟨l, x, rfl⟩
  · simp
  · rw [List.concat_eq_append, List.rtake_concat_succ, List.getLast?_concat, List.getLast?_concat]

section Numbered

variable {number : α → ℤ}

/-- The greatest of growing numbers is the last one. -/
theorem max?_eq_getLast? {l : List ℤ} (h : l.Pairwise (· < ·)) : l.max? = l.getLast? := by
  rcases List.eq_nil_or_concat l with rfl | ⟨l, x, rfl⟩
  · rfl
  · rw [List.concat_eq_append] at h ⊢
    rw [List.getLast?_concat, List.max?_eq_some_iff]
    refine ⟨List.mem_append_right _ (List.mem_singleton.mpr rfl), fun b hb => ?_⟩
    rcases List.mem_append.mp hb with hb | hb
    · exact ((List.pairwise_append.mp h).2.2 b hb x (List.mem_singleton.mpr rfl)).le
    · exact (List.mem_singleton.mp hb).le

/-- A number is behind a later one at least by the items in between. -/
theorem number_add_length_lt {a : α} {b : List α}
    (h : ((a :: b ++ [x]).map number).Pairwise (· < ·)) : number a + b.length < number x := by
  induction b generalizing a with
  | nil =>
    have hlt := List.pairwise_cons.mp h
    simpa using hlt.1 (number x) (by simp)
  | cons c b ih =>
    obtain ⟨hhead, htail⟩ := List.pairwise_cons.mp h
    have hnext := ih htail
    have hac := hhead (number c) (by simp)
    simp only [List.length_cons]
    omega

/-- Of items with growing numbers the last ones are kept, if they are numbered closely enough. -/
theorem filter_eq_rtake (hasc : ((l ++ [x]).map number).Pairwise (· < ·)) (hn : 0 < n)
    (hnear : ∀ e ∈ l.rtake (n - 1), number x - n < number e) :
    (l ++ [x]).filter (fun e => number x - n < number e) = (l ++ [x]).rtake n := by
  obtain ⟨m, rfl⟩ := Nat.exists_eq_succ_of_ne_zero hn.ne'
  rw [Nat.succ_sub_one] at hnear
  rw [List.rtake_concat_succ, List.filter_append]
  have hlast : [x].filter (fun e => number x - (m + 1 : ℕ) < number e) = [x] := by
    rw [List.filter_eq_self]
    intro e he
    obtain rfl := List.mem_singleton.mp he
    exact decide_eq_true (by omega)
  have hsplit : l.filter (fun e => number x - (m + 1 : ℕ) < number e) = l.rtake m := by
    conv_lhs => rw [← List.take_append_drop (l.length - m) l]
    rw [List.filter_append]
    have hgone : (l.take (l.length - m)).filter
        (fun e => number x - (m + 1 : ℕ) < number e) = [] := by
      rw [List.filter_eq_nil_iff]
      intro e he hlt
      obtain ⟨before, after, hsplit⟩ := List.append_of_mem he
      -- at least the items that are kept come after it
      have hl : l = before ++ e :: (after ++ l.drop (l.length - m)) := by
        conv_lhs => rw [← List.take_append_drop (l.length - m) l, hsplit]
        simp
      have hlen : m ≤ (after ++ l.drop (l.length - m)).length := by
        have htake := congrArg List.length hsplit
        simp only [List.length_take, List.length_append, List.length_cons] at htake
        simp only [List.length_append, List.length_drop]
        omega
      rw [hl, List.append_assoc, List.map_append] at hasc
      have hbehind := number_add_length_lt (List.pairwise_append.mp hasc).2.1
      have hlt := of_decide_eq_true hlt
      omega
    have hkept : (l.drop (l.length - m)).filter
        (fun e => number x - (m + 1 : ℕ) < number e) = l.rtake m := by
      rw [List.rtake, List.filter_eq_self]
      intro e he
      exact decide_eq_true (hnear e he)
    rw [hgone, hkept, List.nil_append]
  rw [hlast, hsplit]

end Numbered

end AriOs.Storage.Retention
