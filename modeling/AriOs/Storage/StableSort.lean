import Mathlib.Data.List.Sort
import Mathlib.Data.List.Nodup

/-!
# Stable sorting

A stable sort keeps the order of entries that compare equal. So two lists of the same entries are
sorted alike exactly if the entries that compare equal stand in the same order in both.

## Main results

* `insertionSort_eq_iff` — when two lists of the same entries are sorted alike
-/

namespace AriOs.Storage

open scoped List

variable {α : Type} {l l' : List α} {a b : α}

/-- Two members stand in one of the two orders. -/
theorem pair_sublist_or (ha : a ∈ l) (hb : b ∈ l) (hne : a ≠ b) : [a, b] <+ l ∨ [b, a] <+ l := by
  induction l with
  | nil => exact absurd ha List.not_mem_nil
  | cons c l ih =>
    rcases List.mem_cons.mp ha with rfl | ha
    · have hb : b ∈ l := (List.mem_cons.mp hb).resolve_left hne.symm
      exact .inl (List.Sublist.cons_cons a (List.singleton_sublist.mpr hb))
    · rcases List.mem_cons.mp hb with hcb | hb
      · rw [hcb]
        exact .inr (List.Sublist.cons_cons c (List.singleton_sublist.mpr ha))
      · exact (ih ha hb).imp (List.Sublist.cons c) (List.Sublist.cons c)

/-- In a list without repetitions they do not stand in both. -/
theorem not_pair_sublist (hl : l.Nodup) (hab : [a, b] <+ l) : ¬ [b, a] <+ l := by
  induction l with
  | nil => simp at hab
  | cons c l ih =>
    obtain ⟨hc, hl⟩ := List.nodup_cons.mp hl
    intro hba
    rcases List.sublist_cons_iff.mp hab with hab' | ⟨r, hr, hab'⟩
    · rcases List.sublist_cons_iff.mp hba with hba' | ⟨r, hr, hba'⟩
      · exact ih hl hab' hba'
      · obtain ⟨rfl, rfl⟩ := List.cons.inj hr
        exact hc (hab'.subset (by simp))
    · obtain ⟨rfl, rfl⟩ := List.cons.inj hr
      rcases List.sublist_cons_iff.mp hba with hba' | ⟨r, hr, hba'⟩
      · exact hc (hba'.subset (by simp))
      · obtain ⟨rfl, rfl⟩ := List.cons.inj hr
        exact hc (hab'.subset (by simp))

variable {r : α → α → Prop} [DecidableRel r]

/-- What is sorted is in order, and where entries tie they stand as they do in a list in which they
stand as in the one that was sorted. -/
theorem pairwise_ties (htotal : ∀ a b, r a b ∨ r b a) (htrans : ∀ a b c, r a b → r b c → r a c)
    (hl' : l'.Nodup) (hmem : l' ⊆ l)
    (hties : ∀ a b, r a b → r b a → [a, b] <+ l → [a, b] <+ l') :
    (l'.insertionSort r).Pairwise fun a b => r a b ∧ (r b a → [a, b] <+ l) := by
  have : Std.Total r := ⟨htotal⟩
  have : IsTrans α r := ⟨htrans⟩
  have hperm := List.perm_insertionSort r l'
  have hsorted : (l'.insertionSort r).Nodup := hperm.nodup_iff.mpr hl'
  refine List.pairwise_iff_forall_sublist.mpr fun {a b} hab => ?_
  have hrab := List.pairwise_iff_forall_sublist.mp (List.pairwise_insertionSort r l') hab
  refine ⟨hrab, fun hba => ?_⟩
  have hne : a ≠ b := by
    rintro rfl
    exact not_pair_sublist hsorted hab hab
  have hthere : ∀ c ∈ [a, b], c ∈ l := fun c hc => hmem (hperm.subset (hab.subset hc))
  rcases pair_sublist_or (hthere a (by simp)) (hthere b (by simp)) hne with h | h
  · exact h
  · have hback := List.pair_sublist_insertionSort hba (hties b a hba hrab h)
    exact absurd hback (not_pair_sublist hsorted hab)

/-- Two lists of the same entries are sorted alike exactly if tied entries stand in the same order.
-/
theorem insertionSort_eq_iff (htotal : ∀ a b, r a b ∨ r b a)
    (htrans : ∀ a b c, r a b → r b c → r a c) (hperm : l.Perm l') (hl : l.Nodup) :
    l.insertionSort r = l'.insertionSort r ↔
      ∀ a b, r a b → r b a → [a, b] <+ l → [a, b] <+ l' := by
  have hl' : l'.Nodup := hperm.nodup_iff.mp hl
  constructor
  · intro heq a b hab hba hpair
    have hne : a ≠ b := by
      rintro rfl
      exact not_pair_sublist hl hpair hpair
    have hthere : ∀ c ∈ [a, b], c ∈ l' := fun c hc => hperm.subset (hpair.subset hc)
    rcases pair_sublist_or (hthere a (by simp)) (hthere b (by simp)) hne with h | h
    · exact h
    · have hsort := List.pair_sublist_insertionSort hab hpair
      rw [heq] at hsort
      have hsorted' := (List.perm_insertionSort r l').nodup_iff.mpr hl'
      exact absurd (List.pair_sublist_insertionSort hba h) (not_pair_sublist hsorted' hsort)
  · intro hties
    -- both are sorted by the order that decides ties by the places in the first list
    refine List.Perm.eq_of_pairwise ?_
      (pairwise_ties htotal htrans hl (fun _ => id) fun _ _ _ _ => id)
      (pairwise_ties htotal htrans hl' hperm.symm.subset hties)
      ((List.perm_insertionSort r l).trans (hperm.trans (List.perm_insertionSort r l').symm))
    intro a b _ _ hab hba
    exact absurd (hba.2 hab.1) (not_pair_sublist hl (hab.2 hba.1))

end AriOs.Storage
