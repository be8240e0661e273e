import Mathlib.Algebra.BigOperators.Group.List.Basic
import Mathlib.Algebra.Order.Group.Int
import Mathlib.Algebra.Ring.Int.Defs
import Mathlib.Data.List.Induction
import Mathlib.Data.List.Nodup
import Mathlib.Data.List.Pairwise

/-!
# Blocks of indexes

A list is cut into consecutive blocks, each known by the indexes it covers. Whole blocks are
dropped, the first ones first, until a test is met. The test reads a state that every dropped block
changes, in whatever way: a total that is rounded after each subtraction is one.

## Main results

* `keepAt_notMem_flatten` — what is left when whole blocks are dropped are the other blocks
* `eq_of_keepAt_eq` — what is left tells what was selected
* `sum_eq_add_of_subset` — what is left and what is dropped weigh together what there was
* `shed_firstFit`, `FirstFit.shed_eq` — what is dropped is the first front at which the test is met,
  unless everything is
* `prefix_shed_iff` — an item is dropped exactly if the test is met at no earlier front
-/

namespace AriOs.Storage.Blocks

variable {α : Type}

/-- The items whose index is selected. -/
def keepAt (p : Nat → Bool) (l : List α) : List α :=
  (l.zipIdx.filter fun e => p e.2).map Prod.fst

/-- The items at the given indexes. -/
def pick (l : List α) (u : List Nat) : List α := u.filterMap (l[·]?)

section Pick

variable {l : List α} {p : Nat → Bool}

@[simp] theorem pick_append {u v : List Nat} : pick l (u ++ v) = pick l u ++ pick l v :=
  List.filterMap_append

theorem pick_flatten {us : List (List Nat)} : pick l us.flatten = (us.map (pick l)).flatten :=
  List.filterMap_flatten

theorem mem_pick_iff {u : List Nat} {a : α} : a ∈ pick l u ↔ ∃ i ∈ u, l[i]? = some a :=
  List.mem_filterMap

theorem pick_range' (i k : Nat) : pick l (List.range' i k) = (l.drop i).take k := by
  induction k generalizing i with
  | zero => simp [pick]
  | succ k ih =>
    rw [List.range'_succ, ← List.singleton_append, pick_append, ih]
    by_cases hi : i < l.length
    · rw [List.drop_eq_getElem_cons hi, List.take_succ_cons]
      simp [pick, hi]
    · simp [pick, List.drop_eq_nil_of_le (Nat.le_of_not_lt hi),
        List.drop_eq_nil_of_le (Nat.le_succ_of_le (Nat.le_of_not_lt hi)),
        List.getElem?_eq_none (Nat.le_of_not_lt hi)]

theorem pick_range : pick l (List.range l.length) = l := by
  rw [List.range_eq_range', pick_range', List.drop_zero, List.take_length]

/-- More items at the end do not change what stands at the earlier indexes. -/
theorem pick_append_left {l' : List α} {u : List Nat} (h : ∀ i ∈ u, i < l.length) :
    pick (l ++ l') u = pick l u :=
  List.filterMap_congr fun i hi => List.getElem?_append_left (h i hi)

theorem keepAt_eq_pick : keepAt p l = pick l ((List.range l.length).filter p) := by
  induction l using List.reverseRecOn with
  | nil => rfl
  | append_singleton l a ih =>
    have hold : ∀ i ∈ (List.range l.length).filter p, i < l.length := fun i hi =>
      List.mem_range.mp (List.mem_of_mem_filter hi)
    have hlast : keepAt p (l ++ [a]) = keepAt p l ++ if p l.length then [a] else [] := by
      by_cases h : p l.length <;> simp [keepAt, List.zipIdx_append, h]
    rw [hlast, ih, List.length_append, List.length_singleton, List.range_succ, List.filter_append,
      pick_append, pick_append_left hold]
    by_cases h : p l.length <;> simp [pick, h]

theorem mem_keepAt_iff {a : α} : a ∈ keepAt p l ↔ ∃ i, p i = true ∧ l[i]? = some a := by
  rw [keepAt_eq_pick, mem_pick_iff]
  constructor
  · rintro ⟨i, hi, ha⟩
    exact ⟨i, List.of_mem_filter hi, ha⟩
  · rintro ⟨i, hi, ha⟩
    have hlt : i < l.length := (List.getElem?_eq_some_iff.mp ha).1
    exact ⟨i, List.mem_filter.mpr ⟨List.mem_range.mpr hlt, hi⟩, ha⟩

theorem keepAt_sublist : (keepAt p l).Sublist l := by
  have h : ((l.zipIdx.filter fun e => p e.2).map Prod.fst).Sublist (l.zipIdx.map Prod.fst) :=
    List.filter_sublist.map Prod.fst
  rwa [List.zipIdx_map_fst] at h

/-- Where no item occurs twice, what is left tells what was selected. -/
theorem eq_of_keepAt_eq {q : Nat → Bool} (hnodup : l.Nodup) (h : keepAt p l = keepAt q l) {i : Nat}
    (hi : i < l.length) : p i = q i := by
  have hkept : ∀ {r : Nat → Bool}, l[i] ∈ keepAt r l ↔ r i = true := by
    intro r
    rw [mem_keepAt_iff]
    constructor
    · rintro ⟨j, hj, hget⟩
      obtain ⟨hlt, hget⟩ := List.getElem?_eq_some_iff.mp hget
      exact hnodup.getElem_inj_iff.mp hget ▸ hj
    · intro hr
      exact ⟨i, hr, List.getElem?_eq_getElem hi⟩
  rw [Bool.eq_iff_iff, ← hkept, ← hkept, h]

end Pick

section Flatten

variable {us gone : List (List Nat)}

/-- Blocks of a list without repetition share no index. -/
theorem eq_of_mem_of_mem (hnodup : us.flatten.Nodup) {u v : List Nat} (hu : u ∈ us) (hv : v ∈ us)
    {i : Nat} (hiu : i ∈ u) (hiv : i ∈ v) : u = v := by
  by_contra hne
  have : Std.Symm (@List.Disjoint Nat) := ⟨fun _ _ h _ hv hu => h hu hv⟩
  exact (List.nodup_flatten.mp hnodup).2.forall hu hv hne hiu hiv

theorem mem_flatten_iff_mem (hnodup : us.flatten.Nodup) (hgone : gone ⊆ us) {u : List Nat}
    (hu : u ∈ us) {i : Nat} (hi : i ∈ u) : i ∈ gone.flatten ↔ u ∈ gone := by
  rw [List.mem_flatten]
  constructor
  · rintro ⟨v, hv, hiv⟩
    rwa [eq_of_mem_of_mem hnodup hu (hgone hv) hi hiv]
  · intro h
    exact ⟨u, h, hi⟩

/-- Without the indexes of some blocks, the other blocks are left. -/
theorem filter_notMem_flatten (hnodup : us.flatten.Nodup) (hgone : gone ⊆ us) :
    us.flatten.filter (fun i => decide (i ∉ gone.flatten)) =
      (us.filter fun u => decide (u ∉ gone)).flatten := by
  have haux : ∀ vs : List (List Nat), vs ⊆ us →
      vs.flatten.filter (fun i => decide (i ∉ gone.flatten)) =
        (vs.filter fun u => decide (u ∉ gone)).flatten := by
    intro vs
    induction vs with
    | nil => exact fun _ => rfl
    | cons u vs ih =>
      intro hvs
      obtain ⟨hu, hvs⟩ := List.cons_subset.mp hvs
      rw [List.flatten_cons, List.filter_append, ih hvs]
      by_cases hmem : u ∈ gone
      · -- the blocks are disjoint, so a block goes as a whole or stays as a whole
        have hempty : u.filter (fun i => decide (i ∉ gone.flatten)) = [] :=
          List.filter_eq_nil_iff.mpr fun i hi => by
            simp only [mem_flatten_iff_mem hnodup hgone hu hi, hmem, not_true, decide_false,
              Bool.false_eq_true, not_false_eq_true]
        rw [hempty, List.filter_cons_of_neg (by simpa using hmem), List.nil_append]
      · have hself : u.filter (fun i => decide (i ∉ gone.flatten)) = u :=
          List.filter_eq_self.mpr fun i hi => by
            simp only [mem_flatten_iff_mem hnodup hgone hu hi, hmem, not_false_eq_true, decide_true]
        rw [hself, List.filter_cons_of_pos (by simpa using hmem), List.flatten_cons]
  exact haux us (List.Subset.refl us)

/-- What is left of a list when whole blocks are dropped are the other blocks. -/
theorem keepAt_notMem_flatten {l : List α} (hblocks : us.flatten = List.range l.length)
    (hgone : gone ⊆ us) :
    keepAt (fun i => decide (i ∉ gone.flatten)) l =
      ((us.filter fun u => decide (u ∉ gone)).map (pick l)).flatten := by
  have hnodup : us.flatten.Nodup := hblocks ▸ List.nodup_range
  rw [keepAt_eq_pick, ← hblocks, filter_notMem_flatten hnodup hgone, pick_flatten]

/-- What is left and what is dropped weigh together what there was. -/
theorem sum_eq_add_of_subset {l r : List Nat} (hl : l.Nodup) (hr : r.Nodup) (hsub : r ⊆ l)
    (f : Nat → Int) :
    (l.map f).sum = ((l.filter fun i => decide (i ∉ r)).map f).sum + (r.map f).sum := by
  have hdropped : (l.filter fun i => decide (i ∈ r)).Perm r := by
    refine (List.perm_ext_iff_of_nodup (hl.filter _) hr).mpr fun i => ?_
    simp only [List.mem_filter, decide_eq_true_eq]
    exact ⟨And.right, fun h => ⟨hsub h, h⟩⟩
  have hsplit : (l.filter (fun i => decide (i ∈ r)) ++
      l.filter fun i => !decide (i ∈ r)).Perm l := List.filter_append_perm _ l
  have hsum := (hsplit.map f).sum_eq
  rw [List.map_append, List.sum_append, (hdropped.map f).sum_eq] at hsum
  simp only [decide_not]
  omega

end Flatten

/-! ### Dropping from the front -/

section Shed

variable {σ : Type} {fits : σ → Bool} {drop : σ → α → σ} {s : σ} {l : List α}

/-- What is dropped from the front until the state meets the test. -/
def shed (fits : σ → Bool) (drop : σ → α → σ) (s : σ) : List α → List α
  | [] => []
  | a :: l => if fits s then [] else a :: shed fits drop (drop s a) l

theorem shed_front : shed fits drop s l <+: l := by
  induction l generalizing s with
  | nil => exact List.prefix_refl _
  | cons a l ih =>
    rw [shed]
    split
    · exact List.nil_prefix
    · exact List.cons_prefix_cons.mpr ⟨rfl, ih⟩

/-- Then the test is met, or nothing more can be dropped. -/
theorem shed_fits :
    fits ((shed fits drop s l).foldl drop s) = true ∨ shed fits drop s l = l := by
  induction l generalizing s with
  | nil => exact .inr rfl
  | cons a l ih =>
    rw [shed]
    split
    · rename_i hfits
      exact .inl hfits
    · exact ih.imp_right fun hall => by rw [hall]

/-- The test is met at no front that is shorter. -/
theorem not_fits_of_shorter {c : List α} (h : c <+: shed fits drop s l)
    (hne : c ≠ shed fits drop s l) : fits (c.foldl drop s) = false := by
  induction l generalizing s c with
  | nil => exact absurd (List.prefix_nil.mp h) hne
  | cons a l ih =>
    rw [shed] at h hne
    cases hfits : fits s with
    | true =>
      rw [if_pos hfits] at h hne
      exact absurd (List.prefix_nil.mp h) hne
    | false =>
      rw [if_neg (by simp [hfits])] at h hne
      cases c with
      | nil => exact hfits
      | cons b c =>
        obtain ⟨rfl, hc⟩ := List.cons_prefix_cons.mp h
        exact @ih (drop s b) c hc fun heq => hne (congrArg (b :: ·) heq)

/-- The front is the first one at which the test is met. -/
structure FirstFit (fits : σ → Bool) (drop : σ → α → σ) (s : σ) (l b : List α) : Prop where
  front : b <+: l
  met : fits (b.foldl drop s) = true
  first : ∀ c, c <+: b → c ≠ b → fits (c.foldl drop s) = false

theorem shed_firstFit (h : shed fits drop s l ≠ l) :
    FirstFit fits drop s l (shed fits drop s l) where
  front := shed_front
  met := shed_fits.resolve_right h
  first _ hc hne := not_fits_of_shorter hc hne

theorem FirstFit.shed_eq {b : List α} (h : FirstFit fits drop s l b) :
    shed fits drop s l = b := by
  -- of two fronts the shorter one is not the first, or not dropped alone
  by_contra hne
  rcases List.prefix_or_prefix_of_prefix (@shed_front _ _ fits drop s l)
    h.front with hshorter | hlonger
  · have hrest : shed fits drop s l ≠ l := fun hall =>
      hne (hshorter.eq_of_length_le (by rw [hall]; exact h.front.length_le))
    exact Bool.noConfusion ((shed_firstFit hrest).met.symm.trans (h.first _ hshorter hne))
  · exact Bool.noConfusion (h.met.symm.trans (not_fits_of_shorter hlonger (Ne.symm hne)))

/-- An item is dropped exactly if the test is met at no front that ends before it. -/
theorem prefix_shed_iff {before : List α} {a : α} (hbefore : before ++ [a] <+: l) :
    before ++ [a] <+: shed fits drop s l ↔
      ∀ b, b <+: before → fits (b.foldl drop s) = false := by
  constructor
  · intro h b hb
    refine not_fits_of_shorter ((hb.trans (List.prefix_append _ _)).trans h) fun heq => ?_
    have hlength := h.length_le
    rw [← heq, List.length_append, List.length_singleton] at hlength
    exact absurd hb.length_le (by omega)
  · intro h
    rcases List.prefix_or_prefix_of_prefix hbefore
      (@shed_front _ _ fits drop s l) with hdropped | hshorter
    · exact hdropped
    · -- otherwise what is dropped ends before the item, though something is left
      rcases List.prefix_concat_iff.mp hshorter with heq | hearlier
      · exact heq ▸ List.prefix_refl _
      · have hrest : shed fits drop s l ≠ l := fun hall => by
          have hlength := hbefore.length_le
          rw [← hall, List.length_append, List.length_singleton] at hlength
          exact absurd hearlier.length_le (by omega)
        exact Bool.noConfusion ((shed_firstFit hrest).met.symm.trans (h _ hearlier))

end Shed

end AriOs.Storage.Blocks
