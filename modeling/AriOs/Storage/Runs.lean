import Mathlib.Algebra.BigOperators.Group.List.Basic
import Mathlib.Algebra.Group.Int.Defs
import Mathlib.Algebra.Ring.Int.Defs
import Mathlib.Data.List.Induction
import Mathlib.Order.Defs.LinearOrder
import Mathlib.Order.Lattice

/-!
# Runs of equal keys

Items that come one after the other with the same key are combined into one. The fold that does it
looks at the last item only. Combining in two steps, first by a finer key and then by a coarser one,
is combining by the coarser one.

## Main results

* `compress_map` — what preserves keys and combinations can be done before or after
* `compress_map_compress` — combining by a finer key first makes no difference
* `forall_mem_compress`, `sum_compress` — what holds of the items, and what they sum up to
* `compress_pairwise` — of keys in order each is left once
-/

namespace AriOs.Storage.Runs

section Push

variable {σ κ : Type} [DecidableEq κ] (key : σ → κ) (combine : σ → σ → σ)

/-- An item is combined with the last one if it has the same key, or put behind it. -/
def push (out : List σ) (x : σ) : List σ :=
  match out.getLast? with
  | some last => if key last = key x then out.dropLast ++ [combine last x] else out ++ [x]
  | none => [x]

/-- Items that come one after the other with the same key are combined. -/
def compress (l : List σ) : List σ := l.foldl (push key combine) []

variable {key combine} {out l : List σ} {a b x y : σ}

@[simp] theorem push_nil : push key combine [] x = [x] := rfl

theorem push_of_eq (h : key y = key x) :
    push key combine (out ++ [y]) x = out ++ [combine y x] := by
  rw [push, List.getLast?_concat]
  simp only [if_pos h, List.dropLast_concat]

theorem push_of_ne (h : key y ≠ key x) : push key combine (out ++ [y]) x = out ++ [y] ++ [x] := by
  rw [push, List.getLast?_concat]
  simp only [if_neg h]

@[simp] theorem compress_nil : compress key combine [] = [] := rfl

theorem compress_concat : compress key combine (l ++ [x]) =
    push key combine (compress key combine l) x := by
  rw [compress, compress, List.foldl_append, List.foldl_cons, List.foldl_nil]

/-- Two items with one key may be combined before they are put in. -/
theorem push_push (hkey : ∀ a b, key a = key b → key (combine a b) = key a)
    (hassoc : ∀ a b c, combine (combine a b) c = combine a (combine b c)) (h : key a = key b) :
    push key combine (push key combine out a) b = push key combine out (combine a b) := by
  rcases List.eq_nil_or_concat out with rfl | ⟨out, y, rfl⟩
  · have hpush : push key combine ([] ++ [a]) b = [] ++ [combine a b] := push_of_eq h
    exact hpush
  · rw [List.concat_eq_append]
    by_cases hy : key y = key a
    · have hya : key (combine y a) = key b := (hkey y a hy).trans (hy.trans h)
      have hab : key y = key (combine a b) := hy.trans (hkey a b h).symm
      rw [push_of_eq hy, push_of_eq hya, push_of_eq hab, hassoc]
    · have hab : key y ≠ key (combine a b) := by rwa [hkey a b h]
      rw [push_of_ne hy, push_of_ne hab, push_of_eq h]

/-- What holds of a combination if and only if it holds of both parts holds of all that is left if
and only if it holds of all items. -/
theorem forall_mem_compress {Q : σ → Prop}
    (hQ : ∀ a b, key a = key b → (Q (combine a b) ↔ Q a ∧ Q b)) :
    (∀ c ∈ compress key combine l, Q c) ↔ ∀ a ∈ l, Q a := by
  induction l using List.reverseRecOn with
  | nil => simp
  | append_singleton l x ih =>
    have hpush : ∀ out : List σ, (∀ c ∈ push key combine out x, Q c) ↔ (∀ c ∈ out, Q c) ∧ Q x := by
      intro out
      rcases List.eq_nil_or_concat out with rfl | ⟨out, y, rfl⟩
      · simp
      · rw [List.concat_eq_append]
        by_cases hy : key y = key x
        · simp only [push_of_eq hy, List.forall_mem_append, List.forall_mem_singleton, hQ y x hy,
            and_assoc]
        · simp only [push_of_ne hy, List.forall_mem_append, List.forall_mem_singleton]
    rw [compress_concat, hpush, ih, List.forall_mem_append, List.forall_mem_singleton]

/-- What holds of a combination of two items for which it holds. -/
theorem forall_mem_compress_of {Q : σ → Prop}
    (hQ : ∀ a b, key a = key b → Q a → Q b → Q (combine a b)) (h : ∀ a ∈ l, Q a) :
    ∀ c ∈ compress key combine l, Q c := by
  induction l using List.reverseRecOn with
  | nil => simp
  | append_singleton l x ih =>
    rw [List.forall_mem_append, List.forall_mem_singleton] at h
    have hl := ih h.1
    rw [compress_concat]
    rcases List.eq_nil_or_concat (compress key combine l) with hout | ⟨out, y, hout⟩
    · rw [hout, push_nil, List.forall_mem_singleton]
      exact h.2
    · rw [List.concat_eq_append] at hout
      rw [hout, List.forall_mem_append, List.forall_mem_singleton] at hl
      rw [hout]
      by_cases hy : key y = key x
      · rw [push_of_eq hy, List.forall_mem_append, List.forall_mem_singleton]
        exact ⟨hl.1, hQ y x hy hl.2 h.2⟩
      · rw [push_of_ne hy, List.forall_mem_append, List.forall_mem_append,
          List.forall_mem_singleton, List.forall_mem_singleton]
        exact ⟨hl, h.2⟩

/-- Combining changes no sum of what combinations add up. -/
theorem sum_compress {w : σ → ℤ} (hw : ∀ a b, w (combine a b) = w a + w b) :
    ((compress key combine l).map w).sum = (l.map w).sum := by
  induction l using List.reverseRecOn with
  | nil => rfl
  | append_singleton l x ih =>
    have hpush : ∀ out : List σ, ((push key combine out x).map w).sum = (out.map w).sum + w x := by
      intro out
      rcases List.eq_nil_or_concat out with rfl | ⟨out, y, rfl⟩
      · simp
      · rw [List.concat_eq_append]
        by_cases hy : key y = key x
        · simp [push_of_eq hy, hw, add_assoc]
        · simp [push_of_ne hy, add_assoc]
    rw [compress_concat, hpush, ih, List.map_append, List.sum_append, List.map_singleton,
      List.sum_singleton]

end Push

section Map

variable {σ τ κ μ : Type} [DecidableEq κ] [DecidableEq μ] {key : σ → κ} {combine : σ → σ → σ}
  {key' : τ → μ} {combine' : τ → τ → τ} {f : σ → τ}

/-- What preserves keys and combinations can be done before or after. -/
theorem compress_map (hkey : ∀ a b, key' (f a) = key' (f b) ↔ key a = key b)
    (hcombine : ∀ a b, f (combine a b) = combine' (f a) (f b)) (l : List σ) :
    compress key' combine' (l.map f) = (compress key combine l).map f := by
  induction l using List.reverseRecOn with
  | nil => rfl
  | append_singleton l x ih =>
    rw [List.map_append, List.map_singleton, compress_concat, compress_concat, ih]
    rcases List.eq_nil_or_concat (compress key combine l) with hout | ⟨out, y, hout⟩
    · rw [hout]
      rfl
    · rw [hout, List.concat_eq_append, List.map_append, List.map_singleton]
      by_cases hy : key y = key x
      · rw [push_of_eq hy, push_of_eq ((hkey y x).mpr hy), List.map_append, List.map_singleton,
          hcombine]
      · rw [push_of_ne hy, push_of_ne fun h => hy ((hkey y x).mp h), List.map_append,
          List.map_append, List.map_singleton, List.map_singleton]

/-- Combining by a finer key first makes no difference. -/
theorem compress_map_compress (hkey : ∀ a b, key a = key b → key' (f a) = key' (f b))
    (hcombine : ∀ a b, f (combine a b) = combine' (f a) (f b))
    (hkey' : ∀ a b, key' a = key' b → key' (combine' a b) = key' a)
    (hassoc : ∀ a b c, combine' (combine' a b) c = combine' a (combine' b c)) (l : List σ) :
    compress key' combine' ((compress key combine l).map f) =
      compress key' combine' (l.map f) := by
  induction l using List.reverseRecOn with
  | nil => rfl
  | append_singleton l x ih =>
    rw [compress_concat, List.map_append, List.map_singleton, compress_concat, ← ih]
    rcases List.eq_nil_or_concat (compress key combine l) with hout | ⟨out, y, hout⟩
    · rw [hout]
      rfl
    · rw [hout, List.concat_eq_append]
      by_cases hy : key y = key x
      · rw [push_of_eq hy, List.map_append, List.map_singleton, compress_concat, List.map_append,
          List.map_singleton, compress_concat, push_push hkey' hassoc (hkey y x hy), hcombine]
      · rw [push_of_ne hy, List.map_append, List.map_singleton, compress_concat]

end Map

section Order

variable {σ κ : Type} [LinearOrder κ] {key : σ → κ} {combine : σ → σ → σ} {l : List σ}

/-- Of keys in order each is left once. -/
theorem compress_pairwise (hkey : ∀ a b, key a = key b → key (combine a b) = key a)
    (h : l.Pairwise fun a b => key a ≤ key b) :
    (compress key combine l).Pairwise fun a b => key a < key b := by
  induction l using List.reverseRecOn with
  | nil => exact .nil
  | append_singleton l x ih =>
    obtain ⟨hl, -, hx⟩ := List.pairwise_append.mp h
    -- nothing that came before has a larger key
    have hbefore : ∀ c ∈ compress key combine l, key c ≤ key x :=
      forall_mem_compress_of (fun a b hab ha _ => (hkey a b hab).trans_le ha)
        fun a ha => hx a ha x (List.mem_singleton.mpr rfl)
    have hsorted := ih hl
    rw [compress_concat]
    rcases List.eq_nil_or_concat (compress key combine l) with hout | ⟨out, y, hout⟩
    · rw [hout]
      exact List.pairwise_singleton _ _
    · rw [List.concat_eq_append] at hout
      rw [hout] at hsorted hbefore ⊢
      obtain ⟨hout', -, hy⟩ := List.pairwise_append.mp hsorted
      -- the new element joins the last one or comes behind it
      by_cases hxy : key y = key x
      · rw [push_of_eq hxy, List.pairwise_append]
        refine ⟨hout', List.pairwise_singleton _ _, fun a ha b hb => ?_⟩
        obtain rfl := List.mem_singleton.mp hb
        rw [hkey y x hxy]
        exact hy a ha y (List.mem_singleton.mpr rfl)
      · rw [push_of_ne hxy, List.pairwise_append]
        refine ⟨hsorted, List.pairwise_singleton _ _, fun a ha b hb => ?_⟩
        obtain rfl := List.mem_singleton.mp hb
        have hlast : key y < key b :=
          lt_of_le_of_ne (hbefore y (List.mem_append_right _ (List.mem_singleton.mpr rfl))) hxy
        rcases List.mem_append.mp ha with ha | ha
        · exact (hy a ha y (List.mem_singleton.mpr rfl)).trans hlast
        · rw [List.mem_singleton.mp ha]
          exact hlast

end Order

end AriOs.Storage.Runs
