import Mathlib.Data.List.Basic
import Mathlib.Data.List.Count

/-!
# Numbered parties

The parties of a system are kept in a list and named by their place in it. A party is replaced
where it stands, and a new one is put at the end.
-/

namespace AriOs.Async

variable {α : Type} {l : List α} {i j : Nat} {x y : α}

/-- After a party was replaced: it is the new one, or another party as it was. -/
theorem getElem?_set_cases (h : (l.set i x)[j]? = some y) :
    (j = i ∧ y = x) ∨ (j ≠ i ∧ l[j]? = some y) := by
  rw [List.getElem?_set] at h
  split at h
  · split at h
    · left; exact ⟨by omega, by simpa using h.symm⟩
    · simp at h
  · right; exact ⟨by omega, h⟩

/-- After a party was added: it is the new one, or one that was there. -/
theorem getElem?_append_singleton_cases (h : (l ++ [x])[j]? = some y) :
    (j = l.length ∧ y = x) ∨ l[j]? = some y := by
  rcases Nat.lt_or_ge j l.length with hlt | hge
  · right
    rwa [List.getElem?_append_left hlt] at h
  · left
    rw [List.getElem?_append_right hge] at h
    have hzero : j - l.length = 0 := by
      by_contra hne
      rw [List.getElem?_eq_none (by simp; omega)] at h
      simp at h
    exact ⟨by omega, by simpa [hzero] using h.symm⟩

/-- The replaced party, where there was one. -/
theorem getElem?_set_of_some (h : l[i]? = some y) : (l.set i x)[i]? = some x := by
  rw [List.getElem?_set_self]
  exact (List.getElem?_eq_some_iff.mp h).1

/-- A party that was there stays where it is when one is added. -/
theorem getElem?_append_of_some (h : l[j]? = some y) (l' : List α) : (l ++ l')[j]? = some y := by
  rw [List.getElem?_append_left (List.getElem?_eq_some_iff.mp h).1, h]

/-- How a count changes when a party is replaced. -/
theorem countP_set_add (p : α → Bool) (h : l[i]? = some y) :
    (l.set i x).countP p + (if p y then 1 else 0) = l.countP p + (if p x then 1 else 0) := by
  obtain ⟨hi, rfl⟩ := List.getElem?_eq_some_iff.mp h
  have hle : (if p l[i] = true then 1 else 0) ≤ l.countP p := List.boole_getElem_le_countP hi
  rw [List.countP_set hi]
  omega

theorem countP_set_eq (p : α → Bool) (h : l[i]? = some y) (hp : p x = p y) :
    (l.set i x).countP p = l.countP p := by
  have hadd := countP_set_add (x := x) p h
  rw [hp] at hadd
  exact Nat.add_right_cancel hadd

/-- What holds of all parties, and of the new one. -/
theorem forall_mem_set {P : α → Prop} (h : ∀ y ∈ l, P y) (hx : P x) : ∀ y ∈ l.set i x, P y := by
  intro y hy
  rcases List.mem_or_eq_of_mem_set hy with hy | rfl
  · exact h y hy
  · exact hx

end AriOs.Async
