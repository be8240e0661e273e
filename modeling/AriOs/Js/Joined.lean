import Mathlib.Data.List.Basic

/-!
# Texts joined with a separator

Two parts joined with a separator are read back from the joined text, unless the parts contain
the separator themselves: then a piece of the text may belong to the one part or to the other.

## Main results

* `joined_eq_joined_iff` — the texts are the same if the parts are, or are shifted
* `joined_toString_inj` — a number at the end is read back
-/

namespace AriOs.Js

theorem append_cons_eq_append_cons_iff {α : Type} {c : α} {a b a' b' : List α} :
    a ++ c :: b = a' ++ c :: b' ↔ (a = a' ∧ b = b') ∨
      (∃ r, a' = a ++ c :: r ∧ b = r ++ c :: b') ∨ ∃ r, a = a' ++ c :: r ∧ b' = r ++ c :: b := by
  constructor
  · intro h
    rcases List.append_eq_append_iff.mp h with ⟨r, rfl, hr⟩ | ⟨r, rfl, hr⟩
    · cases r with
      | nil => exact .inl ⟨by simp, (List.cons.inj hr).2⟩
      | cons d r =>
        obtain ⟨rfl, rfl⟩ := List.cons.inj hr
        exact .inr (.inl ⟨r, rfl, rfl⟩)
    · cases r with
      | nil => exact .inl ⟨by simp, (List.cons.inj hr).2.symm⟩
      | cons d r =>
        obtain ⟨rfl, rfl⟩ := List.cons.inj hr
        exact .inr (.inr ⟨r, rfl, rfl⟩)
  · rintro (⟨rfl, rfl⟩ | ⟨r, rfl, rfl⟩ | ⟨r, rfl, rfl⟩) <;> simp

/-- `` `${a}:${b}` ``. -/
def joined (a b : String) : String := a ++ ":" ++ b

/-- A piece stands at the beginning of `b` and, after `a`, at the end of `a'`. -/
def Shifted (a b a' b' : String) : Prop := ∃ r, a' = joined a r ∧ b = joined r b'

variable {a b a' b' : String}

theorem toList_joined : (joined a b).toList = a.toList ++ ':' :: b.toList := by
  simp [joined]

theorem joined_eq_iff {c : String} :
    c = joined a b ↔ c.toList = a.toList ++ ':' :: b.toList := by
  rw [← toList_joined, String.toList_inj]

/-- Texts joined alike are joined from the same parts, or from parts that are shifted. -/
theorem joined_eq_joined_iff : joined a b = joined a' b' ↔
    (a = a' ∧ b = b') ∨ Shifted a b a' b' ∨ Shifted a' b' a b := by
  have hshifted : ∀ a b a' b' : String, Shifted a b a' b' ↔
      ∃ r, a'.toList = a.toList ++ ':' :: r ∧ b.toList = r ++ ':' :: b'.toList := by
    intro a b a' b'
    constructor
    · rintro ⟨r, ha, hb⟩
      exact ⟨r.toList, joined_eq_iff.mp ha, joined_eq_iff.mp hb⟩
    · rintro ⟨r, ha, hb⟩
      exact ⟨String.ofList r, joined_eq_iff.mpr (by simpa using ha),
        joined_eq_iff.mpr (by simpa using hb)⟩
  rw [← String.toList_inj, toList_joined, toList_joined, append_cons_eq_append_cons_iff,
    hshifted, hshifted, String.toList_inj, String.toList_inj]

/-- Parts are shifted only where the longer one contains the separator. -/
theorem Shifted.colon_mem (h : Shifted a b a' b') : ':' ∈ a'.toList := by
  obtain ⟨r, rfl, -⟩ := h
  simp [toList_joined]

theorem colon_not_mem_toString (n : Nat) : ':' ∉ (toString n).toList := by
  intro h
  rw [Nat.toString_eq_repr, Nat.toList_repr] at h
  exact absurd (Nat.isDigit_of_mem_toDigits (by decide) (by decide) h) (by decide)

/-- A number at the end is read back: it contains no separator. -/
theorem joined_toString_inj {n n' : Nat} (h : joined a (toString n) = joined a' (toString n')) :
    a = a' ∧ n = n' := by
  rcases joined_eq_joined_iff.mp h with ⟨ha, hn⟩ | hshifted | hshifted
  · have hdigits := congrArg (fun s => Nat.ofDigitChars 10 s.toList 0) hn
    refine ⟨ha, ?_⟩
    simpa only [Nat.toString_eq_repr, Nat.toList_repr,
      Nat.ofDigitChars_toDigits (by decide : 1 < 10) (by decide : 10 ≤ 10)] using hdigits
  · obtain ⟨r, -, hr⟩ := hshifted
    exact absurd (by rw [hr]; simp [toList_joined]) (colon_not_mem_toString n)
  · obtain ⟨r, -, hr⟩ := hshifted
    exact absurd (by rw [hr]; simp [toList_joined]) (colon_not_mem_toString n')

end AriOs.Js
