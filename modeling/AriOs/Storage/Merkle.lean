import Mathlib.Data.List.Basic

/-!
# Hash trees over lists

The digests of a list are joined in pairs and hashed, level by level, until one is left. The last
digest of a level of odd length is joined with itself, so that lists of different lengths may have
the same root. With the length, the root determines the list as long as no two of the texts that are
hashed have the same digest.

## Main definitions

* `nextLevel`, `root` — one level, and the last one

## Main results

* `eq_of_root_eq` — lists of the same length and root are the same
-/

namespace AriOs.Storage.Merkle

variable {α β : Type} (join : α → α → β) (hash : β → α)

/-- The texts of the next level. -/
def pairUp : List α → List β
  | a :: b :: level => join a b :: pairUp level
  | [a] => [join a a]
  | [] => []

def nextLevel (level : List α) : List α := (pairUp join level).map hash

theorem length_pairUp (level : List α) : (pairUp join level).length = (level.length + 1) / 2 := by
  induction level using pairUp.induct with
  | case1 a b level ih =>
    rw [pairUp, List.length_cons, ih, List.length_cons, List.length_cons]
    omega
  | case2 a => simp [pairUp]
  | case3 => simp [pairUp]

theorem length_nextLevel (level : List α) :
    (nextLevel join hash level).length = (level.length + 1) / 2 := by
  rw [nextLevel, List.length_map, length_pairUp]

/-- The digest that is left; a list of none has none. -/
def root (level : List α) : Option α :=
  if level.length ≤ 1 then level.head? else root (nextLevel join hash level)
termination_by level.length
decreasing_by
  rw [length_nextLevel]
  omega

/-- What is hashed for a root. -/
def hashed (level : List α) : List β :=
  if level.length ≤ 1 then []
  else pairUp join level ++ hashed (nextLevel join hash level)
termination_by level.length
decreasing_by
  rw [length_nextLevel]
  omega

/-- No two of the texts have the same digest. -/
def NoCollision (texts : List β) : Prop :=
  ∀ s ∈ texts, ∀ s' ∈ texts, hash s = hash s' → s = s'

variable {join hash} {l l' : List α}

theorem NoCollision.subset {texts texts' : List β} (h : NoCollision hash texts')
    (hsub : texts ⊆ texts') : NoCollision hash texts :=
  fun s hs s' hs' => h s (hsub hs) s' (hsub hs')

theorem root_of_short (h : l.length ≤ 1) : root join hash l = l.head? := by rw [root, if_pos h]

theorem root_of_long (h : ¬ l.length ≤ 1) :
    root join hash l = root join hash (nextLevel join hash l) := by rw [root, if_neg h]

theorem hashed_of_long (h : ¬ l.length ≤ 1) :
    hashed join hash l = pairUp join l ++ hashed join hash (nextLevel join hash l) := by
  rw [hashed, if_neg h]

theorem exists_root (h : l ≠ []) : ∃ r, root join hash l = some r := by
  induction l using root.induct join hash with
  | case1 level hshort =>
    rw [root_of_short hshort]
    exact ⟨_, List.head?_eq_some_head h⟩
  | case2 level hlong ih =>
    rw [root_of_long hlong]
    refine ih (List.ne_nil_of_length_pos ?_)
    rw [length_nextLevel]
    omega

/-! ### The list is determined -/

/-- Lists of the same length are paired up alike only if they are the same, where joining is. -/
theorem eq_of_pairUp_eq {good : α → Prop}
    (hjoin : ∀ a b c d, good a → good b → good c → good d → join a b = join c d → a = c ∧ b = d)
    (hl : ∀ a ∈ l, good a) (hl' : ∀ a ∈ l', good a) (hlength : l.length = l'.length)
    (h : pairUp join l = pairUp join l') : l = l' := by
  induction l using pairUp.induct generalizing l' with
  | case1 a b level ih =>
    obtain _ | ⟨c, _ | ⟨d, level'⟩⟩ := l'
    · simp at hlength
    · simp at hlength
    · rw [pairUp, pairUp] at h
      obtain ⟨hhead, htail⟩ := List.cons.inj h
      simp only [List.forall_mem_cons] at hl hl'
      obtain ⟨rfl, rfl⟩ := hjoin a b c d hl.1 hl.2.1 hl'.1 hl'.2.1 hhead
      rw [ih hl.2.2 hl'.2.2 (by simpa using hlength) htail]
  | case2 a =>
    obtain ⟨c, rfl⟩ := List.length_eq_one_iff.mp hlength.symm
    rw [pairUp, pairUp] at h
    simp only [List.mem_singleton, forall_eq] at hl hl'
    rw [(hjoin a a c c hl hl hl' hl' (List.cons.inj h).1).1]
  | case3 => exact (List.length_eq_zero_iff.mp hlength.symm).symm

/-- Texts without a collision are determined by their digests. -/
theorem eq_of_map_hash_eq {texts texts' : List β} (hnone : NoCollision hash (texts ++ texts'))
    (h : texts.map hash = texts'.map hash) : texts = texts' := by
  have hlength : texts.length = texts'.length := by simpa using congrArg List.length h
  refine List.ext_getElem hlength fun i hi hi' => ?_
  refine hnone _ (List.mem_append_left _ (List.getElem_mem hi)) _
    (List.mem_append_right _ (List.getElem_mem hi')) ?_
  have hdigest := congrArg (·[i]?) h
  simpa [hi, hi'] using hdigest

/-- **Lists of the same length and root are the same**, unless two texts that are hashed for them
have the same digest. Joining has to be injective on a set of digests that holds the lists and all
digests of texts. -/
theorem eq_of_root_eq {good : α → Prop}
    (hjoin : ∀ a b c d, good a → good b → good c → good d → join a b = join c d → a = c ∧ b = d)
    (hgood : ∀ s, good (hash s)) (hl : ∀ a ∈ l, good a) (hl' : ∀ a ∈ l', good a)
    (hlength : l.length = l'.length)
    (hnone : NoCollision hash (hashed join hash l ++ hashed join hash l'))
    (h : root join hash l = root join hash l') : l = l' := by
  induction l using root.induct join hash generalizing l' with
  | case1 level hshort =>
    rw [root_of_short hshort, root_of_short (hlength ▸ hshort)] at h
    -- both are empty, or both hold one digest
    match level, l' with
    | [], [] => rfl
    | [a], [b] => rw [Option.some.inj h]
    | [], _ :: _ => simp at hlength
    | [_], [] => simp at hlength
    | [_], _ :: _ :: _ => simp at hlength
    | _ :: _ :: _, _ => simp at hshort
  | case2 level hlong ih =>
    have hlong' : ¬ l'.length ≤ 1 := hlength ▸ hlong
    rw [root_of_long hlong, root_of_long hlong'] at h
    rw [hashed_of_long hlong, hashed_of_long hlong'] at hnone
    have hdigests : ∀ level : List α, ∀ a ∈ nextLevel join hash level, good a := by
      intro level a ha
      obtain ⟨s, -, rfl⟩ := List.mem_map.mp ha
      exact hgood s
    have hnext : nextLevel join hash level = nextLevel join hash l' := by
      refine ih (hdigests level) (hdigests l') ?_ (hnone.subset ?_) h
      · rw [length_nextLevel, length_nextLevel, hlength]
      · intro s hs
        simp only [List.mem_append] at hs ⊢
        tauto
    refine eq_of_pairUp_eq hjoin hl hl' hlength (eq_of_map_hash_eq (hnone.subset ?_) hnext)
    intro s hs
    simp only [List.mem_append] at hs ⊢
    tauto

end AriOs.Storage.Merkle
