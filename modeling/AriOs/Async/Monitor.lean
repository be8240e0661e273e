import AriOs.Async.Routine

/-!
# Monitors

A run is watched call by call: what is promised before a call may depend on all calls before it,
with their answers. What is shown of a body for all answers holds of every call of each of its
transcripts.

## Main results

* `each_concat` — one more call
* `Prog.Safe.each` — the promises are kept in every transcript
* `Prog.each_transcript` — what holds of all answers of an environment
-/

namespace AriOs.Async

variable {I : Interface} {α : Type}

/-- Every call satisfies `P`, seen from the calls before it. -/
def Each (P : List (Entry I) → Entry I → Prop) (h : List (Entry I)) : Prop :=
  ∀ before e after, h = before ++ e :: after → P before e

theorem each_nil (P : List (Entry I) → Entry I → Prop) : Each P [] := by
  intro before e after h
  simp at h

theorem each_concat {P : List (Entry I) → Entry I → Prop} {h : List (Entry I)} {e : Entry I} :
    Each P (h ++ [e]) ↔ Each P h ∧ P h e := by
  constructor
  · intro heach
    refine ⟨fun before e' after hh => heach before e' (after ++ [e]) ?_, heach h e [] rfl⟩
    rw [hh, List.append_assoc, List.cons_append]
  · rintro ⟨heach, he⟩ before e' after hh
    rcases List.eq_nil_or_concat after with rfl | ⟨after, e'', rfl⟩
    · obtain ⟨rfl, hlast⟩ := List.append_inj' hh rfl
      obtain rfl := List.singleton_inj.mp hlast
      exact he
    · rw [List.concat_eq_append, ← List.cons_append, ← List.append_assoc] at hh
      exact heach before e' after (List.append_inj' hh rfl).1

/-- What holds of all calls holds of those of an earlier part. -/
theorem Each.of_append {P : List (Entry I) → Entry I → Prop} {h h' : List (Entry I)}
    (heach : Each P (h ++ h')) : Each P h := by
  intro before e after hh
  refine heach before e (after ++ h') ?_
  rw [hh, List.append_assoc, List.cons_append]

/-- The discipline that records every call, and promises something before it. -/
def Discipline.promising (pre : List (Entry I) → I.Op → Prop) : Discipline I (List (Entry I)) where
  upd h e := h ++ [e]
  pre := pre
  adm _ _ := True

/-- What is promised before the calls of a body holds before the calls of each of its runs. -/
theorem Prog.Safe.each {pre : List (Entry I) → I.Op → Prop} {post : List (Entry I) → α → Prop}
    {p : Prog I α} {h : List (Entry I)} (hp : p.Safe (.promising pre) post h)
    (hh : Each (fun before e => pre before e.op) h) (env : Environment I) :
    Each (fun before e => pre before e.op) (p.transcript env h) ∧
      ∃ a, post (p.transcript env h) a := by
  induction p generalizing h with
  | pure a => exact ⟨hh, a, hp⟩
  | call o k ih => exact ih (env h o) (hp.2 (env h o) trivial) (each_concat.mpr ⟨hh, hp.1⟩)

/-- What holds of every answer an environment gives holds of each call of a run. -/
theorem Prog.each_transcript {P : List (Entry I) → Entry I → Prop} {env : Environment I}
    (hP : ∀ h o, P h ⟨o, env h o⟩) (p : Prog I α) {h : List (Entry I)} (hh : Each P h) :
    Each P (p.transcript env h) := by
  induction p generalizing h with
  | pure a => exact hh
  | call o k ih => exact ih (env h o) (each_concat.mpr ⟨hh, hP h o⟩)

end AriOs.Async
