import AriOs.Async.Pool

/-!
# The same programs in another environment

What a body does depends on the answers it is handed, not on where they come from. So a body
can be run against a machine that takes something else from its environment for each call: one
in which calls fail that could not fail before, or one that works out an answer which was left
to the environment before. What was shown of the body alone, under a discipline, still holds.

## Main results

* `Prog.safe_within` — what was shown of a body holds of it there
* `Call.view_within` — what such a call knows is what the original would
-/

namespace AriOs.Async

variable {I : Interface} {V α ε ρ : Type}

/-- The same calls, to which the environment contributes something else. -/
def Interface.within (I : Interface) (A : I.Op → Type) : Interface := ⟨I.Op, A, I.Res⟩

variable {A : I.Op → Type}

/-- A call, whatever the environment contributed to it. -/
def Entry.outside (e : Entry (I.within A)) : Entry I := ⟨e.op, e.res⟩

/-- A body, in the other environment. -/
def Prog.within (A : I.Op → Type) : Prog I α → Prog (I.within A) α
  | .pure a => .pure a
  | .call o k => .call (I := I.within A) o fun r => (k r).within A

/-- A discipline, in the other environment. -/
def Discipline.within (A : I.Op → Type) (D : Discipline I V) : Discipline (I.within A) V where
  upd v e := D.upd v e.outside
  pre v o := D.pre v o
  adm v e := D.adm v e.outside

theorem Prog.safe_within {D : Discipline I V} {post : V → α → Prop} {p : Prog I α} {v : V} :
    (p.within A).Safe (D.within A) post v ↔ p.Safe D post v := by
  induction p generalizing v with
  | pure a => rfl
  | call o k ih => exact and_congr_right fun _ => forall_congr' fun r => imp_congr_right fun _ => ih r

/-- A call knows what it would know had its answers come from the original environment. -/
theorem Call.view_within {D : Discipline I V} {start : ρ → V} (c : Call (I.within A) ρ α) :
    c.view (D.within A) start = (c.history.map Entry.outside).foldl D.upd (start c.request) := by
  rw [Call.view, List.foldl_map]
  rfl

/-- A call that forgets nothing knows its request and its own calls. -/
theorem Call.view_within_push {D : Discipline I (Trace I ρ)} (hD : D.upd = Trace.push)
    (c : Call (I.within A) ρ α) :
    c.view (D.within A) Trace.start = ⟨c.request, c.history.map Entry.outside⟩ := by
  rw [Call.view_within, hD, Trace.foldl_push]
  rfl

end AriOs.Async
