import AriOs.Js.Json
import AriOs.Js.Record

/-!
# Strategies

A strategy is a row of a table: what it is, whether it is active, when it is due and how far it
has come. The parameters are a record of JSON values; those of a stored row are what their text
reads back as.
-/

namespace AriOs.Strategy

open AriOs.Js AriOs.Storage

inductive StrategyKind where
  | dca | twap | trailingStop | takeProfit
  deriving DecidableEq, Repr

inductive StrategyStatus where
  | active | paused | done | errored
  deriving DecidableEq, Repr

abbrev Params := Record String JsValue

/-- A parameter, `undefined` if it is not there. -/
def Params.value (p : Params) (key : String) : JsValue := (p.get key).getD .undefined

/-- The number a value is, if it is finite. -/
def num? : JsValue → Option ℚ
  | .number (.finite q) => some q
  | _ => none

/-- `num`. -/
def num (v : JsValue) (d : ℚ) : ℚ := (num? v).getD d

/-- `str`. -/
def str (v : JsValue) (d : String) : String := v.text?.getD d

structure StrategyRow where
  id : String
  kind : StrategyKind
  status : StrategyStatus
  params : Params
  nextRunAt : ℚ
  lastRunAt : Option ℚ
  runs : Nat
  errors : Nat
  lastError : Option String

abbrev StrategyStore := Table StrategyRow.id

/-- The parameters as their text reads back. -/
def Params.persisted (p : Params) : Params := p.filterMap JsValue.jsonRoundTrip

theorem num?_jsonRoundTrip (v : Option JsValue) :
    num? ((v.bind JsValue.jsonRoundTrip).getD .undefined) = num? (v.getD .undefined) := by
  cases v with
  | none => rfl
  | some v =>
    cases v with
    | number n => cases n <;> rfl
    | undefined | null | bool | bigint | string | array | object | other => rfl

/-- A number that is stored is read back. -/
@[simp] theorem num_persisted (p : Params) (key : String) (d : ℚ) :
    num (p.persisted.value key) d = num (p.value key) d := by
  rw [num, Params.value, Params.persisted, Record.get_filterMap, num?_jsonRoundTrip]
  rfl

theorem Params.value_set (p : Params) (key key' : String) (v : JsValue) :
    Params.value (Record.set p key v) key' = if key' = key then v else p.value key' := by
  rw [Params.value, Record.get_set]
  split <;> rfl

namespace StrategyStore

variable (s : StrategyStore)

/-- `create`, with the id that was drawn. -/
def create (id : String) (kind : StrategyKind) (params : Params) (firstRunAt : ℚ) :
    Option StrategyStore :=
  s.insert? ⟨id, kind, .active, params.persisted, firstRunAt, none, 0, 0, none⟩

/-- `due`: active strategies whose next run is due, the oldest deadline first. -/
def due (now : ℚ) : List StrategyRow :=
  (s.rows.filter fun r => r.status = .active && r.nextRunAt ≤ now).insertionSort
    fun a b => a.nextRunAt ≤ b.nextRunAt

/-- `save`: everything but what is read-only. -/
def save (row : StrategyRow) : StrategyStore :=
  s.update (fun r => r.id = row.id)
    (fun r => { row with id := r.id, kind := r.kind, params := row.params.persisted }) fun _ => rfl

/-- `setStatus`, and whether there is such a row. -/
def setStatus (id : String) (status : StrategyStatus) : Bool × StrategyStore :=
  ((s.find? id).isSome, s.update (fun r => r.id = id) (fun r => { r with status }) fun _ => rfl)

variable {s : StrategyStore} {r r' row : StrategyRow} {id : String} {now : ℚ}

theorem mem_due : r ∈ s.due now ↔ r ∈ s.rows ∧ r.status = .active ∧ r.nextRunAt ≤ now := by
  simp [due]

theorem due_nodup : ((s.due now).map StrategyRow.id).Nodup := by
  have hperm : (s.due now).Perm (s.rows.filter fun r => r.status = .active && r.nextRunAt ≤ now) :=
    List.perm_insertionSort _ _
  rw [(hperm.map StrategyRow.id).nodup_iff]
  exact s.nodup.sublist (List.filter_sublist.map _)

theorem find?_save : (s.save row).find? id =
    (s.find? id).map fun r => if r.id = row.id then
      { row with id := r.id, kind := r.kind, params := row.params.persisted } else r := by
  rw [save, Table.find?_update]
  simp

theorem find?_setStatus {status : StrategyStatus} {id' : String} :
    (s.setStatus id status).2.find? id' =
      (s.find? id').map fun r => if r.id = id then { r with status } else r := by
  rw [setStatus, Table.find?_update]
  simp

end StrategyStore

end AriOs.Strategy
