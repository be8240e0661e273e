import AriOs.Js.Numeral
import AriOs.Js.Throw

/-!
# Schedules

A schedule is a moment, an interval, or five cron fields in UTC. After a moment, its next time is
its least occurrence after that moment. What an occurrence is does not depend on how it is looked
for: `Schedule.Occurs` says it for each kind of schedule, and the occurrences after one of them
are the later ones of those before.
-/

namespace AriOs.Autonomy.Jobs

open AriOs.Js

/-! ### Cron fields -/

structure ParsedField where
  values : List Nat
  wildcard : Bool

/-- The bounds of one part of a field. -/
def partBounds (min max : Nat) (base : List Char) : Except String (Nat × Nat) := do
  let (lo, hi) ←
    if base = ['*'] then pure (JsNumber.ofInt min, JsNumber.ofInt max)
    else if '-' ∈ base then
      match splitOnChar '-' base with
      | [lo, hi] => pure (toNumber lo, toNumber hi)
      | _ => .error "Invalid cron field"
    else pure (toNumber base, toNumber base)
  match lo.toBigInt?, hi.toBigInt? with
  | some lo, some hi =>
    throwIf (lo < min ∨ max < hi ∨ hi < lo) "Invalid cron field"
    return (lo.toNat, hi.toNat)
  | _, _ => .error "Invalid cron field"

/-- The step of one part of a field. -/
def partStep : Option (List Char) → Except String Nat
  | none => return 1
  | some text => do
    let step ← orThrow ((toNumber text).toBigInt?.filter fun i => 0 < i) "Invalid cron field"
    return step.toNat

/-- The values of one part of a field. -/
def partValues (min max : Nat) (sunday : Bool) (part : List Char) : Except String (List Nat) := do
  let pieces := splitOnChar '/' part
  let step ← partStep pieces[1]?
  let (lo, hi) ← partBounds min max (pieces.headD [])
  let xs := ((List.range (hi - lo + 1)).filter fun i => i % step = 0).map fun i => lo + i
  return xs.map fun x => if sunday ∧ x = 7 then 0 else x

/-- `field`. -/
def field (text : List Char) (min max : Nat) (sunday : Bool) : Except String ParsedField := do
  let parts ← (splitOnChar ',' text).mapM (partValues min max sunday)
  return ⟨parts.flatten, text = ['*']⟩

structure CronFields where
  minute : ParsedField
  hour : ParsedField
  dom : ParsedField
  month : ParsedField
  dow : ParsedField

/-- The five fields of a cron schedule. -/
def cronFields (cron : String) : Except String CronFields :=
  match words cron with
  | [mi, h, dom, mo, dow] => do
    let minute ← field mi 0 59 false
    let hour ← field h 0 23 false
    let dom ← field dom 1 31 false
    let month ← field mo 1 12 false
    let dow ← field dow 0 7 true
    return { minute, hour, dom, month, dow }
  | _ => .error "Invalid cron schedule"

/-! ### Dates -/

/-- Month and day of the month, from the days since the epoch: years are counted from March on,
in eras of 400. -/
def monthAndDay (days : Nat) : Nat × Nat :=
  let z := days + 719468
  let doe := z % 146097
  let yoe := (doe - doe / 1460 + doe / 36524 - doe / 146096) / 365
  let doy := doe - (365 * yoe + yoe / 4 - yoe / 100)
  let mp := (5 * doy + 2) / 153
  (if mp < 10 then mp + 3 else mp - 9, doy - (153 * mp + 2) / 5 + 1)

example : monthAndDay 0 = (1, 1) ∧ monthAndDay 59 = (3, 1) ∧ monthAndDay 11016 = (2, 29) := by
  decide

/-- The last moment that has a date. -/
def maxDate : Nat := 8640000000000000

/-- The minute at `t` is selected: without a date there is nothing to select. -/
def CronFields.matches (fs : CronFields) (t : Nat) : Bool :=
  let days := t / 86400000
  let (month, date) := monthAndDay days
  let domMatch := fs.dom.values.contains date
  let dowMatch := fs.dow.values.contains ((days + 4) % 7)
  let day :=
    if fs.dom.wildcard then dowMatch
    else if fs.dow.wildcard then domMatch
    else domMatch || dowMatch
  t ≤ maxDate && fs.minute.values.contains (t / 60000 % 60) &&
    fs.hour.values.contains (t / 3600000 % 24) && fs.month.values.contains month && day

/-! ### The next time -/

inductive Schedule where
  | at (n : JsNumber)
  | everyMs (n : JsNumber)
  | cron (text : String)

/-- `"at" in schedule`. -/
def Schedule.isOneShot : Schedule → Bool
  | .at _ => true
  | _ => false

/-- How many minutes are looked at: those of eight years. -/
def cronHorizon : Nat := 60 * 24 * 366 * 8

/-- The search through the minutes from `t` on. -/
def firstMatch (fs : CronFields) : Nat → Nat → Option Nat
  | 0, _ => none
  | n + 1, t => if fs.matches t then some t else firstMatch fs n (t + 60000)

/-- A timestamp that is a safe integer and not negative. -/
def safeTime? (n : JsNumber) : Option Nat :=
  ((JsValue.number n).safeInteger?.filter fun i => 0 ≤ i).map Int.toNat

def nextScheduleTime (schedule : Schedule) (after : JsNumber) : Except String Nat := do
  let after ← orThrow (safeTime? after) "Invalid schedule timestamp"
  match schedule with
  | .at n => orThrow ((safeTime? n).filter fun t => after < t) "One-shot schedule is in the past"
  | .everyMs n => do
    let every ← orThrow ((safeTime? n).filter fun m => 0 < m) "Invalid interval"
    throwIf ((JsNumber.ofInt ↑(after + every)).isSafeInteger = false) "Invalid interval"
    return after + every
  | .cron text => do
    let fs ← cronFields text
    orThrow (firstMatch fs cronHorizon (after / 60000 * 60000 + 60000))
      "Cron schedule has no occurrence"

/-! ### Occurrences -/

/-- `t` is an occurrence of the schedule, counted from `since`. -/
def Schedule.Occurs (since : Nat) : Schedule → Nat → Prop
  | .at n, t => n = .ofInt t ∧ since < t
  | .everyMs n, t => ∃ every : Nat, n = .ofInt every ∧ 0 < every ∧ since < t ∧ every ∣ t - since
  | .cron text, t => since < t ∧ 60000 ∣ t ∧ ∃ fs, cronFields text = .ok fs ∧ fs.matches t = true

variable {schedule : Schedule} {since after t t' : Nat}

theorem Schedule.Occurs.lt (h : schedule.Occurs since t) : since < t := by
  cases schedule with
  | «at» n => exact h.2
  | everyMs n =>
    obtain ⟨every, -, -, hlt, -⟩ := h
    exact hlt
  | cron text => exact h.1

/-- After an occurrence, the occurrences are those counted from it. -/
theorem Schedule.occurs_from (h : schedule.Occurs since t) (hlt : t < t') :
    schedule.Occurs since t' ↔ schedule.Occurs t t' := by
  cases schedule with
  | «at» n =>
    obtain ⟨rfl, -⟩ := h
    constructor
    · rintro ⟨heq, -⟩
      exact ⟨heq, hlt⟩
    · rintro ⟨heq, -⟩
      have : (t : ℤ) = t' := by simpa [JsNumber.ofInt] using heq
      omega
  | everyMs n =>
    obtain ⟨every, rfl, hpos, hsince, hdvd⟩ := h
    -- a multiple of the period is added
    have hsplit : t' - since = (t' - t) + (t - since) := by omega
    constructor
    · rintro ⟨every', heq, -, -, hdvd'⟩
      obtain rfl : every = every' := by simpa [JsNumber.ofInt] using heq
      rw [hsplit] at hdvd'
      exact ⟨every, rfl, hpos, hlt, (Nat.dvd_add_left hdvd).mp hdvd'⟩
    · rintro ⟨every', heq, -, -, hdvd'⟩
      obtain rfl : every = every' := by simpa [JsNumber.ofInt] using heq
      refine ⟨every, rfl, hpos, hsince.trans hlt, ?_⟩
      rw [hsplit]
      exact Nat.dvd_add hdvd' hdvd
  | cron text =>
    constructor
    · rintro ⟨-, hminute, hmatch⟩
      exact ⟨hlt, hminute, hmatch⟩
    · rintro ⟨-, hminute, hmatch⟩
      exact ⟨h.1.trans hlt, hminute, hmatch⟩

/-- `t` is the first occurrence after `since`. -/
structure Schedule.FirstAfter (schedule : Schedule) (since t : Nat) : Prop where
  occurs : schedule.Occurs since t
  least : ∀ t' < t, ¬schedule.Occurs since t'

theorem safeTime?_eq_some {n : JsNumber} (h : safeTime? n = some t) : n = .ofInt t := by
  obtain ⟨i, hi, rfl⟩ := Option.map_eq_some_iff.mp h
  obtain ⟨hsafe, hpos⟩ := Option.filter_eq_some_iff.mp hi
  obtain ⟨heq, -⟩ := JsValue.safeInteger?_eq_some.mp hsafe
  rw [JsValue.number.inj heq, Int.toNat_of_nonneg (of_decide_eq_true hpos)]

/-- The search finds the first minute that is selected. -/
theorem firstMatch_eq_some {fs : CronFields} {n start : Nat} (h : firstMatch fs n start = some t) :
    fs.matches t = true ∧ start ≤ t ∧ 60000 ∣ t - start ∧
      ∀ t', start ≤ t' → t' < t → 60000 ∣ t' - start → fs.matches t' = false := by
  induction n generalizing start with
  | zero => cases h
  | succ n ih =>
    rw [firstMatch] at h
    split at h
    · rename_i hmatch
      obtain rfl := Option.some.inj h
      exact ⟨hmatch, le_rfl, by simp, fun t' hle hlt => by omega⟩
    · rename_i hmatch
      obtain ⟨ht, hle, hdvd, hleast⟩ := ih h
      refine ⟨ht, by omega, by omega, fun t' hle' hlt hdvd' => ?_⟩
      rcases Nat.eq_or_lt_of_le hle' with rfl | hlt'
      · simpa using hmatch
      · -- a later minute is at least one minute later
        have hminute := Nat.le_of_dvd (by omega) hdvd'
        have hsplit : t' - start = t' - (start + 60000) + 60000 := by omega
        rw [hsplit] at hdvd'
        exact hleast t' (by omega) hlt ((Nat.dvd_add_left (dvd_refl _)).mp hdvd')

/-- **The next time is the first occurrence** after the moment it is asked for. -/
theorem nextScheduleTime_least (h : nextScheduleTime schedule (.ofInt after) = .ok t) :
    schedule.FirstAfter after t := by
  simp only [nextScheduleTime, bind_eq_ok, orThrow_eq_ok] at h
  obtain ⟨after', hafter, h⟩ := h
  obtain rfl : after = after' := by simpa [JsNumber.ofInt] using safeTime?_eq_some hafter
  cases schedule with
  | «at» n =>
    obtain ⟨htime, hlt⟩ := Option.filter_eq_some_iff.mp (orThrow_eq_ok.mp h)
    obtain rfl := safeTime?_eq_some htime
    refine ⟨⟨rfl, of_decide_eq_true hlt⟩, ?_⟩
    rintro t' hlt' ⟨heq, -⟩
    have : (t : ℤ) = t' := by simpa [JsNumber.ofInt] using heq
    omega
  | everyMs n =>
    simp only [bind_eq_ok, orThrow_eq_ok] at h
    obtain ⟨every, hevery, -, -, hret⟩ := h
    obtain ⟨htime, hpos⟩ := Option.filter_eq_some_iff.mp hevery
    obtain rfl := safeTime?_eq_some htime
    obtain rfl : after + every = t := Except.ok.inj hret
    have hpos := of_decide_eq_true hpos
    refine ⟨⟨every, rfl, hpos, by omega, by simp⟩, ?_⟩
    rintro t' hlt' ⟨every', heq, -, hsince, hdvd⟩
    obtain rfl : every = every' := by simpa [JsNumber.ofInt] using heq
    -- a time between the two would be no multiple of the period
    have := Nat.le_of_dvd (by omega) hdvd
    omega
  | cron text =>
    simp only [bind_eq_ok, orThrow_eq_ok] at h
    obtain ⟨fs, hfs, hfirst⟩ := h
    obtain ⟨hmatch, hle, hdvd, hleast⟩ := firstMatch_eq_some hfirst
    have hstart : 60000 ∣ after / 60000 * 60000 + 60000 :=
      Nat.dvd_add (Nat.dvd_mul_left _ _) (dvd_refl _)
    refine ⟨⟨by omega, (Nat.dvd_sub_iff_left hle hstart).mp hdvd, fs, hfs, hmatch⟩, ?_⟩
    rintro t' hlt' ⟨hsince, hminute, fs', hfs', hmatch'⟩
    obtain rfl := Except.ok.inj (hfs.symm.trans hfs')
    -- the search starts at the next full minute
    have hle' : after / 60000 * 60000 + 60000 ≤ t' := by
      obtain ⟨m, rfl⟩ := hminute
      omega
    rw [hleast t' hle' hlt' (Nat.dvd_sub hminute hstart)] at hmatch'
    cases hmatch'

end AriOs.Autonomy.Jobs
