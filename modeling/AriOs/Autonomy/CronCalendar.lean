import AriOs.Arith.Gregorian
import AriOs.Autonomy.CronGrammar

/-!
# Cron schedules and the calendar

The next time of a cron schedule is looked for minute by minute, for eight years of 366 days. An
instant is selected by its minute, its hour, its month and its day under the Gregorian calendar. If
any instant is, there is one in the years that are looked at: the longest that a day of a month
stays away are the eight years around a century without a 29th of February.
-/

namespace AriOs.Autonomy.Jobs

open AriOs.Arith AriOs.Js

/-! ### Dates -/

/-- The year of an era of four hundred, from the days since it began: `c` centuries, `q` times four
years, `r` years and `k` days. -/
theorem yearOfEra {c q r k : Nat} (hc : c < 4) (hq : q < 25) (hr : r < 4)
    (hk : k ≤ 364 ∨ k = 365 ∧ r = 3 ∧ (q < 24 ∨ c = 3)) :
    let doe := 36524 * c + 1461 * q + 365 * r + k
    doe < 146097 ∧
      (doe - doe / 1460 + doe / 36524 - doe / 146096) / 365 = 100 * c + 4 * q + r := by
  intro doe
  have hdoe : doe = 36524 * c + 1461 * q + 365 * r + k := rfl
  have hcentury : doe < 146097 ∧ doe / 36524 - doe / 146096 = c := by
    by_cases hlast : c = 3 ∧ q = 24 ∧ r = 3 ∧ k = 365
    · -- the last day of the era
      obtain ⟨rfl, rfl, rfl, rfl⟩ := hlast
      have hday : doe = 146096 := hdoe
      rw [hday]
      exact ⟨by decide, rfl⟩
    · have hrest : 1461 * q + 365 * r + k < 36524 := by omega
      have hsum : doe = 36524 * c + (1461 * q + 365 * r + k) := by omega
      generalize 1461 * q + 365 * r + k = rest at hrest hsum
      clear_value doe
      omega
  have hfour : doe / 1460 = 25 * c + q + (24 * c + q + 365 * r + k) / 1460 := by
    have hsum : doe = 1460 * (25 * c + q) + (24 * c + q + 365 * r + k) := by omega
    rw [hsum, Nat.mul_add_div (by omega)]
  obtain ⟨hlt, hcentury⟩ := hcentury
  refine ⟨hlt, ?_⟩
  -- the days left over by years of 365 days
  have hextra : k - 364 ≤ (24 * c + q + 365 * r + k) / 1460 ∧
      (24 * c + q + 365 * r + k) / 1460 ≤ k ∧ (24 * c + q + 365 * r + k) / 1460 ≤ 1 := by
    omega
  rw [Nat.add_sub_assoc (Nat.div_le_div_left (by omega) (by omega)), hcentury, hfour]
  generalize (24 * c + q + 365 * r + k) / 1460 = extra at *
  clear_value doe
  omega

/-- The month of a year that begins in March, from the days since it began. -/
theorem monthOfYear {year m day : Nat} (hm : m < 12) (hpos : 1 ≤ day)
    (hle : day ≤ daysIn year (if m < 10 then m + 3 else m - 9)) :
    let doy := (153 * m + 2) / 5 + (day - 1)
    (5 * doy + 2) / 153 = m ∧ doy ≤ 364 + leapDay year := by
  unfold daysIn at hle
  unfold leapDay
  interval_cases m <;> simp at hle ⊢
  all_goals
    first
      | omega
      | split_ifs at hle ⊢ <;> omega

/-- A year by eras, centuries, four years and years. -/
theorem exists_era (y : Nat) : ∃ e c q r, c < 4 ∧ q < 25 ∧ r < 4 ∧
    y = 400 * e + 100 * c + 4 * q + r ∧ y / 4 = 100 * e + 25 * c + q ∧ y / 100 = 4 * e + c ∧
      y / 400 = e := by
  refine ⟨y / 400, y % 400 / 100, y % 100 / 4, y % 4, ?_, ?_, ?_, ?_, ?_, ?_, ?_⟩ <;> omega

/-- **The month and the day of the month** of a day are those of its date. -/
theorem monthAndDay_number {date : Date} {days : Nat} (h : date.number = 719528 + days) :
    monthAndDay days = (date.month, date.day) := by
  have hmonth := date.month_pos
  have hmonth' := date.month_le
  have hyear : 0 < date.year := by
    by_contra hzero
    have hmem := date.number_mem.2
    have hone : daysBeforeYear (date.year + 1) = 366 := by
      rw [Nat.eq_zero_of_not_pos hzero]
      decide
    omega
  -- the year is counted from March on, in eras of 400 years
  obtain ⟨y, m, hmarch⟩ : ∃ y m, 3 ≤ date.month ∧ y = date.year ∧ m = date.month - 3 ∨
      date.month ≤ 2 ∧ y + 1 = date.year ∧ m = date.month + 9 := by
    by_cases h3 : 3 ≤ date.month
    · exact ⟨_, _, .inl ⟨h3, rfl, rfl⟩⟩
    · exact ⟨date.year - 1, _, .inr ⟨by omega, by omega, rfl⟩⟩
  have hnumber := date.number_eq hmarch
  have hm : m < 12 := by omega
  have hback : (if m < 10 then m + 3 else m - 9) = date.month := by
    split_ifs <;> omega
  obtain ⟨hmonthOf, hdoy⟩ := @monthOfYear date.year _ _ hm date.day_pos
    (hback.symm ▸ date.day_le)
  obtain ⟨e, c, q, r, hc, hq, hr, hy, hfour, hcentury, hera⟩ := exists_era y
  generalize hdays : (153 * m + 2) / 5 + (date.day - 1) = doy at hmonthOf hdoy
  have hz : days + 719468 = 146097 * e + (36524 * c + 1461 * q + 365 * r + doy) := by
    rw [hfour, hcentury, hera, Nat.add_assoc _ ((153 * m + 2) / 5), hdays, h] at hnumber
    clear hmonthOf
    omega
  -- the last day of a leap year is in February of the next one
  have hleap : doy ≤ 364 ∨ doy = 365 ∧ r = 3 ∧ (q < 24 ∨ c = 3) := by
    by_cases hlast : doy ≤ 364
    · exact .inl hlast
    · have hisLeap : IsLeap date.year := by
        by_contra hnot
        rw [leapDay_of_not_isLeap hnot] at hdoy
        exact hlast hdoy
      rw [leapDay_of_isLeap hisLeap] at hdoy
      have hshort := date.day_le.trans daysIn_le
      rcases hmarch with ⟨-, -, rfl⟩ | ⟨-, hyear', -⟩
      · omega
      · rw [← hyear', hy] at hisLeap
        obtain ⟨hmod, hcenturies⟩ := hisLeap
        clear hmonthOf hnumber hz hdays hfour hcentury hera
        omega
  obtain ⟨hdoe, hyoe⟩ := yearOfEra hc hq hr hleap
  have hfour' : (100 * c + 4 * q + r) / 4 = 25 * c + q := by
    clear * - hr
    omega
  have hcentury' : (100 * c + 4 * q + r) / 100 = c := by
    clear * - hq hr
    omega
  generalize hsum : 36524 * c + 1461 * q + 365 * r + doy = doe at hdoe hyoe hz
  have hmod : (days + 719468) % 146097 = doe := by
    clear * - hz hdoe
    omega
  have hrest : doe - (365 * (100 * c + 4 * q + r) + (25 * c + q) - c) = doy := by
    clear * - hsum
    omega
  have hday := date.day_pos
  have hday' : doy - (153 * m + 2) / 5 + 1 = date.day := by
    clear * - hdays hday
    omega
  simp only [monthAndDay, hmod, hyoe, hfour', hcentury', hrest, hmonthOf, hback, hday']

/-! ### Instants -/

/-- The number of the first of January 1970. -/
def epoch : Nat := 719528

/-- The day is selected: by its day of the week alone if the day of the month is a star, by its day
of the month alone if the day of the week is one, by either otherwise. -/
def DaySelected (fs : CronFields) (date : Date) : Prop :=
  if fs.dom.wildcard then weekday date.number ∈ fs.dow.values
  else if fs.dow.wildcard then date.day ∈ fs.dom.values
  else date.day ∈ fs.dom.values ∨ weekday date.number ∈ fs.dow.values

/-- The schedule selects the instant, in milliseconds since 1970. -/
structure Selected (fs : CronFields) (t : Nat) : Prop where
  minute : t / 60000 % 60 ∈ fs.minute.values
  hour : t / 3600000 % 24 ∈ fs.hour.values
  day : ∃ date : Date, date.number = epoch + t / 86400000 ∧ date.month ∈ fs.month.values ∧
    DaySelected fs date

variable {fs : CronFields} {t after start : Nat}

/-- Where there are dates, the test of a minute is that it is selected. -/
theorem matches_iff (ht : t ≤ maxDate) : fs.matches t = true ↔ Selected fs t := by
  obtain ⟨date, hdate⟩ := exists_date (epoch + t / 86400000)
  rw [epoch] at hdate
  have hmonth := monthAndDay_number hdate
  have hweekday : weekday date.number = (t / 86400000 + 4) % 7 := by
    rw [hdate, weekday]
    omega
  have hday : (if fs.dom.wildcard = true then fs.dow.values.contains ((t / 86400000 + 4) % 7)
      else if fs.dow.wildcard = true then fs.dom.values.contains date.day
      else fs.dom.values.contains date.day ||
        fs.dow.values.contains ((t / 86400000 + 4) % 7)) = true ↔ DaySelected fs date := by
    rw [← hweekday, DaySelected]
    split_ifs <;> simp
  simp only [CronFields.matches, hmonth, Bool.and_eq_true, decide_eq_true_eq, hday,
    List.contains_iff_mem, ht, true_and]
  constructor
  · rintro ⟨⟨⟨hminute, hhour⟩, hmonth⟩, hday⟩
    exact ⟨hminute, hhour, date, hdate, hmonth, hday⟩
  · rintro ⟨hminute, hhour, date', hdate', hmonth', hday'⟩
    rw [epoch] at hdate'
    -- a day has one date
    obtain ⟨heq, heq'⟩ := Prod.mk.inj (hmonth.symm.trans (monthAndDay_number hdate'))
    rw [DaySelected, ← heq', hdate', ← hdate] at hday'
    exact ⟨⟨⟨hminute, hhour⟩, heq ▸ hmonth'⟩, hday'⟩

/-! ### The years that are looked at -/

/-- A field that is read has a number in its bounds. -/
theorem exists_mem_of_read {f : CronField} {text : List Char} {parsed : ParsedField}
    (h : f.read text = .ok parsed) :
    ∃ a, f.lo ≤ a ∧ a ≤ f.hi ∧ (if f.sunday = true ∧ a = 7 then 0 else a) ∈ parsed.values := by
  obtain ⟨parts, hparts, rfl⟩ := read_eq_ok_iff.mp h
  obtain ⟨item, hitem⟩ := List.exists_mem_of_ne_nil _ (List.splitOn_ne_nil ',' text)
  obtain ⟨values, hvalues⟩ := exists_mapM_eq_ok_iff.mp ⟨parts, hparts⟩ item hitem
  obtain ⟨k, a, b, -, hrange, rfl⟩ := partValues_eq_ok_iff.mp hvalues
  obtain ⟨hlo, hle, hhi⟩ := hrange.bounds
  refine ⟨a, hlo, hle.trans hhi, (mem_flatten_mapM hparts).mpr ⟨item, hitem, _, hvalues, ?_⟩⟩
  simp only [List.mem_map, List.mem_filter, List.mem_range, decide_eq_true_eq]
  exact ⟨a, ⟨0, ⟨by omega, Nat.zero_mod k⟩, rfl⟩, rfl⟩

theorem exists_minute_hour {text : String} (h : cronFields text = .ok fs) :
    (∃ m ∈ fs.minute.values, m < 60) ∧ ∃ h ∈ fs.hour.values, h < 24 := by
  obtain ⟨mi, ho, hminute, hhour⟩ : ∃ mi ho, CronField.minute.read mi = .ok fs.minute ∧
      CronField.hour.read ho = .ok fs.hour := by
    unfold cronFields at h
    split at h
    · simp only [bind_eq_ok] at h
      obtain ⟨minute, hminute, hour, hhour, dom, -, month, -, dow, -, h⟩ := h
      obtain rfl := Except.ok.inj h
      exact ⟨_, _, hminute, hhour⟩
    · cases h
  obtain ⟨m, -, hm, hmem⟩ := exists_mem_of_read hminute
  obtain ⟨o, -, ho, homem⟩ := exists_mem_of_read hhour
  exact ⟨⟨m, by simpa [CronField.sunday] using hmem, Nat.lt_succ_of_le hm⟩,
    ⟨o, by simpa [CronField.sunday] using homem, Nat.lt_succ_of_le ho⟩⟩

/-- A day that is selected comes again within eight years. -/
theorem exists_daySelected {date : Date} (hmonth : date.month ∈ fs.month.values)
    (hday : DaySelected fs date) (n : Nat) : ∃ date' : Date, n < date'.number ∧
      date'.number ≤ n + 2921 ∧ date'.month ∈ fs.month.values ∧ DaySelected fs date' := by
  by_cases hdate : fs.dom.wildcard = false ∧ date.day ∈ fs.dom.values
  · obtain ⟨date', hmonth', hday', hlt, hle⟩ := exists_later_date date n
    refine ⟨date', hlt, hle, hmonth' ▸ hmonth, ?_⟩
    rw [DaySelected, hdate.1, hday']
    simp [hdate.2]
  · -- then its day of the week is
    have hweek : weekday date.number ∈ fs.dow.values ∧
        (fs.dom.wildcard = true ∨ fs.dow.wildcard = false) := by
      unfold DaySelected at hday
      split_ifs at hday <;> simp_all
    have hlt7 : weekday date.number < 7 := Nat.mod_lt _ (by omega)
    obtain ⟨date', hmonth', hweekday, hlt, hle⟩ := exists_later_weekday date.month_pos
      date.month_le hlt7 n
    refine ⟨date', hlt, hle, hmonth' ▸ hmonth, ?_⟩
    rw [DaySelected, hweekday]
    obtain ⟨hweek, hwild | hwild⟩ := hweek <;> simp [hweek, hwild]

/-- **An instant that is selected at all** is so within the years that are looked at. -/
theorem exists_selected {text : String} (hfs : cronFields text = .ok fs)
    (hsome : ∃ t, Selected fs t) (start : Nat) :
    ∃ t, start ≤ t ∧ t < start + 60000 * cronHorizon ∧ 60000 ∣ t ∧ Selected fs t := by
  obtain ⟨⟨m, hm, hm60⟩, h, hh, hh24⟩ := exists_minute_hour hfs
  obtain ⟨t, -, -, date, -, hmonth, hday⟩ := hsome
  obtain ⟨date', hlt, hle, hmonth', hday'⟩ :=
    exists_daySelected hmonth hday (epoch + start / 86400000)
  obtain ⟨days, hdays⟩ := Nat.exists_eq_add_of_le ((Nat.le_add_right epoch _).trans hlt.le)
  rw [hdays] at hlt hle
  have hminute : (days * 86400000 + h * 3600000 + m * 60000) / 60000 % 60 = m := by omega
  have hhour : (days * 86400000 + h * 3600000 + m * 60000) / 3600000 % 24 = h := by omega
  have hday : (days * 86400000 + h * 3600000 + m * 60000) / 86400000 = days := by omega
  refine ⟨days * 86400000 + h * 3600000 + m * 60000, by omega, ?_, by omega, ?_⟩
  · rw [cronHorizon]
    omega
  · exact ⟨hminute.symm ▸ hm, hhour.symm ▸ hh, date', by rw [hday, hdays], hmonth', hday'⟩

/-- The search misses no minute. -/
theorem firstMatch_eq_none {n : Nat} (h : firstMatch fs n start = none) :
    ∀ t, start ≤ t → t < start + 60000 * n → 60000 ∣ t - start → fs.matches t = false := by
  induction n generalizing start with
  | zero => omega
  | succ n ih =>
    rw [firstMatch] at h
    split at h
    · cases h
    · rename_i hmatch
      intro t hle hlt hdvd
      rcases Nat.eq_or_lt_of_le hle with rfl | hlt'
      · simpa using hmatch
      · have hminute := Nat.le_of_dvd (by omega) hdvd
        have hsplit : t - start = t - (start + 60000) + 60000 := by omega
        rw [hsplit] at hdvd
        exact ih h t (by omega) (by omega) ((Nat.dvd_add_left (dvd_refl _)).mp hdvd)

/-- The search looks at the minutes after a moment, up to a date of the calendar, and finds the
first that is selected. -/
theorem firstMatch_iff {text : String} (hfs : cronFields text = .ok fs)
    (hroom : after + 60000 * cronHorizon ≤ maxDate) :
    (∀ t, firstMatch fs cronHorizon (after / 60000 * 60000 + 60000) = some t ↔
      IsLeast {t | after < t ∧ 60000 ∣ t ∧ Selected fs t} t) ∧
    (firstMatch fs cronHorizon (after / 60000 * 60000 + 60000) = none ↔ ¬ ∃ t, Selected fs t) := by
  have hstart : 60000 ∣ after / 60000 * 60000 + 60000 :=
    Nat.dvd_add (Nat.dvd_mul_left _ _) (dvd_refl _)
  generalize hs : after / 60000 * 60000 + 60000 = start at hstart ⊢
  have hdvd : ∀ t, start ≤ t → (60000 ∣ t - start ↔ 60000 ∣ t) := fun t hle =>
    Nat.dvd_sub_iff_left hle hstart
  -- what is found is the least, and nothing is found only if there is nothing
  have hfound : ∀ t, firstMatch fs cronHorizon start = some t →
      IsLeast {t | after < t ∧ 60000 ∣ t ∧ Selected fs t} t := by
    intro t h
    obtain ⟨hmatch, hle, hminute, hleast⟩ := firstMatch_eq_some h
    have hdate : t ≤ maxDate := by
      simp only [CronFields.matches, Bool.and_eq_true, decide_eq_true_eq] at hmatch
      exact hmatch.1.1.1.1
    refine ⟨⟨by omega, (hdvd t hle).mp hminute, (matches_iff hdate).mp hmatch⟩, ?_⟩
    rintro t' ⟨hafter, hminute', hselected⟩
    by_contra! hlt
    have hle' : start ≤ t' := by
      obtain ⟨k, rfl⟩ := hminute'
      omega
    have hnot := hleast t' hle' hlt ((hdvd t' hle').mpr hminute')
    rw [(matches_iff (by omega)).mpr hselected] at hnot
    cases hnot
  have hmissing : firstMatch fs cronHorizon start = none → ¬ ∃ t, Selected fs t := by
    intro h hsome
    obtain ⟨t, hle, hlt, hminute, hselected⟩ := exists_selected hfs hsome start
    have hmatch := firstMatch_eq_none h t hle hlt ((hdvd t hle).mpr hminute)
    rw [← Bool.not_eq_true, matches_iff (by omega)] at hmatch
    exact hmatch hselected
  constructor
  · refine fun t => ⟨hfound t, fun hleast => ?_⟩
    cases h : firstMatch fs cronHorizon start with
    | none => exact absurd ⟨t, hleast.1.2.2⟩ (hmissing h)
    | some t' => rw [(hfound t' h).unique hleast]
  · refine ⟨hmissing, fun hnone => ?_⟩
    cases h : firstMatch fs cronHorizon start with
    | none => rfl
    | some t => exact absurd ⟨t, (hfound t h).1.2.2⟩ hnone

theorem safeTime?_ofInt (h : after ≤ maxDate) : safeTime? (.ofInt after) = some after := by
  have hsafe : (JsNumber.ofInt after).isSafeInteger = true := by
    rw [maxDate] at h
    simp only [JsNumber.isSafeInteger, JsNumber.toBigInt?_ofInt, JsNumber.maxSafeInteger]
    exact decide_eq_true ⟨by omega, by omega⟩
  rw [safeTime?, JsValue.safeInteger?_eq_some.mpr ⟨rfl, hsafe⟩,
    Option.filter_some_pos (by simp)]
  simp

/-- **The next time of a cron schedule** is the least minute after the moment that the schedule
selects under the Gregorian calendar, and there is none only if the schedule selects no instant at
all, however late. -/
theorem next_cron_iff {text : String} (hfs : cronFields text = .ok fs)
    (hroom : after + 8 * 366 * 86400000 ≤ maxDate) :
    (∀ t, nextScheduleTime (.cron text) (.ofInt after) = .ok t ↔
      IsLeast {t | after < t ∧ 60000 ∣ t ∧ Selected fs t} t) ∧
    (nextScheduleTime (.cron text) (.ofInt after) = .error "Cron schedule has no occurrence" ↔
      ¬ ∃ t, Selected fs t) := by
  -- eight years of minutes stay below the last date
  have hhorizon : 60000 * cronHorizon = 8 * 366 * 86400000 := by decide
  rw [← hhorizon] at hroom
  obtain ⟨hfound, hmissing⟩ := firstMatch_iff hfs hroom
  -- the clock is safe and the text is read, so the search alone decides
  have hnext : nextScheduleTime (.cron text) (.ofInt after) =
      orThrow (firstMatch fs cronHorizon (after / 60000 * 60000 + 60000))
        "Cron schedule has no occurrence" := by
    have hafter : ∀ g : Nat → Except String Nat,
        (orThrow (safeTime? (.ofInt after)) "Invalid schedule timestamp" >>= g) = g after := by
      intro g
      rw [safeTime?_ofInt (by omega)]
      rfl
    have hfields : ∀ g : CronFields → Except String Nat, (cronFields text >>= g) = g fs := by
      intro g
      rw [hfs]
      rfl
    rw [nextScheduleTime, hafter]
    dsimp only
    rw [hfields]
  rw [hnext, ← hmissing]
  constructor
  · intro t
    rw [orThrow_eq_ok, hfound]
  · cases firstMatch fs cronHorizon (after / 60000 * 60000 + 60000) <;> simp [orThrow]

/-- At midnight of a leap day, from two minutes before that of 2024. -/
theorem next_cron_iff_leapDay : ∃ fs, cronFields "0 0 29 2 *" = .ok fs ∧
    IsLeast {t | 1709164680000 < t ∧ 60000 ∣ t ∧ Selected fs t} 1709164800000 := by
  have hroom : 1709164680000 + 8 * 366 * 86400000 ≤ maxDate := by decide
  have hread : (cronFields "0 0 29 2 *").isOk = true := by decide +kernel
  have hnext : nextScheduleTime (.cron "0 0 29 2 *") (.ofInt (1709164680000 : Nat)) =
      .ok 1709164800000 := by
    decide +kernel
  cases hfs : cronFields "0 0 29 2 *" with
  | error e =>
    rw [hfs] at hread
    cases hread
  | ok fs => exact ⟨fs, rfl, ((next_cron_iff hfs hroom).1 1709164800000).mp hnext⟩

end AriOs.Autonomy.Jobs
