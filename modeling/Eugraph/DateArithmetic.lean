import Eugraph.TimeArithmetic

/-!
# Dates and durations

Adding a duration to a date or a point in time (`common/types/temporal_value.cpp`): the months
first, with the day clamped to the length of the month, then the days and the time part.  The
screen at the start keeps every amount below the 55th power of two, so what follows computes in
integers without a bound.
-/

namespace Eugraph

open Lib.SignedWord Lib.Calendar Int DateTimeValue

/-- The months since year zero, and the month and day in one number. -/
def absoluteMonths (year month : Int) : Int := year * 12 + (month - 1)

def packedMonthDay (year month day : Int) : Int := absoluteMonths year month * 32 + day

/-- The year of a month counted from zero. -/
def yearOfMonths (total : Int) : Int := if 0 ≤ total then total.tdiv 12 else -((-total + 11).tdiv 12)

def normalizeDate (date : CivilDate) : CivilDate :=
  let (year, month) :=
    if date.month < 1 ∨ 12 < date.month then
      let zero_based := date.month - 1
      let year_shift := yearOfMonths zero_based
      (date.year + year_shift, zero_based - year_shift * 12 + 1)
    else (date.year, date.month)
  civilFromDays (daysFromCivil year month 1 + (date.day - 1))

/-- The first step of `addDuration`, which is `addMonthsClamped`. -/
def addMonthsClamped (date : CivilDate) (months : Int) : CivilDate :=
  if months = 0 then date
  else
    let total := absoluteMonths date.year date.month + months
    let year := yearOfMonths total
    let month := total - year * 12 + 1
    let last := daysInMonth year month
    ⟨year, month, if 0 < last ∧ last < date.day then last else date.day⟩

def kMaxEpochDay : Int := 365241780471

namespace DateTimeValue

def withDate (tv : DateTimeValue) (date : CivilDate) : DateTimeValue :=
  { tv with year := .ofInt date.year, month := .ofInt date.month, day := .ofInt date.day }

def withTime (tv : DateTimeValue) (time : TimeOfDay) : DateTimeValue :=
  { tv with
    hour := .ofInt time.hour, minute := .ofInt time.minute, second := .ofInt time.second,
    nanos := .ofInt time.nanos }

/-- An amount that `addDuration` does not begin with. -/
def Screened (duration : DurationValue) : Prop :=
  duration.days.toInt < -kMaxEpochDay ∨ kMaxEpochDay < duration.days.toInt ∨
    duration.months.toInt < (-kMaxEpochDay).tdiv 28 ∨ kMaxEpochDay.tdiv 28 < duration.months.toInt ∨
    duration.seconds.toInt < -(kMaxEpochDay * 86400) ∨ kMaxEpochDay * 86400 < duration.seconds.toInt

instance (duration : DurationValue) : Decidable (Screened duration) := inferInstanceAs (Decidable (_ ∨ _))

def narrow (temporal : DateTimeValue) (date : CivilDate) (time : TimeOfDay) : Except ArithmeticError DateTimeValue :=
  let epoch_day := daysFromCivil date.year date.month date.day
  if epoch_day < -365243219162 ∨ 365241780471 < epoch_day then
    .error ⟨"Invalid value for EpochDay (valid values -365243219162 - 365241780471): " ++ toString epoch_day⟩
  else .ok ((temporal.withDate date).withTime time)

def addDuration (temporal : DateTimeValue) (duration : DurationValue) : Except ArithmeticError DateTimeValue :=
  if Screened duration then .error ⟨"Invalid value for EpochDay (valid values -365243219162 - 365241780471)"⟩
  else
    let date := addMonthsClamped temporal.date duration.months.toInt
    let date := normalizeDate { date with day := date.day + duration.days.toInt }
    let total_nanos := duration.timeNanos
    if temporal.kind = .DATE then
      -- a date takes the whole days of the time part
      let extra_days := total_nanos.tdiv NANOS_PER_DAY
      temporal.narrow (normalizeDate { date with day := date.day + extra_days }) temporal.time
    else
      let (add_seconds, add_nanos) :=
        if total_nanos.tmod NANOS_PER_SEC < 0 then
          (total_nanos.tdiv NANOS_PER_SEC - 1, total_nanos.tmod NANOS_PER_SEC + NANOS_PER_SEC)
        else (total_nanos.tdiv NANOS_PER_SEC, total_nanos.tmod NANOS_PER_SEC)
      let nanos := temporal.nanos.toInt + add_nanos
      let second := temporal.second.toInt + add_seconds + nanos.tdiv NANOS_PER_SEC
      let time : TimeOfDay := { temporal.time with second := second, nanos := nanos.tmod NANOS_PER_SEC }
      let hour := time.carried.hour
      let extra_days := if hour < 0 then (hour - 23).tdiv 24 else hour.tdiv 24
      let date := normalizeDate { date with day := date.day + extra_days }
      let time := { time.carried with hour := hour - extra_days * 24 }.borrowed
      if time.hour < 0 then
        let bd := (-time.hour + 23).tdiv 24
        temporal.narrow (normalizeDate { date with day := date.day - bd }) { time with hour := time.hour + bd * 24 }
      else temporal.narrow date time

end DateTimeValue

/-! ### Months -/

lemma yearOfMonths_eq (total : Int) : yearOfMonths total = total / 12 := by
  rw [yearOfMonths]
  split
  next h => exact tdiv_eq_ediv_of_nonneg h
  next h =>
    rw [tdiv_eq_ediv_of_nonneg (by omega)]
    omega

/-- The same day so many months later, or the last one of that month. -/
def monthsLater (date : CivilDate) (months : Int) : CivilDate :=
  let total := date.year * 12 + (date.month - 1) + months
  ⟨total / 12, total % 12 + 1, min date.day (daysInMonth (total / 12) (total % 12 + 1))⟩

lemma daysInMonth_bounds {y m : Int} (h₁ : 1 ≤ m) (h₁₂ : m ≤ 12) : 28 ≤ daysInMonth y m ∧ daysInMonth y m ≤ 31 := by
  rw [daysInMonth, if_neg (by omega)]
  split
  · omega
  · interval_cases m <;> decide

variable {date : CivilDate}

lemma monthsLater_valid (h : date.Valid) (months : Int) : (monthsLater date months).Valid := by
  obtain ⟨-, -, hd₀, -⟩ := h
  have hlength := daysInMonth_bounds (y := (date.year * 12 + (date.month - 1) + months) / 12)
    (m := (date.year * 12 + (date.month - 1) + months) % 12 + 1) (by omega) (by omega)
  simp only [monthsLater, CivilDate.Valid]
  omega

lemma addMonthsClamped_eq (h : date.Valid) (months : Int) :
    addMonthsClamped date months = monthsLater date months := by
  obtain ⟨y, m, d⟩ := date
  obtain ⟨hm₀, hm₁, hd₀, hd₁⟩ := h
  dsimp only at hm₀ hm₁ hd₀ hd₁
  rw [addMonthsClamped]
  split
  next hzero =>
    have hyear : (y * 12 + (m - 1) + months) / 12 = y := by omega
    have hmonth : (y * 12 + (m - 1) + months) % 12 + 1 = m := by omega
    simp only [monthsLater, hyear, hmonth, min_eq_left hd₁]
  next =>
    have hmonth : y * 12 + (m - 1) + months - (y * 12 + (m - 1) + months) / 12 * 12 + 1 =
        (y * 12 + (m - 1) + months) % 12 + 1 := by omega
    have hlength := daysInMonth_bounds (y := (y * 12 + (m - 1) + months) / 12)
      (m := (y * 12 + (m - 1) + months) % 12 + 1) (by omega) (by omega)
    simp only [absoluteMonths, yearOfMonths_eq, hmonth, monthsLater, CivilDate.mk.injEq, true_and]
    split <;> omega

/-! ### Days -/

lemma daysFromCivil_day (y m d : Int) : daysFromCivil y m 1 + (d - 1) = daysFromCivil y m d := by
  simp only [daysFromCivil]
  omega

/-- Days are counted on from a month. -/
theorem normalizeDate_eq (h₁ : 1 ≤ date.month) (h₁₂ : date.month ≤ 12) :
    normalizeDate date = civilFromDays (daysFromCivil date.year date.month date.day) := by
  rw [normalizeDate, if_neg (by omega)]
  exact congrArg civilFromDays (daysFromCivil_day ..)

lemma normalizeDate_add (h : date.Valid) (days : Int) :
    normalizeDate { date with day := date.day + days } =
      civilFromDays (daysFromCivil date.year date.month date.day + days) := by
  have hnormal : normalizeDate { date with day := date.day + days } =
      civilFromDays (daysFromCivil date.year date.month (date.day + days)) := normalizeDate_eq h.1 h.2.1
  have hday := daysFromCivil_day date.year date.month date.day
  have hdays := daysFromCivil_day date.year date.month (date.day + days)
  rw [hnormal]
  apply congrArg civilFromDays
  omega

/-- From a day number to a later one. -/
theorem normalizeDate_later (n days : Int) :
    normalizeDate { civilFromDays n with day := (civilFromDays n).day + days } = civilFromDays (n + days) := by
  obtain ⟨hvalid, hn⟩ := daysFromCivil_civilFromDays n
  rw [normalizeDate_add hvalid, hn]

/-- The day numbers of the years that a value can have. -/
theorem yearInRange_iff (h : date.Valid) : YearInRange date.year ↔
      ¬(daysFromCivil date.year date.month date.day < -365243219162 ∨
        365241780471 < daysFromCivil date.year date.month date.day) := by
  have hcycle := h.inCycle
  obtain ⟨hstart, hnext⟩ := h.in_month
  obtain ⟨hm₀, hm₁, hd₀, hd₁⟩ := h
  -- January and February are the days from 306 on of the year that began in March
  have hplace : (date.month ≤ 2 ∧ marchYear date.year date.month = date.year - 1 ∧
        306 ≤ monthStart (marchMonth date.month) + date.day - 1) ∨
      (2 < date.month ∧ marchYear date.year date.month = date.year ∧
        monthStart (marchMonth date.month) + date.day - 1 ≤ 305) := by
    rcases le_or_gt date.month 2 with hm | hm
    · refine .inl ⟨hm, by rw [marchYear, if_pos hm], ?_⟩
      simp only [marchMonth, monthStart, if_neg (not_lt.mpr hm)] at *
      omega
    · refine .inr ⟨hm, by rw [marchYear, if_neg (by omega), Int.sub_zero], ?_⟩
      simp only [marchMonth, monthStart, if_pos hm] at *
      omega
  have hday := hcycle.dayOfYear_nonneg
  have hlast := hcycle.dayOfYear_le
  rw [daysFromCivil_eq ⟨hm₀, hm₁⟩, YearInRange]
  generalize marchYear date.year date.month = year at *
  generalize monthStart (marchMonth date.month) + date.day - 1 = dayOfYear at *
  simp only [yearStart]
  omega

/-! ### The sum -/

/-- Adding to a clock leads so many days on. -/
theorem TimeOfDay.onClock_days {t : TimeOfDay} (h : t.Started) :
    if t.onClock.hour < 0 then
      t.onClock.hour = -1 ∧ { t.onClock with hour := 23 } = ofNanos (t.toNanos % NANOS_PER_DAY) ∧
        t.carried.hour / 24 - 1 = t.toNanos / NANOS_PER_DAY
    else t.onClock = ofNanos (t.toNanos % NANOS_PER_DAY) ∧ t.carried.hour / 24 = t.toNanos / NANOS_PER_DAY := by
  obtain ⟨⟨hminute, hsecond, hnanos⟩, hpast, hrest, hcarried, hhour⟩ := borrowed_carried h (t.carried.hour % 24)
  rw [← onClock] at *
  have hborrow : hourBorrow t.past = 0 ∨ hourBorrow t.past = 1 := by
    rw [hourBorrow]
    split <;> simp
  have hall : t.toNanos = (t.hour * 3600 + t.past) * NANOS_PER_SEC + t.nanos := by
    rw [toNanos, past, ← Int.add_assoc]
  have hclock : ∀ u : TimeOfDay, u.Valid → u.toNanos = t.toNanos % NANOS_PER_DAY →
      u = ofNanos (t.toNanos % NANOS_PER_DAY) := by
    rintro u hu hnanos
    rw [← hnanos, ofNanos_toNanos hu]
  split
  next hneg =>
    refine ⟨by omega, hclock _ ⟨⟨show (0 : Int) ≤ 23 by omega, show (23 : Int) < 24 by omega⟩, hminute, hsecond,
      hnanos⟩ ?_, ?_⟩
    · rw [hall, toNanos]
      simp only [NANOS_PER_SEC, NANOS_PER_DAY] at *
      omega
    · rw [hall]
      simp only [NANOS_PER_SEC, NANOS_PER_DAY] at *
      omega
  next hpos =>
    refine ⟨hclock _ ⟨⟨by omega, by omega⟩, hminute, hsecond, hnanos⟩ ?_, ?_⟩
    · rw [hall, toNanos]
      simp only [NANOS_PER_SEC, NANOS_PER_DAY] at *
      omega
    · rw [hall]
      simp only [NANOS_PER_SEC, NANOS_PER_DAY] at *
      omega

namespace DateTimeValue

/-- The fields of a value as they should be. -/
structure Valid (tv : DateTimeValue) : Prop where
  date : tv.date.Valid
  year : YearInRange tv.date.year
  time : tv.time.Valid

/-- The day and the time of day that a duration leads to: the months, the day clamped, then the
days and the exact time part. -/
def landing (tv : DateTimeValue) (d : DurationValue) : Int × TimeOfDay :=
  let date := monthsLater tv.date d.months.toInt
  let days := daysFromCivil date.year date.month date.day + d.days.toInt
  let nanos := tv.time.toNanos + d.timeNanos
  (days + nanos / NANOS_PER_DAY, .ofNanos (nanos % NANOS_PER_DAY))

/-- Of the time part a date takes the whole days, towards zero. -/
def landed (tv : DateTimeValue) (d : DurationValue) : Int × TimeOfDay :=
  if tv.kind = .DATE then
    let date := monthsLater tv.date d.months.toInt
    (daysFromCivil date.year date.month date.day + d.days.toInt + d.timeNanos.tdiv NANOS_PER_DAY, tv.time)
  else tv.landing d

lemma narrow_eq (tv : DateTimeValue) (h : date.Valid) (time : TimeOfDay) :
    if YearInRange date.year then tv.narrow date time = .ok ((tv.withDate date).withTime time)
    else ∃ e, tv.narrow date time = .error e := by
  have hrange := yearInRange_iff h
  rw [narrow]
  by_cases hyear : YearInRange date.year
  · rw [if_pos hyear, if_neg (hrange.mp hyear)]
  · rw [if_neg hyear, if_pos (not_not.mp (mt hrange.mpr hyear))]
    exact ⟨_, rfl⟩

lemma addDuration_eq {tv : DateTimeValue} (h : tv.Valid) {d : DurationValue} (hscreen : ¬Screened d) :
    tv.addDuration d = tv.narrow (civilFromDays (tv.landed d).1) (tv.landed d).2 := by
  have hmonths : (monthsLater tv.date d.months.toInt).Valid := monthsLater_valid h.date _
  have hstart := normalizeDate_add hmonths d.days.toInt
  rw [addDuration, if_neg hscreen, addMonthsClamped_eq h.date]
  by_cases hkind : tv.kind = .DATE
  · simp only [hstart, if_pos hkind, normalizeDate_later, landed]
  · have hn₀ : 0 ≤ tv.nanos.toInt := h.time.2.2.2.1
    have hrest : 0 ≤ d.timeNanos % NANOS_PER_SEC := emod_nonneg _ (by decide)
    have hfloor := floor_of_truncated (a := d.timeNanos) (b := NANOS_PER_SEC) (by decide)
    have hdays : ∀ n : Int, (if n < 0 then (n - 23).tdiv 24 else n.tdiv 24) = n / 24 := by
      intro n
      split
      next hn =>
        rw [← neg_neg (n - 23), Int.neg_tdiv, tdiv_eq_ediv_of_nonneg (by omega)]
        omega
      next hn => exact tdiv_eq_ediv_of_nonneg (by omega)
    have hclock := TimeOfDay.onClock_days
      (TimeOfDay.added_started h.time (d.timeNanos / NANOS_PER_SEC) (d.timeNanos % NANOS_PER_SEC))
    have hsum : (tv.time.added (d.timeNanos / NANOS_PER_SEC) (d.timeNanos % NANOS_PER_SEC)).toNanos =
        tv.time.toNanos + d.timeNanos := by
      rw [TimeOfDay.added_toNanos, Int.mul_comm, mul_ediv_add_emod]
    rw [hsum] at hclock
    have hcarry : (tv.nanos.toInt + d.timeNanos % NANOS_PER_SEC).tdiv NANOS_PER_SEC =
        (tv.nanos.toInt + d.timeNanos % NANOS_PER_SEC) / NANOS_PER_SEC := tdiv_eq_ediv_of_nonneg (by omega)
    have hnanos : (tv.nanos.toInt + d.timeNanos % NANOS_PER_SEC).tmod NANOS_PER_SEC =
        (tv.nanos.toInt + d.timeNanos % NANOS_PER_SEC) % NANOS_PER_SEC := tmod_eq_emod_of_nonneg (by omega)
    have hmod : ∀ n : Int, n - n / 24 * 24 = n % 24 := by omega
    have hadded : ({ tv.time with
          second := tv.second.toInt + d.timeNanos / NANOS_PER_SEC +
            (tv.nanos.toInt + d.timeNanos % NANOS_PER_SEC) / NANOS_PER_SEC
          nanos := (tv.nanos.toInt + d.timeNanos % NANOS_PER_SEC) % NANOS_PER_SEC } : TimeOfDay) =
        tv.time.added (d.timeNanos / NANOS_PER_SEC) (d.timeNanos % NANOS_PER_SEC) := rfl
    simp only [hstart, if_neg hkind, hfloor, hdays, hcarry, hnanos, hmod, hadded, normalizeDate_later, landed,
      landing]
    generalize tv.time.added (d.timeNanos / NANOS_PER_SEC) (d.timeNanos % NANOS_PER_SEC) = t at *
    rw [← TimeOfDay.onClock]
    by_cases hneg : t.onClock.hour < 0
    · rw [if_pos hneg] at hclock ⊢
      obtain ⟨hlast, htime, hday⟩ := hclock
      have hback : -((-t.onClock.hour + 23).tdiv 24) = -1 := by
        rw [hlast]
        decide
      rw [Int.sub_eq_add_neg, hback, normalizeDate_later, ← htime, ← hday]
      rw [hlast]
      congr 2
      · omega
    · rw [if_neg hneg] at hclock ⊢
      rw [hclock.2, ← hclock.1]

lemma landed_time {tv : DateTimeValue} (h : tv.Valid) (d : DurationValue) : (tv.landed d).2.Valid := by
  rw [landed]
  split
  · exact h.time
  · exact TimeOfDay.ofNanos_valid (emod_nonneg _ (by decide)) (emod_lt_of_pos _ (by decide))

/-- Narrowing loses nothing of a date and a time of day. -/
theorem withDate_withTime (tv : DateTimeValue) {time : TimeOfDay} (hdate : date.Valid)
    (hyear : YearInRange date.year) (htime : time.Valid) :
    ((tv.withDate date).withTime time).date = date ∧ ((tv.withDate date).withTime time).time = time :=
  ⟨ofCivil_date hdate hyear time, ofCivil_time htime date⟩

/-- A value with this day and time of day, or an error where no value has the year. -/
def Lands (tv : DateTimeValue) (d : DurationValue) (landing : Int × TimeOfDay) : Prop :=
  if YearInRange (civilFromDays landing.1).year then
    ∃ r, tv.addDuration d = .ok r ∧ r.Valid ∧ r.date = civilFromDays landing.1 ∧
      (r.kind = tv.kind ∧ r.tz_offset_sec = tv.tz_offset_sec ∧ r.tz_name = tv.tz_name) ∧
      (tv.kind ≠ .DATE → r.time = landing.2)
  else ∃ e, tv.addDuration d = .error e

theorem addDuration_lands {tv : DateTimeValue} (h : tv.Valid) (d : DurationValue)
    (hscreen : YearInRange (civilFromDays (tv.landed d).1).year → ¬Screened d) : tv.Lands d (tv.landed d) := by
  obtain ⟨hdate, -⟩ := daysFromCivil_civilFromDays (tv.landed d).1
  have hnarrow := narrow_eq tv hdate (tv.landed d).2
  rw [Lands]
  by_cases hyear : YearInRange (civilFromDays (tv.landed d).1).year
  · obtain ⟨hdate', htime'⟩ := withDate_withTime tv hdate hyear (landed_time h d)
    rw [if_pos hyear] at hnarrow
    rw [if_pos hyear, addDuration_eq h (hscreen hyear), hnarrow]
    refine ⟨_, rfl, ⟨?_, ?_, ?_⟩, hdate', ⟨rfl, rfl, rfl⟩, fun _ => htime'⟩
    · rwa [hdate']
    · rwa [hdate']
    · rw [htime']
      exact landed_time h d
  · rw [if_neg hyear] at hnarrow ⊢
    by_cases hscreened : Screened d
    · rw [addDuration, if_pos hscreened]
      exact ⟨_, rfl⟩
    · rwa [addDuration_eq h hscreened]

/-- A month and an hour after 2024-01-31T23:30. -/
theorem addDuration_lands_march : (mk 2024 0 0 1 31 23 30 0 .LOCAL_DATETIME none).Lands ⟨1, 0, 3600, 0⟩
      ((mk 2024 0 0 1 31 23 30 0 .LOCAL_DATETIME none).landed ⟨1, 0, 3600, 0⟩) :=
  addDuration_lands ⟨by decide, by decide, by decide⟩ _ (by decide)

/-- An hour before the second day of a year the date is still that day, and the first year does
not take 14 thousand million months. -/
theorem dates_do_not_land : ¬(mk 2024 0 0 1 2 0 0 0 .DATE none).Lands ⟨0, 0, -3600, 0⟩
        ((mk 2024 0 0 1 2 0 0 0 .DATE none).landing ⟨0, 0, -3600, 0⟩) ∧
      ¬(mk (-999999999) 0 0 1 1 0 0 0 .DATE none).Lands ⟨14000000000, 0, 0, 0⟩
        ((mk (-999999999) 0 0 1 1 0 0 0 .DATE none).landing ⟨14000000000, 0, 0, 0⟩) := by
  constructor
  · have hsum : (mk 2024 0 0 1 2 0 0 0 .DATE none).addDuration ⟨0, 0, -3600, 0⟩ =
        .ok ⟨2024, 0, 0, 1, 2, 0, 0, 0, .DATE, none⟩ := by rfl
    rw [Lands, if_pos (by decide), hsum]
    rintro ⟨r, hr, -, hdate, -⟩
    rw [← Except.ok.inj hr] at hdate
    exact absurd hdate (by decide)
  · rw [Lands, if_pos (by decide), addDuration, if_pos (by decide)]
    rintro ⟨r, hr, -⟩
    cases hr

end DateTimeValue

end Eugraph
