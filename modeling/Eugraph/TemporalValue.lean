import Eugraph.Types
import Eugraph.Lib.Calendar

/-!
# Temporal values

The calendar and the epoch conversions of `common/types/temporal_value.cpp`.  The calendar
computes in integers without a bound, with the truncated division of the source; a result
is narrowed where it is stored in a field.
-/

namespace Eugraph

open Lib.Calendar Int

/-! ### The civil calendar -/

def isLeapYear (year : Int) : Bool :=
  (year.tmod 4 = 0 ∧ year.tmod 100 ≠ 0) ∨ year.tmod 400 = 0

def daysInMonth (year month : Int) : Int :=
  if month < 1 ∨ 12 < month then 0
  else if month = 2 ∧ isLeapYear year then 29
  else [31, 28, 31, 30, 31, 30, 31, 31, 30, 31, 30, 31].getD (month - 1).toNat 0

/-- The out parameters of `civilFromDays`. -/
structure CivilDate where
  year : Int
  month : Int
  day : Int
  deriving DecidableEq

def CivilDate.Valid (date : CivilDate) : Prop :=
  1 ≤ date.month ∧ date.month ≤ 12 ∧ 1 ≤ date.day ∧ date.day ≤ daysInMonth date.year date.month

instance (date : CivilDate) : Decidable date.Valid := inferInstanceAs (Decidable (_ ∧ _))

/-- The era of a year that starts in March, and the year's place in it.  The second step
repairs what the shifted truncated division leaves outside of 0 to 399. -/
def eraOf (y : Int) : Int × Int :=
  let era :=
    if 0 ≤ y then y.tdiv 400
    else
      let num := y - 399
      if num < 0 ∧ num.tmod 400 ≠ 0 then num.tdiv 400 - 1 else num.tdiv 400
  let yoe := y - era * 400
  if 400 ≤ yoe then (era + 1, yoe - 400)
  else if yoe < 0 then (era - 1, yoe + 400)
  else (era, yoe)

def daysFromCivil (y m d : Int) : Int :=
  let (era, yoe) := eraOf (y - if m ≤ 2 then 1 else 0)
  let doy := (153 * (m + if 2 < m then -3 else 9) + 2).tdiv 5 + d - 1
  let doe := yoe * 365 + yoe.tdiv 4 - yoe.tdiv 100 + doy
  era * 146097 + doe - 719468

def civilFromDays (days : Int) : CivilDate :=
  let z := days + 719468
  let era := (if 0 ≤ z then z else z - 146096).tdiv 146097
  let doe := z - era * 146097
  let yoe := (doe - doe.tdiv 1460 + doe.tdiv 36524 - doe.tdiv 146096).tdiv 365
  let doy := doe - (365 * yoe + yoe.tdiv 4 - yoe.tdiv 100)
  let mp := (5 * doy + 2).tdiv 153
  let m := mp + if mp < 10 then 3 else -9
  { year := yoe + era * 400 + if m ≤ 2 then 1 else 0
    month := m
    day := doy - (153 * mp + 2).tdiv 5 + 1 }

lemma isLeapYear_iff (year : Int) : isLeapYear year = true ↔ (year % 4 = 0 ∧ year % 100 ≠ 0) ∨ year % 400 = 0 := by
  rw [isLeapYear, decide_eq_true_iff]
  simp only [← dvd_iff_tmod_eq_zero, ne_eq]
  omega

/-- Truncated division below zero, as a floor. -/
theorem tdiv_of_nonpos {a : Int} (h : a ≤ 0) (b : Int) : a.tdiv b = -((-a) / b) := by
  have hneg : (-a).tdiv b = (-a) / b := tdiv_eq_ediv_of_nonneg (by omega)
  rw [← hneg, Int.neg_tdiv, Int.neg_neg]

lemma eraOf_eq (y : Int) : eraOf y = (y / 400, y % 400) := by
  -- the first quotient is the floor or one below it, and the second step repairs the latter
  have hrepair : ∀ era : Int, era = y / 400 ∨ era = y / 400 - 1 →
      (if 400 ≤ y - era * 400 then (era + 1, y - era * 400 - 400)
      else if y - era * 400 < 0 then (era - 1, y - era * 400 + 400)
      else (era, y - era * 400)) = (y / 400, y % 400) := by
    intro era h
    split
    · ext <;> dsimp only <;> omega
    · split
      · ext <;> dsimp only <;> omega
      · ext <;> dsimp only <;> omega
  apply hrepair
  dsimp only
  split
  · rename_i hy
    rw [tdiv_eq_ediv_of_nonneg hy]
    exact .inl rfl
  · rename_i hy
    rw [tdiv_of_nonpos (by omega)]
    simp only [ne_eq, ← dvd_iff_tmod_eq_zero]
    split <;> omega

/-- The month counted from March. -/
def marchMonth (m : Int) : Int := m + if 2 < m then -3 else 9

/-- The year counted from March. -/
def marchYear (y m : Int) : Int := y - if m ≤ 2 then 1 else 0

lemma daysFromCivil_eq {m : Int} (hm : 1 ≤ m ∧ m ≤ 12) (y d : Int) : daysFromCivil y m d =
      marchYear y m / 400 * 146097 +
        (yearStart (marchYear y m % 400) + (monthStart (marchMonth m) + d - 1)) - 719468 := by
  have hmonth : 0 ≤ marchMonth m := by
    rw [marchMonth]
    split <;> omega
  rw [daysFromCivil, eraOf_eq, ← marchYear, ← marchMonth]
  dsimp only
  rw [tdiv_eq_ediv_of_nonneg (a := marchYear y m % 400) (by omega),
    tdiv_eq_ediv_of_nonneg (a := marchYear y m % 400) (by omega),
    tdiv_eq_ediv_of_nonneg (a := 153 * marchMonth m + 2) (by omega), yearStart, monthStart]
  omega

/-- The date at a day of an era, from its place in the cycle. -/
theorem civilFromDays_eq {days era year dayOfYear month : Int}
    (hcycle : InCycle (days + 719468 - era * 146097) year dayOfYear) (hmonth : 0 ≤ month)
    (hstart : monthStart month ≤ dayOfYear) (hnext : dayOfYear < monthStart (month + 1)) :
    civilFromDays days =
      { year := year + era * 400 + if month + (if month < 10 then 3 else -9) ≤ 2 then 1 else 0
        month := month + if month < 10 then 3 else -9
        day := dayOfYear - monthStart month + 1 } := by
  obtain ⟨hday₀, hday₁⟩ := hcycle.day_nonneg
  have hera : (if 0 ≤ days + 719468 then days + 719468
      else days + 719468 - 146096).tdiv 146097 = era := by
    split
    · rw [tdiv_eq_ediv_of_nonneg (by omega)]
      omega
    · rw [tdiv_of_nonpos (by omega)]
      omega
  have hyear := hcycle.year_eq
  have hdayOfYear := hcycle.day_eq
  have hyear₀ := hcycle.year_nonneg
  have hdayOfYear₀ := hcycle.dayOfYear_nonneg
  rw [civilFromDays, hera]
  generalize days + 719468 - era * 146097 = day at *
  rw [tdiv_eq_ediv_of_nonneg hday₀, tdiv_eq_ediv_of_nonneg hday₀,
    tdiv_eq_ediv_of_nonneg hday₀, tdiv_eq_ediv_of_nonneg (b := 365) (by omega), hyear,
    tdiv_eq_ediv_of_nonneg hyear₀, tdiv_eq_ediv_of_nonneg hyear₀]
  have hrest : day - (365 * year + year / 4 - year / 100) = dayOfYear := by
    rw [hdayOfYear, yearStart]
    omega
  rw [hrest, tdiv_eq_ediv_of_nonneg (b := 153) (by omega), month_eq hstart hnext,
    tdiv_eq_ediv_of_nonneg (b := 5) (by omega), monthStart]

lemma daysInMonth_february (y : Int) :
    daysInMonth y 2 = if isLeapYear y then 29 else 28 := by
  simp [daysInMonth]

lemma daysInMonth_eq {m : Int} (hm : 1 ≤ m ∧ m ≤ 12) (hfebruary : m ≠ 2) (y : Int) :
    daysInMonth y m = monthStart (marchMonth m + 1) - monthStart (marchMonth m) := by
  obtain ⟨h₁, h₁₂⟩ := hm
  rw [daysInMonth, if_neg (by omega), if_neg (fun h => hfebruary h.1)]
  interval_cases m <;> first | rfl | exact absurd rfl hfebruary

namespace CivilDate.Valid

variable {date : CivilDate}

lemma in_month (h : date.Valid) :
    monthStart (marchMonth date.month) ≤ monthStart (marchMonth date.month) + date.day - 1 ∧
      monthStart (marchMonth date.month) + date.day - 1 < monthStart (marchMonth date.month + 1) := by
  obtain ⟨hm₀, hm₁, hd₀, hd₁⟩ := h
  refine ⟨by omega, ?_⟩
  by_cases hfebruary : date.month = 2
  · rw [hfebruary, daysInMonth_february] at hd₁
    rw [hfebruary]
    have hday : date.day ≤ 29 := by
      split at hd₁ <;> omega
    simp only [marchMonth, monthStart]
    omega
  · rw [daysInMonth_eq ⟨hm₀, hm₁⟩ hfebruary] at hd₁
    omega

/-- A valid date has its place in the cycle. -/
theorem inCycle (h : date.Valid) : InCycle (yearStart (marchYear date.year date.month % 400) +
        (monthStart (marchMonth date.month) + date.day - 1))
      (marchYear date.year date.month % 400)
      (monthStart (marchMonth date.month) + date.day - 1) := by
  obtain ⟨hstart, hnext⟩ := h.in_month
  obtain ⟨hm₀, hm₁, hd₀, hd₁⟩ := h
  have hmonth : 0 ≤ marchMonth date.month ∧ marchMonth date.month ≤ 11 := by
    rw [marchMonth]
    split <;> omega
  -- January ends on day 336, so the days up to 365 are in February
  have hbefore : date.month ≠ 2 → monthStart (marchMonth date.month) + date.day - 1 ≤ 336 := by
    intro hfebruary
    have hlast : marchMonth date.month ≤ 10 := by
      rw [marchMonth]
      split <;> omega
    simp only [monthStart] at *
    omega
  have hfebruary : date.month = 2 → monthStart (marchMonth date.month) + date.day - 1 = 336 + date.day := by
    intro hfebruary
    rw [hfebruary]
    simp only [marchMonth, monthStart]
    omega
  have hleap : date.month = 2 → date.day ≤ 28 ∨ date.day = 29 ∧ isLeapYear date.year = true := by
    intro hfebruary
    rw [hfebruary, daysInMonth_february] at hd₁
    split at hd₁
    · rename_i hleap
      by_cases hday : date.day ≤ 28
      · exact .inl hday
      · exact .inr ⟨by omega, hleap⟩
    · exact .inl hd₁
  refine ⟨by omega, by omega, ?_, by omega, ?_, rfl⟩
  · simp only [monthStart] at *
    omega
  · intro hlast
    have hmonth₂ : date.month = 2 := by omega
    have hyear : marchYear date.year date.month = date.year - 1 := by
      rw [hmonth₂]
      rfl
    rcases hleap hmonth₂ with hday | ⟨-, hleap⟩
    · omega
    · rw [hyear]
      rw [isLeapYear_iff] at hleap
      omega

end CivilDate.Valid

/-- From a month counted from March back to the civil one. -/
theorem marchMonth_back {month : Int} (h₀ : 0 ≤ month) (h₁ : month ≤ 11) :
    marchMonth (month + if month < 10 then 3 else -9) = month := by
  simp only [marchMonth]
  split <;> split <;> omega

lemma back_marchMonth {m : Int} (hm : 1 ≤ m ∧ m ≤ 12) :
    marchMonth m + (if marchMonth m < 10 then 3 else -9) = m := by
  simp only [marchMonth]
  split <;> split <;> omega

lemma marchMonth_nonneg {m : Int} (hm : 1 ≤ m ∧ m ≤ 12) : 0 ≤ marchMonth m := by
  rw [marchMonth]
  split <;> omega

/-- A valid date is read back from its day number. -/
theorem civilFromDays_daysFromCivil {date : CivilDate} (h : date.Valid) :
    civilFromDays (daysFromCivil date.year date.month date.day) = date := by
  obtain ⟨hstart, hnext⟩ := h.in_month
  have hcycle := h.inCycle
  have hm : 1 ≤ date.month ∧ date.month ≤ 12 := ⟨h.1, h.2.1⟩
  obtain ⟨y, m, d⟩ := date
  dsimp only at *
  have hera : InCycle (daysFromCivil y m d + 719468 - marchYear y m / 400 * 146097)
      (marchYear y m % 400) (monthStart (marchMonth m) + d - 1) := by
    rw [daysFromCivil_eq hm]
    convert hcycle using 1
    omega
  rw [civilFromDays_eq hera (marchMonth_nonneg hm) hstart hnext]
  rw [back_marchMonth hm, CivilDate.mk.injEq]
  refine ⟨?_, rfl, by omega⟩
  rw [marchYear]
  split <;> omega

/-- Every day has a valid date, whose day number it is. -/
theorem daysFromCivil_civilFromDays (days : Int) : (civilFromDays days).Valid ∧
      daysFromCivil (civilFromDays days).year (civilFromDays days).month (civilFromDays days).day = days := by
  obtain ⟨era, hera⟩ : ∃ era, era = (days + 719468) / 146097 := ⟨_, rfl⟩
  have hday₀ : 0 ≤ days + 719468 - era * 146097 := by omega
  have hday₁ : days + 719468 - era * 146097 < 146097 := by omega
  obtain ⟨year, dayOfYear, hcycle⟩ := exists_inCycle hday₀ hday₁
  obtain ⟨month, hmonth₀, hmonth₁, hstart, hnext⟩ := exists_month hcycle.dayOfYear_nonneg hcycle.dayOfYear_le
  have hday := hcycle.day_eq
  have hyear₀ := hcycle.year_nonneg
  have hyear₁ := hcycle.year_lt
  have hleap := hcycle.leap
  have hdayOfYear := hcycle.dayOfYear_le
  have hback := marchMonth_back hmonth₀ hmonth₁
  rw [civilFromDays_eq hcycle hmonth₀ hstart hnext]
  have hm : 1 ≤ month + (if month < 10 then 3 else -9) ∧
      month + (if month < 10 then 3 else -9) ≤ 12 := by
    split <;> omega
  generalize hcivil : month + (if month < 10 then 3 else -9) = m at hback hm ⊢
  have hmarch : marchYear (year + era * 400 + if m ≤ 2 then 1 else 0) m = year + era * 400 := by
    rw [marchYear]
    split <;> omega
  refine ⟨⟨hm.1, hm.2, by dsimp only; omega, ?_⟩, ?_⟩
  · dsimp only
    by_cases hfebruary : m = 2
    · -- day 365 of a year is the leap day of the civil year that has begun since
      have hmonth : month = 11 := by
        rw [← hback, hfebruary]
        rfl
      have hmonthStart : monthStart month = 337 := by
        rw [hmonth]
        rfl
      rw [hfebruary, daysInMonth_february, if_pos (show (2 : Int) ≤ 2 by omega)]
      by_cases hlast : dayOfYear = 365
      · have hcivilYear : isLeapYear (year + era * 400 + 1) = true := by
          rw [isLeapYear_iff]
          have := hleap hlast
          omega
        rw [if_pos hcivilYear]
        omega
      · split <;> omega
    · rw [daysInMonth_eq hm hfebruary, hback]
      omega
  · rw [daysFromCivil_eq hm, hmarch, hback]
    have hyear : (year + era * 400) % 400 = year := by omega
    have hquotient : (year + era * 400) / 400 = era := by omega
    rw [hyear, hquotient]
    dsimp only
    omega

/-! ### Times of day -/

def NANOS_PER_SEC : Int := 1000000000

def NANOS_PER_DAY : Int := 86400000000000

structure TimeOfDay where
  hour : Int
  minute : Int
  second : Int
  nanos : Int
  deriving DecidableEq

namespace TimeOfDay

def Valid (t : TimeOfDay) : Prop :=
  (0 ≤ t.hour ∧ t.hour < 24) ∧ (0 ≤ t.minute ∧ t.minute < 60) ∧ (0 ≤ t.second ∧ t.second < 60) ∧
    (0 ≤ t.nanos ∧ t.nanos < NANOS_PER_SEC)

instance (t : TimeOfDay) : Decidable t.Valid := inferInstanceAs (Decidable (_ ∧ _))

def toNanos (t : TimeOfDay) : Int :=
  (t.hour * 3600 + t.minute * 60 + t.second) * NANOS_PER_SEC + t.nanos

/-- The fields that `datetimeFromEpoch` and `fillTimeOfDayNanos` fill. -/
def ofNanos (nanosOfDay : Int) : TimeOfDay :=
  let secOfDay := nanosOfDay.tdiv NANOS_PER_SEC
  { nanos := nanosOfDay.tmod NANOS_PER_SEC
    second := secOfDay.tmod 60
    minute := (secOfDay.tdiv 60).tmod 60
    hour := (secOfDay.tdiv 60).tdiv 60 }

lemma toNanos_bounds {t : TimeOfDay} (h : t.Valid) : 0 ≤ t.toNanos ∧ t.toNanos < NANOS_PER_DAY := by
  obtain ⟨hhour, hminute, hsecond, hnanos⟩ := h
  simp only [toNanos, NANOS_PER_SEC, NANOS_PER_DAY] at *
  omega

lemma ofNanos_eq {n : Int} (h : 0 ≤ n) : ofNanos n =
      { nanos := n % 1000000000
        second := n / 1000000000 % 60
        minute := n / 1000000000 / 60 % 60
        hour := n / 1000000000 / 60 / 60 } := by
  have hsecond : 0 ≤ n / 1000000000 := by omega
  have hminute : 0 ≤ n / 1000000000 / 60 := by omega
  rw [ofNanos, NANOS_PER_SEC, tdiv_eq_ediv_of_nonneg h, tmod_eq_emod_of_nonneg h,
    tdiv_eq_ediv_of_nonneg hsecond, tmod_eq_emod_of_nonneg hsecond,
    tdiv_eq_ediv_of_nonneg hminute, tmod_eq_emod_of_nonneg hminute]

lemma toNanos_ofNanos {n : Int} (h₀ : 0 ≤ n) : (ofNanos n).toNanos = n := by
  rw [ofNanos_eq h₀]
  simp only [toNanos, NANOS_PER_SEC]
  omega

lemma ofNanos_valid {n : Int} (h₀ : 0 ≤ n) (h₁ : n < NANOS_PER_DAY) : (ofNanos n).Valid := by
  rw [ofNanos_eq h₀]
  rw [NANOS_PER_DAY] at h₁
  simp only [Valid, NANOS_PER_SEC]
  omega

lemma ofNanos_toNanos {t : TimeOfDay} (h : t.Valid) : ofNanos t.toNanos = t := by
  rw [ofNanos_eq (toNanos_bounds h).1]
  obtain ⟨hour, minute, second, nanos⟩ := t
  obtain ⟨hhour, hminute, hsecond, hnanos⟩ := h
  simp only [toNanos, NANOS_PER_SEC, TimeOfDay.mk.injEq] at *
  omega

end TimeOfDay

/-! ### Values on the time line -/

/-- A `QueryException` of kind Argument. -/
structure ArgumentError where
  message : String
  deriving DecidableEq

namespace DateTimeValue

def date (tv : DateTimeValue) : CivilDate := ⟨tv.year.toInt, tv.month.toInt, tv.day.toInt⟩

def time (tv : DateTimeValue) : TimeOfDay :=
  ⟨tv.hour.toInt, tv.minute.toInt, tv.second.toInt, tv.nanos.toInt⟩

/-- Nanoseconds since the epoch, by the local clock. -/
def localNanos (tv : DateTimeValue) : Int :=
  daysFromCivil tv.date.year tv.date.month tv.date.day * NANOS_PER_DAY + tv.time.toNanos

/-- `temporalToComparable`: the instant of a zoned value, the local time of the others. -/
def temporalToComparable (tv : DateTimeValue) : Int :=
  if tv.kind = .DATETIME then tv.localNanos - tv.tz_offset_sec.toInt * NANOS_PER_SEC
  else tv.localNanos

end DateTimeValue

namespace TimeValue

def time (tv : TimeValue) : TimeOfDay :=
  ⟨tv.hour.toInt, tv.minute.toInt, tv.second.toInt, tv.nanos.toInt⟩

def temporalToComparable (tv : TimeValue) : Int :=
  if tv.kind = .TIME then tv.time.toNanos - tv.tz_offset_sec.toInt * NANOS_PER_SEC
  else tv.time.toNanos

end TimeValue

/-! ### Epoch conversion -/

/-- The years a date can have. -/
def YearInRange (year : Int) : Prop := -999999999 ≤ year ∧ year ≤ 999999999

instance (year : Int) : Decidable (YearInRange year) := inferInstanceAs (Decidable (_ ∧ _))

/-- The fields of a value from a date and a time of day, narrowed to their widths. -/
def ofCivil (date : CivilDate) (time : TimeOfDay) : DateTimeValue where
  year := .ofInt date.year
  month := .ofInt date.month
  day := .ofInt date.day
  hour := .ofInt time.hour
  minute := .ofInt time.minute
  second := .ofInt time.second
  nanos := .ofInt time.nanos
  kind := .DATETIME
  tz_offset_sec := 0
  tz_name := none

def datetimeFromEpoch (seconds nanos : Int) : Except ArgumentError DateTimeValue :=
  let totalNanos := seconds * NANOS_PER_SEC + nanos
  let days := totalNanos.tdiv NANOS_PER_DAY
  let dayNs := totalNanos.tmod NANOS_PER_DAY
  let (days, dayNs) := if dayNs < 0 then (days - 1, dayNs + NANOS_PER_DAY) else (days, dayNs)
  let date := civilFromDays days
  if date.year < -999999999 ∨ 999999999 < date.year then .error ⟨"datetime out of range"⟩
  else .ok (ofCivil date (.ofNanos dayNs))

lemma ofCivil_date {date : CivilDate} (hdate : date.Valid) (hyear : YearInRange date.year)
    (time : TimeOfDay) : (ofCivil date time).date = date := by
  obtain ⟨hm₀, hm₁, hd₀, hd₁⟩ := hdate
  obtain ⟨hy₀, hy₁⟩ := hyear
  have hday : date.day ≤ 31 := by
    refine hd₁.trans ?_
    rw [daysInMonth]
    split
    · omega
    · split
      · omega
      · generalize date.month = m at hm₀ hm₁
        interval_cases m <;> decide
  rw [DateTimeValue.date, ofCivil]
  dsimp only
  rw [Int32.toInt_ofInt_of_le (by omega) (by omega), Int8.toInt_ofInt_of_le (by omega) (by omega),
    Int8.toInt_ofInt_of_le (by omega) (by omega)]

lemma ofCivil_time {time : TimeOfDay} (htime : time.Valid) (date : CivilDate) :
    (ofCivil date time).time = time := by
  obtain ⟨hhour, hminute, hsecond, hnanos⟩ := htime
  rw [NANOS_PER_SEC] at hnanos
  rw [DateTimeValue.time, ofCivil]
  dsimp only
  rw [Int8.toInt_ofInt_of_le (by omega) (by omega), Int8.toInt_ofInt_of_le (by omega) (by omega),
    Int8.toInt_ofInt_of_le (by omega) (by omega), Int32.toInt_ofInt_of_le (by omega) (by omega)]

/-- The repair of a truncated quotient and rest by a positive divisor to the floored ones. -/
theorem floor_of_truncated {a b : Int} (hb : 0 < b) :
    (if a.tmod b < 0 then (a.tdiv b - 1, a.tmod b + b) else (a.tdiv b, a.tmod b)) =
      (a / b, a % b) := by
  have hrest := emod_nonneg a hb.ne'
  have hless := emod_lt_of_pos a hb
  rw [tdiv_eq_ediv, tmod_eq_emod, sign_eq_one_of_pos hb]
  split
  · rw [if_neg (by omega)]
    ext <;> dsimp only <;> omega
  · rw [if_pos (by omega)]
    ext <;> dsimp only <;> omega

/-- The value at a point of the time line, on a clock without offset. -/
def atNanos (totalNanos : Int) : DateTimeValue :=
  ofCivil (civilFromDays (totalNanos / NANOS_PER_DAY)) (.ofNanos (totalNanos % NANOS_PER_DAY))

lemma datetimeFromEpoch_eq (seconds nanos : Int) : datetimeFromEpoch seconds nanos =
      if YearInRange (civilFromDays ((seconds * NANOS_PER_SEC + nanos) / NANOS_PER_DAY)).year then
        .ok (atNanos (seconds * NANOS_PER_SEC + nanos))
      else .error ⟨"datetime out of range"⟩ := by
  rw [datetimeFromEpoch, atNanos]
  generalize seconds * NANOS_PER_SEC + nanos = total
  have hsplit := floor_of_truncated (a := total) (b := NANOS_PER_DAY) (by decide)
  dsimp only
  rw [hsplit]
  dsimp only
  by_cases hyear : YearInRange (civilFromDays (total / NANOS_PER_DAY)).year
  · rw [if_pos hyear, if_neg]
    rw [YearInRange] at hyear
    omega
  · rw [if_neg hyear, if_pos]
    rw [YearInRange] at hyear
    omega

lemma date_atNanos {total : Int} (hyear : YearInRange (civilFromDays (total / NANOS_PER_DAY)).year) :
    (atNanos total).date = civilFromDays (total / NANOS_PER_DAY) :=
  ofCivil_date (daysFromCivil_civilFromDays _).1 hyear _

/-- A point of the time line within the years is the local time of its value. -/
theorem localNanos_atNanos {total : Int} (hyear : YearInRange (civilFromDays (total / NANOS_PER_DAY)).year) :
    (atNanos total).localNanos = total := by
  obtain ⟨hvalid, hdays⟩ := daysFromCivil_civilFromDays (total / NANOS_PER_DAY)
  have hrest₀ : 0 ≤ total % NANOS_PER_DAY := by
    rw [NANOS_PER_DAY]
    omega
  have hrest₁ : total % NANOS_PER_DAY < NANOS_PER_DAY := by
    rw [NANOS_PER_DAY]
    omega
  rw [DateTimeValue.localNanos, atNanos, ofCivil_date hvalid hyear,
    ofCivil_time (TimeOfDay.ofNanos_valid hrest₀ hrest₁), hdays, TimeOfDay.toNanos_ofNanos hrest₀,
    NANOS_PER_DAY]
  omega

/-- A value with a valid date and a valid time of day is found on its own day. -/
theorem civilFromDays_localNanos {tv : DateTimeValue} (hdate : tv.date.Valid)
    (htime : tv.time.Valid) : civilFromDays (tv.localNanos / NANOS_PER_DAY) = tv.date := by
  obtain ⟨h₀, h₁⟩ := TimeOfDay.toNanos_bounds htime
  have hdays : tv.localNanos / NANOS_PER_DAY = daysFromCivil tv.date.year tv.date.month tv.date.day := by
    rw [DateTimeValue.localNanos]
    rw [NANOS_PER_DAY] at *
    omega
  rw [hdays, civilFromDays_daysFromCivil hdate]

/-- The day number of a date within the years. -/
theorem daysFromCivil_bounds {date : CivilDate} (hdate : date.Valid) (hyear : YearInRange date.year) :
    -400000000000 < daysFromCivil date.year date.month date.day ∧
      daysFromCivil date.year date.month date.day < 400000000000 := by
  obtain ⟨hday₀, hday₁⟩ := hdate.inCycle.day_nonneg
  obtain ⟨hyear₀, hyear₁⟩ := hyear
  have hmarch : date.year - 1 ≤ marchYear date.year date.month ∧ marchYear date.year date.month ≤ date.year := by
    rw [marchYear]
    split <;> omega
  rw [daysFromCivil_eq ⟨hdate.1, hdate.2.1⟩]
  omega

/-! ### Durations -/

/-- A value of `int64_t`. -/
def FitsInt64 (n : Int) : Prop := -2 ^ 63 ≤ n ∧ n < 2 ^ 63

instance (n : Int) : Decidable (FitsInt64 n) := inferInstanceAs (Decidable (_ ∧ _))

namespace DurationValue

/-- The time part, in nanoseconds. -/
def timeNanos (dur : DurationValue) : Int := dur.seconds.toInt * NANOS_PER_SEC + dur.nanos.toInt

end DurationValue

def normalizeDurationNanos (dur : DurationValue) : Except ArgumentError DurationValue :=
  if 0 ≤ dur.nanos.toInt ∧ dur.nanos.toInt < NANOS_PER_SEC then .ok dur
  else
    let carry := dur.nanos.toInt.tdiv NANOS_PER_SEC
    let rem := dur.nanos.toInt.tmod NANOS_PER_SEC
    let (carry, rem) := if rem < 0 then (carry - 1, rem + NANOS_PER_SEC) else (carry, rem)
    if 0 < carry ∧ 2 ^ 63 - 1 - carry < dur.seconds.toInt then .error ⟨"duration out of range"⟩
    else if carry < 0 ∧ dur.seconds.toInt < -2 ^ 63 - carry then .error ⟨"duration out of range"⟩
    else .ok { dur with seconds := .ofInt (dur.seconds.toInt + carry), nanos := .ofInt rem }

/-- Where the carried seconds fit, months, days and the length of the time part stay. -/
theorem normalizeDurationNanos_ok {dur : DurationValue}
    (h : FitsInt64 (dur.seconds.toInt + dur.nanos.toInt / NANOS_PER_SEC)) :
    ∃ dur', normalizeDurationNanos dur = .ok dur' ∧ dur'.months = dur.months ∧
      dur'.days = dur.days ∧ dur'.timeNanos = dur.timeNanos := by
  rw [normalizeDurationNanos]
  split
  · exact ⟨dur, rfl, rfl, rfl, rfl⟩
  · have hsplit := floor_of_truncated (a := dur.nanos.toInt) (b := NANOS_PER_SEC) (by decide)
    dsimp only
    rw [hsplit]
    dsimp only
    rw [FitsInt64] at h
    have hrest : 0 ≤ dur.nanos.toInt % NANOS_PER_SEC ∧ dur.nanos.toInt % NANOS_PER_SEC < NANOS_PER_SEC := by
      rw [NANOS_PER_SEC]
      omega
    rw [if_neg (by omega), if_neg (by omega)]
    refine ⟨_, rfl, rfl, rfl, ?_⟩
    rw [DurationValue.timeNanos, DurationValue.timeNanos]
    dsimp only
    rw [NANOS_PER_SEC] at *
    rw [Int64.toInt_ofInt_of_le (by omega) (by omega), Int64.toInt_ofInt_of_le (by omega) (by omega)]
    omega

/-! ### Named time zones -/

/-- The offset of a named zone at the start of a day in UTC, as `std::chrono` finds it in the
time zone database; `none` where it throws. -/
abbrev ZoneDatabase := Lib.Bytes → CivilDate → Option Int32

def lookupNamedTimezoneOffset (zones : ZoneDatabase) (date : CivilDate) (name : Lib.Bytes) :
    Int32 :=
  -- a name without a slash is no zone of the database
  if 0x2F ∈ name then (zones name date).getD 0 else 0

end Eugraph
