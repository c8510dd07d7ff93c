import Eugraph.DateArithmetic

/-!
# The duration between two values

`durationBetween` (`common/types/temporal_value.cpp`) counts whole months first, then whole days,
then what is left, in the manner of `java.time`.  An end whose time of day comes before that of the
start is moved back a day for the months; nothing moves it forward.
-/

namespace Eugraph

open Lib.SignedWord Lib.Calendar CivilDate TimeOfDay

/-- `LocalDate.minusDays(1)`. -/
def CivilDate.minusDay (date : CivilDate) : CivilDate :=
  if date.day - 1 < 1 then
    let (year, month) := if date.month - 1 < 1 then (date.year - 1, 12) else (date.year, date.month - 1)
    ⟨year, month, daysInMonth year month⟩
  else { date with day := date.day - 1 }

/-- The whole months from a date to another. -/
def wholeMonths (a e : CivilDate) : Int :=
  (packedMonthDay e.year e.month e.day - packedMonthDay a.year a.month a.day).tdiv 32

/-- Days and a rest of opposite signs: the days give one back. -/
def foldSigns (days rem_ns : Int) : Int × Int :=
  if 0 < days ∧ rem_ns < 0 then (days - 1, rem_ns + NANOS_PER_DAY)
  else if days < 0 ∧ 0 < rem_ns then (days + 1, rem_ns - NANOS_PER_DAY)
  else (days, rem_ns)

namespace DateTimeValue

def timeOfDayNanos (v : DateTimeValue) (utc : Bool) : Int :=
  if utc ∧ v.kind = .DATETIME then v.time.toNanos - v.tz_offset_sec.toInt * NANOS_PER_SEC else v.time.toNanos

def durationBetween (a b : DateTimeValue) : Except ArgumentError DurationValue :=
  let has_time := a.kind ≠ .DATE
  let both_zoned := decide (a.kind = .DATETIME ∧ b.kind = .DATETIME)
  let end_date := if has_time ∧ b.timeOfDayNanos both_zoned < a.timeOfDayNanos both_zoned then b.date.minusDay
    else b.date
  let months := wholeMonths a.date end_date
  let mid := a.withDate (addMonthsClamped a.date months)
  let days := daysFromCivil b.date.year b.date.month b.date.day -
    daysFromCivil mid.date.year mid.date.month mid.date.day
  let frame := fun v : DateTimeValue => if both_zoned then v.temporalToComparable else v.localNanos
  let rem_ns := (Int64.ofInt (frame b - frame mid - days * NANOS_PER_DAY)).toInt
  let (days, rem_ns) := foldSigns days rem_ns
  normalizeDurationNanos
    ⟨.ofInt months, .ofInt days, .ofInt (rem_ns.tdiv NANOS_PER_SEC), .ofInt (rem_ns.tmod NANOS_PER_SEC)⟩

end DateTimeValue

namespace TimeValue

def subtractTimes (a b : TimeValue) : Except ArgumentError DurationValue :=
  let (a, b) := if a.kind ≠ b.kind then ({ a with kind := .LOCAL_TIME }, { b with kind := .LOCAL_TIME }) else (a, b)
  let diff_ns := a.temporalToComparable - b.temporalToComparable
  normalizeDurationNanos ⟨0, 0, .ofInt (diff_ns.tdiv NANOS_PER_SEC), .ofInt (diff_ns.tmod NANOS_PER_SEC)⟩

def durationBetween (a b : TimeValue) : Except ArgumentError DurationValue := subtractTimes b a

end TimeValue

/-! ### The order of dates -/

namespace CivilDate

def dayNumber (date : CivilDate) : Int := daysFromCivil date.year date.month date.day

def monthNumber (date : CivilDate) : Int := absoluteMonths date.year date.month

/-- A date of an earlier month is earlier. -/
theorem dayNumber_lt_of_month {e a : CivilDate} (he : e.Valid) (ha : a.Valid) (h : e.monthNumber < a.monthNumber) :
    e.dayNumber < a.dayNumber := by
  obtain ⟨-, henext⟩ := he.in_month
  obtain ⟨hastart, -⟩ := ha.in_month
  have hecycle := he.inCycle
  have hacycle := ha.inCycle
  have heday := hecycle.day_nonneg
  have haday := hacycle.day_nonneg
  -- the months counted from March are those of the years counted from March
  have hmarch : ∀ date : CivilDate, date.Valid →
      12 * marchYear date.year date.month + marchMonth date.month = date.monthNumber - 2 ∧
        0 ≤ marchMonth date.month ∧ marchMonth date.month ≤ 11 := by
    rintro date ⟨hm₀, hm₁, -, -⟩
    simp only [marchYear, marchMonth, monthNumber, absoluteMonths]
    split <;> split <;> omega
  obtain ⟨hemonths, heMarch₀, heMarch₁⟩ := hmarch e he
  obtain ⟨hamonths, haMarch₀, haMarch₁⟩ := hmarch a ha
  rw [dayNumber, dayNumber, daysFromCivil_eq ⟨he.1, he.2.1⟩, daysFromCivil_eq ⟨ha.1, ha.2.1⟩]
  generalize marchYear e.year e.month = y at *
  generalize marchYear a.year a.month = y' at *
  generalize marchMonth e.month = m at *
  generalize marchMonth a.month = m' at *
  rcases lt_trichotomy (y / 400) (y' / 400) with hera | hera | hera
  · omega
  · rcases lt_or_eq_of_le (show y % 400 ≤ y' % 400 by omega) with hyear | hyear
    · have hless := hecycle.lt_of_year hacycle hyear
      omega
    · have hmonth : monthStart (m + 1) ≤ monthStart m' := by
        simp only [monthStart]
        omega
      rw [hyear]
      omega
  · omega

/-- Dates are ordered by month, then by day. -/
theorem dayNumber_lt_iff {e a : CivilDate} (he : e.Valid) (ha : a.Valid) : e.dayNumber < a.dayNumber ↔
      e.monthNumber < a.monthNumber ∨ e.monthNumber = a.monthNumber ∧ e.day < a.day := by
  have hsame : ∀ {x y : CivilDate}, x.Valid → y.Valid → x.monthNumber = y.monthNumber →
      x.dayNumber - x.day = y.dayNumber - y.day := by
    intro x y hx hy hmonth
    obtain ⟨hx₀, hx₁, -, -⟩ := hx
    obtain ⟨hy₀, hy₁, -, -⟩ := hy
    simp only [monthNumber, absoluteMonths] at hmonth
    have hyear : x.year = y.year := by omega
    have hmonth : x.month = y.month := by omega
    have hxday := daysFromCivil_day x.year x.month x.day
    have hyday := daysFromCivil_day y.year y.month y.day
    rw [dayNumber, dayNumber]
    rw [hyear, hmonth] at *
    omega
  rcases lt_trichotomy e.monthNumber a.monthNumber with hless | heq | hgreater
  · exact iff_of_true (dayNumber_lt_of_month he ha hless) (.inl hless)
  · have := hsame he ha heq
    omega
  · have := dayNumber_lt_of_month ha he hgreater
    omega

lemma dayNumber_injective {e a : CivilDate} (he : e.Valid) (ha : a.Valid) (h : e.dayNumber = a.dayNumber) :
    e = a := by
  rw [← civilFromDays_daysFromCivil he, ← civilFromDays_daysFromCivil ha]
  exact congrArg civilFromDays h

/-- Nothing lies between a date and the one a day back. -/
theorem minusDay_spec {date : CivilDate} (h : date.Valid) :
    date.minusDay.Valid ∧ date.minusDay.dayNumber = date.dayNumber - 1 := by
  obtain ⟨hvalid, hnumber⟩ := daysFromCivil_civilFromDays (date.dayNumber - 1)
  have hm := h.1
  have hm' := h.2.1
  have hd := h.2.2.1
  rw [minusDay]
  split
  next hfirst =>
    generalize hlast : (if date.month - 1 < 1 then (date.year - 1, (12 : Int)) else (date.year, date.month - 1)) =
      last
    obtain ⟨year, month⟩ := last
    have hbefore : (1 ≤ month ∧ month ≤ 12) ∧ year * 12 + month = date.year * 12 + date.month - 1 := by
      split at hlast
      · obtain ⟨rfl, rfl⟩ := Prod.mk.inj hlast
        omega
      · obtain ⟨rfl, rfl⟩ := Prod.mk.inj hlast
        omega
    have hlength := daysInMonth_bounds (y := year) hbefore.1.1 hbefore.1.2
    have hvalid' : (mk year month (daysInMonth year month)).Valid :=
      ⟨hbefore.1.1, hbefore.1.2, by dsimp only; omega, le_rfl⟩
    refine ⟨hvalid', show (mk year month (daysInMonth year month)).dayNumber = _ from ?_⟩
    have hless := (dayNumber_lt_iff hvalid' h).mpr (.inl (by simp only [monthNumber, absoluteMonths]; omega))
    -- the day before is in that month, and no day of it is later
    have hlate := dayNumber_lt_iff hvalid' hvalid
    have hbelow := dayNumber_lt_iff hvalid h
    have hnumber' : (civilFromDays (date.dayNumber - 1)).dayNumber = date.dayNumber - 1 := hnumber
    have hday := hvalid.2.2
    have hmonths : (mk year month (daysInMonth year month)).monthNumber = date.monthNumber - 1 := by
      simp only [monthNumber, absoluteMonths]
      omega
    have hsame : (civilFromDays (date.dayNumber - 1)).monthNumber = date.monthNumber - 1 →
        daysInMonth (civilFromDays (date.dayNumber - 1)).year (civilFromDays (date.dayNumber - 1)).month =
          daysInMonth year month := by
      intro hmonth
      have hv₀ := hvalid.1
      have hv₁ := hvalid.2.1
      simp only [monthNumber, absoluteMonths] at hmonth
      congr 1 <;> omega
    dsimp only at hlate
    omega
  next hlater =>
    refine ⟨⟨hm, hm', by dsimp only; omega, ?_⟩, ?_⟩
    · have := h.2.2.2
      dsimp only
      omega
    · have hday := daysFromCivil_day date.year date.month date.day
      have hday' := daysFromCivil_day date.year date.month (date.day - 1)
      simp only [dayNumber]
      omega

lemma minusDay_year (date : CivilDate) : date.year - 1 ≤ date.minusDay.year ∧ date.minusDay.year ≤ date.year := by
  rw [minusDay]
  split
  · by_cases hmonth : date.month - 1 < 1
    · simp only [if_pos hmonth]
      omega
    · simp only [if_neg hmonth]
      omega
  · dsimp only
    omega

end CivilDate

lemma monthsLater_month (a : CivilDate) (months : Int) :
    (monthsLater a months).monthNumber = a.monthNumber + months := by
  simp only [monthsLater, monthNumber, absoluteMonths]
  omega

lemma monthsLater_zero {a : CivilDate} (ha : a.Valid) : monthsLater a 0 = a := by
  rw [← addMonthsClamped_eq ha, addMonthsClamped, if_pos rfl]

/-- Months back are more than a day. -/
theorem monthsLater_before {a : CivilDate} (ha : a.Valid) {months : Int} (h : months < 0) :
    (monthsLater a months).dayNumber + 2 ≤ a.dayNumber := by
  have hmid := monthsLater_valid ha months
  have hmonth := monthsLater_month a months
  have hday : (monthsLater a months).day ≤ a.day := min_le_left _ _
  obtain ⟨ham₀, ham₁, had₀, had₁⟩ := id ha
  obtain ⟨hm₀, hm₁, hd₀, hd₁⟩ := id hmid
  generalize monthsLater a months = mid at *
  have hlength := daysInMonth_bounds (y := mid.year) hm₀ hm₁
  -- a date between the two
  by_cases hfirst : a.day = 1
  · have hsecond : (CivilDate.mk mid.year mid.month 2).Valid :=
      ⟨hm₀, hm₁, by dsimp only; omega, by dsimp only; omega⟩
    have hafter := (CivilDate.dayNumber_lt_iff hmid hsecond).mpr (.inr ⟨rfl, by dsimp only; omega⟩)
    have hbefore := (CivilDate.dayNumber_lt_iff hsecond ha).mpr
      (.inl (show mid.monthNumber < a.monthNumber by omega))
    omega
  · have hstart : (CivilDate.mk a.year a.month 1).Valid := ⟨ham₀, ham₁, by dsimp only; omega, by dsimp only; omega⟩
    have hafter := (CivilDate.dayNumber_lt_iff hmid hstart).mpr
      (.inl (show mid.monthNumber < a.monthNumber by omega))
    have hbefore := (CivilDate.dayNumber_lt_iff hstart ha).mpr (.inr ⟨rfl, by dsimp only; omega⟩)
    omega

/-- The day of the month that a date has after whole months back. -/
def OnMonthDay (a e : CivilDate) : Prop := e.day = min a.day (daysInMonth e.year e.month)

instance (a e : CivilDate) : Decidable (OnMonthDay a e) := inferInstanceAs (Decidable (_ = _))

lemma wholeMonths_eq (a e : CivilDate) :
    wholeMonths a e = ((e.monthNumber - a.monthNumber) * 32 + (e.day - a.day)).tdiv 32 := by
  simp only [wholeMonths, packedMonthDay, monthNumber]
  congr 1
  omega

/-- The whole months never lead past the end, and to it where the days of the month agree. -/
theorem wholeMonths_spec {a e : CivilDate} (ha : a.Valid) (he : e.Valid) :
    let months := wholeMonths a e
    let mid := monthsLater a months
    (a.dayNumber ≤ e.dayNumber → 0 ≤ months ∧ (a.dayNumber ≤ mid.dayNumber ∧ mid.dayNumber ≤ e.dayNumber) ∧
        (mid.dayNumber = e.dayNumber ↔ e.day = a.day)) ∧
      (e.dayNumber ≤ a.dayNumber → months ≤ 0 ∧ (e.dayNumber ≤ mid.dayNumber ∧ mid.dayNumber ≤ a.dayNumber) ∧
        (mid.dayNumber = e.dayNumber ↔ OnMonthDay a e)) ∧
      min a.year e.year ≤ mid.year ∧ mid.year ≤ max a.year e.year ∧ months = mid.monthNumber - a.monthNumber := by
  intro months mid
  have hmid : mid.Valid := monthsLater_valid ha months
  have hnumber : mid.monthNumber = a.monthNumber + months := monthsLater_month a months
  have hday : mid.day = min a.day (daysInMonth mid.year mid.month) := rfl
  have hsame : mid.monthNumber = e.monthNumber → mid.day = min a.day (daysInMonth e.year e.month) := by
    intro hmonth
    have hv₀ := hmid.1
    have hv₁ := hmid.2.1
    have he₀ := he.1
    have he₁ := he.2.1
    simp only [monthNumber, absoluteMonths] at hmonth
    have hyear : mid.year = e.year := by omega
    have hmonth : mid.month = e.month := by omega
    rw [hday, hyear, hmonth]
  have hstay : months = 0 → mid.dayNumber = a.dayNumber := by
    intro hzero
    rw [show mid = monthsLater a months from rfl, hzero, monthsLater_zero ha]
  -- the days of the months are below 32, so the quotient is the difference of the months or one less
  obtain ⟨hcount, ⟨hrest₀, hrest₁⟩, hrestPos, hrestNeg⟩ :=
    truncated_spec ((e.monthNumber - a.monthNumber) * 32 + (e.day - a.day)) (b := 32) (by decide)
  rw [← wholeMonths_eq] at hcount
  have hcount : 32 * months + _ = _ := hcount
  generalize ((e.monthNumber - a.monthNumber) * 32 + (e.day - a.day)).tmod 32 = rest at *
  have hlength := daysInMonth_bounds (y := a.year) ha.1 ha.2.1
  have hlength' := daysInMonth_bounds (y := e.year) he.1 he.2.1
  have ha₀ := ha.2.2
  have he₀ := he.2.2
  -- in the month of the end the days decide, and in another month the months do
  have horder : mid.monthNumber = e.monthNumber →
      (mid.dayNumber < e.dayNumber ↔ mid.day < e.day) ∧ (e.dayNumber < mid.dayNumber ↔ e.day < mid.day) := by
    intro hmonth
    simp [dayNumber_lt_iff hmid he, dayNumber_lt_iff he hmid, hmonth]
  refine ⟨fun hle => ?_, fun hle => ?_, ?_⟩
  · have hlate := mt (dayNumber_lt_iff he ha).mpr (by omega)
    have hpast : a.dayNumber ≤ mid.dayNumber := by
      by_contra hbefore
      have hearlier := (dayNumber_lt_iff hmid ha).mp (by omega)
      omega
    by_cases hdays : a.day ≤ e.day
    · have hmonth : mid.monthNumber = e.monthNumber := by omega
      have hmidDay := hsame hmonth
      obtain ⟨hbefore, hafter⟩ := horder hmonth
      exact ⟨by omega, ⟨hpast, by omega⟩, by omega⟩
    · have hbefore := (dayNumber_lt_iff hmid he).mpr (.inl (by omega))
      exact ⟨by omega, ⟨hpast, by omega⟩, by omega⟩
  · have hearly := mt (dayNumber_lt_iff ha he).mpr (by omega)
    have hpast : mid.dayNumber ≤ a.dayNumber := by
      by_contra hafter
      have hlater := (dayNumber_lt_iff ha hmid).mp (by omega)
      omega
    by_cases hdays : e.day ≤ a.day
    · have hmonth : mid.monthNumber = e.monthNumber := by omega
      have hmidDay := hsame hmonth
      obtain ⟨hbefore, hafter⟩ := horder hmonth
      exact ⟨by omega, ⟨by omega, hpast⟩, by rw [OnMonthDay]; omega⟩
    · have hafter := (dayNumber_lt_iff he hmid).mpr (.inl (by omega))
      exact ⟨by omega, ⟨by omega, hpast⟩, by rw [OnMonthDay]; omega⟩
  · obtain ⟨hv₀, hv₁, -⟩ := hmid
    obtain ⟨ham₀, ham₁, -⟩ := ha
    obtain ⟨hem₀, hem₁, -⟩ := he
    refine ⟨?_, ?_, by omega⟩
    · simp only [monthNumber, absoluteMonths] at *
      omega
    · simp only [monthNumber, absoluteMonths] at *
      omega

/-! ### The parts -/

/-- A time part of so many nanoseconds. -/
theorem normalized_ofNanos (months days : Int64) {n : Int} (h : -2 ^ 63 ≤ n ∧ n < 2 ^ 63) :
    ∃ d, normalizeDurationNanos ⟨months, days, .ofInt (n.tdiv NANOS_PER_SEC), .ofInt (n.tmod NANOS_PER_SEC)⟩ =
      .ok d ∧
      d.months = months ∧ d.days = days ∧ d.timeNanos = n := by
  obtain ⟨hsum, ⟨hlow, hhigh⟩, hpos, hneg⟩ := truncated_spec n (b := NANOS_PER_SEC) (by decide)
  simp only [NANOS_PER_SEC] at *
  have hseconds : (Int64.ofInt (n.tdiv 1000000000)).toInt = n.tdiv 1000000000 :=
    (toInt_ofInt_iff _).mpr ⟨by omega, by omega⟩
  have hnanos : (Int64.ofInt (n.tmod 1000000000)).toInt = n.tmod 1000000000 :=
    (toInt_ofInt_iff _).mpr ⟨by omega, by omega⟩
  obtain ⟨d, hd, hm, hdays, htime⟩ := @normalizeDurationNanos_ok
    ⟨months, days, .ofInt (n.tdiv 1000000000), .ofInt (n.tmod 1000000000)⟩ (by
      rw [hseconds, hnanos, FitsInt64, NANOS_PER_SEC]
      omega)
  refine ⟨d, hd, hm, hdays, ?_⟩
  rw [htime, DurationValue.timeNanos]
  dsimp only
  rw [hseconds, hnanos, NANOS_PER_SEC]
  omega

lemma foldSigns_spec (days rem_ns : Int) : ((0 < days ∧ rem_ns < 0) ∧ (foldSigns days rem_ns).1 = days - 1 ∧
        (foldSigns days rem_ns).2 = rem_ns + NANOS_PER_DAY) ∨
      ((days < 0 ∧ 0 < rem_ns) ∧ (foldSigns days rem_ns).1 = days + 1 ∧
        (foldSigns days rem_ns).2 = rem_ns - NANOS_PER_DAY) ∨
      ((days ≤ 0 ∨ 0 ≤ rem_ns) ∧ (0 ≤ days ∨ rem_ns ≤ 0)) ∧ (foldSigns days rem_ns).1 = days ∧
        (foldSigns days rem_ns).2 = rem_ns := by
  rw [foldSigns]
  split
  · exact .inl ⟨‹_›, rfl, rfl⟩
  · split
    · exact .inr (.inl ⟨‹_›, rfl, rfl⟩)
    · exact .inr (.inr ⟨by omega, rfl, rfl⟩)

namespace DateTimeValue

/-- The time of day of a value among those of its kind. -/
def clockNanos (v : DateTimeValue) : Int := v.timeOfDayNanos true

/-- The date up to which the months are counted. -/
def endDate (a b : DateTimeValue) : CivilDate :=
  if a.kind ≠ .DATE ∧ b.clockNanos < a.clockNanos then b.date.minusDay else b.date

lemma temporalToComparable_eq (v : DateTimeValue) :
    v.temporalToComparable = v.date.dayNumber * NANOS_PER_DAY + v.clockNanos := by
  rw [temporalToComparable, clockNanos, timeOfDayNanos, localNanos, dayNumber]
  by_cases hkind : v.kind = .DATETIME
  · rw [if_pos hkind, if_pos ⟨rfl, hkind⟩, Int.add_sub_assoc]
  · rw [if_neg hkind, if_neg fun h => hkind h.2]

lemma clockNanos_bounds {v : DateTimeValue} (h : v.time.Valid) :
    -2 ^ 31 * NANOS_PER_SEC ≤ v.clockNanos ∧ v.clockNanos < NANOS_PER_DAY + 2 ^ 31 * NANOS_PER_SEC := by
  obtain ⟨h₀, h₁⟩ := toNanos_bounds h
  have hlow := v.tz_offset_sec.le_toInt
  have hhigh := v.tz_offset_sec.toInt_lt
  rw [clockNanos, timeOfDayNanos, NANOS_PER_SEC]
  split <;> omega

lemma endDate_spec {a b : DateTimeValue} (hb : b.Valid) :
    (a.endDate b).Valid ∧ b.date.year - 1 ≤ (a.endDate b).year ∧ (a.endDate b).year ≤ b.date.year ∧
      (a.endDate b).dayNumber =
        b.date.dayNumber - if a.kind ≠ .DATE ∧ b.clockNanos < a.clockNanos then 1 else 0 := by
  obtain ⟨hvalid, hnumber⟩ := minusDay_spec hb.date
  rw [endDate]
  split
  · obtain ⟨hyear₀, hyear₁⟩ := minusDay_year b.date
    exact ⟨hvalid, hyear₀, hyear₁, hnumber⟩
  · exact ⟨hb.date, by omega, le_rfl, (Int.sub_zero _).symm⟩

/-- The fields of a date around the years that a value can have are not cut. -/
theorem withDate_date (v : DateTimeValue) {date : CivilDate} (h : date.Valid) (h₀ : -1000000000 ≤ date.year)
    (h₁ : date.year ≤ 1000000000) : (v.withDate date).date = date := by
  obtain ⟨hm₀, hm₁, hd₀, hd₁⟩ := h
  have hlength := daysInMonth_bounds (y := date.year) hm₀ hm₁
  rw [DateTimeValue.date, withDate]
  dsimp only
  rw [Int32.toInt_ofInt_of_le (by omega) (by omega), Int8.toInt_ofInt_of_le (by omega) (by omega),
    Int8.toInt_ofInt_of_le (by omega) (by omega)]

/-- The months lead to a date, the days and the rest from there to the end. -/
theorem durationBetween_eq {a b : DateTimeValue} (ha : a.Valid) (hb : b.Valid) (hkind : a.kind = b.kind) :
    ∃ d, durationBetween a b = .ok d ∧ d.months.toInt = wholeMonths a.date (a.endDate b) ∧
      (d.days.toInt, d.timeNanos) =
        foldSigns (b.date.dayNumber - (monthsLater a.date (wholeMonths a.date (a.endDate b))).dayNumber)
          (b.clockNanos - a.clockNanos) := by
  obtain ⟨hend, hendYear₀, hendYear₁, hendNumber⟩ := endDate_spec (a := a) hb
  obtain ⟨hforward, hbackward, hmidYear₀, hmidYear₁, hmonths⟩ := wholeMonths_spec ha.date hend
  have hyear := ha.year
  have hyear' := hb.year
  rw [YearInRange] at hyear hyear'
  have hmidValid := monthsLater_valid ha.date (wholeMonths a.date (a.endDate b))
  have hmid := withDate_date a hmidValid (by omega) (by omega)
  -- for values of one kind both frames are the comparable ones
  have hzoned : ∀ v : DateTimeValue, v.kind = a.kind →
      v.timeOfDayNanos (decide (a.kind = .DATETIME ∧ b.kind = .DATETIME)) = v.clockNanos ∧
        (if decide (a.kind = .DATETIME ∧ b.kind = .DATETIME) then v.temporalToComparable else v.localNanos) =
          v.temporalToComparable := by
    intro v hv
    rw [clockNanos, timeOfDayNanos, timeOfDayNanos, temporalToComparable, hv]
    by_cases hdatetime : a.kind = .DATETIME
    · simp [← hkind, hdatetime]
    · simp [hdatetime]
  have hclock := clockNanos_bounds ha.time
  have hclock' := clockNanos_bounds hb.time
  rw [NANOS_PER_DAY, NANOS_PER_SEC] at hclock hclock'
  have hrest : b.temporalToComparable -
        (a.withDate (monthsLater a.date (wholeMonths a.date (a.endDate b)))).temporalToComparable -
          (b.date.dayNumber - (monthsLater a.date (wholeMonths a.date (a.endDate b))).dayNumber) * NANOS_PER_DAY =
      b.clockNanos - a.clockNanos := by
    have hsame : (a.withDate (monthsLater a.date (wholeMonths a.date (a.endDate b)))).clockNanos = a.clockNanos :=
      rfl
    rw [temporalToComparable_eq, temporalToComparable_eq, hmid, hsame, NANOS_PER_DAY]
    omega
  have hcast : (Int64.ofInt (b.clockNanos - a.clockNanos)).toInt = b.clockNanos - a.clockNanos :=
    (toInt_ofInt_iff _).mpr ⟨by omega, by omega⟩
  have hendDate : (if a.kind ≠ .DATE ∧ b.clockNanos < a.clockNanos then b.date.minusDay else b.date) =
    a.endDate b := rfl
  have hnumber : ∀ date : CivilDate, daysFromCivil date.year date.month date.day = date.dayNumber := fun _ => rfl
  rw [durationBetween]
  simp only [(hzoned a rfl).1, (hzoned b hkind.symm).1,
    (hzoned b hkind.symm).2, hendDate, addMonthsClamped_eq ha.date,
    (hzoned (a.withDate (monthsLater a.date (wholeMonths a.date (a.endDate b)))) rfl).2, hmid, hnumber, hrest, hcast]
  have hday := daysFromCivil_bounds ha.date ha.year
  have hday' := daysFromCivil_bounds hb.date hb.year
  rw [hnumber] at hday hday'
  have hmonthsRange : InRange (wholeMonths a.date (a.endDate b)) := by
    have hmonth₀ := hmidValid.1
    have hmonth₁ := hmidValid.2.1
    have hmonth₀' := ha.date.1
    have hmonth₁' := ha.date.2.1
    simp only [monthNumber, absoluteMonths] at hmonths
    exact ⟨by omega, by omega⟩
  have hbetween : a.date.dayNumber ≤ (a.endDate b).dayNumber ∨ (a.endDate b).dayNumber ≤ a.date.dayNumber :=
    le_total _ _
  generalize wholeMonths a.date (a.endDate b) = months at *
  generalize (monthsLater a.date months).dayNumber = mid at *
  have hfolded : (-2 ^ 60 < (foldSigns (b.date.dayNumber - mid) (b.clockNanos - a.clockNanos)).1 ∧
        (foldSigns (b.date.dayNumber - mid) (b.clockNanos - a.clockNanos)).1 < 2 ^ 60) ∧
      -2 ^ 63 ≤ (foldSigns (b.date.dayNumber - mid) (b.clockNanos - a.clockNanos)).2 ∧
        (foldSigns (b.date.dayNumber - mid) (b.clockNanos - a.clockNanos)).2 < 2 ^ 63 := by
    have hend : (a.endDate b).dayNumber = b.date.dayNumber ∨ (a.endDate b).dayNumber = b.date.dayNumber - 1 := by
      rw [hendNumber]
      split
      · exact .inr rfl
      · exact .inl (Int.sub_zero _)
    have hfold := foldSigns_spec (b.date.dayNumber - mid) (b.clockNanos - a.clockNanos)
    rw [NANOS_PER_DAY] at hfold
    omega
  obtain ⟨hdays, hrest₀, hrest₁⟩ := hfolded
  generalize foldSigns (b.date.dayNumber - mid) (b.clockNanos - a.clockNanos) = folded at *
  obtain ⟨d, hd, hmonths', hdays', htime⟩ := normalized_ofNanos (.ofInt months) (.ofInt folded.1) ⟨hrest₀, hrest₁⟩
  refine ⟨d, hd, ?_, ?_⟩
  · rw [hmonths', (toInt_ofInt_iff _).mpr]
    exact hmonthsRange
  · rw [hdays', htime, (toInt_ofInt_iff _).mpr ⟨by omega, by omega⟩]

/-- No part of the duration to an end that is not before the start is negative, and none to an end
that is not after it is positive. -/
def SameSign (a b : DateTimeValue) : Prop :=
  ∃ d, durationBetween a b = .ok d ∧
    (a.temporalToComparable ≤ b.temporalToComparable → 0 ≤ d.months.toInt ∧ 0 ≤ d.days.toInt ∧ 0 ≤ d.timeNanos) ∧
    (b.temporalToComparable ≤ a.temporalToComparable → d.months.toInt ≤ 0 ∧ d.days.toInt ≤ 0 ∧ d.timeNanos ≤ 0)

/-- What the missing step forward and the step back that is always taken ask of the values. -/
def ClocksAgree (a b : DateTimeValue) : Prop :=
  let days := b.date.dayNumber - a.date.dayNumber
  let clock := b.clockNanos - a.clockNanos
  (a.temporalToComparable ≤ b.temporalToComparable →
      (0 ≤ clock → -1 ≤ days) ∧
        (clock < 0 → if a.kind = .DATE then b.date.day ≠ a.date.day else -NANOS_PER_DAY ≤ clock)) ∧
    (b.temporalToComparable ≤ a.temporalToComparable →
      (0 < clock → clock ≤ NANOS_PER_DAY ∧ ¬OnMonthDay a.date b.date) ∧
        (clock < 0 → a.kind ≠ .DATE →
          days ≤ 1 ∧ (days ≤ 0 → -NANOS_PER_DAY < clock → ¬OnMonthDay a.date b.date.minusDay)))

instance (a b : DateTimeValue) : Decidable (ClocksAgree a b) := inferInstanceAs (Decidable (_ ∧ _))

theorem sameSign_iff {a b : DateTimeValue} (ha : a.Valid) (hb : b.Valid) (hkind : a.kind = b.kind) :
    SameSign a b ↔ ClocksAgree a b := by
  obtain ⟨d, hd, hmonths, hparts⟩ := durationBetween_eq ha hb hkind
  obtain ⟨hend, -, -, hnumber⟩ := endDate_spec (a := a) hb
  obtain ⟨hforward, hbackward, -⟩ := wholeMonths_spec ha.date hend
  have hbefore := @monthsLater_before _ ha.date (wholeMonths a.date (a.endDate b))
  have hstay : wholeMonths a.date (a.endDate b) = 0 →
      (monthsLater a.date (wholeMonths a.date (a.endDate b))).dayNumber = a.date.dayNumber := by
    intro hzero
    rw [hzero, monthsLater_zero ha.date]
  have hdate : a.kind = .DATE →
      (0 ≤ a.clockNanos ∧ a.clockNanos < NANOS_PER_DAY) ∧ 0 ≤ b.clockNanos ∧ b.clockNanos < NANOS_PER_DAY := by
    intro hdate
    have hclock : ∀ v : DateTimeValue, v.kind = .DATE → v.clockNanos = v.time.toNanos := by
      intro v hv
      rw [clockNanos, timeOfDayNanos, hv]
      rfl
    rw [hclock a hdate, hclock b (hkind ▸ hdate)]
    exact ⟨toNanos_bounds ha.time, toNanos_bounds hb.time⟩
  have hsame : SameSign a b ↔
      (a.temporalToComparable ≤ b.temporalToComparable → 0 ≤ d.months.toInt ∧ 0 ≤ d.days.toInt ∧ 0 ≤ d.timeNanos) ∧
        (b.temporalToComparable ≤ a.temporalToComparable →
          d.months.toInt ≤ 0 ∧ d.days.toInt ≤ 0 ∧ d.timeNanos ≤ 0) := by
    rw [SameSign, hd]
    simp only [Except.ok.injEq, exists_eq_left']
  have hcomparable := temporalToComparable_eq a
  have hcomparable' := temporalToComparable_eq b
  rw [hsame, ClocksAgree, hmonths]
  generalize (monthsLater a.date (wholeMonths a.date (a.endDate b))).dayNumber = mid at *
  generalize wholeMonths a.date (a.endDate b) = months at *
  have hfold := foldSigns_spec (b.date.dayNumber - mid) (b.clockNanos - a.clockNanos)
  rw [← hparts] at hfold
  rw [NANOS_PER_DAY] at *
  dsimp only at hfold ⊢
  by_cases hborrow : a.kind ≠ .DATE ∧ b.clockNanos < a.clockNanos
  · rw [if_pos hborrow] at hnumber
    have hendDate : a.endDate b = b.date.minusDay := if_pos hborrow
    rw [hendDate] at hforward hbackward hnumber
    obtain ⟨hnot, hclock⟩ := hborrow
    have hopposed : ¬0 < b.clockNanos - a.clockNanos := by omega
    simp only [hnot, hopposed, ne_eq, not_false_eq_true, true_implies, if_false, false_implies, true_and]
    by_cases hon : OnMonthDay a.date b.date.minusDay
    · simp only [hon, iff_true, not_true_eq_false, imp_false] at *
      omega
    · simp only [hon, iff_false, not_false_eq_true, implies_true, and_true] at *
      omega
  · rw [if_neg hborrow] at hnumber
    have hendDate : a.endDate b = b.date := if_neg hborrow
    rw [hendDate] at hforward hbackward hnumber
    by_cases hdateKind : a.kind = .DATE
    · obtain ⟨hclock, hclock'⟩ := hdate hdateKind
      simp only [hdateKind, ne_eq, not_true_eq_false, if_true, false_implies, implies_true, and_true]
      by_cases hon : OnMonthDay a.date b.date
      · simp only [hon, iff_true, not_true_eq_false, and_false, imp_false] at *
        omega
      · simp only [hon, iff_false, not_false_eq_true, and_true] at *
        omega
    · have hopposed : ¬b.clockNanos - a.clockNanos < 0 := fun h => hborrow ⟨hdateKind, by omega⟩
      simp only [hopposed, false_implies, and_true]
      by_cases hon : OnMonthDay a.date b.date
      · simp only [hon, iff_true, not_true_eq_false, and_false, imp_false] at *
        omega
      · simp only [hon, iff_false, not_false_eq_true, and_true] at *
        omega

/-- A month and an hour back. -/
theorem sameSign_april : SameSign (.mk 2024 0 0 4 30 9 0 0 .LOCAL_DATETIME none)
    (.mk 2024 0 0 3 30 8 0 0 .LOCAL_DATETIME none) := by
  refine (sameSign_iff ?_ ?_ ?_).mpr ?_
  · exact ⟨by decide, by decide, by decide⟩
  · exact ⟨by decide, by decide, by decide⟩
  · rfl
  · decide

/-- From 2024-03-31T09:00 to 2024-02-29T10:00 it is a month back and an hour on. -/
theorem march_to_february : ¬SameSign ⟨2024, 0, 0, 3, 31, 9, 0, 0, .LOCAL_DATETIME, none⟩
    ⟨2024, 0, 0, 2, 29, 10, 0, 0, .LOCAL_DATETIME, none⟩ := by
  rintro ⟨d, hd, -, hback⟩
  have hbetween : durationBetween ⟨2024, 0, 0, 3, 31, 9, 0, 0, .LOCAL_DATETIME, none⟩
      ⟨2024, 0, 0, 2, 29, 10, 0, 0, .LOCAL_DATETIME, none⟩ = .ok ⟨-1, 0, 3600, 0⟩ := by rfl
  rw [hbetween, Except.ok.injEq] at hd
  have htime := (hback (by decide)).2.2
  rw [← hd] at htime
  exact absurd htime (by decide)

/-! ### Adding back -/

/-- A value that denotes the point of another one: a date the same day, the others the same instant
or local time. -/
def SamePoint (r b : DateTimeValue) : Prop :=
  r.Valid ∧ if b.kind = .DATE then r.date = b.date else r.temporalToComparable = b.temporalToComparable

/-- What the time of day that a date can carry asks of the days of the month. -/
def DatesAgree (a b : DateTimeValue) : Prop :=
  (a.date.dayNumber ≤ b.date.dayNumber → b.time.toNanos < a.time.toNanos → b.date.day = a.date.day) ∧
    (b.date.dayNumber ≤ a.date.dayNumber → a.time.toNanos < b.time.toNanos → OnMonthDay a.date b.date)

lemma samePoint_iff {a b r : DateTimeValue} {d : DurationValue} (ha : a.Valid) (hb : b.Valid)
    (hkind : a.kind = b.kind) (hd : durationBetween a b = .ok d) (hr : a.addDuration d = .ok r) :
    SamePoint r b ↔ (a.kind = .DATE → DatesAgree a b) := by
  obtain ⟨d', hd', hmonths, hparts⟩ := durationBetween_eq ha hb hkind
  obtain rfl : d' = d := Except.ok.inj (hd'.symm.trans hd)
  have hscreen : ¬Screened d' := by
    intro hscreened
    rw [addDuration, if_pos hscreened] at hr
    cases hr
  have hlands := addDuration_lands ha d' fun _ => hscreen
  have hyear : YearInRange (civilFromDays (a.landed d').1).year := by
    by_contra hyear
    rw [Lands, if_neg hyear] at hlands
    obtain ⟨e, he⟩ := hlands
    rw [hr] at he
    cases he
  rw [Lands, if_pos hyear] at hlands
  obtain ⟨r', hr', hvalid, hdate, ⟨hrkind, hzone, -⟩, htime⟩ := hlands
  obtain rfl : r' = r := Except.ok.inj (hr'.symm.trans hr)
  obtain ⟨hcivil, hnumber⟩ := daysFromCivil_civilFromDays (a.landed d').1
  rw [← hdate] at hcivil hnumber
  rw [SamePoint, and_iff_right hvalid, ← hkind]
  have hfold := foldSigns_spec
    (b.date.dayNumber - (monthsLater a.date (wholeMonths a.date (a.endDate b))).dayNumber)
      (b.clockNanos - a.clockNanos)
  rw [← hparts] at hfold
  by_cases hdateKind : a.kind = .DATE
  · have hclock : ∀ v : DateTimeValue, v.kind = .DATE → v.clockNanos = v.time.toNanos := by
      intro v hv
      rw [clockNanos, timeOfDayNanos, hv]
      rfl
    have hday := toNanos_bounds ha.time
    have hday' := toNanos_bounds hb.time
    have hendDate : a.endDate b = b.date := if_neg fun h => h.1 hdateKind
    rw [hendDate] at hmonths hfold
    obtain ⟨hforward, hbackward, -⟩ := wholeMonths_spec ha.date hb.date
    obtain ⟨hsum, ⟨hlow, hhigh⟩, hpos, hneg⟩ := truncated_spec d'.timeNanos (b := NANOS_PER_DAY) (by decide)
    rw [hclock a hdateKind, hclock b (hkind ▸ hdateKind)] at hfold
    rw [landed, if_pos hdateKind] at hnumber
    have hsame : r'.date = b.date ↔ r'.date.dayNumber = b.date.dayNumber :=
      ⟨congrArg dayNumber, dayNumber_injective hcivil hb.date⟩
    have hnumber : r'.date.dayNumber = (monthsLater a.date (wholeMonths a.date b.date)).dayNumber +
        d'.days.toInt + d'.timeNanos.tdiv NANOS_PER_DAY := by
      rw [← hmonths]
      exact hnumber
    simp only [hdateKind, if_true, true_implies, hsame, DatesAgree]
    simp only [NANOS_PER_DAY] at *
    by_cases hon : OnMonthDay a.date b.date
    · simp only [hon, iff_true, implies_true, and_true] at *
      omega
    · simp only [hon, iff_false, imp_false] at *
      omega
  · have hshift : r'.clockNanos = a.clockNanos + (r'.time.toNanos - a.time.toNanos) := by
      rw [clockNanos, clockNanos, timeOfDayNanos, timeOfDayNanos, hrkind, hzone]
      split <;> omega
    rw [if_neg hdateKind, temporalToComparable_eq, temporalToComparable_eq, hshift, htime hdateKind]
    rw [landed, if_neg hdateKind] at hnumber ⊢
    have hnumber : r'.date.dayNumber = (monthsLater a.date d'.months.toInt).dayNumber + d'.days.toInt +
        (a.time.toNanos + d'.timeNanos) / NANOS_PER_DAY := hnumber
    have hrest : (a.landing d').2.toNanos = (a.time.toNanos + d'.timeNanos) % NANOS_PER_DAY :=
      toNanos_ofNanos (Int.emod_nonneg _ (by decide))
    rw [hmonths] at hnumber
    rw [hrest, iff_true_right fun h => absurd h hdateKind]
    simp only [NANOS_PER_DAY] at *
    omega

end DateTimeValue

/-- The hour is borrowed below the first of the day in the last hour of an earlier day. -/
theorem beforeMidnight_iff {t : TimeOfDay} (h : t.Started) :
    t.BeforeMidnight ↔ t.toNanos / NANOS_PER_SEC < 0 ∧ 82800 < t.toNanos / NANOS_PER_SEC % 86400 := by
  obtain ⟨⟨hhour₀, hhour₁⟩, -, ⟨hnanos₀, hnanos₁⟩⟩ := h
  have hseconds : t.toNanos / NANOS_PER_SEC = t.hour * 3600 + t.past := by
    rw [toNanos, past]
    simp only [NANOS_PER_SEC] at *
    omega
  rw [hseconds, BeforeMidnight]
  generalize t.past = past at *
  omega

namespace TimeValue

lemma durationBetween_eq {a b : TimeValue} (ha : a.time.Valid) (hb : b.time.Valid) (hkind : a.kind = b.kind) :
    (-2 ^ 62 - 2 ^ 61 < b.temporalToComparable - a.temporalToComparable ∧
        b.temporalToComparable - a.temporalToComparable < 2 ^ 62 + 2 ^ 61) ∧
      ∃ d, durationBetween a b = .ok d ∧ d.timeNanos = b.temporalToComparable - a.temporalToComparable := by
  have hbound : ∀ v : TimeValue, v.time.Valid → -2 ^ 31 * 1000000000 ≤ v.temporalToComparable ∧
        v.temporalToComparable < 86400000000000 + 2 ^ 31 * 1000000000 := by
    intro v hv
    obtain ⟨h₀, h₁⟩ := toNanos_bounds hv
    have hlow := v.tz_offset_sec.le_toInt
    have hhigh := v.tz_offset_sec.toInt_lt
    rw [NANOS_PER_DAY] at h₁
    rw [temporalToComparable, NANOS_PER_SEC]
    split <;> omega
  have hboundA := hbound a ha
  have hboundB := hbound b hb
  have hdiff : -2 ^ 62 - 2 ^ 61 < b.temporalToComparable - a.temporalToComparable ∧
      b.temporalToComparable - a.temporalToComparable < 2 ^ 62 + 2 ^ 61 := ⟨by omega, by omega⟩
  obtain ⟨d, hd, -, -, htime⟩ := normalized_ofNanos 0 0 (n := b.temporalToComparable - a.temporalToComparable)
    ⟨by omega, by omega⟩
  refine ⟨hdiff, d, ?_, htime⟩
  rw [durationBetween, subtractTimes, if_neg (not_not.mpr hkind.symm)]
  exact hd

/-- A time of day that is the same instant or local time on some day. -/
def SamePoint (r b : TimeValue) : Prop :=
  r.time.Valid ∧ (r.temporalToComparable - b.temporalToComparable) % NANOS_PER_DAY = 0

/-- The end on the clock of the start, in seconds, is not in the last hour of an earlier day. -/
def ClockAgrees (a b : TimeValue) : Prop :=
  let seconds := (a.time.toNanos + (b.temporalToComparable - a.temporalToComparable)) / NANOS_PER_SEC
  ¬(seconds < 0 ∧ 82800 < seconds % 86400)

lemma samePoint_iff {a b r : TimeValue} {d : DurationValue} (ha : a.time.Valid) (hb : b.time.Valid)
    (hkind : a.kind = b.kind) (hd : durationBetween a b = .ok d) (hr : a.addDuration d = some r) :
    SamePoint r b ↔ ClockAgrees a b := by
  obtain ⟨⟨hlow, hhigh⟩, d', hd', htime⟩ := durationBetween_eq ha hb hkind
  obtain rfl : d' = d := Except.ok.inj (hd'.symm.trans hd)
  have hrest : 0 ≤ d'.timeNanos % NANOS_PER_SEC := Int.emod_nonneg _ (by decide)
  have hwhole : InRange (d'.timeNanos / NANOS_PER_SEC) := by
    rw [htime, NANOS_PER_SEC]
    exact ⟨by omega, by omega⟩
  have hstarted := added_started ha (d'.timeNanos / NANOS_PER_SEC) (d'.timeNanos % NANOS_PER_SEC)
  have hsum : (a.time.added (d'.timeNanos / NANOS_PER_SEC) (d'.timeNanos % NANOS_PER_SEC)).toNanos =
      a.time.toNanos + d'.timeNanos := by
    rw [added_toNanos, Int.mul_comm, Int.mul_ediv_add_emod]
  rw [addDuration_eq a d' hrest ha (splitNanos_eq hwhole)] at hr
  rw [ClockAgrees, ← htime, ← hsum, ← beforeMidnight_iff hstarted]
  generalize a.time.added (d'.timeNanos / NANOS_PER_SEC) (d'.timeNanos % NANOS_PER_SEC) = t at *
  obtain rfl : a.withTime t.onClock = r := by
    split at hr
    · exact Option.some.inj hr
    · cases hr
  by_cases hbefore : t.BeforeMidnight
  · refine iff_of_false ?_ (not_not.mpr hbefore)
    rintro ⟨⟨⟨hhour, -⟩, -⟩, -⟩
    rw [TimeValue.time, withTime, onClock_of_beforeMidnight hstarted hbefore] at hhour
    have hhour : 0 ≤ (Int8.ofInt (-1)).toInt := hhour
    exact absurd hhour (by decide)
  · obtain ⟨hvalid, hnanos⟩ := onClock_spec hstarted hbefore
    refine iff_of_true ⟨?_, ?_⟩ hbefore
    · rw [withTime_time hvalid]
      exact hvalid
    · have hshift : (a.withTime t.onClock).temporalToComparable =
          a.temporalToComparable + ((a.withTime t.onClock).time.toNanos - a.time.toNanos) := by
        have hsame : (a.withTime t.onClock).kind = a.kind ∧
            (a.withTime t.onClock).tz_offset_sec = a.tz_offset_sec := ⟨rfl, rfl⟩
        rw [temporalToComparable, temporalToComparable, hsame.1, hsame.2]
        split <;> omega
      rw [hshift, withTime_time hvalid, hnanos, hsum, NANOS_PER_DAY]
      omega

end TimeValue

/-- The sum of a value and the duration from it to another one is the point of that one exactly
where the clocks agree. -/
theorem addDuration_durationBetween_iff (d : DurationValue) :
    (∀ a b r : DateTimeValue, a.Valid → b.Valid → a.kind = b.kind →
        a.durationBetween b = .ok d → a.addDuration d = .ok r →
          (r.SamePoint b ↔ (a.kind = .DATE → a.DatesAgree b))) ∧
      ∀ a b r : TimeValue, a.time.Valid → b.time.Valid → a.kind = b.kind →
        a.durationBetween b = .ok d → a.addDuration d = some r → (r.SamePoint b ↔ a.ClockAgrees b) :=
  ⟨fun _ _ _ => DateTimeValue.samePoint_iff, fun _ _ _ => TimeValue.samePoint_iff⟩

/-- From the end of January to March, and over an hour of the day. -/
theorem addDuration_durationBetween_march : (DateTimeValue.mk 2024 0 0 3 1 9 0 0 .LOCAL_DATETIME none).SamePoint
        (DateTimeValue.mk 2024 0 0 3 1 9 0 0 .LOCAL_DATETIME none) ∧
      (TimeValue.mk 0 3600 12 0 0 .TIME none).SamePoint (TimeValue.mk 0 0 11 0 0 .TIME none) := by
  constructor
  · have hagree := (addDuration_durationBetween_iff ⟨0, 29, 82800, 0⟩).1
      (.mk 2024 0 0 1 31 10 0 0 .LOCAL_DATETIME none)
      (.mk 2024 0 0 3 1 9 0 0 .LOCAL_DATETIME none) (.mk 2024 0 0 3 1 9 0 0 .LOCAL_DATETIME none)
      ⟨by decide, by decide, by decide⟩ ⟨by decide, by decide, by decide⟩ rfl (by rfl) (by rfl)
    exact hagree.mpr fun h => absurd h (by decide)
  · have hagree := (addDuration_durationBetween_iff ⟨0, 0, 7200, 0⟩).2 (.mk 0 3600 10 0 0 .TIME none)
      (.mk 0 0 11 0 0 .TIME none) (.mk 0 3600 12 0 0 .TIME none) (by decide) (by decide) rfl (by rfl) (by rfl)
    exact hagree.mpr (by rw [TimeValue.ClockAgrees]; decide)

/-- A date made from 2024-01-01T23:00 does not reach 2024-01-02, and midnight UTC goes to hour `-1`
for half an hour before. -/
theorem addDuration_misses : (∃ d r, (DateTimeValue.mk 2024 0 0 1 1 23 0 0 .DATE none).durationBetween
            (DateTimeValue.mk 2024 0 0 1 2 0 0 0 .DATE none) = .ok d ∧
          (DateTimeValue.mk 2024 0 0 1 1 23 0 0 .DATE none).addDuration d = .ok r ∧
          ¬r.SamePoint (DateTimeValue.mk 2024 0 0 1 2 0 0 0 .DATE none)) ∧
      ∃ d r, (TimeValue.mk 0 0 0 0 0 .TIME none).durationBetween (TimeValue.mk 0 1800 0 0 0 .TIME none) = .ok d ∧
        (TimeValue.mk 0 0 0 0 0 .TIME none).addDuration d = some r ∧
        ¬r.SamePoint (TimeValue.mk 0 1800 0 0 0 .TIME none) := by
  constructor
  · refine ⟨⟨0, 0, 3600, 0⟩, DateTimeValue.mk 2024 0 0 1 1 23 0 0 .DATE none, rfl, rfl, ?_⟩
    rintro ⟨-, hdate⟩
    exact absurd hdate (by decide)
  · refine ⟨⟨0, 0, -1800, 0⟩, TimeValue.mk 0 0 (-1) 30 0 .TIME none, rfl, rfl, ?_⟩
    rintro ⟨hvalid, -⟩
    exact absurd hvalid (by decide)

end Eugraph
