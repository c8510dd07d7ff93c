import Eugraph.DurationBetween

/-!
# Day numbers and instants

The conversions between civil dates and day numbers, and between instants and their fields
(`common/types/temporal_value.cpp`).  Both number lines have no gaps and are ordered as the
fields are.
-/

namespace Eugraph

open Int List Lib

/-! ### Day numbers -/

namespace CivilDate

/-- The day after a date. -/
def next (date : CivilDate) : CivilDate :=
  if date.day < daysInMonth date.year date.month then { date with day := date.day + 1 }
  else if date.month < 12 then ⟨date.year, date.month + 1, 1⟩
  else ⟨date.year + 1, 1, 1⟩

def fields (date : CivilDate) : List Int := [date.year, date.month, date.day]

lemma fields_lt_iff {a b : CivilDate} (ha : a.Valid) (hb : b.Valid) :
    a.fields < b.fields ↔ a.dayNumber < b.dayNumber := by
  rw [dayNumber_lt_iff ha hb]
  obtain ⟨ha₀, ha₁, -, -⟩ := ha
  obtain ⟨hb₀, hb₁, -, -⟩ := hb
  simp only [fields, monthNumber, absoluteMonths, cons_lt_cons_iff, lt_irrefl, and_false, or_false]
  omega

lemma next_minusDay {date : CivilDate} (h : date.Valid) : date.minusDay.next = date := by
  obtain ⟨hm₀, hm₁, hd₀, hd₁⟩ := h
  obtain ⟨y, m, d⟩ := date
  dsimp only at hm₀ hm₁ hd₀ hd₁
  by_cases hfirst : d - 1 < 1
  · have hday : d = 1 := by omega
    by_cases hjanuary : m - 1 < 1
    · have hmonth : m = 1 := by omega
      simp [minusDay, next, hday, hmonth]
    · have hbelow : m - 1 < 12 := by omega
      simp [minusDay, next, hday, hjanuary, hbelow]
  · have hless : d - 1 < daysInMonth y m := by omega
    simp [minusDay, next, hfirst, hless]

end CivilDate

/-- Consecutive days have consecutive dates. -/
theorem civilFromDays_succ (days : Int) : civilFromDays (days + 1) = (civilFromDays days).next := by
  obtain ⟨hvalid, hnumber⟩ := daysFromCivil_civilFromDays days
  obtain ⟨hvalid', hnumber'⟩ := daysFromCivil_civilFromDays (days + 1)
  obtain ⟨hback, hbackNumber⟩ := CivilDate.minusDay_spec hvalid'
  have hsame : (civilFromDays (days + 1)).minusDay = civilFromDays days := by
    apply CivilDate.dayNumber_injective hback hvalid
    rw [hbackNumber, CivilDate.dayNumber, CivilDate.dayNumber, hnumber, hnumber']
    omega
  rw [← hsame, CivilDate.next_minusDay hvalid']

/-- The month is carried into the year, and the days count on from its first. -/
theorem normalizeDate_spec (date : CivilDate) :
    normalizeDate date = civilFromDays
      (daysFromCivil (date.year + (date.month - 1) / 12) ((date.month - 1) % 12 + 1) 1 + (date.day - 1)) := by
  have hcarry : (if date.month < 1 ∨ 12 < date.month then
        (date.year + (date.month - 1) / 12, date.month - 1 - (date.month - 1) / 12 * 12 + 1)
      else (date.year, date.month)) = (date.year + (date.month - 1) / 12, (date.month - 1) % 12 + 1) := by
    split
    · ext <;> dsimp only
      omega
    · ext <;> dsimp only <;> omega
  simp only [normalizeDate, yearOfMonths_eq, hcarry]

/-- Dates and day numbers determine each other, in order and without gaps. -/
theorem civilCalendar_exact :
    (∀ days, (civilFromDays days).Valid ∧ (civilFromDays days).dayNumber = days) ∧
    (∀ date : CivilDate, date.Valid → civilFromDays date.dayNumber = date) ∧
    (∀ a b : CivilDate, a.Valid → b.Valid → (a.dayNumber < b.dayNumber ↔ a.fields < b.fields)) ∧
    (∀ days, civilFromDays (days + 1) = (civilFromDays days).next) ∧
    ∀ date : CivilDate, (normalizeDate date).Valid ∧ (normalizeDate date).dayNumber =
      daysFromCivil (date.year + (date.month - 1) / 12) ((date.month - 1) % 12 + 1) 1 + (date.day - 1) := by
  refine ⟨daysFromCivil_civilFromDays, fun _ => civilFromDays_daysFromCivil,
    fun _ _ ha hb => (CivilDate.fields_lt_iff ha hb).symm, civilFromDays_succ, ?_⟩
  intro date
  rw [normalizeDate_spec]
  exact daysFromCivil_civilFromDays _

/-! ### Instants -/

namespace TimeOfDay

def fields (t : TimeOfDay) : List Int := [t.hour, t.minute, t.second, t.nanos]

lemma fields_lt_iff {a b : TimeOfDay} (ha : a.Valid) (hb : b.Valid) :
    a.fields < b.fields ↔ a.toNanos < b.toNanos := by
  obtain ⟨ha₀, ha₁, ha₂, ha₃⟩ := ha
  obtain ⟨hb₀, hb₁, hb₂, hb₃⟩ := hb
  simp only [fields, toNanos, NANOS_PER_SEC, cons_lt_cons_iff, lt_irrefl, and_false, or_false] at *
  omega

end TimeOfDay

/-- The civil date of an instant in UTC. -/
def utcDate (totalNanos : Int) : CivilDate := civilFromDays (totalNanos / NANOS_PER_DAY)

/-- A value in UTC with all its fields in their ranges. -/
structure DateTimeValue.NormalizedUtc (tv : DateTimeValue) : Prop where
  valid : tv.Valid
  kind : tv.kind = .DATETIME
  offset : tv.tz_offset_sec = 0
  zone : tv.tz_name = none

/-- The conversion fails exactly on the instants outside the years, and is exact on all others. -/
theorem datetimeFromEpoch_spec (seconds nanos : Int) :
    if YearInRange (utcDate (seconds * NANOS_PER_SEC + nanos)).year then
      ∃ tv, datetimeFromEpoch seconds nanos = .ok tv ∧ tv.NormalizedUtc ∧
        tv.temporalToComparable = seconds * NANOS_PER_SEC + nanos
    else datetimeFromEpoch seconds nanos = .error ⟨"datetime out of range"⟩ := by
  rw [datetimeFromEpoch_eq]
  generalize seconds * NANOS_PER_SEC + nanos = total
  split
  next hyear =>
    obtain ⟨hvalid, -⟩ := daysFromCivil_civilFromDays (total / NANOS_PER_DAY)
    have hrest : 0 ≤ total % NANOS_PER_DAY ∧ total % NANOS_PER_DAY < NANOS_PER_DAY := by
      rw [NANOS_PER_DAY]
      omega
    have htime := TimeOfDay.ofNanos_valid hrest.1 hrest.2
    have hlocal := localNanos_atNanos hyear
    refine ⟨atNanos total, if_pos hyear, ⟨⟨?_, ?_, ?_⟩, rfl, rfl, rfl⟩, ?_⟩
    · rw [date_atNanos hyear]
      exact hvalid
    · rw [date_atNanos hyear]
      exact hyear
    · rw [atNanos, ofCivil_time htime]
      exact htime
    · have hkind : (atNanos total).kind = .DATETIME := rfl
      have hoffset : (atNanos total).tz_offset_sec.toInt = 0 := rfl
      rw [DateTimeValue.temporalToComparable, if_pos hkind, hlocal, hoffset]
      omega
  next hyear => exact if_neg hyear

/-- An instant within the years is a number of seconds that fits its type, and a rest. -/
theorem exists_epoch {total : Int} (hyear : YearInRange (utcDate total).year) :
    ∃ seconds nanos : Int64, seconds.toInt * NANOS_PER_SEC + nanos.toInt = total := by
  obtain ⟨hvalid, hnumber⟩ := daysFromCivil_civilFromDays (total / NANOS_PER_DAY)
  obtain ⟨hlow, hhigh⟩ := daysFromCivil_bounds hvalid hyear
  rw [hnumber, NANOS_PER_DAY] at hlow hhigh
  refine ⟨.ofInt (total / 1000000000), .ofInt (total % 1000000000), ?_⟩
  rw [Int64.toInt_ofInt_of_le (by omega) (by omega), Int64.toInt_ofInt_of_le (by omega) (by omega), NANOS_PER_SEC]
  omega

namespace DateTimeValue

def fields (tv : DateTimeValue) : List Int := tv.date.fields ++ tv.time.fields

/-- Values without a zone are ordered by their fields. -/
theorem fields_lt_iff {a b : DateTimeValue} (ha : a.Valid) (hb : b.Valid) (hzone : a.kind ≠ .DATETIME)
    (hzone' : b.kind ≠ .DATETIME) : a.temporalToComparable < b.temporalToComparable ↔ a.fields < b.fields := by
  obtain ⟨ha₀, ha₁⟩ := TimeOfDay.toNanos_bounds ha.time
  obtain ⟨hb₀, hb₁⟩ := TimeOfDay.toNanos_bounds hb.time
  have hday : a.date.fields = b.date.fields ↔ a.date.dayNumber = b.date.dayNumber := by
    constructor
    · intro h
      simp only [CivilDate.fields, List.cons.injEq] at h
      rw [CivilDate.dayNumber, CivilDate.dayNumber, h.1, h.2.1, h.2.2.1]
    · intro h
      rw [CivilDate.dayNumber_injective ha.date hb.date h]
  have hlocal : ∀ tv : DateTimeValue, tv.kind ≠ .DATETIME →
      tv.temporalToComparable = tv.date.dayNumber * NANOS_PER_DAY + tv.time.toNanos := by
    intro tv h
    rw [temporalToComparable, if_neg h, localNanos, CivilDate.dayNumber]
  rw [fields, fields, append_lt_append_iff (by simp [CivilDate.fields]), hday,
    CivilDate.fields_lt_iff ha.date hb.date,
    TimeOfDay.fields_lt_iff ha.time hb.time, hlocal a hzone, hlocal b hzone']
  rw [NANOS_PER_DAY] at ha₁ hb₁ ⊢
  omega

end DateTimeValue

/-- The epoch conversion and the comparison key are exact. -/
theorem epochConversion_exact :
    (∀ seconds nanos : Int64,
      if YearInRange (utcDate (seconds.toInt * NANOS_PER_SEC + nanos.toInt)).year then
        ∃ tv, datetimeFromEpoch seconds.toInt nanos.toInt = .ok tv ∧ tv.NormalizedUtc ∧
          tv.temporalToComparable = seconds.toInt * NANOS_PER_SEC + nanos.toInt
      else datetimeFromEpoch seconds.toInt nanos.toInt = .error ⟨"datetime out of range"⟩) ∧
    (∀ tv : DateTimeValue, YearInRange (utcDate tv.temporalToComparable).year →
      (∃ seconds nanos : Int64, seconds.toInt * NANOS_PER_SEC + nanos.toInt = tv.temporalToComparable) ∧
      ∀ seconds nanos : Int64, seconds.toInt * NANOS_PER_SEC + nanos.toInt = tv.temporalToComparable →
        ∃ tv', datetimeFromEpoch seconds.toInt nanos.toInt = .ok tv' ∧
          tv'.temporalToComparable = tv.temporalToComparable) ∧
    (∀ a b : DateTimeValue, a.Valid → b.Valid → a.kind ≠ .DATETIME → b.kind ≠ .DATETIME →
      (a.temporalToComparable < b.temporalToComparable ↔ a.fields < b.fields)) ∧
    ∀ a b : TimeValue, a.time.Valid → b.time.Valid → a.kind ≠ .TIME → b.kind ≠ .TIME →
      (a.temporalToComparable < b.temporalToComparable ↔ a.time.fields < b.time.fields) := by
  refine ⟨fun seconds nanos => datetimeFromEpoch_spec _ _, ?_, fun _ _ => DateTimeValue.fields_lt_iff, ?_⟩
  · intro tv hyear
    refine ⟨exists_epoch hyear, ?_⟩
    intro seconds nanos hsplit
    have hspec := datetimeFromEpoch_spec seconds.toInt nanos.toInt
    rw [hsplit, if_pos hyear] at hspec
    obtain ⟨tv', hok, -, hsame⟩ := hspec
    exact ⟨tv', hok, hsame⟩
  · intro a b ha hb hzone hzone'
    rw [TimeOfDay.fields_lt_iff ha hb, TimeValue.temporalToComparable, TimeValue.temporalToComparable,
      if_neg hzone, if_neg hzone']

/-- The last hour of the years on a clock west of Greenwich. -/
def lastHourWest : DateTimeValue :=
  { ofCivil ⟨999999999, 12, 31⟩ ⟨23, 0, 0, 0⟩ with tz_offset_sec := -3600 }

/-- A clock with an offset still shows a year within the range when the instant has left it. -/
theorem lastHourWest_leaves_range : lastHourWest.Valid ∧
    datetimeFromEpoch (lastHourWest.temporalToComparable / NANOS_PER_SEC)
      (lastHourWest.temporalToComparable % NANOS_PER_SEC) = .error ⟨"datetime out of range"⟩ := by
  refine ⟨⟨?_, ?_, ?_⟩, ?_⟩
  · decide
  · decide
  · decide
  · rfl

end Eugraph
