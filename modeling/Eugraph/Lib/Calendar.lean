import Mathlib.Tactic.Common

/-!
# The calendar cycle of 400 years

The proleptic Gregorian calendar repeats after 400 years of 146097 days.  A year is
counted from March here, so that the leap day is the last day of its year and the months
before it have a fixed pattern.  `InCycle` places a day of the cycle in its year; the two
closed formulas that conversion code uses for the year and the month find that place.
-/

namespace Eugraph.Lib.Calendar

/-- The first day of a year of the cycle. -/
def yearStart (year : Int) : Int := 365 * year + year / 4 - year / 100

/-- The first day of a month of the year; March is month `0`. -/
def monthStart (month : Int) : Int := (153 * month + 2) / 5

/-- Day `day` of the cycle is day `dayOfYear` of its year `year`; only the last day of a
leap year is day `365`. -/
structure InCycle (day year dayOfYear : Int) : Prop where
  year_nonneg : 0 ≤ year
  year_lt : year < 400
  dayOfYear_nonneg : 0 ≤ dayOfYear
  dayOfYear_le : dayOfYear ≤ 365
  leap : dayOfYear = 365 → year % 4 = 3 ∧ (year % 100 ≠ 99 ∨ year = 399)
  day_eq : day = yearStart year + dayOfYear

variable {dayOfYear : Int} {day : Int} {year : Int}

/-- A year by its century, its four-year group and its place in the group. -/
theorem InCycle.split (h : InCycle day year dayOfYear) :
    ∃ c q r : Int, (0 ≤ c ∧ c ≤ 3) ∧ (0 ≤ q ∧ q ≤ 24) ∧ (0 ≤ r ∧ r ≤ 3) ∧
      year = 100 * c + 4 * q + r ∧ (dayOfYear = 365 → r = 3 ∧ (q ≠ 24 ∨ c = 3)) ∧
      day = 36524 * c + 1461 * q + 365 * r + dayOfYear := by
  obtain ⟨h₀, h₁, -, -, hleap, hday⟩ := h
  rw [yearStart] at hday
  refine ⟨year / 100, year % 100 / 4, year % 4, ?_, ?_, ?_, ?_, ?_, ?_⟩ <;> omega

/-- The closed formula for the year. -/
theorem InCycle.year_eq (h : InCycle day year dayOfYear) :
    (day - day / 1460 + day / 36524 - day / 146096) / 365 = year := by
  obtain ⟨c, q, r, hc, hq, hr, rfl, hleap, hday⟩ := h.split
  have h₀ := h.dayOfYear_nonneg
  have h₁ := h.dayOfYear_le
  -- the last day of the cycle is the only one where the two long quotients differ from `c`
  have hcycle : day / 146096 = if c = 3 ∧ dayOfYear = 365 ∧ q = 24 then 1 else 0 := by
    split <;> omega
  have hcentury : day / 36524 = c + if c = 3 ∧ dayOfYear = 365 ∧ q = 24 then 1 else 0 := by
    split <;> omega
  have hfour : 25 * c + q ≤ day / 1460 ∧ day / 1460 ≤ 25 * c + q + 1 ∧
      (dayOfYear = 365 → 25 * c + q + 1 ≤ day / 1460) ∧
      (dayOfYear = 0 → day / 1460 = 25 * c + q) := by
    refine ⟨?_, ?_, ?_, ?_⟩ <;> omega
  rw [hcycle, hcentury]
  omega

/-- Every day of the cycle has its place. -/
theorem exists_inCycle (h₀ : 0 ≤ day) (h₁ : day < 146097) :
    ∃ year dayOfYear, InCycle day year dayOfYear := by
  obtain ⟨c, hc⟩ : ∃ c, c = min (day / 36524) 3 := ⟨_, rfl⟩
  obtain ⟨q, hq⟩ : ∃ q, q = (day - 36524 * c) / 1461 := ⟨_, rfl⟩
  obtain ⟨r, hr⟩ : ∃ r, r = min ((day - 36524 * c - 1461 * q) / 365) 3 := ⟨_, rfl⟩
  have hc' : 0 ≤ c ∧ c ≤ 3 := by omega
  have hq' : 0 ≤ q ∧ q ≤ 24 := by omega
  have hr' : 0 ≤ r ∧ r ≤ 3 := by omega
  refine ⟨100 * c + 4 * q + r, day - 36524 * c - 1461 * q - 365 * r, ?_, ?_, ?_, ?_, ?_, ?_⟩
  · omega
  · omega
  · omega
  · omega
  · omega
  · rw [yearStart]
    omega

lemma InCycle.day_nonneg (h : InCycle day year dayOfYear) : 0 ≤ day ∧ day < 146097 := by
  obtain ⟨c, q, r, hc, hq, hr, -, hleap, hday⟩ := h.split
  have h₀ := h.dayOfYear_nonneg
  have h₁ := h.dayOfYear_le
  omega

/-- A day of an earlier year is earlier. -/
theorem InCycle.lt_of_year {day' year' dayOfYear' : Int} (h : InCycle day year dayOfYear)
    (h' : InCycle day' year' dayOfYear') (hyear : year < year') : day < day' := by
  obtain ⟨c, q, r, hc, hq, hr, rfl, hleap, hday⟩ := h.split
  obtain ⟨c', q', r', hc', hq', hr', rfl, -, hday'⟩ := h'.split
  have hlast := h.dayOfYear_le
  have hfirst := h'.dayOfYear_nonneg
  rcases (by omega : c < c' ∨ c = c' ∧ (q < q' ∨ q = q' ∧ r < r')) with hcentury | ⟨rfl, hgroup | ⟨rfl, hless⟩⟩
  · have hend : 1461 * q + 365 * r + dayOfYear ≤ 36523 := by
      by_cases hq₂ : q = 24
      · omega
      · omega
    omega
  · have hend : 365 * r + dayOfYear ≤ 1460 := by omega
    omega
  · omega

/-- The closed formula for the month: the days from a month's first up to the next one's. -/
theorem month_eq {month : Int} (hstart : monthStart month ≤ dayOfYear)
    (hnext : dayOfYear < monthStart (month + 1)) : (5 * dayOfYear + 2) / 153 = month := by
  rw [monthStart] at hstart hnext
  omega

/-- Every day of a year lies in one of its twelve months. -/
theorem exists_month (h₀ : 0 ≤ dayOfYear) (h₁ : dayOfYear ≤ 365) :
    ∃ month, 0 ≤ month ∧ month ≤ 11 ∧ monthStart month ≤ dayOfYear ∧ dayOfYear < monthStart (month + 1) := by
  refine ⟨(5 * dayOfYear + 2) / 153, ?_, ?_, ?_, ?_⟩
  · omega
  · omega
  · rw [monthStart]
    omega
  · rw [monthStart]
    omega

end Eugraph.Lib.Calendar
