import Mathlib.Algebra.Order.Ring.Abs
import Eugraph.TemporalValue
import Eugraph.Lib.SignedWord

/-!
# Times of day and durations

Adding a duration to a time of day, and the arithmetic of durations
(`common/types/temporal_value.cpp`).  Here the amounts come near the limits of the integers: a
computation in 64 or 128 bits has no result where it leaves them, and a cast to `int64_t` wraps.
-/

namespace Eugraph

open Lib.SignedWord Option Int TimeOfDay

/-! ### Carrying and borrowing -/

namespace TimeOfDay

/-- Seconds over 59 into minutes and minutes over 59 into hours, by truncated division. -/
def carried (t : TimeOfDay) : TimeOfDay :=
  let minute := t.minute + t.second.tdiv 60
  { hour := t.hour + minute.tdiv 60
    minute := minute.tmod 60
    second := t.second.tmod 60
    nanos := t.nanos }

/-- What is below zero borrows from the next larger field; the hour may be left below zero. -/
def borrowed (t : TimeOfDay) : TimeOfDay :=
  let (nanos, second) := if t.nanos < 0 then (t.nanos + NANOS_PER_SEC, t.second - 1) else (t.nanos, t.second)
  let bm := if second < 0 then (-second + 59).tdiv 60 else 0
  let minute := t.minute - bm
  let bh := if minute < 0 then (-minute + 59).tdiv 60 else 0
  { hour := t.hour - bh
    minute := minute + bh * 60
    second := second + bm * 60
    nanos := nanos }

/-- Within the hour everything is in order. -/
def WithinHour (t : TimeOfDay) : Prop :=
  (0 ≤ t.minute ∧ t.minute < 60) ∧ (0 ≤ t.second ∧ t.second < 60) ∧ (0 ≤ t.nanos ∧ t.nanos < NANOS_PER_SEC)

end TimeOfDay

/-- The time part as seconds and nanoseconds that are not negative. -/
def splitNanos (total_nanos : Int) : Option (Int × Int) :=
  let add_seconds := (Int64.ofInt (total_nanos.tdiv NANOS_PER_SEC)).toInt
  let add_nanos := total_nanos.tmod NANOS_PER_SEC
  if add_nanos < 0 then (int64 (add_seconds - 1)).map fun seconds => (seconds, add_nanos + NANOS_PER_SEC)
  else some (add_seconds, add_nanos)

namespace TimeValue

def withTime (tv : TimeValue) (time : TimeOfDay) : TimeValue :=
  { tv with
    hour := .ofInt time.hour, minute := .ofInt time.minute, second := .ofInt time.second,
    nanos := .ofInt time.nanos }

def addDuration (temporal : TimeValue) (duration : DurationValue) : Option TimeValue := do
  let (add_seconds, add_nanos) ← splitNanos duration.timeNanos
  let nanos := temporal.nanos.toInt + add_nanos
  let second ← int64 (temporal.second.toInt + add_seconds)
  let second ← int64 (second + nanos.tdiv NANOS_PER_SEC)
  let time : TimeOfDay := { temporal.time with second := second, nanos := nanos.tmod NANOS_PER_SEC }
  let hour := time.carried.hour.tmod 24
  let hour := if hour < 0 then hour + 24 else hour
  return temporal.withTime { time.carried with hour := hour }.borrowed

end TimeValue

/-- The opposite of each field. -/
def DurationValue.opposite (duration : DurationValue) : Option DurationValue := do
  let months ← int64 (-duration.months.toInt)
  let days ← int64 (-duration.days.toInt)
  let seconds ← int64 (-duration.seconds.toInt)
  let nanos ← int64 (-duration.nanos.toInt)
  return ⟨.ofInt months, .ofInt days, .ofInt seconds, .ofInt nanos⟩

def TimeValue.subDuration (temporal : TimeValue) (duration : DurationValue) : Option TimeValue :=
  duration.opposite.bind temporal.addDuration

/-! ### Durations -/

/-- No result stands for a computation that overflows. -/
abbrev DurationOutcome := Option (Except ArgumentError DurationValue)

/-- `checkedNarrow`, and what is computed from the narrowed value. -/
def checkedNarrow (value : Option Int) (what : String) (rest : Int → DurationOutcome) : DurationOutcome :=
  value.bind fun n => if FitsInt64 n then rest n else some (.error ⟨what ++ " out of range"⟩)

/-- The parts of a duration narrowed in their order; the time part comes in nanoseconds. -/
def ofParts (months days total : Option Int) : DurationOutcome :=
  checkedNarrow months "duration months" fun months =>
    checkedNarrow days "duration days" fun days =>
      total.bind fun total =>
        checkedNarrow (some (total.tdiv NANOS_PER_SEC)) "duration seconds" fun seconds =>
          some (normalizeDurationNanos
            ⟨.ofInt months, .ofInt days, .ofInt seconds, .ofInt (total.tmod NANOS_PER_SEC)⟩)

def addDurations (a b : DurationValue) : DurationOutcome :=
  ofParts (int128 (a.months.toInt + b.months.toInt)) (int128 (a.days.toInt + b.days.toInt)) <| do
    let x ← int128 a.timeNanos
    let y ← int128 b.timeNanos
    int128 (x + y)

def subDurations (a b : DurationValue) : DurationOutcome := b.opposite.bind (addDurations a)

def mulDuration (dur : DurationValue) (factor : Int64) : DurationOutcome :=
  ofParts (int128 (dur.months.toInt * factor.toInt)) (int128 (dur.days.toInt * factor.toInt)) <| do
    let x ← int128 dur.timeNanos
    int128 (x * factor.toInt)

/-! ### The clock -/

/-- Truncated quotient and rest by a positive divisor. -/
theorem truncated_spec (n : Int) {b : Int} (hb : 0 < b) :
    b * n.tdiv b + n.tmod b = n ∧ (-b < n.tmod b ∧ n.tmod b < b) ∧
      (0 ≤ n → 0 ≤ n.tmod b) ∧ (n ≤ 0 → n.tmod b ≤ 0) := by
  refine ⟨mul_tdiv_add_tmod n b, ⟨lt_tmod_of_pos n hb, tmod_lt_of_pos n hb⟩, tmod_nonneg b, ?_⟩
  intro hn
  have hflip := tmod_nonneg (a := -n) b (by omega)
  rw [neg_tmod] at hflip
  omega

namespace TimeOfDay

/-- What adding needs of a clock's fields: the seconds may be any number. -/
structure Started (t : TimeOfDay) : Prop where
  hour : 0 ≤ t.hour ∧ t.hour < 24
  minute : 0 ≤ t.minute ∧ t.minute < 60
  nanos : 0 ≤ t.nanos ∧ t.nanos < NANOS_PER_SEC

/-- Seconds since the full hour. -/
def past (t : TimeOfDay) : Int := t.minute * 60 + t.second

/-- The hour that is taken for seconds before the full hour. -/
def hourBorrow (past : Int) : Int := if past < 0 ∧ past % 3600 ≠ 0 then 1 else 0

lemma borrowed_eq {hour minute second nanos : Int} (h : 0 ≤ nanos) :
    (⟨hour, minute, second, nanos⟩ : TimeOfDay).borrowed =
      let bm := if second < 0 then (-second + 59).tdiv 60 else 0
      let bh := if minute - bm < 0 then (-(minute - bm) + 59).tdiv 60 else 0
      ⟨hour - bh, minute - bm + bh * 60, second + bm * 60, nanos⟩ := by
  rw [borrowed, if_neg (not_lt.mpr h)]

/-- A sum before the full hour that does not fall on one takes an hour. -/
theorem borrowed_carried {t : TimeOfDay} (h : t.Started) (hour : Int) :
    let u := { t.carried with hour := hour }.borrowed
    u.WithinHour ∧ u.minute * 60 + u.second = t.past % 3600 ∧ u.nanos = t.nanos ∧
      t.carried.hour = t.hour + t.past / 3600 + hourBorrow t.past ∧
      u.hour = hour - hourBorrow t.past := by
  obtain ⟨-, ⟨hm₀, hm₁⟩, ⟨hn₀, hn₁⟩⟩ := h
  obtain ⟨hs, ⟨hs₀, hs₁⟩, hsPos, hsNeg⟩ := truncated_spec t.second (b := 60) (by decide)
  obtain ⟨hmin, ⟨hmin₀, hmin₁⟩, hminPos, hminNeg⟩ :=
    truncated_spec (t.minute + t.second.tdiv 60) (b := 60) (by decide)
  dsimp only [carried]
  rw [borrowed_eq hn₀]
  simp only [WithinHour, past]
  generalize t.second.tdiv 60 = a at *
  generalize t.second.tmod 60 = s at *
  generalize (t.minute + a).tdiv 60 = b at *
  generalize (t.minute + a).tmod 60 = m at *
  -- whether a second, and then a minute, is below zero
  have hborrow : ∀ {x : Int}, -60 ≤ x → x < 0 → (-x + 59).tdiv 60 = 1 := by
    intro x hx₀ hx₁
    rw [tdiv_eq_ediv_of_nonneg (by omega)]
    omega
  by_cases hbs : s < 0
  · rw [if_pos hbs, hborrow (by omega) hbs]
    by_cases hbm : m - 1 < 0
    · rw [if_pos hbm, hborrow (by omega) hbm, hourBorrow, if_pos (by omega)]
      refine ⟨⟨?_, ?_, hn₀, hn₁⟩, ?_, trivial, ?_, rfl⟩ <;> omega
    · rw [if_neg hbm, hourBorrow, if_neg (by omega)]
      refine ⟨⟨?_, ?_, hn₀, hn₁⟩, ?_, trivial, ?_, rfl⟩ <;> omega
  · rw [if_neg hbs]
    by_cases hbm : m - 0 < 0
    · rw [if_pos hbm, hborrow (by omega) hbm, hourBorrow, if_pos (by omega)]
      refine ⟨⟨?_, ?_, hn₀, hn₁⟩, ?_, trivial, ?_, rfl⟩ <;> omega
    · rw [if_neg hbm, hourBorrow, if_neg (by omega)]
      refine ⟨⟨?_, ?_, hn₀, hn₁⟩, ?_, trivial, ?_, rfl⟩ <;> omega

/-- The fields with whole seconds and nanoseconds added. -/
def added (t : TimeOfDay) (seconds nanos : Int) : TimeOfDay :=
  { t with
    second := t.second + seconds + (t.nanos + nanos) / NANOS_PER_SEC
    nanos := (t.nanos + nanos) % NANOS_PER_SEC }

/-- The clock as `addDuration` leaves it. -/
def onClock (t : TimeOfDay) : TimeOfDay := { t.carried with hour := t.carried.hour % 24 }.borrowed

/-- The hour taken is one below the first of the day. -/
def BeforeMidnight (t : TimeOfDay) : Prop :=
  t.past < 0 ∧ t.past % 3600 ≠ 0 ∧ (t.hour + t.past / 3600) % 24 = 23

instance (t : TimeOfDay) : Decidable t.BeforeMidnight := inferInstanceAs (Decidable (_ ∧ _))

lemma onClock_of_beforeMidnight {t : TimeOfDay} (h : t.Started) (hbefore : t.BeforeMidnight) :
    t.onClock.hour = -1 := by
  obtain ⟨-, -, -, hcarried, hhour⟩ := borrowed_carried h (t.carried.hour % 24)
  obtain ⟨hpast, hrest, hlast⟩ := hbefore
  rw [hcarried, hourBorrow, if_pos ⟨hpast, hrest⟩] at hhour
  rw [onClock, hcarried, hourBorrow, if_pos ⟨hpast, hrest⟩, hhour]
  omega

lemma onClock_spec {t : TimeOfDay} (h : t.Started) (hbefore : ¬t.BeforeMidnight) :
    t.onClock.Valid ∧ t.onClock.toNanos = t.toNanos % NANOS_PER_DAY := by
  obtain ⟨⟨hminute, hsecond, hnanos⟩, hpast, hrest, hcarried, hhour⟩ := borrowed_carried h (t.carried.hour % 24)
  rw [← onClock] at *
  have hwhole : t.onClock.hour = (t.hour + t.past / 3600) % 24 := by
    rw [hhour, hcarried, hourBorrow]
    rw [BeforeMidnight] at hbefore
    split
    next hborrow =>
      have hnot : (t.hour + t.past / 3600) % 24 ≠ 23 := fun hlast => hbefore ⟨hborrow.1, hborrow.2, hlast⟩
      omega
    next => omega
  refine ⟨⟨by omega, hminute, hsecond, hnanos⟩, ?_⟩
  have hall : t.toNanos = (t.hour * 3600 + t.past) * NANOS_PER_SEC + t.nanos := by
    rw [toNanos, past, ← Int.add_assoc]
  rw [hall, toNanos, hwhole, hrest]
  simp only [NANOS_PER_SEC, NANOS_PER_DAY] at *
  omega

lemma added_started {t : TimeOfDay} (h : t.Valid) (seconds nanos : Int) : (t.added seconds nanos).Started := by
  refine ⟨h.1, h.2.1, ?_⟩
  simp only [added, NANOS_PER_SEC]
  omega

lemma added_toNanos (t : TimeOfDay) (seconds nanos : Int) :
    (t.added seconds nanos).toNanos = t.toNanos + (seconds * NANOS_PER_SEC + nanos) := by
  simp only [toNanos, added, NANOS_PER_SEC]
  omega

end TimeOfDay

lemma nanos_bounds (d : DurationValue) :
    (-2 ^ 63 * NANOS_PER_SEC - 2 ^ 63 ≤ d.timeNanos ∧ d.timeNanos < 2 ^ 63 * NANOS_PER_SEC + 2 ^ 63) := by
  obtain ⟨hs₀, hs₁⟩ := inRange_toInt d.seconds
  obtain ⟨hn₀, hn₁⟩ := inRange_toInt d.nanos
  simp only [DurationValue.timeNanos, NANOS_PER_SEC]
  omega

/-- The whole seconds as they are, or a period of the cast away from it. -/
theorem splitNanos_cases {total seconds nanos : Int}
    (htotal : -2 ^ 63 * NANOS_PER_SEC - 2 ^ 63 ≤ total ∧ total < 2 ^ 63 * NANOS_PER_SEC + 2 ^ 63)
    (h : splitNanos total = some (seconds, nanos)) :
    nanos = total % NANOS_PER_SEC ∧ InRange seconds ∧
      (seconds = total / NANOS_PER_SEC ∨ seconds = total / NANOS_PER_SEC + 2 ^ 64 ∨
        seconds = total / NANOS_PER_SEC - 2 ^ 64) := by
  obtain ⟨hsum, ⟨hlow, hhigh⟩, hpos, hneg⟩ := truncated_spec total (b := NANOS_PER_SEC) (by decide)
  have hcast : InRange (Int64.ofInt (total.tdiv NANOS_PER_SEC)).toInt ∧
      ((Int64.ofInt (total.tdiv NANOS_PER_SEC)).toInt = total.tdiv NANOS_PER_SEC ∨
        (Int64.ofInt (total.tdiv NANOS_PER_SEC)).toInt = total.tdiv NANOS_PER_SEC + 2 ^ 64 ∨
        (Int64.ofInt (total.tdiv NANOS_PER_SEC)).toInt = total.tdiv NANOS_PER_SEC - 2 ^ 64) := by
    refine ⟨inRange_toInt _, ?_⟩
    simp only [NANOS_PER_SEC] at *
    by_cases habove : 2 ^ 63 ≤ total.tdiv 1000000000
    · exact .inr (.inr (toInt_ofInt_above habove (by omega)))
    by_cases hbelow : total.tdiv 1000000000 < -2 ^ 63
    · exact .inr (.inl (toInt_ofInt_below (by omega) hbelow))
    exact .inl ((toInt_ofInt_iff _).mpr ⟨by omega, by omega⟩)
  obtain ⟨hin, hcast⟩ := hcast
  simp only [splitNanos] at h
  generalize (Int64.ofInt (total.tdiv NANOS_PER_SEC)).toInt = cast at *
  generalize total.tdiv NANOS_PER_SEC = quotient at *
  generalize total.tmod NANOS_PER_SEC = rest at *
  by_cases hrest : rest < 0
  · rw [if_pos hrest] at h
    by_cases hfits : InRange (cast - 1)
    · rw [int64, if_pos hfits] at h
      obtain ⟨rfl, rfl⟩ : cast - 1 = seconds ∧ rest + NANOS_PER_SEC = nanos := by simpa using h
      refine ⟨?_, hfits, ?_⟩ <;> simp only [NANOS_PER_SEC] at * <;> omega
    · rw [int64_eq_none hfits] at h
      cases h
  · rw [if_neg hrest] at h
    obtain ⟨rfl, rfl⟩ : cast = seconds ∧ rest = nanos := by simpa using h
    refine ⟨?_, hin, ?_⟩ <;> simp only [NANOS_PER_SEC] at * <;> omega

lemma splitNanos_eq {total : Int} (h : InRange (total / NANOS_PER_SEC)) :
    splitNanos total = some (total / NANOS_PER_SEC, total % NANOS_PER_SEC) := by
  obtain ⟨hsum, ⟨hlow, hhigh⟩, hpos, hneg⟩ := truncated_spec total (b := NANOS_PER_SEC) (by decide)
  obtain ⟨h₀, h₁⟩ := h
  have hfits : InRange (total.tdiv NANOS_PER_SEC) := by
    simp only [NANOS_PER_SEC] at *
    exact ⟨by omega, by omega⟩
  rw [splitNanos, (toInt_ofInt_iff _).mpr hfits]
  by_cases hrest : total.tmod NANOS_PER_SEC < 0
  · have hless : InRange (total.tdiv NANOS_PER_SEC - 1) := by
      simp only [NANOS_PER_SEC] at *
      exact ⟨by omega, by omega⟩
    rw [if_pos hrest, int64_eq hless.1 hless.2, map_some, some.injEq, Prod.mk.injEq]
    simp only [NANOS_PER_SEC] at *
    omega
  · rw [if_neg hrest, some.injEq, Prod.mk.injEq]
    simp only [NANOS_PER_SEC] at *
    omega

namespace TimeValue

lemma withTime_time {time : TimeOfDay} (h : time.Valid) (tv : TimeValue) : (tv.withTime time).time = time := by
  obtain ⟨hhour, hminute, hsecond, hnanos⟩ := h
  rw [NANOS_PER_SEC] at hnanos
  rw [TimeValue.time, withTime]
  dsimp only
  rw [Int8.toInt_ofInt_of_le (by omega) (by omega), Int8.toInt_ofInt_of_le (by omega) (by omega),
    Int8.toInt_ofInt_of_le (by omega) (by omega), Int32.toInt_ofInt_of_le (by omega) (by omega)]

/-- The same time of day leaves the value as it is. -/
theorem withTime_self (tv : TimeValue) (time : TimeOfDay) : (tv.withTime time).withTime tv.time = tv := by
  simp [withTime, TimeValue.time]

/-- The value so many nanoseconds later on the clock. -/
def later (tv : TimeValue) (total : Int) : TimeValue :=
  tv.withTime (.ofNanos ((tv.time.toNanos + total) % NANOS_PER_DAY))

lemma later_time (tv : TimeValue) (total : Int) :
    (tv.later total).time.Valid ∧ (tv.later total).time.toNanos = (tv.time.toNanos + total) % NANOS_PER_DAY := by
  have h₀ : 0 ≤ (tv.time.toNanos + total) % NANOS_PER_DAY := emod_nonneg _ (by decide)
  have hvalid := ofNanos_valid h₀ (emod_lt_of_pos _ (by decide))
  rw [later, withTime_time hvalid]
  exact ⟨hvalid, toNanos_ofNanos h₀⟩

/-- A value with the time of day of a later one is that one. -/
theorem eq_later {tv : TimeValue} {time : TimeOfDay} {total : Int} (htime : time.Valid)
    (hnanos : time.toNanos = (tv.time.toNanos + total) % NANOS_PER_DAY) : tv.withTime time = tv.later total := by
  rw [later, ← hnanos, ofNanos_toNanos htime]

/-- The sums that `addDuration` makes stay in their integers. -/
theorem addDuration_eq (t : TimeValue) (d : DurationValue) {seconds nanos : Int} (hnanos : 0 ≤ nanos)
    (ht : t.time.Valid) (hsplit : splitNanos d.timeNanos = some (seconds, nanos)) :
    t.addDuration d =
      if InRange (t.time.second + seconds) ∧ InRange (t.time.added seconds nanos).second then
        some (t.withTime (t.time.added seconds nanos).onClock)
      else none := by
  have hn₀ : 0 ≤ t.nanos.toInt := ht.2.2.2.1
  have hhour : ∀ n : Int, (if n.tmod 24 < 0 then n.tmod 24 + 24 else n.tmod 24) = n % 24 := by
    intro n
    have hfloor := floor_of_truncated (a := n) (b := 24) (by decide)
    by_cases hn : n.tmod 24 < 0
    · rw [if_pos hn] at hfloor ⊢
      exact congrArg Prod.snd hfloor
    · rw [if_neg hn] at hfloor ⊢
      exact congrArg Prod.snd hfloor
  have hcarry : (t.nanos.toInt + nanos).tdiv NANOS_PER_SEC = (t.nanos.toInt + nanos) / NANOS_PER_SEC :=
    tdiv_eq_ediv_of_nonneg (by omega)
  have hrest : (t.nanos.toInt + nanos).tmod NANOS_PER_SEC = (t.nanos.toInt + nanos) % NANOS_PER_SEC :=
    tmod_eq_emod_of_nonneg (by omega)
  rw [addDuration, hsplit]
  simp only [bind_eq_bind, bind_some, hcarry, hrest, hhour]
  by_cases hfirst : InRange (t.second.toInt + seconds)
  · rw [int64_eq hfirst.1 hfirst.2, bind_some]
    by_cases hsecond : InRange (t.second.toInt + seconds + (t.nanos.toInt + nanos) / NANOS_PER_SEC)
    · rw [int64_eq hsecond.1 hsecond.2, bind_some, if_pos ⟨hfirst, hsecond⟩]
      rfl
    · rw [int64_eq_none hsecond, if_neg fun h => hsecond h.2]
      rfl
  · rw [int64_eq_none hfirst, if_neg fun h => hfirst h.1]
    rfl

/-- What keeps a sum on the clock: the seconds stay in their integer, and the hour borrowed for a
sum before the full hour is not the first of the day. -/
def AddOk (t : TimeOfDay) (total : Int) : Prop :=
  let sum := t.added (total / NANOS_PER_SEC) (total % NANOS_PER_SEC)
  sum.second < 2 ^ 63 ∧ -2 ^ 63 ≤ total / NANOS_PER_SEC ∧ ¬sum.BeforeMidnight

instance (t : TimeOfDay) (total : Int) : Decidable (AddOk t total) := inferInstanceAs (Decidable (_ ∧ _))

lemma addDuration_eq_later_iff {t : TimeValue} (ht : t.time.Valid) (d : DurationValue) :
    t.addDuration d = some (t.later d.timeNanos) ↔ AddOk t.time d.timeNanos := by
  have hstarted := added_started ht
  have hrest : 0 ≤ d.timeNanos % NANOS_PER_SEC := emod_nonneg _ (by decide)
  have hcarry : 0 ≤ (t.time.nanos + d.timeNanos % NANOS_PER_SEC) / NANOS_PER_SEC :=
    ediv_nonneg (by have := ht.2.2.2.1; omega) (by decide)
  have hsecond := ht.2.2.1.1
  have hbounds := nanos_bounds d
  constructor
  · intro h
    cases hsplit : splitNanos d.timeNanos with
    | none =>
      rw [addDuration, hsplit] at h
      cases h
    | some split =>
      obtain ⟨seconds, nanos⟩ := split
      obtain ⟨rfl, hin, hcases⟩ := splitNanos_cases hbounds hsplit
      rw [addDuration_eq t d hrest ht hsplit] at h
      by_cases hfits : InRange (t.time.second + seconds) ∧
          InRange (t.time.added seconds (d.timeNanos % NANOS_PER_SEC)).second
      · rw [if_pos hfits, some.injEq] at h
        obtain ⟨hlater, hnanos⟩ := later_time t d.timeNanos
        have hbefore : ¬(t.time.added seconds (d.timeNanos % NANOS_PER_SEC)).BeforeMidnight := by
          intro hbefore
          have hhour : (t.withTime _).time.hour = (t.later d.timeNanos).time.hour := congrArg (·.time.hour) h
          have hminus : (t.withTime (t.time.added seconds (d.timeNanos % NANOS_PER_SEC)).onClock).time.hour =
            -1 := by
            rw [TimeValue.time, withTime, onClock_of_beforeMidnight (hstarted _ _) hbefore]
            rfl
          have hpositive := hlater.1.1
          omega
        obtain ⟨hclock, hclockNanos⟩ := onClock_spec (hstarted _ _) hbefore
        rw [← h, withTime_time hclock, hclockNanos, added_toNanos] at hnanos
        -- a period of the cast is no whole number of days
        have hexact : seconds = d.timeNanos / NANOS_PER_SEC := by
          simp only [NANOS_PER_SEC, NANOS_PER_DAY] at *
          omega
        rw [hexact] at hin hfits hbefore
        exact ⟨hfits.2.2, hin.1, hbefore⟩
      · rw [if_neg hfits] at h
        cases h
  · rintro ⟨hhigh, hlow, hbefore⟩
    have hsum : (t.time.added (d.timeNanos / NANOS_PER_SEC) (d.timeNanos % NANOS_PER_SEC)).second =
        t.time.second + d.timeNanos / NANOS_PER_SEC +
          (t.time.nanos + d.timeNanos % NANOS_PER_SEC) / NANOS_PER_SEC := rfl
    have hwhole : InRange (d.timeNanos / NANOS_PER_SEC) := ⟨hlow, by omega⟩
    obtain ⟨hclock, hnanos⟩ := onClock_spec (hstarted _ _) hbefore
    rw [addDuration_eq t d hrest ht (splitNanos_eq hwhole), if_pos ⟨⟨by omega, by omega⟩, ⟨by omega, hhigh⟩⟩]
    rw [eq_later hclock]
    rw [hnanos, added_toNanos]
    simp only [NANOS_PER_SEC, NANOS_PER_DAY]
    omega

/-- The other fields of a sum are those of the value. -/
theorem eq_withTime_of_addDuration {t r : TimeValue} {d : DurationValue} (h : t.addDuration d = some r) :
    r = t.withTime r.time := by
  obtain ⟨time, rfl⟩ : ∃ time, r = t.withTime time := by
    simp only [addDuration, bind_eq_bind, bind_eq_some_iff] at h
    obtain ⟨split, -, second, -, second', -, hr⟩ := h
    exact ⟨_, (some.inj hr).symm⟩
  simp only [withTime, TimeValue.time, Int8.ofInt_toInt, Int32.ofInt_toInt]

lemma later_later {t : TimeValue} (ht : t.time.Valid) (total : Int) : (t.later total).later (-total) = t := by
  obtain ⟨hday₀, hday₁⟩ := toNanos_bounds ht
  have hback : ((t.later total).time.toNanos + -total) % NANOS_PER_DAY = t.time.toNanos := by
    rw [(later_time t total).2]
    simp only [NANOS_PER_DAY] at *
    omega
  rw [later, hback, ofNanos_toNanos ht, later, withTime_self]

end TimeValue

namespace DurationValue

/-- Every field has an opposite. -/
def NoMinimum (d : DurationValue) : Prop :=
  d.months.toInt ≠ -2 ^ 63 ∧ d.days.toInt ≠ -2 ^ 63 ∧ d.seconds.toInt ≠ -2 ^ 63 ∧ d.nanos.toInt ≠ -2 ^ 63

instance (d : DurationValue) : Decidable d.NoMinimum := inferInstanceAs (Decidable (_ ∧ _))

lemma int64_opposite {w : Int64} (h : w.toInt ≠ -2 ^ 63) : int64 (-w.toInt) = some (-w.toInt) := by
  obtain ⟨h₀, h₁⟩ := inRange_toInt w
  exact int64_eq (by omega) (by omega)

lemma int64_no_opposite {w : Int64} (h : w.toInt = -2 ^ 63) : int64 (-w.toInt) = none := by
  refine int64_eq_none fun hin => ?_
  have := hin.2
  omega

lemma toInt_opposite {w : Int64} (h : w.toInt ≠ -2 ^ 63) : (Int64.ofInt (-w.toInt)).toInt = -w.toInt := by
  obtain ⟨h₀, h₁⟩ := inRange_toInt w
  exact (toInt_ofInt_iff _).mpr ⟨by omega, by omega⟩

lemma opposite_eq {d : DurationValue} (h : d.NoMinimum) :
    ∃ o, d.opposite = some o ∧ o.months.toInt = -d.months.toInt ∧ o.days.toInt = -d.days.toInt ∧
      o.timeNanos = -d.timeNanos := by
  obtain ⟨hm, hd, hs, hn⟩ := h
  refine ⟨⟨.ofInt (-d.months.toInt), .ofInt (-d.days.toInt), .ofInt (-d.seconds.toInt), .ofInt (-d.nanos.toInt)⟩,
    ?_, toInt_opposite hm, toInt_opposite hd, ?_⟩
  · rw [opposite, int64_opposite hm, int64_opposite hd, int64_opposite hs, int64_opposite hn]
    rfl
  · rw [timeNanos, timeNanos, toInt_opposite hs, toInt_opposite hn, NANOS_PER_SEC]
    omega

lemma opposite_eq_none {d : DurationValue} (h : ¬d.NoMinimum) : d.opposite = none := by
  rw [opposite]
  by_cases hm : d.months.toInt = -2 ^ 63
  · rw [int64_no_opposite hm]
    rfl
  by_cases hd : d.days.toInt = -2 ^ 63
  · rw [int64_opposite hm, int64_no_opposite hd]
    rfl
  by_cases hs : d.seconds.toInt = -2 ^ 63
  · rw [int64_opposite hm, int64_opposite hd, int64_no_opposite hs]
    rfl
  by_cases hn : d.nanos.toInt = -2 ^ 63
  · rw [int64_opposite hm, int64_opposite hd, int64_opposite hs, int64_no_opposite hn]
    rfl
  exact absurd ⟨hm, hd, hs, hn⟩ h

end DurationValue

namespace TimeValue

/-- The sum is a time of day, the exact one modulo a day, and subtracting leads back. -/
def AddedModuloDay (t : TimeValue) (d : DurationValue) : Prop :=
  ∃ r, t.addDuration d = some r ∧ r.time.Valid ∧
    r.time.toNanos = (t.time.toNanos + d.timeNanos) % NANOS_PER_DAY ∧ r.subDuration d = some t

lemma subDuration_eq_iff {t : TimeValue} (ht : t.time.Valid) (d : DurationValue) :
    (t.later d.timeNanos).subDuration d = some t ↔ d.NoMinimum ∧
      AddOk (t.later d.timeNanos).time (-d.timeNanos) := by
  by_cases hmin : d.NoMinimum
  · obtain ⟨o, ho, -, -, hnanos⟩ := DurationValue.opposite_eq hmin
    have hback := addDuration_eq_later_iff (later_time t d.timeNanos).1 o
    rw [hnanos, later_later ht] at hback
    rw [subDuration, ho, bind_some, hback]
    exact (and_iff_right hmin).symm
  · rw [subDuration, DurationValue.opposite_eq_none hmin]
    exact ⟨(by cases ·), fun h => absurd h.1 hmin⟩

theorem addedModuloDay_iff (t : TimeValue) (ht : t.time.Valid) (d : DurationValue) : t.AddedModuloDay d ↔
      AddOk t.time d.timeNanos ∧ d.NoMinimum ∧
        AddOk (.ofNanos ((t.time.toNanos + d.timeNanos) % NANOS_PER_DAY)) (-d.timeNanos) := by
  have hlater : (t.later d.timeNanos).time = .ofNanos ((t.time.toNanos + d.timeNanos) % NANOS_PER_DAY) := by
    rw [← (later_time t d.timeNanos).2, ofNanos_toNanos (later_time t d.timeNanos).1]
  rw [← hlater, ← subDuration_eq_iff ht, ← addDuration_eq_later_iff ht]
  constructor
  · rintro ⟨r, hadd, hvalid, hnanos, hsub⟩
    have hr : r = t.later d.timeNanos := by
      rw [eq_withTime_of_addDuration hadd]
      exact eq_later hvalid hnanos
    rw [← hr]
    exact ⟨hadd, hsub⟩
  · rintro ⟨hadd, hsub⟩
    exact ⟨_, hadd, (later_time t _).1, (later_time t _).2, hsub⟩

/-- `localtime('10:59:59.5')`. -/
def almostEleven : TimeValue := ⟨500000000, 0, 10, 59, 59, .LOCAL_TIME, none⟩

theorem addedModuloDay_almostEleven : almostEleven.AddedModuloDay ⟨0, 0, 2, 750000000⟩ :=
  (addedModuloDay_iff almostEleven (by decide) _).mpr (by decide)

/-- One second before midnight is at hour `-1`. -/
theorem midnight_minus_second : ¬(TimeValue.mk 0 0 0 0 0 .LOCAL_TIME none).AddedModuloDay ⟨0, 0, -1, 0⟩ := by
  rintro ⟨r, hadd, hvalid, -⟩
  have hsum : (TimeValue.mk 0 0 0 0 0 .LOCAL_TIME none).addDuration ⟨0, 0, -1, 0⟩ =
      some ⟨0, 0, -1, 59, 59, .LOCAL_TIME, none⟩ := by decide
  rw [hsum, some.injEq] at hadd
  rw [← hadd] at hvalid
  exact absurd hvalid (by decide)

end TimeValue

/-! ### Sums and multiples of durations -/

lemma normalizeDurationNanos_eq (dur : DurationValue) : normalizeDurationNanos dur =
      if FitsInt64 (dur.seconds.toInt + dur.nanos.toInt / NANOS_PER_SEC) then
        .ok { dur with
          seconds := .ofInt (dur.seconds.toInt + dur.nanos.toInt / NANOS_PER_SEC)
          nanos := .ofInt (dur.nanos.toInt % NANOS_PER_SEC) }
      else .error ⟨"duration out of range"⟩ := by
  have hseconds : FitsInt64 dur.seconds.toInt := inRange_toInt dur.seconds
  have hsplit := floor_of_truncated (a := dur.nanos.toInt) (b := NANOS_PER_SEC) (by decide)
  rw [normalizeDurationNanos]
  by_cases hcanonical : 0 ≤ dur.nanos.toInt ∧ dur.nanos.toInt < NANOS_PER_SEC
  · have hnone : dur.nanos.toInt / NANOS_PER_SEC = 0 := ediv_eq_zero_of_lt hcanonical.1 hcanonical.2
    rw [if_pos hcanonical, hnone, Int.add_zero, if_pos hseconds, emod_eq_of_lt hcanonical.1 hcanonical.2,
      Int64.ofInt_toInt, Int64.ofInt_toInt]
  · rw [if_neg hcanonical]
    dsimp only
    rw [hsplit]
    dsimp only
    rw [FitsInt64] at hseconds
    by_cases hfits : FitsInt64 (dur.seconds.toInt + dur.nanos.toInt / NANOS_PER_SEC)
    · rw [if_pos hfits]
      rw [FitsInt64] at hfits
      rw [if_neg (by omega), if_neg (by omega)]
    · rw [if_neg hfits]
      rw [FitsInt64] at hfits
      split
      · rfl
      · rw [if_pos (by omega)]

/-- The duration with these parts, its nanoseconds below a second, or an error where it does not
fit. -/
def ExactOrFails (outcome : DurationOutcome) (months days total : Int) : Prop :=
  if FitsInt64 months ∧ FitsInt64 days ∧ FitsInt64 (total / NANOS_PER_SEC) then
    outcome = some (.ok
      ⟨.ofInt months, .ofInt days, .ofInt (total / NANOS_PER_SEC), .ofInt (total % NANOS_PER_SEC)⟩)
  else ∃ e, outcome = some (.error e)

lemma not_exactOrFails_none (months days total : Int) : ¬ExactOrFails none months days total := by
  rw [ExactOrFails]
  split <;> simp

lemma ofParts_exact (months days total : Int) :
    ExactOrFails (ofParts (some months) (some days) (some total)) months days total := by
  obtain ⟨hsum, ⟨hlow, hhigh⟩, hpos, hneg⟩ := truncated_spec total (b := NANOS_PER_SEC) (by decide)
  simp only [ofParts, checkedNarrow, bind_some, ExactOrFails]
  by_cases hmonths : FitsInt64 months
  · by_cases hdays : FitsInt64 days
    · rw [if_pos hmonths, if_pos hdays]
      by_cases hseconds : FitsInt64 (total.tdiv NANOS_PER_SEC)
      · have hfield : (Int64.ofInt (total.tdiv NANOS_PER_SEC)).toInt = total.tdiv NANOS_PER_SEC :=
          (toInt_ofInt_iff _).mpr hseconds
        have hrest : (Int64.ofInt (total.tmod NANOS_PER_SEC)).toInt = total.tmod NANOS_PER_SEC := by
          rw [NANOS_PER_SEC] at *
          exact (toInt_ofInt_iff _).mpr ⟨by omega, by omega⟩
        have hwhole : total.tdiv NANOS_PER_SEC + total.tmod NANOS_PER_SEC / NANOS_PER_SEC =
          total / NANOS_PER_SEC := by
          rw [NANOS_PER_SEC] at *
          omega
        have hnanos : total.tmod NANOS_PER_SEC % NANOS_PER_SEC = total % NANOS_PER_SEC := by
          rw [NANOS_PER_SEC] at *
          omega
        rw [if_pos hseconds, normalizeDurationNanos_eq]
        dsimp only
        rw [hfield, hrest, hwhole, hnanos]
        by_cases hfits : FitsInt64 (total / NANOS_PER_SEC)
        · rw [if_pos hfits, if_pos ⟨hmonths, hdays, hfits⟩]
        · rw [if_neg hfits, if_neg fun h => hfits h.2.2]
          exact ⟨_, rfl⟩
      · have hfits : ¬FitsInt64 (total / NANOS_PER_SEC) := by
          simp only [FitsInt64, NANOS_PER_SEC] at *
          omega
        rw [if_neg hseconds, if_neg fun h => hfits h.2.2]
        exact ⟨_, rfl⟩
    · rw [if_pos hmonths, if_neg hdays, if_neg fun h => hdays h.2.1]
      exact ⟨_, rfl⟩
  · rw [if_neg hmonths, if_neg fun h => hmonths h.1]
    exact ⟨_, rfl⟩

/-- Without a time part only an earlier part can be reported. -/
theorem ofParts_no_total_iff (months days total : Int) :
    ExactOrFails (ofParts (some months) (some days) none) months days total ↔
      ¬(FitsInt64 months ∧ FitsInt64 days) := by
  simp only [ofParts, checkedNarrow, bind_some, bind_none]
  by_cases hmonths : FitsInt64 months
  · by_cases hdays : FitsInt64 days
    · rw [if_pos hmonths, if_pos hdays]
      exact iff_of_false (not_exactOrFails_none _ _ _) fun h => h ⟨hmonths, hdays⟩
    · rw [if_pos hmonths, if_neg hdays, ExactOrFails, if_neg fun h => hdays h.2.1]
      exact iff_of_true ⟨_, rfl⟩ fun h => hdays h.2
  · rw [if_neg hmonths, ExactOrFails, if_neg fun h => hmonths h.1]
    exact iff_of_true ⟨_, rfl⟩ fun h => hmonths h.1

lemma int128_timeNanos (d : DurationValue) : int128 d.timeNanos = some d.timeNanos := by
  have h := nanos_bounds d
  rw [NANOS_PER_SEC] at h
  exact int128_eq (by omega) (by omega)

lemma addDurations_exact (a b : DurationValue) :
    ExactOrFails (addDurations a b) (a.months.toInt + b.months.toInt) (a.days.toInt + b.days.toInt)
      (a.timeNanos + b.timeNanos) := by
  have hsum : ∀ x y : Int64, int128 (x.toInt + y.toInt) = some (x.toInt + y.toInt) := by
    intro x y
    obtain ⟨hx₀, hx₁⟩ := inRange_toInt x
    obtain ⟨hy₀, hy₁⟩ := inRange_toInt y
    exact int128_eq (by omega) (by omega)
  have ha := nanos_bounds a
  have hb := nanos_bounds b
  rw [NANOS_PER_SEC] at ha hb
  have htotal : int128 (a.timeNanos + b.timeNanos) = some (a.timeNanos + b.timeNanos) :=
    int128_eq (by omega) (by omega)
  rw [addDurations, hsum, hsum, int128_timeNanos, int128_timeNanos]
  simp only [bind_eq_bind, bind_some, htotal]
  exact ofParts_exact _ _ _

lemma subDurations_exact_iff (a b : DurationValue) :
    ExactOrFails (subDurations a b) (a.months.toInt - b.months.toInt) (a.days.toInt - b.days.toInt)
      (a.timeNanos - b.timeNanos) ↔ b.NoMinimum := by
  by_cases hmin : b.NoMinimum
  · obtain ⟨o, ho, hmonths, hdays, hnanos⟩ := DurationValue.opposite_eq hmin
    have hadd := addDurations_exact a o
    rw [hmonths, hdays, hnanos] at hadd
    rw [subDurations, ho]
    exact iff_of_true hadd hmin
  · rw [subDurations, DurationValue.opposite_eq_none hmin]
    exact iff_of_false (not_exactOrFails_none _ _ _) hmin

lemma int128_mul (x y : Int64) : int128 (x.toInt * y.toInt) = some (x.toInt * y.toInt) := by
  have hbound : ∀ w : Int64, |w.toInt| ≤ 2 ^ 63 := by
    intro w
    obtain ⟨h₀, h₁⟩ := inRange_toInt w
    exact abs_le.mpr ⟨h₀, by omega⟩
  have hproduct : |x.toInt * y.toInt| ≤ 2 ^ 63 * 2 ^ 63 := by
    rw [abs_mul]
    exact mul_le_mul (hbound x) (hbound y) (abs_nonneg _) (by decide)
  obtain ⟨h₀, h₁⟩ := abs_le.mp hproduct
  exact int128_eq (by omega) (by omega)

lemma mulDuration_exact_iff (dur : DurationValue) (factor : Int64) :
    ExactOrFails (mulDuration dur factor) (dur.months.toInt * factor.toInt) (dur.days.toInt * factor.toInt)
        (dur.timeNanos * factor.toInt) ↔
      (FitsInt64 (dur.months.toInt * factor.toInt) → FitsInt64 (dur.days.toInt * factor.toInt) →
        -2 ^ 127 ≤ dur.timeNanos * factor.toInt ∧ dur.timeNanos * factor.toInt < 2 ^ 127) := by
  rw [mulDuration, int128_mul, int128_mul, int128_timeNanos]
  simp only [bind_eq_bind, bind_some]
  by_cases htotal : -2 ^ 127 ≤ dur.timeNanos * factor.toInt ∧ dur.timeNanos * factor.toInt < 2 ^ 127
  · rw [int128_eq htotal.1 htotal.2]
    exact iff_of_true (ofParts_exact _ _ _) fun _ _ => htotal
  · rw [int128, if_neg htotal, ofParts_no_total_iff]
    exact ⟨fun h hmonths hdays => absurd ⟨hmonths, hdays⟩ h, fun h hfit => htotal (h hfit.1 hfit.2)⟩

/-- Sums, differences and multiples are the exact ones or errors, and nothing overflows. -/
def ExactArithmetic (a b : DurationValue) (factor : Int64) : Prop :=
  ExactOrFails (addDurations a b) (a.months.toInt + b.months.toInt) (a.days.toInt + b.days.toInt)
      (a.timeNanos + b.timeNanos) ∧
    ExactOrFails (subDurations a b) (a.months.toInt - b.months.toInt) (a.days.toInt - b.days.toInt)
      (a.timeNanos - b.timeNanos) ∧
    ExactOrFails (mulDuration a factor) (a.months.toInt * factor.toInt) (a.days.toInt * factor.toInt)
      (a.timeNanos * factor.toInt)

theorem exactArithmetic_iff (a b : DurationValue) (factor : Int64) : ExactArithmetic a b factor ↔ b.NoMinimum ∧
        (FitsInt64 (a.months.toInt * factor.toInt) → FitsInt64 (a.days.toInt * factor.toInt) →
          -2 ^ 127 ≤ a.timeNanos * factor.toInt ∧ a.timeNanos * factor.toInt < 2 ^ 127) := by
  rw [ExactArithmetic, subDurations_exact_iff, mulDuration_exact_iff]
  exact and_iff_right (addDurations_exact a b)

/-- Two to the 62nd seconds, multiplied by as many, leave 128 bits. -/
theorem large_multiple_overflows :
    ¬ExactArithmetic ⟨0, 0, 4611686018427387904, 0⟩ ⟨0, 0, 0, 0⟩ 4611686018427387904 := by
  rintro ⟨-, -, hmul⟩
  have hnone : mulDuration ⟨0, 0, 4611686018427387904, 0⟩ 4611686018427387904 = none := by decide
  rw [hnone] at hmul
  exact not_exactOrFails_none _ _ _ hmul

end Eugraph
