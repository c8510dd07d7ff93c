import Eugraph.TemporalValue
import Eugraph.Service.BoltSession
import Eugraph.Service.PackStream

/-!
# Values on the wire

`service/bolt/bolt_value_mapping.cpp`: the conversions between runtime values and
PackStream values.  Nodes, relationships and paths are written but never read back; they
are a parameter here.

A zoned date-time is written as local seconds up to protocol version 4 and as UTC seconds
from version 5 on, under different tags; the reader takes both for UTC seconds.
-/

namespace Eugraph.Service

open DateTimeValue Tags

namespace Tags

def DATE : UInt8 := 0x44
def TIME : UInt8 := 0x54
def LOCAL_TIME : UInt8 := 0x74
def DATETIME : UInt8 := 0x49
def DATETIME_ZONE_ID : UInt8 := 0x69
def LOCAL_DATETIME : UInt8 := 0x64
def DURATION : UInt8 := 0x45
def DATETIME_V4 : UInt8 := 0x46
def DATETIME_ZONE_ID_V4 : UInt8 := 0x66

end Tags

namespace BoltValueMapping

open Lib

/-- The runtime values of `query/dataset/row.hpp`; `E` are the graph entities. -/
inductive Value (E : Type)
  | null
  | bool (b : Bool)
  | int64 (i : Int64)
  | double (bits : DoubleBits)
  | string (s : Bytes)
  | entity (e : E)
  | dateTime (tv : DateTimeValue)
  | time (tv : TimeValue)
  | duration (dv : DurationValue)
  | list (elements : List (Value E))
  | map (entries : List (Bytes × Value E))
  | bytes (data : Bytes)

abbrev PS := PackStream.Value

variable {E : Type}

/-! ### Writing -/

def boltMajorVersion (ver : UInt32) : UInt8 := ((ver >>> 8) &&& 0xFF).toUInt8

/-- Seconds since the epoch, by the local clock. -/
def localSeconds (tv : DateTimeValue) : Int :=
  daysFromCivil tv.year.toInt tv.month.toInt tv.day.toInt * 86400 + tv.hour.toInt * 3600 +
    tv.minute.toInt * 60 + tv.second.toInt

def dateTimeToStruct (tv : DateTimeValue) (boltVersion : UInt32) : PS :=
  match tv.kind with
  | .DATE =>
    .struct DATE
      [.int (.ofInt (daysFromCivil tv.year.toInt tv.month.toInt tv.day.toInt))]
  | .LOCAL_DATETIME =>
    .struct LOCAL_DATETIME [.int (.ofInt (localSeconds tv)), .int tv.nanos.toInt64]
  | .DATETIME =>
    if boltMajorVersion boltVersion ≤ 4 then
      match tv.tz_name with
      | some name =>
        .struct DATETIME_ZONE_ID_V4
          [.int (.ofInt (localSeconds tv)), .int tv.nanos.toInt64, .string name]
      | none =>
        .struct DATETIME_V4
          [.int (.ofInt (localSeconds tv)), .int tv.nanos.toInt64, .int tv.tz_offset_sec.toInt64]
    else
      let utcSeconds := localSeconds tv - tv.tz_offset_sec.toInt
      match tv.tz_name with
      | some name =>
        .struct DATETIME_ZONE_ID
          [.int (.ofInt utcSeconds), .int tv.nanos.toInt64, .string name]
      | none =>
        .struct DATETIME
          [.int (.ofInt utcSeconds), .int tv.nanos.toInt64, .int tv.tz_offset_sec.toInt64]

def timeToStruct (tv : TimeValue) : PS :=
  let nanosOfDay : Int :=
    (tv.hour.toInt * 3600 + tv.minute.toInt * 60 + tv.second.toInt) * 1000000000 + tv.nanos.toInt
  match tv.kind with
  | .LOCAL_TIME => .struct LOCAL_TIME [.int (.ofInt nanosOfDay)]
  | .TIME => .struct TIME [.int (.ofInt nanosOfDay), .int tv.tz_offset_sec.toInt64]

def durationToStruct (dv : DurationValue) : PS :=
  .struct DURATION [.int dv.months, .int dv.days, .int dv.seconds, .int dv.nanos]

/-- `dict[key] = value` for each entry: the last of two equal keys counts. -/
def assignEntry (dict : List (Bytes × PS)) (key : Bytes) (value : PS) : List (Bytes × PS) :=
  if dict.any (·.1 = key) then dict.map fun entry => if entry.1 = key then (key, value) else entry
  else dict ++ [(key, value)]

mutual

/-- `valueToBolt`; the label definitions are in `entityToBolt`. -/
def valueToBolt (entityToBolt : E → UInt32 → PS) (boltVersion : UInt32) : Value E → PS
  | .null => .null
  | .bool b => .bool b
  | .int64 i => .int i
  | .double bits => .float bits
  | .string s => .string s
  | .entity e => entityToBolt e boltVersion
  | .dateTime tv => dateTimeToStruct tv boltVersion
  | .time tv => timeToStruct tv
  | .duration dv => durationToStruct dv
  | .list elements => .list (elementsToBolt entityToBolt boltVersion elements)
  | .map entries => .dict (entriesToBolt entityToBolt boltVersion [] entries)
  | .bytes data => .bytes data

def elementsToBolt (entityToBolt : E → UInt32 → PS) (boltVersion : UInt32) :
    List (Value E) → List PS
  | [] => []
  | v :: rest =>
    valueToBolt entityToBolt boltVersion v :: elementsToBolt entityToBolt boltVersion rest

def entriesToBolt (entityToBolt : E → UInt32 → PS) (boltVersion : UInt32)
    (dict : List (Bytes × PS)) : List (Bytes × Value E) → List (Bytes × PS)
  | [] => dict
  | (key, v) :: rest =>
    entriesToBolt entityToBolt boltVersion
      (assignEntry dict key (valueToBolt entityToBolt boltVersion v)) rest

end

/-! ### Reading -/

/-- `std::get<int64_t>`. -/
def asInt : PS → Except StdException Int64
  | .int i => .ok i
  | _ => .error (.other "std::get: wrong index for variant")

/-- `std::get<std::string>`. -/
def asStr : PS → Except StdException Bytes
  | .string s => .ok s
  | _ => .error (.other "std::get: wrong index for variant")

/-- A `QueryException` of the temporal functions. -/
def orThrow {α : Type} : Except ArgumentError α → Except StdException α
  | .ok a => .ok a
  | .error e => .error (.queryException .Argument e.message)

def fillTimeOfDayNanos (tv : TimeValue) (nanosOfDay : Int64) : TimeValue :=
  let t := TimeOfDay.ofNanos nanosOfDay.toInt
  { tv with
    nanos := .ofInt t.nanos
    second := .ofInt t.second
    minute := .ofInt t.minute
    hour := .ofInt t.hour }

/-- The sum of 128 bits, where it fits 64. -/
def addOffset (seconds : Int64) (offset : Int32) : Except StdException Int :=
  let localSeconds := seconds.toInt + offset.toInt
  if localSeconds > 2 ^ 63 - 1 ∨ localSeconds < -2 ^ 63 then
    .error (.queryException .Argument "datetime parameter out of range")
  else .ok localSeconds

/-- `setTzName`. -/
def tzName (name : Bytes) : TzName := if name = [] then none else some name

def temporalFromStruct (zones : ZoneDatabase) (tag : UInt8) (fields : List PS) :
    Except StdException (Option (Value E)) :=
  if tag = DATE then
    match fields with
    | [days] => do
        let date := civilFromDays (← asInt days).toInt
        return some (.dateTime { ofCivil date ⟨0, 0, 0, 0⟩ with kind := .DATE })
    | _ => return none
  else if tag = LOCAL_TIME then
    match fields with
    | [nanos] => do
        return some (.time (fillTimeOfDayNanos ⟨0, 0, 0, 0, 0, .LOCAL_TIME, none⟩ (← asInt nanos)))
    | _ => return none
  else if tag = TIME then
    match fields with
    | [nanos, offset] => do
        let tv := fillTimeOfDayNanos ⟨0, 0, 0, 0, 0, .TIME, none⟩ (← asInt nanos)
        return some (.time { tv with tz_offset_sec := (← asInt offset).toInt32 })
    | _ => return none
  else if tag = LOCAL_DATETIME then
    match fields with
    | [seconds, nanos] => do
        let tv ← orThrow (datetimeFromEpoch (← asInt seconds).toInt (← asInt nanos).toInt)
        return some (.dateTime { tv with kind := .LOCAL_DATETIME })
    | _ => return none
  else if tag = DATETIME ∨ tag = DATETIME_V4 then
    match fields with
    | [seconds, nanos, zone] => do
        let offset := (← asInt zone).toInt32
        let localSeconds ← addOffset (← asInt seconds) offset
        let tv ← orThrow (datetimeFromEpoch localSeconds (← asInt nanos).toInt)
        return some (.dateTime { tv with tz_offset_sec := offset })
    | _ => return none
  else if tag = DATETIME_ZONE_ID ∨ tag = DATETIME_ZONE_ID_V4 then
    match fields with
    | [seconds, nanos, zone] => do
        let name ← asStr zone
        let utc ← orThrow (datetimeFromEpoch (← asInt seconds).toInt (← asInt nanos).toInt)
        let offset := lookupNamedTimezoneOffset zones utc.date name
        let localSeconds ← addOffset (← asInt seconds) offset
        let tv ← orThrow (datetimeFromEpoch localSeconds (← asInt nanos).toInt)
        return some (.dateTime { tv with tz_offset_sec := offset, tz_name := tzName name })
    | _ => return none
  else if tag = DURATION then
    match fields with
    | [months, days, seconds, nanos] => do
        let dv ← orThrow (normalizeDurationNanos
          ⟨← asInt months, ← asInt days, ← asInt seconds, ← asInt nanos⟩)
        return some (.duration dv)
    | _ => return none
  else return none

mutual

def boltParamToValue (zones : ZoneDatabase) : PS → Except StdException (Value E)
  | .null => .ok .null
  | .bool b => .ok (.bool b)
  | .int i => .ok (.int64 i)
  | .float bits => .ok (.double bits)
  | .string s => .ok (.string s)
  | .bytes bs => .ok (.bytes bs)
  | .struct tag fields => do return (← temporalFromStruct zones tag fields).getD .null
  | .list xs => do return .list (← elementsToValue zones xs)
  | .dict entries => do return .map (← entriesToValue zones entries)

def elementsToValue (zones : ZoneDatabase) : List PS → Except StdException (List (Value E))
  | [] => .ok []
  | v :: rest => do return (← boltParamToValue zones v) :: (← elementsToValue zones rest)

def entriesToValue (zones : ZoneDatabase) :
    List (Bytes × PS) → Except StdException (List (Bytes × Value E))
  | [] => .ok []
  | (key, v) :: rest => do
      return (key, ← boltParamToValue zones v) :: (← entriesToValue zones rest)

end

/-! ### What a temporal value denotes -/

/-- A fixed offset in seconds, or a zone by its name. -/
inductive Zone
  | offset (seconds : Int)
  | named (name : Bytes)
  deriving DecidableEq

def zoneOf (offset : Int32) : TzName → Zone
  | some name => .named name
  | none => .offset offset.toInt

/-- A day, a point of a clock without zone, an instant in a zone, or a length of time. -/
inductive Denotation
  | day (number : Int)
  | localTime (nanos : Int)
  | localDateTime (nanos : Int)
  | zonedTime (instant : Int) (zone : Zone)
  | zonedDateTime (instant : Int) (zone : Zone)
  | length (months days nanos : Int)
  deriving DecidableEq

def denoteDateTime (tv : DateTimeValue) : Denotation :=
  match tv.kind with
  | .DATE => .day (daysFromCivil tv.date.year tv.date.month tv.date.day)
  | .LOCAL_DATETIME => .localDateTime tv.temporalToComparable
  | .DATETIME => .zonedDateTime tv.temporalToComparable (zoneOf tv.tz_offset_sec tv.tz_name)

def denoteTime (tv : TimeValue) : Denotation :=
  match tv.kind with
  | .LOCAL_TIME => .localTime tv.temporalToComparable
  | .TIME => .zonedTime tv.temporalToComparable (zoneOf tv.tz_offset_sec tv.tz_name)

def denoteDuration (dv : DurationValue) : Denotation :=
  .length dv.months.toInt dv.days.toInt dv.timeNanos

/-- What a temporal value denotes; the other values denote nothing here. -/
def denote : Value E → Option Denotation
  | .dateTime tv => some (denoteDateTime tv)
  | .time tv => some (denoteTime tv)
  | .duration dv => some (denoteDuration dv)
  | _ => none

/-- The temporal values in range: a calendar date within the years, a time of day, a zone name
that is not empty, and a length whose seconds fit 64 bits. -/
def Supported : Value E → Prop
  | .dateTime tv =>
    tv.date.Valid ∧ YearInRange tv.date.year ∧ (tv.kind ≠ .DATE → tv.time.Valid) ∧
      tv.tz_name ≠ some []
  | .time tv => tv.time.Valid ∧ tv.tz_name ≠ some []
  | .duration dv => FitsInt64 (dv.seconds.toInt + dv.nanos.toInt / NANOS_PER_SEC)
  | _ => False

/-- The value that is read back denotes what the written one did. -/
def Survives (zones : ZoneDatabase) (entityToBolt : E → UInt32 → PS) (boltVersion : UInt32)
    (v : Value E) : Prop :=
  ∃ v' : Value E, boltParamToValue zones (valueToBolt entityToBolt boltVersion v) = .ok v' ∧
    denote v' = denote v

/-! ### Reading back -/

section ReadBack

variable {zones : ZoneDatabase}

/-- The seconds fit 64 bits with any offset added. -/
def SmallSeconds (seconds : Int) : Prop := -2 ^ 62 ≤ seconds ∧ seconds < 2 ^ 62

variable {seconds : Int}

lemma SmallSeconds.toInt_ofInt (h : SmallSeconds seconds) :
    (Int64.ofInt seconds).toInt = seconds := by
  rw [SmallSeconds] at h
  exact Int64.toInt_ofInt_of_le (by omega) (by omega)

lemma SmallSeconds.addOffset (h : SmallSeconds seconds) (offset : Int32) :
    addOffset (.ofInt seconds) offset = .ok (seconds + offset.toInt) := by
  have hoffset₀ := offset.le_toInt
  have hoffset₁ := offset.toInt_lt
  rw [BoltValueMapping.addOffset, h.toInt_ofInt]
  rw [SmallSeconds] at h
  exact if_neg (by omega)

/-- The reader takes the seconds of the older tags for UTC seconds too. -/
theorem boltParamToValue_v4 (fields : List PS) :
    (boltParamToValue zones (.struct DATETIME_V4 fields) : Except StdException (Value E)) =
      boltParamToValue zones (.struct DATETIME fields) := rfl

lemma boltParamToValue_zone_v4 (fields : List PS) :
    (boltParamToValue zones (.struct DATETIME_ZONE_ID_V4 fields) : Except StdException (Value E)) =
      boltParamToValue zones (.struct DATETIME_ZONE_ID fields) := rfl

/-- A point of the time line, converted with its range check. -/
theorem orThrow_datetimeFromEpoch {nanos total : Int} (htotal : total = seconds * NANOS_PER_SEC + nanos) :
    orThrow (datetimeFromEpoch seconds nanos) =
      if YearInRange (civilFromDays (total / NANOS_PER_DAY)).year then .ok (atNanos total)
      else .error (.queryException .Argument "datetime out of range") := by
  rw [datetimeFromEpoch_eq, ← htotal]
  split <;> rfl

/-- A date-time with an offset: the reader adds the offset. -/
theorem read_dateTime (hseconds : SmallSeconds seconds) (nanos offset : Int32)
    {total : Int} (htotal : total = (seconds + offset.toInt) * NANOS_PER_SEC + nanos.toInt) :
    (boltParamToValue zones (.struct DATETIME [.int (.ofInt seconds), .int nanos.toInt64, .int offset.toInt64]) :
      Except StdException (Value E)) =
      if YearInRange (civilFromDays (total / NANOS_PER_DAY)).year then
        .ok (.dateTime { atNanos total with tz_offset_sec := offset })
      else .error (.queryException .Argument "datetime out of range") := by
  rw [boltParamToValue]
  show ((addOffset (.ofInt seconds) offset.toInt64.toInt32 >>= _) >>= _) = _
  rw [Int32.toInt32_toInt64, hseconds.addOffset]
  show ((orThrow (datetimeFromEpoch (seconds + offset.toInt) nanos.toInt64.toInt) >>= _) >>= _) = _
  rw [Int32.toInt_toInt64, orThrow_datetimeFromEpoch htotal]
  by_cases hyear : YearInRange (civilFromDays (total / NANOS_PER_DAY)).year
  · rw [if_pos hyear, if_pos hyear]
    rfl
  · rw [if_neg hyear, if_neg hyear]
    rfl

/-- A date-time in a named zone: the offset is the one that the zone has on the UTC date. -/
theorem read_zonedDateTime (hseconds : SmallSeconds seconds) (nanos : Int32)
    {name : Bytes} (hname : name ≠ []) {utc : Int}
    (hutc : utc = seconds * NANOS_PER_SEC + nanos.toInt)
    (hyear : YearInRange (civilFromDays (utc / NANOS_PER_DAY)).year) {offset : Int32}
    (hoffset : offset = lookupNamedTimezoneOffset zones (civilFromDays (utc / NANOS_PER_DAY)) name)
    {total : Int} (htotal : total = utc + offset.toInt * NANOS_PER_SEC) :
    (boltParamToValue zones (.struct DATETIME_ZONE_ID [.int (.ofInt seconds), .int nanos.toInt64, .string name]) :
      Except StdException (Value E)) =
      if YearInRange (civilFromDays (total / NANOS_PER_DAY)).year then
        .ok (.dateTime { atNanos total with tz_offset_sec := offset, tz_name := some name })
      else .error (.queryException .Argument "datetime out of range") := by
  rw [boltParamToValue]
  show ((orThrow (datetimeFromEpoch (Int64.ofInt seconds).toInt nanos.toInt64.toInt) >>= _) >>= _) = _
  rw [Int32.toInt_toInt64, hseconds.toInt_ofInt, orThrow_datetimeFromEpoch hutc, if_pos hyear]
  show ((addOffset (.ofInt seconds) (lookupNamedTimezoneOffset zones (atNanos utc).date name) >>= _) >>= _) = _
  rw [date_atNanos hyear, ← hoffset, hseconds.addOffset]
  show ((orThrow (datetimeFromEpoch (seconds + offset.toInt) nanos.toInt64.toInt) >>= _) >>= _) = _
  have hlocal : total = (seconds + offset.toInt) * NANOS_PER_SEC + nanos.toInt64.toInt := by
    rw [Int32.toInt_toInt64]
    grind
  rw [orThrow_datetimeFromEpoch hlocal]
  have hset : tzName name = some name := if_neg hname
  by_cases hlocal : YearInRange (civilFromDays (total / NANOS_PER_DAY)).year
  · rw [if_pos hlocal, if_pos hlocal, ← hset]
    rfl
  · rw [if_neg hlocal, if_neg hlocal]
    rfl

/-- A named zone whose UTC date has no year in range. -/
theorem read_zonedDateTime_error (hseconds : SmallSeconds seconds) (nanos : Int32)
    (name : Bytes) {utc : Int} (hutc : utc = seconds * NANOS_PER_SEC + nanos.toInt)
    (hyear : ¬ YearInRange (civilFromDays (utc / NANOS_PER_DAY)).year) :
    (boltParamToValue zones (.struct DATETIME_ZONE_ID [.int (.ofInt seconds), .int nanos.toInt64, .string name]) :
      Except StdException (Value E)) =
      .error (.queryException .Argument "datetime out of range") := by
  rw [boltParamToValue]
  show ((orThrow (datetimeFromEpoch (Int64.ofInt seconds).toInt nanos.toInt64.toInt) >>= _) >>= _) = _
  rw [Int32.toInt_toInt64, hseconds.toInt_ofInt, orThrow_datetimeFromEpoch hutc, if_neg hyear]
  rfl

/-! ### Which values survive -/

/-- The date of the instant in UTC, and the date at the offset the zone has on it, are within
the years. -/
def ZoneInRange (zones : ZoneDatabase) (tv : DateTimeValue) (name : Bytes) : Prop :=
  let utc := civilFromDays (tv.temporalToComparable / NANOS_PER_DAY)
  YearInRange utc.year ∧
    YearInRange (civilFromDays ((tv.temporalToComparable +
      (lookupNamedTimezoneOffset zones utc name).toInt * NANOS_PER_SEC) / NANOS_PER_DAY)).year

/-- Written as local seconds, a zoned date-time needs the offset zero. -/
def ReadsBack (zones : ZoneDatabase) (boltVersion : UInt32) : Value E → Prop
  | .dateTime tv =>
    tv.kind = .DATETIME →
      (boltMajorVersion boltVersion ≤ 4 → tv.tz_offset_sec = 0) ∧
        ∀ name, tv.tz_name = some name → ZoneInRange zones tv name
  | .time tv => tv.kind = .TIME → tv.tz_name = none
  | _ => True

lemma localNanos_eq (tv : DateTimeValue) : tv.localNanos = localSeconds tv * NANOS_PER_SEC + tv.nanos.toInt := by
  simp only [localNanos, date, time, TimeOfDay.toNanos, localSeconds, NANOS_PER_SEC, NANOS_PER_DAY]
  omega

variable {tv : DateTimeValue}

lemma smallSeconds_local (hdate : tv.date.Valid)
    (hyear : YearInRange tv.date.year) (htime : tv.time.Valid) (offset : Int32) :
    SmallSeconds (localSeconds tv - offset.toInt) := by
  obtain ⟨hday₀, hday₁⟩ := daysFromCivil_bounds hdate hyear
  obtain ⟨hhour, hminute, hsecond, -⟩ := htime
  have hoffset₀ := offset.le_toInt
  have hoffset₁ := offset.toInt_lt
  simp only [date] at hday₀ hday₁
  simp only [time] at hhour hminute hsecond
  rw [SmallSeconds, localSeconds]
  omega

variable {entityToBolt : E → UInt32 → PS} {boltVersion : UInt32}

lemma date_survives (hkind : tv.kind = .DATE) (hdate : tv.date.Valid) (hyear : YearInRange tv.date.year) :
    Survives zones entityToBolt boltVersion (.dateTime tv) := by
  obtain ⟨hday₀, hday₁⟩ := daysFromCivil_bounds hdate hyear
  have hwritten : valueToBolt entityToBolt boltVersion (.dateTime tv) = .struct DATE
      [.int (.ofInt (daysFromCivil tv.date.year tv.date.month tv.date.day))] := by
    rw [valueToBolt, dateTimeToStruct, hkind]
    rfl
  have hread : civilFromDays
      (Int64.ofInt (daysFromCivil tv.date.year tv.date.month tv.date.day)).toInt = tv.date := by
    rw [Int64.toInt_ofInt_of_le (by omega) (by omega), civilFromDays_daysFromCivil hdate]
  refine ⟨.dateTime { ofCivil tv.date ⟨0, 0, 0, 0⟩ with kind := .DATE }, ?_, ?_⟩
  · rw [hwritten]
    show (Except.ok (Value.dateTime { ofCivil (civilFromDays (Int64.ofInt
      (daysFromCivil tv.date.year tv.date.month tv.date.day)).toInt) ⟨0, 0, 0, 0⟩ with
        kind := .DATE }) : Except StdException (Value E)) = _
    rw [hread]
  · have hback : date { ofCivil tv.date ⟨0, 0, 0, 0⟩ with kind := .DATE } = tv.date :=
      ofCivil_date hdate hyear ⟨0, 0, 0, 0⟩
    rw [denote, denote, denoteDateTime, denoteDateTime, hkind]
    dsimp only
    rw [hback]

lemma localDateTime_survives (hkind : tv.kind = .LOCAL_DATETIME)
    (hdate : tv.date.Valid) (hyear : YearInRange tv.date.year) (htime : tv.time.Valid) :
    Survives zones entityToBolt boltVersion (.dateTime tv) := by
  have hseconds : SmallSeconds (localSeconds tv) := by
    have h := smallSeconds_local hdate hyear htime 0
    rwa [show (0 : Int32).toInt = 0 from rfl, Int.sub_zero] at h
  have hyear' : YearInRange (civilFromDays (tv.localNanos / NANOS_PER_DAY)).year := by
    rwa [civilFromDays_localNanos hdate htime]
  have hwritten : valueToBolt entityToBolt boltVersion (.dateTime tv) = .struct LOCAL_DATETIME
      [.int (.ofInt (localSeconds tv)), .int tv.nanos.toInt64] := by
    rw [valueToBolt, dateTimeToStruct, hkind]
  refine ⟨.dateTime { atNanos tv.localNanos with kind := .LOCAL_DATETIME }, ?_, ?_⟩
  · rw [hwritten, boltParamToValue]
    show ((orThrow (datetimeFromEpoch (Int64.ofInt (localSeconds tv)).toInt tv.nanos.toInt64.toInt) >>= _) >>= _) = _
    rw [hseconds.toInt_ofInt, Int32.toInt_toInt64, orThrow_datetimeFromEpoch (localNanos_eq tv), if_pos hyear']
    rfl
  · have hlocal : localNanos { atNanos tv.localNanos with kind := .LOCAL_DATETIME } = tv.localNanos :=
      localNanos_atNanos hyear'
    rw [denote, denote, denoteDateTime, denoteDateTime, hkind]
    dsimp only
    rw [temporalToComparable, temporalToComparable, hlocal, hkind]
    dsimp only
    have hne : DateTimeKind.LOCAL_DATETIME ≠ .DATETIME := by decide
    rw [if_neg hne, if_neg hne]

lemma denote_atNanos {total : Int}
    (hyear : YearInRange (civilFromDays (total / NANOS_PER_DAY)).year) (offset : Int32)
    (name : TzName) :
    denoteDateTime { atNanos total with tz_offset_sec := offset, tz_name := name } =
      .zonedDateTime (total - offset.toInt * NANOS_PER_SEC) (zoneOf offset name) := by
  have hlocal : localNanos { atNanos total with tz_offset_sec := offset, tz_name := name } = total :=
    localNanos_atNanos hyear
  show Denotation.zonedDateTime (temporalToComparable _) _ = _
  rw [temporalToComparable, hlocal]
  rfl

/-- Under either family the zoned date-time is written as the seconds of some point: the local
time up to version 4, the instant from version 5 on. -/
def writtenSeconds (boltVersion : UInt32) (tv : DateTimeValue) : Int :=
  if boltMajorVersion boltVersion ≤ 4 then localSeconds tv
  else localSeconds tv - tv.tz_offset_sec.toInt

/-- The reader's view of a written date-time with an offset. -/
theorem read_written_offset (hkind : tv.kind = .DATETIME) (hname : tv.tz_name = none) :
    (boltParamToValue zones (valueToBolt entityToBolt boltVersion (.dateTime tv)) : Except StdException (Value E)) =
      boltParamToValue zones (.struct DATETIME [.int (.ofInt (writtenSeconds boltVersion tv)),
        .int tv.nanos.toInt64, .int tv.tz_offset_sec.toInt64]) := by
  rw [valueToBolt, dateTimeToStruct, hkind, hname, writtenSeconds]
  by_cases hversion : boltMajorVersion boltVersion ≤ 4
  · simp only [hversion, if_true]
    rw [boltParamToValue_v4]
  · simp only [hversion, if_false]

lemma read_written_zone (hkind : tv.kind = .DATETIME) {name : Bytes} (hname : tv.tz_name = some name) :
    (boltParamToValue zones (valueToBolt entityToBolt boltVersion (.dateTime tv)) : Except StdException (Value E)) =
      boltParamToValue zones (.struct DATETIME_ZONE_ID
        [.int (.ofInt (writtenSeconds boltVersion tv)), .int tv.nanos.toInt64, .string name]) := by
  rw [valueToBolt, dateTimeToStruct, hkind, hname, writtenSeconds]
  by_cases hversion : boltMajorVersion boltVersion ≤ 4
  · simp only [hversion, if_true]
    rw [boltParamToValue_zone_v4]
  · simp only [hversion, if_false]

/-- What the written seconds stand for. -/
theorem written_eq_instant_iff (hkind : tv.kind = .DATETIME) :
    writtenSeconds boltVersion tv * NANOS_PER_SEC + tv.nanos.toInt = tv.temporalToComparable ↔
      (boltMajorVersion boltVersion ≤ 4 → tv.tz_offset_sec = 0) := by
  rw [temporalToComparable, if_pos hkind, localNanos_eq, writtenSeconds,
    ← Int32.toInt_inj, show (0 : Int32).toInt = 0 from rfl, NANOS_PER_SEC]
  by_cases hversion : boltMajorVersion boltVersion ≤ 4
  · simp only [hversion, if_true, true_imp_iff]
    omega
  · simp only [hversion, if_false, false_imp_iff, iff_true]
    omega

lemma smallSeconds_written (hdate : tv.date.Valid) (hyear : YearInRange tv.date.year) (htime : tv.time.Valid) :
    SmallSeconds (writtenSeconds boltVersion tv) := by
  rw [writtenSeconds]
  split
  · have h := smallSeconds_local hdate hyear htime 0
    rwa [show (0 : Int32).toInt = 0 from rfl, Int.sub_zero] at h
  · exact smallSeconds_local hdate hyear htime tv.tz_offset_sec

lemma offset_survives_iff (hkind : tv.kind = .DATETIME)
    (hname : tv.tz_name = none) (hdate : tv.date.Valid) (hyear : YearInRange tv.date.year)
    (htime : tv.time.Valid) :
    Survives zones entityToBolt boltVersion (.dateTime tv) ↔
      (boltMajorVersion boltVersion ≤ 4 → tv.tz_offset_sec = 0) := by
  rw [← written_eq_instant_iff hkind, Survives, read_written_offset hkind hname]
  rw [read_dateTime (smallSeconds_written hdate hyear htime) tv.nanos tv.tz_offset_sec rfl]
  obtain ⟨utc, hutc⟩ : ∃ utc, utc = writtenSeconds boltVersion tv * NANOS_PER_SEC + tv.nanos.toInt := ⟨_, rfl⟩
  have htotal : (writtenSeconds boltVersion tv + tv.tz_offset_sec.toInt) * NANOS_PER_SEC +
      tv.nanos.toInt = utc + tv.tz_offset_sec.toInt * NANOS_PER_SEC := by
    rw [hutc, NANOS_PER_SEC]
    omega
  rw [htotal, ← hutc]
  have hdenote : denote (.dateTime tv : Value E) =
      some (.zonedDateTime tv.temporalToComparable (.offset tv.tz_offset_sec.toInt)) := by
    rw [denote, denoteDateTime, hkind, hname]
    rfl
  constructor
  · rintro ⟨v', hread, hsame⟩
    split at hread
    · rename_i hrange
      obtain rfl := Except.ok.inj hread
      rw [hdenote] at hsame
      have hback := denote_atNanos hrange tv.tz_offset_sec none
      obtain ⟨hinstant, -⟩ := Denotation.zonedDateTime.inj (hback.symm.trans (Option.some.inj hsame))
      omega
    · cases hread
  · intro hinstant
    have hlocal : utc + tv.tz_offset_sec.toInt * NANOS_PER_SEC = tv.localNanos := by
      rw [hinstant, temporalToComparable, if_pos hkind]
      omega
    have hrange : YearInRange
        (civilFromDays ((utc + tv.tz_offset_sec.toInt * NANOS_PER_SEC) / NANOS_PER_DAY)).year := by
      rwa [hlocal, civilFromDays_localNanos hdate htime]
    refine ⟨_, if_pos hrange, ?_⟩
    rw [hdenote]
    have hback := denote_atNanos hrange tv.tz_offset_sec none
    have hutc' : utc + tv.tz_offset_sec.toInt * NANOS_PER_SEC -
        tv.tz_offset_sec.toInt * NANOS_PER_SEC = tv.temporalToComparable := by omega
    rw [hutc'] at hback
    exact congrArg some hback

lemma zone_survives_iff (hkind : tv.kind = .DATETIME) {name : Bytes}
    (hname : tv.tz_name = some name) (hnonempty : name ≠ []) (hdate : tv.date.Valid)
    (hyear : YearInRange tv.date.year) (htime : tv.time.Valid) :
    Survives zones entityToBolt boltVersion (.dateTime tv) ↔
      (boltMajorVersion boltVersion ≤ 4 → tv.tz_offset_sec = 0) ∧ ZoneInRange zones tv name := by
  rw [← written_eq_instant_iff hkind, Survives, read_written_zone hkind hname]
  have hseconds : SmallSeconds (writtenSeconds boltVersion tv) := smallSeconds_written hdate hyear htime
  obtain ⟨utc, hutc⟩ : ∃ utc, utc = writtenSeconds boltVersion tv * NANOS_PER_SEC + tv.nanos.toInt := ⟨_, rfl⟩
  obtain ⟨offset, hoffset⟩ : ∃ offset, offset =
    lookupNamedTimezoneOffset zones (civilFromDays (utc / NANOS_PER_DAY)) name := ⟨_, rfl⟩
  have hdenote : denote (.dateTime tv : Value E) = some (.zonedDateTime tv.temporalToComparable (.named name)) := by
    rw [denote, denoteDateTime, hkind, hname]
    rfl
  rw [← hutc]
  -- where the instant is the right one, the two range checks are those of `ZoneInRange`
  have hzone : utc = tv.temporalToComparable →
      (ZoneInRange zones tv name ↔ YearInRange (civilFromDays (utc / NANOS_PER_DAY)).year ∧
        YearInRange (civilFromDays ((utc + offset.toInt * NANOS_PER_SEC) / NANOS_PER_DAY)).year) := by
    rintro hinstant
    rw [ZoneInRange, hoffset, hinstant]
  have hback : utc + offset.toInt * NANOS_PER_SEC - offset.toInt * NANOS_PER_SEC = utc := by omega
  constructor
  · rintro ⟨v', hread, hsame⟩
    by_cases hutcYear : YearInRange (civilFromDays (utc / NANOS_PER_DAY)).year
    · rw [read_zonedDateTime hseconds tv.nanos hnonempty hutc hutcYear hoffset rfl] at hread
      split at hread
      · rename_i hrange
        obtain rfl := Except.ok.inj hread
        rw [hdenote] at hsame
        have hat := denote_atNanos hrange offset (some name)
        rw [hback] at hat
        obtain ⟨hinstant, -⟩ := Denotation.zonedDateTime.inj (hat.symm.trans (Option.some.inj hsame))
        exact ⟨hinstant, (hzone hinstant).mpr ⟨hutcYear, hrange⟩⟩
      · exact nomatch hread
    · rw [read_zonedDateTime_error hseconds tv.nanos name hutc hutcYear] at hread
      exact nomatch hread
  · rintro ⟨hinstant, hin⟩
    obtain ⟨hutcYear, hrange⟩ := (hzone hinstant).mp hin
    rw [read_zonedDateTime hseconds tv.nanos hnonempty hutc hutcYear hoffset rfl]
    refine ⟨_, if_pos hrange, ?_⟩
    have hat := denote_atNanos hrange offset (some name)
    rw [hback] at hat
    rw [hdenote, ← hinstant]
    exact congrArg some hat

/-- The clock fields are read back as they were. -/
theorem fillTimeOfDayNanos_written {tv : TimeValue} (htime : tv.time.Valid) (base : TimeValue) :
    fillTimeOfDayNanos base (.ofInt tv.time.toNanos) =
      { base with nanos := tv.nanos, second := tv.second, minute := tv.minute, hour := tv.hour } := by
  obtain ⟨hnanos₀, hnanos₁⟩ := TimeOfDay.toNanos_bounds htime
  rw [NANOS_PER_DAY] at hnanos₁
  rw [fillTimeOfDayNanos, Int64.toInt_ofInt_of_le (by omega) (by omega),
    TimeOfDay.ofNanos_toNanos htime]
  simp [TimeValue.time]

/-- Clock and offset are read back; a zone name is not. -/
theorem time_survives_iff {tv : TimeValue} (htime : tv.time.Valid) :
    Survives zones entityToBolt boltVersion (.time tv : Value E) ↔ (tv.kind = .TIME → tv.tz_name = none) := by
  cases hkind : tv.kind with
  | LOCAL_TIME =>
    have hread : boltParamToValue zones (valueToBolt entityToBolt boltVersion (.time tv)) =
        .ok (.time (fillTimeOfDayNanos ⟨0, 0, 0, 0, 0, .LOCAL_TIME, none⟩ (.ofInt tv.time.toNanos)) : Value E) := by
      rw [valueToBolt, timeToStruct, hkind]
      rfl
    rw [fillTimeOfDayNanos_written htime] at hread
    refine iff_of_true ⟨_, hread, ?_⟩ (fun h => nomatch h)
    rw [denote, denote, denoteTime, denoteTime, hkind]
    dsimp only
    rw [TimeValue.temporalToComparable, TimeValue.temporalToComparable, hkind]
    dsimp only
    have hne : TimeKind.LOCAL_TIME ≠ .TIME := by decide
    rw [if_neg hne, if_neg hne, TimeValue.time, TimeValue.time]
  | TIME =>
    have hread : boltParamToValue zones (valueToBolt entityToBolt boltVersion (.time tv)) =
        .ok (.time { fillTimeOfDayNanos ⟨0, 0, 0, 0, 0, .TIME, none⟩ (.ofInt tv.time.toNanos) with
          tz_offset_sec := tv.tz_offset_sec.toInt64.toInt32 } : Value E) := by
      rw [valueToBolt, timeToStruct, hkind]
      rfl
    rw [fillTimeOfDayNanos_written htime, Int32.toInt32_toInt64] at hread
    rw [Survives, hread]
    have hdenote : denote (.time tv : Value E) =
        some (.zonedTime tv.temporalToComparable (zoneOf tv.tz_offset_sec tv.tz_name)) := by
      rw [denote, denoteTime, hkind]
    have hback : denote (.time ⟨tv.nanos, tv.tz_offset_sec, tv.hour, tv.minute, tv.second, .TIME, none⟩ : Value E) =
        some (.zonedTime tv.temporalToComparable (.offset tv.tz_offset_sec.toInt)) := by
      rw [TimeValue.temporalToComparable, if_pos hkind]
      rfl
    constructor
    · rintro ⟨v', hv', hsame⟩ -
      obtain rfl := Except.ok.inj hv'
      obtain ⟨-, hzone⟩ := Denotation.zonedTime.inj (Option.some.inj (hback.symm.trans (hsame.trans hdenote)))
      cases hname : tv.tz_name with
      | none => rfl
      | some name =>
        rw [hname] at hzone
        exact nomatch hzone
    · intro hname
      refine ⟨_, rfl, ?_⟩
      rw [hdenote, hname rfl]
      exact hback

lemma duration_survives {dv : DurationValue} (h : FitsInt64 (dv.seconds.toInt + dv.nanos.toInt / NANOS_PER_SEC)) :
    Survives zones entityToBolt boltVersion (.duration dv : Value E) := by
  obtain ⟨dv', hnormal, hmonths, hdays, hnanos⟩ := normalizeDurationNanos_ok h
  refine ⟨.duration dv', ?_, ?_⟩
  · rw [valueToBolt, durationToStruct, boltParamToValue]
    show (orThrow (normalizeDurationNanos dv) >>= _) >>= _ = _
    rw [hnormal]
    rfl
  · rw [denote, denote, denoteDuration, denoteDuration, hmonths, hdays, hnanos]

/-- A supported temporal value comes back from the wire as what it was exactly if it is not a
time with a zone name, and not a date-time whose offset the older tags lose or whose named
zone leaves the years. -/
theorem temporal_survives_iff (zones : ZoneDatabase) (entityToBolt : E → UInt32 → PS)
    (boltVersion : UInt32) (v : Value E) (h : Supported v) :
    Survives zones entityToBolt boltVersion v ↔ ReadsBack zones boltVersion v := by
  cases v with
  | dateTime tv =>
    obtain ⟨hdate, hyear, htime, hname⟩ := h
    cases hkind : tv.kind with
    | DATE =>
      have hread : ReadsBack zones boltVersion (.dateTime tv : Value E) := fun h => nomatch hkind.symm.trans h
      exact iff_of_true (date_survives hkind hdate hyear) hread
    | LOCAL_DATETIME =>
      have hread : ReadsBack zones boltVersion (.dateTime tv : Value E) := fun h => nomatch hkind.symm.trans h
      have hclock := htime (by simp [hkind])
      exact iff_of_true (localDateTime_survives hkind hdate hyear hclock) hread
    | DATETIME =>
      have hclock := htime (by simp [hkind])
      rw [ReadsBack]
      cases hzone : tv.tz_name with
      | none =>
        rw [offset_survives_iff hkind hzone hdate hyear hclock]
        simp [hkind]
      | some name =>
        have hnonempty : name ≠ [] := by
          rintro rfl
          exact hname hzone
        rw [zone_survives_iff hkind hzone hnonempty hdate hyear hclock]
        simp [hkind]
  | time tv => exact time_survives_iff h.1
  | duration dv => exact iff_of_true (duration_survives h) trivial
  | _ => exact h.elim

end ReadBack

/-- A database in which every zone is one hour east of UTC. -/
def oneHourEast : ZoneDatabase := fun _ _ => some 3600

/-- 2024-06-15T12:30:00+02:00. -/
def summerNoon : DateTimeValue := ⟨2024, 0, 7200, 6, 15, 12, 30, 0, .DATETIME, none⟩

/-- Under version 5.1 the value with an offset comes back. -/
theorem temporal_survives_summerNoon : Survives oneHourEast Empty.elim 0x0501 (.dateTime summerNoon) :=
  (temporal_survives_iff oneHourEast Empty.elim 0x0501 (.dateTime summerNoon)
    ⟨by decide, by decide, fun _ => by decide, nofun⟩).mpr fun _ =>
      ⟨fun h => absurd h (by decide), nofun⟩

/-- Under version 4.4 it comes back two hours later. -/
theorem temporal_shifted_by_v4 : ¬ ∀ (boltVersion : UInt32) (v : Value Empty), Supported v →
      Survives oneHourEast Empty.elim boltVersion v := by
  intro h
  have hsupported : Supported (.dateTime summerNoon : Value Empty) :=
    ⟨by decide, by decide, fun _ => by decide, nofun⟩
  obtain ⟨v', hread, hsame⟩ := h 0x0404 _ hsupported
  have hlater : (boltParamToValue oneHourEast (valueToBolt Empty.elim 0x0404 (.dateTime summerNoon)) :
      Except StdException (Value Empty)) =
      .ok (.dateTime ⟨2024, 0, 7200, 6, 15, 14, 30, 0, .DATETIME, none⟩) := rfl
  obtain rfl := Except.ok.inj (hread.symm.trans hlater)
  exact absurd hsame (by decide)

end BoltValueMapping

end Eugraph.Service
