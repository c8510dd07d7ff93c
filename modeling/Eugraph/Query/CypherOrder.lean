import Eugraph.Query.RuntimeValue
import Eugraph.TemporalValue

/-!
# The order of runtime values

`cypherCompareValues` of `columnar_kernels.hpp`, by which `ORDER BY`, `min` and `max` order
values: categories first, then the values of one category.
-/

namespace Eugraph.Dataset

open Lib

/-! ### Temporal values -/

/-- The wall clock, most significant field first. -/
def localFields (tv : DateTimeValue) : List Int :=
  [tv.year.toInt, tv.month.toInt, tv.day.toInt, tv.hour.toInt, tv.minute.toInt, tv.second.toInt,
    tv.nanos.toInt]

def timeFields (tv : TimeValue) : List Int :=
  [tv.hour.toInt, tv.minute.toInt, tv.second.toInt, tv.nanos.toInt]

/-- `temporalLess` on dates: zoned values by instant, equal instants by the wall clock. -/
def dateTimeLess (a b : DateTimeValue) : Bool :=
  if a.kind ≠ b.kind then false
  else if a.kind = .DATETIME ∧ a.temporalToComparable ≠ b.temporalToComparable then
    a.temporalToComparable < b.temporalToComparable
  else localFields a < localFields b

def timeLess (a b : TimeValue) : Bool :=
  if a.kind ≠ b.kind then false
  else if a.kind = .TIME ∧ a.temporalToComparable ≠ b.temporalToComparable then
    a.temporalToComparable < b.temporalToComparable
  else timeFields a < timeFields b

/-- `durationOrderNanos`: a month counts as the twelfth part of 365.2425 days. -/
def durationOrderNanos (dur : DurationValue) : Int :=
  let total_seconds := dur.months.toInt * 2629746 + dur.days.toInt * 86400 + dur.seconds.toInt
  total_seconds * 1000000000 + dur.nanos.toInt

/-! ### Comparing -/

def cypherTypeCategory : Value → Nat
  | .map _ => 0
  | .vertexRef _ | .vertex _ => 1
  | .edgeKey _ | .edge _ => 2
  | .list _ => 3
  | .pathTopology _ | .path _ => 4
  | .dateTime _ | .time _ | .duration _ => 5
  | .string _ => 6
  | .bool _ => 7
  | .int64 _ | .double _ => 8
  | .bytes _ => 9
  | .null => 10

def compareAsInt (la lb : Int) : Int := if la = lb then 0 else if la < lb then -1 else 1

/-- NaN sorts behind every number and ties with itself. -/
def compareAsDouble (a b : DoubleBits) : Int :=
  if DoubleBits.equal a b then 0
  else if DoubleBits.isNaN a then (if DoubleBits.isNaN b then 0 else 1)
  else if DoubleBits.isNaN b then -1
  else if DoubleBits.less a b then -1 else 1

def compareString (a b : Bytes) : Int := if a = b then 0 else if a < b then -1 else 1

def compareTemporal (a_less_b b_less_a : Bool) : Int :=
  if a_less_b then -1 else if b_less_a then 1 else 0

/-- Two values of one category that are not both lists.  `none` is `std::bad_variant_access`:
the branch of a temporal type reads the other value as that type. -/
def compareWithinCategory : Value → Value → Option Int
  | .int64 la, .double db => some (compareAsDouble (toDouble la) db)
  | .int64 la, .int64 lb => some (compareAsInt la.toInt lb.toInt)
  | .double la, .int64 ib => some (compareAsDouble la (toDouble ib))
  | .double la, .double lb => some (compareAsDouble la lb)
  | .string la, .string lb => some (compareString la lb)
  | .bool la, .bool lb => some (if la = lb then 0 else if la then 1 else -1)
  | .dateTime la, .dateTime lb => some (compareTemporal (dateTimeLess la lb) (dateTimeLess lb la))
  | .time la, .time lb => some (compareTemporal (timeLess la lb) (timeLess lb la))
  | .duration la, .duration lb => some (compareAsInt (durationOrderNanos la) (durationOrderNanos lb))
  | .dateTime _, _ | .time _, _ | .duration _, _ => none
  | .bytes la, .bytes lb => some (compareString la lb)
  | _, _ => some 0

mutual

def cypherCompareValues : Value → Value → Option Int
  | .list la, .list lb => compareLists la lb
  | a, b =>
    if isNull a && isNull b then some 0
    else if isNull a then some 1
    else if isNull b then some (-1)
    else if cypherTypeCategory a ≠ cypherTypeCategory b then
      some (if cypherTypeCategory a < cypherTypeCategory b then -1 else 1)
    else compareWithinCategory a b

def compareLists : List Value → List Value → Option Int
  | a :: as, b :: bs =>
    match cypherCompareValues a b with
    | some 0 => compareLists as bs
    | difference => difference
  | [], [] => some 0
  | [], _ :: _ => some (-1)
  | _ :: _, [] => some 1

end

end Eugraph.Dataset
