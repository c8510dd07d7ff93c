import Eugraph.Lib.ByteString

/-!
# Identifiers, property values and their C++ equality

The data types of `common/types/graph_types.hpp` and `temporal_value.hpp` that
the storage layer reads and writes.  Strings are byte strings, a double is its
64-bit pattern, and the integer fields keep the widths of the source.
-/

namespace Eugraph

open Lib

abbrev VertexId := UInt64
abbrev EdgeId := UInt64
abbrev LabelId := UInt16
abbrev EdgeLabelId := UInt16
abbrev PropId := UInt16

def INVALID_LABEL_ID : LabelId := 0
def INVALID_EDGE_LABEL_ID : EdgeLabelId := 0
def INVALID_VERTEX_ID : VertexId := 0
def INVALID_EDGE_ID : EdgeId := 0

inductive Direction
  | OUT
  | IN
  | BOTH
  deriving DecidableEq, Repr

/-! ### Temporal values -/

inductive DateTimeKind
  | DATE
  | LOCAL_DATETIME
  | DATETIME
  deriving DecidableEq, Repr

inductive TimeKind
  | LOCAL_TIME
  | TIME
  deriving DecidableEq, Repr

/-- A zone name is absent or a non-empty name; absence is `none`. -/
abbrev TzName := Option Bytes

structure DateTimeValue where
  year : Int32
  nanos : Int32
  tz_offset_sec : Int32
  month : Int8
  day : Int8
  hour : Int8
  minute : Int8
  second : Int8
  kind : DateTimeKind
  tz_name : TzName
  deriving DecidableEq

structure TimeValue where
  nanos : Int32
  tz_offset_sec : Int32
  hour : Int8
  minute : Int8
  second : Int8
  kind : TimeKind
  tz_name : TzName
  deriving DecidableEq

structure DurationValue where
  months : Int64
  days : Int64
  seconds : Int64
  nanos : Int64
  deriving DecidableEq

/-- `DateTimeValue::operator==`: only the fields its kind uses.  The source compares the handles
of the zone names, and here equal names share one handle, as the copies of a value do: two
equal names read separately are unequal in the source and equal here. -/
def DateTimeValue.equal (a b : DateTimeValue) : Bool :=
  a.kind = b.kind &&
    match a.kind with
    | .DATE => a.year = b.year && a.month = b.month && a.day = b.day
    | .LOCAL_DATETIME =>
      a.year = b.year && a.month = b.month && a.day = b.day && a.hour = b.hour &&
        a.minute = b.minute && a.second = b.second && a.nanos = b.nanos
    | .DATETIME =>
      a.year = b.year && a.month = b.month && a.day = b.day && a.hour = b.hour &&
        a.minute = b.minute && a.second = b.second && a.nanos = b.nanos &&
        a.tz_offset_sec = b.tz_offset_sec && a.tz_name = b.tz_name

/-- `TimeValue::operator==`, with zone names compared as for `DateTimeValue`. -/
def TimeValue.equal (a b : TimeValue) : Bool :=
  a.kind = b.kind &&
    match a.kind with
    | .LOCAL_TIME =>
      a.hour = b.hour && a.minute = b.minute && a.second = b.second && a.nanos = b.nanos
    | .TIME =>
      a.hour = b.hour && a.minute = b.minute && a.second = b.second && a.nanos = b.nanos &&
        a.tz_offset_sec = b.tz_offset_sec && a.tz_name = b.tz_name

/-! ### Doubles as bit patterns -/

/-- The 64-bit pattern of a `double`. -/
abbrev DoubleBits := UInt64

namespace DoubleBits

/-- The pattern without its sign bit. -/
def magnitude (bits : DoubleBits) : Nat := bits.toNat % 2 ^ 63

def negative (bits : DoubleBits) : Bool := 2 ^ 63 ≤ bits.toNat

/-- Exponent all ones and a non-zero fraction. -/
def isNaN (bits : DoubleBits) : Bool := 0x7FF0000000000000 < magnitude bits

/-- Position of a double on the number line: the IEEE magnitude is ordered as
its pattern, and both zeros are at `0`. -/
def rank (bits : DoubleBits) : Int :=
  if negative bits then -(magnitude bits : Int) else magnitude bits

/-- The C++ `a == b` on doubles. -/
def equal (a b : DoubleBits) : Bool := !isNaN a && !isNaN b && rank a = rank b

/-- The C++ `a < b` on doubles. -/
def less (a b : DoubleBits) : Bool := !isNaN a && !isNaN b && rank a < rank b

end DoubleBits

/-! ### Property values -/

/-- `std::variant` of `graph_types.hpp`, alternatives in declaration order. -/
inductive PropertyValue
  | null
  | bool (b : Bool)
  | int64 (i : Int64)
  | double (bits : DoubleBits)
  | string (s : Bytes)
  | int64Array (xs : List Int64)
  | doubleArray (xs : List DoubleBits)
  | stringArray (xs : List Bytes)
  | dateTime (tv : DateTimeValue)
  | time (tv : TimeValue)
  | duration (tv : DurationValue)
  | dateTimeArray (xs : List DateTimeValue)
  | timeArray (xs : List TimeValue)
  | durationArray (xs : List DurationValue)
  | bytes (xs : Bytes)
  deriving DecidableEq

/-- Elementwise comparison of two vectors, `false` on different lengths. -/
def listEqual {α : Type} (eq : α → α → Bool) : List α → List α → Bool
  | [], [] => true
  | a :: as, b :: bs => eq a b && listEqual eq as bs
  | _, _ => false

/-- `operator==` of the variant: the same alternative with equal contents. -/
def PropertyValue.equal : PropertyValue → PropertyValue → Bool
  | null, null => true
  | bool a, bool b => a = b
  | int64 a, int64 b => a = b
  | double a, double b => DoubleBits.equal a b
  | string a, string b => a = b
  | int64Array a, int64Array b => a = b
  | doubleArray a, doubleArray b => listEqual DoubleBits.equal a b
  | stringArray a, stringArray b => a = b
  | dateTime a, dateTime b => a.equal b
  | time a, time b => a.equal b
  | duration a, duration b => a = b
  | dateTimeArray a, dateTimeArray b => listEqual DateTimeValue.equal a b
  | timeArray a, timeArray b => listEqual TimeValue.equal a b
  | durationArray a, durationArray b => a = b
  | bytes a, bytes b => a = b
  | _, _ => false

/-- Equality of value tuples, column by column. -/
abbrev tupleEqual : List PropertyValue → List PropertyValue → Bool :=
  listEqual PropertyValue.equal

/-- A `QueryException` of kind Arithmetic. -/
structure ArithmeticError where
  message : String
  deriving DecidableEq

/-- Property slots of one label group, indexed by property id. -/
abbrev Properties := List (Option PropertyValue)

end Eugraph
