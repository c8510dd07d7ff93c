import Eugraph.Types

/-!
# Runtime values: equality and hashing

`query/dataset/row.hpp`: the values a query computes with, their three-valued equality,
the total equality of hash containers and the hash that goes with it.  The heavy kinds
are shared handles in the source; a published handle is never empty, so a value here
carries its payload.  `std::hash` is a parameter.
-/

namespace Eugraph.Dataset

open Lib

/-! ### Values -/

structure EdgeKey where
  id : EdgeId
  src_id : VertexId
  dst_id : VertexId
  label_id : EdgeLabelId
  seq : UInt32
  deriving DecidableEq

structure PathTopology where
  vertex_ids : List VertexId
  edge_ids : List EdgeId
  edge_label_ids : List EdgeLabelId
  seqs : List UInt32
  edge_src_ids : List VertexId
  edge_dst_ids : List VertexId
  deriving DecidableEq

structure VertexValue where
  id : VertexId
  properties : List (LabelId × Properties)
  labels : Option (List LabelId)
  deleted : Bool
  deriving DecidableEq

structure EdgeValue where
  id : EdgeId
  src_id : VertexId
  dst_id : VertexId
  label_id : EdgeLabelId
  seq : UInt64
  properties : Option Properties
  deleted : Bool
  deriving DecidableEq

/-- The variant, alternatives in declaration order. -/
inductive Value
  | null
  | bool (b : Bool)
  | int64 (i : Int64)
  | double (bits : DoubleBits)
  | string (s : Bytes)
  | vertexRef (id : VertexId)
  | edgeKey (k : EdgeKey)
  | pathTopology (p : PathTopology)
  | vertex (v : VertexValue)
  | edge (e : EdgeValue)
  | path (elements : List Value)
  | dateTime (tv : DateTimeValue)
  | time (tv : TimeValue)
  | duration (dv : DurationValue)
  | list (elements : List Value)
  | map (entries : List (Bytes × Value))
  | bytes (data : Bytes)

instance : Inhabited Value := ⟨.null⟩

abbrev Row := List Value

def isNull : Value → Bool
  | .null => true
  | _ => false

/-! ### `static_cast<double>(int64_t)` -/

/-- The pattern of a natural number rounded to the nearest double, ties to even.  The
leading bit of the 53-bit significand is added into the exponent field. -/
def roundedPattern (n : Nat) : Nat :=
  if n = 0 then 0
  else
    let e := n.log2
    if e ≤ 52 then (e + 1022) * 2 ^ 52 + n * 2 ^ (52 - e)
    else
      let unit := 2 ^ (e - 52)
      let q := n / unit
      let r := n % unit
      let up := if unit < 2 * r ∨ (2 * r = unit ∧ q % 2 = 1) then 1 else 0
      (e + 1022) * 2 ^ 52 + q + up

/-- `static_cast<double>(i)`. -/
def toDouble (i : Int64) : DoubleBits :=
  let bits := roundedPattern i.toInt.natAbs
  .ofNat (if i.toInt < 0 then 2 ^ 63 + bits else bits)

/-! ### Three-valued equality -/

inductive EntityKind
  | vertex
  | edge
  deriving DecidableEq

/-- What a graph entity is compared by, whichever way it is written. -/
def entity : Value → Option (EntityKind × UInt64)
  | .vertexRef id => some (.vertex, id)
  | .vertex v => some (.vertex, v.id)
  | .edgeKey k => some (.edge, k.id)
  | .edge e => some (.edge, e.id)
  | _ => none

/-- The variant's own `==` on two values of one alternative; the handles are compared
before it is reached. -/
def sameAlternativeEquals : Value → Value → Bool
  | .bool a, .bool b => a = b
  | .int64 a, .int64 b => a = b
  | .double a, .double b => DoubleBits.equal a b
  | .string a, .string b => a = b
  | .dateTime a, .dateTime b => a.equal b
  | .time a, .time b => a.equal b
  | .duration a, .duration b => a = b
  | _, _ => false

/-- The part of `valueEquals` behind the container cases, on two values that are not
null. -/
def plainEquals (a b : Value) : Bool :=
  match entity a, entity b with
  | some (ka, ia), some (kb, ib) => ka = kb && ia = ib
  | _, _ =>
    match a, b with
    | .pathTopology pa, .pathTopology pb => pa = pb
    | .bytes ba, .bytes bb => ba = bb
    | .int64 i, .double d => DoubleBits.equal (toDouble i) d
    | .double d, .int64 i => DoubleBits.equal d (toDouble i)
    | a, b => sameAlternativeEquals a b

/-- One turn of a container loop: a difference ends it, a null is remembered. -/
def conclude : Option Bool → Option Bool → Option Bool
  | some false, _ => some false
  | _, some false => some false
  | none, _ => none
  | some true, rest => rest

mutual

def valueEquals : Value → Value → Option Bool
  | .list la, .list lb =>
    if la.length ≠ lb.length then some false else elementsEqual la lb
  | .map ma, .map mb =>
    if ma.length ≠ mb.length then some false else entriesEqual ma mb
  | .path pa, .path pb =>
    if pa.length ≠ pb.length then some false else elementsEqual pa pb
  | a, b => if isNull a || isNull b then none else some (plainEquals a b)

def elementsEqual : List Value → List Value → Option Bool
  | a :: as, b :: bs => conclude (valueEquals a b) (elementsEqual as bs)
  | _, _ => some true

/-- Each entry is compared with the first entry of the other map under its key. -/
def entriesEqual : List (Bytes × Value) → List (Bytes × Value) → Option Bool
  | [], _ => some true
  | (key, lhs) :: rest, mb =>
    conclude
      (match mb.find? (·.1 = key) with
        | some (_, rhs) => valueEquals lhs rhs
        | none => some false)
      (entriesEqual rest mb)

end

/-! ### Total equality -/

mutual

def valueContentEquals : Value → Value → Bool
  | .null, .null => true
  | .list la, .list lb => la.length = lb.length && elementsContentEqual la lb
  | .map ma, .map mb => ma.length = mb.length && entriesFound ma mb
  | .path pa, .path pb => pa.length = pb.length && elementsContentEqual pa pb
  | a, b => if isNull a || isNull b then false else plainEquals a b

def elementsContentEqual : List Value → List Value → Bool
  | a :: as, b :: bs => valueContentEquals a b && elementsContentEqual as bs
  | _, _ => true

/-- Each entry has an entry of the other map with its key and its content. -/
def entriesFound : List (Bytes × Value) → List (Bytes × Value) → Bool
  | [], _ => true
  | (key, lhs) :: rest, mb =>
    (mb.any fun entry => key = entry.1 && valueContentEquals lhs entry.2) &&
      entriesFound rest mb

end

/-! ### Hashing -/

/-- The instances of `std::hash` that `ValueHash` calls. -/
structure StdHash where
  bool : Bool → UInt64
  int64 : Int64 → UInt64
  double : DoubleBits → UInt64
  string : Bytes → UInt64
  uint64 : UInt64 → UInt64
  uint8 : UInt8 → UInt64

/-- Integer instances of `std::hash` that hash a number to itself. -/
def identityHash : StdHash where
  bool b := if b then 1 else 0
  int64 i := i.toUInt64
  double d := if DoubleBits.rank d = 0 then 0 else d
  string s := s.foldl (fun h byte => h * 31 + byte.toUInt64) 0
  uint64 n := n
  uint8 n := n.toUInt64

/-- `h ^= x + 0x9e3779b9 + (h << 6) + (h >> 2)`. -/
def combine (h x : UInt64) : UInt64 :=
  h ^^^ (x + 0x9e3779b9 + (h <<< (6 : UInt64)) + (h >>> (2 : UInt64)))

section Hashing

variable (std : StdHash)

mutual

def valueHash : Value → UInt64
  | .null => 0
  | .bool b => std.bool b
  | .int64 i => std.int64 i
  | .double bits => std.double bits
  | .string s => std.string s
  | .vertexRef id => std.uint64 id
  | .edgeKey k => combine (combine (std.uint64 k.id) (std.uint64 k.src_id)) (std.uint64 k.dst_id)
  | .pathTopology p =>
    (p.vertex_ids ++ p.edge_ids).foldl (fun h id => combine h (std.uint64 id)) 0
  | .vertex v => std.uint64 v.id
  | .edge e => std.uint64 e.id
  | .path elements => elementsHash 0 elements
  | .list elements => elementsHash 0 elements
  | .map entries => entriesHash 0 entries
  | .bytes data => data.foldl (fun h byte => combine h (std.uint8 byte)) 0
  -- the temporal kinds have no branch of their own
  | .dateTime _ => 0
  | .time _ => 0
  | .duration _ => 0

def elementsHash (h : UInt64) : List Value → UInt64
  | [] => h
  | elem :: rest => elementsHash (combine h (valueHash elem)) rest

def entriesHash (h : UInt64) : List (Bytes × Value) → UInt64
  | [] => h
  | (k, v) :: rest => entriesHash (combine (combine h (std.string k)) (valueHash v)) rest

end

/-- `RowHash`. -/
def rowHash (row : Row) : UInt64 := elementsHash std 0 row

end Hashing

/-- `RowEqual`. -/
def rowEqual (a b : Row) : Bool := a.length = b.length && elementsContentEqual a b

end Eugraph.Dataset
