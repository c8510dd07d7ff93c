import Eugraph.Query.RuntimeValue

/-!
# Columns and chunks

`query/dataset/data_chunk.hpp` and `cell_access.hpp`: columnar blocks of rows.  A buffer
has one typed vector, chosen by its kind, and a validity bitmap; a column reads a buffer
directly, through a dictionary of row numbers, or broadcasts one value.

The chunks operators hand to each other have the identity selection, and their constant
columns are made by `Column::constant`, which leaves the type `NULL_TYPE`; neither the
selection vector of a chunk nor the typed constants of the evaluator are modelled.
-/

namespace Eugraph.Dataset

open Lib Option List

inductive BoundTypeKind
  | BOOL
  | INT64
  | DOUBLE
  | STRING
  | VERTEX
  | EDGE
  | PATH
  | VERTEX_REF
  | EDGE_KEY
  | PATH_TOPOLOGY
  | LIST
  | MAP
  | DATETIME
  | TIME
  | DURATION
  | ANY
  | NULL_TYPE
  deriving DecidableEq

/-- The element type of the vector a kind is stored in.  A heavy slot is a handle, empty
until something is published in it. -/
def Payload : BoundTypeKind → Type
  | .BOOL => Bool
  | .INT64 => Int64
  | .DOUBLE => DoubleBits
  | .STRING => Bytes
  | .VERTEX => Option VertexValue
  | .EDGE => Option EdgeValue
  | .PATH => Option (List Value)
  | .VERTEX_REF => VertexId
  | .EDGE_KEY => EdgeKey
  | .PATH_TOPOLOGY => Option PathTopology
  | .LIST => Option (List Value)
  | .MAP => Option (List (Bytes × Value))
  | .DATETIME => Value
  | .TIME => Value
  | .DURATION => Value
  | .ANY => Value
  | .NULL_TYPE => Value

/-- The element a grown vector is filled with. -/
def Payload.initial : (kind : BoundTypeKind) → Payload kind
  | .BOOL => false
  | .INT64 => (0 : Int64)
  | .DOUBLE => (0 : UInt64)
  | .STRING => ([] : Bytes)
  | .VERTEX => (none : Option VertexValue)
  | .EDGE => (none : Option EdgeValue)
  | .PATH => (none : Option (List Value))
  | .VERTEX_REF => INVALID_VERTEX_ID
  | .EDGE_KEY =>
    { id := INVALID_EDGE_ID, src_id := INVALID_VERTEX_ID, dst_id := INVALID_VERTEX_ID,
      label_id := INVALID_EDGE_LABEL_ID, seq := 0 : EdgeKey }
  | .PATH_TOPOLOGY => (none : Option PathTopology)
  | .LIST => (none : Option (List Value))
  | .MAP => (none : Option (List (Bytes × Value)))
  | .DATETIME => Value.null
  | .TIME => Value.null
  | .DURATION => Value.null
  | .ANY => Value.null
  | .NULL_TYPE => Value.null

/-- A stored element as a runtime value; an empty handle reads as null. -/
def Payload.toValue : (kind : BoundTypeKind) → Payload kind → Value
  | .BOOL, b => .bool b
  | .INT64, i => .int64 i
  | .DOUBLE, d => .double d
  | .STRING, s => .string s
  | .VERTEX, p => Option.elim p .null .vertex
  | .EDGE, p => Option.elim p .null .edge
  | .PATH, p => Option.elim p .null .path
  | .VERTEX_REF, id => .vertexRef id
  | .EDGE_KEY, k => .edgeKey k
  | .PATH_TOPOLOGY, p => Option.elim p .null .pathTopology
  | .LIST, p => Option.elim p .null .list
  | .MAP, p => Option.elim p .null .map
  | .DATETIME, v => v
  | .TIME, v => v
  | .DURATION, v => v
  | .ANY, v => v
  | .NULL_TYPE, v => v

/-- `static_cast<int64_t>` of a double: the fraction is cut off.  Outside the range of
`int64_t` the source has no defined result. -/
def truncateToInt64 (d : DoubleBits) : Int64 :=
  let exponent := DoubleBits.magnitude d / 2 ^ 52
  let fraction := DoubleBits.magnitude d % 2 ^ 52
  let significand := if exponent = 0 then fraction else 2 ^ 52 + fraction
  let whole : Nat :=
    if 1075 ≤ exponent then significand * 2 ^ (exponent - 1075)
    else significand / 2 ^ (1075 - exponent)
  .ofInt (if DoubleBits.negative d then -(whole : Int) else whole)

/-- What `setValue` assigns to a slot of a kind; `none` is a value of another
alternative, which leaves the slot as it was. -/
def Payload.assigned : (kind : BoundTypeKind) → Value → Option (Payload kind)
  | .BOOL, .bool b => some b
  | .INT64, .int64 i => some i
  | .INT64, .double d => some (truncateToInt64 d)
  | .DOUBLE, .double d => some d
  | .DOUBLE, .int64 i => some (toDouble i)
  | .STRING, .string s => some s
  | .VERTEX, .vertex v => some (some v)
  | .EDGE, .edge e => some (some e)
  | .PATH, .path elements => some (some elements)
  | .VERTEX_REF, .vertexRef id => some id
  | .EDGE_KEY, .edgeKey k => some k
  | .PATH_TOPOLOGY, .pathTopology p => some (some p)
  | .LIST, .list elements => some (some elements)
  | .MAP, .map entries => some (some entries)
  | .DATETIME, v => some v
  | .TIME, v => some v
  | .DURATION, v => some v
  | .ANY, v => some v
  | .NULL_TYPE, v => some v
  | _, _ => none

/-! ### Buffers -/

/-- The bitmap holds whole bytes; bit `i` says that row `i` is not null. -/
structure ColumnBuffer where
  type : BoundTypeKind
  data : List (Payload type)
  validity : List Bool

namespace ColumnBuffer

/-- The typed vector is resized together with `capacity`. -/
def capacity (b : ColumnBuffer) : Nat := b.data.length

/-- `validity.resize(bytes, 0xFF)`. -/
def resizeValidity (validity : List Bool) (bytes : Nat) : List Bool :=
  (validity ++ replicate (8 * bytes - validity.length) true).take (8 * bytes)

def reserve (b : ColumnBuffer) (n : Nat) : ColumnBuffer :=
  if n ≤ b.capacity then b
  else
    { type := b.type
      data := b.data ++ replicate (n - b.capacity) (Payload.initial b.type)
      validity := resizeValidity b.validity ((n + 7) / 8) }

def isNull (b : ColumnBuffer) (i : Nat) : Bool := !(b.validity[i]?).getD false

def setNull (b : ColumnBuffer) (i : Nat) : ColumnBuffer :=
  let validity :=
    if b.validity.length ≤ i then resizeValidity b.validity ((i + 8) / 8) else b.validity
  { b with validity := validity.set i false }

def setValid (b : ColumnBuffer) (i : Nat) : ColumnBuffer :=
  { b with validity := b.validity.set i true }

/-- A row past the vector is null where the vector holds runtime values.  For the other
kinds the source does not define the read; here it gives the element a grown vector is
filled with. -/
def getValue (b : ColumnBuffer) (i : Nat) : Value :=
  if b.isNull i then .null
  else Payload.toValue b.type ((b.data[i]?).getD (Payload.initial b.type))

def setValue (b : ColumnBuffer) (i : Nat) (val : Value) : ColumnBuffer :=
  if Dataset.isNull val then b.setNull i
  else
    let valid := b.setValid i
    match Payload.assigned b.type val with
    | some x => { valid with data := b.data.set i x }
    | none => valid

end ColumnBuffer

/-! ### Columns -/

/-- `FLAT` with or without a buffer, `CONSTANT`, `DICTIONARY`. -/
inductive Column
  | flat (buffer : ColumnBuffer)
  | unallocated (type : BoundTypeKind)
  | constant (value : Value)
  | dict (buffer : ColumnBuffer) (sel : List Nat)

namespace Column

/-- `Column::flat(type, capacity)`. -/
def ofType (type : BoundTypeKind) (capacity : Nat) : Column :=
  .flat ((⟨type, [], []⟩ : ColumnBuffer).reserve capacity)

def type : Column → BoundTypeKind
  | .flat buffer => buffer.type
  | .unallocated type => type
  | .constant _ => .NULL_TYPE
  | .dict buffer _ => buffer.type

def isNull (col : Column) (i : Nat) : Bool :=
  match col with
  | .flat buffer => buffer.isNull i
  | .unallocated _ => true
  | .constant value => Dataset.isNull value
  | .dict buffer sel => buffer.isNull ((sel[i]?).getD 0)

def getValue (col : Column) (i : Nat) : Value :=
  match col with
  | .flat buffer => buffer.getValue i
  | .unallocated _ => .null
  | .constant value => value
  | .dict buffer sel => buffer.getValue ((sel[i]?).getD 0)

def setValue (col : Column) (i : Nat) (val : Value) : Column :=
  match col with
  | .flat buffer => .flat (buffer.setValue i val)
  | .unallocated type => .flat ((⟨type, [], []⟩ : ColumnBuffer).setValue i val)
  | .constant _ => .constant val
  | .dict buffer sel => .dict buffer sel

def setNull (col : Column) (i : Nat) : Column :=
  match col with
  | .flat buffer => .flat (buffer.setNull i)
  | .unallocated type => .unallocated type
  | .constant _ => .constant .null
  | .dict buffer sel => .dict buffer sel

/-- The kinds `copyValueFrom` has a case for. -/
def copiesTyped : BoundTypeKind → Bool
  | .DATETIME | .TIME | .DURATION | .ANY | .NULL_TYPE => false
  | _ => true

/-- `copyValueFrom`; `none` when the fast path declines. -/
def copyValueFrom (dst src : Column) (src_row dst_row : Nat) : Option Column :=
  match dst, src with
  | .flat d, .flat s =>
    if h : s.type = d.type then
      if d.capacity ≤ dst_row ∨ s.capacity ≤ src_row then none
      else if s.isNull src_row then some (.flat (d.setNull dst_row))
      else if copiesTyped d.type then
        match s.data[src_row]? with
        | some x => some (.flat (({ d with data := d.data.set dst_row (h ▸ x) }).setValid dst_row))
        | none => none
      else none
    else none
  | _, _ => none

/-- `copyValueFrom`, or `setValue` of the value where that declines. -/
def copyCell (dst src : Column) (src_row dst_row : Nat) : Column :=
  match dst.copyValueFrom src src_row dst_row with
  | some col => col
  | none => dst.setValue dst_row (src.getValue src_row)

/-- The column an operator hands on when it keeps the given rows of a chunk: the buffer is
shared, the row numbers are mapped. -/
def gather (col : Column) (rows : List Nat) : Column :=
  match col with
  | .flat buffer => .dict buffer rows
  | .dict buffer sel => .dict buffer (rows.map fun i => (sel[i]?).getD 0)
  | .constant value => .constant value
  | .unallocated type => .unallocated type

/-! The typed readers, on a row that is not null. -/

def getBool (col : Column) (i : Nat) : Bool :=
  match col.getValue i with
  | .bool b => b
  | _ => false

def getInt64 (col : Column) (i : Nat) : Int64 :=
  match col.getValue i with
  | .int64 v => v
  | _ => 0

def getDouble (col : Column) (i : Nat) : DoubleBits :=
  match col.getValue i with
  | .double d => d
  | .int64 v => toDouble v
  | _ => 0

def columnStringView (col : Column) (i : Nat) : Bytes :=
  match col.getValue i with
  | .string s => s
  | _ => []

/-- A vertex in either form, or the integer form of internal slots. -/
def cellVertexId : Value → VertexId
  | .vertexRef id => id
  | .vertex v => v.id
  | .int64 v => v.toUInt64
  | _ => INVALID_VERTEX_ID

def columnVertexId (col : Column) (i : Nat) : VertexId := cellVertexId (col.getValue i)

end Column

/-! ### Chunks -/

structure DataChunk where
  columns : List Column
  count : Nat

namespace DataChunk

def DEFAULT_CAPACITY : Nat := 1024

def getValue (chunk : DataChunk) (col_idx row_idx : Nat) : Value :=
  (chunk.columns[col_idx]?).elim .null (·.getValue row_idx)

/-- One logical row. -/
def row (chunk : DataChunk) (i : Nat) : Row := chunk.columns.map (·.getValue i)

def rows (chunk : DataChunk) : List Row := (range chunk.count).map chunk.row

/-- The chunk that keeps the given rows. -/
def select (chunk : DataChunk) (kept : List Nat) : DataChunk :=
  { columns := chunk.columns.map (·.gather kept), count := kept.length }

end DataChunk

/-- The rows of a stream, in order. -/
def streamRows (stream : List DataChunk) : List Row := stream.flatMap (·.rows)

/-! ### Reading what was written -/

lemma Column.getValue_of_isNull {col : Column} {i : Nat} (h : col.isNull i = true) : col.getValue i = .null := by
  cases col with
  | flat buffer =>
    simp only [Column.isNull] at h
    simp [Column.getValue, ColumnBuffer.getValue, h]
  | unallocated type => rfl
  | constant value =>
    cases value <;> simp_all [Column.isNull, Dataset.isNull, Column.getValue]
  | dict buffer sel =>
    simp only [Column.isNull] at h
    simp [Column.getValue, ColumnBuffer.getValue, h]

lemma Column.getValue_gather (col : Column) {rows : List Nat} {k : Nat} (hk : k < rows.length) :
    (col.gather rows).getValue k = col.getValue rows[k] := by
  cases col with
  | flat buffer => simp [Column.gather, Column.getValue, hk]
  | unallocated type => rfl
  | constant value => rfl
  | dict buffer sel => simp [Column.gather, Column.getValue, hk]

lemma DataChunk.row_select (chunk : DataChunk) {kept : List Nat} {k : Nat}
    (hk : k < kept.length) : (chunk.select kept).row k = chunk.row kept[k] := by
  simp only [DataChunk.row, DataChunk.select, List.map_map]
  exact List.map_congr_left fun col _ => col.getValue_gather hk

lemma DataChunk.rows_select (chunk : DataChunk) (kept : List Nat) :
    (chunk.select kept).rows = kept.map chunk.row := by
  apply ext_getElem
  · simp [DataChunk.rows, DataChunk.select]
  · intro k hk hk'
    have hlt : k < kept.length := by simpa using hk'
    simp only [DataChunk.rows, getElem_map, getElem_range]
    exact chunk.row_select hlt

end Eugraph.Dataset
