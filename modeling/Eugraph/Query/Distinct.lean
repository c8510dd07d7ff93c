import Eugraph.Lib.FirstOccurrence
import Eugraph.Query.DataChunk
import Eugraph.Query.ValueEquality

/-!
# DISTINCT

`query/dataset/row_identity.hpp` and `distinct_physical_op.cpp`.  A row is recognised by
its digest: one number for each column, an entity's id or the hash of the value.  The
operator emits a row when no earlier row of the stream has its digest; what it should
emit are the rows no earlier row is content-equal to.

A digest reads less of a value than its content: vertices and edges are ids, all temporals
are null, lists, paths and maps are their parts.  Where `std::hash` adds no collision of its
own, the operator is exact just if rows read alike are those of equal content.
-/

namespace Eugraph.Dataset

open Lib Payload List Column

/-! ### Row identity -/

/-- `is_entity` is recorded and not compared. -/
structure RowDigest where
  cells : List UInt64
  is_entity : List Bool

def RowDigest.equal (a b : RowDigest) : Bool := a.cells = b.cells

section Digests

variable (std : StdHash)

/-- The digest of a value and whether it is an entity's id. -/
def cellDigest : Value → UInt64 × Bool
  | .vertexRef id => (id, true)
  | .vertex v => (v.id, true)
  | .edgeKey k => (k.id, true)
  | .edge e => (e.id, true)
  | v => (valueHash std v, false)

/-- The digest of a cell, read by the type of its column. -/
def cellDigestColumn (col : Column) (row : Nat) : UInt64 × Bool :=
  if col.isNull row then (0, false)
  else
    match col.type with
    | .BOOL => (std.bool (col.getBool row), false)
    | .INT64 => (std.int64 (col.getInt64 row), false)
    | .DOUBLE => (std.double (col.getDouble row), false)
    | .STRING => (std.string (col.columnStringView row), false)
    | .VERTEX_REF | .VERTEX =>
      let id := col.columnVertexId row
      if id = INVALID_VERTEX_ID then cellDigest std (col.getValue row) else (id, true)
    | _ => cellDigest std (col.getValue row)

def digestChunkRow (chunk : DataChunk) (row : Nat) : RowDigest :=
  { cells := chunk.columns.map fun col => (cellDigestColumn std col row).1
    is_entity := chunk.columns.map fun col => (cellDigestColumn std col row).2 }

end Digests

/-! ### The operator -/

namespace DistinctPhysicalOp

variable (std : StdHash)

/-- The rows of one chunk whose digest is new, and the digests met so far. -/
def scanChunk (chunk : DataChunk) : List RowDigest → List Nat → List RowDigest × List Nat
  | seen, [] => (seen, [])
  | seen, i :: rest =>
    let key := digestChunkRow std chunk i
    if seen.any (·.equal key) then scanChunk chunk seen rest
    else
      let later := scanChunk chunk (seen ++ [key]) rest
      (later.1, i :: later.2)

def executeFrom : List RowDigest → List DataChunk → List DataChunk
  | _, [] => []
  | seen, chunk :: rest =>
    let (seen', new_sel) := scanChunk std chunk seen (range chunk.count)
    if new_sel = [] then executeFrom seen' rest
    else chunk.select new_sel :: executeFrom seen' rest

def executeChunk (input : List DataChunk) : List DataChunk := executeFrom std [] input

end DistinctPhysicalOp

open DistinctPhysicalOp

/-! ### A digest is a function of the row -/

section DigestOfRow

variable (std : StdHash)

def rowDigest (row : Row) : List UInt64 := row.map fun v => (cellDigest std v).1

lemma vertexRef_digest (id : VertexId) :
    (if id = INVALID_VERTEX_ID then cellDigest std (.vertexRef id) else (id, true)).1 = id := by
  split <;> rfl

/-- The digest by type agrees with the digest of the value, for what a buffer of that
type can hold. -/
theorem cellDigest_of_buffer (b : ColumnBuffer) (i : Nat) {col : Column} {row : Nat}
    (htype : col.type = b.type) (hvalue : col.getValue row = b.getValue i)
    (hnull : col.isNull row = b.isNull i) :
    (cellDigestColumn std col row).1 = (cellDigest std (col.getValue row)).1 := by
  obtain ⟨type, data, validity⟩ := b
  by_cases h : (⟨type, data, validity⟩ : ColumnBuffer).isNull i = true
  · simp [cellDigestColumn, hnull, h, hvalue, ColumnBuffer.getValue, cellDigest, valueHash]
  · have hread : col.getValue row = toValue type ((data[i]?).getD (initial type)) := by
      rw [hvalue, ColumnBuffer.getValue, if_neg h]
    simp only [cellDigestColumn, hnull, h, htype, Bool.false_eq_true, if_false]
    generalize (data[i]?).getD (initial type) = x at hread
    cases type with
    | VERTEX =>
      cases x with
      | none =>
        simp [columnVertexId, cellVertexId, hread, toValue, INVALID_VERTEX_ID]
      | some v => simp [columnVertexId, cellVertexId, hread, toValue, cellDigest]
    | VERTEX_REF =>
      have hid : col.columnVertexId row = x := by
        rw [columnVertexId, hread]
        rfl
      rw [hread, hid]
      exact vertexRef_digest std x
    | BOOL => simp [getBool, hread, toValue, cellDigest, valueHash]
    | INT64 => simp [getInt64, hread, toValue, cellDigest, valueHash]
    | DOUBLE => simp [getDouble, hread, toValue, cellDigest, valueHash]
    | STRING => simp [columnStringView, hread, toValue, cellDigest, valueHash]
    | _ => simp

/-- The typed shortcuts compute the digest of the value they avoid building. -/
theorem cellDigestColumn_eq (col : Column) (row : Nat) :
    (cellDigestColumn std col row).1 = (cellDigest std (col.getValue row)).1 := by
  cases col with
  | flat buffer => exact cellDigest_of_buffer std buffer row rfl rfl rfl
  | dict buffer sel => exact cellDigest_of_buffer std buffer ((sel[row]?).getD 0) rfl rfl rfl
  | unallocated type =>
    simp [cellDigestColumn, Column.isNull, Column.getValue, cellDigest, valueHash]
  | constant value =>
    cases value <;>
      simp [cellDigestColumn, Column.isNull, Column.getValue, Column.type, isNull, cellDigest, valueHash]

lemma digestChunkRow_cells (chunk : DataChunk) (i : Nat) :
    (digestChunkRow std chunk i).cells = rowDigest std (chunk.row i) := by
  simp [digestChunkRow, rowDigest, DataChunk.row, cellDigestColumn_eq]

end DigestOfRow

/-! ### What the operator emits -/

section Emitted

variable (std : StdHash)

def sameDigest (a b : Row) : Bool := rowDigest std a = rowDigest std b

/-- The digests met so far are those of the rows met so far. -/
def Met (seen : List RowDigest) (before : List Row) : Prop :=
  ∀ d : RowDigest, seen.any (·.equal d) = before.any fun row => rowDigest std row = d.cells

variable {seen : List RowDigest} {before : List Row}

lemma Met.dropped {d : RowDigest} {row : Row}
    (h : Met std seen before) (hcells : d.cells = rowDigest std row)
    (hseen : seen.any (·.equal d) = true) : Met std seen (before ++ [row]) := by
  intro e
  rw [any_append, ← h e]
  by_cases he : rowDigest std row = e.cells
  · have hmet : seen.any (·.equal e) = true := by
      rw [h e, ← he, ← hcells, ← h d, hseen]
    simp [hmet]
  · simp [he]

lemma Met.kept {d : RowDigest} {row : Row}
    (h : Met std seen before) (hcells : d.cells = rowDigest std row) :
    Met std (seen ++ [d]) (before ++ [row]) := by
  intro e
  rw [any_append, any_append, h e]
  simp [RowDigest.equal, hcells]

/-- One chunk: the rows kept are the first occurrences of their digest, behind those
already met. -/
theorem scanChunk_spec (chunk : DataChunk) (indices : List Nat) (h : Met std seen before) :
    (scanChunk std chunk seen indices).2.map chunk.row =
        firstsFrom (sameDigest std) before (indices.map chunk.row) ∧
      Met std (scanChunk std chunk seen indices).1
        (before ++ indices.map chunk.row) := by
  induction indices generalizing seen before with
  | nil => simpa [scanChunk, firstsFrom] using h
  | cons i rest ih =>
    have hcells := digestChunkRow_cells std chunk i
    have hmet := h (digestChunkRow std chunk i)
    rw [hcells] at hmet
    by_cases hseen : seen.any (·.equal (digestChunkRow std chunk i)) = true
    · have hold : before.any (sameDigest std · (chunk.row i)) = true := by
        rw [← hseen, hmet]
        rfl
      simpa [scanChunk, hseen, firstsFrom, hold] using ih (h.dropped std hcells hseen)
    · have hnew : ¬ before.any (sameDigest std · (chunk.row i)) = true := by
        intro hany
        exact hseen (hmet.trans hany)
      simpa [scanChunk, hseen, firstsFrom, hnew] using ih (h.kept std hcells)

lemma executeFrom_rows (input : List DataChunk) (h : Met std seen before) :
    streamRows (executeFrom std seen input) =
      firstsFrom (sameDigest std) before (streamRows input) := by
  induction input generalizing seen before with
  | nil => rfl
  | cons chunk rest ih =>
    obtain ⟨hrows, hnext⟩ := scanChunk_spec std chunk (range chunk.count) h
    have hlater := ih hnext
    have hsplit : streamRows (chunk :: rest) = (range chunk.count).map chunk.row ++ streamRows rest := rfl
    rw [hsplit, firstsFrom_append, ← hrows, ← hlater]
    simp only [executeFrom]
    split
    next hempty => simp [hempty]
    next =>
      show (chunk.select _).rows ++ _ = _
      rw [DataChunk.rows_select]
      rfl

/-- The operator emits the first row of each digest. -/
theorem executeChunk_rows (input : List DataChunk) : streamRows (executeChunk std input) =
      firsts (sameDigest std) (streamRows input) :=
  executeFrom_rows std input (fun _ => rfl)

end Emitted

/-! ### What a digest reads -/

section Forms

mutual

/-- What the hash reads of a value; no parts are hashed as null is. -/
def hashForm : Value → Value
  | .double d => .double (canonicalDouble d)
  | .vertex v => .vertexRef v.id
  | .edge e => .vertexRef e.id
  | .edgeKey k => .edgeKey ⟨k.id, k.src_id, k.dst_id, 0, 0⟩
  | .pathTopology p => ofParts ((p.vertex_ids ++ p.edge_ids).map .vertexRef)
  | .list elements => ofParts (hashForms elements)
  | .path elements => ofParts (hashForms elements)
  | .map entries => ofParts (entryForms entries)
  | .bytes [] => .null
  | .dateTime _ => .null
  | .time _ => .null
  | .duration _ => .null
  | v => v

def hashForms : List Value → List Value
  | [] => []
  | v :: rest => hashForm v :: hashForms rest

def entryForms : List (Bytes × Value) → List Value
  | [] => []
  | (key, v) :: rest => .string key :: hashForm v :: entryForms rest

def ofParts : List Value → Value
  | [] => .null
  | parts => .list parts

end

variable {std : StdHash}

end Forms

/-! ### DISTINCT is exact where rows read alike are equal -/

/-- Two relations keep the same rows just if at every row they agree on whether an earlier
one is the same. -/
theorem DistinctPhysicalOp.rows_eq_iff (std : StdHash) (input : List DataChunk) :
    streamRows (executeChunk std input) = firsts rowEqual (streamRows input) ↔
      ∀ before row after, streamRows input = before ++ row :: after →
        ((∃ earlier ∈ before, rowDigest std earlier = rowDigest std row) ↔
          ∃ earlier ∈ before, rowEqual earlier row = true) := by
  rw [executeChunk_rows, firsts_eq_iff]
  have hstep (before : List Row) (row : Row) : (before.any (sameDigest std · row) = before.any (rowEqual · row)) ↔
        ((∃ earlier ∈ before, rowDigest std earlier = rowDigest std row) ↔
          ∃ earlier ∈ before, rowEqual earlier row = true) := by
    rw [Bool.eq_iff_iff]
    simp [sameDigest]
  constructor
  · intro h before row after heq
    exact (hstep before row).mp (h before row after heq)
  · intro h before row after heq
    exact (hstep before row).mpr (h before row after heq)

/-- One digest for entities of one kind is one id, and so is equality. -/
lemma digest_iff_of_entity (std : StdHash) {kind : EntityKind} {v w : Value}
    (hv : ∃ id, entity v = some (kind, id)) (hw : ∃ id, entity w = some (kind, id)) :
    (cellDigest std v).1 = (cellDigest std w).1 ↔ valueContentEquals v w = true := by
  obtain ⟨id, hv⟩ := hv
  obtain ⟨id', hw⟩ := hw
  cases v <;> cases w <;> simp_all [entity, cellDigest, valueContentEquals, plainEquals, isNull]

lemma rowDigest_iff_of_entities (std : StdHash) {kinds : List EntityKind} {row other : Row}
    (hrow : List.Forall₂ (fun kind v => ∃ id, entity v = some (kind, id)) kinds row)
    (hother : List.Forall₂ (fun kind v => ∃ id, entity v = some (kind, id)) kinds other) :
    rowDigest std row = rowDigest std other ↔ rowEqual row other = true := by
  induction hrow generalizing other with
  | nil =>
    cases hother
    simp [rowDigest, rowEqual, elementsContentEqual]
  | cons hv hrest ih =>
    cases hother with
    | cons hw hrest' =>
      have htail := ih hrest'
      simp only [rowDigest, rowEqual, map_cons, cons.injEq, length_cons, Nat.add_right_cancel_iff,
        elementsContentEqual, Bool.and_eq_true, decide_eq_true_eq] at htail ⊢
      rw [htail, digest_iff_of_entity std hv hw]
      tauto

/-- Columns of vertices and columns of edges, references and objects mixed, are always
told apart, whatever `std::hash` is. -/
theorem DistinctPhysicalOp.exact_of_entities (std : StdHash) (input : List DataChunk) (kinds : List EntityKind)
    (hentities : ∀ row ∈ streamRows input,
      List.Forall₂ (fun kind v => ∃ id, entity v = some (kind, id)) kinds row) :
    streamRows (executeChunk std input) = firsts rowEqual (streamRows input) := by
  rw [rows_eq_iff]
  intro before row after heq
  refine exists_congr fun earlier => and_congr_right fun hmem => ?_
  have hearlier := hentities earlier (heq ▸ mem_append_left _ hmem)
  have hrow := hentities row (heq ▸ mem_append_right _ mem_cons_self)
  exact rowDigest_iff_of_entities std hearlier hrow

/-! ### Numbers and durations -/

end Eugraph.Dataset
