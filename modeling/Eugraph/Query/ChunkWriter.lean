import Eugraph.Query.DataChunk

/-!
# Writing rows into chunks

Operators build their output by writing one cell after another into flat columns of a
chosen kind and capacity.  A cell survives when its row is within the capacity and its
value is of the kind of the column; otherwise the slot keeps what it held.
-/

namespace Eugraph.Dataset

open Lib List ColumnBuffer Payload

/-! ### What a column of a kind can hold -/

/-- The value reads back from a slot of the kind it was assigned to. -/
def Fits (kind : BoundTypeKind) (v : Value) : Prop :=
  isNull v = true ∨ ∃ x, assigned kind v = some x ∧ toValue kind x = v

/-- Columns of runtime values hold everything. -/
theorem fits_any (v : Value) : Fits .ANY v := .inr ⟨v, rfl, rfl⟩

lemma fits_nullType (v : Value) : Fits .NULL_TYPE v := .inr ⟨v, rfl, rfl⟩

lemma fits_toValue (kind : BoundTypeKind) (x : Payload kind) : Fits kind (toValue kind x) := by
  cases kind with
  | VERTEX | EDGE | PATH | PATH_TOPOLOGY | LIST | MAP =>
    cases x with
    | none => exact .inl rfl
    | some y => exact .inr ⟨some y, rfl, rfl⟩
  | _ => exact .inr ⟨x, rfl, rfl⟩

lemma ColumnBuffer.fits_getValue (b : ColumnBuffer) (i : Nat) : Fits b.type (b.getValue i) := by
  unfold getValue
  split
  · exact .inl rfl
  · exact fits_toValue b.type _

/-- A value read from a column fits the columns of that column's type. -/
theorem Column.fits_getValue (col : Column) (i : Nat) : Fits col.type (col.getValue i) := by
  cases col with
  | flat buffer => exact buffer.fits_getValue i
  | unallocated type => exact .inl rfl
  | constant value => exact fits_nullType value
  | dict buffer sel => exact buffer.fits_getValue _

/-! ### Writing one cell -/

/-- A flat column of the kind with room for `n` rows. -/
def Writable (kind : BoundTypeKind) (n : Nat) (col : Column) : Prop :=
  ∃ b : ColumnBuffer, col = .flat b ∧ b.type = kind ∧ n ≤ b.data.length ∧ n ≤ b.validity.length

lemma writable_ofType (kind : BoundTypeKind) (n : Nat) : Writable kind n (Column.ofType kind n) := by
  rcases Nat.eq_zero_or_pos n with rfl | hpos
  · exact ⟨⟨kind, [], []⟩, rfl, rfl, Nat.zero_le _, Nat.zero_le _⟩
  · have hgrows : ¬ n ≤ (⟨kind, [], []⟩ : ColumnBuffer).capacity := by
      simp [capacity]
      omega
    refine ⟨_, rfl, ?_, ?_, ?_⟩
    · rw [reserve, if_neg hgrows]
    · rw [reserve, if_neg hgrows]
      simp [capacity]
    · rw [reserve, if_neg hgrows]
      simp [resizeValidity]
      omega

/-- The bitmap and the vector after row `i` was made valid and assigned. -/
theorem ColumnBuffer.getValue_assigned {kind : BoundTypeKind} {data : List (Payload kind)}
    {validity : List Bool} {i : Nat} (hdata : i < data.length) (hvalid : i < validity.length)
    (x : Payload kind) (j : Nat) :
    (⟨kind, data.set i x, validity.set i true⟩ : ColumnBuffer).getValue j =
      if j = i then toValue kind x else (⟨kind, data, validity⟩ : ColumnBuffer).getValue j := by
  by_cases hj : j = i
  · subst hj
    simp [getValue, isNull, hdata, hvalid]
  · have hne : i ≠ j := fun h => hj h.symm
    simp [getValue, isNull, hj, hne]

lemma ColumnBuffer.getValue_setNull {b : ColumnBuffer} {i : Nat} (hvalid : i < b.validity.length)
    (j : Nat) : (b.setNull i).getValue j = if j = i then .null else b.getValue j := by
  obtain ⟨type, data, validity⟩ := b
  simp only at hvalid
  have hlt : ¬ validity.length ≤ i := by omega
  by_cases hj : j = i
  · subst hj
    simp [getValue, isNull, setNull, hlt, hvalid]
  · have hne : i ≠ j := fun h => hj h.symm
    simp [getValue, isNull, setNull, hlt, hj, hne]
    rfl

section WritingACell

variable {kind : BoundTypeKind} {n i : Nat} {col : Column}

lemma Writable.setNull (h : Writable kind n col) (hi : i < n) : Writable kind n (col.setNull i) ∧
      ∀ j, (col.setNull i).getValue j = if j = i then .null else col.getValue j := by
  obtain ⟨b, rfl, htype, hdata, hvalid⟩ := h
  have hlt : ¬ b.validity.length ≤ i := by omega
  refine ⟨⟨b.setNull i, rfl, htype, hdata, ?_⟩, fun j => ?_⟩
  · simpa [setNull, hlt] using hvalid
  · exact getValue_setNull (by omega) j

/-- A value that fits is read back, and no other row changes. -/
theorem Writable.setValue (h : Writable kind n col) (hi : i < n) {v : Value} (hfits : Fits kind v) :
    Writable kind n (col.setValue i v) ∧
      ∀ j, (col.setValue i v).getValue j = if j = i then v else col.getValue j := by
  by_cases hnull : isNull v = true
  · have hv : v = .null := by cases v <;> simp_all [isNull]
    subst hv
    have hset : col.setValue i .null = col.setNull i := by
      obtain ⟨b, rfl, -⟩ := h
      simp [Column.setValue, Column.setNull, setValue, isNull]
    rw [hset]
    exact h.setNull hi
  · obtain ⟨x, hx, hback⟩ := hfits.resolve_left hnull
    obtain ⟨⟨type, data, validity⟩, rfl, rfl, hdata, hvalid⟩ := h
    simp only at hdata hvalid
    have hset : (Column.flat ⟨type, data, validity⟩).setValue i v =
        .flat ⟨type, data.set i x, validity.set i true⟩ := by
      simp [Column.setValue, setValue, hnull, hx, setValid]
    rw [hset]
    refine ⟨⟨_, rfl, rfl, by simpa using hdata, by simpa using hvalid⟩, fun j => ?_⟩
    have hread := getValue_assigned (by omega : i < data.length)
      (by omega : i < validity.length) x j
    rw [hback] at hread
    exact hread

/-- Copying a cell writes its value, by either path. -/
theorem Writable.copyCell (h : Writable kind n col) (hi : i < n) {src : Column} {src_row : Nat}
    (hfits : Fits kind (src.getValue src_row)) :
    Writable kind n (col.copyCell src src_row i) ∧ ∀ j, (col.copyCell src src_row i).getValue j =
        if j = i then src.getValue src_row else col.getValue j := by
  unfold Column.copyCell
  cases hcopy : col.copyValueFrom src src_row i with
  | none => exact h.setValue hi hfits
  | some copied =>
    obtain ⟨⟨type, data, validity⟩, rfl, rfl, hdata, hvalid⟩ := h
    simp only at hdata hvalid
    cases src with
    | flat s =>
      obtain ⟨stype, sdata, svalidity⟩ := s
      simp only [Column.copyValueFrom] at hcopy
      split at hcopy
      next htype =>
        subst htype
        split at hcopy
        next => cases hcopy
        next =>
          split at hcopy
          next hsnull =>
            obtain rfl := Option.some.inj hcopy
            have hvalue : (Column.flat ⟨stype, sdata, svalidity⟩).getValue src_row = .null :=
              Column.getValue_of_isNull hsnull
            rw [hvalue]
            have hflat : Writable stype n (.flat ⟨stype, data, validity⟩) := ⟨_, rfl, rfl, hdata, hvalid⟩
            exact hflat.setNull hi
          next hsvalid =>
            split at hcopy
            next =>
              split at hcopy
              next x hx =>
                obtain rfl := Option.some.inj hcopy
                have hvalue : (Column.flat ⟨stype, sdata, svalidity⟩).getValue src_row = toValue stype x := by
                  simp only at hx
                  simp [Column.getValue, getValue, hsvalid, hx]
                rw [hvalue]
                refine ⟨⟨_, rfl, rfl, by simpa [setValid] using hdata,
                  by simpa [setValid] using hvalid⟩, fun j => ?_⟩
                exact getValue_assigned (by omega : i < data.length)
                  (by omega : i < validity.length) x j
              next => cases hcopy
            next => cases hcopy
      next => cases hcopy
    | unallocated type => simp [Column.copyValueFrom] at hcopy
    | constant value => simp [Column.copyValueFrom] at hcopy
    | dict buffer sel => simp [Column.copyValueFrom] at hcopy

end WritingACell

/-! ### Writing a row -/

/-- What an operator writes into one column: a value, a cell of another column, or null. -/
inductive Cell
  | value (v : Value)
  | copied (src : Column) (row : Nat)
  | null

namespace Cell

/-- The value the cell stands for. -/
def content : Cell → Value
  | .value v => v
  | .copied src row => src.getValue row
  | .null => .null

def writeTo (cell : Cell) (col : Column) (i : Nat) : Column :=
  match cell with
  | .value v => col.setValue i v
  | .copied src row => col.copyCell src row i
  | .null => col.setNull i

end Cell

def writeCells (i : Nat) : List Column → List Cell → List Column
  | col :: cols, cell :: cells => cell.writeTo col i :: writeCells i cols cells
  | cols, _ => cols

namespace DataChunk

/-- Write one row behind the rows of the chunk. -/
def writeRow (chunk : DataChunk) (cells : List Cell) : DataChunk :=
  { columns := writeCells chunk.count chunk.columns cells, count := chunk.count + 1 }

/-- Flat columns of the given kinds with room for `n` rows. -/
def ofKinds (kinds : List BoundTypeKind) (n : Nat) : DataChunk :=
  { columns := kinds.map (Column.ofType · n), count := 0 }

/-- The chunk holds the rows, in columns of the given kinds with room for `n`. -/
structure Holds (kinds : List BoundTypeKind) (n : Nat) (chunk : DataChunk) (rows : List Row) :
    Prop where
  count_eq : chunk.count = rows.length
  writable : Forall₂ (Writable · n) kinds chunk.columns
  rows_eq : chunk.rows = rows

lemma holds_ofKinds (kinds : List BoundTypeKind) (n : Nat) : Holds kinds n (ofKinds kinds n) [] := by
  refine ⟨rfl, ?_, rfl⟩
  simp only [ofKinds]
  induction kinds with
  | nil => exact .nil
  | cons kind kinds ih => exact .cons (writable_ofType kind n) ih

end DataChunk

lemma Writable.write {kind : BoundTypeKind} {n i : Nat} {col : Column} (h : Writable kind n col)
    (hi : i < n) {cell : Cell} (hfits : Fits kind cell.content) :
    Writable kind n (cell.writeTo col i) ∧
      ∀ j, (cell.writeTo col i).getValue j = if j = i then cell.content else col.getValue j := by
  cases cell with
  | value v => exact h.setValue hi hfits
  | copied src row => exact h.copyCell hi hfits
  | null => exact h.setNull hi

variable {kinds : List BoundTypeKind} {cells : List Cell}

/-- A row of cells that fit is read back, and the rows before it are unchanged. -/
theorem writeCells_spec {n i : Nat} {cols : List Column}
    (h : Forall₂ (Writable · n) kinds cols) (hi : i < n)
    (hfits : Forall₂ (fun kind cell => Fits kind (Cell.content cell)) kinds cells) :
    Forall₂ (Writable · n) kinds (writeCells i cols cells) ∧ ∀ j, (writeCells i cols cells).map (·.getValue j) =
        if j = i then cells.map Cell.content else cols.map (·.getValue j) := by
  induction h generalizing cells with
  | nil =>
    cases hfits
    exact ⟨.nil, fun j => by simp [writeCells]⟩
  | cons hcol _ ih =>
    cases hfits with
    | cons hcell hrest =>
      obtain ⟨hwritable, hread⟩ := hcol.write hi hcell
      obtain ⟨hwritables, hreads⟩ := ih hrest
      refine ⟨.cons hwritable hwritables, fun j => ?_⟩
      simp only [writeCells, map_cons, hread, hreads]
      split <;> rfl

namespace DataChunk

lemma Holds.writeRow {n : Nat} {chunk : DataChunk} {rows : List Row}
    (h : Holds kinds n chunk rows) (hroom : rows.length < n)
    (hfits : Forall₂ (fun kind cell => Fits kind (Cell.content cell)) kinds cells) :
    Holds kinds n (chunk.writeRow cells) (rows ++ [cells.map Cell.content]) := by
  have hcount := h.count_eq
  obtain ⟨hwritable, hread⟩ := writeCells_spec h.writable (i := chunk.count) (by omega) hfits
  refine ⟨by simp [DataChunk.writeRow, hcount], hwritable, ?_⟩
  have hbefore : (range chunk.count).map (chunk.writeRow cells).row = rows := by
    rw [← h.rows_eq, DataChunk.rows]
    apply map_congr_left
    intro j hj
    have hlt : j < chunk.count := mem_range.mp hj
    have hne : ¬ j = chunk.count := by omega
    show (writeCells chunk.count chunk.columns cells).map (·.getValue j) = _
    rw [hread j, if_neg hne]
    rfl
  have hlast : (chunk.writeRow cells).row chunk.count = cells.map Cell.content := by
    show (writeCells chunk.count chunk.columns cells).map (·.getValue chunk.count) = _
    rw [hread, if_pos rfl]
  show (range (chunk.count + 1)).map (chunk.writeRow cells).row = _
  rw [range_succ, map_append, hbefore, map_singleton, hlast]

/-- Rows written one after another into a chunk with room for them. -/
theorem Holds.foldl_writeRow {n : Nat} {chunk : DataChunk}
    {rows : List Row} (h : Holds kinds n chunk rows) (lines : List (List Cell))
    (hroom : rows.length + lines.length ≤ n)
    (hfits : ∀ cells ∈ lines, Forall₂ (fun kind cell => Fits kind (Cell.content cell)) kinds cells) :
    Holds kinds n (lines.foldl DataChunk.writeRow chunk)
      (rows ++ lines.map fun cells => cells.map Cell.content) := by
  induction lines generalizing chunk rows with
  | nil => simpa using h
  | cons cells rest ih =>
    simp only [length_cons] at hroom
    have hnext := h.writeRow (by omega) (hfits cells mem_cons_self)
    have hrest := ih hnext (by simp; omega)
      (fun cells hmem => hfits cells (mem_cons_of_mem _ hmem))
    simpa using hrest

end DataChunk

/-! ### Writing rows into a stream of chunks -/

/-- The chunks already handed on and the one being filled. -/
structure ChunkOutput where
  yielded : List DataChunk
  current : DataChunk

namespace ChunkOutput

/-- Write a row; a full chunk is handed on and a fresh one started. -/
def emitRow (kinds : List BoundTypeKind) (out : ChunkOutput) (cells : List Cell) : ChunkOutput :=
  let current := out.current.writeRow cells
  if DataChunk.DEFAULT_CAPACITY ≤ current.count then
    { yielded := out.yielded ++ [current]
      current := DataChunk.ofKinds kinds DataChunk.DEFAULT_CAPACITY }
  else { out with current := current }

def start (kinds : List BoundTypeKind) : ChunkOutput :=
  { yielded := [], current := DataChunk.ofKinds kinds DataChunk.DEFAULT_CAPACITY }

/-- A last chunk that holds rows is handed on too. -/
def finish (out : ChunkOutput) : List DataChunk :=
  if 0 < out.current.count then out.yielded ++ [out.current] else out.yielded

/-- The rows written so far; the chunk being filled has room for one more. -/
def Filling (kinds : List BoundTypeKind) (out : ChunkOutput) (rows : List Row) : Prop :=
  ∃ last, DataChunk.Holds kinds DataChunk.DEFAULT_CAPACITY out.current last ∧
    last.length < DataChunk.DEFAULT_CAPACITY ∧ rows = streamRows out.yielded ++ last

lemma filling_start (kinds : List BoundTypeKind) : Filling kinds (start kinds) [] :=
  ⟨[], DataChunk.holds_ofKinds kinds _, by decide, rfl⟩

variable {out : ChunkOutput} {rows : List Row}

lemma Filling.emitRow
    (h : Filling kinds out rows)
    (hfits : Forall₂ (fun kind cell => Fits kind (Cell.content cell)) kinds cells) :
    Filling kinds (out.emitRow kinds cells) (rows ++ [cells.map Cell.content]) := by
  obtain ⟨last, hholds, hroom, rfl⟩ := h
  have hnext := hholds.writeRow hroom hfits
  simp only [ChunkOutput.emitRow]
  split
  next =>
    refine ⟨[], DataChunk.holds_ofKinds kinds _, by decide, ?_⟩
    simp [streamRows, hnext.rows_eq]
  next hopen =>
    refine ⟨_, hnext, ?_, by simp⟩
    rw [← hnext.count_eq]
    exact Nat.not_le.mp hopen

lemma Filling.foldl_emitRow
    (h : Filling kinds out rows) (lines : List (List Cell))
    (hfits : ∀ cells ∈ lines, Forall₂ (fun kind cell => Fits kind (Cell.content cell)) kinds cells) :
    Filling kinds (lines.foldl (ChunkOutput.emitRow kinds) out)
      (rows ++ lines.map fun cells => cells.map Cell.content) := by
  induction lines generalizing out rows with
  | nil => simpa using h
  | cons cells rest ih =>
    have hnext := h.emitRow (hfits cells mem_cons_self)
    have hrest := ih hnext (fun cells hmem => hfits cells (mem_cons_of_mem _ hmem))
    simpa using hrest

lemma Filling.finish
    (h : Filling kinds out rows) : streamRows out.finish = rows := by
  obtain ⟨last, hholds, -, rfl⟩ := h
  unfold ChunkOutput.finish
  split
  next => simp [streamRows, hholds.rows_eq]
  next hempty =>
    have hlast : last = [] := by
      apply eq_nil_of_length_eq_zero
      rw [← hholds.count_eq]
      omega
    simp [hlast]

end ChunkOutput

end Eugraph.Dataset
