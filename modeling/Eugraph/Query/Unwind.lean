import Eugraph.Query.ColumnCoercion

/-!
# UNWIND

`unwind_physical_op.cpp` has two strategies.  Where some column that is passed through has a
heavy kind, each row of the input gets chunks of its own, in which these columns are
constant.  Otherwise rows are written one after another into typed columns.

The constant columns keep any value.  The typed ones keep what fits the kind that the plan
gives them, and a projection below hands on a column as it is, whatever the plan says of it.
-/

namespace Eugraph.Dataset

open List ChunkOutput DataChunk

structure UnwindPhysicalOp where
  /-- `eval.evaluate(list_expr_, ..)` and `borrowList`: the list of a row, if it is not null. -/
  list_expr : DataChunk → Nat → Option (List Value)
  /-- The kinds of the columns of the child; the element comes behind them. -/
  input_types : List BoundTypeKind

namespace UnwindPhysicalOp

variable (op : UnwindPhysicalOp)

/-- The planner appends a column for anything. -/
def output_types : List BoundTypeKind := op.input_types ++ [.ANY]

def isHeavyPassthrough : BoundTypeKind → Bool
  | .LIST => true
  | .MAP => true
  | .VERTEX => true
  | .EDGE => true
  | .PATH => true
  | _ => false

def heavyPassthrough : Bool := op.input_types.any isHeavyPassthrough

/-- The values of the input columns in a row. -/
def rowValues (chunk : DataChunk) (r : Nat) : Row :=
  (range op.input_types.length).map fun c => chunk.getValue c r

/-! ### Constant columns -/

/-- Pieces of at most `DEFAULT_CAPACITY`. -/
def slices : List Value → List (List Value)
  | [] => []
  | elem :: rest =>
    (elem :: rest).take DataChunk.DEFAULT_CAPACITY :: slices ((elem :: rest).drop DataChunk.DEFAULT_CAPACITY)
termination_by elements => elements.length
decreasing_by simp [DataChunk.DEFAULT_CAPACITY]

/-- A chunk of its own for a slice of the list of one row. -/
def sliceChunk (chunk : DataChunk) (r : Nat) (slice : List Value) : DataChunk :=
  let passthrough := (op.rowValues chunk r).map Column.constant
  let elements := (range slice.length).foldl (fun col k => col.setValue k (slice.getD k .null))
    (Column.ofType .ANY slice.length)
  { columns := passthrough ++ [elements], count := slice.length }

def constantChunks (chunk : DataChunk) (r : Nat) : List DataChunk :=
  match op.list_expr chunk r with
  | none => []
  | some list => (slices list).map (op.sliceChunk chunk r)

def executeConstant (input : List DataChunk) : List DataChunk :=
  input.flatMap fun chunk => (range chunk.count).flatMap (op.constantChunks chunk)

/-! ### Rows written one after another -/

/-- The loop over the list of one row. -/
def emitElements (chunk : DataChunk) (out : ChunkOutput) (r : Nat) : ChunkOutput :=
  match op.list_expr chunk r with
  | none => out
  | some list =>
    let row_vals := op.rowValues chunk r
    list.foldl (fun out elem => out.emitRow op.output_types ((row_vals ++ [elem]).map Cell.value)) out

def executeAccumulating (input : List DataChunk) : List DataChunk :=
  (input.foldl (fun out chunk => (range chunk.count).foldl (op.emitElements chunk) out)
    (start op.output_types)).finish

def executeChunk (input : List DataChunk) : List DataChunk :=
  if op.heavyPassthrough then op.executeConstant input else op.executeAccumulating input

/-! ### What it should emit -/

def unwoundRow (chunk : DataChunk) (r : Nat) : List Row :=
  ((op.list_expr chunk r).getD []).map fun elem => chunk.row r ++ [elem]

/-- The rows of the input in order, each once for every element of its list. -/
def unwound (input : List DataChunk) : List Row :=
  input.flatMap fun chunk => (range chunk.count).flatMap (op.unwoundRow chunk)

/-- The values that are passed through fit the kinds that the plan gives their columns. -/
def Fitting (input : List DataChunk) : Prop :=
  ∀ chunk ∈ input, ∀ r < chunk.count, ∀ elem ∈ (op.list_expr chunk r).getD [],
    Forall₂ Fits op.input_types (chunk.row r)

/-- The child hands on as many columns as it has in the plan. -/
def WidthsAgree (input : List DataChunk) : Prop :=
  ∀ chunk ∈ input, chunk.columns.length = op.input_types.length

variable {op}

lemma rowValues_eq {chunk : DataChunk} (hwidth : chunk.columns.length = op.input_types.length) (r : Nat) :
    op.rowValues chunk r = chunk.row r := by
  unfold rowValues row
  rw [← hwidth]
  ext1 c
  by_cases hc : c < chunk.columns.length
  · simp [getValue, hc]
  · simp [hc]

lemma flatten_slices (list : List Value) : (slices list).flatten = list := by
  induction list using slices.induct with
  | case1 => rw [slices, flatten_nil]
  | case2 elem rest ih => rw [slices, flatten_cons, ih, take_append_drop]

/-! ### The constant strategy -/

lemma filled (slice : List Value) (n : Nat) (hn : n ≤ slice.length) :
    let col := (range n).foldl (fun col k => col.setValue k (slice.getD k .null))
      (Column.ofType .ANY slice.length)
    Writable .ANY slice.length col ∧ ∀ k < n, col.getValue k = slice.getD k .null := by
  induction n with
  | zero => exact ⟨writable_ofType .ANY slice.length, fun k hk => absurd hk (Nat.not_lt_zero k)⟩
  | succ n ih =>
    obtain ⟨hwritable, hread⟩ := ih (by omega)
    obtain ⟨hnext, hget⟩ := hwritable.setValue (by omega : n < slice.length)
      (fits_any (slice.getD n .null))
    simp only [range_succ, foldl_append, foldl_cons, foldl_nil]
    refine ⟨hnext, fun k hk => ?_⟩
    rw [hget k]
    split
    next heq => rw [heq]
    next hne => exact hread k (by omega)

/-- Constant columns carry any value. -/
theorem rows_sliceChunk (chunk : DataChunk) (r : Nat) (slice : List Value) :
    (op.sliceChunk chunk r slice).rows = slice.map fun elem => op.rowValues chunk r ++ [elem] := by
  obtain ⟨-, hread⟩ := filled slice slice.length (Nat.le_refl _)
  apply ext_getElem
  · simp [rows, sliceChunk]
  · intro k hk hk'
    have hlt : k < slice.length := by simpa using hk'
    have helem := hread k hlt
    have hconst : ((op.rowValues chunk r).map Column.constant).map (·.getValue k) = op.rowValues chunk r := by
      rw [map_map]
      exact map_id _
    simp only [rows, getElem_map, getElem_range, row, sliceChunk,
      map_append, hconst, map_cons, map_nil, helem]
    simp [hlt]

lemma streamRows_constantChunks (chunk : DataChunk) (r : Nat) : streamRows (op.constantChunks chunk r) =
      ((op.list_expr chunk r).getD []).map fun elem => op.rowValues chunk r ++ [elem] := by
  unfold constantChunks
  cases op.list_expr chunk r with
  | none => rfl
  | some list =>
    simp only [Option.getD_some]
    rw [streamRows, flatMap_map]
    simp only [rows_sliceChunk]
    rw [← map_flatMap, flatMap_id', flatten_slices]

lemma executeConstant_rows {input : List DataChunk} (hwidth : op.WidthsAgree input) :
    streamRows (op.executeConstant input) = op.unwound input := by
  rw [streamRows, executeConstant, unwound, flatMap_assoc]
  refine flatMap_congr fun chunk hchunk => ?_
  rw [flatMap_assoc]
  refine flatMap_congr fun r _ => ?_
  rw [unwoundRow, ← rowValues_eq (hwidth chunk hchunk)]
  exact streamRows_constantChunks chunk r

/-! ### The accumulating strategy -/

lemma emitElements_filling {chunk : DataChunk} {out : ChunkOutput} {rows : List Row}
    (hwidth : chunk.columns.length = op.input_types.length)
    (h : FillingFresh op.output_types out rows) (r : Nat) :
    FillingFresh op.output_types (op.emitElements chunk out r)
      (rows ++ (op.unwoundRow chunk r).map (zipWith coerced op.output_types)) := by
  unfold emitElements unwoundRow
  cases op.list_expr chunk r with
  | none => simpa using h
  | some list =>
    simp only [Option.getD_some]
    have hlines := h.foldl_emitRow (list.map fun elem => chunk.row r ++ [elem]) (by
      intro values hvalues
      obtain ⟨elem, -, rfl⟩ := mem_map.mp hvalues
      simp [row, hwidth, output_types])
    rw [foldl_map] at hlines
    rw [rowValues_eq hwidth]
    exact hlines

/-- Every row is emitted, with its values as its columns keep them. -/
theorem executeAccumulating_rows {input : List DataChunk} (hwidth : op.WidthsAgree input) :
    streamRows (op.executeAccumulating input) = (op.unwound input).map (zipWith coerced op.output_types) := by
  have hrows (chunk : DataChunk) (hchunk : chunk.columns.length = op.input_types.length)
      (rs : List Nat) : ∀ out rows, FillingFresh op.output_types out rows →
        FillingFresh op.output_types (rs.foldl (op.emitElements chunk) out)
          (rows ++ (rs.flatMap (op.unwoundRow chunk)).map (zipWith coerced op.output_types)) := by
    induction rs with
    | nil =>
      intro out rows h
      simpa using h
    | cons r rest ih =>
      intro out rows h
      have hrest := ih _ _ (emitElements_filling hchunk h r)
      simpa using hrest
  have hchunks : ∀ (chunks : List DataChunk), op.WidthsAgree chunks → ∀ out rows,
      FillingFresh op.output_types out rows → FillingFresh op.output_types
          (chunks.foldl (fun out chunk => (range chunk.count).foldl (op.emitElements chunk) out) out)
          (rows ++ (op.unwound chunks).map (zipWith coerced op.output_types)) := by
    intro chunks
    induction chunks with
    | nil =>
      intro _ out rows h
      simpa [unwound] using h
    | cons chunk rest ih =>
      intro hwidths out rows h
      have hchunk := hrows chunk (hwidths chunk mem_cons_self) (range chunk.count) _ _ h
      have hrest := ih (fun other hother => hwidths other (mem_cons_of_mem _ hother)) _ _ hchunk
      simpa [unwound] using hrest
  have hall := hchunks input hwidth _ _ (fillingFresh_start op.output_types)
  rw [executeAccumulating, hall.finish, nil_append]

lemma zipWith_coerced_eq_iff {kinds : List BoundTypeKind} {values : Row} (hlength : values.length = kinds.length) :
    zipWith coerced kinds values = values ↔ Forall₂ Fits kinds values := by
  induction kinds generalizing values with
  | nil =>
    obtain rfl := eq_nil_of_length_eq_zero hlength
    simp
  | cons kind kinds ih =>
    cases values with
    | nil => simp at hlength
    | cons v values =>
      rw [zipWith_cons_cons, List.cons.injEq, coerced_eq_iff, ih (by simpa using hlength),
        forall₂_cons]

lemma coerced_unwound_iff {input : List DataChunk} (hwidth : op.WidthsAgree input) :
    (op.unwound input).map (zipWith coerced op.output_types) = op.unwound input ↔ op.Fitting input := by
  have hline (chunk : DataChunk) (hchunk : chunk.columns.length = op.input_types.length) (r : Nat) (elem : Value) :
      zipWith coerced op.output_types (chunk.row r ++ [elem]) = chunk.row r ++ [elem] ↔
        Forall₂ Fits op.input_types (chunk.row r) := by
    have hlength : (chunk.row r).length = op.input_types.length := by simp [row, hchunk]
    rw [output_types, zipWith_append hlength.symm, ← zipWith_coerced_eq_iff hlength]
    have helem : coerced .ANY elem = elem := (coerced_eq_iff .ANY elem).mpr (fits_any elem)
    rw [zipWith_cons_cons, helem, zipWith_nil_left]
    exact append_left_inj [elem]
  have hmap : (op.unwound input).map (zipWith coerced op.output_types) = op.unwound input ↔
      ∀ line ∈ op.unwound input, zipWith coerced op.output_types line = line := by
    have hself : (op.unwound input).map id = op.unwound input := map_id _
    conv_lhs => rw [← hself, map_map]
    exact map_inj_left
  rw [hmap]
  constructor
  · intro h chunk hchunk r hr elem helem
    refine (hline chunk (hwidth chunk hchunk) r elem).mp (h _ ?_)
    exact mem_flatMap.mpr ⟨chunk, hchunk, mem_flatMap.mpr ⟨r, mem_range.mpr hr, mem_map.mpr ⟨elem, helem, rfl⟩⟩⟩
  · intro h line hmem
    obtain ⟨chunk, hchunk, hrow⟩ := mem_flatMap.mp hmem
    obtain ⟨r, hr, helem⟩ := mem_flatMap.mp hrow
    obtain ⟨elem, hlist, rfl⟩ := mem_map.mp helem
    exact (hline chunk (hwidth chunk hchunk) r elem).mpr (h chunk hchunk r (mem_range.mp hr) elem hlist)

/-- The rows are exact if and only if a column is heavy or the values fit, and the
strategies agree if and only if the values fit. -/
theorem executeChunk_unwound_iff {input : List DataChunk} (hwidth : op.WidthsAgree input) :
    (streamRows (op.executeChunk input) = op.unwound input ↔ op.heavyPassthrough = true ∨ op.Fitting input) ∧
      (streamRows (op.executeConstant input) = streamRows (op.executeAccumulating input) ↔ op.Fitting input) := by
  constructor
  · unfold executeChunk
    split
    next hheavy => simp [hheavy, executeConstant_rows hwidth]
    next hlight =>
      rw [executeAccumulating_rows hwidth, coerced_unwound_iff hwidth]
      simp [hlight]
  · rw [executeConstant_rows hwidth, executeAccumulating_rows hwidth, eq_comm, coerced_unwound_iff hwidth]

/-! ### Numbers of both kinds

`UNWIND [1, 2.5] AS y WITH y UNWIND [10] AS x RETURN y, x`.  The first list has doubles for
elements by its type; its numbers are kept as they are in a column for anything, and so is
that column by the projection. -/

/-- The column that the projection hands on; 2.5 is the second number. -/
def mixedNumbers : DataChunk :=
  ⟨[.flat ⟨.ANY, [.int64 1, .double 0x4004000000000000], replicate 8 true⟩], 2⟩

/-- `UNWIND [10]`, over a column that the plan takes for one of the kind. -/
def unwindTen (kind : BoundTypeKind) : UnwindPhysicalOp where
  list_expr _ _ := some [.int64 10]
  input_types := [kind]

/-- In a column for anything both numbers pass through. -/
theorem executeChunk_unwound_mixedNumbers : streamRows ((unwindTen .ANY).executeChunk [mixedNumbers]) =
      [[.int64 1, .int64 10], [.double 0x4004000000000000, .int64 10]] := by
  have hwidth : (unwindTen .ANY).WidthsAgree [mixedNumbers] := by
    intro chunk hchunk
    obtain rfl := mem_singleton.mp hchunk
    rfl
  refine ((executeChunk_unwound_iff hwidth).1.mpr (.inr ?_)).trans rfl
  intro chunk hchunk r hr elem _
  obtain rfl := mem_singleton.mp hchunk
  exact .cons (fits_any _) .nil

/-- In a column of doubles the integer becomes 1.0. -/
theorem unwind_changes_integer : streamRows ((unwindTen .DOUBLE).executeChunk [mixedNumbers]) =
        [[.double 0x3ff0000000000000, .int64 10], [.double 0x4004000000000000, .int64 10]] ∧
      (unwindTen .DOUBLE).unwound [mixedNumbers] = [[.int64 1, .int64 10], [.double 0x4004000000000000, .int64 10]] ∧
      streamRows ((unwindTen .DOUBLE).executeConstant [mixedNumbers]) =
        (unwindTen .DOUBLE).unwound [mixedNumbers] := by
  have hwidth : (unwindTen .DOUBLE).WidthsAgree [mixedNumbers] := by
    intro chunk hchunk
    obtain rfl := mem_singleton.mp hchunk
    rfl
  refine ⟨?_, rfl, executeConstant_rows hwidth⟩
  have hlight : (unwindTen .DOUBLE).heavyPassthrough = false := rfl
  rw [executeChunk, hlight, if_neg Bool.false_ne_true, executeAccumulating_rows hwidth]
  rfl

end UnwindPhysicalOp

end Eugraph.Dataset
