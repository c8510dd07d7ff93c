import Eugraph.Query.ChunkWriter

/-!
# Values that do not fit their columns

A cell of a typed column keeps a value of its kind only.  A number written to a numeric
column of the other kind is converted, and of any other value nothing is kept: the slot is
not null and holds what a fresh slot holds.  What such a chunk hands on is therefore known
as long as every slot is written once.
-/

namespace Eugraph.Dataset

open List ColumnBuffer Payload DataChunk Cell

/-- What is read from a fresh slot after the value was written to it. -/
def coerced (kind : BoundTypeKind) (v : Value) : Value :=
  if isNull v then .null
  else toValue kind ((assigned kind v).getD (initial kind))

lemma coerced_eq_iff (kind : BoundTypeKind) (v : Value) : coerced kind v = v ↔ Fits kind v := by
  unfold coerced
  split
  next hnull =>
    have hv : v = .null := by cases v <;> simp_all [isNull]
    exact ⟨fun _ => .inl hnull, fun _ => hv.symm⟩
  next hnull =>
    constructor
    · intro h
      -- what a slot holds fits the kind of the slot
      rw [← h]
      exact fits_toValue kind _
    · intro hfits
      obtain ⟨x, hx, hback⟩ := hfits.resolve_left hnull
      rw [hx, Option.getD_some, hback]

/-- A flat column of the kind with room for `n` rows, unwritten from row `i` on. -/
def FreshFrom (kind : BoundTypeKind) (n i : Nat) (col : Column) : Prop :=
  ∃ data validity, col = .flat ⟨kind, data, validity⟩ ∧ n ≤ data.length ∧ n ≤ validity.length ∧
    ∀ j, i ≤ j → ∀ x, data[j]? = some x → x = initial kind

lemma freshFrom_ofType (kind : BoundTypeKind) (n : Nat) : FreshFrom kind n 0 (Column.ofType kind n) := by
  rcases Nat.eq_zero_or_pos n with rfl | hpos
  · exact ⟨[], [], rfl, Nat.zero_le _, Nat.zero_le _, fun j _ x hx => by simp at hx⟩
  · have hgrows : ¬ n ≤ (⟨kind, [], []⟩ : ColumnBuffer).capacity := by
      simp [capacity]
      omega
    refine ⟨replicate n (initial kind), resizeValidity [] ((n + 7) / 8), ?_, ?_, ?_, ?_⟩
    · rw [Column.ofType, reserve, if_neg hgrows]
      simp [capacity]
    · simp
    · simp [resizeValidity]
      omega
    · intro j _ x hx
      exact eq_of_mem_replicate (mem_of_getElem? hx)

section WritingAValue

variable {kind : BoundTypeKind} {n i : Nat} {col : Column}

/-- The slot reads back the coerced value, and no other row changes. -/
theorem FreshFrom.setValue (h : FreshFrom kind n i col) (hi : i < n) (v : Value) :
    FreshFrom kind n (i + 1) (col.setValue i v) ∧
      ∀ j, (col.setValue i v).getValue j = if j = i then coerced kind v else col.getValue j := by
  obtain ⟨data, validity, rfl, hdata, hvalid, hfresh⟩ := h
  by_cases hnull : isNull v = true
  · have hset : (Column.flat ⟨kind, data, validity⟩).setValue i v =
        .flat ((⟨kind, data, validity⟩ : ColumnBuffer).setNull i) := by
      simp [Column.setValue, setValue, hnull]
    have hlt : ¬ validity.length ≤ i := by omega
    have hread := getValue_setNull (b := ⟨kind, data, validity⟩) (i := i) (by simp only; omega)
    rw [hset]
    refine ⟨⟨data, validity.set i false, ?_, hdata, by simpa using hvalid,
      fun j hj => hfresh j (by omega)⟩, fun j => ?_⟩
    · simp [setNull, hlt]
    · rw [coerced, if_pos hnull]
      exact hread j
  · -- what cannot be assigned leaves the fresh element where it is
    have hset : (Column.flat ⟨kind, data, validity⟩).setValue i v =
        .flat ⟨kind, data.set i ((assigned kind v).getD (initial kind)), validity.set i true⟩ := by
      cases hx : assigned kind v with
      | some x => simp [Column.setValue, setValue, hnull, hx, setValid]
      | none =>
        have hlt : i < data.length := by omega
        have hsame := hfresh i (Nat.le_refl i) data[i] (getElem?_eq_getElem hlt)
        have hdata_eq : data.set i (initial kind) = data := by
          rw [← hsame]
          exact set_getElem_self hlt
        simp [Column.setValue, setValue, hnull, hx, setValid, hdata_eq]
    have hread := getValue_assigned (by omega : i < data.length)
      (by omega : i < validity.length) ((assigned kind v).getD (initial kind))
    rw [hset]
    refine ⟨⟨_, _, rfl, by simpa using hdata, by simpa using hvalid, ?_⟩, fun j => ?_⟩
    · intro j hj x hx
      rw [getElem?_set_ne (by omega)] at hx
      exact hfresh j (by omega) x hx
    · rw [coerced, if_neg hnull]
      exact hread j

end WritingAValue

variable {kinds : List BoundTypeKind}

/-- A row of values is read back coerced, and the rows before it are unchanged. -/
theorem writeCells_coerced {n i : Nat} {cols : List Column}
    (h : Forall₂ (FreshFrom · n i) kinds cols) (hi : i < n) (values : Row)
    (hlength : values.length = kinds.length) :
    Forall₂ (FreshFrom · n (i + 1)) kinds (writeCells i cols (values.map value)) ∧
      ∀ j, (writeCells i cols (values.map value)).map (·.getValue j) =
        if j = i then zipWith coerced kinds values else cols.map (·.getValue j) := by
  induction h generalizing values with
  | nil =>
    obtain rfl := eq_nil_of_length_eq_zero hlength
    exact ⟨.nil, fun j => by simp [writeCells]⟩
  | cons hcol _ ih =>
    cases values with
    | nil => simp at hlength
    | cons v values =>
      obtain ⟨hfresh, hread⟩ := hcol.setValue hi v
      obtain ⟨hfreshs, hreads⟩ := ih values (by simpa using hlength)
      refine ⟨.cons hfresh hfreshs, fun j => ?_⟩
      simp only [map_cons, writeCells, writeTo, hread, hreads, zipWith_cons_cons]
      split <;> rfl

namespace DataChunk

/-- The chunk holds the rows, in columns of the given kinds with fresh slots behind them. -/
structure HoldsFresh (kinds : List BoundTypeKind) (n : Nat) (chunk : DataChunk) (rows : List Row) :
    Prop where
  count_eq : chunk.count = rows.length
  fresh : Forall₂ (FreshFrom · n chunk.count) kinds chunk.columns
  rows_eq : chunk.rows = rows

lemma holdsFresh_ofKinds (kinds : List BoundTypeKind) (n : Nat) : HoldsFresh kinds n (ofKinds kinds n) [] := by
  refine ⟨rfl, ?_, rfl⟩
  simp only [ofKinds]
  induction kinds with
  | nil => exact .nil
  | cons kind kinds ih => exact .cons (freshFrom_ofType kind n) ih

lemma HoldsFresh.writeRow {n : Nat} {chunk : DataChunk}
    {rows : List Row} (h : HoldsFresh kinds n chunk rows) (hroom : rows.length < n) {values : Row}
    (hlength : values.length = kinds.length) :
    HoldsFresh kinds n (chunk.writeRow (values.map Cell.value))
      (rows ++ [zipWith coerced kinds values]) := by
  have hcount := h.count_eq
  obtain ⟨hfresh, hread⟩ := writeCells_coerced h.fresh (by omega) values hlength
  refine ⟨by simp [DataChunk.writeRow, hcount], hfresh, ?_⟩
  have hbefore : (range chunk.count).map (chunk.writeRow (values.map Cell.value)).row = rows := by
    rw [← h.rows_eq, DataChunk.rows]
    apply map_congr_left
    intro j hj
    have hlt : j < chunk.count := mem_range.mp hj
    have hne : ¬ j = chunk.count := by omega
    show (writeCells chunk.count chunk.columns (values.map Cell.value)).map (·.getValue j) = _
    rw [hread j, if_neg hne]
    rfl
  have hlast : (chunk.writeRow (values.map Cell.value)).row chunk.count = zipWith coerced kinds values := by
    show (writeCells chunk.count chunk.columns (values.map Cell.value)).map (·.getValue chunk.count) = _
    rw [hread, if_pos rfl]
  show (range (chunk.count + 1)).map (chunk.writeRow (values.map Cell.value)).row = _
  rw [range_succ, map_append, hbefore, map_singleton, hlast]

end DataChunk

namespace ChunkOutput

/-- The rows read back so far; the chunk being filled has room for one more. -/
def FillingFresh (kinds : List BoundTypeKind) (out : ChunkOutput) (rows : List Row) : Prop :=
  ∃ last, HoldsFresh kinds DEFAULT_CAPACITY out.current last ∧
    last.length < DEFAULT_CAPACITY ∧ rows = streamRows out.yielded ++ last

lemma fillingFresh_start (kinds : List BoundTypeKind) : FillingFresh kinds (start kinds) [] :=
  ⟨[], holdsFresh_ofKinds kinds _, by decide, rfl⟩

variable {out : ChunkOutput} {rows : List Row}

lemma FillingFresh.emitRow
    (h : FillingFresh kinds out rows) {values : Row} (hlength : values.length = kinds.length) :
    FillingFresh kinds (out.emitRow kinds (values.map value))
      (rows ++ [zipWith coerced kinds values]) := by
  obtain ⟨last, hholds, hroom, rfl⟩ := h
  have hnext := hholds.writeRow hroom hlength
  simp only [ChunkOutput.emitRow]
  split
  next =>
    refine ⟨[], holdsFresh_ofKinds kinds _, by decide, ?_⟩
    simp [streamRows, hnext.rows_eq]
  next hopen =>
    refine ⟨_, hnext, ?_, by simp⟩
    rw [← hnext.count_eq]
    omega

lemma FillingFresh.foldl_emitRow
    (h : FillingFresh kinds out rows) (lines : List Row)
    (hlength : ∀ values ∈ lines, values.length = kinds.length) :
    FillingFresh kinds
      (lines.foldl (fun out values => out.emitRow kinds (values.map value)) out)
      (rows ++ lines.map (zipWith coerced kinds)) := by
  induction lines generalizing out rows with
  | nil => simpa using h
  | cons values rest ih =>
    have hnext := h.emitRow (hlength values mem_cons_self)
    have hrest := ih hnext fun values hmem => hlength values (mem_cons_of_mem _ hmem)
    simpa using hrest

lemma FillingFresh.finish
    (h : FillingFresh kinds out rows) : streamRows out.finish = rows := by
  obtain ⟨last, hholds, -, rfl⟩ := h
  unfold ChunkOutput.finish
  split
  next => simp [streamRows, hholds.rows_eq]
  next hempty =>
    have hlast : last = [] := by
      apply eq_nil_of_length_eq_zero
      rw [← hholds.count_eq]
      omega
    simp [hlast]

end ChunkOutput

end Eugraph.Dataset
