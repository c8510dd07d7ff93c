import Eugraph.Lib.BoundedCache
import Eugraph.Query.VarLenTrails

/-!
# Counting the last hop

`PathCountPhysicalOp` counts the extensions of every row by one outgoing hop without making
them: the degree of the vertex the row ends at, less one for each earlier edge recorded as
leaving it.  Degrees are cached and the counters wrap at 64 bits.
-/

namespace Eugraph.Dataset

open Lib DataStore List Lib.BoundedCache DataChunk

structure PathCountPhysicalOp where
  source_column : Nat
  previous_edge_columns : List Nat
  edge_labels : List EdgeLabelId

/-- The source an edge was recorded with. -/
def edgeSource : Value → VertexId
  | .edgeKey k => k.src_id
  | .edge e => e.src_id
  | _ => INVALID_VERTEX_ID

/-- The bound of the cache; `env` is the number in the environment. -/
def pathCountCacheLimit (env : Option UInt64) : Nat := (env.getD 1048576).toNat

namespace PathCountPhysicalOp

variable (op : PathCountPhysicalOp) (store : GraphReads)

/-- No label stands for all of them. -/
def countsLabel (label_id : EdgeLabelId) : Bool := op.edge_labels = [] || op.edge_labels.contains label_id

def computed_degree (source : VertexId) : UInt64 :=
  .ofNat ((store.scanEdges source .OUT none).filter fun entry => op.countsLabel entry.edgeLabelId).length

structure CountState where
  total : UInt64
  degree_cache : BoundedCache VertexId UInt64

/-- One row of a chunk. -/
def countRow (cache_limit : Nat) (chunk : DataChunk) (s : CountState) (row : Nat) : CountState :=
  let source := Column.cellVertexId (chunk.getValue op.source_column row)
  if source = INVALID_VERTEX_ID then s
  else
    let (degree, degree_cache) :=
      fetch (op.computed_degree store) cache_limit s.degree_cache source
    let choices := op.previous_edge_columns.foldl (fun choices col =>
      if chunk.columns.length ≤ col then choices
      else if edgeSource (chunk.getValue col row) = source ∧ choices > 0 then choices - 1
      else choices) degree
    { total := s.total + choices, degree_cache := degree_cache }

/-- The number in the only row of the output. -/
def executeChunk (env : Option UInt64) (child : List DataChunk) : Int64 :=
  (child.foldl (fun s chunk => (range chunk.count).foldl (op.countRow store (pathCountCacheLimit env) chunk) s)
    ⟨0, []⟩).total.toInt64

/-! ### Row by row -/

def sourceOf (row : Row) : VertexId := Column.cellVertexId (row[op.source_column]?.getD .null)

/-- The earlier edges recorded as leaving the source. -/
def recorded (row : Row) : Nat :=
  op.previous_edge_columns.countP fun col => edgeSource (row[col]?.getD .null) = op.sourceOf row

def choices (row : Row) : Nat :=
  if op.sourceOf row = INVALID_VERTEX_ID then 0
  else (op.computed_degree store (op.sourceOf row)).toNat - op.recorded row

variable {op store}

/-- One is taken away for every column of the kind, as long as there is one. -/
theorem foldl_decrement (p : Nat → Bool) (cols : List Nat) (n : UInt64) :
    (cols.foldl (fun n col => if p col = true ∧ n > 0 then n - 1 else n) n).toNat = n.toNat - cols.countP p := by
  induction cols generalizing n with
  | nil => rfl
  | cons col rest ih =>
    rw [foldl_cons, ih, countP_cons]
    cases p col with
    | true =>
      simp only [true_and, if_true]
      split
      next hpos =>
        have hlt : 0 < n.toNat := UInt64.lt_iff_toNat_lt.mp hpos
        have hone : (1 : UInt64).toNat = 1 := rfl
        have hle : (1 : UInt64) ≤ n := UInt64.le_iff_toNat_le.mpr (by omega)
        rw [UInt64.toNat_sub_of_le _ _ hle]
        omega
      next hzero =>
        have hle : ¬ 0 < n.toNat := fun hlt => hzero (UInt64.lt_iff_toNat_lt.mpr hlt)
        omega
    | false => simp

lemma getValue_eq_row (chunk : DataChunk) (c i : Nat) : chunk.getValue c i = (chunk.row i)[c]?.getD .null := by
  unfold getValue row
  rw [getElem?_map]
  cases chunk.columns[c]? with
  | none => rfl
  | some col => rfl

lemma countRow_spec (cache_limit : Nat) (chunk : DataChunk) {s : CountState}
    (h : s.degree_cache.Agrees (op.computed_degree store)) (i : Nat) :
    (op.countRow store cache_limit chunk s i).total = s.total + .ofNat (op.choices store (chunk.row i)) ∧
      (op.countRow store cache_limit chunk s i).degree_cache.Agrees (op.computed_degree store) := by
  have hsource : Column.cellVertexId (chunk.getValue op.source_column i) = op.sourceOf (chunk.row i) := by
    rw [getValue_eq_row]
    rfl
  unfold countRow choices
  simp only [hsource]
  split
  next => exact ⟨(UInt64.add_zero s.total).symm, h⟩
  next hvalid =>
    refine ⟨?_, fetch_agrees h cache_limit _⟩
    simp only [fetch_value h]
    congr 1
    have hcolumn (n : UInt64) (col : Nat) :
        (if chunk.columns.length ≤ col then n
          else if edgeSource (chunk.getValue col i) = op.sourceOf (chunk.row i) ∧ n > 0 then n - 1 else n) =
        if decide (edgeSource ((chunk.row i)[col]?.getD .null) = op.sourceOf (chunk.row i)) = true ∧ n > 0
          then n - 1 else n := by
      simp only [decide_eq_true_eq]
      rw [← getValue_eq_row]
      split
      next hout =>
        -- a column that is not there holds no edge
        have hnull : chunk.getValue col i = .null := by
          unfold getValue
          rw [getElem?_eq_none hout]
          rfl
        rw [hnull, if_neg]
        exact fun hboth => hvalid hboth.1.symm
      next => rfl
    simp only [hcolumn]
    rw [← UInt64.toNat_inj, foldl_decrement, UInt64.toNat_ofNat_of_lt']
    · rfl
    · exact Nat.lt_of_le_of_lt (Nat.sub_le _ _) (UInt64.toNat_lt _)

lemma foldl_countRow_spec (cache_limit : Nat) (chunk : DataChunk) (is : List Nat) {s : CountState}
    (h : s.degree_cache.Agrees (op.computed_degree store)) :
    (is.foldl (op.countRow store cache_limit chunk) s).total =
        s.total + .ofNat ((is.map chunk.row).map (op.choices store)).sum ∧
      (is.foldl (op.countRow store cache_limit chunk) s).degree_cache.Agrees (op.computed_degree store) := by
  induction is generalizing s with
  | nil => exact ⟨(UInt64.add_zero s.total).symm, h⟩
  | cons i rest ih =>
    obtain ⟨htotal, hagrees⟩ := countRow_spec cache_limit chunk h i
    obtain ⟨htotal', hagrees'⟩ := ih hagrees
    refine ⟨?_, hagrees'⟩
    rw [foldl_cons, htotal', htotal, map_cons, map_cons, sum_cons, UInt64.ofNat_add, UInt64.add_assoc]

lemma foldl_chunks_spec (cache_limit : Nat) (child : List DataChunk) {s : CountState}
    (h : s.degree_cache.Agrees (op.computed_degree store)) :
    (child.foldl (fun s chunk => (range chunk.count).foldl (op.countRow store cache_limit chunk) s)
      s).total = s.total + .ofNat ((streamRows child).map (op.choices store)).sum := by
  induction child generalizing s with
  | nil => exact (UInt64.add_zero s.total).symm
  | cons chunk rest ih =>
    obtain ⟨htotal, hagrees⟩ := foldl_countRow_spec cache_limit chunk (range chunk.count) h
    rw [foldl_cons, ih hagrees, htotal]
    unfold streamRows
    rw [flatMap_cons, map_append, sum_append, rows, UInt64.ofNat_add, UInt64.add_assoc]

/-- The sum over the rows of the input, with any cache, as long as it fits. -/
theorem executeChunk_eq (env : Option UInt64) {child : List DataChunk}
    (hfits : ((streamRows child).map (op.choices store)).sum < 2 ^ 63) :
    (op.executeChunk store env child).toInt = ((streamRows child).map (op.choices store)).sum := by
  unfold executeChunk
  rw [foldl_chunks_spec _ child (agrees_empty _), UInt64.zero_add]
  generalize ((streamRows child).map (op.choices store)).sum = n at hfits
  have hnat : (UInt64.ofNat n).toNat = n := UInt64.toNat_ofNat_of_lt' (hfits.trans (by decide))
  show (UInt64.ofNat n).toBitVec.toInt = n
  rw [BitVec.toInt_eq_toNat_of_lt]
  · exact congrArg Nat.cast hnat
  · show 2 * (UInt64.ofNat n).toNat < 2 ^ 64
    omega

/-! ### Degrees -/

variable {g : Graph}

/-- The edges counted at a vertex. -/
def leaving (op : PathCountPhysicalOp) (g : Graph) (source : VertexId) : List StoredEdge :=
  g.edges.filter fun e => e.src = source && op.countsLabel e.label_id

lemma computed_degree_eq (h : store.Holds g) (source : VertexId) :
    op.computed_degree store source = .ofNat (op.leaving g source).length := by
  unfold computed_degree
  rw [((h.scan source .OUT none (by decide)).filter _).length_eq]
  unfold Graph.entries leaving
  rw [filter_map, length_map, filter_filter]
  congr 2
  apply filter_congr
  intro e _
  simp [passesFilter, Bool.and_comm]

lemma choices_eq (h : store.Holds g) (hends : ∀ e ∈ g.edges, e.src ≠ INVALID_VERTEX_ID) {row : Row}
    (hfits : (op.leaving g (op.sourceOf row)).length < 2 ^ 63) :
    op.choices store row = (op.leaving g (op.sourceOf row)).length - op.recorded row := by
  unfold choices
  split
  next hinvalid =>
    have hnone : op.leaving g (op.sourceOf row) = [] := by
      rw [hinvalid, eq_nil_iff_forall_not_mem]
      intro e he
      obtain ⟨hedge, hkept⟩ := mem_filter.mp he
      exact hends e hedge (of_decide_eq_true (Bool.and_eq_true_iff.mp hkept).1)
    rw [hnone]
    exact (Nat.zero_sub _).symm
  next => rw [computed_degree_eq h, UInt64.toNat_ofNat_of_lt' (hfits.trans (by decide))]

end PathCountPhysicalOp

end Eugraph.Dataset
