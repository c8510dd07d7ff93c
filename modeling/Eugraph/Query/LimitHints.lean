import Eugraph.Lib.SortedTop
import Eugraph.Query.CypherOrder
import Eugraph.Query.EdgeOperators
import Eugraph.Query.LimitOperator
import Eugraph.Query.ChunkWriter

/-!
# Limit hints

`LimitPhysicalOp` tells the operators below it how many rows it wants.  A hint travels
through the operators whose `supportsLimitPushdown` says so; a full edge scan stops reading
when it has met the hint, a sort keeps the first rows only.  A sort also hands the hint on
to the operators that feed it.
-/

namespace Eugraph.Dataset

open Lib Lib.SortedTop List Function DataChunk
open Query (EdgeTypeIndexEntry)

/-! ### The full edge scan -/

/-- An expand: over all edges of the labels in the order of the edge-type index, or row by
row from its child.  `neighbours` is what it yields in the second mode, where it never reads
its hint. -/
structure ExpandPhysicalOp where
  full_edge_scan : Bool
  full_scan_labels : List EdgeLabelId
  undirected : Bool
  scanEdgesByType : EdgeLabelId → List (List EdgeTypeIndexEntry)
  neighbours : List DataChunk
  limit_hint : Option Nat

/-- `limit_hint_ = limit_hint_ ? min(*limit_hint_, limit) : limit`. -/
def narrowHint (hint : Option Nat) (limit : Nat) : Option Nat :=
  some (hint.elim limit (min · limit))

/-- Three columns over the edges, the vectors assigned directly. -/
def edgeChunk (keys : List EdgeKey) : DataChunk :=
  let validity := replicate (8 * ((keys.length + 7) / 8)) true
  { columns :=
      [ .flat ⟨.VERTEX_REF, keys.map EdgeKey.src_id, validity⟩,
        .flat ⟨.EDGE_KEY, keys, validity⟩,
        .flat ⟨.VERTEX_REF, keys.map EdgeKey.dst_id, validity⟩ ]
    count := keys.length }

def edgeRow (k : EdgeKey) : Row := [.vertexRef k.src_id, .edgeKey k, .vertexRef k.dst_id]

namespace ExpandPhysicalOp

def forward (lid : EdgeLabelId) (e : EdgeTypeIndexEntry) : EdgeKey :=
  ⟨e.edgeId, e.srcVertexId, e.dstVertexId, lid, e.seq.toUInt32⟩

def reversed (lid : EdgeLabelId) (e : EdgeTypeIndexEntry) : EdgeKey :=
  ⟨e.edgeId, e.dstVertexId, e.srcVertexId, lid, e.seq.toUInt32⟩

/-- A loop matches once only. -/
def nonLoops (batch : List EdgeTypeIndexEntry) : List EdgeTypeIndexEntry :=
  batch.filter fun e => e.srcVertexId ≠ e.dstVertexId

/-- The batches of one label: the chunks, and how many rows are still wanted. -/
def scanBatches (undirected : Bool) (lid : EdgeLabelId) :
    Nat → List (List EdgeTypeIndexEntry) → List DataChunk × Nat
  | remaining_rows, [] => ([], remaining_rows)
  | remaining_rows, edge_batch :: rest =>
    if remaining_rows = 0 then ([], 0)
    else
      let taken := edge_batch.take remaining_rows
      let out := edgeChunk (taken.map (forward lid))
      let remaining_rows := remaining_rows - taken.length
      if remaining_rows = 0 then ([out], 0)
      else if undirected = false then
        let (chunks, left) := scanBatches undirected lid remaining_rows rest
        (out :: chunks, left)
      else
        let back := nonLoops taken
        if back = [] then
          let (chunks, left) := scanBatches undirected lid remaining_rows rest
          (out :: chunks, left)
        else
          let reverse := edgeChunk (back.map (reversed lid))
          let remaining_rows := remaining_rows - back.length
          if remaining_rows = 0 then ([out, reverse], 0)
          else
            let (chunks, left) := scanBatches undirected lid remaining_rows rest
            (out :: reverse :: chunks, left)

def scanLabels (undirected : Bool) (scanEdgesByType : EdgeLabelId → List (List EdgeTypeIndexEntry)) :
    Nat → List EdgeLabelId → List DataChunk
  | _, [] => []
  | remaining_rows, lid :: rest =>
    if remaining_rows = 0 then []
    else
      let (chunks, left) := scanBatches undirected lid remaining_rows (scanEdgesByType lid)
      chunks ++ scanLabels undirected scanEdgesByType left rest

/-- `std::numeric_limits<size_t>::max()`. -/
def NO_LIMIT : Nat := 2 ^ 64 - 1

def executeChunk (op : ExpandPhysicalOp) : List DataChunk :=
  if op.full_edge_scan then
    scanLabels op.undirected op.scanEdgesByType (op.limit_hint.getD NO_LIMIT) op.full_scan_labels
  else op.neighbours

end ExpandPhysicalOp

/-! ### Row by row operators -/

/-- Makes one output row of each input row.  With labels required of a column
(`setRequiredLabels`) it drops rows, and nothing is said about it here. -/
structure ProjectionExtractPhysicalOp where
  required_labels : List (Nat × List LabelId)
  executeChunk : DataChunk → DataChunk
  output : Row → Row
  width : Nat
  rows_eq : required_labels = [] → ∀ chunk, (executeChunk chunk).rows = chunk.rows.map output
  width_eq : ∀ chunk, (executeChunk chunk).columns.length = width

/-- Appends a path to each row; a chunk without rows is not handed on. -/
structure PathBuildPhysicalOp where
  buildChunk : DataChunk → DataChunk
  output : Row → Row
  width : Nat
  rows_eq : ∀ chunk, (buildChunk chunk).rows = chunk.rows.map output
  width_eq : ∀ chunk, (buildChunk chunk).columns.length = width

def PathBuildPhysicalOp.executeChunk (op : PathBuildPhysicalOp) (input : List DataChunk) :
    List DataChunk :=
  (input.map op.buildChunk).filter fun chunk => 0 < chunk.count

/-! ### Sorting -/

/-- The sort algorithms of the library, on a comparison that is a strict weak order of the
elements; the result for others is not defined.  `partial_sort` gives the first `k`
places. -/
structure StdSort where
  sort : (Row → Row → Bool) → List Row → List Row
  partial_sort : (Row → Row → Bool) → Nat → List Row → List Row
  sort_perm : ∀ {less xs}, StrictWeakOn less xs → (sort less xs).Perm xs
  sort_sorted : ∀ {less xs}, StrictWeakOn less xs → Sorted less (sort less xs)
  partial_sort_top : ∀ {less k xs}, StrictWeakOn less xs → IsTop less k xs (partial_sort less k xs)

/-- Sorting by insertion. -/
def insertionSort : StdSort where
  sort := sortBy
  partial_sort less k xs := (sortBy less xs).take k
  sort_perm _ := sortBy_perm _
  sort_sorted h := sorted_sortBy h
  partial_sort_top h := isTop_take (sorted_sortBy h) (sortBy_perm _) _

/-- An `ORDER BY` item; the expression as a function of the row. -/
structure SortItem where
  expr : Row → Value
  ascending : Bool

structure SortPhysicalOp where
  sort_items : List SortItem
  limit_hint : Option Nat

namespace SortPhysicalOp

/-- The first key that differs decides.  A comparison that throws ends the statement. -/
def rowLess : List SortItem → Row → Row → Bool
  | [], _, _ => false
  | item :: rest, a, b =>
    match cypherCompareValues (item.expr a) (item.expr b) with
    | none => false
    | some cmp =>
      if cmp = 0 then rowLess rest a b
      else if item.ascending then cmp < 0 else 0 < cmp

/-- A hint of zero is no hint. -/
def top_n (op : SortPhysicalOp) : Option Nat := op.limit_hint.filter (0 < ·)

def sorted (std : StdSort) (op : SortPhysicalOp) (rows : List Row) : List Row :=
  match op.top_n with
  | some top_n => std.partial_sort (rowLess op.sort_items) (min top_n rows.length) rows
  | none => std.sort (rowLess op.sort_items) rows

/-- The width of the last chunk that has rows. -/
def num_cols (input : List DataChunk) : Nat :=
  ((input.filter fun chunk => 0 < chunk.count).getLast?).elim 0 (·.columns.length)

def executeChunk (std : StdSort) (op : SortPhysicalOp) (input : List DataChunk) : List DataChunk :=
  let rows := streamRows input
  if rows = [] then []
  else
    let kinds := replicate (num_cols input) BoundTypeKind.ANY
    ((op.sorted std rows).foldl
      (fun out row => out.emitRow kinds ((row.take (num_cols input)).map Cell.value))
      (ChunkOutput.start kinds)).finish

end SortPhysicalOp

/-! ### Plans -/

open SortPhysicalOp

/-- A pure-read plan below a limit.  `other` is any operator that neither takes nor hands on
a hint, with the chunks it yields. -/
inductive PhysicalPlan
  | expand (op : ExpandPhysicalOp)
  | projectionExtract (op : ProjectionExtractPhysicalOp) (child : PhysicalPlan)
  | pathBuild (op : PathBuildPhysicalOp) (child : PhysicalPlan)
  | sort (op : SortPhysicalOp) (child : PhysicalPlan)
  | other (stream : List DataChunk)

namespace PhysicalPlan

/-- The expand and the sort keep the hint; the operators whose `supportsLimitPushdown` is
true hand it on. -/
def setLimitHint (limit : Nat) : PhysicalPlan → PhysicalPlan
  | .expand op => .expand { op with limit_hint := narrowHint op.limit_hint limit }
  | .projectionExtract op child => .projectionExtract op (child.setLimitHint limit)
  | .pathBuild op child => .pathBuild op (child.setLimitHint limit)
  | .sort op child =>
    .sort { op with limit_hint := narrowHint op.limit_hint limit } (child.setLimitHint limit)
  | .other stream => .other stream

def execute (std : StdSort) : PhysicalPlan → List DataChunk
  | .expand op => op.executeChunk
  | .projectionExtract op child => (child.execute std).map op.executeChunk
  | .pathBuild op child => op.executeChunk (child.execute std)
  | .sort op child => op.executeChunk std (child.execute std)
  | .other stream => stream

def rows (std : StdSort) (plan : PhysicalPlan) : List Row := streamRows (plan.execute std)

/-- The plan as a limit of `k` rows leaves it; a limit of zero gives no hint. -/
def hinted (k : Nat) (plan : PhysicalPlan) : PhysicalPlan :=
  if 0 < k then plan.setLimitHint k else plan

end PhysicalPlan

/-- A limit above the plan. -/
def LimitPhysicalOp.execute (std : StdSort) (k : Nat) (plan : PhysicalPlan) : List DataChunk :=
  LimitPhysicalOp.executeChunk k ((plan.hinted k).execute std)

/-! ### What the scan emits -/

/-- A valid element of a vector is read as its kind says. -/
theorem getValue_vector (kind : BoundTypeKind) {data : List (Payload kind)} {n i : Nat} (hn : i < n)
    {x : Payload kind} (hx : data[i]? = some x) :
    (Column.flat ⟨kind, data, replicate n true⟩).getValue i = Payload.toValue kind x := by
  simp [Column.getValue, ColumnBuffer.getValue, ColumnBuffer.isNull, hn, hx]

lemma edgeChunk_rows (keys : List EdgeKey) : (edgeChunk keys).rows = keys.map edgeRow := by
  apply ext_getElem
  · simp [rows, edgeChunk]
  · intro i hi hi'
    have hlt : i < keys.length := by simpa using hi'
    have hvalid : i < 8 * ((keys.length + 7) / 8) := by omega
    have hkey : keys[i]? = some keys[i] := List.getElem?_eq_getElem hlt
    have hsrc : (keys.map EdgeKey.src_id)[i]? = some keys[i].src_id := by simp [hkey]
    have hdst : (keys.map EdgeKey.dst_id)[i]? = some keys[i].dst_id := by simp [hkey]
    simp only [rows, row, edgeChunk, getElem_map, getElem_range, map_cons, map_nil]
    exact congrArg₂ cons (getValue_vector .VERTEX_REF hvalid hsrc)
      (congrArg₂ cons (getValue_vector .EDGE_KEY hvalid hkey)
        (congrArg₂ cons (getValue_vector .VERTEX_REF hvalid hdst) rfl))

namespace ExpandPhysicalOp

variable (undirected : Bool) (lid : EdgeLabelId)

lemma streamRows_cons (chunk : DataChunk) (rest : List DataChunk) :
    streamRows (chunk :: rest) = chunk.rows ++ streamRows rest := rfl

/-- What a batch that is read whole stands for. -/
def batchRows (batch : List EdgeTypeIndexEntry) : List Row :=
  batch.map (fun e => edgeRow (forward lid e)) ++
    if undirected then (nonLoops batch).map fun e => edgeRow (reversed lid e)
    else []

@[simp]
theorem scanBatches_zero (batches : List (List EdgeTypeIndexEntry)) :
    scanBatches undirected lid 0 batches = ([], 0) := by
  cases batches <;> simp [scanBatches]

section OneBatch

variable {r : Nat} {batch : List EdgeTypeIndexEntry} (rest : List (List EdgeTypeIndexEntry))

/-- A batch with enough rows ends the scan. -/
theorem scanBatches_cut (hr : r ≠ 0) (hlong : r ≤ batch.length) : scanBatches undirected lid r (batch :: rest) =
      ([edgeChunk ((batch.take r).map (forward lid))], 0) := by
  have hmet : r - (batch.take r).length = 0 := by
    rw [length_take]
    omega
  simp only [scanBatches, hr, hmet, if_false, if_true]

/-- A shorter one is read whole. -/
theorem scanBatches_whole (hshort : batch.length < r) :
    streamRows (scanBatches undirected lid r (batch :: rest)).1 = batchRows undirected lid batch ++
        streamRows (scanBatches undirected lid (r - (batchRows undirected lid batch).length) rest).1 ∧
      (scanBatches undirected lid r (batch :: rest)).2 =
        (scanBatches undirected lid (r - (batchRows undirected lid batch).length) rest).2 := by
  have hr : r ≠ 0 := by omega
  have htake : batch.take r = batch := take_of_length_le (by omega)
  have hgo : ¬ r - batch.length = 0 := by omega
  cases undirected with
  | false =>
    simp [scanBatches, hr, htake, hgo, batchRows, streamRows_cons, edgeChunk_rows, comp_def]
  | true =>
    simp only [scanBatches, hr, htake, hgo, if_false, Bool.true_eq_false, batchRows, if_true,
      length_append, length_map]
    by_cases hback : nonLoops batch = []
    · simp [hback, streamRows_cons, edgeChunk_rows, comp_def]
    · rw [if_neg hback, ← Nat.sub_sub]
      by_cases hmet : r - batch.length - (nonLoops batch).length = 0
      · rw [if_pos hmet, hmet]
        simp [streamRows, edgeChunk_rows, comp_def]
      · rw [if_neg hmet]
        simp [streamRows_cons, edgeChunk_rows, comp_def]

end OneBatch

/-- The rows still wanted are those asked for less those emitted. -/
theorem scanBatches_left (r : Nat) (batches : List (List EdgeTypeIndexEntry)) :
    (scanBatches undirected lid r batches).2 = r - (streamRows (scanBatches undirected lid r batches).1).length := by
  induction batches generalizing r with
  | nil => simp [scanBatches, streamRows]
  | cons batch rest ih =>
    by_cases hzero : r = 0
    · simp [hzero]
    · by_cases hshort : batch.length < r
      · obtain ⟨hrows, hleft⟩ := scanBatches_whole undirected lid rest hshort
        rw [hrows, hleft, ih, length_append]
        omega
      · rw [scanBatches_cut undirected lid rest hzero (by omega)]
        simp only [streamRows_cons, edgeChunk_rows, length_append, length_map, length_take]
        omega

/-- The rows emitted for fewer wanted rows come first among those emitted for more; if some
are missing, no more were wanted. -/
theorem scanBatches_prefix {r r' : Nat} (hle : r ≤ r') (batches : List (List EdgeTypeIndexEntry)) :
    ∃ late, streamRows (scanBatches undirected lid r' batches).1 =
        streamRows (scanBatches undirected lid r batches).1 ++ late ∧
      (late ≠ [] → (scanBatches undirected lid r batches).2 = 0) := by
  induction batches generalizing r r' with
  | nil => exact ⟨[], by simp [scanBatches], fun h => absurd rfl h⟩
  | cons batch rest ih =>
    by_cases hzero : r = 0
    · subst hzero
      exact ⟨_, by simp only [scanBatches_zero]; rfl, fun _ => by simp⟩
    · by_cases hshort : batch.length < r
      · -- both take the whole batch and go on
        obtain ⟨hrows, hleft⟩ := scanBatches_whole undirected lid rest hshort
        obtain ⟨hrows', -⟩ := scanBatches_whole undirected lid rest (Nat.lt_of_lt_of_le hshort hle)
        obtain ⟨late, hmore, hend⟩ := ih (Nat.sub_le_sub_right hle (batchRows undirected lid batch).length)
        exact ⟨late, by rw [hrows, hrows', hmore, append_assoc], by rw [hleft]; exact hend⟩
      · -- the batch meets the smaller demand
        rw [scanBatches_cut undirected lid rest hzero (by omega)]
        have hfirst : ∃ more, streamRows (scanBatches undirected lid r' (batch :: rest)).1 =
            ((batch.take r').map fun e => edgeRow (forward lid e)) ++ more := by
          by_cases hshort' : batch.length < r'
          · obtain ⟨hrows', -⟩ := scanBatches_whole undirected lid rest hshort'
            rw [hrows', batchRows, append_assoc, take_of_length_le (by omega)]
            exact ⟨_, rfl⟩
          · rw [scanBatches_cut undirected lid rest (by omega) (by omega)]
            exact ⟨[], by simp [edgeChunk_rows, streamRows, comp_def]⟩
        obtain ⟨more, hmore⟩ := hfirst
        have hsplit : batch.take r' = batch.take r ++ (batch.take r').drop r := by
          have h := take_append_drop r (batch.take r')
          rw [take_take, Nat.min_eq_left hle] at h
          exact h.symm
        have hout : streamRows [edgeChunk ((batch.take r).map (forward lid))] =
            (batch.take r).map fun e => edgeRow (forward lid e) := by
          simp [streamRows, edgeChunk_rows, comp_def]
        rw [hmore, hsplit, hout, map_append, append_assoc]
        exact ⟨_, rfl, fun _ => rfl⟩

/-- How many rows the scan reads until it has met a demand of `r` rows: the batch that meets it
is read in the first direction only. -/
def reach : Nat → List (List EdgeTypeIndexEntry) → Nat
  | _, [] => 0
  | r, batch :: rest =>
    if r ≤ batch.length then r
    else
      let whole := batch.length + if undirected then (nonLoops batch).length else 0
      whole + reach (r - whole) rest

lemma reach_zero (batches : List (List EdgeTypeIndexEntry)) : reach undirected 0 batches = 0 := by
  cases batches <;> simp [reach]

lemma length_scanBatches (r : Nat) (batches : List (List EdgeTypeIndexEntry)) :
    (streamRows (scanBatches undirected lid r batches).1).length = reach undirected r batches := by
  induction batches generalizing r with
  | nil => simp [scanBatches, streamRows, reach]
  | cons batch rest ih =>
    by_cases hzero : r = 0
    · simp [hzero, reach, streamRows]
    · by_cases hshort : batch.length < r
      · have hwhole : (batchRows undirected lid batch).length =
            batch.length + if undirected then (nonLoops batch).length else 0 := by
          cases undirected <;> simp [batchRows]
        rw [(scanBatches_whole undirected lid rest hshort).1, length_append, ih, hwhole, reach,
          if_neg (show ¬ r ≤ batch.length by omega)]
      · rw [scanBatches_cut undirected lid rest hzero (by omega), reach, if_pos (by omega)]
        simp only [streamRows_cons, edgeChunk_rows, length_append, length_map, length_take]
        simp [streamRows]
        omega

lemma reach_append (r : Nat) (batches rest : List (List EdgeTypeIndexEntry)) :
    reach undirected r (batches ++ rest) =
      reach undirected r batches + reach undirected (r - reach undirected r batches) rest := by
  induction batches generalizing r with
  | nil => simp [reach]
  | cons batch batches ih =>
    simp only [cons_append, reach]
    split
    · rw [Nat.sub_self, reach_zero, Nat.add_zero]
    · rw [ih, ← Nat.add_assoc, Nat.sub_sub]

lemma scanBatches_width (r : Nat) (batches : List (List EdgeTypeIndexEntry)) :
    ∀ chunk ∈ (scanBatches undirected lid r batches).1, chunk.columns.length = 3 := by
  have hout (keys : List EdgeKey) : (edgeChunk keys).columns.length = 3 := rfl
  induction batches generalizing r with
  | nil => simp [scanBatches]
  | cons batch rest ih =>
    simp only [scanBatches]
    split
    · simp
    · split
      · simp [hout]
      · split
        · exact forall_mem_cons.mpr ⟨hout _, ih _⟩
        · split
          · exact forall_mem_cons.mpr ⟨hout _, ih _⟩
          · split
            · simp [hout]
            · exact forall_mem_cons.mpr ⟨hout _, forall_mem_cons.mpr ⟨hout _, ih _⟩⟩

variable (scanEdgesByType : EdgeLabelId → List (List EdgeTypeIndexEntry))

lemma scanLabels_width (r : Nat) (lids : List EdgeLabelId) :
    ∀ chunk ∈ scanLabels undirected scanEdgesByType r lids, chunk.columns.length = 3 := by
  induction lids generalizing r with
  | nil => simp [scanLabels]
  | cons lid rest ih =>
    simp only [scanLabels]
    split
    · simp
    · exact forall_mem_append.mpr ⟨scanBatches_width undirected lid r _, ih _⟩

lemma scanLabels_prefix {r r' : Nat} (hle : r ≤ r') (lids : List EdgeLabelId) :
    ∃ late, streamRows (scanLabels undirected scanEdgesByType r' lids) =
      streamRows (scanLabels undirected scanEdgesByType r lids) ++ late ∧
      (late ≠ [] → r ≤ (streamRows (scanLabels undirected scanEdgesByType r lids)).length) := by
  induction lids generalizing r r' with
  | nil => exact ⟨[], by simp [scanLabels], fun h => absurd rfl h⟩
  | cons lid rest ih =>
    by_cases hzero : r = 0
    · subst hzero
      have hnone : scanLabels undirected scanEdgesByType 0 (lid :: rest) = [] := by simp [scanLabels]
      exact ⟨_, by rw [hnone]; rfl, fun _ => Nat.zero_le _⟩
    · have hzero' : r' ≠ 0 := by omega
      obtain ⟨late, hrows, hend⟩ := scanBatches_prefix undirected lid hle (scanEdgesByType lid)
      have hleft := scanBatches_left undirected lid r (scanEdgesByType lid)
      have hleft' := scanBatches_left undirected lid r' (scanEdgesByType lid)
      have hsum (chunks chunks' : List DataChunk) :
          streamRows (chunks ++ chunks') = streamRows chunks ++ streamRows chunks' := by
        simp [streamRows]
      simp only [scanLabels, hzero, hzero', if_false, hsum]
      by_cases hmet : (scanBatches undirected lid r (scanEdgesByType lid)).2 = 0
      · have hnone : scanLabels undirected scanEdgesByType 0 rest = [] := by cases rest <;> simp [scanLabels]
        rw [hmet, hnone]
        have hempty : streamRows [] = [] := rfl
        rw [hrows, hempty, append_nil, append_assoc]
        exact ⟨_, rfl, fun _ => by omega⟩
      · have hlate : late = [] := by
          by_contra hne
          exact hmet (hend hne)
        rw [hlate, append_nil] at hrows
        rw [hrows] at hleft'
        have hmore : (scanBatches undirected lid r (scanEdgesByType lid)).2 ≤
            (scanBatches undirected lid r' (scanEdgesByType lid)).2 := by omega
        obtain ⟨last, hlast, hlastend⟩ := ih hmore
        refine ⟨last, ?_, fun hne => ?_⟩
        · rw [hrows, hlast, append_assoc]
        · have h := hlastend hne
          rw [length_append]
          omega

lemma length_scanLabels (r : Nat) (lids : List EdgeLabelId) :
    (streamRows (scanLabels undirected scanEdgesByType r lids)).length =
      reach undirected r (lids.flatMap scanEdgesByType) := by
  induction lids generalizing r with
  | nil => simp [scanLabels, streamRows, reach]
  | cons lid rest ih =>
    rw [flatMap_cons, reach_append, scanLabels]
    split
    next hzero => simp [hzero, reach_zero, streamRows]
    next =>
      have hleft := scanBatches_left undirected lid r (scanEdgesByType lid)
      rw [length_scanBatches] at hleft
      simp only [streamRows, flatMap_append, length_append]
      rw [← streamRows, ← streamRows, length_scanBatches, ih, hleft]

end ExpandPhysicalOp

/-! ### What a sort emits -/

/-- All rows have `w` cells. -/
def Width (w : Nat) (rows : List Row) : Prop := ∀ row ∈ rows, row.length = w

namespace SortPhysicalOp

/-- The comparison of the items orders the rows, and never throws on them: what the sort
algorithms ask for. -/
structure Orders (op : SortPhysicalOp) (rows : List Row) : Prop where
  defined : ∀ item ∈ op.sort_items, ∀ a ∈ rows, ∀ b ∈ rows,
    (cypherCompareValues (item.expr a) (item.expr b)).isSome
  strict : StrictWeakOn (rowLess op.sort_items) rows

lemma num_cols_of_width {input : List DataChunk} {w : Nat} (hwidth : Width w (streamRows input))
    (hrows : streamRows input ≠ []) : num_cols input = w := by
  have hfilled : (input.filter fun chunk => 0 < chunk.count) ≠ [] := by
    intro hnone
    apply hrows
    rw [streamRows, flatMap_eq_nil_iff]
    intro chunk hchunk
    have hzero := filter_eq_nil_iff.mp hnone chunk hchunk
    have hcount : chunk.count = 0 := by simpa using hzero
    simp [rows, hcount]
  have hlast := getLast?_eq_some_getLast hfilled
  have hmem := getLast_mem hfilled
  rw [num_cols, hlast]
  obtain ⟨hin, hpos⟩ := mem_filter.mp hmem
  generalize (input.filter fun chunk => 0 < chunk.count).getLast hfilled = chunk at hin hpos
  have hrow : chunk.row 0 ∈ streamRows input := by
    rw [streamRows, mem_flatMap]
    exact ⟨chunk, hin, mem_map.mpr ⟨0, mem_range.mpr (by simpa using hpos), rfl⟩⟩
  have hat := hwidth _ hrow
  simpa [row] using hat

variable {op : SortPhysicalOp}

lemma sorted_mem {std : StdSort} {rows : List Row} (h : op.Orders rows) :
    ∀ row ∈ op.sorted std rows, row ∈ rows := by
  intro row hrow
  unfold sorted at hrow
  split at hrow
  next n _ =>
    obtain ⟨-, -, rest, hperm, -⟩ := std.partial_sort_top (k := min n rows.length) h.strict
    exact hperm.mem_iff.mpr (mem_append_left _ hrow)
  next => exact (std.sort_perm h.strict).mem_iff.mp hrow

/-- The chunks hold the sorted rows. -/
theorem executeChunk_rows (std : StdSort) {input : List DataChunk} {w : Nat}
    (hwidth : Width w (streamRows input)) (h : op.Orders (streamRows input)) :
    streamRows (op.executeChunk std input) = op.sorted std (streamRows input) := by
  unfold executeChunk
  by_cases hrows : streamRows input = []
  · have hnone : op.sorted std (streamRows input) = [] := by
      apply eq_nil_iff_forall_not_mem.mpr
      intro row hrow
      have hmem := sorted_mem h row hrow
      rw [hrows] at hmem
      cases hmem
    rw [if_pos hrows, hnone]
    rfl
  · rw [if_neg hrows, num_cols_of_width hwidth hrows]
    have hsame : ∀ row ∈ op.sorted std (streamRows input), row.length = w :=
      fun row hrow => hwidth row (sorted_mem h row hrow)
    have hfill := (ChunkOutput.filling_start (replicate w BoundTypeKind.ANY)).foldl_emitRow
      ((op.sorted std (streamRows input)).map fun row => (row.take w).map Cell.value)
      (by
        intro cells hcells
        obtain ⟨row, hrow, rfl⟩ := mem_map.mp hcells
        have hlength := hsame row hrow
        rw [take_of_length_le (by omega), forall₂_map_right_iff, ← hlength]
        clear hlength hrow hcells
        induction row with
        | nil => exact .nil
        | cons v row ih => exact .cons (fits_any v) ih)
    have hfinish := hfill.finish
    rw [foldl_map] at hfinish
    rw [hfinish, nil_append, map_map]
    conv_rhs => rw [← map_id (op.sorted std (streamRows input))]
    apply map_congr_left
    intro row hrow
    simp [hsame row hrow, Cell.content, comp_def]

section IntegerKeys

variable {item : SortItem} {rest : List SortItem} {a b : Row} {i j : Int64}

lemma rowLess_int64 (ha : item.expr a = .int64 i) (hb : item.expr b = .int64 j) : rowLess (item :: rest) a b =
      if i.toInt = j.toInt then rowLess rest a b
      else if item.ascending then i.toInt < j.toInt else j.toInt < i.toInt := by
  have hcompare : cypherCompareValues (.int64 i) (.int64 j) = some (compareAsInt i.toInt j.toInt) := rfl
  rw [rowLess, ha, hb, hcompare]
  by_cases heq : i.toInt = j.toInt
  · simp [compareAsInt, heq]
  · by_cases hlt : i.toInt < j.toInt
    · simp [compareAsInt, heq, hlt, Int.le_of_lt]
    · have hgt : j.toInt < i.toInt := by omega
      simp [compareAsInt, heq, hlt, hgt]

/-- Rows whose keys are all integers can be ordered. -/
theorem orders_int64 {rows : List Row}
    (hkeys : ∀ item ∈ op.sort_items, ∀ row ∈ rows, ∃ i, item.expr row = .int64 i) :
    op.Orders rows := by
  refine ⟨?_, ?_⟩
  · intro item hitem a ha b hb
    obtain ⟨i, hi⟩ := hkeys item hitem a ha
    obtain ⟨j, hj⟩ := hkeys item hitem b hb
    rw [hi, hj]
    rfl
  · generalize op.sort_items = items at hkeys
    induction items with
    | nil =>
      constructor
      · intro a _ b _ hless
        cases hless
      · intro a _ b _ c _ hless
        cases hless
    | cons item rest ih =>
      have hrest := ih fun item' hitem' => hkeys item' (mem_cons_of_mem _ hitem')
      have hkey := hkeys item mem_cons_self
      constructor
      · intro a ha b hb hless
        obtain ⟨i, hi⟩ := hkey a ha
        obtain ⟨j, hj⟩ := hkey b hb
        rw [rowLess_int64 hi hj] at hless
        rw [rowLess_int64 hj hi]
        by_cases heq : i.toInt = j.toInt
        · rw [if_pos heq] at hless
          rw [if_pos heq.symm]
          exact hrest.asymm a ha b hb hless
        · rw [if_neg heq] at hless
          rw [if_neg fun h => heq h.symm]
          split at hless <;> simp_all <;> omega
      · intro a ha b hb c hc hless
        obtain ⟨i, hi⟩ := hkey a ha
        obtain ⟨j, hj⟩ := hkey b hb
        obtain ⟨l, hl⟩ := hkey c hc
        rw [rowLess_int64 hi hl] at hless
        rw [rowLess_int64 hi hj, rowLess_int64 hj hl]
        by_cases hij : i.toInt = j.toInt
        · by_cases hjl : j.toInt = l.toInt
          · rw [if_pos (hij.trans hjl)] at hless
            rw [if_pos hij, if_pos hjl]
            exact hrest.split a ha b hb c hc hless
          · rw [hij, if_neg hjl] at hless
            rw [if_neg hjl]
            exact .inr hless
        · rw [if_neg hij]
          by_cases hjl : j.toInt = l.toInt
          · rw [← hjl, if_neg hij] at hless
            exact .inl hless
          · rw [if_neg hjl]
            cases hasc : item.ascending <;> simp only [hasc] at hless ⊢ <;> split at hless <;>
              simp_all <;> omega

end IntegerKeys

end SortPhysicalOp

/-! ### Hints through a plan -/

namespace PhysicalPlan

/-- What the planner builds: every stream has one width, and a label filter is attached to
the extraction right above the expand whose destinations it checks, which is then no full
scan. -/
def Shaped : PhysicalPlan → Prop
  | .expand op => ∃ w, Width w (streamRows op.neighbours)
  | .projectionExtract op child =>
    (op.required_labels = [] ∨ ∃ e, child = .expand e ∧ e.full_edge_scan = false) ∧ child.Shaped
  | .pathBuild _ child => child.Shaped
  | .sort _ child => child.Shaped
  | .other stream => ∃ w, Width w (streamRows stream)

/-- No hint was given yet. -/
def Unhinted : PhysicalPlan → Prop
  | .expand op => op.limit_hint = none
  | .projectionExtract _ child => child.Unhinted
  | .pathBuild _ child => child.Unhinted
  | .sort op child => op.limit_hint = none ∧ child.Unhinted
  | .other _ => True

/-- Each sort can order its input. -/
def Sortable (std : StdSort) : PhysicalPlan → Prop
  | .sort op child => op.Orders (child.rows std) ∧ child.Sortable std
  | .projectionExtract _ child => child.Sortable std
  | .pathBuild _ child => child.Sortable std
  | .expand _ | .other _ => True

variable {std : StdSort}

lemma rows_pathBuild (op : PathBuildPhysicalOp) (child : PhysicalPlan) :
    (pathBuild op child).rows std = (child.rows std).map op.output := by
  have hrows (input : List DataChunk) : streamRows (op.executeChunk input) = (streamRows input).map op.output := by
    induction input with
    | nil => rfl
    | cons chunk rest ih =>
      rw [ExpandPhysicalOp.streamRows_cons, map_append, ← ih, ← op.rows_eq]
      unfold PathBuildPhysicalOp.executeChunk
      rw [map_cons, filter_cons]
      split
      next => rfl
      next hempty =>
        have hcount : (op.buildChunk chunk).count = 0 := by simpa using hempty
        simp [DataChunk.rows, hcount]
  exact hrows _

lemma rows_projectionExtract {op : ProjectionExtractPhysicalOp} (h : op.required_labels = [])
    (child : PhysicalPlan) :
    (projectionExtract op child).rows std = (child.rows std).map op.output := by
  show streamRows ((child.execute std).map op.executeChunk) = (streamRows (child.execute std)).map op.output
  simp only [streamRows, flatMap_map, map_flatMap, op.rows_eq h]

/-- The cells of a chunk's row are those of its columns. -/
theorem width_rows (chunk : DataChunk) : Width chunk.columns.length chunk.rows := by
  intro row hrow
  obtain ⟨i, -, rfl⟩ := mem_map.mp hrow
  simp [row]

lemma width_of_chunks {input : List DataChunk} {w : Nat}
    (h : ∀ chunk ∈ input, chunk.columns.length = w) : Width w (streamRows input) := by
  intro row hrow
  obtain ⟨chunk, hchunk, hin⟩ := mem_flatMap.mp hrow
  rw [← h chunk hchunk]
  exact width_rows chunk row hin

variable {plan : PhysicalPlan}

/-- Every operator emits rows of one width. -/
theorem exists_width (hshaped : plan.Shaped) (hsort : plan.Sortable std) :
    ∃ w, Width w (plan.rows std) := by
  induction plan with
  | expand op =>
    by_cases hfull : op.full_edge_scan = true
    · refine ⟨3, width_of_chunks ?_⟩
      simp only [execute, ExpandPhysicalOp.executeChunk, hfull, if_true]
      exact ExpandPhysicalOp.scanLabels_width _ _ _ _
    · obtain ⟨w, hw⟩ := hshaped
      refine ⟨w, ?_⟩
      simpa [rows, execute, ExpandPhysicalOp.executeChunk, hfull] using hw
  | projectionExtract op child ih =>
    refine ⟨op.width, width_of_chunks ?_⟩
    intro chunk hchunk
    obtain ⟨before, -, rfl⟩ := mem_map.mp hchunk
    exact op.width_eq before
  | pathBuild op child ih =>
    refine ⟨op.width, width_of_chunks ?_⟩
    intro chunk hchunk
    obtain ⟨before, -, rfl⟩ := mem_map.mp (mem_filter.mp hchunk).1
    exact op.width_eq before
  | sort op child ih =>
    obtain ⟨w, hw⟩ := ih hshaped hsort.2
    refine ⟨w, ?_⟩
    have hrows : (sort op child).rows std = op.sorted std (child.rows std) :=
      SortPhysicalOp.executeChunk_rows std hw hsort.1
    rw [hrows]
    exact fun row hrow => hw row (sorted_mem hsort.1 row hrow)
  | other stream => exact hshaped

lemma rows_sort {op : SortPhysicalOp} {child : PhysicalPlan} (hshaped : child.Shaped)
    (hsort : (sort op child).Sortable std) :
    (sort op child).rows std = op.sorted std (child.rows std) := by
  obtain ⟨w, hw⟩ := exists_width hshaped hsort.2
  exact SortPhysicalOp.executeChunk_rows std hw hsort.1

lemma Shaped.setLimitHint (h : plan.Shaped) (k : Nat) : (plan.setLimitHint k).Shaped := by
  induction plan with
  | expand op => exact h
  | projectionExtract op child ih =>
    refine ⟨h.1.imp id ?_, ih h.2⟩
    intro hexpand
    obtain ⟨e, rfl, hfull⟩ := hexpand
    exact ⟨_, rfl, hfull⟩
  | pathBuild op child ih => exact ih h
  | sort op child ih => exact ih h
  | other stream => exact h

lemma Orders.mono {op : SortPhysicalOp} {some all : List Row} (h : op.Orders all)
    (hsub : ∀ row ∈ some, row ∈ all) : op.Orders some where
  defined item hitem a ha b hb := h.defined item hitem a (hsub a ha) b (hsub b hb)
  strict := h.strict.mono hsub

/-- The rows a plan makes of its input under a hint of `k` rows: a full edge scan reads on until
the hint is met, and a further sort keeps the first rows of those that reach it. -/
def reaching (std : StdSort) (k : Nat) : PhysicalPlan → List Row
  | .expand op =>
    if op.full_edge_scan then
      ((expand op).rows std).take
        (ExpandPhysicalOp.reach op.undirected k (op.full_scan_labels.flatMap op.scanEdgesByType))
    else (expand op).rows std
  | .projectionExtract op child =>
    if op.required_labels = [] then (child.reaching std k).map op.output
    else (projectionExtract op child).rows std
  | .pathBuild op child => (child.reaching std k).map op.output
  | .sort op child =>
    std.partial_sort (rowLess op.sort_items) (min k (child.reaching std k).length) (child.reaching std k)
  | .other stream => streamRows stream

/-- What a sort keeps of the rows that reach it is the top of them. -/
theorem reaching_sort_top (std : StdSort) {op : SortPhysicalOp} {child : PhysicalPlan} (k : Nat)
    (h : op.Orders (child.reaching std k)) :
    IsTop (rowLess op.sort_items) k (child.reaching std k) ((sort op child).reaching std k) := by
  obtain ⟨hsorted, hlength, hrest⟩ := std.partial_sort_top (k := min k (child.reaching std k).length) h.strict
  rw [reaching]
  exact ⟨hsorted, by omega, hrest⟩

/-- Under a hint of `k` rows a plan emits the rows the hint reaches, at least `k` of its rows if
not all. -/
theorem setLimitHint_spec (hshaped : plan.Shaped) (hunhinted : plan.Unhinted)
    (hsort : plan.Sortable std) {k : Nat} (hk : 0 < k) (hmax : k < 2 ^ 63) :
    (plan.setLimitHint k).Sortable std ∧ (plan.setLimitHint k).rows std = plan.reaching std k ∧
      Covers k (plan.reaching std k) (plan.rows std) := by
  induction plan with
  | expand op =>
    refine ⟨trivial, ?_⟩
    by_cases hfull : op.full_edge_scan = true
    · have hnone : op.limit_hint = none := hunhinted
      obtain ⟨late, hrows, hend⟩ := ExpandPhysicalOp.scanLabels_prefix op.undirected op.scanEdgesByType
        (show k ≤ ExpandPhysicalOp.NO_LIMIT by unfold ExpandPhysicalOp.NO_LIMIT; omega)
        op.full_scan_labels
      have hlength := ExpandPhysicalOp.length_scanLabels op.undirected op.scanEdgesByType k op.full_scan_labels
      have hplain : (expand op).rows std = streamRows (ExpandPhysicalOp.scanLabels op.undirected op.scanEdgesByType
            ExpandPhysicalOp.NO_LIMIT op.full_scan_labels) := by
        simp [rows, execute, ExpandPhysicalOp.executeChunk, hfull, hnone]
      rw [reaching, if_pos hfull, hplain, ← hlength, hrows, take_left]
      refine ⟨?_, late, .refl _, hend⟩
      simp [rows, setLimitHint, execute, ExpandPhysicalOp.executeChunk, hfull, narrowHint, hnone]
    · rw [reaching, if_neg hfull]
      exact ⟨by simp [rows, setLimitHint, execute, ExpandPhysicalOp.executeChunk, hfull], Covers.refl k _⟩
  | projectionExtract op child ih =>
    obtain ⟨hsortable, hhinted, hcovers⟩ := ih hshaped.2 hunhinted hsort
    refine ⟨hsortable, ?_⟩
    rcases hshaped.1 with hnone | ⟨e, rfl, hfull⟩
    · rw [rows_projectionExtract hnone, setLimitHint, rows_projectionExtract hnone, hhinted, reaching, if_pos hnone]
      exact ⟨rfl, hcovers.map op.output⟩
    · -- the expand below does not look at its hint
      have hreaching : (projectionExtract op (expand e)).reaching std k =
        (projectionExtract op (expand e)).rows std := by
        rw [reaching]
        split
        next hnone => rw [rows_projectionExtract hnone, reaching, if_neg (by simp [hfull])]
        next => rfl
      rw [hreaching]
      exact ⟨by simp [rows, setLimitHint, execute, ExpandPhysicalOp.executeChunk, hfull], Covers.refl k _⟩
  | pathBuild op child ih =>
    obtain ⟨hsortable, hhinted, hcovers⟩ := ih hshaped hunhinted hsort
    refine ⟨hsortable, ?_⟩
    rw [setLimitHint, rows_pathBuild, rows_pathBuild, hhinted, reaching]
    exact ⟨rfl, hcovers.map op.output⟩
  | sort op child ih =>
    have hchild : child.Shaped := hshaped
    obtain ⟨hsortable, hhinted, hcovers⟩ := ih hchild hunhinted.2 hsort.2
    have horders : op.Orders (child.reaching std k) := Orders.mono hsort.1 hcovers.mem
    have hsorts : ((sort op child).setLimitHint k).Sortable std := by
      refine ⟨?_, hsortable⟩
      rw [hhinted]
      exact ⟨horders.1, horders.2⟩
    have hrows : ((sort op child).setLimitHint k).rows std = sorted std
        { op with limit_hint := narrowHint op.limit_hint k } ((child.setLimitHint k).rows std) :=
      rows_sort (Shaped.setLimitHint hchild k) hsorts
    refine ⟨hsorts, ?_, ?_⟩
    · rw [hrows, hhinted, reaching]
      simp [sorted, top_n, narrowHint, hunhinted.1, Option.filter, hk]
    · obtain ⟨-, hlength, rest, hrest, -⟩ := reaching_sort_top std k horders
      obtain ⟨left, hleft, hend⟩ := hcovers
      have hfull : op.sorted std (child.rows std) = std.sort (rowLess op.sort_items) (child.rows std) := by
        simp [sorted, top_n, hunhinted.1]
      rw [rows_sort hchild hsort, hfull]
      refine ⟨rest ++ left, ?_, fun hne => ?_⟩
      · rw [← append_assoc]
        exact (std.sort_perm hsort.1.strict).trans (hleft.trans (hrest.append_right left))
      · have hsum := hrest.length_eq
        rw [length_append] at hsum
        rcases append_eq_nil_iff.not.mp hne |> not_and_or.mp with hrestne | hleftne
        · have hpos : 0 < rest.length := length_pos_of_ne_nil hrestne
          omega
        · have hlong := hend hleftne
          omega
  | other stream => exact ⟨trivial, rfl, Covers.refl k _⟩

/-! ### Soundness -/

/-- The rows the topmost sort passes to the limit are the first of a full sort of all rows its
child has. -/
def SortedTop (std : StdSort) (k : Nat) : PhysicalPlan → Prop
  | .sort op child =>
    ∃ full, full.Perm (child.rows std) ∧ Sorted (rowLess op.sort_items) full ∧
      (((sort op child).hinted k).rows std).take k = full.take k
  | .projectionExtract _ child => child.SortedTop std k
  | .pathBuild _ child => child.SortedTop std k
  | .expand _ | .other _ => True

/-- For each row of the topmost sort's input: of the rows that do not sort behind it, the
hint reaches all, or at least `k`. -/
def HintSafe (std : StdSort) (k : Nat) : PhysicalPlan → Prop
  | .sort op child =>
    ∀ b ∈ child.rows std,
      min k ((child.rows std).countP fun a => !rowLess op.sort_items b a) ≤
        (child.reaching std k).countP fun a => !rowLess op.sort_items b a
  | .projectionExtract _ child => child.HintSafe std k
  | .pathBuild _ child => child.HintSafe std k
  | .expand _ | .other _ => True

instance : (std : StdSort) → (k : Nat) → (plan : PhysicalPlan) → Decidable (plan.HintSafe std k)
  | std, k, .sort op child =>
    inferInstanceAs (Decidable (∀ b ∈ child.rows std,
      min k ((child.rows std).countP fun a => !rowLess op.sort_items b a) ≤
        (child.reaching std k).countP fun a => !rowLess op.sort_items b a))
  | std, k, .projectionExtract _ child => instDecidableHintSafe std k child
  | std, k, .pathBuild _ child => instDecidableHintSafe std k child
  | _, _, .expand _ | _, _, .other _ => inferInstanceAs (Decidable True)

variable {k : Nat}

lemma hinted_covers (hshaped : plan.Shaped) (hunhinted : plan.Unhinted)
    (hsort : plan.Sortable std) (hmax : k < 2 ^ 63) :
    Covers k ((plan.hinted k).rows std) (plan.rows std) := by
  unfold hinted
  split
  next hk =>
    obtain ⟨-, hrows, hcovers⟩ := setLimitHint_spec hshaped hunhinted hsort hk hmax
    rwa [hrows]
  next => exact Covers.refl k _

/-- The topmost sort is right exactly when the hint leaves its child enough rows. -/
theorem sortedTop_iff (hshaped : plan.Shaped) (hunhinted : plan.Unhinted)
    (hsort : plan.Sortable std) (hmax : k < 2 ^ 63) :
    plan.SortedTop std k ↔ plan.HintSafe std k := by
  induction plan with
  | expand op => exact Iff.rfl
  | projectionExtract op child ih => exact ih hshaped.2 hunhinted hsort
  | pathBuild op child ih => exact ih hshaped hunhinted hsort
  | other stream => exact Iff.rfl
  | sort op child ih =>
    by_cases hk : 0 < k
    · have hchild : child.Shaped := hshaped
      obtain ⟨-, -, left, hleft, hend⟩ := setLimitHint_spec hchild hunhinted.2 hsort.2 hk hmax
      have hstrict : StrictWeakOn (rowLess op.sort_items) (child.reaching std k ++ left) :=
        hsort.1.strict.mono fun row hrow => hleft.mem_iff.mpr hrow
      have horders : op.Orders (child.reaching std k) :=
        Orders.mono hsort.1 fun row hrow => hleft.mem_iff.mpr (mem_append_left _ hrow)
      have htop := reaching_sort_top std k horders
      have hplan : (sort op child).hinted k = (sort op child).setLimitHint k := if_pos hk
      show (∃ full : List Row, _ ∧ _ ∧ (((sort op child).hinted k).rows std).take k = full.take k) ↔ _
      rw [hplan, (setLimitHint_spec hshaped hunhinted hsort hk hmax).2.1,
        take_of_length_le (by rw [htop.2.1]; omega)]
      exact isTop_part_iff_countP hstrict htop hleft
    · have hzero : k = 0 := by omega
      subst hzero
      constructor
      · intro _ b _
        rw [Nat.zero_min]
        exact Nat.zero_le _
      · intro _
        exact ⟨_, std.sort_perm hsort.1.strict, std.sort_sorted hsort.1.strict, rfl⟩

end PhysicalPlan

namespace LimitPhysicalOp

/-- What a limit above the plan should return: the number of rows it would without hints,
rows of the plan, and the first rows of the topmost sort. -/
structure HintsSound (std : StdSort) (k : Nat) (plan : PhysicalPlan) : Prop where
  count : (streamRows (execute std k plan)).length = min k (plan.rows std).length
  rows : (streamRows (execute std k plan)).Subperm (plan.rows std)
  sorted : plan.SortedTop std k

theorem hintsSound_iff (std : StdSort) {plan : PhysicalPlan} {k : Nat} (hshaped : plan.Shaped)
    (hunhinted : plan.Unhinted) (hsort : plan.Sortable std) (hmax : k < 2 ^ 63) :
    HintsSound std k plan ↔ plan.HintSafe std k := by
  have hcovers := PhysicalPlan.hinted_covers hshaped hunhinted hsort hmax
  have hrows : streamRows (execute std k plan) = ((plan.hinted k).rows std).take k := executeChunk_rows k _
  constructor
  · intro hsound
    exact (PhysicalPlan.sortedTop_iff hshaped hunhinted hsort hmax).mp hsound.sorted
  · intro hsafe
    refine ⟨?_, ?_, (PhysicalPlan.sortedTop_iff hshaped hunhinted hsort hmax).mpr hsafe⟩
    · rw [hrows, length_take]
      exact hcovers.length
    · obtain ⟨left, hleft, -⟩ := hcovers
      rw [hrows]
      have hpart : (((plan.hinted k).rows std).take k).Sublist ((plan.hinted k).rows std ++ left) :=
        (take_sublist _ _).trans (sublist_append_left _ _)
      exact hpart.subperm.trans hleft.symm.subperm

end LimitPhysicalOp

/-! ### One sort over a scan -/

namespace PhysicalPlan

/-- No sort. -/
def Unsorted : PhysicalPlan → Prop
  | .sort _ _ => False
  | .projectionExtract _ child => child.Unsorted
  | .pathBuild _ child => child.Unsorted
  | .expand _ | .other _ => True

/-- No sort and no full edge scan. -/
def ReadsWhole : PhysicalPlan → Prop
  | .expand op => op.full_edge_scan = false
  | .sort _ _ => False
  | .projectionExtract _ child => child.ReadsWhole
  | .pathBuild _ child => child.ReadsWhole
  | .other _ => True

variable {std : StdSort} {plan : PhysicalPlan} {k : Nat}

lemma reaching_prefix (h : plan.Unsorted) :
    plan.rows std = plan.reaching std k ++ (plan.rows std).drop (plan.reaching std k).length := by
  obtain ⟨late, hrows⟩ : ∃ late, plan.rows std = plan.reaching std k ++ late := by
    induction plan with
    | expand op =>
      rw [reaching]
      split
      · exact ⟨_, (take_append_drop _ _).symm⟩
      · exact ⟨[], (append_nil _).symm⟩
    | projectionExtract op child ih =>
      rw [reaching]
      split
      next hnone =>
        obtain ⟨late, hlate⟩ := ih h
        exact ⟨late.map op.output, by rw [rows_projectionExtract hnone, hlate, map_append]⟩
      next => exact ⟨[], (append_nil _).symm⟩
    | pathBuild op child ih =>
      obtain ⟨late, hlate⟩ := ih h
      exact ⟨late.map op.output, by rw [rows_pathBuild, hlate, map_append, reaching]⟩
    | sort op child ih => exact absurd h not_false
    | other stream => exact ⟨[], (append_nil _).symm⟩
  rw [hrows, drop_left]

lemma reaching_whole (h : plan.ReadsWhole) : plan.reaching std k = plan.rows std := by
  induction plan with
  | expand op =>
    have hfull : op.full_edge_scan = false := h
    rw [reaching, if_neg (by simp [hfull])]
  | projectionExtract op child ih =>
    rw [reaching]
    split
    next hnone => rw [rows_projectionExtract hnone, ih h]
    next => rfl
  | pathBuild op child ih => rw [reaching, rows_pathBuild, ih h]
  | sort op child ih => exact absurd h not_false
  | other stream => rfl

/-- With one sort the hint is safe if and only if each row that is not read has `k` rows before it,
ties counted, among those read. -/
theorem hintSafe_iff_unread {op : SortPhysicalOp} {child : PhysicalPlan} (h : op.Orders (child.rows std))
    (hchild : child.Unsorted) :
    (sort op child).HintSafe std k ↔ ∀ b ∈ (child.rows std).drop (child.reaching std k).length,
      k ≤ (child.reaching std k).countP fun a => !rowLess op.sort_items b a := by
  have hsplit : child.rows std = child.reaching std k ++ (child.rows std).drop (child.reaching std k).length :=
    reaching_prefix hchild
  have hstrict := h.strict
  rw [hsplit] at hstrict
  exact countP_part_iff hstrict (.of_eq hsplit)

/-- A sort whose input is read whole gets what it needs. -/
theorem hintSafe_of_readsWhole {op : SortPhysicalOp} {child : PhysicalPlan} (h : child.ReadsWhole) :
    (sort op child).HintSafe std k := by
  intro b _
  rw [reaching_whole h]
  exact Nat.min_le_right _ _

end PhysicalPlan

namespace LimitPhysicalOp

/-! ### Two edges ordered by a property -/

/-- `r.weight` of the edge in the second column. -/
def loadWeight (weight : EdgeId → Int64) (row : Row) : Value :=
  match (row[1]? : Option Value) with
  | some (.edgeKey k) => .int64 (weight k.id)
  | _ => .null

/-- The source, the edge, its weight and the destination. -/
def extractWeight (weight : EdgeId → Int64) : ProjectionExtractPhysicalOp where
  required_labels := []
  executeChunk chunk :=
    { columns := [(chunk.columns[0]?).getD (.constant .null), (chunk.columns[1]?).getD (.constant .null),
        .flat ⟨.ANY, chunk.rows.map (loadWeight weight), replicate chunk.count true⟩,
        (chunk.columns[2]?).getD (.constant .null)]
      count := chunk.count }
  output row := [(row[0]?).getD .null, (row[1]?).getD .null, loadWeight weight row, (row[2]?).getD .null]
  width := 4
  rows_eq _ chunk := by
    have hkept (c i : Nat) : ((chunk.columns[c]?).getD (.constant .null)).getValue i =
        ((chunk.row i)[c]?).getD .null := by
      rw [row, getElem?_map]
      cases chunk.columns[c]? <;> rfl
    apply ext_getElem
    · simp [rows]
    · intro i hi hi'
      have hlt : i < chunk.count := by simpa [rows] using hi'
      have hrow : (chunk.rows.map (loadWeight weight))[i]? = some (loadWeight weight (chunk.row i)) := by
        simp [rows, hlt]
      simp only [rows, getElem_map, getElem_range]
      rw [row]
      simp only [map_cons, map_nil, hkept]
      exact congrArg₂ cons rfl (congrArg₂ cons rfl
        (congrArg₂ cons (getValue_vector .ANY hlt hrow) rfl))
  width_eq _ := rfl

/-- What a limit finds below it for `MATCH ()-[r:T]->() RETURN r.since ORDER BY r.weight LIMIT 1`, over
two edges of one batch: `r.since` is loaded above the limit. -/
def byWeight (weight : EdgeId → Int64) : PhysicalPlan :=
  .sort ⟨[⟨fun row => (row[2]?).getD .null, true⟩], none⟩
    (.projectionExtract (extractWeight weight)
      (.expand
        { full_edge_scan := true, full_scan_labels := [1], undirected := false,
          scanEdgesByType := fun _ => [[⟨1, 2, 0, 1⟩, ⟨2, 3, 0, 2⟩]], neighbours := [],
          limit_hint := none }))

lemma byWeight_shaped (weight : EdgeId → Int64) : (byWeight weight).Shaped :=
  ⟨.inl rfl, 0, fun _ hrow => by cases hrow⟩

lemma byWeight_unhinted (weight : EdgeId → Int64) : (byWeight weight).Unhinted := ⟨rfl, rfl⟩

lemma byWeight_sortable (weight : EdgeId → Int64) : (byWeight weight).Sortable insertionSort := by
  refine ⟨orders_int64 ?_, trivial⟩
  intro item hitem row hrow
  rw [mem_singleton.mp hitem]
  have hrows : row ∈ [[Value.vertexRef 1, .edgeKey ⟨1, 1, 2, 1, 0⟩, .int64 (weight 1), .vertexRef 2],
      [.vertexRef 2, .edgeKey ⟨2, 2, 3, 1, 0⟩, .int64 (weight 2), .vertexRef 3]] := hrow
  rcases mem_cons.mp hrows with rfl | hrows
  · exact ⟨weight 1, rfl⟩
  · rw [mem_singleton.mp hrows]
    exact ⟨weight 2, rfl⟩

theorem hintsSound_iff_byWeight :
    HintsSound insertionSort 1 (byWeight fun id => if id = 1 then 3 else 5) :=
  (hintsSound_iff insertionSort (byWeight_shaped _) (byWeight_unhinted _) (byWeight_sortable _)
    (by decide)).mpr (by decide +kernel)

/-- The lighter edge comes second in the index: the sort is fed the first edge only. -/
theorem hint_cuts_the_sort :
    ¬ HintsSound insertionSort 1 (byWeight fun id => if id = 1 then 5 else 3) := by
  intro hsound
  have hsafe := (PhysicalPlan.sortedTop_iff (byWeight_shaped _) (byWeight_unhinted _)
    (byWeight_sortable _) (by decide)).mp hsound.sorted
  revert hsafe
  decide +kernel

end LimitPhysicalOp

end Eugraph.Dataset
