import Eugraph.Lib.EdgeWalks
import Eugraph.Optimizer.LogicalPlan

/-!
# Reversed variable-length expands

`physical_planner.cpp`, the branch for `BoundVarLenExpandOp`: an outgoing expand over zero or
more hops from a label scan is turned around, if its destination has labels.  The scan then
lists the destinations, and the edges are followed backwards to the sources.

Without an upper bound the search does not go on behind a vertex it has been at.  It may end
in such a vertex though, and the walks with a cycle at the end are not those with a cycle at
the start: turned around, the expand finds a pair as often as before just where there are as
many of the ones as of the others.
-/

namespace Eugraph.Optimizer

open Lib Dataset DataStore List Option Dataset.VarLenExpandPhysicalOp Dataset.Traversal Lib.EdgeWalks
  Dataset.StoredEdge Dataset.DataChunk Lib.Trails Dataset.Column PlanContext

/-! ### Label scans -/

structure BoundLabelScanOp where
  scan_variable : String
  column_index : UInt32
  label_ids : List LabelId
  label_prop_ids : List (LabelId × List PropId)

/-- `batched`: how the store hands out the vertices of a scan. -/
structure LabelScanPhysicalOp where
  label_ids : List LabelId
  anon_label_id : LabelId
  batched : List VertexId → List (List VertexId)

namespace LabelScanPhysicalOp

variable (op : LabelScanPhysicalOp) (store : ExpandReads)

/-- Whether a scanned vertex is put out; the labels are read if there are several. -/
def keeps (vid : VertexId) : Bool :=
  if 1 < op.label_ids.length then
    let vlabels := store.getVertexLabels vid
    let vlabels :=
      if op.anon_label_id ≠ INVALID_LABEL_ID then vlabels.filter (· ≠ op.anon_label_id) else vlabels
    op.label_ids.all vlabels.contains
  else true

/-- The chunk for one batch, with room for all of it. -/
def batchChunk (batch : List VertexId) : DataChunk :=
  ((batch.filter (op.keeps store)).map fun vid => [Cell.value (.vertexRef vid)]).foldl
    writeRow (ofKinds [.VERTEX_REF] batch.length)

def executeChunk : List DataChunk :=
  match op.label_ids with
  | [] => []
  | scan_label :: _ =>
    ((op.batched (store.scanVerticesByLabel scan_label)).map (op.batchChunk store)).filter
      (0 < ·.count)

end LabelScanPhysicalOp

/-! ### The expand and its reversal -/

open LabelScanPhysicalOp

/-- A variable-length expand over a label scan. -/
structure VarLenOverScan where
  op : BoundVarLenExpandOp
  scan : BoundLabelScanOp
  src_named : op.src_variable ≠ ""

namespace VarLenOverScan

/-- The planner reverses the expand. -/
def Reverses (v : VarLenOverScan) : Prop :=
  v.op.direction = .LEFT_TO_RIGHT ∧ v.op.min_hops = 0 ∧ v.op.max_hops = -1 ∧
    v.op.path_variable = "" ∧ v.op.edge_variable = "" ∧ v.op.bound_edge_list = false ∧
    v.op.edge_prop_filters.isEmpty ∧ v.scan.label_ids.length = 1 ∧ v.op.dst_label_ids ≠ []

instance (v : VarLenOverScan) : Decidable v.Reverses := by
  unfold Reverses
  infer_instance

/-- `var_slots`: the slots of the variables. -/
def reversed (var_slots : String → Option SlotId) (v : VarLenOverScan) : VarLenOverScan where
  op :=
    { v.op with
      src_variable := v.op.dst_variable
      dst_variable := v.op.src_variable
      src_column_index := 0
      dst_column_index := 0
      dst_slot_id := (var_slots v.op.src_variable).getD v.op.dst_slot_id
      dst_label_ids := v.scan.label_ids
      dst_label_prop_ids := v.scan.label_prop_ids
      direction := .RIGHT_TO_LEFT
      src_filter_index_id := v.op.dst_filter_index_id
      src_filter_value := v.op.dst_filter_value
      dst_filter_index_id := v.op.src_filter_index_id
      dst_filter_value := v.op.src_filter_value
      dst_named := v.src_named }
  scan :=
    { scan_variable := v.op.dst_variable
      column_index := 0
      label_ids := v.op.dst_label_ids
      label_prop_ids := v.op.dst_label_prop_ids }
  src_named := v.op.dst_named

/-- What the binder promises of the first hop of a pattern that starts with a label scan:
labels that the catalog does not know are no labels of the destination, and shortest paths
have no destination labels. -/
structure Bound (v : VarLenOverScan) : Prop where
  scanned : v.scan.scan_variable = v.op.src_variable
  first_hop : v.op.prev_edge_var = ""
  labels_known : v.op.dst_label_missing = true → v.op.dst_label_ids = []
  enumerates : v.op.shortest_path = true ∨ v.op.all_shortest_paths = true → v.op.dst_label_ids = []
  edge_labels : v.op.edge_label_ids.Nodup

/-- The labels of a pattern are user labels. -/
def UserLabels (anon_label_id : LabelId) (v : VarLenOverScan) : Prop :=
  anon_label_id ∉ v.scan.label_ids ∧ anon_label_id ∉ v.op.dst_label_ids

/-! ### Execution -/

def scanSchema (v : VarLenOverScan) : Schema := [v.scan.scan_variable]

def schema (v : VarLenOverScan) : Schema := v.scanSchema ++ varLenExpandColumns v.op v.scanSchema

variable (ctx : PlanContext)

/-- The operator with the types of its output columns. -/
def physical (v : VarLenOverScan) : VarLenExpandPhysicalOp :=
  let op := ctx.planVarLenExpand v.op v.scanSchema
  { op with
    output_types := .VERTEX_REF :: ((if op.dst_bound then [] else [.VERTEX_REF]) ++
      (if op.path_var = "" then [] else [.PATH]) ++
      (if op.edge_var ≠ "" ∧ ¬ op.edge_list_bound then [.LIST] else [])) }

def executeChunk (anon_label_id : LabelId) (batched : List VertexId → List (List VertexId))
    (fuel : Nat) (v : VarLenOverScan) : Option (List DataChunk) :=
  (v.physical ctx).executeChunk ctx.store.toGraphReads fuel
    ((⟨v.scan.label_ids, anon_label_id, batched⟩ : LabelScanPhysicalOp).executeChunk ctx.store)

/-- The vertex in the column of a variable. -/
def vertexOf (schema : Schema) (name : String) (row : Row) : VertexId :=
  (columnEnv schema row name).elim INVALID_VERTEX_ID cellVertexId

/-- The pairs of the two variables in an output. -/
def pairsOf (v : VarLenOverScan) (src dst : String) (out : List DataChunk) :
    List (VertexId × VertexId) :=
  (streamRows out).map fun row => (vertexOf v.schema src row, vertexOf v.schema dst row)

end VarLenOverScan

/-- What the store promises of the scans by label: each vertex once, and no invalid one. -/
structure ScansVertices (store : ExpandReads) : Prop where
  once : ∀ label, (store.scanVerticesByLabel label).Nodup
  valid : ∀ label, INVALID_VERTEX_ID ∉ store.scanVerticesByLabel label

/-! ### Scanned vertices -/

namespace LabelScanPhysicalOp

/-- The chunk holds the vertices in its only column. -/
def HoldsVertices (vids : List VertexId) (chunk : DataChunk) : Prop :=
  ∃ buffer : ColumnBuffer, chunk.columns = [.flat buffer] ∧ chunk.count = vids.length ∧
    ∀ (i : Nat) (hi : i < vids.length), buffer.getValue i = .vertexRef vids[i]

variable {op : LabelScanPhysicalOp} {store : ExpandReads}

lemma batchChunk_holds (batch : List VertexId) :
    HoldsVertices (batch.filter (op.keeps store)) (op.batchChunk store batch) := by
  have hholds : Holds [.VERTEX_REF] batch.length (op.batchChunk store batch)
      ([] ++ ((batch.filter (op.keeps store)).map fun vid => [Cell.value (.vertexRef vid)]).map
        fun cells => cells.map Cell.content) :=
    (holds_ofKinds [.VERTEX_REF] batch.length).foldl_writeRow _
      (by simpa using length_filter_le _ _)
      (by
        intro cells hcells
        obtain ⟨vid, -, rfl⟩ := List.mem_map.mp hcells
        exact .cons (.inr ⟨vid, rfl, rfl⟩) .nil)
  generalize op.batchChunk store batch = chunk at hholds
  generalize batch.filter (op.keeps store) = vids at hholds
  obtain ⟨col, rest, ⟨buffer, rfl, -⟩, hrest, heq⟩ := forall₂_cons_left_iff.mp hholds.writable
  obtain rfl := forall₂_nil_left_iff.mp hrest
  have hcount : chunk.count = vids.length := by simpa using hholds.count_eq
  refine ⟨buffer, heq, hcount, fun i hi => ?_⟩
  have hrow := congrArg (·[i]?) hholds.rows_eq
  simp only [rows, nil_append, List.map_map, List.getElem?_map] at hrow
  rw [List.getElem?_range (by omega), List.getElem?_eq_getElem hi] at hrow
  simp only [map_some, Option.some.injEq, row, heq] at hrow
  exact singleton_inj.mp hrow

/-- The vertices of a chunk, row by row. -/
def verticesOf (chunk : DataChunk) : List VertexId :=
  (range chunk.count).map fun i => cellVertexId (chunk.getValue 0 i)

lemma HoldsVertices.verticesOf {vids : List VertexId} {chunk : DataChunk}
    (h : HoldsVertices vids chunk) : LabelScanPhysicalOp.verticesOf chunk = vids := by
  obtain ⟨buffer, hcolumns, hcount, hvalue⟩ := h
  apply ext_getElem
  · simp [LabelScanPhysicalOp.verticesOf, hcount]
  · intro i hi hi'
    simp only [LabelScanPhysicalOp.verticesOf, getElem_map, getElem_range]
    simp only [DataChunk.getValue, hcolumns, List.getElem?_cons_zero, elim_some]
    rw [Column.getValue, hvalue i hi']
    rfl

lemma executeChunk_holds {chunk : DataChunk} (h : chunk ∈ op.executeChunk store) :
    HoldsVertices (verticesOf chunk) chunk := by
  unfold executeChunk at h
  split at h
  next => cases h
  next =>
    obtain ⟨batch, -, rfl⟩ := List.mem_map.mp (mem_filter.mp h).1
    have hholds : HoldsVertices (batch.filter (op.keeps store)) (op.batchChunk store batch) :=
      op.batchChunk_holds batch
    rwa [hholds.verticesOf]

/-- The scan puts out the vertices that have all labels. -/
theorem executeChunk_vertices (hbatched : ∀ vids, (op.batched vids).flatten = vids)
    {scan_label : LabelId} {rest : List LabelId} (hlabels : op.label_ids = scan_label :: rest) :
    (op.executeChunk store).flatMap verticesOf = (store.scanVerticesByLabel scan_label).filter (op.keeps store) := by
  unfold executeChunk
  rw [hlabels]
  conv_rhs => rw [← hbatched (store.scanVerticesByLabel scan_label), filter_flatten]
  simp only
  induction op.batched (store.scanVerticesByLabel scan_label) with
  | nil => rfl
  | cons batch batches ih =>
    have hholds : HoldsVertices (batch.filter (op.keeps store)) (op.batchChunk store batch) :=
      op.batchChunk_holds batch
    rw [map_cons, filter_cons, map_cons, flatten_cons, ← ih]
    split
    next => rw [flatMap_cons, hholds.verticesOf]
    next hempty =>
      have hnone : batch.filter (op.keeps store) = [] := by
        obtain ⟨-, -, hcount, -⟩ := hholds
        apply eq_nil_of_length_eq_zero
        simp only [decide_eq_true_eq] at hempty
        omega
      rw [hnone, nil_append]

lemma mem_scanned_iff (hreads : ∀ label v, v ∈ store.scanVerticesByLabel label ↔
      label ∈ store.getVertexLabels v) (hanon : op.anon_label_id ∉ op.label_ids)
    {scan_label : LabelId} {rest : List LabelId} (hlabels : op.label_ids = scan_label :: rest)
    (v : VertexId) :
    v ∈ (store.scanVerticesByLabel scan_label).filter (op.keeps store) ↔
      ∀ label ∈ op.label_ids, label ∈ store.getVertexLabels v := by
  have hkeeps : op.keeps store v = true ↔
      (1 < op.label_ids.length → ∀ label ∈ op.label_ids, label ∈ store.getVertexLabels v) := by
    unfold keeps
    by_cases hseveral : 1 < op.label_ids.length
    · rw [if_pos hseveral]
      simp only [List.all_eq_true, contains_iff_mem, hseveral, true_imp_iff]
      refine forall₂_congr fun label hmem => ?_
      have hne : label ≠ op.anon_label_id := fun heq => hanon (heq ▸ hmem)
      split
      · simp [mem_filter, hne]
      · rfl
    · rw [if_neg hseveral]
      simp [hseveral]
  rw [mem_filter, hreads, hkeeps]
  constructor
  · rintro ⟨hfirst, hall⟩
    by_cases hseveral : 1 < op.label_ids.length
    · exact hall hseveral
    · have hrest : rest = [] := by
        apply eq_nil_of_length_eq_zero
        rw [hlabels, length_cons] at hseveral
        omega
      intro label hmem
      rw [hlabels, hrest, mem_singleton] at hmem
      rwa [hmem]
  · intro hall
    exact ⟨hall _ (by simp [hlabels]), fun _ => hall⟩

end LabelScanPhysicalOp

/-! ### Walks as edges -/

section Directed

/-- Where an edge is followed from, and where it leads. -/
def edgeFrom (direction : Direction) (e : StoredEdge) : VertexId :=
  if direction = .OUT then e.src else e.dst

def edgeTo (direction : Direction) (e : StoredEdge) : VertexId :=
  if direction = .OUT then e.dst else e.src

def stepAlong (direction : Direction) (e : StoredEdge) : Traversal := ⟨e, edgeTo direction e⟩

variable {g : Graph} {direction : Direction}

lemma follows_iff (hdirected : direction ≠ .BOTH) (v : VertexId) (t : Traversal) : g.Follows direction v t ↔
      t.edge ∈ g.edges ∧ edgeFrom direction t.edge = v ∧ t = stepAlong direction t.edge := by
  obtain ⟨e, vertex⟩ := t
  cases direction with
  | OUT => simp [Graph.Follows, edgeFrom, edgeTo, stepAlong]
  | IN => simp [Graph.Follows, edgeFrom, edgeTo, stepAlong]
  | BOTH => exact absurd rfl hdirected

lemma isWalk_iff (hdirected : direction ≠ .BOTH) (s : VertexId) (walk : List Traversal) :
    IsWalk (g.Follows direction) vertex s walk ↔
      ∃ es : List StoredEdge, walk = es.map (stepAlong direction) ∧ (∀ e ∈ es, e ∈ g.edges) ∧
        Leads (edgeFrom direction) (edgeTo direction) s es
          (lastVertex vertex s walk) := by
  induction walk generalizing s with
  | nil =>
    constructor
    · intro _
      exact ⟨[], rfl, by simp, .nil s⟩
    · intro _
      exact .nil s
  | cons t walk ih =>
    constructor
    · intro h
      cases h with
      | cons hstep hrest =>
        obtain ⟨hmem, hfrom, ht⟩ := (follows_iff hdirected s t).mp hstep
        obtain ⟨es, hwalk, hedges, hleads⟩ := (ih t.vertex).mp hrest
        refine ⟨t.edge :: es, ?_, forall_mem_cons.mpr ⟨hmem, hedges⟩, ?_⟩
        · rw [map_cons, ← ht, hwalk]
        · rw [leads_cons_iff]
          refine ⟨hfrom, ?_⟩
          have hto : edgeTo direction t.edge = t.vertex := (congrArg vertex ht).symm
          rw [hto]
          exact hleads
    · rintro ⟨es, hwalk, hedges, hleads⟩
      cases es with
      | nil => cases hwalk
      | cons e es =>
        obtain ⟨rfl, hrest⟩ := List.cons.inj hwalk
        obtain ⟨hmem, hedges⟩ := forall_mem_cons.mp hedges
        obtain ⟨hfrom, hleads⟩ := leads_cons_iff.mp hleads
        exact .cons ((follows_iff hdirected s _).mpr ⟨hmem, hfrom, rfl⟩) ((ih _).mpr ⟨es, hrest, hedges, hleads⟩)

lemma stepAlong_injective (direction : Direction) : Function.Injective (stepAlong direction) :=
  fun _ _ h => congrArg edge h

lemma lastVertex_map {s d : VertexId} {es : List StoredEdge}
    (h : Leads (edgeFrom direction) (edgeTo direction) s es d) :
    lastVertex vertex s (es.map (stepAlong direction)) = d := by
  induction h with
  | nil v => rfl
  | cons _ ih => exact ih

/-- A walk that leaves no vertex twice uses no edge twice. -/
theorem nodup_ids_of_from {es : List StoredEdge} (hedges : ∀ e ∈ es, e ∈ g.edges)
    (h : (es.map (edgeFrom direction)).Nodup) : (es.map (·.id)).Nodup := by
  have hes : es.Nodup := List.Nodup.of_map _ h
  refine hes.map_on fun e he f hf hid => ?_
  exact inj_on_of_nodup_map g.distinct (hedges e he) (hedges f hf) hid

end Directed

/-! ### How often a pair is found -/

namespace VarLenOverScan

/-- What the expand has in common with its reversal. -/
structure Unbounded (anon_label_id : LabelId) (v : VarLenOverScan) : Prop where
  directed : scanDirection v.op.direction ≠ .BOTH
  min_hops : v.op.min_hops = 0
  max_hops : v.op.max_hops = -1
  no_path : v.op.path_variable = ""
  no_edges : v.op.edge_variable = ""
  no_edge_list : v.op.bound_edge_list = false
  no_filters : v.op.edge_prop_filters = []
  first_hop : v.op.prev_edge_var = ""
  labels_known : v.op.dst_label_missing = false
  scanned : v.scan.scan_variable = v.op.src_variable
  edge_labels : v.op.edge_label_ids.Nodup
  scan_labels : v.scan.label_ids ≠ []
  user_labels : anon_label_id ∉ v.scan.label_ids

lemma Unbounded.of_reverses {anon_label_id : LabelId} {v : VarLenOverScan} (h : v.Reverses)
    (hbound : v.Bound) (huser : v.UserLabels anon_label_id) : v.Unbounded anon_label_id := by
  obtain ⟨hdirection, hmin, hmax, hpath, hedge, hlist, hfilters, hscan, hdst⟩ := h
  exact {
    directed := by rw [hdirection]; decide
    min_hops := hmin
    max_hops := hmax
    no_path := hpath
    no_edges := hedge
    no_edge_list := hlist
    no_filters := List.isEmpty_iff.mp hfilters
    first_hop := hbound.first_hop
    labels_known := by
      by_contra hmissing
      exact hdst (hbound.labels_known (Bool.eq_true_of_not_eq_false hmissing))
    scanned := hbound.scanned
    edge_labels := hbound.edge_labels
    scan_labels := by
      intro hnone
      rw [hnone] at hscan
      cases hscan
    user_labels := huser.1 }

lemma Unbounded.reversed {anon_label_id : LabelId} {v : VarLenOverScan} (h : v.Reverses)
    (hbound : v.Bound) (huser : v.UserLabels anon_label_id) (var_slots : String → Option SlotId) :
    (v.reversed var_slots).Unbounded anon_label_id := by
  have hv := Unbounded.of_reverses h hbound huser
  exact {
    hv with
    directed := by
      show Direction.IN ≠ .BOTH
      decide
    scanned := rfl
    scan_labels := h.2.2.2.2.2.2.2.2
    user_labels := huser.2 }

variable (ctx : PlanContext)

/-- The edges the expand may follow. -/
def Allowed (v : VarLenOverScan) (e : StoredEdge) : Prop :=
  e ∈ ctx.graph.edges ∧ (v.physical ctx).labelPasses e.label_id = true

/-- The end points the expand asks for: their labels, the values of the index filters, and for
one variable at both ends the same vertex. -/
def Connects (v : VarLenOverScan) (s d : VertexId) : Prop :=
  (∀ label ∈ v.scan.label_ids, label ∈ ctx.store.getVertexLabels s) ∧
    (∀ label ∈ v.op.dst_label_ids, label ∈ ctx.store.getVertexLabels d) ∧
    ((v.physical ctx).srcMatches ctx.store.toGraphReads s = true ∨
      (v.physical ctx).dstMatches ctx.store.toGraphReads d = true) ∧
    (v.op.src_variable = v.op.dst_variable → s = d)

/-- The walks from `s` to `d` the search meets. -/
def walksBetween (v : VarLenOverScan) (s d : VertexId) : Set (List StoredEdge) :=
  leavingOnce (edgeFrom (scanDirection v.op.direction)) (edgeTo (scanDirection v.op.direction))
    (v.Allowed ctx) s d

section OneExpand

variable {ctx} {v : VarLenOverScan} {anon_label_id : LabelId}

lemma dst_bound_iff (hscanned : v.scan.scan_variable = v.op.src_variable) :
    (v.physical ctx).dst_bound = true ↔ v.op.src_variable = v.op.dst_variable := by
  show (existing v.scanSchema v.op.dst_variable).isSome = true ↔ _
  rw [existing, if_neg v.op.dst_named, findColumn_isSome, scanSchema, mem_singleton, hscanned]
  exact eq_comm

lemma dst_col_idx_eq (v : VarLenOverScan) : (v.physical ctx).dst_col_idx = 0 := by
  show (existing v.scanSchema v.op.dst_variable).getD 0 = 0
  rw [existing, if_neg v.op.dst_named]
  cases hcol : findColumn v.scanSchema v.op.dst_variable with
  | none => rfl
  | some c =>
    have hlt := findColumn_lt hcol
    simp only [scanSchema, length_singleton] at hlt
    exact (by omega : c = 0)

variable {chunk : DataChunk} {buffer : ColumnBuffer}

/-- The source row of a scanned vertex. -/
theorem sourceRow_eq (h : v.Unbounded anon_label_id)
    (hcolumns : chunk.columns = [.flat buffer]) {i : Nat} {s : VertexId}
    (hs : buffer.getValue i = .vertexRef s) (hvalid : s ≠ INVALID_VERTEX_ID) :
    (v.physical ctx).sourceRow chunk i = some
      { src_row := i, src_val := .vertexRef s, src_id := s, expected_edge_ids := []
        prev_edge_id := INVALID_EDGE_ID, bound_dst := s } := by
  have hvalue : chunk.getValue 0 i = .vertexRef s := by
    simp [DataChunk.getValue, hcolumns, Column.getValue, hs]
  have hsrc : (v.physical ctx).src_col_idx = some 0 := by
    show findColumn [v.scan.scan_variable] v.op.src_variable = some 0
    simp [findColumn, h.scanned]
  have hlist : (v.physical ctx).edge_list_bound = false := h.no_edge_list
  have hprev : (v.physical ctx).prev_edge_col_idx = none := by
    show existing v.scanSchema v.op.prev_edge_var = none
    rw [existing, if_pos h.first_hop]
  unfold VarLenExpandPhysicalOp.sourceRow
  simp [hsrc, hlist, hprev, hcolumns, hvalue, dst_col_idx_eq, Column.cellVertexId, hvalid, Option.filter]

/-- The walks of a scanned vertex to `d`. -/
theorem accepts_iff (h : v.Unbounded anon_label_id)
    (hcolumns : chunk.columns = [.flat buffer]) {i : Nat} {s : VertexId}
    (hs : buffer.getValue i = .vertexRef s) (hvalid : s ≠ INVALID_VERTEX_ID)
    (hlabels : ∀ label ∈ v.scan.label_ids, label ∈ ctx.store.getVertexLabels s)
    (walk : List Traversal) (d : VertexId) :
    (v.physical ctx).Accepts ctx.store.toGraphReads ctx.graph chunk i walk ∧ lastVertex vertex s walk = d ↔
      v.Connects ctx s d ∧ walk ∈ map (stepAlong (scanDirection v.op.direction)) '' v.walksBetween ctx s d := by
  have hmax : (v.physical ctx).max_hops < 0 := by
    show v.op.max_hops < 0
    rw [h.max_hops]
    decide
  have hmin : (v.physical ctx).min_hops = 0 := h.min_hops
  have hedge_list : (v.physical ctx).edge_list_bound = false := h.no_edge_list
  have hpasses : ∀ label_id edge_id, (v.physical ctx).edgePasses ctx.store.toGraphReads label_id edge_id = true := by
    intro label_id edge_id
    have hnone : (v.physical ctx).edge_prop_filters label_id = [] := by
      show (v.op.edge_prop_filters.lookup label_id).getD [] = []
      rw [h.no_filters]
      rfl
    simp [edgePasses, hnone]
  -- the bound destination of the row is its source
  have hbound : ∀ r : SourceRow, r.bound_dst = s → ∀ steps,
      (v.physical ctx).boundMatches r steps d = true ↔ (v.op.src_variable = v.op.dst_variable → s = d) := by
    intro r hr steps
    have hdst : (v.physical ctx).dst_bound = true ↔ v.op.src_variable = v.op.dst_variable := dst_bound_iff h.scanned
    rw [← hdst]
    simp only [boundMatches, hedge_list, hr]
    cases (v.physical ctx).dst_bound <;> simp
  have hallowed : (v.physical ctx).labelsAllowed (ctx.store.getVertexLabels d) = true ↔
      ∀ label ∈ v.op.dst_label_ids, label ∈ ctx.store.getVertexLabels d := by
    show v.op.dst_label_ids.all (ctx.store.getVertexLabels d).contains = true ↔ _
    simp
  unfold Accepts
  rw [sourceRow_eq h hcolumns hs hvalid]
  constructor
  · rintro ⟨⟨-, r, hr, htrail, hleaves⟩, hlast⟩
    obtain rfl := Option.some.inj hr
    obtain ⟨es, rfl, hedges, hleads⟩ := (isWalk_iff h.directed s walk).mp htrail.follows
    have hlabels_d := htrail.labels
    have hindex := htrail.index
    have hends := htrail.bound
    simp only [hlast] at hleads hlabels_d hindex hends
    refine ⟨⟨hlabels, hallowed.mp hlabels_d, hindex, (hbound _ rfl _).mp hends⟩, es, ⟨?_, hleads, ?_⟩, rfl⟩
    · intro e he
      exact ⟨hedges e he, (htrail.passes _ (List.mem_map_of_mem he)).1⟩
    · rw [← hleads.nodup_left_iff]
      have honce := hleaves hmax
      rw [← map_dropLast, List.map_map] at honce
      exact honce
  · rintro ⟨⟨-, hlabels_d, hindex, hends⟩, es, ⟨hedges, hleads, honce⟩, rfl⟩
    have hlast : lastVertex vertex s
        (es.map (stepAlong (scanDirection v.op.direction))) = d := lastVertex_map hleads
    refine ⟨⟨h.labels_known, _, rfl, ?_, ?_⟩, hlast⟩
    · exact {
        follows := (isWalk_iff h.directed s _).mpr
          ⟨es, rfl, fun e he => (hedges e he).1, by rw [hlast]; exact hleads⟩
        distinct := by
          rw [List.map_map]
          exact nodup_ids_of_from (fun e he => (hedges e he).1) honce
        passes := by
          intro t ht
          obtain ⟨e, he, rfl⟩ := List.mem_map.mp ht
          exact ⟨(hedges e he).2, hpasses _ _, fun hprev => absurd rfl hprev⟩
        least := by omega
        most := .inl hmax
        index := by simp only [hlast]; exact hindex
        labels := by simp only [hlast]; exact hallowed.mpr hlabels_d
        bound := by simp only [hlast]; exact (hbound _ rfl _).mpr hends }
    · intro _
      rw [← map_dropLast, List.map_map]
      exact hleads.nodup_left_iff.mpr honce

lemma schema_eq (h : v.Unbounded anon_label_id) :
    v.schema = if v.op.src_variable = v.op.dst_variable then [v.op.src_variable]
      else [v.op.src_variable, v.op.dst_variable] := by
  unfold schema scanSchema varLenExpandColumns newColumn
  rw [h.scanned, h.no_path, h.no_edges]
  by_cases hsame : v.op.src_variable = v.op.dst_variable
  · simp [hsame]
  · have hne : ¬ v.op.dst_variable = v.op.src_variable := fun heq => hsame heq.symm
    simp [hsame, hne, v.op.dst_named]

/-- The pair an output row shows. -/
theorem pair_outputRow (h : v.Unbounded anon_label_id)
    (hcolumns : chunk.columns = [.flat buffer]) {i : Nat} {s : VertexId}
    (hs : buffer.getValue i = .vertexRef s) (hvalid : s ≠ INVALID_VERTEX_ID) {walk : List Traversal}
    (hends : v.op.src_variable = v.op.dst_variable → s = lastVertex vertex s walk) :
    let row := (v.physical ctx).outputRow ctx.store.toGraphReads chunk i walk
    (vertexOf v.schema v.op.src_variable row, vertexOf v.schema v.op.dst_variable row) =
      (s, lastVertex vertex s walk) := by
  have hcarried : carriedValue i (.flat buffer) = .vertexRef s := hs
  have hpath : (v.physical ctx).path_var = "" := h.no_path
  have hedge : (v.physical ctx).edge_var = "" := h.no_edges
  have hdst : (v.physical ctx).dst_bound = true ↔ v.op.src_variable = v.op.dst_variable := dst_bound_iff h.scanned
  have hrow : (v.physical ctx).outputRow ctx.store.toGraphReads chunk i walk =
      if v.op.src_variable = v.op.dst_variable then [.vertexRef s]
      else [.vertexRef s, .vertexRef (lastVertex vertex s walk)] := by
    unfold outputRow
    rw [sourceRow_eq h hcolumns hs hvalid, elim_some]
    simp only [walkRow, entryRow, hcolumns, outputEntry, hpath, hedge, map_cons, map_nil, hcarried]
    by_cases hsame : v.op.src_variable = v.op.dst_variable
    · simp [hdst.mpr hsame, hsame]
    · have hfree : (v.physical ctx).dst_bound = false := by
        rw [← Bool.not_eq_true, hdst]
        exact hsame
      simp [hfree, hsame]
  simp only [hrow, schema_eq h]
  by_cases hsame : v.op.src_variable = v.op.dst_variable
  · rw [if_pos hsame, if_pos hsame, ← hends hsame, ← hsame]
    simp [vertexOf, columnEnv, findColumn, cellVertexId]
  · simp [hsame, vertexOf, columnEnv, findColumn, cellVertexId, findIdx?_cons]

/-- The planned operator is well planned above its scan. -/
theorem wellPlanned (h : v.Unbounded anon_label_id) (hdefs : ctx.edge_label_defs.Nodup) {left : List DataChunk}
    (hleft : ∀ chunk ∈ left, ∃ buffer : ColumnBuffer, chunk.columns = [.flat buffer]) :
    (v.physical ctx).WellPlanned left where
  types chunk hchunk := by
    obtain ⟨buffer, hcolumns⟩ := hleft chunk hchunk
    rw [hcolumns]
    rfl
  labels labels hlabels := by
    have hfilters : ctx.labelFilters v.op.edge_label_ids v.op.all_edge_labels
        (existing v.scanSchema v.op.dst_variable).isSome = some labels := hlabels
    unfold labelFilters at hfilters
    split at hfilters
    · split at hfilters
      · exact Option.some.inj hfilters ▸ hdefs
      · cases hfilters
    · exact Option.some.inj hfilters ▸ h.edge_labels
  min_hops := by
    show 0 ≤ v.op.min_hops
    rw [h.min_hops]

lemma ncard_setOf_mem {α : Type} {xs : List α} (h : xs.Nodup) : {x | x ∈ xs}.ncard = xs.length := by
  classical
  have hset : {x | x ∈ xs} = (xs.toFinset : Set α) := by
    ext x
    simp
  rw [hset, Set.ncard_coe_finset, toFinset_card_of_nodup h]

/-- A row of the scan with its vertex. -/
theorem row_vertex (h : HoldsVertices
      (verticesOf chunk) chunk) {i : Nat} (hi : i < chunk.count) :
    ∃ buffer : ColumnBuffer, chunk.columns = [.flat buffer] ∧
      buffer.getValue i = .vertexRef (cellVertexId (chunk.getValue 0 i)) := by
  obtain ⟨buffer, hcolumns, hcount, hvalue⟩ := h
  refine ⟨buffer, hcolumns, ?_⟩
  have hvertex := hvalue i (by rw [← hcount]; exact hi)
  simpa [verticesOf] using hvertex

/-- Each pair that is asked for is found once for each walk between its vertices, in an output
with one row for each walk of each scanned vertex. -/
theorem count_walks (h : v.Unbounded anon_label_id) {left out : List DataChunk}
    (hchunks : ∀ chunk ∈ left, HoldsVertices (verticesOf chunk) chunk)
    (honce : (left.flatMap verticesOf).Nodup)
    (hvalid : INVALID_VERTEX_ID ∉ left.flatMap verticesOf)
    (hscanned : ∀ s, s ∈ left.flatMap verticesOf ↔ ∀ label ∈ v.scan.label_ids, label ∈ ctx.store.getVertexLabels s)
    {walks : DataChunk → Nat → List (List Traversal)}
    (hwalks : ∀ chunk i, (walks chunk i).Nodup ∧ ∀ walk, walk ∈ walks chunk i ↔
      (v.physical ctx).Accepts ctx.store.toGraphReads ctx.graph chunk i walk)
    (hrows : streamRows out = left.flatMap fun chunk => (range chunk.count).flatMap fun i =>
      (walks chunk i).map ((v.physical ctx).outputRow ctx.store.toGraphReads chunk i))
    (s d : VertexId) :
    (v.Connects ctx s d → (v.walksBetween ctx s d).Finite ∧
        (v.pairsOf v.op.src_variable v.op.dst_variable out).count (s, d) = (v.walksBetween ctx s d).ncard) ∧
      (¬ v.Connects ctx s d → (v.pairsOf v.op.src_variable v.op.dst_variable out).count (s, d) = 0) := by
  let xs : List (DataChunk × Nat) := left.flatMap fun chunk => (range chunk.count).map fun i => (chunk, i)
  let key : DataChunk × Nat → VertexId := fun x => cellVertexId (x.1.getValue 0 x.2)
  have hkeys : xs.map key = left.flatMap verticesOf := by
    simp only [xs, map_flatMap, List.map_map]
    rfl
  have hposition : ∀ x ∈ xs, ∃ buffer : ColumnBuffer, x.1.columns = [.flat buffer] ∧
      buffer.getValue x.2 = .vertexRef (key x) := by
    intro x hx
    obtain ⟨chunk, hchunk, hmem⟩ := mem_flatMap.mp hx
    obtain ⟨i, hi, rfl⟩ := List.mem_map.mp hmem
    exact row_vertex (hchunks chunk hchunk) (mem_range.mp hi)
  have hkey : ∀ x ∈ xs, key x ∈ left.flatMap verticesOf := by
    intro x hx
    rw [← hkeys]
    exact List.mem_map_of_mem hx
  have hne : ∀ x ∈ xs, key x ≠ INVALID_VERTEX_ID := fun x hx heq => hvalid (heq ▸ hkey x hx)
  -- the walks of one row to `d`
  have haccepts : ∀ x ∈ xs, ∀ walk d, (walk ∈ walks x.1 x.2 ∧
      lastVertex vertex (key x) walk = d) ↔ (v.Connects ctx (key x) d ∧
        walk ∈ map (stepAlong (scanDirection v.op.direction)) '' v.walksBetween ctx (key x) d) := by
    intro x hx walk d
    obtain ⟨buffer, hcolumns, hvalue⟩ := hposition x hx
    rw [(hwalks x.1 x.2).2]
    exact accepts_iff h hcolumns hvalue (hne x hx) ((hscanned _).mp (hkey x hx)) walk d
  have hpairs : v.pairsOf v.op.src_variable v.op.dst_variable out = xs.flatMap fun x =>
      (walks x.1 x.2).map fun walk => (key x, lastVertex vertex (key x) walk) := by
    have hflat : streamRows out = xs.flatMap fun x =>
        (walks x.1 x.2).map ((v.physical ctx).outputRow ctx.store.toGraphReads x.1 x.2) := by
      rw [hrows]
      simp only [xs, flatMap_assoc, flatMap_map]
    rw [pairsOf, hflat, map_flatMap]
    refine flatMap_congr fun x hx => ?_
    obtain ⟨buffer, hcolumns, hvalue⟩ := hposition x hx
    rw [List.map_map]
    refine map_congr_left fun walk hwalk => ?_
    refine pair_outputRow h hcolumns hvalue (hne x hx) fun hsame => ?_
    exact ((haccepts x hx walk _).mp ⟨hwalk, rfl⟩).1.2.2.2 hsame
  have hcount : ∀ x ∈ xs, ∀ d, (v.pairsOf v.op.src_variable v.op.dst_variable out).count (key x, d) =
      ((walks x.1 x.2).filter fun walk =>
        lastVertex vertex (key x) walk = d).length := by
    intro x hx d
    rw [hpairs, Joins.count_keyed (by rw [hkeys]; exact honce) hx, countP_eq_length_filter]
  constructor
  · intro hconnects
    have hs := (hscanned s).mpr hconnects.1
    rw [← hkeys] at hs
    obtain ⟨x, hx, rfl⟩ := List.mem_map.mp hs
    have himage : {walk | walk ∈ (walks x.1 x.2).filter fun walk =>
          lastVertex vertex (key x) walk = d} =
        map (stepAlong (scanDirection v.op.direction)) '' v.walksBetween ctx (key x) d := by
      ext walk
      have hiff := haccepts x hx walk d
      simp only [hconnects, true_and] at hiff
      simpa using hiff
    have hinjective := map_injective_iff.mpr (stepAlong_injective (scanDirection v.op.direction))
    refine ⟨?_, ?_⟩
    · apply Set.Finite.of_finite_image _ hinjective.injOn
      rw [← himage]
      exact finite_toSet _
    · rw [hcount x hx, ← ncard_setOf_mem ((hwalks x.1 x.2).1.filter _), himage,
        Set.ncard_image_of_injective _ hinjective]
  · intro hnot
    by_cases hs : s ∈ xs.map key
    · obtain ⟨x, hx, rfl⟩ := List.mem_map.mp hs
      rw [hcount x hx, length_eq_zero_iff, filter_eq_nil_iff]
      intro walk hwalk hlast
      exact hnot ((haccepts x hx walk d).mp ⟨hwalk, of_decide_eq_true hlast⟩).1
    · rw [hpairs]
      exact Joins.count_keyed_of_not_mem hs d

/-- How often a pair is found. -/
theorem count_pairs (h : v.Unbounded anon_label_id) (hreads : ctx.store.Holds ctx.graph)
    (hscans : ScansVertices ctx.store) (hdefs : ctx.edge_label_defs.Nodup)
    {batched : List VertexId → List (List VertexId)} (hbatched : ∀ vids, (batched vids).flatten = vids) :
    ∃ out, (∃ bound, ∀ fuel, bound ≤ fuel → v.executeChunk ctx anon_label_id batched fuel = some out) ∧
      ∀ s d, (v.Connects ctx s d → (v.walksBetween ctx s d).Finite ∧
          (v.pairsOf v.op.src_variable v.op.dst_variable out).count (s, d) = (v.walksBetween ctx s d).ncard) ∧
        (¬ v.Connects ctx s d → (v.pairsOf v.op.src_variable v.op.dst_variable out).count (s, d) = 0) := by
  obtain ⟨scan_label, rest, hscan⟩ := exists_cons_of_ne_nil h.scan_labels
  let scan : LabelScanPhysicalOp := ⟨v.scan.label_ids, anon_label_id, batched⟩
  have hvertices : (scan.executeChunk ctx.store).flatMap verticesOf = _ :=
    scan.executeChunk_vertices hbatched hscan
  have hchunks : ∀ chunk ∈ scan.executeChunk ctx.store, HoldsVertices (verticesOf chunk) chunk :=
    fun chunk hchunk => executeChunk_holds hchunk
  have hplan : (v.physical ctx).WellPlanned (scan.executeChunk ctx.store) :=
    wellPlanned h hdefs fun chunk hchunk => by
      obtain ⟨buffer, hcolumns, -⟩ := hchunks chunk hchunk
      exact ⟨buffer, hcolumns⟩
  obtain ⟨walks, hwalks, out, hout, hrows⟩ := executeChunk_trails
    hreads.toHolds hplan fun hboth => absurd hboth h.directed
  refine ⟨out, hout, count_walks h hchunks ?_ ?_ ?_ hwalks hrows⟩
  · rw [hvertices]
    exact (hscans.once scan_label).filter _
  · rw [hvertices]
    exact fun hmem => hscans.valid scan_label (mem_filter.mp hmem).1
  · rw [hvertices]
    exact scan.mem_scanned_iff hreads.by_label h.user_labels hscan

end OneExpand

/-! ### The reversed expand -/

/-- The walks with a cycle at one of their ends, between two vertices. -/
def walksEndingInCycle (v : VarLenOverScan) (s d : VertexId) : Set (List StoredEdge) :=
  endingInCycle src dst (v.Allowed ctx) s d

def walksStartingInCycle (v : VarLenOverScan) (s d : VertexId) : Set (List StoredEdge) :=
  startingInCycle src dst (v.Allowed ctx) s d

section Reversed

variable {ctx} {v : VarLenOverScan} (var_slots : String → Option SlotId)

lemma reversed_allowed (hscanned : v.scan.scan_variable = v.op.src_variable) :
    (v.reversed var_slots).Allowed ctx = v.Allowed ctx := by
  have hbound : ((v.reversed var_slots).physical ctx).dst_bound = (v.physical ctx).dst_bound := by
    rw [Bool.eq_iff_iff, dst_bound_iff hscanned, dst_bound_iff rfl]
    exact eq_comm
  have hfilters : ((v.reversed var_slots).physical ctx).label_filters = (v.physical ctx).label_filters :=
    congrArg (ctx.labelFilters v.op.edge_label_ids v.op.all_edge_labels) hbound
  unfold Allowed labelPasses
  rw [hfilters]

lemma reversed_connects_iff (s d : VertexId) : (v.reversed var_slots).Connects ctx d s ↔ v.Connects ctx s d := by
  constructor
  · rintro ⟨hd, hs, hindex, hsame⟩
    exact ⟨hs, hd, hindex.symm, fun heq => (hsame heq.symm).symm⟩
  · rintro ⟨hs, hd, hindex, hsame⟩
    exact ⟨hd, hs, hindex.symm, fun heq => (hsame heq.symm).symm⟩

/-- The walks of the reversed expand are those that enter no vertex twice, read backwards. -/
theorem reversed_walks (hscanned : v.scan.scan_variable = v.op.src_variable) (s d : VertexId) :
    (v.reversed var_slots).walksBetween ctx d s = leavingOnce dst src (v.Allowed ctx) d s := by
  unfold walksBetween
  rw [reversed_allowed var_slots hscanned]
  rfl

end Reversed

/-- Without cycles through the two vertices both counts are zero. -/
theorem cycles_balance_of_none {ctx : PlanContext} {v : VarLenOverScan} {s d : VertexId}
    (hnone : ∀ u, u = s ∨ u = d → ∀ c ≠ [], (∀ e ∈ c, v.Allowed ctx e) → ¬ Leads src dst u c u) :
    (v.walksEndingInCycle ctx s d).ncard = (v.walksStartingInCycle ctx s d).ncard := by
  have hend : v.walksEndingInCycle ctx s d = ∅ := by
    refine Set.eq_empty_of_forall_notMem ?_
    rintro _ ⟨⟨hallowed, -⟩, p, c, -, hc, rfl, -, hcycle⟩
    exact hnone d (.inr rfl) c hc (fun e he => hallowed e (mem_append_right _ he)) hcycle
  have hstart : v.walksStartingInCycle ctx s d = ∅ := by
    refine Set.eq_empty_of_forall_notMem ?_
    rintro _ ⟨⟨hallowed, -⟩, c, p, hc, -, rfl, hcycle, -⟩
    exact hnone s (.inl rfl) c hc (fun e he => hallowed e (mem_append_left _ he)) hcycle
  rw [hend, hstart]

/-- Turned around, the expand finds the same pairs equally often just where, between any two
vertices it connects, as many walks that leave no vertex twice end with a cycle as walks that
enter no vertex twice start with one. -/
theorem reversed_pairs_iff {ctx : PlanContext} {v : VarLenOverScan} {anon_label_id : LabelId}
    (h : v.Reverses) (hbound : v.Bound) (huser : v.UserLabels anon_label_id)
    (hreads : ctx.store.Holds ctx.graph) (hscans : ScansVertices ctx.store)
    (hdefs : ctx.edge_label_defs.Nodup) (var_slots : String → Option SlotId)
    {batched : List VertexId → List (List VertexId)} (hbatched : ∀ vids, (batched vids).flatten = vids) :
    ∃ out reversed_out, (∃ bound, ∀ fuel, bound ≤ fuel → v.executeChunk ctx anon_label_id batched fuel = some out ∧
          (v.reversed var_slots).executeChunk ctx anon_label_id batched fuel = some reversed_out) ∧
      ((v.pairsOf v.op.src_variable v.op.dst_variable out).Perm
          ((v.reversed var_slots).pairsOf v.op.src_variable v.op.dst_variable reversed_out) ↔
        ∀ s d, v.Connects ctx s d →
          (v.walksEndingInCycle ctx s d).ncard = (v.walksStartingInCycle ctx s d).ncard) := by
  obtain ⟨out, ⟨bound₁, hout⟩, hcount⟩ :=
    count_pairs (Unbounded.of_reverses h hbound huser) hreads hscans hdefs hbatched
  obtain ⟨reversed_out, ⟨bound₂, hreversed_out⟩, hreversed⟩ :=
    count_pairs (Unbounded.reversed h hbound huser var_slots) hreads hscans hdefs hbatched
  refine ⟨out, reversed_out, ⟨max bound₁ bound₂, fun fuel hfuel =>
    ⟨hout fuel (by omega), hreversed_out fuel (by omega)⟩⟩, ?_⟩
  have hforward : ∀ s d, v.walksBetween ctx s d = leavingOnce src dst (v.Allowed ctx) s d := by
    intro s d
    unfold walksBetween
    rw [h.1]
    rfl
  -- the reversed output shows the pairs the other way round
  have hswap : ∀ s d, ((v.reversed var_slots).pairsOf v.op.src_variable v.op.dst_variable
      reversed_out).count (s, d) = ((v.reversed var_slots).pairsOf
        (v.reversed var_slots).op.src_variable (v.reversed var_slots).op.dst_variable
        reversed_out).count (d, s) := by
    intro s d
    have hmap : (v.reversed var_slots).pairsOf v.op.src_variable v.op.dst_variable reversed_out =
        ((v.reversed var_slots).pairsOf (v.reversed var_slots).op.src_variable
          (v.reversed var_slots).op.dst_variable reversed_out).map Prod.swap := by
      rw [pairsOf, pairsOf, List.map_map]
      rfl
    rw [hmap]
    exact count_map_of_injective _ _ Prod.swap_injective (d, s)
  rw [perm_iff_count, Prod.forall]
  refine forall₂_congr fun s d => ?_
  rw [hswap]
  by_cases hconnects : v.Connects ctx s d
  · obtain ⟨hfinite, hout_count⟩ := (hcount s d).1 hconnects
    obtain ⟨hback_finite, hback_count⟩ := (hreversed d s).1 ((reversed_connects_iff var_slots s d).mpr hconnects)
    rw [hout_count, hback_count]
    rw [hforward] at hfinite ⊢
    rw [reversed_walks var_slots hbound.scanned] at hback_finite ⊢
    rw [ncard_leavingOnce_reverse src dst s d]
    simp only [hconnects, true_imp_iff]
    exact ncard_eq_iff _ _ hfinite (finite_enteringOnce _ _ hback_finite)
  · rw [(hcount s d).2 hconnects, (hreversed d s).2 fun hback =>
      hconnects ((reversed_connects_iff var_slots s d).mp hback)]
    simp [hconnects]

/-! ### A cycle behind the destination -/

/-- The reads of a graph with the given labelled vertices. -/
def labelledReads (g : Graph) (labelled : List VertexId) (labels : VertexId → List LabelId) :
    ExpandReads :=
  { g.reads labels with
    scanEdgesExact := fun v scan_dir label n =>
      (g.entries v scan_dir (some label)).filter (·.neighborId = n)
    scanEdgesByType := fun label =>
      [(g.edges.filter (·.label_id = label)).map fun e => ⟨e.src, e.dst, e.seq, e.id⟩]
    scanVerticesByLabel := fun label => labelled.filter fun v => (labels v).contains label }

lemma labelledReads_holds (g : Graph) {labelled : List VertexId} {labels : VertexId → List LabelId}
    (hlabels : ∀ v ∉ labelled, labels v = []) : (labelledReads g labelled labels).Holds g where
  toHolds := g.reads_holds _
  exact _ _ _ _ _ := .refl _
  by_type label := by
    show (flatten [_]).Perm _
    rw [flatten_singleton]
  by_label label v := by
    show v ∈ labelled.filter _ ↔ label ∈ labels v
    rw [mem_filter, contains_iff_mem]
    refine ⟨fun h => h.2, fun h => ⟨?_, h⟩⟩
    by_contra hv
    rw [hlabels v hv] at h
    cases h

/-- Vertex 1 has the label 1, vertex 2 the label 2. -/
def endLabels (v : VertexId) : List LabelId :=
  if v = 1 then [1] else if v = 2 then [2] else []

def contextOf (g : Graph) : PlanContext :=
  { smallContext with store := labelledReads g [1, 2] endLabels, graph := g }

lemma contextOf_holds (g : Graph) : (contextOf g).store.Holds (contextOf g).graph := by
  refine labelledReads_holds g fun v hv => ?_
  simp only [mem_cons, not_mem_nil, or_false, not_or] at hv
  simp [endLabels, hv.1, hv.2]

lemma contextOf_scans (g : Graph) : ScansVertices (contextOf g).store where
  once label := List.Nodup.filter _ (by decide : ([1, 2] : List VertexId).Nodup)
  valid label hmem := by
    have hlisted : INVALID_VERTEX_ID ∈ ([1, 2] : List VertexId) := (mem_filter.mp hmem).1
    revert hlisted
    decide

/-- `(a:A)-[:T*0..]->(b:B)`. -/
def fromAToB : VarLenOverScan where
  op :=
    { src_variable := "a"
      src_column_index := 0
      dst_variable := "b"
      dst_column_index := 1
      dst_slot_id := 2
      edge_label_ids := [7]
      all_edge_labels := false
      direction := .LEFT_TO_RIGHT
      min_hops := 0
      max_hops := -1
      dst_label_prop_ids := []
      dst_label_ids := [2]
      dst_label_missing := false
      path_variable := ""
      path_column_index := 0
      path_handled_by_varlen := false
      shortest_path := false
      all_shortest_paths := false
      edge_variable := ""
      edge_column_index := 0
      edge_slot_id := 0
      prev_edge_var := ""
      prev_edge_col_index := 0
      bound_edge_list := false
      bound_edge_list_col_index := 0
      src_filter_index_id := 0
      src_filter_value := .null
      dst_filter_index_id := 0
      dst_filter_value := .null
      edge_prop_filters := []
      dst_named := by decide }
  scan := { scan_variable := "a", column_index := 0, label_ids := [1], label_prop_ids := [] }
  src_named := by decide

lemma fromAToB_reverses : fromAToB.Reverses := by decide

lemma fromAToB_bound : fromAToB.Bound where
  scanned := rfl
  first_hop := rfl
  labels_known h := by cases h
  enumerates h := by rcases h with h | h <;> cases h
  edge_labels := by decide

lemma fromAToB_userLabels : fromAToB.UserLabels 9 := by
  unfold UserLabels
  decide

/-- From vertex 1 to vertex 2, and from there to vertex 3 and back. -/
def cycleBehind : Graph where
  edges := [⟨1, 1, 2, 7, 0⟩, ⟨2, 2, 3, 7, 0⟩, ⟨3, 3, 2, 7, 0⟩]
  distinct := by decide

/-- The counts from 1 to 2 decide. -/
theorem reversed_pairs_cycleBehind : ∃ out reversed_out, (∃ bound, ∀ fuel, bound ≤ fuel →
        fromAToB.executeChunk (contextOf cycleBehind) 9 (fun vids => [vids]) fuel = some out ∧
          (fromAToB.reversed fun _ => none).executeChunk (contextOf cycleBehind) 9
            (fun vids => [vids]) fuel = some reversed_out) ∧
      ((fromAToB.pairsOf "a" "b" out).Perm ((fromAToB.reversed fun _ => none).pairsOf "a" "b" reversed_out) ↔
        ∀ s d, fromAToB.Connects (contextOf cycleBehind) s d →
          (fromAToB.walksEndingInCycle (contextOf cycleBehind) s d).ncard =
            (fromAToB.walksStartingInCycle (contextOf cycleBehind) s d).ncard) :=
  reversed_pairs_iff fromAToB_reverses fromAToB_bound fromAToB_userLabels (contextOf_holds _)
    (contextOf_scans _) (by decide : ([7] : List EdgeLabelId).Nodup) (fun _ => none)
    fun vids => by simp

/-- The expand finds the pair twice, the reversed one once. -/
theorem cycleBehind_differs : ¬ ∃ out reversed_out, (∃ bound, ∀ fuel, bound ≤ fuel →
        fromAToB.executeChunk (contextOf cycleBehind) 9 (fun vids => [vids]) fuel = some out ∧
          (fromAToB.reversed fun _ => none).executeChunk (contextOf cycleBehind) 9
            (fun vids => [vids]) fuel = some reversed_out) ∧
      (fromAToB.pairsOf "a" "b" out).Perm
        ((fromAToB.reversed fun _ => none).pairsOf "a" "b" reversed_out) := by
  rintro ⟨out, reversed_out, ⟨bound, hbound⟩, hperm⟩
  obtain ⟨hout, hreversed_out⟩ := hbound (bound + 20) (Nat.le_add_right _ _)
  have hpairs : (fromAToB.executeChunk (contextOf cycleBehind) 9 (fun vids => [vids]) (bound + 20)).map
      (fromAToB.pairsOf "a" "b") = some [(1, 2), (1, 2)] := rfl
  have hreversed : ((fromAToB.reversed fun _ => none).executeChunk (contextOf cycleBehind) 9
      (fun vids => [vids]) (bound + 20)).map ((fromAToB.reversed fun _ => none).pairsOf "a" "b") =
        some [(1, 2)] := rfl
  rw [hout, map_some, Option.some.injEq] at hpairs
  rw [hreversed_out, map_some, Option.some.injEq] at hreversed
  rw [hpairs, hreversed] at hperm
  exact absurd hperm.length_eq (by decide)

end VarLenOverScan

end Eugraph.Optimizer
