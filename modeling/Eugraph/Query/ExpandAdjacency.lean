import Eugraph.Lib.Joins
import Eugraph.Query.Expand

/-!
# The adjacency a single-hop expand reads

Every way to read the adjacency of a source yields its edges, an undirected loop once, with
the labels and the bound values of the row.  One does not: an undirected expand that knows
its destination and cannot probe for it takes the edges to all other vertices too.
-/

namespace Eugraph.Dataset

open Lib DataStore List DirectedEdgeEntry Dataset.Graph Lib.Joins
open Query (EdgeTypeIndexEntry)
open VarLenExpandPhysicalOp (sideSteps carriedValue scan_traversals getValue_ofType)

/-! ### The edges at a vertex -/

namespace Graph

variable (g : Graph)

/-- The steps that leave `v`; without a direction a loop is one step. -/
def incident (direction : Direction) (v : VertexId) : List Traversal :=
  if direction = .BOTH then
    sideSteps g v .OUT none ++ (sideSteps g v .IN none).filter fun t => t.edge.src ≠ t.edge.dst
  else sideSteps g v direction none

variable {g}

lemma mem_sideSteps {v : VertexId} {scan_dir : Direction} {label_filter : Option EdgeLabelId} {t : Traversal} :
    t ∈ sideSteps g v scan_dir label_filter ↔ t.edge ∈ g.edges ∧ passesFilter label_filter t.edge.label_id = true ∧
        (if scan_dir = .OUT then t.edge.src else t.edge.dst) = v ∧
        t.vertex = if scan_dir = .OUT then t.edge.dst else t.edge.src := by
  unfold sideSteps
  constructor
  · intro hmem
    obtain ⟨e, he, rfl⟩ := mem_map.mp hmem
    obtain ⟨hedge, hfilter⟩ := mem_filter.mp he
    simp only [Bool.and_eq_true, decide_eq_true_eq] at hfilter
    exact ⟨hedge, hfilter.2, hfilter.1, rfl⟩
  · rintro ⟨hedge, hpasses, hside, hvertex⟩
    refine mem_map.mpr ⟨t.edge, mem_filter.mpr ⟨hedge, by simp [hside, hpasses]⟩, ?_⟩
    rw [← hvertex]

lemma nodup_sideSteps_ids (v : VertexId) (scan_dir : Direction) (label_filter : Option EdgeLabelId) :
    ((sideSteps g v scan_dir label_filter).map fun t => t.edge.id).Nodup := by
  unfold sideSteps
  rw [map_map]
  exact g.distinct.sublist ((filter_sublist).map _)

/-- The steps at a vertex are those along its edges, each once. -/
theorem mem_incident (direction : Direction) (v : VertexId) (t : Traversal) :
    t ∈ g.incident direction v ↔ g.Follows direction v t := by
  unfold incident Follows
  cases direction with
  | OUT => simp [mem_sideSteps, passesFilter]
  | IN => simp [mem_sideSteps, passesFilter]
  | BOTH =>
    rw [if_pos rfl, mem_append, mem_filter, mem_sideSteps, mem_sideSteps]
    simp only [passesFilter, Option.all_none, true_and, if_true, decide_eq_true_eq,
      reduceCtorEq, if_false, ne_eq, not_false_eq_true]
    constructor
    · rintro (⟨hedge, hsrc, hvertex⟩ | ⟨⟨hedge, hdst, hvertex⟩, -⟩)
      · exact ⟨hedge, .inl ⟨hsrc, hvertex⟩⟩
      · exact ⟨hedge, .inr ⟨hdst, hvertex⟩⟩
    · rintro ⟨hedge, ⟨hsrc, hvertex⟩ | ⟨hdst, hvertex⟩⟩
      · exact .inl ⟨hedge, hsrc, hvertex⟩
      · by_cases hloop : t.edge.src = t.edge.dst
        · exact .inl ⟨hedge, hloop.trans hdst, hvertex.trans hloop⟩
        · exact .inr ⟨⟨hedge, hdst, hvertex⟩, hloop⟩

lemma nodup_incident (direction : Direction) (v : VertexId) :
    ((g.incident direction v).map fun t => t.edge.id).Nodup := by
  unfold incident
  split
  next =>
    rw [map_append, nodup_append]
    refine ⟨nodup_sideSteps_ids v .OUT none, (nodup_sideSteps_ids v .IN none).sublist ((filter_sublist).map _), ?_⟩
    intro id hout id' hin heq
    subst heq
    obtain ⟨t, ht, rfl⟩ := mem_map.mp hout
    obtain ⟨u, hu, hid⟩ := mem_map.mp hin
    obtain ⟨hu, hloop⟩ := mem_filter.mp hu
    obtain ⟨hedge, -, hsrc, -⟩ := mem_sideSteps.mp ht
    obtain ⟨hedge', -, hdst, -⟩ := mem_sideSteps.mp hu
    have hsame : t.edge = u.edge := inj_on_of_nodup_map g.distinct hedge hedge' hid.symm
    simp only [if_true, reduceCtorEq, if_false] at hsrc hdst
    rw [← hsame] at hloop hdst
    simp only [ne_eq, decide_eq_true_eq] at hloop
    exact hloop (hsrc.trans hdst.symm)
  next => exact nodup_sideSteps_ids v direction none

/-- The end points of the stored edges are vertices. -/
def ValidEnds (g : Graph) : Prop :=
  ∀ e ∈ g.edges, e.src ≠ INVALID_VERTEX_ID ∧ e.dst ≠ INVALID_VERTEX_ID

lemma incident_invalid (hends : g.ValidEnds) (direction : Direction) :
    g.incident direction INVALID_VERTEX_ID = [] := by
  rw [eq_nil_iff_forall_not_mem]
  intro t ht
  obtain ⟨hedge, ⟨-, hsrc, -⟩ | ⟨-, hdst, -⟩⟩ := (mem_incident direction _ t).mp ht
  · exact (hends t.edge hedge).1 hsrc
  · exact (hends t.edge hedge).2 hdst

end Graph

/-- What the scans of the expand see of the graph. -/
structure ExpandReads.Holds (store : ExpandReads) (g : Graph) : Prop
    extends store.toGraphReads.Holds g where
  exact : ∀ v scan_dir label n, scan_dir ≠ .BOTH →
    (store.scanEdgesExact v scan_dir label n).Perm
      ((g.entries v scan_dir (some label)).filter (·.neighborId = n))
  by_type : ∀ label, ((store.scanEdgesByType label).flatten).Perm
    ((g.edges.filter (·.label_id = label)).map fun e => ⟨e.src, e.dst, e.seq, e.id⟩)
  by_label : ∀ label v, v ∈ store.scanVerticesByLabel label ↔ label ∈ store.getVertexLabels v

namespace Expand.ExpandPhysicalOp

variable (op : ExpandPhysicalOp) (store : ExpandReads) (g : Graph)

/-! ### What the operator should emit -/

def labelPasses (label_id : EdgeLabelId) : Bool := op.label_filters.all (·.contains label_id)

def dstMatches (chunk : DataChunk) (i : Nat) (v : VertexId) : Bool :=
  !op.dst_bound || op.boundDst chunk i = v

def dstLabelsMatch (v : VertexId) : Bool := op.dst_label_ids.all (store.getVertexLabels v).contains

/-- The steps of input row `i`: along the edges at its source with one of the labels, to the
bound destination and by the bound edge if there are such, to a vertex with the labels. -/
def expectedSteps (chunk : DataChunk) (i : Nat) : List Traversal :=
  (g.incident op.direction (op.sourceId chunk i)).filter fun t =>
    op.labelPasses t.edge.label_id && op.edgeMatches chunk i t.edge.id &&
      op.dstMatches chunk i t.vertex && op.dstLabelsMatch store t.vertex

/-- An undirected expand that knows its destination and does not probe for it. -/
def unprobed : Bool := op.direction = .BOTH && op.dst_bound && !op.probesExactly

/-- The steps taken. -/
def takenSteps (chunk : DataChunk) (i : Nat) : List Traversal :=
  (g.incident op.direction (op.sourceId chunk i)).filter fun t =>
    op.labelPasses t.edge.label_id && op.edgeMatches chunk i t.edge.id &&
      (op.unprobed || op.dstMatches chunk i t.vertex) && op.dstLabelsMatch store t.vertex

variable {op store g}

/-! ### One side of the adjacency -/

section Sides

/-- The entries of one side with one of the labels. -/
def sideEntries (op : ExpandPhysicalOp) (store : ExpandReads) (v : VertexId) (scan_dir : Direction) :
    List EdgeIndexEntry :=
  op.scanFilters.flatMap fun label_filter =>
    (store.scanEdges v scan_dir label_filter).filter fun e => op.edgeLabelAllowed e.edgeLabelId

/-- The step of an entry that was found on one side of `v`. -/
def entryStep (v : VertexId) (scan_dir : Direction) (e : EdgeIndexEntry) : Traversal :=
  (ofEntry (scan_dir = .OUT) e).traversal v

lemma scan_steps (h : store.Holds g) (v : VertexId) {scan_dir : Direction} (hdir : scan_dir ≠ .BOTH)
    (label_filter : Option EdgeLabelId) :
    ((store.scanEdges v scan_dir label_filter).map (entryStep v scan_dir)).Perm
      (sideSteps g v scan_dir label_filter) := by
  have hscan := scan_traversals h.toHolds v hdir label_filter
  rw [map_map] at hscan
  exact hscan

lemma sideSteps_filter (v : VertexId) (scan_dir : Direction) (label_filter : Option EdgeLabelId) :
    sideSteps g v scan_dir label_filter =
      (sideSteps g v scan_dir none).filter fun t => passesFilter label_filter t.edge.label_id := by
  unfold sideSteps
  rw [filter_map, filter_filter]
  congr 1
  apply filter_congr
  intro e _
  simp [passesFilter, Bool.and_comm]

/-- The scans of the label filters together are one scan that looks at the labels. -/
theorem sideEntries_steps (h : store.Holds g) (hlabels : ∀ labels ∈ op.label_filters, labels.Nodup)
    (v : VertexId) {scan_dir : Direction} (hdir : scan_dir ≠ .BOTH) :
    ((op.sideEntries store v scan_dir).map (entryStep v scan_dir)).Perm
      ((sideSteps g v scan_dir none).filter fun t => op.labelPasses t.edge.label_id) := by
  have hscan (f : Option EdgeLabelId) :
      (((store.scanEdges v scan_dir f).filter fun e => op.edgeLabelAllowed e.edgeLabelId).map
        (entryStep v scan_dir)).Perm ((sideSteps g v scan_dir f).filter fun t =>
          op.edgeLabelAllowed t.edge.label_id) := by
    have hfilter := (scan_steps h v hdir f).filter fun t => op.edgeLabelAllowed t.edge.label_id
    rw [filter_map] at hfilter
    exact hfilter
  unfold sideEntries
  rw [map_flatMap]
  refine (List.Perm.flatMap_left _ fun f _ => hscan f).trans ?_
  unfold scanFilters labelPasses edgeLabelAllowed
  cases hfilters : op.label_filters with
  | none => simp [collapseLabelScans, hfilters]
  | some labels =>
    cases hcollapse : op.collapseLabelScans with
    | true => simp
    | false =>
      simp only [Bool.false_eq_true, if_false, flatMap_map, Bool.not_false, Bool.true_or,
        filter_true, Option.all_some]
      have hparts (l : EdgeLabelId) : sideSteps g v scan_dir (some l) =
          (sideSteps g v scan_dir none).filter fun t => t.edge.label_id = l := by
        rw [sideSteps_filter]
        simp [passesFilter]
      simp only [hparts]
      exact flatMap_filter_key (fun t : Traversal => t.edge.label_id) (hlabels labels hfilters) _

end Sides

/-! ### Row by row -/

section Rows

variable {chunk : DataChunk} {i : Nat}

/-- An edge that was found, with its row. -/
def taken (op : ExpandPhysicalOp) (chunk : DataChunk) (e : EdgeEntryScratch) : Nat × Traversal :=
  (e.src_row, e.entry.traversal (op.sourceId chunk e.src_row))

/-- What is looked at before the labels of the destination are. -/
def rowKeeps (op : ExpandPhysicalOp) (chunk : DataChunk) (i : Nat) (t : Traversal) : Bool :=
  op.labelPasses t.edge.label_id && op.edgeMatches chunk i t.edge.id &&
    (op.unprobed || op.dstMatches chunk i t.vertex)

lemma map_taken_found (scan_dir : Direction) (entries : List EdgeIndexEntry) :
    ((entries.map (found scan_dir i)).map (op.taken chunk)) =
      (entries.map (entryStep (op.sourceId chunk i) scan_dir)).map fun t => (i, t) := by
  rw [map_map, map_map]
  rfl

variable {scan_dir : Direction}

lemma entries_steps (v : VertexId) (hdir : scan_dir ≠ .BOTH) (label_filter : Option EdgeLabelId) :
    ((g.entries v scan_dir label_filter).map (entryStep v scan_dir)).Perm
      (sideSteps g v scan_dir label_filter) := by
  have hscan := scan_traversals (g.reads_holds fun _ => []) v hdir label_filter
  rw [map_map] at hscan
  exact hscan

/-- The probe for the bound destination. -/
theorem scanOneDirection_probe (h : store.Holds g) (hends : g.ValidEnds)
    (hlabels : ∀ labels ∈ op.label_filters, labels.Nodup) (hprobe : op.probesExactly = true)
    (hdir : scan_dir ≠ .BOTH) :
    ((op.scanOneDirection store chunk i (op.sourceId chunk i) scan_dir).map (op.taken chunk)).Perm
      (((sideSteps g (op.sourceId chunk i) scan_dir none).filter (op.rowKeeps chunk i)).map fun t => (i, t)) := by
  have hprobes := hprobe
  simp only [probesExactly, Bool.and_eq_true, Bool.not_eq_true', decide_eq_true_eq] at hprobes
  obtain ⟨⟨⟨hdst, hedge⟩, -⟩, hsome⟩ := hprobes
  obtain ⟨labels, hfilters⟩ : ∃ labels, op.label_filters = some labels := by
    cases hnone : op.label_filters with
    | none => simp [scanFilters, hnone] at hsome
    | some labels => exact ⟨labels, rfl⟩
  have hscan : op.scanFilters = labels.map some := by
    simp [scanFilters, hfilters, collapseLabelScans, hdst]
  have hkeeps (t : Traversal) : op.rowKeeps chunk i t =
      (labels.contains t.edge.label_id && decide (t.vertex = op.boundDst chunk i)) := by
    simp only [rowKeeps, labelPasses, hfilters, edgeMatches, hedge, dstMatches, hdst, unprobed,
      hprobe, Option.all_some, Bool.not_false, Bool.true_or, Bool.and_true, Bool.not_true,
      Bool.and_false, Bool.false_or]
    congr 1
    exact decide_eq_decide.mpr eq_comm
  simp only [scanOneDirection, hprobe, if_true]
  split
  next hinvalid =>
    -- nothing leads to the invalid vertex
    have hnone : (sideSteps g (op.sourceId chunk i) scan_dir none).filter (op.rowKeeps chunk i) = [] := by
      rw [filter_eq_nil_iff]
      intro t ht hkept
      obtain ⟨hstored, -, -, hvertex⟩ := mem_sideSteps.mp ht
      rw [hkeeps, Bool.and_eq_true, decide_eq_true_eq, hinvalid, hvertex] at hkept
      split at hkept
      · exact (hends t.edge hstored).2 hkept.2
      · exact (hends t.edge hstored).1 hkept.2
    rw [hnone]
    exact .nil
  next =>
    have hexact (label : EdgeLabelId) :
        ((store.scanEdgesExact (op.sourceId chunk i) scan_dir label (op.boundDst chunk i)).map
          (entryStep (op.sourceId chunk i) scan_dir)).Perm
          ((sideSteps g (op.sourceId chunk i) scan_dir (some label)).filter fun t =>
            t.vertex = op.boundDst chunk i) := by
      refine ((h.exact _ scan_dir label _ hdir).map _).trans ?_
      have hfilter := (entries_steps (g := g) (op.sourceId chunk i) hdir (some label)).filter
        fun t => t.vertex = op.boundDst chunk i
      rw [filter_map] at hfilter
      exact hfilter
    rw [hscan, flatMap_map, map_flatMap]
    simp only [Option.elim_some, map_taken_found]
    rw [← map_flatMap]
    refine List.Perm.map _ ((List.Perm.flatMap_left _ fun label _ => hexact label).trans ?_)
    have hparts (label : EdgeLabelId) :
        ((sideSteps g (op.sourceId chunk i) scan_dir (some label)).filter fun t =>
          t.vertex = op.boundDst chunk i) =
        ((sideSteps g (op.sourceId chunk i) scan_dir none).filter fun t =>
          t.vertex = op.boundDst chunk i).filter fun t => t.edge.label_id = label := by
      rw [sideSteps_filter, filter_filter, filter_filter]
      apply filter_congr
      intro t _
      simp [passesFilter, Bool.and_comm]
    simp only [hparts]
    refine (flatMap_filter_key (fun t : Traversal => t.edge.label_id)
      (hlabels labels hfilters) _).trans (List.Perm.of_eq ?_)
    rw [filter_filter]
    exact filter_congr fun t _ => (hkeeps t).symm

/-- A scan of all edges of one side. -/
theorem scanOneDirection_scan (h : store.Holds g)
    (hlabels : ∀ labels ∈ op.label_filters, labels.Nodup) (hprobe : op.probesExactly = false)
    (hboth : op.direction = .BOTH) (hdir : scan_dir ≠ .BOTH) :
    ((op.scanOneDirection store chunk i (op.sourceId chunk i) scan_dir).map (op.taken chunk)).Perm
      (((sideSteps g (op.sourceId chunk i) scan_dir none).filter (op.rowKeeps chunk i)).map fun t => (i, t)) := by
  have hkeeps (t : Traversal) : op.rowKeeps chunk i t =
      (op.labelPasses t.edge.label_id && op.edgeMatches chunk i t.edge.id) := by
    cases hdst : op.dst_bound with
    | false => simp [rowKeeps, dstMatches, hdst]
    | true => simp [rowKeeps, unprobed, hboth, hdst, hprobe]
  have hscan : op.scanOneDirection store chunk i (op.sourceId chunk i) scan_dir =
      ((op.sideEntries store (op.sourceId chunk i) scan_dir).filter fun e =>
        op.edgeMatches chunk i e.edgeId).map (found scan_dir i) := by
    simp only [scanOneDirection, hprobe, Bool.false_eq_true, if_false, sideEntries,
      filter_flatMap, map_flatMap, filter_filter, Bool.and_comm]
  rw [hscan, map_taken_found]
  apply List.Perm.map
  have hfilter := (sideEntries_steps h hlabels (op.sourceId chunk i) hdir).filter
    fun t => op.edgeMatches chunk i t.edge.id
  rw [filter_map] at hfilter
  refine hfilter.trans (List.Perm.of_eq ?_)
  rw [filter_filter]
  apply filter_congr
  intro t _
  rw [hkeeps, Bool.and_comm]

lemma scanDirected_steps (h : store.Holds g)
    (hlabels : ∀ labels ∈ op.label_filters, labels.Nodup) (hdir : op.direction ≠ .BOTH) :
    ((op.scanDirected store chunk i (op.sourceId chunk i)).map (op.taken chunk)).Perm
      (((sideSteps g (op.sourceId chunk i) op.direction none).filter (op.rowKeeps chunk i)).map fun t =>
        (i, t)) := by
  have hkeeps (t : Traversal) : op.rowKeeps chunk i t = (op.labelPasses t.edge.label_id &&
        (op.dstMatches chunk i t.vertex && op.edgeMatches chunk i t.edge.id)) := by
    simp [rowKeeps, unprobed, hdir, Bool.and_comm, Bool.and_assoc]
  have hscan : op.scanDirected store chunk i (op.sourceId chunk i) =
      ((op.sideEntries store (op.sourceId chunk i) op.direction).filter fun e =>
        op.dstMatches chunk i e.neighborId && op.edgeMatches chunk i e.edgeId).map
          (found op.direction i) := by
    simp only [scanDirected, sideEntries, filter_flatMap, map_flatMap, filter_filter]
    congr 1
    funext label_filter
    congr 1
    apply filter_congr
    intro e _
    simp only [dstMatches, Bool.and_comm, Bool.and_assoc, Bool.and_left_comm]
  rw [hscan, map_taken_found]
  apply List.Perm.map
  have hfilter := (sideEntries_steps h hlabels (op.sourceId chunk i) hdir).filter
    fun t => op.dstMatches chunk i t.vertex && op.edgeMatches chunk i t.edge.id
  rw [filter_map] at hfilter
  refine hfilter.trans (List.Perm.of_eq ?_)
  rw [filter_filter]
  apply filter_congr
  intro t _
  rw [hkeeps, Bool.and_comm]

lemma dropSeen_eq {list : List EdgeEntryScratch} (hnodup : (list.map (·.entry.edge_id)).Nodup)
    (seen : List EdgeId) :
    dropSeen seen list = list.filter fun e => !seen.contains e.entry.edge_id := by
  induction list generalizing seen with
  | nil => rfl
  | cons e rest ih =>
    obtain ⟨hnew, hrest⟩ := nodup_cons.mp hnodup
    by_cases hseen : seen.contains e.entry.edge_id = true
    · rw [dropSeen, if_pos hseen, ih hrest, filter_cons_of_neg (by simpa using hseen)]
    · rw [dropSeen, if_neg hseen, ih hrest, filter_cons_of_pos (by simpa using hseen)]
      congr 1
      apply filter_congr
      intro x hx
      have hne : x.entry.edge_id ≠ e.entry.edge_id := by
        intro heq
        have hmem : x.entry.edge_id ∈ rest.map (·.entry.edge_id) := mem_map_of_mem hx
        exact hnew (show e.entry.edge_id ∈ rest.map (·.entry.edge_id) from heq ▸ hmem)
      simp [hne]

/-- The ids that were found are those of the steps. -/
theorem map_edge_id_eq (op : ExpandPhysicalOp) (chunk : DataChunk) (edges : List EdgeEntryScratch) :
    edges.map (·.entry.edge_id) = (edges.map (op.taken chunk)).map fun p => p.2.edge.id := by
  rw [map_map]
  rfl

lemma rowEdges_steps (h : store.Holds g) (hends : g.ValidEnds)
    (hlabels : ∀ labels ∈ op.label_filters, labels.Nodup) (chunk : DataChunk) (i : Nat) :
    ((op.rowEdges store chunk i).map (op.taken chunk)).Perm
      (((g.incident op.direction (op.sourceId chunk i)).filter (op.rowKeeps chunk i)).map fun t => (i, t)) := by
  by_cases hinvalid : op.sourceId chunk i = INVALID_VERTEX_ID
  · rw [rowEdges, if_pos hinvalid, hinvalid, incident_invalid hends]
    exact .nil
  by_cases hboth : op.direction = .BOTH
  · have hside {scan_dir : Direction} (hdir : scan_dir ≠ .BOTH) :
        ((op.scanOneDirection store chunk i (op.sourceId chunk i) scan_dir).map
          (op.taken chunk)).Perm (((sideSteps g (op.sourceId chunk i) scan_dir none).filter
            (op.rowKeeps chunk i)).map fun t => (i, t)) := by
      cases hprobe : op.probesExactly with
      | true => exact scanOneDirection_probe h hends hlabels hprobe hdir
      | false => exact scanOneDirection_scan h hlabels hprobe hboth hdir
    have hids {scan_dir : Direction} (hdir : scan_dir ≠ .BOTH) :
        ((op.scanOneDirection store chunk i (op.sourceId chunk i) scan_dir).map
          (·.entry.edge_id)).Perm (((sideSteps g (op.sourceId chunk i) scan_dir none).filter
            (op.rowKeeps chunk i)).map fun t => t.edge.id) := by
      rw [map_edge_id_eq op chunk]
      refine ((hside hdir).map _).trans (List.Perm.of_eq ?_)
      rw [map_map]
      rfl
    have hout := hids (by decide : Direction.OUT ≠ .BOTH)
    have hnodup := (hids (by decide : Direction.IN ≠ .BOTH)).nodup_iff.mpr
      ((nodup_sideSteps_ids (g := g) (op.sourceId chunk i) .IN none).sublist ((filter_sublist).map _))
    rw [rowEdges, if_neg hinvalid, if_pos hboth]
    show ((op.scanOneDirection store chunk i (op.sourceId chunk i) .OUT ++
      dropSeen ((op.scanOneDirection store chunk i (op.sourceId chunk i) .OUT).map (·.entry.edge_id))
        (op.scanOneDirection store chunk i (op.sourceId chunk i) .IN)).map (op.taken chunk)).Perm _
    rw [dropSeen_eq hnodup, map_append, Graph.incident, if_pos hboth, filter_append, map_append]
    refine (hside (by decide : Direction.OUT ≠ .BOTH)).append ?_
    -- an edge of the second side was seen on the first exactly when it is a loop
    have hseen (t : Traversal) (ht : t ∈ (sideSteps g (op.sourceId chunk i) .IN none).filter (op.rowKeeps chunk i)) :
        ((op.scanOneDirection store chunk i (op.sourceId chunk i) .OUT).map
          (·.entry.edge_id)).contains t.edge.id = decide (t.edge.src = t.edge.dst) := by
      obtain ⟨hmem, hkept⟩ := mem_filter.mp ht
      obtain ⟨hedge, -, hdst, hvertex⟩ := mem_sideSteps.mp hmem
      simp only [reduceCtorEq, if_false] at hdst hvertex
      rw [Bool.eq_iff_iff, contains_iff_mem, decide_eq_true_eq, hout.mem_iff, mem_map]
      constructor
      · rintro ⟨u, hu, hid⟩
        obtain ⟨hedge', -, hsrc, -⟩ := mem_sideSteps.mp (mem_filter.mp hu).1
        have hsame : u.edge = t.edge := inj_on_of_nodup_map g.distinct hedge' hedge hid
        rw [if_pos rfl, hsame] at hsrc
        exact hsrc.trans hdst.symm
      · intro hloop
        refine ⟨t, mem_filter.mpr ⟨mem_sideSteps.mpr ⟨hedge, rfl, ?_, ?_⟩, hkept⟩, rfl⟩
        · exact hloop.trans hdst
        · exact hvertex.trans hloop
    have hfilter := (hside (by decide : Direction.IN ≠ .BOTH)).filter fun p =>
      !((op.scanOneDirection store chunk i (op.sourceId chunk i) .OUT).map (·.entry.edge_id)).contains p.2.edge.id
    rw [filter_map, filter_map] at hfilter
    refine hfilter.trans (List.Perm.of_eq ?_)
    have hloops := filter_congr fun t ht => congrArg (!·) (hseen t ht)
    congr 1
    refine hloops.trans ?_
    rw [filter_filter, filter_filter]
    apply filter_congr
    intro t _
    simp [Bool.and_comm]
  · rw [rowEdges, if_neg hinvalid, if_neg hboth, Graph.incident, if_neg hboth]
    exact scanDirected_steps h hlabels hboth

end Rows

/-! ### Destination labels -/

section Labels

lemma lookup_zip_map {β : Type} (f : VertexId → β) {keys : List VertexId} {v : VertexId}
    (hmem : v ∈ keys) : (keys.zip (keys.map f)).lookup v = some (f v) := by
  induction keys with
  | nil => cases hmem
  | cons k rest ih =>
    rw [map_cons, zip_cons_cons, lookup_cons]
    by_cases hk : v = k
    · simp [hk]
    · rw [beq_false_of_ne hk]
      exact ih ((mem_cons.mp hmem).resolve_left hk)

lemma mem_narrowMatches (neighbors label_matches : List VertexId) (needs : List LabelId) (v : VertexId) :
    v ∈ narrowMatches store neighbors label_matches needs ↔
      v ∈ label_matches ∧ ∀ need ∈ needs, v ∈ labelMembers store neighbors need := by
  induction needs generalizing label_matches with
  | nil => simp [narrowMatches]
  | cons need rest ih =>
    rw [narrowMatches]
    split
    next hempty => simp [hempty]
    next =>
      rw [ih, mem_filter, contains_iff_mem, and_assoc, forall_mem_cons]

lemma mem_labelMatches (h : store.Holds g) {neighbors : List VertexId} {v : VertexId}
    (hmem : v ∈ neighbors) {needs : List LabelId} (hne : needs ≠ []) :
    v ∈ labelMatches store neighbors needs ↔ ∀ need ∈ needs, need ∈ store.getVertexLabels v := by
  have hmembers (need : LabelId) : v ∈ labelMembers store neighbors need ↔ need ∈ store.getVertexLabels v := by
    rw [labelMembers, mem_filter, h.by_label]
    simp [hmem]
  cases needs with
  | nil => exact absurd rfl hne
  | cons need rest =>
    rw [labelMatches, mem_narrowMatches]
    simp only [hmembers, forall_mem_cons]

/-- Either way the edges to a vertex with all labels stay. -/
theorem filterDstLabels_eq (h : store.Holds g) (list : List EdgeEntryScratch) : op.filterDstLabels store list =
      list.filter fun e => op.dstLabelsMatch store e.entry.neighbor_id := by
  unfold filterDstLabels
  split
  next hnone =>
    rcases hnone with hnone | hnone
    · simp [hnone]
    · simp [dstLabelsMatch, hnone]
  next hsome =>
    rw [not_or] at hsome
    have hneighbor {e : EdgeEntryScratch} (he : e ∈ list) :
        e.entry.neighbor_id ∈ list.map (·.entry.neighbor_id) := mem_map_of_mem he
    split
    · apply filter_congr
      intro e he
      rw [batchKeeps, h.labels, lookup_zip_map _ ((mem_firsts_eq_iff _ _).mpr (hneighbor he))]
      rfl
    · apply filter_congr
      intro e he
      rw [Bool.eq_iff_iff, contains_iff_mem, mem_labelMatches h (hneighbor he) hsome.2]
      simp [dstLabelsMatch]

end Labels

/-! ### All sources at once -/

section Batches

variable {chunk : DataChunk} {sources : List VertexId}

variable {scan_dir : Direction}

/-- The entries a batch scan has for one of its sources. -/
theorem scanBatch_source (h : store.Holds g) (hnodup : sources.Nodup) {v : VertexId}
    (hmem : v ∈ sources) (hdir : scan_dir ≠ .BOTH) :
    ((op.scanFilters.flatMap (op.scanBatch store sources scan_dir)).filter (·.1 = v)).map Prod.snd =
      op.sideEntries store v scan_dir := by
  unfold sideEntries
  rw [filter_flatMap, map_flatMap]
  congr 1
  funext label_filter
  rw [← h.batch sources scan_dir label_filter hdir hnodup v hmem, filter_map]
  congr 1
  unfold scanBatch
  rw [filter_filter, filter_filter]
  apply filter_congr
  intro be _
  simp [Bool.and_comm]

lemma mem_scanBatch (h : store.Holds g) {be : VertexId × EdgeIndexEntry}
    (hbe : be ∈ op.scanFilters.flatMap (op.scanBatch store sources scan_dir)) : be.1 ∈ sources := by
  obtain ⟨label_filter, -, hscan⟩ := mem_flatMap.mp hbe
  exact h.batch_sources sources scan_dir label_filter be (mem_filter.mp hscan).1

/-- The steps one pass adds; a loop is left to the other pass. -/
def passSteps (op : ExpandPhysicalOp) (g : Graph) (v : VertexId) (scan_dir : Direction) :
    List Traversal :=
  (sideSteps g v scan_dir none).filter fun t =>
    !(op.direction = .BOTH && scan_dir ≠ .OUT && t.edge.src = t.edge.dst)

lemma passes_incident (op : ExpandPhysicalOp) (g : Graph) (v : VertexId) :
    op.passes.flatMap (op.passSteps g v) = g.incident op.direction v := by
  unfold passes passSteps Graph.incident
  by_cases hboth : op.direction = .BOTH
  · simp [hboth]
  · simp [hboth]

lemma mem_sourceIds {v : VertexId} :
    v ∈ op.sourceIds chunk ↔ v ≠ INVALID_VERTEX_ID ∧ ∃ i < chunk.count, op.sourceId chunk i = v := by
  unfold sourceIds
  rw [mem_firsts_eq_iff, mem_filter, mem_map]
  simp only [mem_range, decide_eq_true_eq]
  tauto

lemma nodup_sourceIds : (op.sourceIds chunk).Nodup := nodup_firsts_eq _

lemma batchPass_steps (h : store.Holds g) (hends : g.ValidEnds)
    (hlabels : ∀ labels ∈ op.label_filters, labels.Nodup)
    (hpass : scan_dir ∈ op.passes) :
    ((op.scanFilters.flatMap fun label_filter =>
        op.batchPass store chunk (op.sourceIds chunk) label_filter scan_dir).map (op.taken chunk)).Perm
      ((range chunk.count).flatMap fun i =>
        ((op.passSteps g (op.sourceId chunk i) scan_dir).filter fun t =>
          op.labelPasses t.edge.label_id).map fun t => (i, t)) := by
  have hdir : scan_dir ≠ .BOTH := by
    intro heq
    subst heq
    unfold passes at hpass
    split at hpass
    · simp at hpass
    · next hnot => exact hnot (mem_singleton.mp hpass).symm
  let entries := op.scanFilters.flatMap (op.scanBatch store (op.sourceIds chunk) scan_dir)
  let keeps (be : VertexId × EdgeIndexEntry) : Bool :=
    !(op.direction = .BOTH && scan_dir ≠ .OUT && be.2.neighborId = be.1)
  have hall : (op.scanFilters.flatMap fun label_filter =>
        op.batchPass store chunk (op.sourceIds chunk) label_filter scan_dir).map (op.taken chunk) =
      (entries.filter keeps).flatMap fun be =>
        ((range chunk.count).filter fun i => op.sourceId chunk i = be.1).map fun i =>
          (i, entryStep (op.sourceId chunk i) scan_dir be.2) := by
    simp only [entries, keeps, batchPass, filter_flatMap, map_flatMap, flatMap_assoc, map_map, rowsOfSource]
    rfl
  rw [hall]
  refine (filter_swap (fun be i => decide (op.sourceId chunk i = be.1))
    (fun be i => (i, entryStep (op.sourceId chunk i) scan_dir be.2)) (entries.filter keeps)
    (range chunk.count)).trans (List.Perm.flatMap_left _ fun i hi => ?_)
  by_cases hinvalid : op.sourceId chunk i = INVALID_VERTEX_ID
  · -- no list was read for the row, and no edge is there
    have hnone : (entries.filter keeps).filter (fun be => op.sourceId chunk i = be.1) = [] := by
      rw [filter_eq_nil_iff]
      intro be hbe heq
      have hsource := mem_scanBatch h (mem_filter.mp hbe).1
      exact (mem_sourceIds.mp hsource).1 ((of_decide_eq_true heq).symm.trans hinvalid)
    have hnothing : op.passSteps g (op.sourceId chunk i) scan_dir = [] := by
      have hsteps := passes_incident op g (op.sourceId chunk i)
      rw [hinvalid, incident_invalid hends, flatMap_eq_nil_iff] at hsteps
      exact hinvalid ▸ hsteps scan_dir hpass
    rw [hnone, hnothing]
    exact .nil
  · have hmem : op.sourceId chunk i ∈ op.sourceIds chunk := mem_sourceIds.mpr ⟨hinvalid, i, mem_range.mp hi, rfl⟩
    have hentries : ((entries.filter keeps).filter fun be => op.sourceId chunk i = be.1).map
          (fun be => (i, entryStep (op.sourceId chunk i) scan_dir be.2)) =
        (((op.sideEntries store (op.sourceId chunk i) scan_dir).filter fun e =>
          !(op.direction = .BOTH && scan_dir ≠ .OUT && e.neighborId = op.sourceId chunk i)).map
            (entryStep (op.sourceId chunk i) scan_dir)).map fun t => (i, t) := by
      rw [← scanBatch_source h nodup_sourceIds hmem hdir, filter_map, map_map, map_map, filter_filter, filter_filter]
      congr 1
      apply filter_congr
      intro be _
      by_cases hbe : be.1 = op.sourceId chunk i
      · simp [keeps, hbe]
      · simp [hbe, Ne.symm hbe]
    rw [hentries]
    apply List.Perm.map
    have hfilter := (sideEntries_steps h hlabels (op.sourceId chunk i) hdir).filter fun t =>
      !(op.direction = .BOTH && scan_dir ≠ .OUT && t.vertex = op.sourceId chunk i)
    rw [filter_map] at hfilter
    refine hfilter.trans (List.Perm.of_eq ?_)
    unfold passSteps
    rw [filter_filter, filter_filter]
    apply filter_congr
    intro t ht
    obtain ⟨-, -, hside, hvertex⟩ := mem_sideSteps.mp ht
    by_cases hout : scan_dir = .OUT
    · simp [hout]
    · rw [if_neg hout] at hside hvertex
      rw [hvertex, ← hside, Bool.and_comm]

lemma scanWithoutCache_steps (h : store.Holds g) (hends : g.ValidEnds)
    (hlabels : ∀ labels ∈ op.label_filters, labels.Nodup) :
    ((op.scanWithoutCache store chunk (op.sourceIds chunk)).map (op.taken chunk)).Perm
      ((range chunk.count).flatMap fun i =>
        ((g.incident op.direction (op.sourceId chunk i)).filter fun t =>
          op.labelPasses t.edge.label_id).map fun t => (i, t)) := by
  have hsort : (op.scanWithoutCache store chunk (op.sourceIds chunk)).Perm
      (op.scanFilters.flatMap fun label_filter =>
        op.passes.flatMap (op.batchPass store chunk (op.sourceIds chunk) label_filter)) := by
    unfold scanWithoutCache
    split
    · exact mergeSort_perm _ _
    · exact .refl _
  refine (hsort.map _).trans ?_
  refine ((flatMap_swap op.scanFilters op.passes fun label_filter scan_dir =>
    op.batchPass store chunk (op.sourceIds chunk) label_filter scan_dir).map _).trans ?_
  rw [map_flatMap]
  refine (List.Perm.flatMap_left _ fun scan_dir hpass =>
    batchPass_steps h hends hlabels hpass).trans ?_
  refine (flatMap_swap op.passes (range chunk.count) _).trans (List.Perm.of_eq ?_)
  congr 1
  funext i
  rw [← map_flatMap, ← filter_flatMap, passes_incident]

end Batches

/-! ### The cache of neighbours -/

section Cache

variable {chunk : DataChunk}

/-- The steps a cached list stands for. -/
def cachedSteps (op : ExpandPhysicalOp) (store : ExpandReads) (g : Graph) (v : VertexId) :
    List Traversal :=
  (g.incident op.direction v).filter fun t =>
    op.labelPasses t.edge.label_id && op.dstLabelsMatch store t.vertex

/-- The neighbours of a source with the labels checked. -/
def NeighborsOk (op : ExpandPhysicalOp) (store : ExpandReads) (g : Graph)
    (p : VertexId × CachedNeighbors) : Prop :=
  (p.2.map (traversal · p.1)).Perm (op.cachedSteps store g p.1)

def CacheOk (op : ExpandPhysicalOp) (store : ExpandReads) (g : Graph) (cache : NeighborCache) : Prop :=
  ∀ p ∈ cache.entries, op.NeighborsOk store g p

lemma cacheOk_empty : op.CacheOk store g .empty := fun _ hp => nomatch hp

lemma mem_of_lookup {β : Type} {entries : List (VertexId × β)} {v : VertexId} {x : β}
    (h : entries.lookup v = some x) : (v, x) ∈ entries := by
  induction entries with
  | nil => cases h
  | cons p rest ih =>
    rw [lookup_cons] at h
    by_cases hv : v = p.1
    · rw [beq_iff_eq.mpr hv] at h
      obtain rfl := Option.some.inj h
      rw [hv]
      exact mem_cons_self
    · rw [beq_false_of_ne hv] at h
      exact mem_cons_of_mem _ (ih h)

lemma exists_lookup {β : Type} {entries : List (VertexId × β)} {v : VertexId}
    (h : v ∈ entries.map Prod.fst) : ∃ x, entries.lookup v = some x := by
  induction entries with
  | nil => cases h
  | cons p rest ih =>
    rw [lookup_cons]
    by_cases hv : v = p.1
    · rw [beq_iff_eq.mpr hv]
      exact ⟨p.2, rfl⟩
    · rw [beq_false_of_ne hv]
      exact ih ((mem_cons.mp h).resolve_left hv)

lemma collectMisses_eq {limit : Nat} {met rest all : List (VertexId × EdgeIndexEntry)}
    (h : collectMisses limit met rest = some all) : all = met ++ rest := by
  induction rest generalizing met with
  | nil =>
    rw [append_nil]
    exact (Option.some.inj h).symm
  | cons be rest ih =>
    rw [collectMisses] at h
    split at h
    · cases h
    · rw [ih h, append_assoc]
      rfl

/-- What was read for a source that was not cached. -/
theorem freshNeighbors_ok (h : store.Holds g) (hlabels : ∀ labels ∈ op.label_filters, labels.Nodup)
    (hdir : op.direction ≠ .BOTH) {miss_ids : List VertexId} (hnodup : miss_ids.Nodup) :
    ∀ p ∈ op.freshNeighbors store miss_ids
        (op.scanFilters.flatMap (op.scanBatch store miss_ids op.direction)),
      op.NeighborsOk store g p := by
  intro p hp
  let entries := op.scanFilters.flatMap (op.scanBatch store miss_ids op.direction)
  obtain ⟨⟨v, index⟩, hindexed, rfl⟩ := mem_map.mp hp
  have hget : miss_ids[index]? = some v := by
    simpa using mem_zipIdx_iff_getElem?.mp hindexed
  have hmem : v ∈ miss_ids := mem_of_getElem? hget
  have hlist : ((op.filterDstLabels store
        (entries.map fun be => found op.direction (miss_ids.idxOf be.1) be.2)).filter
          (·.src_row = index)).map (·.entry) =
      ((op.sideEntries store v op.direction).filter fun e =>
        op.dstLabelsMatch store e.neighborId).map (ofEntry (op.direction = .OUT)) := by
    rw [filterDstLabels_eq h, ← scanBatch_source h hnodup hmem hdir, filter_map, filter_map,
      filter_map, map_map, map_map, filter_filter, filter_filter]
    congr 1
    apply filter_congr
    intro be hbe
    have hsource : be.1 ∈ miss_ids := mem_scanBatch h hbe
    have hplace : miss_ids.idxOf be.1 = index ↔ be.1 = v := by
      have hown : miss_ids[miss_ids.idxOf be.1]? = some be.1 := List.getElem?_idxOf hsource
      constructor
      · intro heq
        rw [heq, hget] at hown
        exact (Option.some.inj hown).symm
      · intro heq
        rw [heq, ← hget] at hown
        rw [heq]
        exact (List.getElem?_inj (idxOf_lt_length_iff.mpr hmem) hnodup).mp hown
    by_cases hv : be.1 = v
    · have hindex : miss_ids.idxOf v = index := hv ▸ hplace.mpr hv
      simp [found, ofEntry, hv, hindex]
    · have hne : ¬ miss_ids.idxOf be.1 = index := fun heq => hv (hplace.mp heq)
      simp [found, hv, hne]
  show ((((op.filterDstLabels store
    (entries.map fun be => found op.direction (miss_ids.idxOf be.1) be.2)).filter
      (·.src_row = index)).map EdgeEntryScratch.entry).map (traversal · v)).Perm
        (op.cachedSteps store g v)
  rw [hlist, map_map]
  have hfilter := (sideEntries_steps h hlabels v hdir).filter fun t =>
    op.dstLabelsMatch store t.vertex
  rw [filter_map] at hfilter
  refine hfilter.trans (List.Perm.of_eq ?_)
  unfold cachedSteps Graph.incident
  rw [if_neg hdir, filter_filter]
  apply filter_congr
  intro t _
  rw [Bool.and_comm]

lemma admitNeighbors_entries (cache : NeighborCache) (fresh : List (VertexId × CachedNeighbors)) :
    (admitNeighbors cache fresh).entries = cache.entries ∨
      (admitNeighbors cache fresh).entries = cache.entries ++ fresh := by
  simp only [admitNeighbors]
  split
  · exact .inl rfl
  · exact .inr rfl

/-- The lists of all sources together. -/
theorem reassemble_steps (hends : g.ValidEnds) {cache : NeighborCache} {fresh : List (VertexId × CachedNeighbors)}
    (hlists : ∀ v ∈ op.sourceIds chunk, ∃ list, (cache.find v).or (fresh.lookup v) = some list ∧
      op.NeighborsOk store g (v, list)) :
    ((op.reassemble chunk cache fresh (op.sourceIds chunk)).map (op.taken chunk)).Perm
      ((range chunk.count).flatMap fun i =>
        (op.cachedSteps store g (op.sourceId chunk i)).map fun t => (i, t)) := by
  have hsource (v : VertexId) (hv : v ∈ op.sourceIds chunk) :
      (((((cache.find v).or (fresh.lookup v)).getD []).flatMap fun entry =>
        (op.rowsOfSource chunk v).map fun src_row => EdgeEntryScratch.mk src_row entry).map
          (op.taken chunk)).Perm ((op.rowsOfSource chunk v).flatMap fun i =>
        (op.cachedSteps store g (op.sourceId chunk i)).map fun t => (i, t)) := by
    obtain ⟨list, hlist, hok⟩ := hlists v hv
    rw [hlist, Option.getD_some, map_flatMap]
    simp only [map_map]
    refine (map_swap (fun entry src_row => op.taken chunk ⟨src_row, entry⟩) list
      (op.rowsOfSource chunk v)).trans (List.Perm.flatMap_left _ fun i hi => ?_)
    have hrow : op.sourceId chunk i = v := by simpa using (mem_filter.mp hi).2
    rw [hrow]
    refine List.Perm.trans (List.Perm.of_eq ?_) (hok.map fun t => (i, t))
    rw [map_map]
    apply map_congr_left
    intro entry _
    simp [taken, hrow]
  unfold reassemble
  rw [map_flatMap]
  refine (List.Perm.flatMap_left _ hsource).trans ?_
  rw [← flatMap_assoc]
  refine ((flatMap_filter_key (op.sourceId chunk) nodup_sourceIds
    (range chunk.count)).flatMap_right _).trans (List.Perm.of_eq ?_)
  apply flatMap_filter_of_nil
  intro i hi hnot
  by_cases hinvalid : op.sourceId chunk i = INVALID_VERTEX_ID
  · rw [hinvalid, cachedSteps, incident_invalid hends]
    rfl
  · have hmem : op.sourceId chunk i ∈ op.sourceIds chunk := mem_sourceIds.mpr ⟨hinvalid, i, mem_range.mp hi, rfl⟩
    simp [hmem] at hnot

end Cache

/-! ### One chunk -/

section Chunks

variable {chunk : DataChunk}

lemma filterDstLabels_steps (h : store.Holds g) {edges : List EdgeEntryScratch} {rows : List Nat}
    {steps : Nat → List Traversal}
    (hedges : (edges.map (op.taken chunk)).Perm (rows.flatMap fun i => (steps i).map fun t => (i, t))) :
    ((op.filterDstLabels store edges).map (op.taken chunk)).Perm
      (rows.flatMap fun i =>
        ((steps i).filter fun t => op.dstLabelsMatch store t.vertex).map fun t => (i, t)) := by
  rw [filterDstLabels_eq h]
  have hfilter := hedges.filter fun p => op.dstLabelsMatch store p.2.vertex
  rw [filter_map] at hfilter
  refine hfilter.trans (List.Perm.of_eq ?_)
  rw [filter_flatMap]
  congr 1
  funext i
  rw [filter_map]
  rfl

lemma takenSteps_eq (i : Nat) : op.takenSteps store g chunk i =
      ((g.incident op.direction (op.sourceId chunk i)).filter (op.rowKeeps chunk i)).filter
        fun t => op.dstLabelsMatch store t.vertex := by
  unfold takenSteps rowKeeps
  rw [filter_filter]
  apply filter_congr
  intro t _
  rw [Bool.and_comm]

lemma takenSteps_unbound (hdst : op.dst_bound = false) (hedge : op.edge_bound = false) (i : Nat) :
    op.takenSteps store g chunk i = op.cachedSteps store g (op.sourceId chunk i) := by
  unfold takenSteps cachedSteps
  apply filter_congr
  intro t _
  simp [edgeMatches, hedge, dstMatches, hdst]

lemma scanThroughCache_steps (h : store.Holds g) (hends : g.ValidEnds)
    (hlabels : ∀ labels ∈ op.label_filters, labels.Nodup) (hdir : op.direction ≠ .BOTH)
    {cache : NeighborCache} (hcache : op.CacheOk store g cache) :
    op.CacheOk store g (op.scanThroughCache store chunk cache (op.sourceIds chunk)).2 ∧
      ((op.scanThroughCache store chunk cache (op.sourceIds chunk)).1.map (op.taken chunk)).Perm
        ((range chunk.count).flatMap fun i =>
          (op.cachedSteps store g (op.sourceId chunk i)).map fun t => (i, t)) := by
  simp only [scanThroughCache]
  split
  next hhits =>
    refine ⟨hcache, reassemble_steps hends fun v hv => ?_⟩
    have hnot : ¬ (cache.find v).isNone = true := filter_eq_nil_iff.mp hhits v hv
    cases hfind : cache.find v with
    | none => simp [hfind] at hnot
    | some list => exact ⟨list, rfl, hcache _ (mem_of_lookup hfind)⟩
  next =>
    split
    next =>
      refine ⟨hcache, (filterDstLabels_steps h (scanWithoutCache_steps h hends hlabels)).trans (List.Perm.of_eq ?_)⟩
      congr 1
      funext i
      rw [cachedSteps, filter_filter]
      congr 1
      apply filter_congr
      intro t _
      rw [Bool.and_comm]
    next miss_edges hmisses =>
      rw [collectMisses_eq hmisses, nil_append]
      have hnodup : ((op.sourceIds chunk).filter fun vid => (cache.find vid).isNone).Nodup :=
        nodup_sourceIds.filter _
      have hfresh := freshNeighbors_ok h hlabels hdir hnodup
      have hadmits := admitNeighbors_entries cache (op.freshNeighbors store
        ((op.sourceIds chunk).filter fun vid => (cache.find vid).isNone)
        (op.scanFilters.flatMap (op.scanBatch store
          ((op.sourceIds chunk).filter fun vid => (cache.find vid).isNone) op.direction)))
      have hadmitted : op.CacheOk store g (admitNeighbors cache (op.freshNeighbors store
          ((op.sourceIds chunk).filter fun vid => (cache.find vid).isNone)
          (op.scanFilters.flatMap (op.scanBatch store
            ((op.sourceIds chunk).filter fun vid => (cache.find vid).isNone) op.direction)))) := by
        intro p hp
        rcases hadmits with heq | heq
        · exact hcache p (heq ▸ hp)
        · rw [heq, mem_append] at hp
          exact hp.elim (hcache p) (hfresh p)
      refine ⟨hadmitted, reassemble_steps hends fun v hv => ?_⟩
      -- cached before or read now
      cases hfind : (admitNeighbors cache _).find v with
      | some list => exact ⟨list, rfl, hadmitted _ (mem_of_lookup hfind)⟩
      | none =>
        have hmiss : (cache.find v).isNone = true := by
          cases hold : cache.find v with
          | none => rfl
          | some list =>
            exfalso
            rw [NeighborCache.find] at hfind hold
            rcases hadmits with heq | heq
            · rw [heq, hold] at hfind
              cases hfind
            · rw [heq, lookup_append, hold] at hfind
              cases hfind
        have hread : v ∈ (op.freshNeighbors store ((op.sourceIds chunk).filter fun vid => (cache.find vid).isNone)
            (op.scanFilters.flatMap (op.scanBatch store
              ((op.sourceIds chunk).filter fun vid => (cache.find vid).isNone)
                op.direction))).map Prod.fst := by
          simp only [freshNeighbors, map_map, Function.comp_def, zipIdx_map_fst]
          exact mem_filter.mpr ⟨hv, hmiss⟩
        obtain ⟨list, hlist⟩ := exists_lookup hread
        exact ⟨list, hlist, hfresh _ (mem_of_lookup hlist)⟩

/-- Whatever way the edges are read. -/
theorem chunkEdges_steps (h : store.Holds g) (hends : g.ValidEnds)
    (hlabels : ∀ labels ∈ op.label_filters, labels.Nodup) {cache : NeighborCache}
    (hcache : op.CacheOk store g cache) :
    op.CacheOk store g (op.chunkEdges store chunk cache).2 ∧
      ((op.chunkEdges store chunk cache).1.map (op.taken chunk)).Perm
        ((range chunk.count).flatMap fun i =>
          (op.takenSteps store g chunk i).map fun t => (i, t)) := by
  unfold chunkEdges
  split
  next =>
    refine ⟨hcache, ?_⟩
    simp only [takenSteps_eq]
    apply filterDstLabels_steps h
    rw [map_flatMap]
    exact List.Perm.flatMap_left _ fun i _ => rowEdges_steps h hends hlabels chunk i
  next hunbound =>
    simp only [Bool.or_eq_true, not_or, Bool.not_eq_true] at hunbound
    simp only [takenSteps_unbound hunbound.1 hunbound.2]
    split
    next hnone =>
      refine ⟨hcache, List.Perm.of_eq (Eq.symm ?_)⟩
      rw [map_nil, flatMap_eq_nil_iff]
      intro i hi
      have hinvalid : op.sourceId chunk i = INVALID_VERTEX_ID := by
        by_contra hvalid
        have hmem : op.sourceId chunk i ∈ op.sourceIds chunk :=
          mem_sourceIds.mpr ⟨hvalid, i, mem_range.mp hi, rfl⟩
        simp [hnone] at hmem
      rw [hinvalid, cachedSteps, incident_invalid hends]
      rfl
    next =>
      split
      next huse =>
        simp only [Bool.and_eq_true, decide_eq_true_eq] at huse
        exact scanThroughCache_steps h hends hlabels huse.2 hcache
      next =>
        refine ⟨hcache, (filterDstLabels_steps h (scanWithoutCache_steps h hends hlabels)).trans
          (List.Perm.of_eq ?_)⟩
        congr 1
        funext i
        rw [cachedSteps, filter_filter]
        congr 1
        apply filter_congr
        intro t _
        rw [Bool.and_comm]

end Chunks

end Expand.ExpandPhysicalOp

end Eugraph.Dataset
