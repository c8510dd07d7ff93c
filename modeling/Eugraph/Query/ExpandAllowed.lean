import Eugraph.Query.ExpandExact

/-!
# An expand to allowed destinations

Under a join with a list the planner gives an expand an index and a type, and the join sets
the values of the list before each execution.  The expand then looks up the vertices of the
values and probes for an edge between each of them and each source, one way and the other,
in place of a scan.

The probes take the first edge of each pair and take no edge twice in a batch of rows.  So
the expand misses parallel edges and the second row with one source, and it follows edges
against its direction.
-/

namespace Eugraph.Dataset

open Lib DataStore List Option Expand.ExpandPhysicalOp DirectedEdgeEntry
open Query (EdgeTypeIndexEntry)
open VarLenExpandPhysicalOp (carriedValue)

/-- The scan by type between two vertices, in batches. -/
structure AllowedReads extends ExpandReads where
  scanEdgesBetween : EdgeLabelId → VertexId → VertexId → List (List EdgeTypeIndexEntry)

namespace Expand

/-- What `setAllowedDstFilter` sets. -/
structure FilteredExpand extends ExpandPhysicalOp where
  allowed_dst_index_id : UInt32
  allowed_edge_label : EdgeLabelId

namespace FilteredExpand

variable (op : FilteredExpand) (store : AllowedReads)

/-! ### The operator -/

def allowed_filter (allowed_dst_values : Option (List PropertyValue)) : Bool :=
  op.allowed_dst_index_id ≠ 0 && op.allowed_edge_label ≠ INVALID_EDGE_LABEL_ID &&
    allowed_dst_values.any fun values => !values.isEmpty

def allowed_dst_vids (allowed_dst_values : List PropertyValue) : List VertexId :=
  allowed_dst_values.flatMap fun value =>
    store.scanVerticesByIndexId op.allowed_dst_index_id [value]

/-- The first entry of the first batch. -/
def outEntry (src_id dst_id : VertexId) : Option EdgeTypeIndexEntry :=
  (store.scanEdgesBetween op.allowed_edge_label src_id dst_id).head?.bind (·.head?)

/-- A loop was met on the way out. -/
def inEntry (src_id dst_id : VertexId) : Option EdgeTypeIndexEntry :=
  (store.scanEdgesBetween op.allowed_edge_label dst_id src_id).head?.bind
    (·.find? fun entry => entry.srcVertexId ≠ entry.dstVertexId)

def probed (src_row : Nat) (dst_id : VertexId) (physical_out : Bool) (entry : EdgeTypeIndexEntry) :
    EdgeEntryScratch :=
  ⟨src_row, ⟨dst_id, entry.edgeId, op.allowed_edge_label, entry.seq, physical_out⟩⟩

/-- `scanOneDirection` of a filtered expand, which does not look at the direction. -/
def probeRow (chunk : DataChunk) (vids : List VertexId) (src_row : Nat) : List EdgeEntryScratch :=
  let src_id := op.sourceId chunk src_row
  if src_id = INVALID_VERTEX_ID then []
  else
    vids.flatMap fun dst_id =>
      ((op.outEntry store src_id dst_id).map (op.probed src_row dst_id true)).toList ++
        ((op.inEntry store src_id dst_id).map (op.probed src_row dst_id false)).toList

/-- `allowed_seen.insert(entry.edge_id).second`. -/
def seenBefore (a b : EdgeEntryScratch) : Bool := a.entry.edge_id = b.entry.edge_id

/-- The edges of a chunk.  `allowed_seen` is cleared for each chunk, not for each row. -/
def allowedEdges (chunk : DataChunk) (vids : List VertexId) : List EdgeEntryScratch :=
  op.filterDstLabels store.toExpandReads
    (firsts seenBefore ((range chunk.count).flatMap (op.probeRow store chunk vids)))

def allowedChunks (vids : List VertexId) (chunks : List DataChunk) : List DataChunk :=
  chunks.flatMap fun chunk =>
    let edges := op.allowedEdges store chunk vids
    if edges = [] then [] else [op.buildChunk chunk edges]

/-- One execution.  A scan of all edges comes first, and an empty list of values is no
filter. -/
def executeFiltered (cache : NeighborCache) (allowed_dst_values : Option (List PropertyValue))
    (child : List DataChunk) : List DataChunk × NeighborCache :=
  if !op.full_edge_scan && op.allowed_filter allowed_dst_values then
    (op.allowedChunks store (op.allowed_dst_vids store (allowed_dst_values.getD []))
      (slicedChild (expandInputRows op.env_input_rows) child), cache)
  else op.executeChunk store.toExpandReads cache child

/-- The join executes the operator for each of its rows that has a list. -/
def executions : NeighborCache → List (List PropertyValue × List DataChunk) → List (List DataChunk)
  | _, [] => []
  | cache, input :: rest =>
    let (out, cache) := op.executeFiltered store cache (some input.1) input.2
    out :: executions cache rest

/-! ### What it should emit -/

/-- The destination in an output row. -/
def rowDst (row : Row) : VertexId :=
  Column.cellVertexId (if op.dst_bound then row.getD op.dst_col_idx .null else row.getLast?.getD .null)

/-- The rows of the ordinary expand whose destination is allowed. -/
def ordinaryRows (values : List PropertyValue) (child : List DataChunk) : List Row :=
  (streamRows (op.executeChunk store.toExpandReads .empty child).1).filter fun row =>
    (op.allowed_dst_vids store values).contains (op.rowDst row)

def KeepsAllowed (input : List PropertyValue × List DataChunk) (out : List DataChunk) : Prop :=
  (streamRows out).Perm (op.ordinaryRows store input.1 input.2)

end FilteredExpand

end Expand

/-- No other edge of the type has the same ends. -/
def Graph.Single (g : Graph) (e : StoredEdge) : Prop :=
  ∀ e' ∈ g.edges, e'.label_id = e.label_id → e'.src = e.src → e'.dst = e.dst → e' = e

/-- A scan by type between two vertices lists the edges from the first to the second, and has
no empty batch. -/
structure AllowedReads.Holds (store : AllowedReads) (g : Graph) : Prop
    extends scans : store.toExpandReads.Holds g where
  between : ∀ label src dst, (store.scanEdgesBetween label src dst).flatten.Perm
    ((g.edges.filter fun e => e.label_id = label ∧ e.src = src ∧ e.dst = dst).map fun e =>
      ⟨e.src, e.dst, e.seq, e.id⟩)
  batches : ∀ label src dst, [] ∉ store.scanEdgesBetween label src dst

namespace Expand.FilteredExpand

variable (op : FilteredExpand) (store : AllowedReads) (g : Graph)

/-- What the planner promises: what it does for an expand without a filter, and names for
the edge and the destination, a column for a destination that is bound, and an index and a
type. -/
structure Planned (child : List DataChunk) : Prop extends op.WellPlanned g child where
  edge_var : op.edge_var ≠ ""
  dst_var : op.dst_var ≠ ""
  dst_col : op.dst_bound = true → ∀ chunk ∈ child, op.dst_col_idx < chunk.columns.length
  index : op.allowed_dst_index_id ≠ 0
  edge_label : op.allowed_edge_label ≠ INVALID_EDGE_LABEL_ID

/-- The destination in the row for a step. -/
def stepDst (chunk : DataChunk) (i : Nat) (t : Traversal) : VertexId :=
  if op.dst_bound then op.boundDst chunk i else t.vertex

/-- The steps the ordinary expand takes to an allowed destination. -/
def allowedSteps (vids : List VertexId) (chunk : DataChunk) (i : Nat) : List Traversal :=
  (op.takenSteps store.toExpandReads g chunk i).filter fun t => vids.contains (op.stepDst chunk i t)

/-- An edge of the type, between the source of the row and an allowed vertex, in either
direction. -/
def Joined (vids : List VertexId) (chunk : DataChunk) (i : Nat) (t : Traversal) : Prop :=
  g.Follows .BOTH (op.sourceId chunk i) t ∧ t.edge.label_id = op.allowed_edge_label ∧ t.vertex ∈ vids

/-- No earlier row of the batch is joined by the same edge. -/
def FirstJoined (vids : List VertexId) (chunk : DataChunk) (i : Nat) (t : Traversal) : Prop :=
  op.Joined g vids chunk i t ∧ ∀ j < i, ∀ u, op.Joined g vids chunk j u → u.edge ≠ t.edge

/-- When the probes do what a scan with a filter does. -/
structure ProbesSuffice (input : List PropertyValue × List DataChunk) : Prop where
  /-- A scan of all edges reaches allowed vertices only. -/
  scanned : op.full_edge_scan = true → ∀ e ∈ g.edges, e.label_id ∈ op.full_scan_labels →
    e.dst ∈ op.allowed_dst_vids store input.1 ∧
      (op.direction = .BOTH → e.src ∈ op.allowed_dst_vids store input.1)
  /-- With an empty list there is no edge to follow. -/
  listed : op.full_edge_scan = false → input.1 = [] →
    ∀ chunk ∈ slicedChild (expandInputRows op.env_input_rows) input.2, ∀ i < chunk.count,
      op.takenSteps store.toExpandReads g chunk i = []
  /-- The expand follows the edges that join a row first. -/
  followed : op.full_edge_scan = false → input.1 ≠ [] →
    ∀ chunk ∈ slicedChild (expandInputRows op.env_input_rows) input.2, ∀ i < chunk.count, ∀ t,
      op.FirstJoined g (op.allowed_dst_vids store input.1) chunk i t →
        op.dstLabelsMatch store.toExpandReads t.vertex = true →
          t ∈ op.allowedSteps store g (op.allowed_dst_vids store input.1) chunk i
  /-- Each edge it follows to an allowed vertex is of the type, joins no row of the batch
  before this one, and has no parallel. -/
  met : op.full_edge_scan = false → input.1 ≠ [] →
    ∀ chunk ∈ slicedChild (expandInputRows op.env_input_rows) input.2, ∀ i < chunk.count,
      ∀ t ∈ op.allowedSteps store g (op.allowed_dst_vids store input.1) chunk i,
        op.FirstJoined g (op.allowed_dst_vids store input.1) chunk i t ∧ g.Single t.edge

variable {op store g}

/-! ### One probe -/

section Probe

lemma head_head {α : Type} {batches : List (List α)} (hbatches : [] ∉ batches) :
    batches.head?.bind (·.head?) = batches.flatten.head? := by
  cases batches with
  | nil => rfl
  | cons batch rest =>
    cases batch with
    | nil => exact absurd mem_cons_self hbatches
    | cons entry others => rfl

lemma mem_between (h : store.Holds g) {label : EdgeLabelId} {src dst : VertexId} {entry : EdgeTypeIndexEntry} :
    entry ∈ (store.scanEdgesBetween label src dst).flatten ↔ ∃ e ∈ g.edges,
      e.label_id = label ∧ e.src = src ∧ e.dst = dst ∧ entry = ⟨e.src, e.dst, e.seq, e.id⟩ := by
  rw [(h.between label src dst).mem_iff, List.mem_map]
  constructor
  · rintro ⟨e, he, rfl⟩
    obtain ⟨hedge, hends⟩ := mem_filter.mp he
    obtain ⟨hlabel, hsrc, hdst⟩ := of_decide_eq_true hends
    exact ⟨e, hedge, hlabel, hsrc, hdst, rfl⟩
  · rintro ⟨e, hedge, hlabel, hsrc, hdst, rfl⟩
    exact ⟨e, mem_filter.mpr ⟨hedge, decide_eq_true ⟨hlabel, hsrc, hdst⟩⟩, rfl⟩

/-- The edge is the first of its type between its ends. -/
def Leads (op : FilteredExpand) (store : AllowedReads) (e : StoredEdge) : Prop :=
  op.outEntry store e.src e.dst = some ⟨e.src, e.dst, e.seq, e.id⟩

lemma outEntry_eq (h : store.Holds g) (src dst : VertexId) :
    op.outEntry store src dst = (store.scanEdgesBetween op.allowed_edge_label src dst).flatten.head? :=
  head_head (h.batches _ _ _)

lemma leads_of_outEntry (h : store.Holds g) {src dst : VertexId} {entry : EdgeTypeIndexEntry}
    (hentry : op.outEntry store src dst = some entry) :
    ∃ e ∈ g.edges, e.label_id = op.allowed_edge_label ∧ e.src = src ∧ e.dst = dst ∧
      entry = ⟨e.src, e.dst, e.seq, e.id⟩ ∧ op.Leads store e := by
  have hmem : entry ∈ (store.scanEdgesBetween op.allowed_edge_label src dst).flatten := by
    rw [outEntry_eq h] at hentry
    exact mem_of_head? hentry
  obtain ⟨e, hedge, hlabel, rfl, rfl, rfl⟩ := (mem_between h).mp hmem
  exact ⟨e, hedge, hlabel, rfl, rfl, rfl, hentry⟩

/-- Among parallel edges one leads. -/
theorem exists_leads (h : store.Holds g) {e : StoredEdge} (he : e ∈ g.edges)
    (hlabel : e.label_id = op.allowed_edge_label) :
    ∃ e' ∈ g.edges, e'.label_id = e.label_id ∧ e'.src = e.src ∧ e'.dst = e.dst ∧ op.Leads store e' := by
  have hmem : (⟨e.src, e.dst, e.seq, e.id⟩ : EdgeTypeIndexEntry) ∈
      (store.scanEdgesBetween op.allowed_edge_label e.src e.dst).flatten :=
    (mem_between h).mpr ⟨e, he, hlabel, rfl, rfl, rfl⟩
  cases hhead : op.outEntry store e.src e.dst with
  | none =>
    rw [outEntry_eq h, head?_eq_none_iff] at hhead
    rw [hhead] at hmem
    cases hmem
  | some entry =>
    obtain ⟨e', hedge, hlabel', hsrc, hdst, -, hleads⟩ := leads_of_outEntry h hhead
    exact ⟨e', hedge, hlabel'.trans hlabel.symm, hsrc, hdst, hleads⟩

lemma eq_of_leads (he : e ∈ g.edges) (he' : e' ∈ g.edges) (hleads : op.Leads store e)
    (hleads' : op.Leads store e') (hsrc : e'.src = e.src) (hdst : e'.dst = e.dst) : e' = e := by
  unfold Leads at hleads hleads'
  rw [hsrc, hdst, hleads] at hleads'
  have hid : e.id = e'.id := congrArg EdgeTypeIndexEntry.edgeId (some.inj hleads')
  exact inj_on_of_nodup_map g.distinct he' he hid.symm

/-- On the way in there is the same edge, unless the two vertices are one. -/
theorem inEntry_eq (h : store.Holds g) (src dst : VertexId) :
    op.inEntry store src dst = if dst = src then none else op.outEntry store dst src := by
  unfold inEntry outEntry
  cases hbatches : (store.scanEdgesBetween op.allowed_edge_label dst src).head? with
  | none => simp
  | some batch =>
    have hbatch : batch ∈ store.scanEdgesBetween op.allowed_edge_label dst src := mem_of_head? hbatches
    have hends : ∀ entry ∈ batch, entry.srcVertexId = dst ∧ entry.dstVertexId = src := by
      intro entry hentry
      obtain ⟨e, -, -, hsrc, hdst, rfl⟩ := (mem_between h).mp (mem_flatten.mpr ⟨batch, hbatch, hentry⟩)
      exact ⟨hsrc, hdst⟩
    cases batch with
    | nil => simp
    | cons entry others =>
      obtain ⟨hsrc, hdst⟩ := hends entry mem_cons_self
      simp only [bind_some, head?_cons]
      split
      next hloop =>
        rw [find?_eq_none]
        intro other hother
        obtain ⟨hsrc, hdst⟩ := hends other hother
        simp [hsrc, hdst, hloop]
      next hends => rw [find?_cons_of_pos (by simp [hsrc, hdst, hends])]

end Probe

/-! ### The probes of a row -/

section Row

variable {vids : List VertexId} {chunk : DataChunk} {i : Nat}

lemma joined_of_probe (h : store.Holds g) {x : EdgeEntryScratch} (hx : x ∈ op.probeRow store chunk vids i) :
    ∃ t, op.taken chunk x = (i, t) ∧ op.Joined g vids chunk i t ∧ op.Leads store t.edge := by
  unfold probeRow at hx
  simp only at hx
  split at hx
  · cases hx
  · obtain ⟨dst, hdst, hx⟩ := mem_flatMap.mp hx
    simp only [mem_append, mem_toList, map_eq_some_iff] at hx
    rcases hx with ⟨entry, hentry, rfl⟩ | ⟨entry, hentry, rfl⟩
    · obtain ⟨e, hedge, hlabel, hsrc, rfl, rfl, hleads⟩ := leads_of_outEntry h hentry
      refine ⟨⟨e, e.dst⟩, ?_, ⟨⟨hedge, .inl ⟨by simp, hsrc, rfl⟩⟩, hlabel, hdst⟩, hleads⟩
      simp [taken, probed, traversal, physical, ← hlabel, ← hsrc]
    · rw [inEntry_eq h] at hentry
      split at hentry
      · cases hentry
      · obtain ⟨e, hedge, hlabel, rfl, hto, rfl, hleads⟩ := leads_of_outEntry h hentry
        refine ⟨⟨e, e.src⟩, ?_, ⟨⟨hedge, .inr ⟨by simp, hto, rfl⟩⟩, hlabel, hdst⟩, hleads⟩
        simp [taken, probed, traversal, physical, ← hlabel, ← hto]

lemma exists_probe (h : store.Holds g) (hends : g.ValidEnds) {t : Traversal}
    (hjoined : op.Joined g vids chunk i t) (hleads : op.Leads store t.edge) :
    ∃ x ∈ op.probeRow store chunk vids i, op.taken chunk x = (i, t) := by
  obtain ⟨⟨hedge, hside⟩, hlabel, hmem⟩ := hjoined
  have hvalid : op.sourceId chunk i ≠ INVALID_VERTEX_ID := by
    intro hsource
    rcases hside with ⟨-, hsrc, -⟩ | ⟨-, hdst, -⟩
    · exact (hends t.edge hedge).1 (hsrc.trans hsource)
    · exact (hends t.edge hedge).2 (hdst.trans hsource)
  -- a loop is met on the way out
  have hcases : t.edge.src = op.sourceId chunk i ∧ t.vertex = t.edge.dst ∨
      t.edge.src ≠ op.sourceId chunk i ∧ t.edge.dst = op.sourceId chunk i ∧ t.vertex = t.edge.src := by
    rcases hside with ⟨-, hsrc, hvertex⟩ | ⟨-, hdst, hvertex⟩
    · exact .inl ⟨hsrc, hvertex⟩
    · by_cases hloop : t.edge.src = op.sourceId chunk i
      · exact .inl ⟨hloop, hvertex.trans (hloop.trans hdst.symm)⟩
      · exact .inr ⟨hloop, hdst, hvertex⟩
  unfold probeRow
  simp only [hvalid, if_false, mem_flatMap, mem_append, mem_toList, map_eq_some_iff]
  rcases hcases with ⟨hsrc, hvertex⟩ | ⟨hne, hdst, hvertex⟩
  · refine ⟨_, ⟨t.vertex, hmem, .inl ⟨⟨t.edge.src, t.edge.dst, t.edge.seq, t.edge.id⟩, ?_, rfl⟩⟩, ?_⟩
    · rw [hvertex, ← hsrc]
      exact hleads
    · simp [taken, probed, traversal, physical, ← hlabel, ← hsrc, hvertex]
      exact congrArg (Traversal.mk t.edge) hvertex.symm
  · refine ⟨_, ⟨t.vertex, hmem, .inr ⟨⟨t.edge.src, t.edge.dst, t.edge.seq, t.edge.id⟩, ?_, rfl⟩⟩, ?_⟩
    · rw [inEntry_eq h, hvertex, if_neg hne, ← hdst]
      exact hleads
    · simp [taken, probed, traversal, physical, ← hlabel, ← hdst, hvertex]
      exact congrArg (Traversal.mk t.edge) hvertex.symm

end Row

/-! ### The edges of a batch -/

section Batch

variable {vids : List VertexId} {chunk : DataChunk} {i : Nat}

/-- An edge leads from a vertex to one other. -/
theorem follows_unique {direction direction' : Direction} {v : VertexId} {t u : Traversal}
    (ht : g.Follows direction v t) (hu : g.Follows direction' v u) (hedge : t.edge = u.edge) :
    t = u := by
  have hvertex : t.vertex = u.vertex := by
    obtain ⟨-, ⟨-, hsrc, hto⟩ | ⟨-, hdst, hto⟩⟩ := ht
    · obtain ⟨-, ⟨-, hsrc', hto'⟩ | ⟨-, hdst', hto'⟩⟩ := hu
      · rw [hto, hto', hedge]
      · rw [hto, hto', ← hedge, hsrc, hedge, hdst']
    · obtain ⟨-, ⟨-, hsrc', hto'⟩ | ⟨-, hdst', hto'⟩⟩ := hu
      · rw [hto, hto', ← hedge, hdst, hedge, hsrc']
      · rw [hto, hto', hedge]
  cases t with
  | mk edge vertex =>
    cases u with
    | mk edge' vertex' =>
      simp only at hedge hvertex
      rw [hedge, hvertex]

/-- What is kept of the probes of a row. -/
def rowProbes (op : FilteredExpand) (store : AllowedReads) (vids : List VertexId) (chunk : DataChunk)
    (i : Nat) : List EdgeEntryScratch :=
  firstsFrom seenBefore ((range i).flatMap (op.probeRow store chunk vids))
    (op.probeRow store chunk vids i)

/-- The steps a row is extended by. -/
def emittedSteps (op : FilteredExpand) (store : AllowedReads) (vids : List VertexId)
    (chunk : DataChunk) (i : Nat) : List Traversal :=
  ((op.rowProbes store vids chunk i).filter fun x =>
    op.dstLabelsMatch store.toExpandReads x.entry.neighbor_id).map fun x => (op.taken chunk x).2

lemma mem_rowProbes {x : EdgeEntryScratch} (hx : x ∈ op.rowProbes store vids chunk i) :
    x ∈ op.probeRow store chunk vids i :=
  (firstsFrom_sublist _ _ _).subset hx

/-- The edges kept for a row are those no earlier row has met. -/
theorem mem_rowProbes_ids (id : EdgeId) : id ∈ (op.rowProbes store vids chunk i).map (·.entry.edge_id) ↔
      id ∈ (op.probeRow store chunk vids i).map (·.entry.edge_id) ∧
        ∀ j < i, id ∉ (op.probeRow store chunk vids j).map (·.entry.edge_id) := by
  have hkeys := mem_keys_firstsFrom (fun x : EdgeEntryScratch => x.entry.edge_id)
    ((range i).flatMap (op.probeRow store chunk vids)) (op.probeRow store chunk vids i) id
  refine hkeys.trans (and_congr_right fun _ => ?_)
  rw [map_flatMap, mem_flatMap]
  constructor
  · intro hnone j hj hmem
    exact hnone ⟨j, mem_range.mpr hj, hmem⟩
  · rintro hnone ⟨j, hj, hmem⟩
    exact hnone j (mem_range.mp hj) hmem

lemma mem_probe_ids (h : store.Holds g) (hends : g.ValidEnds) {t : Traversal}
    (hedge : t.edge ∈ g.edges) (hleads : op.Leads store t.edge) (j : Nat) :
    t.edge.id ∈ (op.probeRow store chunk vids j).map (·.entry.edge_id) ↔
      ∃ u, op.Joined g vids chunk j u ∧ u.edge = t.edge := by
  rw [List.mem_map]
  constructor
  · rintro ⟨x, hx, hid⟩
    obtain ⟨u, htaken, hjoined, -⟩ := joined_of_probe h hx
    have hsame : u.edge.id = t.edge.id := by
      rw [← hid]
      exact congrArg (fun p : Nat × Traversal => p.2.edge.id) htaken.symm
    exact ⟨u, hjoined, inj_on_of_nodup_map g.distinct hjoined.1.1 hedge hsame⟩
  · rintro ⟨u, hjoined, hsame⟩
    rw [← hsame] at hleads
    obtain ⟨x, hx, htaken⟩ := exists_probe h hends hjoined hleads
    refine ⟨x, hx, ?_⟩
    rw [← hsame]
    exact congrArg (fun p : Nat × Traversal => p.2.edge.id) htaken

lemma mem_emittedSteps (h : store.Holds g) (hends : g.ValidEnds) {t : Traversal} :
    t ∈ op.emittedSteps store vids chunk i ↔ op.FirstJoined g vids chunk i t ∧
      op.Leads store t.edge ∧ op.dstLabelsMatch store.toExpandReads t.vertex = true := by
  constructor
  · intro ht
    obtain ⟨x, hx, rfl⟩ := mem_map.mp ht
    obtain ⟨hx, hlabels⟩ := mem_filter.mp hx
    obtain ⟨t, htaken, hjoined, hleads⟩ := joined_of_probe h (mem_rowProbes hx)
    have hstep : (op.taken chunk x).2 = t := congrArg Prod.snd htaken
    rw [hstep]
    have hid : x.entry.edge_id = t.edge.id := by
      rw [← hstep]
      rfl
    refine ⟨⟨hjoined, fun j hj u hu hsame => ?_⟩, hleads, ?_⟩
    · have hfirst := ((mem_rowProbes_ids _).mp (mem_map_of_mem hx)).2 j hj
      simp only [hid] at hfirst
      exact hfirst ((mem_probe_ids h hends hjoined.1.1 hleads j).mpr ⟨u, hu, hsame⟩)
    · rw [← hstep]
      exact hlabels
  · rintro ⟨⟨hjoined, hfirst⟩, hleads, hlabels⟩
    have hkept : t.edge.id ∈ (op.rowProbes store vids chunk i).map (·.entry.edge_id) := by
      rw [mem_rowProbes_ids]
      refine ⟨(mem_probe_ids h hends hjoined.1.1 hleads i).mpr ⟨t, hjoined, rfl⟩, ?_⟩
      intro j hj hmem
      obtain ⟨u, hu, hsame⟩ := (mem_probe_ids h hends hjoined.1.1 hleads j).mp hmem
      exact hfirst j hj u hu hsame
    obtain ⟨x, hx, hid⟩ := mem_map.mp hkept
    -- the row has one step along the edge
    obtain ⟨u, htaken, hu, -⟩ := joined_of_probe h (mem_rowProbes hx)
    have hstep : (op.taken chunk x).2 = u := congrArg Prod.snd htaken
    have hedge : u.edge = t.edge := by
      apply inj_on_of_nodup_map g.distinct hu.1.1 hjoined.1.1
      rw [← hid, ← hstep]
      rfl
    have hsame : u = t := follows_unique hu.1 hjoined.1 hedge
    rw [hsame] at hstep
    refine List.mem_map.mpr ⟨x, mem_filter.mpr ⟨hx, ?_⟩, hstep⟩
    rw [← hstep] at hlabels
    exact hlabels

lemma nodup_emittedSteps : (op.emittedSteps store vids chunk i).Nodup := by
  have hids : (op.rowProbes store vids chunk i).map (·.entry.edge_id) |>.Nodup :=
    nodup_firstsFrom_key (fun x : EdgeEntryScratch => x.entry.edge_id) _ _
  have hsub := hids.sublist ((filter_sublist (p := fun x : EdgeEntryScratch =>
    op.dstLabelsMatch store.toExpandReads x.entry.neighbor_id)).map _)
  apply List.Nodup.of_map fun t : Traversal => t.edge.id
  rw [emittedSteps, List.map_map]
  exact hsub

/-- The edges of a batch, row by row. -/
theorem allowedEdges_taken (h : store.Holds g) : (op.allowedEdges store chunk vids).map (op.taken chunk) =
      (range chunk.count).flatMap fun i =>
        (op.emittedSteps store vids chunk i).map fun t => (i, t) := by
  rw [allowedEdges, filterDstLabels_eq h.scans, firsts_flatMap_range, filter_flatMap, map_flatMap]
  congr 1
  funext i
  rw [emittedSteps, List.map_map]
  apply map_congr_left
  intro x hx
  obtain ⟨t, htaken, -, -⟩ := joined_of_probe h (mem_rowProbes (mem_filter.mp hx).1)
  rw [Function.comp_apply, htaken]

end Batch

/-! ### Output rows -/

section Rows

variable {vids : List VertexId} {chunk : DataChunk} {i : Nat}

/-- The row for a step. -/
def stepRow (op : FilteredExpand) (p : DataChunk × Nat) (t : Traversal) : Row :=
  p.1.columns.map (carriedValue p.2) ++ op.appendedRow (op.sourceId p.1 p.2) t

/-- The rows of the batches. -/
def batchRows (chunks : List DataChunk) : List (DataChunk × Nat) :=
  chunks.flatMap fun chunk => (range chunk.count).map fun i => (chunk, i)

lemma mem_batchRows {chunks : List DataChunk} {p : DataChunk × Nat} :
    p ∈ batchRows chunks ↔ p.1 ∈ chunks ∧ p.2 < p.1.count := by
  simp only [batchRows, mem_flatMap, List.mem_map, mem_range]
  constructor
  · rintro ⟨chunk, hchunk, i, hi, rfl⟩
    exact ⟨hchunk, hi⟩
  · rintro ⟨hchunk, hi⟩
    exact ⟨p.1, hchunk, p.2, hi, rfl⟩

lemma flatMap_batchRows {α : Type} (f : DataChunk × Nat → List α) (chunks : List DataChunk) :
    (batchRows chunks).flatMap f = chunks.flatMap fun chunk => (range chunk.count).flatMap fun i =>
      f (chunk, i) := by
  rw [batchRows, flatMap_assoc]
  simp only [flatMap_map]

/-- A row for each step emitted. -/
theorem allowedChunks_rows (h : store.Holds g) (hfull : op.full_edge_scan = false) (chunks : List DataChunk) :
    streamRows (op.allowedChunks store vids chunks) =
      (batchRows chunks).flatMap fun p =>
        (op.emittedSteps store vids p.1 p.2).map (op.stepRow p) := by
  rw [flatMap_batchRows, streamRows, allowedChunks, flatMap_assoc]
  congr 1
  funext chunk
  have htaken : (op.allowedEdges store chunk vids).map (op.taken chunk) = _ := allowedEdges_taken h
  have hrows : (op.buildChunk chunk (op.allowedEdges store chunk vids)).rows = _ :=
    rows_buildChunk hfull (op.allowedEdges store chunk vids)
  rw [htaken, map_flatMap] at hrows
  simp only [List.map_map] at hrows
  by_cases hnone : op.allowedEdges store chunk vids = []
  · simp only [hnone, if_true] at hrows ⊢
    exact hrows
  · simp only [hnone, if_false, flatMap_singleton]
    exact hrows

lemma cellVertexId_carriedValue (col : Column) (i : Nat) :
    Column.cellVertexId (carriedValue i col) = Column.cellVertexId (col.getValue i) := by
  cases col with
  | unallocated type => cases type <;> rfl
  | flat buffer => rfl
  | constant value => rfl
  | dict buffer sel => rfl

lemma cellVertexId_getD (col : Nat) : Column.cellVertexId ((chunk.columns.map (carriedValue i)).getD col .null) =
      Column.cellVertexId (chunk.getValue col i) := by
  rw [getD_eq_getElem?_getD, getElem?_map, DataChunk.getValue]
  cases hcol : chunk.columns[col]? with
  | none => rfl
  | some column => exact cellVertexId_carriedValue column i

/-- The source and the bound destination can be read off the row. -/
theorem sourceId_eq_of_carried {chunk' : DataChunk} {i' : Nat}
    (hrow : chunk.columns.map (carriedValue i) = chunk'.columns.map (carriedValue i')) :
    op.sourceId chunk i = op.sourceId chunk' i' ∧ op.boundDst chunk i = op.boundDst chunk' i' := by
  unfold sourceId boundDst
  constructor
  · cases op.src_col_idx with
    | none => rfl
    | some col =>
      have hcell : Column.cellVertexId ((chunk.columns.map (carriedValue i)).getD col .null) = _ :=
        cellVertexId_getD col
      rw [hrow, cellVertexId_getD] at hcell
      exact hcell.symm
  · have hcell : Column.cellVertexId ((chunk.columns.map (carriedValue i)).getD op.dst_col_idx .null) = _ :=
      cellVertexId_getD op.dst_col_idx
    rw [hrow, cellVertexId_getD] at hcell
    exact hcell.symm

/-- The destination column of a row holds the destination of its step. -/
theorem rowDst_stepRow (hdst : op.dst_var ≠ "")
    (hcol : op.dst_bound = true → op.dst_col_idx < chunk.columns.length) (t : Traversal) :
    op.rowDst (op.stepRow (chunk, i) t) = op.stepDst chunk i t := by
  unfold rowDst stepDst stepRow
  cases hbound : op.dst_bound with
  | true =>
    have hlt : op.dst_col_idx < (chunk.columns.map (carriedValue i)).length := by
      rw [length_map]
      exact hcol hbound
    rw [if_pos rfl, if_pos rfl, getD_append _ _ _ _ hlt, cellVertexId_getD]
    rfl
  | false =>
    have happends : op.appendsDst = true := by
      simp [appendsDst, hbound, hdst]
    rw [if_neg Bool.false_ne_true, if_neg Bool.false_ne_true, appendedRow,
      if_pos happends, ← append_assoc, getLast?_append]
    rfl

lemma columns_slices {batch_rows offset rows : Nat} {slice : DataChunk}
    (hslice : slice ∈ slices chunk batch_rows offset rows) :
    slice.columns.length = chunk.columns.length := by
  induction offset using slices.induct batch_rows rows with
  | case1 offset hdone =>
    rw [slices, dif_pos hdone] at hslice
    cases hslice
  | case2 offset hmore ih =>
    rw [slices, dif_neg hmore] at hslice
    rcases mem_cons.mp hslice with rfl | hrest
    · rw [sliceChunk, length_map]
    · exact ih hrest

lemma columns_slicedChild {batch_rows : Nat} {child : List DataChunk} {slice : DataChunk}
    (hslice : slice ∈ slicedChild batch_rows child) :
    ∃ chunk ∈ child, slice.columns.length = chunk.columns.length := by
  obtain ⟨chunk, hchunk, hslice⟩ := mem_flatMap.mp hslice
  refine ⟨chunk, hchunk, ?_⟩
  split at hslice
  · cases hslice
  · split at hslice
    · rw [mem_singleton.mp hslice]
    · exact columns_slices hslice

/-- The rows of the ordinary expand, with the filter. -/
theorem ordinaryRows_perm (h : store.Holds g) (hends : g.ValidEnds)
    {input : List PropertyValue × List DataChunk} (hplan : op.Planned g input.2)
    (hfull : op.full_edge_scan = false) :
    (op.ordinaryRows store input.1 input.2).Perm
      ((batchRows (slicedChild (expandInputRows op.env_input_rows) input.2)).flatMap fun p =>
        (op.allowedSteps store g (op.allowed_dst_vids store input.1) p.1 p.2).map (op.stepRow p)) := by
  have hrows := (executeChunks_rows h.scans hends hplan.labels hfull
    (slicedChild (expandInputRows op.env_input_rows) input.2)
    cacheOk_empty).2
  have hkept := hrows.filter fun row =>
    (op.allowed_dst_vids store input.1).contains (op.rowDst row)
  rw [ordinaryRows, executeChunk, if_neg (by simp [hfull])]
  refine hkept.trans (List.Perm.of_eq ?_)
  rw [flatMap_batchRows, filter_flatMap]
  apply flatMap_congr
  intro chunk hchunk
  rw [chunkRows, filter_flatMap]
  congr 1
  funext i
  rw [List.filter_map, allowedSteps]
  refine congrArg (map (op.stepRow (chunk, i))) (filter_congr fun t _ => ?_)
  obtain ⟨whole, hwhole, hlength⟩ := columns_slicedChild hchunk
  have hdst := rowDst_stepRow (i := i) hplan.dst_var (fun hbound => hlength ▸ hplan.dst_col hbound whole hwhole) t
  exact congrArg (op.allowed_dst_vids store input.1).contains hdst

end Rows

/-! ### Where the probes suffice -/

section Suffice

variable {vids : List VertexId} {chunk : DataChunk} {i : Nat} {t : Traversal}

lemma mem_allowedSteps : t ∈ op.allowedSteps store g vids chunk i ↔
      g.Follows op.direction (op.sourceId chunk i) t ∧
        (op.labelPasses t.edge.label_id = true ∧ op.edgeMatches chunk i t.edge.id = true ∧
          (op.unprobed || op.dstMatches chunk i t.vertex) = true ∧
            op.dstLabelsMatch store.toExpandReads t.vertex = true) ∧ op.stepDst chunk i t ∈ vids := by
  rw [allowedSteps, mem_filter, takenSteps, mem_filter, Graph.mem_incident]
  simp only [Bool.and_eq_true, contains_eq_mem, decide_eq_true_eq]
  tauto

lemma nodup_allowedSteps : (op.allowedSteps store g vids chunk i).Nodup := by
  have hids := Graph.nodup_incident (g := g) op.direction (op.sourceId chunk i)
  exact ((List.Nodup.of_map _ hids).filter _).filter _

/-- An edge parallel to one that is followed is followed too, where no edge is asked for. -/
theorem allowedSteps_parallel (hedge : op.edge_bound = false) {u : Traversal}
    (ht : t ∈ op.allowedSteps store g vids chunk i) (hu : u.edge ∈ g.edges)
    (hlabel : u.edge.label_id = t.edge.label_id) (hsrc : u.edge.src = t.edge.src)
    (hdst : u.edge.dst = t.edge.dst) (hvertex : u.vertex = t.vertex) :
    u ∈ op.allowedSteps store g vids chunk i := by
  rw [mem_allowedSteps] at ht ⊢
  obtain ⟨⟨-, hside⟩, ⟨hpasses, -, hmatches, hlabels⟩, hmem⟩ := ht
  refine ⟨⟨hu, ?_⟩, ⟨?_, ?_, ?_, ?_⟩, ?_⟩
  · rw [hsrc, hdst, hvertex]
    exact hside
  · rw [hlabel]
    exact hpasses
  · simp [edgeMatches, hedge]
  · rw [hvertex]
    exact hmatches
  · rw [hvertex]
    exact hlabels
  · unfold stepDst at hmem ⊢
    rw [hvertex]
    exact hmem

/-- An edge parallel to one that joins a row joins it too. -/
theorem joined_parallel {u : Traversal} (ht : op.Joined g vids chunk i t) (hu : u.edge ∈ g.edges)
    (hlabel : u.edge.label_id = t.edge.label_id) (hsrc : u.edge.src = t.edge.src)
    (hdst : u.edge.dst = t.edge.dst) (hvertex : u.vertex = t.vertex) :
    op.Joined g vids chunk i u := by
  obtain ⟨⟨-, hside⟩, htype, hmem⟩ := ht
  refine ⟨⟨hu, ?_⟩, hlabel.trans htype, ?_⟩
  · rw [hsrc, hdst, hvertex]
    exact hside
  · rw [hvertex]
    exact hmem

lemma emitted_perm (h : store.Holds g) (hends : g.ValidEnds) (hfollowed : ∀ t, op.FirstJoined g vids chunk i t →
      op.dstLabelsMatch store.toExpandReads t.vertex = true → t ∈ op.allowedSteps store g vids chunk i)
    (hmet : ∀ t ∈ op.allowedSteps store g vids chunk i, op.FirstJoined g vids chunk i t ∧ g.Single t.edge) :
    (op.emittedSteps store vids chunk i).Perm (op.allowedSteps store g vids chunk i) := by
  rw [perm_ext_iff_of_nodup nodup_emittedSteps nodup_allowedSteps]
  intro t
  rw [mem_emittedSteps h hends]
  constructor
  · rintro ⟨hfirst, -, hlabels⟩
    exact hfollowed t hfirst hlabels
  · intro ht
    obtain ⟨hfirst, hsingle⟩ := hmet t ht
    obtain ⟨e, he, hlabel, hsrc, hdst, hleads⟩ := exists_leads h hfirst.1.1.1 hfirst.1.2.1
    rw [hsingle e he hlabel hsrc hdst] at hleads
    exact ⟨hfirst, hleads, (mem_allowedSteps.mp ht).2.1.2.2.2⟩

/-- The converse, where no edge is asked for. -/
theorem followed_met_of_perm (h : store.Holds g) (hends : g.ValidEnds) (hedge : op.edge_bound = false)
    (hperm : (op.emittedSteps store vids chunk i).Perm (op.allowedSteps store g vids chunk i)) :
    (∀ t, op.FirstJoined g vids chunk i t → op.dstLabelsMatch store.toExpandReads t.vertex = true →
        t ∈ op.allowedSteps store g vids chunk i) ∧
      ∀ t ∈ op.allowedSteps store g vids chunk i, op.FirstJoined g vids chunk i t ∧ g.Single t.edge := by
  constructor
  · intro t hfirst hlabels
    -- the leading edge of its parallels joins the same rows
    obtain ⟨e, he, hlabel, hsrc, hdst, hleads⟩ := exists_leads h hfirst.1.1.1 hfirst.1.2.1
    have hlead : op.FirstJoined g vids chunk i ⟨e, t.vertex⟩ := by
      refine ⟨joined_parallel hfirst.1 he hlabel hsrc hdst rfl, fun j hj u hu hsame => ?_⟩
      have hearlier : op.Joined g vids chunk j ⟨t.edge, u.vertex⟩ := by
        apply joined_parallel (u := ⟨t.edge, u.vertex⟩) hu hfirst.1.1.1
        · rw [hsame]
          exact hlabel.symm
        · rw [hsame]
          exact hsrc.symm
        · rw [hsame]
          exact hdst.symm
        · rfl
      exact hfirst.2 j hj _ hearlier rfl
    have hemitted : (⟨e, t.vertex⟩ : Traversal) ∈ op.emittedSteps store vids chunk i :=
      (mem_emittedSteps h hends).mpr ⟨hlead, hleads, hlabels⟩
    exact allowedSteps_parallel hedge (hperm.mem_iff.mp hemitted) hfirst.1.1.1 hlabel.symm hsrc.symm hdst.symm rfl
  · intro t ht
    obtain ⟨hfirst, hleads, -⟩ := (mem_emittedSteps h hends).mp (hperm.mem_iff.mpr ht)
    refine ⟨hfirst, fun e he hlabel hsrc hdst => ?_⟩
    -- a parallel edge is followed too, and then both lead
    have hparallel : (⟨e, t.vertex⟩ : Traversal) ∈ op.allowedSteps store g vids chunk i :=
      allowedSteps_parallel hedge ht he hlabel hsrc hdst rfl
    obtain ⟨-, hleads', -⟩ := (mem_emittedSteps h hends).mp (hperm.mem_iff.mpr hparallel)
    exact eq_of_leads hfirst.1.1.1 he hleads hleads' hsrc hdst

/-- A row tells its input row and its step, where the edge is a new column. -/
theorem stepRow_injective (hedge : op.edge_bound = false) (hvar : op.edge_var ≠ "")
    {p q : DataChunk × Nat} {u : Traversal} (ht : g.Follows .BOTH (op.sourceId p.1 p.2) t)
    (hu : u ∈ op.allowedSteps store g vids q.1 q.2) (hrow : op.stepRow p t = op.stepRow q u) :
    t ∈ op.allowedSteps store g vids p.1 p.2 := by
  have happends : op.appendsEdge = true := by simp [appendsEdge, hedge, hvar]
  have hlength (p : DataChunk × Nat) (t : Traversal) :
      (op.appendedRow (op.sourceId p.1 p.2) t).length = 1 + if op.appendsDst then 1 else 0 := by
    rw [appendedRow, if_pos happends, length_append]
    split <;> rfl
  obtain ⟨hcarried, happended⟩ := append_inj' hrow (by rw [hlength, hlength])
  obtain ⟨hsource, hbound⟩ : op.sourceId p.1 p.2 = op.sourceId q.1 q.2 ∧
      op.boundDst p.1 p.2 = op.boundDst q.1 q.2 := sourceId_eq_of_carried hcarried
  have hkey : op.stepKey (op.sourceId p.1 p.2) t = op.stepKey (op.sourceId q.1 q.2) u := by
    rw [appendedRow, appendedRow, if_pos happends, if_pos happends] at happended
    exact Value.edgeKey.inj (cons.inj happended).1
  have hid : t.edge.id = u.edge.id := by
    have hids (v : VertexId) (s : Traversal) : (op.stepKey v s).id = s.edge.id := by
      unfold stepKey
      split <;> rfl
    rw [← hids (op.sourceId p.1 p.2) t, hkey, hids]
  obtain ⟨hfollows, hmatches, hmem⟩ := mem_allowedSteps.mp hu
  have hsame : t.edge = u.edge := inj_on_of_nodup_map g.distinct ht.1 hfollows.1 hid
  have hstep : t = u := by
    rw [hsource] at ht
    exact follows_unique ht hfollows hsame
  rw [hstep, mem_allowedSteps]
  refine ⟨hsource ▸ hfollows, ⟨hmatches.1, ?_, ?_, hmatches.2.2.2⟩, ?_⟩
  · simp [edgeMatches, hedge]
  · have hdst := hmatches.2.2.1
    unfold dstMatches at hdst ⊢
    rw [hbound]
    exact hdst
  · unfold stepDst at hmem ⊢
    rw [hbound]
    exact hmem

end Suffice

/-! ### One execution -/

section Execution

variable {input : List PropertyValue × List DataChunk}

/-- A filter keeps everything exactly when everything meets it. -/
theorem perm_filter_iff {α : Type} (p : α → Bool) (xs : List α) : xs.Perm (xs.filter p) ↔ ∀ x ∈ xs, p x = true := by
  constructor
  · intro hperm x hx
    exact (mem_filter.mp (hperm.mem_iff.mp hx)).2
  · intro hall
    exact List.Perm.of_eq (filter_eq_self.mpr hall).symm

/-- A scan of all edges is not filtered. -/
theorem fullScan_keeps_iff (h : store.Holds g) (hplan : op.Planned g input.2)
    (hfull : op.full_edge_scan = true) (cache : NeighborCache) :
    op.KeepsAllowed store input (op.executeChunk store.toExpandReads cache input.2).1 ↔
      ∀ e ∈ g.edges, e.label_id ∈ op.full_scan_labels → e.dst ∈ op.allowed_dst_vids store input.1 ∧
          (op.direction = .BOTH → e.src ∈ op.allowed_dst_vids store input.1) := by
  have hscan := hplan.full hfull
  have hrows := fullScan_rows h.scans hplan.labels hscan
  rw [KeepsAllowed, ordinaryRows, executeChunk, if_pos hfull, executeChunk, if_pos hfull, perm_filter_iff]
  have hdst (k : EdgeKey) : op.rowDst (edgeRow k) = k.dst_id := by
    rw [rowDst, if_neg (by simp [hscan.dst_bound])]
    rfl
  have hall : (∀ row ∈ streamRows (Dataset.ExpandPhysicalOp.scanLabels (op.direction = .BOTH)
        store.scanEdgesByType Dataset.ExpandPhysicalOp.NO_LIMIT op.full_scan_labels),
        (op.allowed_dst_vids store input.1).contains (op.rowDst row) = true) ↔
      ∀ e ∈ g.edges, e.label_id ∈ op.full_scan_labels → ∀ row ∈ ExpandPhysicalOp.edgeRows (op.direction = .BOTH) e,
          op.rowDst row ∈ op.allowed_dst_vids store input.1 := by
    simp only [hrows.mem_iff, mem_flatMap, mem_filter, contains_eq_mem, decide_eq_true_eq]
    constructor
    · intro hrow e he hlabel row hmem
      exact hrow row ⟨e, ⟨he, hlabel⟩, hmem⟩
    · rintro hedge row ⟨e, ⟨he, hlabel⟩, hmem⟩
      exact hedge e he hlabel row hmem
  refine hall.trans (forall₂_congr fun e _ => imp_congr_right fun _ => ?_)
  unfold ExpandPhysicalOp.edgeRows
  rw [forall_mem_cons, hdst]
  refine and_congr_right fun hto => ?_
  by_cases hboth : op.direction = .BOTH
  · by_cases hloop : e.src = e.dst
    · -- a loop has no second row
      simp [hboth, hloop, hto]
    · simp [hboth, hloop, hdst]
  · simp [hboth]

/-- An empty list is no filter. -/
theorem emptyList_keeps_iff (h : store.Holds g) (hends : g.ValidEnds) (hplan : op.Planned g input.2)
    (hfull : op.full_edge_scan = false) (hempty : input.1 = []) {cache : NeighborCache}
    (hcache : op.CacheOk store.toExpandReads g cache) :
    op.KeepsAllowed store input (op.executeChunk store.toExpandReads cache input.2).1 ↔
      ∀ chunk ∈ slicedChild (expandInputRows op.env_input_rows) input.2, ∀ i < chunk.count,
        op.takenSteps store.toExpandReads g chunk i = [] := by
  have hnone : op.ordinaryRows store input.1 input.2 = [] := by
    rw [ordinaryRows, hempty]
    simp [allowed_dst_vids]
  have hrows := (executeChunks_rows h.scans hends hplan.labels hfull
    (slicedChild (expandInputRows op.env_input_rows) input.2) hcache).2
  rw [KeepsAllowed, hnone, executeChunk, if_neg (by simp [hfull]), perm_nil]
  have hempty : ∀ {xs ys : List Row}, xs.Perm ys → (xs = [] ↔ ys = []) := by
    intro xs ys hperm
    rw [← length_eq_zero_iff, ← length_eq_zero_iff, hperm.length_eq]
  rw [hempty hrows]
  simp only [chunkRows, flatMap_eq_nil_iff, mem_range, map_eq_nil_iff]

lemma probes_keep (h : store.Holds g) (hends : g.ValidEnds) (hplan : op.Planned g input.2)
    (hfull : op.full_edge_scan = false) {out : List DataChunk}
    (hout : out = op.allowedChunks store (op.allowed_dst_vids store input.1)
      (slicedChild (expandInputRows op.env_input_rows) input.2)) :
    ((∀ chunk ∈ slicedChild (expandInputRows op.env_input_rows) input.2, ∀ i < chunk.count,
      (op.emittedSteps store (op.allowed_dst_vids store input.1) chunk i).Perm
        (op.allowedSteps store g (op.allowed_dst_vids store input.1) chunk i)) → op.KeepsAllowed store input out) ∧
      (op.edge_bound = false → op.KeepsAllowed store input out →
        ∀ chunk ∈ slicedChild (expandInputRows op.env_input_rows) input.2, ∀ i < chunk.count,
          (op.emittedSteps store (op.allowed_dst_vids store input.1) chunk i).Perm
            (op.allowedSteps store g (op.allowed_dst_vids store input.1) chunk i)) := by
  have hrows : streamRows (op.allowedChunks store (op.allowed_dst_vids store input.1)
      (slicedChild (expandInputRows op.env_input_rows) input.2)) = _ :=
    allowedChunks_rows h hfull (slicedChild (expandInputRows op.env_input_rows) input.2)
  have hordinary := ordinaryRows_perm h hends hplan hfull
  rw [← hout] at hrows
  unfold KeepsAllowed
  rw [hrows]
  constructor
  · intro hall
    refine List.Perm.trans (List.Perm.flatMap_left _ fun p hp => ?_) hordinary.symm
    obtain ⟨hchunk, hi⟩ := mem_batchRows.mp hp
    exact (hall p.1 hchunk p.2 hi).map _
  · intro hedge hkeeps chunk hchunk i hi
    refine (Joins.map_flatMap_perm_iff (f := op.stepRow)
      (E := fun p => op.emittedSteps store (op.allowed_dst_vids store input.1) p.1 p.2)
      (R := fun p => op.allowedSteps store g (op.allowed_dst_vids store input.1) p.1 p.2)
      (fun _ _ => nodup_emittedSteps) ?_).mp (hkeeps.trans hordinary) (chunk, i)
        (mem_batchRows.mpr ⟨hchunk, hi⟩)
    intro p _ t ht q _ u hu hrow
    exact stepRow_injective hedge hplan.edge_var ((mem_emittedSteps h hends).mp ht).1.1.1 hu hrow

lemma executeFiltered_keeps (h : store.Holds g) (hends : g.ValidEnds)
    (hplan : op.Planned g input.2) {cache : NeighborCache}
    (hcache : op.CacheOk store.toExpandReads g cache) :
    op.CacheOk store.toExpandReads g (op.executeFiltered store cache (some input.1) input.2).2 ∧
      (op.ProbesSuffice store g input →
        op.KeepsAllowed store input (op.executeFiltered store cache (some input.1) input.2).1) ∧
      (op.edge_bound = false → op.KeepsAllowed store input
        (op.executeFiltered store cache (some input.1) input.2).1 →
          op.ProbesSuffice store g input) := by
  unfold executeFiltered
  cases hfull : op.full_edge_scan with
  | true =>
    rw [if_neg (by simp)]
    have hiff := fullScan_keeps_iff h hplan hfull cache
    refine ⟨(cachedChunk_exact_iff h.scans hends hplan.toWellPlanned hcache).1,
      fun hsuffice => hiff.mpr (hsuffice.scanned hfull), fun _ hkeeps => ?_⟩
    exact
      { scanned := fun _ => hiff.mp hkeeps
        listed := fun hnot => by simp [hfull] at hnot
        followed := fun hnot => by simp [hfull] at hnot
        met := fun hnot => by simp [hfull] at hnot }
  | false =>
    by_cases hempty : input.1 = []
    · have hoff : op.allowed_filter (some input.1) = false := by
        simp [allowed_filter, hempty]
      rw [if_neg (by simp [hoff])]
      have hiff := emptyList_keeps_iff h hends hplan hfull hempty hcache
      refine ⟨(cachedChunk_exact_iff h.scans hends hplan.toWellPlanned hcache).1,
        fun hsuffice => hiff.mpr (hsuffice.listed hfull hempty), fun _ hkeeps => ?_⟩
      exact
        { scanned := fun hscan => by simp [hfull] at hscan
          listed := fun _ _ => hiff.mp hkeeps
          followed := fun _ hlisted => absurd hempty hlisted
          met := fun _ hlisted => absurd hempty hlisted }
    · have hon : op.allowed_filter (some input.1) = true := by
        simp [allowed_filter, hplan.index, hplan.edge_label, hempty]
      rw [if_pos (by simp [hon])]
      obtain ⟨hall, hback⟩ := probes_keep h hends hplan hfull
        (rfl : op.allowedChunks store (op.allowed_dst_vids store input.1)
          (slicedChild (expandInputRows op.env_input_rows) input.2) = _)
      refine ⟨hcache, fun hsuffice => hall fun chunk hchunk i hi => ?_, fun hedge hkeeps => ?_⟩
      · exact emitted_perm h hends (hsuffice.followed hfull hempty chunk hchunk i hi)
          (hsuffice.met hfull hempty chunk hchunk i hi)
      · have hsteps := hback hedge hkeeps
        exact
          { scanned := fun hscan => by simp [hfull] at hscan
            listed := fun _ hnot => absurd hnot hempty
            followed := fun _ _ chunk hchunk i hi =>
              (followed_met_of_perm h hends hedge (hsteps chunk hchunk i hi)).1
            met := fun _ _ chunk hchunk i hi =>
              (followed_met_of_perm h hends hedge (hsteps chunk hchunk i hi)).2 }

end Execution

/-! ### All executions -/

lemma executions_keep_of_cache (h : store.Holds g) (hends : g.ValidEnds)
    (inputs : List (List PropertyValue × List DataChunk))
    (hplan : ∀ input ∈ inputs, op.Planned g input.2) {cache : NeighborCache}
    (hcache : op.CacheOk store.toExpandReads g cache) :
    ((∀ input ∈ inputs, op.ProbesSuffice store g input) →
        Forall₂ (op.KeepsAllowed store) inputs (op.executions store cache inputs)) ∧
      (op.edge_bound = false → Forall₂ (op.KeepsAllowed store) inputs (op.executions store cache inputs) →
          ∀ input ∈ inputs, op.ProbesSuffice store g input) := by
  induction inputs generalizing cache with
  | nil => simp [executions]
  | cons input rest ih =>
    obtain ⟨hcache', hkeeps, hback⟩ := executeFiltered_keeps h hends (hplan input mem_cons_self) hcache
    obtain ⟨hrest, hrestBack⟩ := ih (fun later hlater => hplan later (mem_cons_of_mem _ hlater)) hcache'
    simp only [executions, forall₂_cons, forall_mem_cons]
    exact ⟨fun hall => ⟨hkeeps hall.1, hrest hall.2⟩, fun hedge hall => ⟨hback hedge hall.1, hrestBack hedge hall.2⟩⟩

/-- In any number of executions, each with a list of its own, the expand to allowed
destinations emits the rows of the ordinary expand with an allowed destination where the
probes suffice, and, if the edge is a new column, nowhere else. -/
theorem executions_keep_allowed {op : FilteredExpand} {store : AllowedReads} {g : Graph}
    (h : store.Holds g) (hends : g.ValidEnds) {inputs : List (List PropertyValue × List DataChunk)}
    (hplan : ∀ input ∈ inputs, op.Planned g input.2) :
    ((∀ input ∈ inputs, op.ProbesSuffice store g input) →
        Forall₂ (op.KeepsAllowed store) inputs (op.executions store .empty inputs)) ∧
      (op.edge_bound = false → Forall₂ (op.KeepsAllowed store) inputs (op.executions store .empty inputs) →
          ∀ input ∈ inputs, op.ProbesSuffice store g input) :=
  executions_keep_of_cache h hends inputs hplan (cacheOk_empty)

/-! ### Two parallel edges -/

/-- The reads of a graph in whose index vertex 2 has the value 5. -/
def allowedReads (g : Graph) : AllowedReads :=
  { expandReads g with
    scanVerticesByIndexId := fun _ values => if values = [.int64 5] then [2] else []
    scanEdgesBetween := fun label src dst =>
      let entries := (g.edges.filter fun e => e.label_id = label ∧ e.src = src ∧ e.dst = dst).map
        fun e => ⟨e.src, e.dst, e.seq, e.id⟩
      if entries = [] then [] else [entries] }

lemma allowedReads_holds (g : Graph) : (allowedReads g).Holds g where
  scans :=
    { scan := (expandReads_holds g).scan
      batch := (expandReads_holds g).batch
      batch_sources := (expandReads_holds g).batch_sources
      labels := (expandReads_holds g).labels
      exact := (expandReads_holds g).exact
      by_type := (expandReads_holds g).by_type
      by_label := (expandReads_holds g).by_label }
  between label src dst := by
    simp only [allowedReads]
    split
    next hnone => rw [hnone, flatten_nil]
    next => rw [flatten_singleton]
  batches label src dst := by
    simp only [allowedReads]
    split
    next => exact not_mem_nil
    next hsome => exact fun hmem => hsome (mem_singleton.mp hmem).symm

/-- `(a)-[e:T]->(b)` with the allowed values of `b` in an index. -/
def filteredExpand : FilteredExpand where
  label_filters := some [7]
  direction := .OUT
  src_col_idx := some 0
  dst_var := "b"
  edge_var := "e"
  dst_label_ids := []
  dst_bound := false
  edge_bound := false
  dst_col_idx := 0
  edge_col_idx := 0
  full_scan_labels := []
  full_edge_scan := false
  neighbor_cache_enabled := false
  env_input_rows := none
  env_edges_per_source := none
  allowed_dst_index_id := 3
  allowed_edge_label := 7

lemma filteredExpand_planned (g : Graph) (child : List DataChunk) : filteredExpand.Planned g child where
  labels labels hlabels := by
    obtain rfl := some.inj hlabels
    decide
  full hfull := by cases hfull
  edge_var := by decide
  dst_var := by decide
  dst_col hbound := by cases hbound
  index := by decide
  edge_label := by decide

/-- One row with vertex 1. -/
def sourceRow : DataChunk where
  columns := [vectorColumn .VERTEX_REF [(1 : UInt64)]]
  count := 1

/-- The one edge from vertex 1 to vertex 2 is found by a probe, so the probes suffice. -/
theorem oneEdge_probesSuffice :
    filteredExpand.ProbesSuffice (allowedReads oneEdge) oneEdge
      ([.int64 5], [sourceRow]) := by
  have hplan : ∀ input ∈ [(([.int64 5], [sourceRow]) : List PropertyValue × List DataChunk)],
      filteredExpand.Planned oneEdge input.2 :=
    fun input _ => filteredExpand_planned oneEdge input.2
  refine (executions_keep_allowed (allowedReads_holds oneEdge) oneEdge_validEnds hplan).2 rfl ?_ _ mem_cons_self
  exact .cons (List.Perm.of_eq rfl) .nil

/-- Two edges from vertex 1 to vertex 2. -/
def twoEdges : Graph where
  edges := [⟨1, 1, 2, 7, 0⟩, ⟨2, 1, 2, 7, 1⟩]
  distinct := by decide

/-- Both are followed by the ordinary expand, one by the probe. -/
theorem parallelEdge_missed :
    ¬ Forall₂ (filteredExpand.KeepsAllowed (allowedReads twoEdges)) [([.int64 5], [sourceRow])]
        (filteredExpand.executions (allowedReads twoEdges) .empty [([.int64 5], [sourceRow])]) := by
  intro hkeeps
  have hrows : filteredExpand.KeepsAllowed (allowedReads twoEdges) ([.int64 5], [sourceRow])
      (filteredExpand.executeFiltered (allowedReads twoEdges) .empty (some [.int64 5]) [sourceRow]).1 :=
    (forall₂_cons.mp hkeeps).1
  have hemitted : (streamRows (filteredExpand.executeFiltered (allowedReads twoEdges) .empty
    (some [.int64 5]) [sourceRow]).1).length = 1 := rfl
  have hordinary : (filteredExpand.ordinaryRows (allowedReads twoEdges) [.int64 5] [sourceRow]).length = 2 := rfl
  have hlength := hrows.length_eq
  rw [hemitted, hordinary] at hlength
  omega

end Expand.FilteredExpand

end Eugraph.Dataset
