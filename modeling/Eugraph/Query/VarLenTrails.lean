import Eugraph.Query.VarLenExpand

/-!
# Variable-length expand enumerates trails

The search emits one row for each walk that uses no edge twice and meets the filters; with
no upper bound it does not continue behind a vertex that is already on the path.  The
caches answer like the store, the stack stands for the walk so far, and the visited set for
its edges.
-/

namespace Eugraph.Dataset

open Lib DataStore List DirectedEdgeEntry Traversal Lib.Trails Function ColumnBuffer

/-! ### Graphs -/

/-- A graph as the scans see it. -/
structure Graph where
  edges : List StoredEdge
  distinct : (edges.map (·.id)).Nodup

namespace Graph

variable (g : Graph)

/-- The adjacency entries of one side. -/
def entries (vid : VertexId) (direction : Direction) (label_filter : Option EdgeLabelId) :
    List EdgeIndexEntry :=
  (g.edges.filter fun e =>
    (if direction = .OUT then e.src else e.dst) = vid && passesFilter label_filter e.label_id).map
    fun e => ⟨if direction = .OUT then e.dst else e.src, e.label_id, e.seq, e.id⟩

/-- The edge leads from `v` to the vertex in the direction. -/
def Follows (direction : Direction) (v : VertexId) (t : Traversal) : Prop :=
  t.edge ∈ g.edges ∧
    (direction ≠ .IN ∧ t.edge.src = v ∧ t.vertex = t.edge.dst ∨
      direction ≠ .OUT ∧ t.edge.dst = v ∧ t.vertex = t.edge.src)

lemma edges_nodup : g.edges.Nodup := List.Nodup.of_map _ g.distinct

end Graph

/-- The store holds the graph: the scans of one vertex list its edges, and a batch scan
lists for each of its vertices what the scan of that vertex does. -/
structure GraphReads.Holds (store : GraphReads) (g : Graph) : Prop where
  scan : ∀ v direction label_filter, direction ≠ .BOTH →
    (store.scanEdges v direction label_filter).Perm (g.entries v direction label_filter)
  batch : ∀ vids direction label_filter, direction ≠ .BOTH → vids.Nodup → ∀ v ∈ vids,
    ((store.scanEdgesBatch vids direction label_filter).filter (·.1 = v)).map Prod.snd =
      store.scanEdges v direction label_filter
  batch_sources : ∀ vids direction label_filter,
    ∀ be ∈ store.scanEdgesBatch vids direction label_filter, be.1 ∈ vids
  labels : ∀ vids, store.getVertexLabelsBatch vids = vids.map store.getVertexLabels

namespace VarLenExpandPhysicalOp

variable (op : VarLenExpandPhysicalOp)

/-! ### What the operator should emit -/

def labelPasses (label_id : EdgeLabelId) : Bool := op.label_filters.all (·.contains label_id)

/-- The kinds of the columns the operator appends. -/
def appendedTypes : List BoundTypeKind :=
  (if op.dst_bound then [] else [.VERTEX_REF]) ++ (if op.path_var = "" then [] else [.PATH]) ++
    (if op.edge_var ≠ "" ∧ ¬ op.edge_list_bound then [.LIST] else [])

/-- What the planner promises: the output types are those of the input columns and of the
appended ones, no edge label is asked for twice, and the lower bound is not negative. -/
structure WellPlanned (left : List DataChunk) : Prop where
  types : ∀ chunk ∈ left, op.output_types.drop chunk.columns.length = op.appendedTypes
  labels : ∀ labels ∈ op.label_filters, labels.Nodup
  min_hops : 0 ≤ op.min_hops

variable (store : GraphReads) (g : Graph)

/-- A walk from the source row that uses no edge twice, within the bounds, with all edges
and the last vertex as the filters ask. -/
structure IsTrail (r : SourceRow) (walk : List Traversal) : Prop where
  follows : IsWalk (g.Follows op.direction) vertex r.src_id walk
  distinct : (walk.map (·.edge.id)).Nodup
  passes : ∀ t ∈ walk, op.labelPasses t.edge.label_id = true ∧
    op.edgePasses store t.edge.label_id t.edge.id = true ∧
    (r.prev_edge_id ≠ INVALID_EDGE_ID → t.edge.id ≠ r.prev_edge_id)
  least : op.min_hops ≤ walk.length
  most : op.max_hops < 0 ∨ (walk.length : Int) ≤ op.max_hops
  index : op.srcMatches store r.src_id = true ∨
    op.dstMatches store (lastVertex vertex r.src_id walk) = true
  labels : op.labelsAllowed
    (store.getVertexLabels (lastVertex vertex r.src_id walk)) = true
  bound : op.boundMatches r walk (lastVertex vertex r.src_id walk) = true

/-- Without an upper bound all vertices but the last are different. -/
def LeavesOnce (r : SourceRow) (walk : List Traversal) : Prop :=
  op.max_hops < 0 → (r.src_id :: walk.dropLast.map vertex).Nodup

/-- The walks input row `i` is expanded along. -/
def Accepts (chunk : DataChunk) (i : Nat) (walk : List Traversal) : Prop :=
  op.dst_label_missing = false ∧
    ∃ r, op.sourceRow chunk i = some r ∧ op.IsTrail store g r walk ∧ op.LeavesOnce r walk

/-- An input column in the output: columns without storage are allocated. -/
def carriedValue (i : Nat) : Column → Value
  | .unallocated type => Payload.toValue type (Payload.initial type)
  | col => col.getValue i

def entryRow (chunk : DataChunk) (e : OutputEntry) : Row :=
  chunk.columns.map (carriedValue e.src_row) ++
    ((if op.dst_bound then [] else [.vertexRef e.dst_id]) ++
      (if op.path_var = "" then [] else [.path e.path]) ++
      (if op.edge_var ≠ "" ∧ ¬ op.edge_list_bound then [.list e.edge_list] else []))

/-- The row for a walk. -/
def walkRow (chunk : DataChunk) (r : SourceRow) (walk : List Traversal) : Row :=
  op.entryRow chunk
    (op.outputEntry store r walk (lastVertex vertex r.src_id walk))

/-! ### Output chunks -/

section Output

lemma Writable.foldl_setValue {kind : BoundTypeKind} {n : Nat} (values : List Value)
    (hfits : ∀ v ∈ values, Fits kind v) {k : Nat} {col : Column} (h : Writable kind n col)
    (hroom : k + values.length ≤ n) :
    Writable kind n ((values.zipIdx k).foldl (fun col p => col.setValue p.2 p.1) col) ∧
      ∀ j, ((values.zipIdx k).foldl (fun col p => col.setValue p.2 p.1) col).getValue j =
        if k ≤ j then (values[j - k]?).getD (col.getValue j) else col.getValue j := by
  induction values generalizing k col with
  | nil => exact ⟨h, fun j => by simp⟩
  | cons v rest ih =>
    simp only [length_cons] at hroom
    obtain ⟨hwritable, hread⟩ := h.setValue (by omega : k < n) (hfits v mem_cons_self)
    obtain ⟨hwritable', hread'⟩ := ih (fun v hv => hfits v (mem_cons_of_mem _ hv)) hwritable
      (by omega : k + 1 + rest.length ≤ n)
    rw [zipIdx_cons, foldl_cons]
    refine ⟨hwritable', fun j => ?_⟩
    rw [hread' j, hread j]
    rcases Nat.lt_trichotomy j k with hlt | rfl | hgt
    · have hk : ¬ k + 1 ≤ j := by omega
      have hk' : ¬ k ≤ j := by omega
      have hne : j ≠ k := by omega
      simp [hk, hk', hne]
    · simp
    · have hk : k + 1 ≤ j := by omega
      have hk' : k ≤ j := by omega
      have hne : j ≠ k := by omega
      obtain ⟨d, rfl⟩ := Nat.exists_eq_add_of_lt hgt
      have hsub : k + d + 1 - k = d + 1 := by omega
      have hsub' : k + d + 1 - (k + 1) = d := by omega
      simp [hk, hk', hne, hsub, hsub']

lemma getValue_fillColumn {kind : BoundTypeKind} {values : List Value}
    (hfits : ∀ v ∈ values, Fits kind v) {j : Nat} (hj : j < values.length) :
    (fillColumn kind values).getValue j = values[j] := by
  obtain ⟨-, hread⟩ := Writable.foldl_setValue (k := 0) values hfits (writable_ofType kind values.length) (by omega)
  unfold fillColumn
  rw [hread j]
  simp [hj]

lemma getValue_ofType (kind : BoundTypeKind) {n j : Nat} (hj : j < n) :
    (Column.ofType kind n).getValue j = Payload.toValue kind (Payload.initial kind) := by
  have hgrows : ¬ n ≤ (⟨kind, [], []⟩ : ColumnBuffer).capacity := by
    simp [capacity]
    omega
  have hbits : j < 8 * ((n + 7) / 8) := by omega
  rw [Column.ofType, reserve, if_neg hgrows]
  simp [Column.getValue, getValue, ColumnBuffer.isNull, capacity, resizeValidity, hj, hbits]

lemma getValue_carryColumn (entries : List OutputEntry) (col : Column) {j : Nat} (hj : j < entries.length) :
    (carryColumn entries col).getValue j = carriedValue entries[j].src_row col := by
  have hlt : j < (entries.map (·.src_row)).length := by simpa using hj
  have hrow : (entries.map (·.src_row))[j] = entries[j].src_row := getElem_map ..
  cases col with
  | unallocated type => exact getValue_ofType type hj
  | flat buffer => exact (Column.getValue_gather (.flat buffer) hlt).trans (by rw [hrow]; rfl)
  | constant value => rfl
  | dict buffer sel => exact (Column.getValue_gather (.dict buffer sel) hlt).trans (by rw [hrow]; rfl)

/-- Columns filled value by value. -/
theorem getValue_fillColumns {n j : Nat} (hj : j < n) {kinds : List BoundTypeKind} {columns : List (List Value)}
    (h : Forall₂ (fun kind values => values.length = n ∧ ∀ v ∈ values, Fits kind v) kinds columns) :
    (fillColumns n kinds columns).map (·.getValue j) = columns.map fun values => (values[j]?).getD .null := by
  induction h with
  | nil => rfl
  | cons hcol _ ih =>
    obtain ⟨hlength, hfits⟩ := hcol
    subst hlength
    rw [fillColumns, map_cons, ih, getValue_fillColumn hfits hj]
    simp [hj]

/-- The appended columns have the declared kinds. -/
theorem appendedValues_fit (entries : List OutputEntry) :
    Forall₂ (fun kind values => values.length = entries.length ∧ ∀ v ∈ values, Fits kind v)
      op.appendedTypes (op.appendedValues entries) := by
  have hcolumn (kind : BoundTypeKind) (f : OutputEntry → Value) (h : ∀ e, Fits kind (f e)) :
      (entries.map f).length = entries.length ∧ ∀ v ∈ entries.map f, Fits kind v := by
    refine ⟨by simp, fun v hv => ?_⟩
    obtain ⟨e, -, rfl⟩ := mem_map.mp hv
    exact h e
  have hdst := hcolumn .VERTEX_REF (fun e => .vertexRef e.dst_id) fun e => .inr ⟨e.dst_id, rfl, rfl⟩
  have hpath := hcolumn .PATH (fun e => .path e.path) fun e => .inr ⟨some e.path, rfl, rfl⟩
  have hlist := hcolumn .LIST (fun e => .list e.edge_list) fun e =>
    .inr ⟨some e.edge_list, rfl, rfl⟩
  refine rel_append (rel_append ?_ ?_) ?_
  · split
    · exact .nil
    · exact .cons hdst .nil
  · split
    · exact .nil
    · exact .cons hpath .nil
  · split
    · exact .cons hlist .nil
    · exact .nil

/-- A chunk is built with one row for each entry. -/
theorem rows_buildChunk {chunk : DataChunk} (htypes : op.output_types.drop chunk.columns.length = op.appendedTypes)
    (entries : List OutputEntry) :
    (op.buildChunk chunk entries).rows = entries.map (op.entryRow chunk) := by
  apply ext_getElem
  · simp [DataChunk.rows, buildChunk]
  · intro j hj hj'
    have hlt : j < entries.length := by simpa using hj'
    simp only [DataChunk.rows, buildChunk, getElem_map, getElem_range, DataChunk.row, map_append, map_map, htypes]
    rw [getValue_fillColumns hlt (op.appendedValues_fit entries), entryRow]
    congr 1
    · exact map_congr_left fun col _ => getValue_carryColumn entries col hlt
    · unfold appendedValues
      simp only [map_append]
      congr 1
      · congr 1
        · split <;> simp [hlt]
        · split <;> simp [hlt]
      · split <;> simp [hlt]

end Output

/-! ### The caches answer like the store -/

section Caches

/-- What is cached is what the store would be asked for. -/
structure CachesOk (caches : Caches) : Prop where
  adjacency : ∀ v edges, caches.adjacency v = some edges → edges = op.adjacency store v
  dst_label : ∀ v ok, caches.dst_label v = some ok → ok = op.labelsAllowed (store.getVertexLabels v)

variable {op store g}

lemma cached_of_update {β : Type} {cache : VertexId → Option β} {v v' : VertexId} {x y : β}
    (h : update cache v (some x) v' = some y) : v' = v ∧ y = x ∨ cache v' = some y := by
  by_cases hv : v' = v
  · subst hv
    rw [update_self] at h
    exact .inl ⟨rfl, (Option.some.inj h).symm⟩
  · rw [update_of_ne hv] at h
    exact .inr h

lemma cachesOk_empty : op.CachesOk store .empty := ⟨fun _ _ h => (by cases h), fun _ _ h => (by cases h)⟩

lemma hasDstLabels_spec {caches : Caches} (h : op.CachesOk store caches) (v : VertexId) :
    (op.hasDstLabels store caches v).1 = op.labelsAllowed (store.getVertexLabels v) ∧
      op.CachesOk store (op.hasDstLabels store caches v).2 := by
  unfold hasDstLabels
  split
  next hnone => exact ⟨by simp [labelsAllowed, hnone], h⟩
  next =>
    split
    next ok hcached => exact ⟨h.dst_label v ok hcached, h⟩
    next =>
      refine ⟨rfl, h.adjacency, fun v' ok hcached => ?_⟩
      rcases cached_of_update hcached with ⟨rfl, rfl⟩ | hbefore
      · rfl
      · exact h.dst_label v' ok hbefore

/-- The invariant of the label cache alone. -/
abbrev LabelsCached (op : VarLenExpandPhysicalOp) (store : GraphReads)
    (cache : VertexId → Option Bool) : Prop :=
  ∀ v ok, cache v = some ok → ok = op.labelsAllowed (store.getVertexLabels v)

lemma cacheLabels_ok (hlabels : ∀ vids, store.getVertexLabelsBatch vids = vids.map store.getVertexLabels)
    {cache : VertexId → Option Bool} (h : LabelsCached op store cache) (missing : List VertexId) :
    LabelsCached op store (op.cacheLabels store cache missing) := by
  unfold cacheLabels
  rw [hlabels]
  induction missing generalizing cache with
  | nil => exact h
  | cons v rest ih =>
    rw [map_cons, zip_cons_cons, foldl_cons]
    apply ih
    split
    next => exact h
    next =>
      intro v' ok hcached
      rcases cached_of_update hcached with ⟨rfl, rfl⟩ | hbefore
      · rfl
      · exact h v' ok hbefore

lemma preloadDstLabels_ok (hlabels : ∀ vids, store.getVertexLabelsBatch vids = vids.map store.getVertexLabels)
    {caches : Caches} (h : op.CachesOk store caches) (vids : List VertexId) :
    op.CachesOk store (op.preloadDstLabels store caches vids) := by
  have hfold (st : List VertexId × List VertexId × (VertexId → Option Bool)) (hst : LabelsCached op store st.2.2) :
      LabelsCached op store (vids.foldl (op.preloadStep store) st).2.2 := by
    induction vids generalizing st with
    | nil => exact hst
    | cons v rest ih =>
      rw [foldl_cons]
      apply ih
      obtain ⟨missing, seen, cache⟩ := st
      unfold preloadStep
      simp only
      generalize (if (cache v).isNone && !seen.contains v then missing ++ [v] else missing) = missing'
      split
      · exact cacheLabels_ok hlabels hst missing'
      · exact hst
  unfold preloadDstLabels
  split
  next => exact h
  next =>
    refine ⟨h.adjacency, ?_⟩
    have hcache := hfold ([], [], caches.dst_label) h.dst_label
    simp only
    split
    · exact hcache
    · exact cacheLabels_ok hlabels hcache _

lemma scanAll_spec (hlabels : ∀ vids, store.getVertexLabelsBatch vids = vids.map store.getVertexLabels)
    {caches : Caches} (h : op.CachesOk store caches) (v : VertexId) :
    (op.scanAll store caches v).1 = op.adjacency store v ∧ op.CachesOk store (op.scanAll store caches v).2 := by
  unfold scanAll
  split
  next edges hcached => exact ⟨h.adjacency v edges hcached, h⟩
  next =>
    have hpreload := preloadDstLabels_ok hlabels h ((op.adjacency store v).map (·.neighbor_id))
    refine ⟨rfl, fun v' edges hcached => ?_, hpreload.dst_label⟩
    rcases cached_of_update hcached with ⟨rfl, rfl⟩ | hbefore
    · rfl
    · exact hpreload.adjacency v' edges hbefore

/-- The vertices of the frontier that are not cached, each once, now with an empty list. -/
theorem missingNeighbors_spec (adjacency : VertexId → Option (List DirectedEdgeEntry))
    (edges : List DirectedEdgeEntry) :
    (missingNeighbors adjacency edges).1.Nodup ∧
      (∀ v ∈ (missingNeighbors adjacency edges).1, (missingNeighbors adjacency edges).2 v = some []) ∧
      ∀ v ∉ (missingNeighbors adjacency edges).1, (missingNeighbors adjacency edges).2 v = adjacency v := by
  unfold missingNeighbors
  generalize hstart : (([] : List VertexId), adjacency) = st
  have hinv : st.1.Nodup ∧ (∀ v ∈ st.1, st.2 v = some []) ∧ ∀ v ∉ st.1, st.2 v = adjacency v := by
    subst hstart
    exact ⟨nodup_nil, fun v hv => absurd hv not_mem_nil, fun _ _ => rfl⟩
  clear hstart
  induction edges generalizing st with
  | nil => exact hinv
  | cons edge rest ih =>
    rw [foldl_cons]
    apply ih
    obtain ⟨missing, cache⟩ := st
    obtain ⟨hnodup, hempty, hsame⟩ := hinv
    simp only
    split
    next hfresh =>
      have hnew : edge.neighbor_id ∉ missing := by
        simp only [Bool.and_eq_true, Bool.not_eq_true', contains_eq_mem, decide_eq_false_iff_not] at hfresh
        exact hfresh.2
      refine ⟨?_, fun v hv => ?_, fun v hv => ?_⟩
      · rw [nodup_append]
        refine ⟨hnodup, nodup_singleton _, fun a ha b hb hab => ?_⟩
        rw [mem_singleton.mp hb] at hab
        exact hnew (hab ▸ ha)
      · show update cache edge.neighbor_id (some []) v = some []
        by_cases hne : v = edge.neighbor_id
        · rw [hne, update_self]
        · rw [update_of_ne hne]
          exact hempty v ((mem_append.mp hv).resolve_right fun h =>
            hne (mem_singleton.mp h))
      · have hne : v ≠ edge.neighbor_id := fun h =>
          hv (mem_append_right _ (mem_singleton.mpr h))
        show update cache edge.neighbor_id (some []) v = adjacency v
        rw [update_of_ne hne]
        exact hsame v fun h => hv (mem_append_left _ h)
    next => exact ⟨hnodup, hempty, hsame⟩

/-- Appending the rows of a batch adds to each cached list its own rows. -/
theorem foldl_appendEntry (phy_out : Bool) (rows : List (VertexId × EdgeIndexEntry))
    (cache : VertexId → Option (List DirectedEdgeEntry)) (v : VertexId) :
    (rows.foldl (appendEntry phy_out) cache) v =
      (cache v).map (· ++ ((rows.filter (·.1 = v)).map Prod.snd).map (.ofEntry phy_out)) := by
  induction rows generalizing cache with
  | nil => simp
  | cons be rest ih =>
    rw [foldl_cons, ih]
    unfold appendEntry
    by_cases hv : be.1 = v
    · subst hv
      cases hcached : cache be.1 with
      | none => simp [hcached]
      | some edges => simp
    · have hne : v ≠ be.1 := fun h => hv h.symm
      cases hcached : cache be.1 with
      | none => simp [hv]
      | some edges => simp [hv, hne]

/-- A batch scan into the cache gives each missing vertex its own scan, and changes no
other list. -/
theorem scanIntoCache_spec (h : store.Holds g) {missing : List VertexId} (hnodup : missing.Nodup)
    {scan_dir : Direction} (hdir : scan_dir ≠ .BOTH)
    (cache : VertexId → Option (List DirectedEdgeEntry)) (v : VertexId) :
    op.scanIntoCache store missing cache scan_dir v =
      (cache v).map (· ++ if v ∈ missing then op.scanDirected store v scan_dir else []) := by
  unfold scanIntoCache scanDirected
  induction op.scanFilters generalizing cache with
  | nil => simp
  | cons label_filter rest ih =>
    have hrows : ((store.scanEdgesBatch missing scan_dir label_filter).filter (·.1 = v)).map
        Prod.snd = if v ∈ missing then store.scanEdges v scan_dir label_filter else [] := by
      split
      next hmem => exact h.batch missing scan_dir label_filter hdir hnodup v hmem
      next hmem =>
        rw [map_eq_nil_iff, filter_eq_nil_iff]
        intro be hbe heq
        exact hmem (of_decide_eq_true heq ▸ h.batch_sources missing scan_dir label_filter be hbe)
    rw [foldl_cons, ih, foldl_appendEntry, hrows, Option.map_map]
    congr 1
    funext edges
    simp only [comp_def, append_assoc, flatMap_cons]
    split <;> simp

lemma preloadAdjacency_ok (h : store.Holds g) {caches : Caches} (hok : op.CachesOk store caches)
    (edges : List DirectedEdgeEntry) : op.CachesOk store (op.preloadAdjacency store caches edges) := by
  obtain ⟨hnodup, hempty, hsame⟩ := missingNeighbors_spec caches.adjacency edges
  unfold preloadAdjacency
  generalize missingNeighbors caches.adjacency edges = found at hnodup hempty hsame
  obtain ⟨missing, cache⟩ := found
  simp only at hnodup hempty hsame ⊢
  split
  next hnone =>
    refine ⟨fun v es hcached => ?_, hok.dst_label⟩
    simp only [hnone, not_mem_nil, not_false_eq_true, forall_const] at hsame
    exact hok.adjacency v es (hsame v ▸ hcached)
  next =>
    apply preloadDstLabels_ok h.labels
    refine ⟨fun v es hcached => ?_, hok.dst_label⟩
    simp only at hcached
    by_cases hv : v ∈ missing
    · -- a missing vertex started from the empty list
      unfold adjacency
      split at hcached
      next hboth =>
        rw [scanIntoCache_spec h hnodup (by decide), scanIntoCache_spec h hnodup (by decide),
          hempty v hv] at hcached
        rw [if_pos hboth]
        simpa [hv] using hcached.symm
      next hone =>
        rw [scanIntoCache_spec h hnodup hone, hempty v hv] at hcached
        rw [if_neg hone]
        simpa [hv] using hcached.symm
    · have hbefore : cache v = some es := by
        split at hcached
        next =>
          rw [scanIntoCache_spec h hnodup (by decide), scanIntoCache_spec h hnodup (by decide)]
            at hcached
          simpa [hv] using hcached
        next hone =>
          rw [scanIntoCache_spec h hnodup hone] at hcached
          simpa [hv] using hcached
      exact hok.adjacency v es (hsame v hv ▸ hbefore)

end Caches

/-! ### Adjacency lists are the edges of the graph -/

section Adjacency

variable {op store g}

/-- The steps one side of the adjacency of `v` allows. -/
def sideSteps (g : Graph) (v : VertexId) (scan_dir : Direction) (label_filter : Option EdgeLabelId) :
    List Traversal :=
  (g.edges.filter fun e =>
    (if scan_dir = .OUT then e.src else e.dst) = v && passesFilter label_filter e.label_id).map
    fun e => ⟨e, if scan_dir = .OUT then e.dst else e.src⟩

lemma scan_traversals (h : store.Holds g) (v : VertexId) {scan_dir : Direction}
    (hdir : scan_dir ≠ .BOTH) (label_filter : Option EdgeLabelId) :
    (((store.scanEdges v scan_dir label_filter).map (.ofEntry (scan_dir = .OUT))).map
      (traversal · v)).Perm (sideSteps g v scan_dir label_filter) := by
  have hperm := ((h.scan v scan_dir label_filter hdir).map (ofEntry (scan_dir = .OUT))).map (traversal · v)
  refine hperm.trans (List.Perm.of_eq ?_)
  unfold Graph.entries sideSteps
  rw [map_map, map_map]
  apply map_congr_left
  intro e he
  have hside : (if scan_dir = .OUT then e.src else e.dst) = v := by
    have hfilter := (mem_filter.mp he).2
    simp only [Bool.and_eq_true, decide_eq_true_eq] at hfilter
    exact hfilter.1
  obtain ⟨id, src, dst, label_id, seq⟩ := e
  simp only at hside
  by_cases hout : scan_dir = .OUT
  · simp only [hout, if_true] at hside
    simp [ofEntry, traversal, physical, hout, hside]
  · simp only [hout, if_false] at hside
    simp [ofEntry, traversal, physical, hout, hside]

lemma scanDirected_traversals (op : VarLenExpandPhysicalOp) (h : store.Holds g) (v : VertexId)
    {scan_dir : Direction} (hdir : scan_dir ≠ .BOTH) :
    ((op.scanDirected store v scan_dir).map (traversal · v)).Perm
      (op.scanFilters.flatMap (sideSteps g v scan_dir)) := by
  unfold scanDirected
  rw [map_flatMap]
  exact List.Perm.flatMap_left _ fun label_filter _ => scan_traversals h v hdir label_filter

lemma exists_filter_iff (label_id : EdgeLabelId) :
    (∃ f ∈ op.scanFilters, passesFilter f label_id = true) ↔ op.labelPasses label_id = true := by
  unfold scanFilters labelPasses passesFilter
  cases op.label_filters with
  | none => simp
  | some labels => simp

lemma mem_sides_iff (v : VertexId) (scan_dir : Direction) (t : Traversal) :
    t ∈ op.scanFilters.flatMap (sideSteps g v scan_dir) ↔ t.edge ∈ g.edges ∧ op.labelPasses t.edge.label_id = true ∧
        (if scan_dir = .OUT then t.edge.src else t.edge.dst) = v ∧
        t.vertex = if scan_dir = .OUT then t.edge.dst else t.edge.src := by
  rw [mem_flatMap, ← exists_filter_iff]
  constructor
  · intro hmem
    obtain ⟨f, hf, hstep⟩ := hmem
    obtain ⟨e, he, rfl⟩ := mem_map.mp hstep
    obtain ⟨hedge, hfilter⟩ := mem_filter.mp he
    simp only [Bool.and_eq_true, decide_eq_true_eq] at hfilter
    exact ⟨hedge, ⟨f, hf, hfilter.2⟩, hfilter.1, rfl⟩
  · intro hmem
    obtain ⟨hedge, ⟨f, hf, hpasses⟩, hside, hvertex⟩ := hmem
    refine ⟨f, hf, mem_map.mpr ⟨t.edge, mem_filter.mpr ⟨hedge, ?_⟩, ?_⟩⟩
    · simp [hside, hpasses]
    · rw [← hvertex]

/-- The scans of different labels list different steps. -/
theorem nodup_sides_of {label_filters : Option (List EdgeLabelId)}
    (hlabels : ∀ labels ∈ label_filters, labels.Nodup) (v : VertexId) (scan_dir : Direction) :
    ((match label_filters with
      | none => [none]
      | some labels => labels.map some).flatMap (sideSteps g v scan_dir)).Nodup := by
  have hside (f : Option EdgeLabelId) : (sideSteps g v scan_dir f).Nodup := by
    apply List.Nodup.map _ (g.edges_nodup.filter _)
    intro a b hab
    exact congrArg edge hab
  rw [nodup_flatMap]
  refine ⟨fun f _ => hside f, ?_⟩
  cases label_filters with
  | none => simp
  | some labels =>
    rw [pairwise_map]
    refine (hlabels labels rfl).imp fun {a b} hne => ?_
    intro t ha hb
    have hlabel {l : EdgeLabelId} (hmem : t ∈ sideSteps g v scan_dir (some l)) : t.edge.label_id = l := by
      obtain ⟨e, he, rfl⟩ := mem_map.mp hmem
      have hfilter := (mem_filter.mp he).2
      simp only [Bool.and_eq_true, passesFilter, Option.all_some, decide_eq_true_eq] at hfilter
      exact hfilter.2
    exact hne ((hlabel ha).symm.trans (hlabel hb))

lemma nodup_sides (hlabels : ∀ labels ∈ op.label_filters, labels.Nodup) (v : VertexId)
    (scan_dir : Direction) : (op.scanFilters.flatMap (sideSteps g v scan_dir)).Nodup :=
  nodup_sides_of hlabels v scan_dir

/-- The steps the search sees at `v`. -/
def adjacentSteps (op : VarLenExpandPhysicalOp) (store : GraphReads) (v : VertexId) : List Traversal :=
  (op.adjacency store v).map (traversal · v)

lemma mem_adjacentSteps_iff (h : store.Holds g) (v : VertexId) (t : Traversal) : t ∈ op.adjacentSteps store v ↔
      g.Follows op.direction v t ∧ op.labelPasses t.edge.label_id = true := by
  unfold adjacentSteps adjacency Graph.Follows
  cases hdir : op.direction with
  | BOTH =>
    rw [if_pos rfl, map_append, mem_append, (scanDirected_traversals op h v (by decide)).mem_iff,
      (scanDirected_traversals op h v (by decide)).mem_iff, mem_sides_iff, mem_sides_iff]
    simp
    tauto
  | OUT =>
    rw [if_neg (by decide), (scanDirected_traversals op h v (by decide)).mem_iff, mem_sides_iff]
    simp
    tauto
  | IN =>
    rw [if_neg (by decide), (scanDirected_traversals op h v (by decide)).mem_iff, mem_sides_iff]
    simp
    tauto

/-- No step is listed twice: an undirected search must not meet a loop, which is listed on
both sides. -/
theorem nodup_adjacentSteps (h : store.Holds g) (hlabels : ∀ labels ∈ op.label_filters, labels.Nodup)
    (hloops : op.direction = .BOTH → ∀ e ∈ g.edges, op.labelPasses e.label_id = true → e.src ≠ e.dst)
    (v : VertexId) : (op.adjacentSteps store v).Nodup := by
  unfold adjacentSteps adjacency
  split
  next hboth =>
    have hout := scanDirected_traversals op h v (by decide : Direction.OUT ≠ .BOTH)
    have hin := scanDirected_traversals op h v (by decide : Direction.IN ≠ .BOTH)
    rw [map_append, nodup_append]
    refine ⟨hout.nodup_iff.mpr (nodup_sides hlabels v .OUT), hin.nodup_iff.mpr (nodup_sides hlabels v .IN), ?_⟩
    intro a ha b hb hab
    subst hab
    rw [hout.mem_iff, mem_sides_iff] at ha
    rw [hin.mem_iff, mem_sides_iff] at hb
    obtain ⟨hedge, hpasses, hsrc, -⟩ := ha
    exact hloops hboth a.edge hedge hpasses (hsrc.trans hb.2.2.1.symm)
  next hone => exact (scanDirected_traversals op h v hone).nodup_iff.mpr (nodup_sides hlabels v _)

end Adjacency

/-! ### One emission -/

section Emission

/-- The rows handed on so far and the rows still buffered. -/
def ExpandState.rows (op : VarLenExpandPhysicalOp) (chunk : DataChunk) (st : ExpandState) : List Row :=
  streamRows st.yielded ++ st.buffer.map (op.entryRow chunk)

/-- The filters on a whole walk. -/
def emits (r : SourceRow) (walk : List Traversal) : Bool :=
  let dst_id := lastVertex vertex r.src_id walk
  (op.min_hops ≤ walk.length) && (op.srcMatches store r.src_id || op.dstMatches store dst_id) &&
    op.labelsAllowed (store.getVertexLabels dst_id) && op.boundMatches r walk dst_id

variable {op store g}

lemma tryEmit_spec {chunk : DataChunk}
    (htypes : op.output_types.drop chunk.columns.length = op.appendedTypes) {r : SourceRow}
    {stack : List StackFrame} {depth : Nat} (hdepth : (stackSteps stack).length = depth)
    (vertex : VertexId) (edge : DirectedEdgeEntry) {st : ExpandState}
    (hok : op.CachesOk store st.caches) :
    op.CachesOk store (op.tryEmit store chunk r stack depth vertex edge st).caches ∧
      ExpandState.rows op chunk (op.tryEmit store chunk r stack depth vertex edge st) =
        ExpandState.rows op chunk st ++
          if op.emits store r (stackSteps stack ++ [edge.traversal vertex]) then
            [op.walkRow store chunk r (stackSteps stack ++ [edge.traversal vertex])]
          else [] := by
  have hlast : lastVertex Traversal.vertex r.src_id
      (stackSteps stack ++ [edge.traversal vertex]) = edge.neighbor_id :=
    lastVertex_append ..
  have hlength : (stackSteps stack ++ [edge.traversal vertex]).length = depth + 1 := by
    rw [length_append, hdepth]
    rfl
  obtain ⟨hlabel, hcaches⟩ := hasDstLabels_spec hok edge.neighbor_id
  unfold tryEmit emits walkRow
  simp only [hlast, hlength]
  split
  next hreached =>
    simp only [hreached.1, decide_true, hreached.2, Bool.true_and, hlabel]
    cases hallowed : op.labelsAllowed (store.getVertexLabels edge.neighbor_id) with
    | false => exact ⟨by simpa using hcaches, by simp [ExpandState.rows]⟩
    | true =>
      simp only [if_true, Bool.true_and]
      cases hbound : op.boundMatches r (stackSteps stack ++ [edge.traversal vertex])
          edge.neighbor_id with
      | false =>
        simp only [Bool.false_eq_true, if_false, append_nil]
        split
        · exact ⟨hcaches, by simp [ExpandState.rows, streamRows, op.rows_buildChunk htypes]⟩
        · exact ⟨hcaches, rfl⟩
      | true =>
        simp only [if_true]
        split
        · exact ⟨hcaches, by simp [ExpandState.rows, streamRows, op.rows_buildChunk htypes]⟩
        · exact ⟨hcaches, by simp [ExpandState.rows]⟩
  next hnot =>
    refine ⟨hok, ?_⟩
    rw [not_and_or] at hnot
    rcases hnot with hshort | hmatch
    · have hshort' : decide (op.min_hops ≤ ((depth + 1 : Nat) : Int)) = false := decide_eq_false hshort
      simp only [hshort', Bool.false_and, Bool.false_eq_true, if_false, append_nil]
    · have hmatch' : (op.srcMatches store r.src_id || op.dstMatches store edge.neighbor_id) = false :=
        Bool.eq_false_iff.mpr hmatch
      simp [hmatch']

end Emission

/-! ### The stack stands for the walk so far -/

section Search

/-- A stack for a walk from `src`: a frame for each vertex, entered by the edge before it. -/
inductive OnStack (src : VertexId) : List Traversal → List StackFrame → Prop
  | root (edges : List DirectedEdgeEntry) : OnStack src [] [⟨src, 0, edges, none⟩]
  | push {path : List Traversal} {stack : List StackFrame} (t : Traversal)
      (edges : List DirectedEdgeEntry) : OnStack src path stack →
      OnStack src (path ++ [t]) (⟨t.vertex, path.length + 1, edges, some t.edge⟩ :: stack)

variable {op store g}

lemma OnStack.steps_eq {src : VertexId} {path : List Traversal} {stack : List StackFrame}
    (h : OnStack src path stack) : stackSteps stack = path := by
  induction h with
  | root edges => rfl
  | push t edges _ ih =>
    simp only [stackSteps, reverse_cons, filterMap_append] at ih ⊢
    rw [ih]
    rfl

lemma OnStack.depth_eq {src : VertexId} {path : List Traversal} {frame : StackFrame}
    {below : List StackFrame} (h : OnStack src path (frame :: below)) : frame.depth = path.length := by
  cases h with
  | root edges => rfl
  | push t edges _ => simp

lemma OnStack.any_vertex {src : VertexId} {path : List Traversal} {stack : List StackFrame}
    (h : OnStack src path stack) (v : VertexId) :
    stack.any (·.vertex = v) = true ↔ v ∈ src :: path.map vertex := by
  induction h with
  | root edges => simp [eq_comm]
  | push t edges _ ih =>
    rw [any_cons, Bool.or_eq_true, ih]
    simp only [map_append, mem_cons, mem_append, map_singleton, not_mem_nil, or_false, decide_eq_true_eq]
    constructor
    · rintro (rfl | hv | hv)
      · exact .inr (.inr rfl)
      · exact .inl hv
      · exact .inr (.inl hv)
    · rintro (hv | hv | hv)
      · exact .inr (.inl hv)
      · exact .inr (.inr hv)
      · exact .inl hv.symm

lemma OnStack.withEdges {src : VertexId} {path : List Traversal} {frame : StackFrame}
    {below : List StackFrame} (h : OnStack src path (frame :: below))
    (edges : List DirectedEdgeEntry) : OnStack src path ({ frame with edges := edges } :: below) := by
  cases h with
  | root _ => exact .root edges
  | push t _ hbelow => exact .push t edges hbelow

/-- The edges a walk must not use: those on it and the edge before the pattern. -/
def Visited (r : SourceRow) (path : List Traversal) (id : EdgeId) : Prop :=
  r.prev_edge_id ≠ INVALID_EDGE_ID ∧ id = r.prev_edge_id ∨ id ∈ path.map (·.edge.id)

/-- The step may be taken behind the path. -/
def admissible (op : VarLenExpandPhysicalOp) (store : GraphReads) (r : SourceRow)
    (path : List Traversal) (t : Traversal) : Bool :=
  !(decide (r.prev_edge_id ≠ INVALID_EDGE_ID ∧ t.edge.id = r.prev_edge_id) ||
      (path.map (·.edge.id)).contains t.edge.id) &&
    op.edgePasses store t.edge.label_id t.edge.id

/-- The search continues behind the step. -/
def deeper (op : VarLenExpandPhysicalOp) (r : SourceRow) (path : List Traversal) (t : Traversal) :
    Bool :=
  if op.max_hops < 0 then !(r.src_id :: path.map vertex).contains t.vertex
  else (path.length + 1 : Nat) < op.max_hops

/-- The walks a search meets behind a path. -/
abbrev exploreFrom (op : VarLenExpandPhysicalOp) (store : GraphReads) (r : SourceRow) (n : Nat) :
    List Traversal → VertexId → List (List Traversal) :=
  explore (op.adjacentSteps store) vertex (op.admissible store r) (op.deeper r) n

abbrev branchFrom (op : VarLenExpandPhysicalOp) (store : GraphReads) (r : SourceRow) (n : Nat) :
    List Traversal → Traversal → List (List Traversal) :=
  branch (op.adjacentSteps store) vertex (op.admissible store r) (op.deeper r) n

/-- The rows of the walks that are emitted. -/
def emittedRows (op : VarLenExpandPhysicalOp) (store : GraphReads) (chunk : DataChunk) (r : SourceRow)
    (walks : List (List Traversal)) : List Row :=
  (walks.filter (op.emits store r)).map (op.walkRow store chunk r)

lemma emittedRows_append (chunk : DataChunk) (r : SourceRow) (ws ws' : List (List Traversal)) :
    op.emittedRows store chunk r (ws ++ ws') =
      op.emittedRows store chunk r ws ++ op.emittedRows store chunk r ws' := by
  simp [emittedRows]

/-- Rounds of the loop. -/
abbrev Rounds (op : VarLenExpandPhysicalOp) (store : GraphReads) (chunk : DataChunk) (r : SourceRow) :
    SearchState → SearchState → Prop :=
  Relation.ReflTransGen fun s s' => op.searchStep store chunk r s = s'

/-- A search with pending edges at the end of a walk. -/
structure Pending (op : VarLenExpandPhysicalOp) (store : GraphReads) (g : Graph) (r : SourceRow)
    (path : List Traversal) (s : SearchState) : Prop where
  stack : OnStack r.src_id path s.stack
  visited : ∀ id, id ∈ s.visited_edges ↔ Visited r path id
  caches : op.CachesOk store s.expand.caches
  distinct : (path.map (·.edge.id)).Nodup
  known : ∀ t ∈ path, t.edge ∈ g.edges

variable {chunk : DataChunk} {r : SourceRow} {path : List Traversal} {s : SearchState}
  {frame : StackFrame} {below : List StackFrame}

lemma contains_visited (h : Pending op store g r path s) (edge : DirectedEdgeEntry) (v : VertexId) :
    s.visited_edges.contains edge.edge_id =
      (decide (r.prev_edge_id ≠ INVALID_EDGE_ID ∧ (edge.traversal v).edge.id = r.prev_edge_id) ||
        (path.map (·.edge.id)).contains (edge.traversal v).edge.id) := by
  rw [Bool.eq_iff_iff, contains_iff_mem, h.visited]
  simp only [Visited, Bool.or_eq_true, decide_eq_true_eq, contains_iff_mem]
  rfl

/-- A round on an edge that may not be taken drops it. -/
theorem searchStep_skip (h : Pending op store g r path s) (hstack : s.stack = frame :: below)
    {edge : DirectedEdgeEntry} {edges : List DirectedEdgeEntry} (hedges : frame.edges = edge :: edges)
    (hskip : op.admissible store r path (edge.traversal frame.vertex) = false) :
    op.searchStep store chunk r s = { s with stack := { frame with edges := edges } :: below } := by
  unfold searchStep
  rw [hstack]
  simp only [hedges]
  unfold admissible at hskip
  rw [← contains_visited h] at hskip
  split
  next => rfl
  next hfresh =>
    rw [Bool.not_eq_true] at hfresh
    rw [hfresh, Bool.not_false, Bool.true_and] at hskip
    have hfails : op.edgePasses store edge.edge_label_id edge.edge_id = false := hskip
    rw [hfails]
    rfl

/-- A round on an edge that may be taken emits the walk; then the search goes on behind it
or not. -/
theorem searchStep_take (h : Pending op store g r path s) (hstack : s.stack = frame :: below)
    {edge : DirectedEdgeEntry} {edges : List DirectedEdgeEntry} (hedges : frame.edges = edge :: edges)
    (htake : op.admissible store r path (edge.traversal frame.vertex) = true) :
    op.searchStep store chunk r s = (let stack := { frame with edges := edges } :: below
       let expand := op.tryEmit store chunk r stack path.length frame.vertex edge s.expand
       if op.deeper r path (edge.traversal frame.vertex) then
         let next := op.scanAll store expand.caches edge.neighbor_id
         { stack := ⟨edge.neighbor_id, path.length + 1, next.1, some (edge.physical frame.vertex)⟩ :: stack
           visited_edges := edge.edge_id :: s.visited_edges
           expand := { expand with
             caches :=
               if op.max_hops < 0 ∨ ((path.length + 1 : Nat) + 1 : Int) < op.max_hops then
                 op.preloadAdjacency store next.2 next.1
               else next.2 } }
       else { s with stack := stack, expand := expand }) := by
  have hdepth : frame.depth = path.length := (hstack ▸ h.stack).depth_eq
  have hany := ((hstack ▸ h.stack).withEdges edges).any_vertex edge.neighbor_id
  obtain ⟨v, depth, pending, incoming⟩ := frame
  obtain rfl : depth = path.length := hdepth
  obtain rfl : pending = edge :: edges := hedges
  unfold admissible at htake
  rw [← contains_visited h, Bool.and_eq_true, Bool.not_eq_true'] at htake
  obtain ⟨hfresh, hpasses⟩ := htake
  have hpasses' : op.edgePasses store edge.edge_label_id edge.edge_id = true := hpasses
  unfold searchStep
  rw [hstack]
  simp only [hfresh, hpasses', Bool.false_eq_true, if_false, Bool.not_true]
  unfold deeper
  by_cases hunbounded : op.max_hops < 0
  · simp only [hunbounded, true_or, if_true, true_and]
    by_cases hon : edge.neighbor_id ∈ r.src_id :: path.map vertex
    · have hstop : (!(r.src_id :: path.map vertex).contains (edge.traversal v).vertex) = false := by
        rw [Bool.not_eq_false', contains_iff_mem]
        exact hon
      rw [if_pos (hany.mpr hon), hstop]
      rfl
    · have hgo : (!(r.src_id :: path.map vertex).contains (edge.traversal v).vertex) = true := by
        rw [Bool.not_eq_true', ← Bool.not_eq_true, contains_iff_mem]
        exact hon
      rw [if_neg (fun hc => hon (hany.mp hc)), hgo]
      rfl
  · simp only [hunbounded, false_or, if_false, false_and, decide_eq_true_eq]

/-- The walks that pending steps at the end of a walk lead to, by at most `n` more steps. -/
def pendingWalks (op : VarLenExpandPhysicalOp) (store : GraphReads) (r : SourceRow) (n : Nat)
    (path : List Traversal) (steps : List Traversal) : List (List Traversal) :=
  match n with
  | 0 => []
  | n + 1 => steps.flatMap (op.branchFrom store r n path)

lemma pendingWalks_adjacent (n : Nat) (v : VertexId) :
    op.pendingWalks store r n path (op.adjacentSteps store v) = op.exploreFrom store r n path v := by
  cases n <;> rfl

/-- Once every edge of the graph is on the walk, no step may be taken. -/
theorem not_admissible_of_full (h : Pending op store g r path s) (hfull : g.edges.length ≤ path.length)
    {t : Traversal} (ht : t.edge ∈ g.edges) : op.admissible store r path t = false := by
  have hnodup : (path.map edge).Nodup :=
    List.Nodup.of_map StoredEdge.id (by simpa [comp_def] using h.distinct)
  have hsub : path.map edge ⊆ g.edges := by
    intro e he
    obtain ⟨t', ht', rfl⟩ := mem_map.mp he
    exact h.known t' ht'
  have hperm := (hnodup.subperm hsub).perm_of_length_le (by simpa using hfull)
  have hon : t.edge.id ∈ path.map (·.edge.id) := by
    obtain ⟨t', ht', heq⟩ := mem_map.mp (hperm.mem_iff.mpr ht)
    exact mem_map.mpr ⟨t', ht', congrArg StoredEdge.id heq⟩
  unfold admissible
  rw [contains_iff_mem.mpr hon]
  simp

/-- The round that leaves a vertex no edge of which is pending. -/
theorem searchStep_pop (chunk : DataChunk) {t : Traversal} (h : Pending op store g r (path ++ [t]) s)
    (hstack : s.stack = ⟨t.vertex, path.length + 1, [], some t.edge⟩ :: below)
    (hbelow : OnStack r.src_id path below) (hnew : ¬ Visited r path t.edge.id) :
    (op.searchStep store chunk r s).stack = below ∧ Pending op store g r path (op.searchStep store chunk r s) ∧
      (op.searchStep store chunk r s).expand = s.expand := by
  have hstep : op.searchStep store chunk r s =
      { s with visited_edges := s.visited_edges.filter (· ≠ t.edge.id), stack := below } := by
    unfold searchStep
    rw [hstack]
    rfl
  have hdistinct := h.distinct
  rw [map_append, nodup_append] at hdistinct
  rw [hstep]
  refine ⟨rfl, ⟨hbelow, fun id => ?_, h.caches, hdistinct.1, ?_⟩, rfl⟩
  · have hvisited := h.visited id
    simp only [Visited, map_append, mem_append, map_singleton, mem_singleton] at hvisited
    simp only [mem_filter, hvisited, decide_eq_true_eq]
    constructor
    · intro hid
      obtain ⟨hid, hne⟩ := hid
      rcases hid with hprev | hon | heq
      · exact .inl hprev
      · exact .inr hon
      · exact absurd heq hne
    · intro hid
      exact ⟨hid.imp (fun hprev => hprev) .inl, fun heq => hnew (heq ▸ hid)⟩
  · exact fun t' ht' => h.known t' (mem_append_left _ ht')

/-- The emission of a round keeps the caches and adds the row of the walk. -/
theorem take_emits (htypes : op.output_types.drop chunk.columns.length = op.appendedTypes)
    (h : Pending op store g r path s) (hstack : s.stack = frame :: below) (edge : DirectedEdgeEntry)
    (edges : List DirectedEdgeEntry) :
    let expand := op.tryEmit store chunk r ({ frame with edges := edges } :: below) path.length
      frame.vertex edge s.expand
    op.CachesOk store expand.caches ∧ ExpandState.rows op chunk expand = ExpandState.rows op chunk s.expand ++
        op.emittedRows store chunk r [path ++ [edge.traversal frame.vertex]] := by
  have hsteps := ((hstack ▸ h.stack).withEdges edges).steps_eq
  obtain ⟨hcaches, hrows⟩ := tryEmit_spec htypes (congrArg length hsteps) frame.vertex edge h.caches
  refine ⟨hcaches, ?_⟩
  rw [hrows, hsteps]
  congr 1
  unfold emittedRows
  split
  next hemits => simp [hemits]
  next hnot => simp [hnot]

lemma admissible_eq_true {t : Traversal} : op.admissible store r path t = true ↔
      t.edge.id ∉ path.map (·.edge.id) ∧ op.edgePasses store t.edge.label_id t.edge.id = true ∧
        (r.prev_edge_id ≠ INVALID_EDGE_ID → t.edge.id ≠ r.prev_edge_id) := by
  unfold admissible
  rw [Bool.and_eq_true, Bool.not_eq_true', Bool.or_eq_false_iff, decide_eq_false_iff_not,
    contains_eq_mem, decide_eq_false_iff_not]
  tauto

/-- What may be taken is not on the walk. -/
theorem not_visited_of_admissible {t : Traversal} (hadm : op.admissible store r path t = true) :
    ¬ Visited r path t.edge.id := by
  obtain ⟨hpath, -, hprev⟩ := admissible_eq_true.mp hadm
  intro hvisited
  rcases hvisited with h | h
  · exact hprev h.1 h.2
  · exact hpath h

/-- The search goes on behind a step that was taken. -/
theorem pending_push {edge : DirectedEdgeEntry} {v : VertexId} {depth : Nat}
    {edges : List DirectedEdgeEntry} {incoming : Option StoredEdge} (next : List DirectedEdgeEntry)
    (expand : ExpandState) (h : Pending op store g r path s)
    (honto : OnStack r.src_id path (⟨v, depth, edges, incoming⟩ :: below))
    (hadm : op.admissible store r path (edge.traversal v) = true)
    (hknown : (edge.traversal v).edge ∈ g.edges) (hcaches : op.CachesOk store expand.caches) :
    Pending op store g r (path ++ [edge.traversal v])
      { stack := ⟨edge.neighbor_id, path.length + 1, next, some (edge.physical v)⟩ ::
          ⟨v, depth, edges, incoming⟩ :: below
        visited_edges := edge.edge_id :: s.visited_edges
        expand := expand } where
  stack := .push (edge.traversal v) next honto
  visited := by
    intro id
    have hvisited := h.visited id
    have hid : (edge.traversal v).edge.id = edge.edge_id := rfl
    simp only [Visited, mem_cons, map_append, mem_append, map_singleton, not_mem_nil, or_false, hid] at hvisited ⊢
    rw [hvisited]
    tauto
  caches := hcaches
  distinct := by
    rw [map_append, nodup_append]
    refine ⟨h.distinct, nodup_singleton _, fun a ha b hb hab => ?_⟩
    obtain rfl : a = (edge.traversal v).edge.id := hab.trans (mem_singleton.mp hb)
    exact not_visited_of_admissible hadm (.inr ha)
  known := by
    intro t ht
    rcases mem_append.mp ht with ht | ht
    · exact h.known t ht
    · rw [mem_singleton.mp ht]
      exact hknown

lemma Pending.dropEdge (h : Pending op store g r path s) (hstack : s.stack = frame :: below)
    (rest : List DirectedEdgeEntry) :
    Pending op store g r path { s with stack := { frame with edges := rest } :: below } :=
  ⟨(hstack ▸ h.stack).withEdges rest, h.visited, h.caches, h.distinct, h.known⟩

/-- From pending edges at the end of a walk, the rounds of the loop come to the frame
without pending edges, and have emitted the walks these lead to.  The number of edges
bounds the walks, so the loop comes there. -/
theorem rounds_pending (hreads : store.Holds g)
    (htypes : op.output_types.drop chunk.columns.length = op.appendedTypes) (n : Nat) :
    ∀ (path : List Traversal) (s : SearchState) (frame : StackFrame) (below : List StackFrame),
      s.stack = frame :: below → Pending op store g r path s → g.edges.length ≤ n + path.length →
      (∀ edge ∈ frame.edges, (edge.traversal frame.vertex).edge ∈ g.edges) →
      ∃ s', op.Rounds store chunk r s s' ∧ s'.stack = { frame with edges := [] } :: below ∧
        Pending op store g r path s' ∧
        ExpandState.rows op chunk s'.expand = ExpandState.rows op chunk s.expand ++
          op.emittedRows store chunk r (op.pendingWalks store r n path
            (frame.edges.map (traversal · frame.vertex))) := by
  induction n with
  | zero =>
    intro path s frame below hstack hpending hfull hknown
    obtain ⟨v, depth, edges, incoming⟩ := frame
    induction edges generalizing s with
    | nil => exact ⟨s, .refl, hstack, hpending, by simp [pendingWalks, emittedRows]⟩
    | cons edge rest ih =>
      have hskip := not_admissible_of_full hpending (by omega) (hknown edge mem_cons_self)
      have hstep : op.searchStep store chunk r s = _ := searchStep_skip hpending hstack rfl hskip
      obtain ⟨s', hrounds, hrest⟩ := ih _ (hpending.dropEdge hstack rest) rfl fun e he =>
        hknown e (mem_cons_of_mem _ he)
      exact ⟨s', .head hstep hrounds, hrest⟩
  | succ n ihn =>
    intro path s frame below hstack hpending hfull hknown
    obtain ⟨v, depth, edges, incoming⟩ := frame
    induction edges generalizing s with
    | nil => exact ⟨s, .refl, hstack, hpending, by simp [pendingWalks, emittedRows]⟩
    | cons edge rest ih =>
      have hthis := hknown edge mem_cons_self
      have hothers := fun e he => hknown e (mem_cons_of_mem edge he)
      have honto : OnStack r.src_id path (⟨v, depth, rest, incoming⟩ :: below) :=
        (hstack ▸ hpending.stack).withEdges rest
      cases hadm : op.admissible store r path (edge.traversal v) with
      | false =>
        have hstep : op.searchStep store chunk r s = _ := searchStep_skip hpending hstack rfl hadm
        obtain ⟨s', hrounds, hs', hpending', hrows⟩ := ih _ (hpending.dropEdge hstack rest) rfl hothers
        refine ⟨s', .head hstep hrounds, hs', hpending', ?_⟩
        rw [hrows]
        simp [pendingWalks, branchFrom, branch, hadm]
      | true =>
        have hstep : op.searchStep store chunk r s = _ := searchStep_take hpending hstack rfl hadm
        obtain ⟨hcaches, hemitted⟩ := take_emits htypes hpending hstack edge rest
        simp only at hstep hcaches hemitted
        generalize op.tryEmit store chunk r (⟨v, depth, rest, incoming⟩ :: below) path.length v
          edge s.expand = expand at hstep hcaches hemitted
        cases hdeeper : op.deeper r path (edge.traversal v) with
        | false =>
          simp only [hdeeper, Bool.false_eq_true, if_false] at hstep
          have hnext : Pending op store g r path
              { s with stack := ⟨v, depth, rest, incoming⟩ :: below, expand := expand } :=
            ⟨honto, hpending.visited, hcaches, hpending.distinct, hpending.known⟩
          obtain ⟨s', hrounds, hs', hpending', hrows⟩ := ih _ hnext rfl hothers
          refine ⟨s', .head hstep hrounds, hs', hpending', ?_⟩
          rw [hrows, hemitted, append_assoc, ← emittedRows_append]
          simp [pendingWalks, branchFrom, branch, hadm, hdeeper]
        | true =>
          simp only [hdeeper, if_true] at hstep
          -- down: the new frame has the adjacency list of the neighbor pending
          obtain ⟨hlist, hscanned⟩ := scanAll_spec hreads.labels hcaches edge.neighbor_id
          generalize op.scanAll store expand.caches edge.neighbor_id = scanned
            at hstep hlist hscanned
          have hwarmed : op.CachesOk store
              (if op.max_hops < 0 ∨ ((path.length + 1 : Nat) + 1 : Int) < op.max_hops then
                op.preloadAdjacency store scanned.2 scanned.1 else scanned.2) := by
            split
            · exact preloadAdjacency_ok hreads hscanned _
            · exact hscanned
          have hdown := pending_push scanned.1 { expand with caches := _ } hpending honto hadm hthis hwarmed
          have hknown' : ∀ e ∈ scanned.1, (e.traversal edge.neighbor_id).edge ∈ g.edges := by
            intro e he
            rw [hlist] at he
            exact ((mem_adjacentSteps_iff hreads _ _).mp (mem_map.mpr ⟨e, he, rfl⟩)).1.1
          obtain ⟨s₁, hrounds₁, hs₁, hpending₁, hrows₁⟩ := ihn _ _ _ _ rfl hdown
            (by rw [length_append, length_singleton]; omega) hknown'
          -- up: the frame is left, and the edges behind it are next
          obtain ⟨hs₂, hpending₂, hexpand₂⟩ := searchStep_pop chunk hpending₁ hs₁ honto
            (not_visited_of_admissible hadm)
          obtain ⟨s', hrounds, hs', hpending', hrows⟩ := ih _ hpending₂ hs₂ hothers
          refine ⟨s', .head hstep (hrounds₁.trans (.head rfl hrounds)), hs', hpending', ?_⟩
          have hadjacent : scanned.1.map (traversal · edge.neighbor_id) =
              op.adjacentSteps store edge.neighbor_id := by rw [hlist]; rfl
          rw [hrows, hexpand₂, hrows₁]
          show ExpandState.rows op chunk expand ++ _ ++ _ = _
          rw [hemitted, hadjacent, pendingWalks_adjacent, append_assoc, append_assoc,
            ← emittedRows_append, ← emittedRows_append]
          congr 2
          simp [pendingWalks, branchFrom, branch, hadm, hdeeper]
          rfl

/-! ### The loop ends -/

lemma searchLoop_of_rounds {s' : SearchState} (hrounds : op.Rounds store chunk r s s') (hdone : s'.stack = []) :
    ∃ bound, ∀ fuel, bound ≤ fuel → op.searchLoop store chunk r fuel s = some s' := by
  induction hrounds using Relation.ReflTransGen.head_induction_on with
  | refl =>
    refine ⟨0, fun fuel _ => ?_⟩
    unfold searchLoop
    rw [if_pos hdone]
  | @head a b hstep _ ih =>
    obtain ⟨bound, hbound⟩ := ih
    refine ⟨bound + 1, fun fuel hfuel => ?_⟩
    obtain ⟨fuel, rfl⟩ : ∃ n, fuel = n + 1 := ⟨fuel - 1, by omega⟩
    have hnext := hbound fuel (by omega)
    unfold searchLoop
    split
    next hempty =>
      -- a round of a loop that is done changes nothing
      have hsame : b = a := by
        rw [← hstep]
        unfold searchStep
        rw [hempty]
      rw [hsame] at hnext
      unfold searchLoop at hnext
      rwa [if_pos hempty] at hnext
    next =>
      rw [hstep]
      exact hnext

/-- The walks of the source row, in the order of their rows. -/
def sourceWalks (op : VarLenExpandPhysicalOp) (store : GraphReads) (g : Graph) (r : SourceRow) :
    List (List Traversal) :=
  ([] :: if op.max_hops = 0 then [] else op.exploreFrom store r g.edges.length [] r.src_id).filter
    (op.emits store r)

def rowWalks (op : VarLenExpandPhysicalOp) (store : GraphReads) (g : Graph) (chunk : DataChunk)
    (i : Nat) : List (List Traversal) :=
  (op.sourceRow chunk i).elim [] (op.sourceWalks store g)

/-- The row for a walk of input row `i`. -/
def outputRow (op : VarLenExpandPhysicalOp) (store : GraphReads) (chunk : DataChunk) (i : Nat)
    (walk : List Traversal) : Row :=
  (op.sourceRow chunk i).elim [] fun r => op.walkRow store chunk r walk

/-- Dropping the edge before the pattern from the first list changes nothing: it may not be
taken anyway. -/
theorem pendingWalks_start (n : Nat) (v : VertexId) (edges : List DirectedEdgeEntry) :
    op.pendingWalks store r n [] (((if r.prev_edge_id ≠ INVALID_EDGE_ID then
        edges.filter fun e => e.edge_id ≠ r.prev_edge_id else edges)).map
          (traversal · v)) =
      op.pendingWalks store r n [] (edges.map (traversal · v)) := by
  split
  next hprev =>
    cases n with
    | zero => rfl
    | succ n =>
      induction edges with
      | nil => rfl
      | cons e rest ih =>
        simp only [pendingWalks] at ih ⊢
        rw [filter_cons]
        split
        next => simp only [map_cons, flatMap_cons, ih]
        next hsame =>
          have hsame' : e.edge_id = r.prev_edge_id := by simpa using hsame
          have hid : (e.traversal v).edge.id = r.prev_edge_id := hsame'
          have hadm : op.admissible store r [] (e.traversal v) = false := by
            unfold admissible
            simp [hprev, hid]
          rw [ih, map_cons, flatMap_cons]
          simp [branchFrom, branch, hadm]
  next => rfl

/-- A source row that neither end of a walk can bring through the index filters. -/
theorem not_emits_of_pruned (hsrc : op.srcMatches store r.src_id = false) (hindex : op.dst_filter_index_id ≠ 0)
    (hnone : allowed store op.dst_filter_index_id op.dst_filter_value = [])
    (walk : List Traversal) : op.emits store r walk = false := by
  unfold emits dstMatches
  simp [hsrc, hindex, hnone]

/-- The row of the empty walk. -/
theorem identity_spec (hmin : 0 ≤ op.min_hops) (chunk : DataChunk) (r : SourceRow) {caches : Caches}
    (hok : op.CachesOk store caches) (st : ExpandState) :
    let label := if op.min_hops = 0 then op.hasDstLabels store caches r.src_id else (false, caches)
    let identity := label.1 && op.boundMatches r [] r.src_id &&
      (op.srcMatches store r.src_id || op.dstMatches store r.src_id)
    op.CachesOk store label.2 ∧ ExpandState.rows op chunk
          { st with
            caches := label.2
            buffer := if identity then st.buffer ++ [op.outputEntry store r [] r.src_id]
              else st.buffer } =
        ExpandState.rows op chunk st ++ op.emittedRows store chunk r [[]] := by
  have hlabel : (if op.min_hops = 0 then op.hasDstLabels store caches r.src_id
        else (false, caches)).1 =
      (decide (op.min_hops ≤ 0) && op.labelsAllowed (store.getVertexLabels r.src_id)) ∧
      op.CachesOk store (if op.min_hops = 0 then op.hasDstLabels store caches r.src_id
        else (false, caches)).2 := by
    split
    next hzero => simpa [hzero] using hasDstLabels_spec hok r.src_id
    next hpos =>
      have hnot : ¬ op.min_hops ≤ 0 := by omega
      exact ⟨by simp [hnot], hok⟩
  have hemits : op.emits store r [] =
      (decide (op.min_hops ≤ 0) && op.labelsAllowed (store.getVertexLabels r.src_id) &&
        op.boundMatches r [] r.src_id &&
        (op.srcMatches store r.src_id || op.dstMatches store r.src_id)) := by
    unfold emits
    simp only [lastVertex, length_nil, Nat.cast_zero]
    rw [Bool.eq_iff_iff]
    simp only [Bool.and_eq_true]
    tauto
  obtain ⟨hfst, hcaches⟩ := hlabel
  refine ⟨hcaches, ?_⟩
  simp only [hfst, ← hemits]
  unfold emittedRows
  cases hidentity : op.emits store r [] with
  | true => simp [ExpandState.rows, hidentity, walkRow, lastVertex]
  | false => simp [ExpandState.rows, hidentity]

/-- One input row: with enough rounds its walks are emitted. -/
theorem expandRow_spec (hreads : store.Holds g)
    (htypes : op.output_types.drop chunk.columns.length = op.appendedTypes) (hmin : 0 ≤ op.min_hops)
    (st : ExpandState) (hok : op.CachesOk store st.caches) (i : Nat) :
    ∃ st', op.CachesOk store st'.caches ∧ ExpandState.rows op chunk st' = ExpandState.rows op chunk st ++
        (op.rowWalks store g chunk i).map (op.outputRow store chunk i) ∧
      ∃ bound, ∀ fuel, bound ≤ fuel → op.expandRow store fuel chunk st i = some st' := by
  unfold expandRow rowWalks outputRow
  cases hsource : op.sourceRow chunk i with
  | none => exact ⟨st, hok, by simp, 0, fun _ _ => rfl⟩
  | some r =>
    simp only [Option.elim_some]
    by_cases hpruned : !op.srcMatches store r.src_id ∧ op.dst_filter_index_id ≠ 0 ∧
        allowed store op.dst_filter_index_id op.dst_filter_value = []
    · refine ⟨st, hok, ?_, 0, fun _ _ => by rw [if_pos hpruned]⟩
      obtain ⟨hsrc, hindex, hnone⟩ := hpruned
      have hnever := not_emits_of_pruned (r := r) (by simpa using hsrc) hindex hnone
      simp [sourceWalks, hnever]
    · simp only [if_neg hpruned]
      obtain ⟨hlist, hscanned⟩ := scanAll_spec hreads.labels hok r.src_id
      generalize op.scanAll store st.caches r.src_id = scanned at hlist hscanned ⊢
      have hwarmed : op.CachesOk store
          (if op.max_hops < 0 ∨ 1 < op.max_hops then op.preloadAdjacency store scanned.2 scanned.1
            else scanned.2) := by
        split
        · exact preloadAdjacency_ok hreads hscanned _
        · exact hscanned
      generalize (if op.max_hops < 0 ∨ 1 < op.max_hops then
        op.preloadAdjacency store scanned.2 scanned.1 else scanned.2) = warmed at hwarmed ⊢
      obtain ⟨hlabelled, hidentity⟩ := identity_spec hmin chunk r hwarmed st
      generalize (if op.min_hops = 0 then op.hasDstLabels store warmed r.src_id
        else (false, warmed)) = label at hlabelled hidentity ⊢
      -- the steps pending at the source lead to the walks of the adjacency list
      have hstart : op.pendingWalks store r g.edges.length []
          ((if r.prev_edge_id ≠ INVALID_EDGE_ID then
            scanned.1.filter fun e => e.edge_id ≠ r.prev_edge_id else scanned.1).map
              (traversal · r.src_id)) =
          op.exploreFrom store r g.edges.length [] r.src_id := by
        rw [pendingWalks_start, hlist]
        exact pendingWalks_adjacent _ _
      have hknown : ∀ e ∈ (if r.prev_edge_id ≠ INVALID_EDGE_ID then
          scanned.1.filter fun e => e.edge_id ≠ r.prev_edge_id else scanned.1),
          (e.traversal r.src_id).edge ∈ g.edges := by
        intro e he
        have hmem : e ∈ op.adjacency store r.src_id := by
          rw [← hlist]
          split at he
          · exact (mem_filter.mp he).1
          · exact he
        exact ((mem_adjacentSteps_iff hreads _ _).mp (mem_map.mpr ⟨e, hmem, rfl⟩)).1.1
      generalize (if r.prev_edge_id ≠ INVALID_EDGE_ID then
        scanned.1.filter fun e => e.edge_id ≠ r.prev_edge_id else scanned.1) = start_edges
        at hstart hknown ⊢
      by_cases hstop : op.max_hops = 0 ∨ start_edges = []
      · refine ⟨_, hlabelled, ?_, 0, fun _ _ => by rw [if_pos hstop]⟩
        have hwalks : (if op.max_hops = 0 then []
            else op.exploreFrom store r g.edges.length [] r.src_id) = [] := by
          split
          next => rfl
          next hmax =>
            rw [← hstart, hstop.resolve_left hmax]
            cases g.edges.length <;> rfl
        rw [hidentity, sourceWalks, hwalks]
        rfl
      · simp only [if_neg hstop]
        have hmax : ¬ op.max_hops = 0 := fun h => hstop (.inl h)
        generalize hst₁ : ({ st with caches := label.2, buffer := _ } : ExpandState) = st₁
          at hidentity ⊢
        have hcaches₁ : op.CachesOk store st₁.caches := by
          rw [← hst₁]
          exact hlabelled
        have hbegin : Pending op store g r [] {
            stack := [⟨r.src_id, 0, start_edges, none⟩]
            visited_edges := if r.prev_edge_id ≠ INVALID_EDGE_ID then [r.prev_edge_id] else []
            expand := st₁ } := by
          refine ⟨.root start_edges, fun id => ?_, hcaches₁, nodup_nil, by simp⟩
          unfold Visited
          split <;> simp_all
        obtain ⟨s', hrounds, hs', hpending', hrows⟩ := rounds_pending hreads htypes g.edges.length
          [] _ _ [] rfl hbegin (by simp) hknown
        -- the last round leaves the source
        have hpop : op.searchStep store chunk r s' = { s' with stack := [] } := by
          unfold searchStep
          rw [hs']
          rfl
        obtain ⟨bound, hbound⟩ := searchLoop_of_rounds (hrounds.tail hpop) rfl
        refine ⟨s'.expand, hpending'.caches, ?_, bound, fun fuel hfuel => ?_⟩
        · rw [hrows, hidentity, hstart, append_assoc, ← emittedRows_append, sourceWalks, if_neg hmax]
          rfl
        · rw [hbound fuel hfuel]
          rfl

lemma expandRows_spec (hreads : store.Holds g)
    (htypes : op.output_types.drop chunk.columns.length = op.appendedTypes) (hmin : 0 ≤ op.min_hops)
    (rows : List Nat) (st : ExpandState) (hok : op.CachesOk store st.caches) :
    ∃ st', op.CachesOk store st'.caches ∧ ExpandState.rows op chunk st' = ExpandState.rows op chunk st ++
        (rows.flatMap fun i => (op.rowWalks store g chunk i).map (op.outputRow store chunk i)) ∧
      ∃ bound, ∀ fuel, bound ≤ fuel → op.expandRows store fuel chunk st rows = some st' := by
  induction rows generalizing st with
  | nil => exact ⟨st, hok, by simp, 0, fun _ _ => rfl⟩
  | cons i rest ih =>
    obtain ⟨st₁, hok₁, hrows₁, bound₁, hbound₁⟩ := expandRow_spec hreads htypes hmin st hok i
    obtain ⟨st', hok', hrows', bound, hbound⟩ := ih st₁ hok₁
    refine ⟨st', hok', ?_, max bound₁ bound, fun fuel hfuel => ?_⟩
    · rw [hrows', hrows₁, flatMap_cons, append_assoc]
    · rw [expandRows, hbound₁ fuel (by omega), Option.bind_some, hbound fuel (by omega)]

lemma expandChunks_spec (hreads : store.Holds g) (hmin : 0 ≤ op.min_hops) (left : List DataChunk)
    (htypes : ∀ chunk ∈ left, op.output_types.drop chunk.columns.length = op.appendedTypes)
    (caches : Caches) (hok : op.CachesOk store caches) :
    ∃ out, (∃ bound, ∀ fuel, bound ≤ fuel → op.expandChunks store fuel caches left = some out) ∧
      streamRows out = left.flatMap fun chunk => (range chunk.count).flatMap fun i =>
        (op.rowWalks store g chunk i).map (op.outputRow store chunk i) := by
  induction left generalizing caches with
  | nil => exact ⟨[], ⟨0, fun _ _ => rfl⟩, rfl⟩
  | cons chunk rest ih =>
    have htype := htypes chunk mem_cons_self
    obtain ⟨st, hok', hrows, bound₁, hbound₁⟩ := expandRows_spec hreads htype hmin
      (range chunk.count) ⟨caches, [], []⟩ hok
    obtain ⟨out, ⟨bound, hbound⟩, hout⟩ := ih (fun c hc => htypes c (mem_cons_of_mem _ hc)) st.caches hok'
    refine ⟨st.yielded ++ (if st.buffer = [] then [] else [op.buildChunk chunk st.buffer]) ++ out,
      ⟨max bound₁ bound, fun fuel hfuel => ?_⟩, ?_⟩
    · rw [expandChunks, hbound₁ fuel (by omega), Option.bind_some, hbound fuel (by omega)]
      rfl
    · have hchunk : streamRows (st.yielded ++
          if st.buffer = [] then [] else [op.buildChunk chunk st.buffer]) =
            ExpandState.rows op chunk st := by
        unfold ExpandState.rows
        split
        next hempty => simp [streamRows, hempty]
        next => simp [streamRows, op.rows_buildChunk htype]
      rw [flatMap_cons, ← hout]
      show ((st.yielded ++ _) ++ out).flatMap DataChunk.rows = _
      rw [flatMap_append]
      show streamRows (st.yielded ++ _) ++ streamRows out = _
      rw [hchunk, hrows]
      rfl

/-! ### The walks met are the trails -/

/-- A walk of more than one step at most is within the upper bound just if the search may
go on behind each of its steps but the last. -/
theorem deeper_iff {walk : List Traversal} (hne : walk ≠ []) (hmax : op.max_hops ≠ 0) :
    (∀ before t after, walk = before ++ t :: after → after ≠ [] → op.deeper r before t = true) ↔
      (op.max_hops < 0 ∨ (walk.length : Int) ≤ op.max_hops) ∧ op.LeavesOnce r walk := by
  unfold deeper LeavesOnce
  by_cases hunbounded : op.max_hops < 0
  · simp only [hunbounded, if_true, true_or, true_and, forall_const]
    rw [nodup_vertices_iff]
    simp only [Bool.not_eq_true', ← Bool.not_eq_true, contains_iff_mem]
  · obtain ⟨bound, hbound⟩ : ∃ bound : Nat, op.max_hops = (bound + 1 : Nat) := ⟨(op.max_hops - 1).toNat, by omega⟩
    simp only [hunbounded, if_false, false_or, false_implies, and_true, decide_eq_true_eq]
    simp only [hbound, Int.ofNat_lt, Int.ofNat_le]
    exact (length_le_iff hne bound).symm

lemma admissible_iff {walk : List Traversal} :
    (∀ before t after, walk = before ++ t :: after → op.admissible store r before t = true) ↔
      (walk.map (·.edge.id)).Nodup ∧ ∀ t ∈ walk, op.edgePasses store t.edge.label_id t.edge.id = true ∧
          (r.prev_edge_id ≠ INVALID_EDGE_ID → t.edge.id ≠ r.prev_edge_id) := by
  rw [nodup_map_iff_forall_split]
  simp only [admissible_eq_true]
  constructor
  · intro h
    refine ⟨fun before t after heq => (h before t after heq).1, fun t ht => ?_⟩
    obtain ⟨before, after, hsplit⟩ := append_of_mem ht
    exact (h before t after hsplit).2
  · intro h before t after heq
    have hmem : t ∈ walk := by simp [heq]
    exact ⟨h.1 before t after heq, h.2 t hmem⟩

/-- The walks of a source row are its trails. -/
theorem mem_sourceWalks_iff (hreads : store.Holds g) (walk : List Traversal) :
    walk ∈ op.sourceWalks store g r ↔ op.IsTrail store g r walk ∧ op.LeavesOnce r walk := by
  have hemits : op.emits store r walk = true ↔ op.min_hops ≤ walk.length ∧ (op.srcMatches store r.src_id = true ∨
        op.dstMatches store (lastVertex vertex r.src_id walk) = true) ∧
      op.labelsAllowed (store.getVertexLabels (lastVertex vertex r.src_id walk)) = true ∧
      op.boundMatches r walk (lastVertex vertex r.src_id walk) = true := by
    unfold emits
    simp only [Bool.and_eq_true, Bool.or_eq_true, decide_eq_true_eq, and_assoc]
  unfold sourceWalks
  rw [mem_filter, mem_cons, hemits]
  by_cases hne : walk = []
  · -- the empty walk
    subst hne
    have hleaves : op.LeavesOnce r [] := fun _ => nodup_singleton _
    have hmost : op.max_hops < 0 ∨ ((0 : Nat) : Int) ≤ op.max_hops := by omega
    constructor
    · intro h
      obtain ⟨-, hleast, hindex, hlabels, hbound⟩ := h
      exact ⟨⟨.nil _, nodup_nil, by simp, hleast, hmost, hindex, hlabels, hbound⟩, hleaves⟩
    · intro h
      exact ⟨.inl rfl, h.1.least, h.1.index, h.1.labels, h.1.bound⟩
  · simp only [hne, false_or]
    constructor
    · intro h
      obtain ⟨hmem, hleast, hindex, hlabels, hbound⟩ := h
      split at hmem
      next => cases hmem
      next hmax =>
        obtain ⟨walk', heq, -, hmet⟩ := mem_explore_iff.mp hmem
        rw [nil_append] at heq
        subst heq
        obtain ⟨-, hwalk, hadm, hdeeper⟩ := met_iff.mp hmet
        simp only [nil_append] at hadm hdeeper
        obtain ⟨hdistinct, hpasses⟩ := admissible_iff.mp hadm
        obtain ⟨hmost, hleaves⟩ := (deeper_iff hne hmax).mp hdeeper
        have hlabel := hwalk.forall_steps fun v t ht => ((mem_adjacentSteps_iff hreads v t).mp ht).2
        have hfollows := hwalk.mono fun v t _ ht => ((mem_adjacentSteps_iff hreads v t).mp ht).1
        exact ⟨⟨hfollows, hdistinct, fun t ht => ⟨hlabel t ht, hpasses t ht⟩, hleast, hmost, hindex,
          hlabels, hbound⟩, hleaves⟩
    · intro h
      obtain ⟨htrail, hleaves⟩ := h
      refine ⟨?_, htrail.least, htrail.index, htrail.labels, htrail.bound⟩
      have hpos := length_pos_iff.mpr hne
      have hmax : op.max_hops ≠ 0 := by
        intro hzero
        rcases htrail.most with h | h <;> omega
      rw [if_neg hmax, mem_explore_iff]
      have hknown := htrail.follows.forall_steps fun v t ht => ht.1
      have hlength : walk.length ≤ g.edges.length := by
        have hnodup : (walk.map edge).Nodup :=
          List.Nodup.of_map StoredEdge.id (by simpa [comp_def] using htrail.distinct)
        have hsub : walk.map edge ⊆ g.edges := by
          intro e he
          obtain ⟨t, ht, rfl⟩ := mem_map.mp he
          exact hknown t ht
        simpa using (hnodup.subperm hsub).length_le
      refine ⟨walk, rfl, hlength, met_iff.mpr ⟨hne, ?_, ?_, ?_⟩⟩
      · exact htrail.follows.mono fun v t ht hstep =>
          (mem_adjacentSteps_iff hreads v t).mpr ⟨hstep, (htrail.passes t ht).1⟩
      · simpa using admissible_iff.mpr ⟨htrail.distinct, fun t ht => (htrail.passes t ht).2⟩
      · simpa using (deeper_iff hne hmax).mpr ⟨htrail.most, hleaves⟩

end Search

/-! ### Every trail once -/

/-- Variable-length expand on every graph whose undirected traversal meets no loop: with
enough rounds it ends, and for each input row it has emitted one row for each trail within
the bounds that meets the filters and, if there is no upper bound, leaves no vertex twice. -/
theorem executeChunk_trails {op : VarLenExpandPhysicalOp} {store : GraphReads} {g : Graph}
    (hreads : store.Holds g) {left : List DataChunk} (hplan : op.WellPlanned left)
    (hloops : op.direction = .BOTH → ∀ e ∈ g.edges, op.labelPasses e.label_id = true → e.src ≠ e.dst) :
    ∃ walks : DataChunk → Nat → List (List Traversal), (∀ chunk i, (walks chunk i).Nodup ∧
        ∀ walk, walk ∈ walks chunk i ↔ op.Accepts store g chunk i walk) ∧
      ∃ out, (∃ bound, ∀ fuel, bound ≤ fuel → op.executeChunk store fuel left = some out) ∧
        streamRows out = left.flatMap fun chunk => (range chunk.count).flatMap fun i =>
          (walks chunk i).map (op.outputRow store chunk i) := by
  cases hmissing : op.dst_label_missing with
  | true =>
    refine ⟨fun _ _ => [], fun chunk i => ⟨nodup_nil, fun walk => ?_⟩, [], ⟨0, fun _ _ => ?_⟩, ?_⟩
    · simp [Accepts, hmissing]
    · simp [executeChunk, hmissing]
    · simp [streamRows]
  | false =>
    obtain ⟨out, ⟨bound, hbound⟩, hout⟩ := expandChunks_spec hreads hplan.min_hops left hplan.types
      .empty cachesOk_empty
    refine ⟨op.rowWalks store g, fun chunk i => ⟨?_, fun walk => ?_⟩, out, ⟨bound, fun fuel hfuel => ?_⟩, hout⟩
    · unfold rowWalks
      cases op.sourceRow chunk i with
      | none => exact nodup_nil
      | some r =>
        apply List.Nodup.filter
        rw [nodup_cons]
        constructor
        · intro hmem
          split at hmem
          next => cases hmem
          next =>
            obtain ⟨walk, heq, -, hmet⟩ := mem_explore_iff.mp hmem
            exact hmet.ne_nil (append_eq_nil_iff.mp heq.symm).2
        · split
          · exact nodup_nil
          · exact nodup_explore (nodup_adjacentSteps hreads hplan.labels hloops) _ _ _
    · unfold rowWalks Accepts
      cases op.sourceRow chunk i with
      | none => simp
      | some r => simp [hmissing, mem_sourceWalks_iff hreads]
    · unfold executeChunk
      rw [hmissing]
      exact hbound fuel hfuel

end VarLenExpandPhysicalOp

/-! ### A graph with a cycle and an exit -/

/-- The reads of a graph with labelled vertices and no properties. -/
def Graph.reads (g : Graph) (labels : VertexId → List LabelId) : GraphReads where
  scanEdges := g.entries
  scanEdgesBatch vids direction label_filter :=
    vids.flatMap fun v => (g.entries v direction label_filter).map fun e => (v, e)
  getVertexLabels := labels
  getVertexLabelsBatch vids := vids.map labels
  getVertexProperties _ _ := none
  getEdgeProperties _ _ := none
  getEdgePropertiesOf _ _ _ := none
  scanVerticesByIndexId _ _ := []

lemma Graph.reads_holds (g : Graph) (labels : VertexId → List LabelId) : (g.reads labels).Holds g where
  scan _ _ _ _ := .refl _
  labels _ := rfl
  batch_sources vids direction label_filter be hbe := by
    obtain ⟨v, hv, hmem⟩ := mem_flatMap.mp hbe
    obtain ⟨e, -, rfl⟩ := mem_map.mp hmem
    exact hv
  batch vids direction label_filter _ hnodup v hv := by
    show ((vids.flatMap fun u => (g.entries u direction label_filter).map fun e => (u, e)).filter
      (·.1 = v)).map Prod.snd = g.entries v direction label_filter
    have hother (vids : List VertexId) (hnot : v ∉ vids) :
        (vids.flatMap fun u => (g.entries u direction label_filter).map fun e => (u, e)).filter
          (·.1 = v) = [] := by
      rw [filter_eq_nil_iff]
      intro be hbe heq
      obtain ⟨u, hu, hmem⟩ := mem_flatMap.mp hbe
      obtain ⟨e, -, rfl⟩ := mem_map.mp hmem
      exact hnot (of_decide_eq_true heq ▸ hu)
    obtain ⟨before, after, rfl⟩ := append_of_mem hv
    have hbefore : v ∉ before := fun h =>
      (nodup_append.mp hnodup).2.2 v h v mem_cons_self rfl
    have hafter : v ∉ after := (nodup_cons.mp (nodup_append.mp hnodup).2.1).1
    rw [flatMap_append, flatMap_cons, filter_append, filter_append,
      hother before hbefore, hother after hafter, nil_append, append_nil, filter_map,
      map_map]
    simp [comp_def]

namespace VarLenExpandPhysicalOp

/-- Two edges between the vertices 1 and 2, and one from 1 to 3. -/
def cycleGraph : Graph where
  edges := [⟨1, 1, 2, 7, 0⟩, ⟨2, 2, 1, 7, 0⟩, ⟨3, 1, 3, 7, 0⟩]
  distinct := by decide

def cycleReads : GraphReads := cycleGraph.reads fun _ => []

/-- `(a)-[es:KNOWS*1..max]->(b)`. -/
def expandFrom (max_hops : Int) : VarLenExpandPhysicalOp where
  label_filters := some [7]
  direction := .OUT
  min_hops := 1
  max_hops := max_hops
  output_types := [.VERTEX_REF, .VERTEX_REF, .LIST]
  src_col_idx := some 0
  path_var := ""
  edge_var := "es"
  edge_prop_filters _ := []
  dst_label_ids := []
  dst_bound := false
  dst_col_idx := 0
  edge_list_bound := false
  edge_list_col_idx := none
  prev_edge_col_idx := none
  dst_label_missing := false
  src_filter_index_id := 0
  src_filter_value := .null
  dst_filter_index_id := 0
  dst_filter_value := .null

/-- The vertex 1 in one row. -/
def startChunk : DataChunk :=
  { columns := [.flat ⟨.VERTEX_REF, [(1 : UInt64)], [true]⟩], count := 1 }

lemma expandFrom_wellPlanned (max_hops : Int) : (expandFrom max_hops).WellPlanned [startChunk] where
  types chunk hchunk := by
    rw [mem_singleton.mp hchunk]
    rfl
  labels labels hlabels := by
    obtain rfl := Option.some.inj hlabels
    decide
  min_hops := by
    show (0 : Int) ≤ 1
    decide

/-- The walks of at most three steps. -/
theorem executeChunk_trails_cycle : ∃ walks : DataChunk → Nat → List (List Traversal),
      (∀ chunk i, (walks chunk i).Nodup ∧
        ∀ walk, walk ∈ walks chunk i ↔ (expandFrom 3).Accepts cycleReads cycleGraph chunk i walk) ∧
      ∃ out, (∃ bound, ∀ fuel, bound ≤ fuel → (expandFrom 3).executeChunk cycleReads fuel [startChunk] = some out) ∧
        streamRows out = [startChunk].flatMap fun chunk => (range chunk.count).flatMap fun i =>
          (walks chunk i).map ((expandFrom 3).outputRow cycleReads chunk i) :=
  executeChunk_trails (cycleGraph.reads_holds _) (expandFrom_wellPlanned 3) (by decide)

/-- The number of edges in the last column of an output row. -/
def edgeCount (row : Row) : Nat :=
  match row with
  | [_, _, .list edges] => edges.length
  | _ => 0

/-- The way around the cycle and out at vertex 3. -/
def aroundAndOut : List Traversal :=
  [⟨⟨1, 1, 2, 7, 0⟩, 2⟩, ⟨⟨2, 2, 1, 7, 0⟩, 1⟩, ⟨⟨3, 1, 3, 7, 0⟩, 3⟩]

def startRow : SourceRow := ⟨0, .vertexRef 1, 1, [], INVALID_EDGE_ID, 1⟩

lemma aroundAndOut_isTrail : (expandFrom (-1)).IsTrail cycleReads cycleGraph startRow aroundAndOut where
  follows :=
    .cons ⟨by decide, .inl ⟨by decide, rfl, rfl⟩⟩ <|
    .cons ⟨by decide, .inl ⟨by decide, rfl, rfl⟩⟩ <|
    .cons ⟨by decide, .inl ⟨by decide, rfl, rfl⟩⟩ <| .nil _
  distinct := by decide
  passes := by decide
  least := by decide
  most := .inl (by decide)
  index := .inl rfl
  labels := rfl
  bound := rfl

/-- Without an upper bound the search turns back at vertex 1, which is on the path already:
the trail of three edges has no row. -/
theorem unbounded_stops_at_cycle : ¬ ∃ walks : List (List Traversal), walks.Nodup ∧
      (∀ walk, walk ∈ walks ↔ (expandFrom (-1)).dst_label_missing = false ∧
        ∃ r, (expandFrom (-1)).sourceRow startChunk 0 = some r ∧
          (expandFrom (-1)).IsTrail cycleReads cycleGraph r walk) ∧
      ∃ out, (∃ bound, ∀ fuel, bound ≤ fuel →
          (expandFrom (-1)).executeChunk cycleReads fuel [startChunk] = some out) ∧
        (streamRows out).Perm (walks.map ((expandFrom (-1)).outputRow cycleReads startChunk 0)) := by
  rintro ⟨walks, -, hwalks, out, ⟨bound, hbound⟩, hrows⟩
  have hcounts : ((expandFrom (-1)).executeChunk cycleReads (bound + 20) [startChunk]).map
      (fun out => (streamRows out).map edgeCount) = some [1, 2, 1] := rfl
  rw [hbound (bound + 20) (Nat.le_add_right _ _), Option.map_some, Option.some.injEq] at hcounts
  have hwalk : aroundAndOut ∈ walks := (hwalks _).mpr ⟨rfl, startRow, rfl, aroundAndOut_isTrail⟩
  have hrow : (expandFrom (-1)).outputRow cycleReads startChunk 0 aroundAndOut ∈ streamRows out :=
    hrows.mem_iff.mpr (mem_map.mpr ⟨_, hwalk, rfl⟩)
  have hthree : 3 ∈ (streamRows out).map edgeCount := mem_map.mpr ⟨_, hrow, rfl⟩
  rw [hcounts] at hthree
  revert hthree
  decide

end VarLenExpandPhysicalOp

end Eugraph.Dataset
