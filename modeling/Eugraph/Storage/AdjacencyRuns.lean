import Eugraph.Storage.AdjacencySystem

/-!
# Reading through the adjacency cache

What `scanEdges` and `countDegree` return, and the runs of the store with and without
the cache.
-/

namespace Eugraph.DataStore

open Lib Lib.Program Wt KeyCodec List Option EdgeRef Lib.SortedMap ValueCodec Function

/-! ### Reading one side -/

/-- The entry a row of a side stands for. -/
def rowEntry (row : Record) : EdgeIndexEntry :=
  ⟨decodeU64BE row.1 2, decodeU16BE row.1 0, decodeU64BE row.1 10, decodeU64 row.2⟩

def rowPasses (labelFilter : Option EdgeLabelId) (row : Record) : Bool :=
  passesFilter labelFilter (decodeU16BE row.1 0)

/-- What a scan of a side with the rows of `m` returns. -/
def sideEntries (m : Table) (labelFilter : Option EdgeLabelId) : List EdgeIndexEntry :=
  (m.entries.filter (rowPasses labelFilter)).map rowEntry

section Scan

variable {s : Store} {vid : VertexId} {direction : Direction} {m : Table}

/-- Every row of the table has the shape of an adjacency row. -/
def WellFormedTable (m : Table) : Prop := WellFormedRows m.get

lemma WellFormedTable.entry (h : WellFormedTable m) {row : Record} (hrow : row ∈ m.entries) :
    ∃ l n q, row.1 = adjacencySuffix l n q :=
  h row.1 row.2 ((mem_entries_iff m row.1 row.2).mp hrow)

lemma rowEntry_adjacencySuffix (l : EdgeLabelId) (n : VertexId) (q : UInt64) (value : Bytes) :
    rowEntry (adjacencySuffix l n q, value) = ⟨n, l, q, decodeU64 value⟩ := by
  obtain ⟨hl, hn, hq⟩ := decode_adjacencySuffix l n q
  simp only [rowEntry, hl, hn, hq]

lemma rowPasses_adjacencySuffix (labelFilter : Option EdgeLabelId) (l : EdgeLabelId)
    (n : VertexId) (q : UInt64) (value : Bytes) :
    rowPasses labelFilter (adjacencySuffix l n q, value) = passesFilter labelFilter l := by
  rw [rowPasses, (decode_adjacencySuffix l n q).1]

lemma exec_scanCachedEdges (hm : WellFormedTable m) (hrows : cachedRows s vid direction = m)
    (labelFilter : Option EdgeLabelId) :
    exec (scanCachedEdges vid direction labelFilter) s = (sideEntries m labelFilter, s) := by
  simp only [scanCachedEdges, exec_bind, exec_tableScan, exec_pure, Prod.mk.injEq, and_true]
  rw [cachedRows_scan, hrows, List.map_map, filterMap_map, sideEntries, ← filterMap_eq_map, filterMap_filter]
  refine filterMap_congr fun row hrow => ?_
  obtain ⟨l, n, q, hrest⟩ := hm.entry hrow
  obtain ⟨rest, value⟩ := row
  simp only at hrest
  subst hrest
  obtain ⟨-, hl, hn, hq⟩ := decode_sectionKey_adjacencySuffix vid (adjacencyKind direction).byte l n q
  simp only [comp_apply, decodeVertexDataAdjEdgeKey, indexEntry, hl, hn, hq,
    rowPasses_adjacencySuffix, rowEntry_adjacencySuffix]

/-- A longer prefix selects among the rows of a shorter one. -/
theorem prefixRecords_append (t : Table) (pre more : Bytes) : prefixRecords t (pre ++ more) =
      (prefixRecords t pre).filter fun e => more.isPrefixOf (e.1.drop pre.length) := by
  rw [prefixRecords, prefixRecords, filterKeys, filterKeys, List.filter_filter]
  refine filter_congr fun e _ => ?_
  rw [Bool.eq_iff_iff]
  simp only [Bool.and_eq_true, isPrefixOf_iff_prefix]
  constructor
  · rintro ⟨rest, hrest⟩
    rw [← hrest, append_assoc, drop_left]
    exact ⟨prefix_append _ _, prefix_append _ _⟩
  · rintro ⟨hmore, hpre⟩
    rw [← drop_length_of_isPrefix hpre, prefix_append_right_inj]
    exact hmore

lemma exec_scanIndexedEdges (hm : WellFormedTable m) (hrows : indexRows s vid direction = m)
    (labelFilter : Option EdgeLabelId) :
    exec (scanIndexedEdges vid direction labelFilter) s = (sideEntries m labelFilter, s) := by
  have hall : prefixRecords (s .edgeIndex) (encodeEdgeIndexPrefix vid direction) =
      m.entries.map fun e => (encodeEdgeIndexPrefix vid direction ++ e.1, e.2) := by
    rw [prefixRecords_eq_under, ← hrows]
    rfl
  have hscan : prefixRecords (s .edgeIndex) (indexScanPrefix vid direction labelFilter) =
      (m.entries.filter (rowPasses labelFilter)).map fun e =>
        (encodeEdgeIndexPrefix vid direction ++ e.1, e.2) := by
    cases labelFilter with
    | none =>
      have hpass : m.entries.filter (rowPasses none) = m.entries := filter_eq_self.mpr fun _ _ => rfl
      rw [hpass, ← hall]
      rfl
    | some label =>
      have hlong : encodeEdgeIndexLabelPrefix vid direction label =
          encodeEdgeIndexPrefix vid direction ++ u16BE label := by
        rw [encodeEdgeIndexPrefix, sectionKey_append]
        rfl
      simp only [indexScanPrefix, hlong, prefixRecords_append, hall, List.filter_map]
      congr 1
      refine filter_congr fun row hrow => ?_
      obtain ⟨l, n, q, hrest⟩ := hm.entry hrow
      obtain ⟨rest, value⟩ := row
      simp only at hrest
      subst hrest
      rw [comp_apply, drop_left, rowPasses_adjacencySuffix, Bool.eq_iff_iff,
        isPrefixOf_iff_prefix, u16BE_isPrefix_adjacencySuffix]
      simp [passesFilter, eq_comm]
  simp only [scanIndexedEdges, exec_bind, exec_tableScan, exec_pure, Prod.mk.injEq, and_true]
  rw [hscan, List.map_map, sideEntries]
  refine map_congr_left fun row hrow => ?_
  obtain ⟨l, n, q, hrest⟩ := hm.entry (mem_of_mem_filter hrow)
  obtain ⟨rest, value⟩ := row
  simp only at hrest
  subst hrest
  obtain ⟨-, hl, hn, hq⟩ := decode_sectionKey_adjacencySuffix vid (directionByte direction) l n q
  have hkey : encodeEdgeIndexPrefix vid direction ++ adjacencySuffix l n q =
      sectionKey vid (directionByte direction) (adjacencySuffix l n q) := by
    rw [encodeEdgeIndexPrefix, sectionKey_append, nil_append]
  simp only [comp_apply, hkey, decodeEdgeIndexKey, indexEntry, hl, hn, hq, rowEntry_adjacencySuffix]

/-- A side returns its rows, wherever they are kept. -/
theorem exec_scanSide {capacity : UInt32} {rows : Bytes → Option Bytes}
    (h : SideShown capacity s vid direction rows) (hm : ∀ rest, m.get rest = rows rest)
    (labelFilter : Option EdgeLabelId) :
    exec (scanSide capacity vid direction labelFilter) s = (sideEntries m labelFilter, s) := by
  obtain ⟨hinv, hrows, hzero⟩ := h
  have hwell : WellFormedTable m := by
    intro rest value hvalue
    exact hrows rest value ((hm rest).symm.trans hvalue)
  have hindexed : (∀ count, sideState s vid direction ≠ some (.COMPLETE, count)) →
      exec (scanIndexedEdges vid direction labelFilter) s = (sideEntries m labelFilter, s) := by
    intro hstate
    refine exec_scanIndexedEdges hwell (SortedMap.ext_get fun rest => ?_) labelFilter
    rw [(hinv.indexed hstate).2, hm]
  by_cases hcap : capacity = 0
  · have hpos : ¬ 0 < capacity := by simp [hcap]
    simp only [scanSide, hpos, if_false, exec_bind, exec_pure]
    exact hindexed (by simp [hzero hcap])
  · have hpos : 0 < capacity := UInt32.pos_iff_ne_zero.mpr hcap
    simp only [scanSide, hpos, if_true, exec_bind, exec_getAdjacencyState]
    split
    · rename_i count hstate
      refine exec_scanCachedEdges hwell (SortedMap.ext_get fun rest => ?_) labelFilter
      rw [(hinv.complete hstate).1, hm]
    · rename_i hstate
      exact hindexed fun count heq => hstate count heq

end Scan

/-! ### The edges a read should return -/

/-- The endpoint of an edge whose side holds its row. -/
def EdgeRef.near (e : EdgeRef) (direction : Direction) : VertexId :=
  if direction = .IN then e.dst else e.src

def EdgeRef.far (e : EdgeRef) (direction : Direction) : VertexId :=
  if direction = .IN then e.src else e.dst

/-- The live edges of one side. -/
def incidentSide (edges : List EdgeRef) (vid : VertexId) (direction : Direction)
    (labelFilter : Option EdgeLabelId) : List EdgeIndexEntry :=
  (edges.filter fun e => e.near direction = vid && passesFilter labelFilter e.labelId).map fun e =>
    ⟨e.far direction, e.labelId, e.seq, e.eid⟩

/-- The live edges at a vertex; with `BOTH` a loop counts on either side. -/
def incident (edges : List EdgeRef) (vid : VertexId) (direction : Direction)
    (labelFilter : Option EdgeLabelId) : List EdgeIndexEntry :=
  if direction = .BOTH then
    incidentSide edges vid .OUT labelFilter ++ incidentSide edges vid .IN labelFilter
  else incidentSide edges vid direction labelFilter

/-- The edge ids by key. -/
def liveEdges (edges : List EdgeRef) : LiveEdges :=
  fun k => (edges.find? fun e => e.key = k).map eid

section Live

variable {edges : List EdgeRef}

lemma sideKey_near_far (e : EdgeRef) (direction : Direction) :
    sideKey (e.near direction) direction e.labelId (e.far direction) e.seq = e.key := by
  by_cases hin : direction = .IN
  · simp [sideKey, near, far, key, hin]
  · simp [sideKey, near, far, key, hin]

variable {direction : Direction}

lemma near_far_of_key {e : EdgeRef} {vid n : VertexId} {l : EdgeLabelId}
    {q : UInt64} (h : e.key = sideKey vid direction l n q) :
    e.near direction = vid ∧ e.far direction = n ∧ e.labelId = l ∧ e.seq = q := by
  by_cases hin : direction = .IN
  · simp only [key, sideKey, hin, if_true, EdgeKey.mk.injEq] at h
    simp [near, far, hin, h]
  · simp only [key, sideKey, hin, if_false, EdgeKey.mk.injEq] at h
    simp [near, far, hin, h]

lemma liveEdges_eq_some (hnodup : (edges.map key).Nodup) {k : EdgeKey} {eid : EdgeId} :
    liveEdges edges k = some eid ↔ ∃ e ∈ edges, e.key = k ∧ e.eid = eid := by
  rw [liveEdges, map_eq_some_iff]
  constructor
  · rintro ⟨e, he, heid⟩
    refine ⟨e, mem_of_find?_eq_some he, ?_, heid⟩
    simpa using find?_some he
  · rintro ⟨e, he, hkey, heid⟩
    have hfound : (edges.find? fun e => e.key = k).isSome := find?_isSome.mpr ⟨e, he, by simpa using hkey⟩
    obtain ⟨e', he'⟩ := isSome_iff_exists.mp hfound
    have hkey' : e'.key = k := by simpa using find?_some he'
    have heq : e' = e := inj_on_of_nodup_map hnodup (mem_of_find?_eq_some he') he (hkey'.trans hkey.symm)
    exact ⟨e', he', heq ▸ heid⟩

lemma liveEdges_eq_none {k : EdgeKey} : liveEdges edges k = none ↔ ∀ e ∈ edges, e.key ≠ k := by
  simp [liveEdges]

lemma liveEdges_cons (e : EdgeRef) (edges : List EdgeRef) :
    liveEdges (e :: edges) = update (liveEdges edges) e.key (some e.eid) := by
  funext k
  by_cases hk : k = e.key
  · simp [liveEdges, hk]
  · have hk' : ¬ e.key = k := fun h => hk h.symm
    simp [liveEdges, hk, hk']

lemma liveEdges_filter (keep : EdgeKey → Bool) (edges : List EdgeRef) (k : EdgeKey) :
    liveEdges (edges.filter fun e => keep e.key) k = if keep k then liveEdges edges k else none := by
  induction edges with
  | nil => simp [liveEdges]
  | cons e rest ih =>
    rw [liveEdges_cons]
    by_cases hkeep : keep e.key
    · rw [filter_cons_of_pos (by simpa using hkeep), liveEdges_cons]
      by_cases hk : k = e.key
      · simp [hk, hkeep]
      · simp [hk, ih]
    · rw [filter_cons_of_neg (by simpa using hkeep), ih]
      by_cases hk : k = e.key
      · simp [hk, hkeep]
      · simp [hk]

lemma liveEdges_filter_ne (edges : List EdgeRef) (k : EdgeKey) :
    liveEdges (edges.filter fun e => e.key ≠ k) = update (liveEdges edges) k none := by
  funext k'
  have hfilter := liveEdges_filter (fun k' => k' ≠ k) edges k'
  rw [hfilter]
  by_cases hk : k' = k
  · simp [hk]
  · simp [hk]

/-- The entries of a side are its live edges that pass the filter. -/
theorem mem_sideEntries_live {m : Table} {live : LiveEdges} {vid : VertexId}
    (hm : ∀ rest, m.get rest = sideRows live vid direction rest)
    (labelFilter : Option EdgeLabelId) (x : EdgeIndexEntry) :
    x ∈ sideEntries m labelFilter ↔ live (sideKey vid direction x.edgeLabelId x.neighborId x.seq) = some x.edgeId ∧
        passesFilter labelFilter x.edgeLabelId = true := by
  simp only [sideEntries, List.mem_map, mem_filter]
  constructor
  · rintro ⟨⟨rest, value⟩, ⟨hrow, hpass⟩, rfl⟩
    have hget := (mem_entries_iff m rest value).mp hrow
    rw [hm] at hget
    obtain ⟨l, n, q, rfl⟩ := wellFormedRows_sideRows _ _ _ rest value hget
    rw [sideRows_adjacencySuffix, map_eq_some_iff] at hget
    obtain ⟨eid, hlive, rfl⟩ := hget
    rw [rowPasses_adjacencySuffix] at hpass
    rw [rowEntry_adjacencySuffix, decodeU64_encodeU64]
    exact ⟨hlive, hpass⟩
  · rintro ⟨hlive, hpass⟩
    refine ⟨(adjacencySuffix x.edgeLabelId x.neighborId x.seq, encodeU64 x.edgeId), ⟨?_, ?_⟩, ?_⟩
    · rw [mem_entries_iff, hm, sideRows_adjacencySuffix, hlive]
      rfl
    · rw [rowPasses_adjacencySuffix]
      exact hpass
    · rw [rowEntry_adjacencySuffix, decodeU64_encodeU64]

lemma mem_sideEntries {m : Table} {vid : VertexId} (hnodup : (edges.map key).Nodup)
    (hm : ∀ rest, m.get rest = sideRows (liveEdges edges) vid direction rest)
    (labelFilter : Option EdgeLabelId) (x : EdgeIndexEntry) :
    x ∈ sideEntries m labelFilter ↔ x ∈ incidentSide edges vid direction labelFilter := by
  rw [mem_sideEntries_live hm, liveEdges_eq_some hnodup]
  simp only [incidentSide, List.mem_map, mem_filter, Bool.and_eq_true, decide_eq_true_eq]
  constructor
  · rintro ⟨⟨e, he, hkey, heid⟩, hpass⟩
    obtain ⟨hnear, hfar, hl, hq⟩ := near_far_of_key hkey
    refine ⟨e, ⟨he, hnear, by rw [hl]; exact hpass⟩, ?_⟩
    rw [hfar, hl, hq, heid]
  · rintro ⟨e, ⟨he, rfl, hpass⟩, rfl⟩
    exact ⟨⟨e, he, (sideKey_near_far e direction).symm, rfl⟩, hpass⟩

lemma nodup_sideEntries {m : Table} (hm : WellFormedTable m) (labelFilter : Option EdgeLabelId) :
    (sideEntries m labelFilter).Nodup := by
  have hentries : m.entries.Nodup := m.sorted.imp fun {a b} hlt heq => absurd (congrArg Prod.fst heq) (ne_of_lt hlt)
  refine List.Nodup.map_on ?_ (hentries.filter _)
  intro row hrow row' hrow' heq
  have hmem := mem_of_mem_filter hrow
  have hmem' := mem_of_mem_filter hrow'
  obtain ⟨l, n, q, hrest⟩ := hm.entry hmem
  obtain ⟨l', n', q', hrest'⟩ := hm.entry hmem'
  obtain ⟨rest, value⟩ := row
  obtain ⟨rest', value'⟩ := row'
  simp only at hrest hrest'
  subst hrest hrest'
  simp only [rowEntry_adjacencySuffix, EdgeIndexEntry.mk.injEq] at heq
  obtain ⟨rfl, rfl, rfl, -⟩ := heq
  have hget := (mem_entries_iff m _ value).mp hmem
  have hget' := (mem_entries_iff m _ value').mp hmem'
  rw [hget, Option.some.injEq] at hget'
  rw [hget']

lemma nodup_incidentSide (hnodup : (edges.map key).Nodup) (vid : VertexId)
    (direction : Direction) (labelFilter : Option EdgeLabelId) :
    (incidentSide edges vid direction labelFilter).Nodup := by
  refine List.Nodup.map_on ?_ ((List.Nodup.of_map _ hnodup).filter _)
  intro e he e' he' heq
  obtain ⟨hmem, hside⟩ := mem_filter.mp he
  obtain ⟨hmem', hside'⟩ := mem_filter.mp he'
  simp only [Bool.and_eq_true, decide_eq_true_eq] at hside hside'
  simp only [EdgeIndexEntry.mk.injEq] at heq
  obtain ⟨hfar, hlabel, hseq, -⟩ := heq
  refine inj_on_of_nodup_map hnodup hmem hmem' ?_
  rw [← sideKey_near_far e direction, ← sideKey_near_far e' direction, hside.1, hside'.1, hfar, hlabel, hseq]

/-- The rows of a side are the live edges of that side, each once. -/
theorem sideEntries_perm {m : Table} {vid : VertexId} (hnodup : (edges.map key).Nodup)
    (hm : ∀ rest, m.get rest = sideRows (liveEdges edges) vid direction rest)
    (labelFilter : Option EdgeLabelId) :
    (sideEntries m labelFilter).Perm (incidentSide edges vid direction labelFilter) := by
  have hwell : WellFormedTable m := fun rest value hvalue =>
    wellFormedRows_sideRows _ _ _ rest value ((hm rest).symm.trans hvalue)
  rw [perm_ext_iff_of_nodup (nodup_sideEntries hwell labelFilter)
    (nodup_incidentSide hnodup vid direction labelFilter)]
  exact mem_sideEntries hnodup hm labelFilter

end Live

/-! ### Reads of a whole store -/

section Reads

variable {capacity : UInt32} {s plain : Store} {edges : List EdgeRef}

/-- The rows of a side as a table; with capacity `0` they are all in `edge_index`. -/
theorem StoreOk.indexRows_get (h : StoreOk 0 plain (liveEdges edges)) (vid : VertexId)
    {direction : Direction} (hdir : direction ≠ .BOTH) (rest : Bytes) :
    (indexRows plain vid direction).get rest = sideRows (liveEdges edges) vid direction rest := by
  obtain ⟨hinv, -, hzero⟩ := h.sides vid direction hdir
  exact (hinv.indexed (by simp [hzero rfl])).2 rest

/-- What both stores return for a read. -/
def plainEntries (plain : Store) (vid : VertexId) (direction : Direction)
    (labelFilter : Option EdgeLabelId) : List EdgeIndexEntry :=
  if direction = .BOTH then
    sideEntries (indexRows plain vid .OUT) labelFilter ++
      sideEntries (indexRows plain vid .IN) labelFilter
  else sideEntries (indexRows plain vid direction) labelFilter

lemma exec_scanEdges (h : StoreOk capacity s (liveEdges edges))
    (hplain : StoreOk 0 plain (liveEdges edges)) (vid : VertexId) (direction : Direction)
    (labelFilter : Option EdgeLabelId) :
    exec (scanEdges capacity vid direction labelFilter) s = (plainEntries plain vid direction labelFilter, s) := by
  have hside : ∀ d, d ≠ .BOTH → exec (scanSide capacity vid d labelFilter) s =
      (sideEntries (indexRows plain vid d) labelFilter, s) := fun d hd =>
    exec_scanSide (h.sides vid d hd).shown (hplain.indexRows_get vid hd) labelFilter
  by_cases hboth : direction = .BOTH
  · simp [scanEdges, plainEntries, hboth, hside]
  · simp [scanEdges, plainEntries, hboth, hside direction hboth]

lemma plainEntries_perm (hplain : StoreOk 0 plain (liveEdges edges))
    (hnodup : (edges.map key).Nodup) (vid : VertexId) (direction : Direction)
    (labelFilter : Option EdgeLabelId) :
    (plainEntries plain vid direction labelFilter).Perm
      (incident edges vid direction labelFilter) := by
  have hside : ∀ d, d ≠ .BOTH → (sideEntries (indexRows plain vid d) labelFilter).Perm
      (incidentSide edges vid d labelFilter) := fun d hd =>
    sideEntries_perm hnodup (hplain.indexRows_get vid hd) labelFilter
  by_cases hboth : direction = .BOTH
  · simp only [plainEntries, incident, hboth, if_true]
    exact (hside .OUT (by simp)).append (hside .IN (by simp))
  · simp only [plainEntries, incident, hboth, if_false]
    exact hside direction hboth

/-- A side's rows are those of a table, cached or not. -/
theorem SideShows.exists_table {vid : VertexId} {direction : Direction}
    {rows : Bytes → Option Bytes} (h : SideShows s vid direction rows) :
    ∃ m : Table, ∀ rest, m.get rest = rows rest := by
  unfold SideShows at h
  split at h
  · exact ⟨_, h.1⟩
  · exact ⟨_, h.2⟩

/-- `scanEdges` returns the live edges of a side, each once, and changes nothing. -/
theorem StoreOk.scanEdges_perm (h : StoreOk capacity s (liveEdges edges))
    (hnodup : (edges.map key).Nodup) (vid : VertexId) {direction : Direction}
    (hdir : direction ≠ .BOTH) (labelFilter : Option EdgeLabelId) :
    (exec (scanEdges capacity vid direction labelFilter) s).1.Perm
      (incidentSide edges vid direction labelFilter) ∧
    (exec (scanEdges capacity vid direction labelFilter) s).2 = s := by
  obtain ⟨m, hm⟩ := (h.sides vid direction hdir).1.shows.exists_table
  have hscan : exec (scanEdges capacity vid direction labelFilter) s = (sideEntries m labelFilter, s) := by
    simp [scanEdges, hdir, exec_scanSide (h.sides vid direction hdir).shown hm labelFilter]
  rw [hscan]
  exact ⟨sideEntries_perm hnodup hm labelFilter, rfl⟩

/-- Without a filter every row of a side is an entry. -/
theorem length_sideEntries_none (m : Table) : (sideEntries m none).length = m.size := by
  have hpass : m.entries.filter (rowPasses none) = m.entries := filter_eq_self.mpr fun _ _ => rfl
  rw [sideEntries, hpass, length_map, size]

lemma exec_countDegree (h : StoreOk capacity s (liveEdges edges))
    (hplain : StoreOk 0 plain (liveEdges edges)) (vid : VertexId) (direction : Direction)
    (labelFilter : Option EdgeLabelId) :
    (exec (countDegree capacity vid direction labelFilter) s).1 =
      UInt64.ofNat (plainEntries plain vid direction labelFilter).length := by
  by_cases hcounted : 0 < capacity ∧ direction ≠ .BOTH ∧ labelFilter = none
  · obtain ⟨hcap, hdir, rfl⟩ := hcounted
    simp only [countDegree, hcap, hdir, ne_eq, not_false_eq_true, and_self, if_true, exec_bind,
      exec_getAdjacencyState]
    split
    · -- the counter of a `COMPLETE` side is the number of its rows
      rename_i count hstate
      obtain ⟨hcached, -, hsize⟩ := (h.sides vid direction hdir).1.complete hstate
      have heq : cachedRows s vid direction = indexRows plain vid direction :=
        SortedMap.ext_get fun rest => by rw [hcached, hplain.indexRows_get vid hdir]
      rw [plainEntries, if_neg hdir, length_sideEntries_none, ← heq, ← hsize, exec_pure]
      simp
    · rw [exec_bind, exec_scanEdges h hplain]
      rfl
  · simp only [countDegree, hcounted, if_false, exec_bind, exec_pure, exec_scanEdges h hplain]

end Reads

/-! ### Runs -/

inductive StoreOp
  | insertVertex (vid : VertexId) (labelProps : LabelProps)
  | insertEdge (e : EdgeRef) (props : Properties)
  | deleteEdge (e : EdgeRef)
  | deleteVertex (vid : VertexId)
  | dropEdgeLabel (labelId : EdgeLabelId)

def StoreOp.program (capacity : UInt32) : StoreOp → StoreM Bool
  | .insertVertex vid labelProps => DataStore.insertVertex capacity vid labelProps
  | .insertEdge e props => DataStore.insertEdge capacity e props
  | .deleteEdge e => DataStore.deleteEdge capacity e
  | .deleteVertex vid => DataStore.deleteVertex vid
  | .dropEdgeLabel labelId => DataStore.dropEdgeLabel labelId

/-- A store with the cache, the store of the same run without it, and the live edges. -/
structure CacheRun where
  cached : Store
  plain : Store
  edges : List EdgeRef

open CacheRun

def CacheRun.start : CacheRun := ⟨Store.empty, Store.empty, []⟩

/-- The edges that are live after an operation. -/
def StoreOp.edgesAfter (edges : List EdgeRef) : StoreOp → List EdgeRef
  | .insertEdge e _ => e :: edges
  | .deleteEdge e => edges.filter fun e' => e'.key ≠ e.key
  | .dropEdgeLabel labelId => edges.filter fun e' => e'.key.labelId ≠ labelId
  | _ => edges

def touches (e : EdgeRef) (vid : VertexId) : Bool := e.src = vid || e.dst = vid

/-- The operations of a run: live edges are deleted, detached vertices are deleted, and
the 16-bit loops over property vectors end. -/
def StoreOp.admissible (edges : List EdgeRef) : StoreOp → Bool
  | .insertVertex _ labelProps => labelProps.all fun group => group.2.length < 2 ^ 16
  | .insertEdge _ props => props.length < 2 ^ 16
  | .deleteEdge e => e ∈ edges
  | .deleteVertex vid => edges.all fun e => !touches e vid
  | .dropEdgeLabel _ => true

def CacheRun.step (capacity : UInt32) (r : CacheRun) (op : StoreOp) : Option CacheRun :=
  if op.admissible r.edges then
    some {
      cached := (exec (op.program capacity) r.cached).2
      plain := (exec (op.program 0) r.plain).2
      edges := op.edgesAfter r.edges }
  else none

/-- No vertex with live edges is inserted again, and no edge under a live edge's key. -/
def CacheRun.freshInserts (capacity : UInt32) (r : CacheRun) : StoreOp → Prop
  | .insertVertex vid _ => capacity = 0 ∨ ∀ e ∈ r.edges, touches e vid = false
  | .insertEdge e _ => ∀ e' ∈ r.edges, e'.key ≠ e.key
  | _ => True

instance (capacity : UInt32) (r : CacheRun) (op : StoreOp) :
    Decidable (r.freshInserts capacity op) := by
  cases op
  all_goals unfold freshInserts
  all_goals infer_instance

/-- The number of cached adjacency keys of a side. -/
def cachedKeyCount (s : Store) (vid : VertexId) (direction : Direction) : Nat :=
  ((prefixRecords (s .vertexData) (encodeVertexDataAdjPrefix vid direction)).filter fun row =>
    !isVertexDataAdjStateKey row.1).length

/-- The cache cannot be seen, and each side's state row is right. -/
structure CacheRun.Invisible (capacity : UInt32) (r : CacheRun) : Prop where
  scan : ∀ vid direction labelFilter,
    (exec (scanEdges capacity vid direction labelFilter) r.cached).1.Perm
      (incident r.edges vid direction labelFilter)
  scan_plain : ∀ vid direction labelFilter,
    (exec (scanEdges capacity vid direction labelFilter) r.cached).1 =
      (exec (scanEdges 0 vid direction labelFilter) r.plain).1
  degree : ∀ vid direction labelFilter,
    (exec (countDegree capacity vid direction labelFilter) r.cached).1 =
      UInt64.ofNat (incident r.edges vid direction labelFilter).length
  degree_plain : ∀ vid direction labelFilter,
    (exec (countDegree capacity vid direction labelFilter) r.cached).1 =
      (exec (countDegree 0 vid direction labelFilter) r.plain).1
  complete : ∀ vid direction count, direction ≠ .BOTH →
    (exec (getAdjacencyState vid direction) r.cached).1 = some (.COMPLETE, count) →
    count.toNat = cachedKeyCount r.cached vid direction ∧
      prefixRecords (r.cached .edgeIndex) (encodeEdgeIndexPrefix vid direction) = []
  overflow : ∀ vid direction count, direction ≠ .BOTH →
    (exec (getAdjacencyState vid direction) r.cached).1 = some (.OVERFLOW, count) →
    cachedKeyCount r.cached vid direction = 0

/-- Both stores present exactly the live edges, whose keys are distinct. -/
structure CacheRun.Inv (capacity : UInt32) (r : CacheRun) : Prop where
  cached : StoreOk capacity r.cached (liveEdges r.edges)
  plain : StoreOk 0 r.plain (liveEdges r.edges)
  nodup : (r.edges.map key).Nodup

lemma storeOk_empty (capacity : UInt32) : StoreOk capacity Store.empty (liveEdges []) := by
  have hrows : ∀ vid direction, sideRows (liveEdges []) vid direction = fun _ => none := by
    intro vid direction
    exact Detached.sideRows (fun k _ => rfl) direction
  refine ⟨fun vid direction _ => ⟨?_, wellFormedRows_sideRows _ _ _, fun _ => rfl⟩, ?_⟩
  · rw [hrows]
    exact SideInv.of_empty (fun rest => rfl) (fun rest => rfl) (fun count h => absurd h (by
      simp [sideState, Store.get, Store.empty]))
  · intro labelId key
    simp only [typeRows, liveEdges, find?_nil, map_none, ite_self]
    rfl

lemma CacheRun.inv_start (capacity : UInt32) : start.Inv capacity :=
  ⟨storeOk_empty capacity, storeOk_empty 0, nodup_nil⟩

lemma detached_liveEdges {edges : List EdgeRef} {vid : VertexId}
    (h : ∀ e ∈ edges, touches e vid = false) : Detached (liveEdges edges) vid := by
  intro k hk
  rw [liveEdges_eq_none]
  rintro e he rfl
  have hno := h e he
  simp only [touches, Bool.or_eq_false_iff, decide_eq_false_iff_not] at hno
  rcases hk with hk | hk
  · exact hno.1 hk
  · exact hno.2 hk

/-- One operation on a store of any capacity. -/
theorem StoreOk.step {capacity : UInt32} {s : Store} {edges : List EdgeRef}
    (h : StoreOk capacity s (liveEdges edges)) (hnodup : (edges.map key).Nodup)
    (op : StoreOp) (hadm : op.admissible edges = true)
    (hvertex : ∀ vid labelProps, op = .insertVertex vid labelProps →
      capacity = 0 ∨ ∀ e ∈ edges, touches e vid = false)
    (hedge : ∀ e props, op = .insertEdge e props → ∀ e' ∈ edges, e'.key ≠ e.key) :
    StoreOk capacity (exec (op.program capacity) s).2 (liveEdges (op.edgesAfter edges)) := by
  cases op with
  | insertVertex vid labelProps =>
    exact h.insertVertex ((hvertex vid labelProps rfl).imp_right detached_liveEdges) labelProps
  | insertEdge e props =>
    rw [StoreOp.edgesAfter, liveEdges_cons]
    exact (h.insertEdge (liveEdges_eq_none.mpr (hedge e props rfl)) props).2
  | deleteEdge e =>
    have hlive := (liveEdges_eq_some hnodup).mpr ⟨e, by simpa [StoreOp.admissible] using hadm,
      rfl, rfl⟩
    rw [StoreOp.edgesAfter, liveEdges_filter_ne]
    exact (h.deleteEdge (by rw [hlive]; rfl)).2
  | deleteVertex vid =>
    refine h.deleteVertex (detached_liveEdges fun e he => ?_)
    simp only [StoreOp.admissible, List.all_eq_true, Bool.not_eq_true'] at hadm
    exact hadm e he
  | dropEdgeLabel labelId =>
    have hafter : liveEdges ((StoreOp.dropEdgeLabel labelId).edgesAfter edges) =
        dropLabelEdges (liveEdges edges) labelId := by
      funext k
      have hfilter := liveEdges_filter (fun k => k.labelId ≠ labelId) edges k
      rw [StoreOp.edgesAfter, hfilter, dropLabelEdges]
      by_cases hk : k.labelId = labelId
      · simp [hk]
      · simp [hk]
    rw [hafter]
    exact (h.dropEdgeLabel labelId).2

lemma CacheRun.inv_step {capacity : UInt32} {r r' : CacheRun} {op : StoreOp}
    (h : r.Inv capacity) (hfresh : r.freshInserts capacity op)
    (hstep : r.step capacity op = some r') : r'.Inv capacity := by
  unfold step at hstep
  split at hstep <;> cases hstep
  rename_i hadm
  have hedge : ∀ e props, op = .insertEdge e props → ∀ e' ∈ r.edges, e'.key ≠ e.key := by
    rintro e props rfl
    exact hfresh
  refine ⟨h.cached.step h.nodup op hadm ?_ hedge, h.plain.step h.nodup op hadm ?_ hedge, ?_⟩
  · rintro vid labelProps rfl
    exact hfresh
  · exact fun _ _ _ => Or.inl rfl
  · cases op with
    | insertEdge e props =>
      refine nodup_cons.mpr ⟨fun hmem => ?_, h.nodup⟩
      obtain ⟨e', he', hkey⟩ := mem_map.mp hmem
      exact hedge e props rfl e' he' hkey
    | deleteEdge e => exact h.nodup.sublist (filter_sublist.map _)
    | dropEdgeLabel labelId => exact h.nodup.sublist (filter_sublist.map _)
    | insertVertex vid labelProps => exact h.nodup
    | deleteVertex vid => exact h.nodup

lemma cachedKeyCount_eq (s : Store) (vid : VertexId) (direction : Direction) :
    cachedKeyCount s vid direction = (cachedRows s vid direction).size := by
  rw [cachedKeyCount, cachedRows_scan, length_map, size]

lemma CacheRun.Inv.invisible {capacity : UInt32} {r : CacheRun} (h : r.Inv capacity) : r.Invisible capacity := by
  have hcached := exec_scanEdges h.cached h.plain
  have hplain := exec_scanEdges h.plain h.plain
  have hperm := plainEntries_perm h.plain h.nodup
  constructor
  · intro vid direction labelFilter
    rw [hcached]
    exact hperm vid direction labelFilter
  · intro vid direction labelFilter
    rw [hcached, hplain]
  · intro vid direction labelFilter
    rw [exec_countDegree h.cached h.plain, (hperm vid direction labelFilter).length_eq]
  · intro vid direction labelFilter
    rw [exec_countDegree h.cached h.plain, exec_countDegree h.plain h.plain]
  · intro vid direction count hdir hstate
    rw [exec_getAdjacencyState] at hstate
    obtain ⟨-, hindex, hsize⟩ := (h.cached.sides vid direction hdir).1.complete hstate
    refine ⟨by rw [hsize, cachedKeyCount_eq], ?_⟩
    have hempty : indexRows r.cached vid direction = empty :=
      SortedMap.ext_get fun rest => (hindex rest).trans (get_empty rest).symm
    rw [prefixRecords_eq_under]
    change (indexRows r.cached vid direction).entries.map _ = []
    rw [hempty]
    rfl
  · intro vid direction count hdir hstate
    rw [exec_getAdjacencyState] at hstate
    have hother : ∀ c, sideState r.cached vid direction ≠ some (.COMPLETE, c) := by
      intro c hc
      rw [hc] at hstate
      exact absurd hstate (by simp)
    obtain ⟨hnone, -⟩ := (h.cached.sides vid direction hdir).1.indexed hother
    have hempty : cachedRows r.cached vid direction = empty :=
      SortedMap.ext_get fun rest => (hnone rest).trans (get_empty rest).symm
    rw [cachedKeyCount_eq, hempty]
    rfl

/-- In every run that inserts no vertex with live edges again and no edge under a live
edge's key, the cache cannot be seen in any state. -/
theorem adjacencyCache_invisible (capacity : UInt32) (r : CacheRun)
    (hrun : Reaches (step capacity) (freshInserts capacity) start r) :
    r.Invisible capacity :=
  (hrun.invariant (CacheRun.Inv capacity) (inv_start capacity)
    fun _ _ _ h hfresh hstep => inv_step h hfresh hstep).invisible

/-- Two parallel edges of vertex `1`. -/
def parallelEdge (eid : EdgeId) : EdgeRef := ⟨eid, 1, 2, 1, eid⟩

/-- A run through every operation, with a promotion at the second edge. -/
def promotingRun : List StoreOp :=
  [.insertVertex 1 [], .insertVertex 2 [], .insertEdge (parallelEdge 1) [],
    .insertEdge (parallelEdge 2) [], .deleteEdge (parallelEdge 1), .insertEdge (parallelEdge 3) [],
    .dropEdgeLabel 1, .deleteVertex 2, .insertVertex 2 []]

theorem adjacencyCache_invisible_promotingRun :
    ∃ r, runGuarded (step 1) (freshInserts 1) start promotingRun = some r ∧ r.Invisible 1 := by
  have hsome : (runGuarded (step 1) (freshInserts 1) start promotingRun).isSome := by decide +kernel
  obtain ⟨r, hr⟩ := isSome_iff_exists.mp hsome
  exact ⟨r, hr, adjacencyCache_invisible 1 r (reaches_of_runGuarded promotingRun hr)⟩

/-- Inserting vertex `1` once more marks its promoted side `COMPLETE` again. -/
def reinsertingRun : List StoreOp :=
  [.insertVertex 1 [], .insertEdge (parallelEdge 1) [], .insertEdge (parallelEdge 2) [],
    .insertVertex 1 []]

/-- The two edges are then hidden from `scanEdges`. -/
theorem reinsertVertex_hides_edges :
    ∃ r, Reaches (CacheRun.step 1) (fun _ _ => True) CacheRun.start r ∧ r.edges = [parallelEdge 2, parallelEdge 1] ∧
      (exec (scanEdges 1 1 .OUT none) r.cached).1 = [] ∧ ¬ r.Invisible 1 := by
  have hscan : (runGuarded (CacheRun.step 1) (fun _ _ => True) CacheRun.start reinsertingRun).map
      (fun r => (r.edges, (exec (scanEdges 1 1 .OUT none) r.cached).1)) =
        some ([parallelEdge 2, parallelEdge 1], []) := by decide +kernel
  obtain ⟨r, hr, heq⟩ := map_eq_some_iff.mp hscan
  obtain ⟨hedges, hempty⟩ := Prod.mk.inj heq
  refine ⟨r, reaches_of_runGuarded reinsertingRun hr, hedges, hempty, fun hinv => ?_⟩
  have hperm := hinv.scan 1 .OUT none
  rw [hempty, hedges] at hperm
  exact absurd hperm.length_eq (by decide)

end Eugraph.DataStore
