import Eugraph.Storage.AdjacencyRuns
import Eugraph.Storage.StoreRuns

/-!
# The read paths of edges

`scanEdges` asks for the state row of a side and then scans one table.  The cursors of
`createEdgeScanCursor` and `scanEdgesBatch` position themselves at the side's prefix in
`vertex_data` and read the state row as the first row they meet; `scanEdgesExact` seeks one
neighbour.
-/

namespace Eugraph.DataStore

open Lib Lib.Program Wt KeyCodec List Option IndexKeyCodec Store Or

/-! ### Cursors -/

/-- The position after `search_near` on a prefix; `none` is `WT_NOTFOUND`. -/
def seekPrefix (engine : Engine) (t : Table) (pre : Bytes) : Option Cursor :=
  (searchNear engine t pre).map fun (exact, cursor) => if exact = .lt then cursor.tail else cursor

/-- What an `EdgeScanCursorImpl` yields from its position on. -/
def indexedEntries (pre : Bytes) : Cursor → List EdgeIndexEntry
  | [] => []
  | (key, value) :: rest =>
    if pre.isPrefixOf key then indexEntry (decodeEdgeIndexKey key) value :: indexedEntries pre rest
    else []

/-- `createEdgeIndexScanCursor`.  On an empty table `next` finds nothing either. -/
def createEdgeIndexScanCursor (engine : Engine) (s : Store) (vid : VertexId) (direction : Direction)
    (label_filter : Option EdgeLabelId) : List EdgeIndexEntry :=
  let pre := indexScanPrefix vid direction label_filter
  indexedEntries pre ((seekPrefix engine (s .edgeIndex) pre).getD [])

/-- What a `VertexDataEdgeScanCursor` yields: `readCurrent` skips state keys and other
labels. -/
def cachedEntries (pre : Bytes) (label_filter : Option EdgeLabelId) : Cursor → List EdgeIndexEntry
  | [] => []
  | (key, value) :: rest =>
    if ¬ pre.isPrefixOf key then []
    else if isVertexDataAdjStateKey key then cachedEntries pre label_filter rest
    else
      let k := decodeVertexDataAdjEdgeKey key
      if passesFilter label_filter k.edgeLabelId then
        indexEntry k value :: cachedEntries pre label_filter rest
      else cachedEntries pre label_filter rest

/-- The constructor of `VertexDataEdgeScanCursor`; `none` when `cacheUsable()` is false. -/
def vertexDataEdgeScanCursor (engine : Engine) (s : Store) (vid : VertexId) (direction : Direction)
    (label_filter : Option EdgeLabelId) : Option (List EdgeIndexEntry) :=
  let pre := encodeVertexDataAdjPrefix vid direction
  match seekPrefix engine (s .vertexData) pre with
  | none => none
  | some [] => none
  | some ((state_key, value) :: rest) =>
    -- no row of the side: taken for a `COMPLETE` side with zero edges
    if ¬ pre.isPrefixOf state_key then some []
    else if ¬ isVertexDataAdjStateKey state_key then none
    else if (decodeAdjacencyState value).1 = .COMPLETE then
      some (cachedEntries pre label_filter rest)
    else none

section ReadPaths

variable (engine : Engine) (capacity : UInt32) (s : Store)

/-- What the callback of `scanEdges` is given. -/
def scanned (vid : VertexId) (direction : Direction) (label_filter : Option EdgeLabelId) :
    List EdgeIndexEntry :=
  (exec (scanEdges capacity vid direction label_filter) s).1

/-- What the cursor of `createEdgeScanCursor` yields. -/
def createEdgeScanCursor (vid : VertexId) (direction : Direction) (label_filter : Option EdgeLabelId) :
    List EdgeIndexEntry :=
  if direction = .BOTH then scanned capacity s vid direction label_filter
  else if 0 < capacity then
    (vertexDataEdgeScanCursor engine s vid direction label_filter).getD
      (createEdgeIndexScanCursor engine s vid direction label_filter)
  else createEdgeIndexScanCursor engine s vid direction label_filter

/-- One direction of `scanEdgesBatch`; without the cache one cursor seeks every source. -/
def scanSideBatch (src_ids : List VertexId) (direction : Direction)
    (label_filter : Option EdgeLabelId) : List (VertexId × EdgeIndexEntry) :=
  if 0 < capacity then
    src_ids.flatMap fun vid =>
      (createEdgeScanCursor engine capacity s vid direction label_filter).map fun e => (vid, e)
  else
    src_ids.flatMap fun vid =>
      let pre := indexScanPrefix vid direction label_filter
      match seekPrefix engine (s .edgeIndex) pre with
      | none => []
      | some cursor => (indexedEntries pre cursor).map fun e => (vid, e)

def scanEdgesBatch (src_ids : List VertexId) (direction : Direction)
    (label_filter : Option EdgeLabelId) : List (VertexId × EdgeIndexEntry) :=
  if direction = .BOTH then
    scanSideBatch engine capacity s src_ids .OUT label_filter ++
      scanSideBatch engine capacity s src_ids .IN label_filter
  else scanSideBatch engine capacity s src_ids direction label_filter

/-- `encodeEdgeIndexPrefix(vertex_id, direction, label_id, neighbor_id)`. -/
def encodeEdgeIndexNeighborPrefix (vid : VertexId) (direction : Direction) (label_id : EdgeLabelId)
    (neighbor_id : VertexId) : Bytes :=
  sectionKey vid (directionByte direction) (u16BE label_id ++ u64BE neighbor_id)

def scanEdgesExact (vid : VertexId) (direction : Direction) (label_id : EdgeLabelId)
    (neighbor_id : VertexId) : List EdgeIndexEntry :=
  if 0 < capacity then
    (scanned capacity s vid direction (some label_id)).filter fun e => e.neighborId = neighbor_id
  else
    (prefixRecords (s .edgeIndex)
      (encodeEdgeIndexNeighborPrefix vid direction label_id neighbor_id)).map fun row =>
        indexEntry (decodeEdgeIndexKey row.1) row.2

/-- Every path returns the entries of `scanEdges`, the exact one those of its neighbour. -/
structure ReadPathsAgree (vid : VertexId) (direction : Direction)
    (label_filter : Option EdgeLabelId) : Prop where
  cursor : ∀ x, x ∈ createEdgeScanCursor engine capacity s vid direction label_filter ↔
    x ∈ scanned capacity s vid direction label_filter
  batch : ∀ src_ids, vid ∈ src_ids → ∀ x,
    (vid, x) ∈ scanEdgesBatch engine capacity s src_ids direction label_filter ↔
      x ∈ scanned capacity s vid direction label_filter
  exact : ∀ label_id neighbor_id, label_filter = some label_id → ∀ x,
    x ∈ scanEdgesExact capacity s vid direction label_id neighbor_id ↔
      x ∈ scanned capacity s vid direction label_filter ∧ x.neighborId = neighbor_id

end ReadPaths

/-! ### When the cursor is misled -/

/-- A vertex with a larger id has a row in `vertex_data`. -/
def LaterRow (s : Store) (vid : VertexId) : Prop :=
  ∃ vid' sec rest, vid < vid' ∧ (s.get .vertexData (sectionKey vid' sec rest)).isSome

/-- The vertex has no state row, and the cursor meets the row of a later vertex instead. -/
def CursorMisled (capacity : UInt32) (s : Store) (vid : VertexId) : Prop :=
  0 < capacity ∧ ¬ Marked s vid ∧ LaterRow s vid

/-- The sides a direction reads. -/
def readSides : Direction → List Direction
  | .BOTH => [.OUT, .IN]
  | direction => [direction]

/-- `edge_index` has no row of the sides that are read. -/
def NothingIndexed (s : Store) (vid : VertexId) (direction : Direction)
    (label_filter : Option EdgeLabelId) : Prop :=
  ∀ d ∈ readSides direction, prefixRecords (s .edgeIndex) (indexScanPrefix vid d label_filter) = []

/-- `scanEdgesExact` without the cache is asked for both directions at once. -/
def ExactOfBoth (capacity : UInt32) (direction : Direction) (label_filter : Option EdgeLabelId) :
    Prop :=
  capacity = 0 ∧ direction = .BOTH ∧ label_filter ≠ none

section Seeking

variable (engine : Engine) {s : Store} {vid : VertexId} {direction : Direction}

lemma seekPrefix_getD (t : Table) (pre : Bytes) : (seekPrefix engine t pre).getD [] = recordsFrom t pre false := by
  have hposition := searchNear_position engine t pre false
  rw [← hposition, seekPrefix]
  cases searchNear engine t pre with
  | none => rfl
  | some found =>
    obtain ⟨cmp, cursor⟩ := found
    simp

lemma indexedEntries_eq (pre : Bytes) (cursor : Cursor) :
    indexedEntries pre cursor = (cursor.takeWhile fun e => pre.isPrefixOf e.1).map fun row =>
      indexEntry (decodeEdgeIndexKey row.1) row.2 := by
  induction cursor with
  | nil => rfl
  | cons row rest ih =>
    obtain ⟨key, value⟩ := row
    rw [indexedEntries, takeWhile_cons]
    split
    · rw [ih]
      rfl
    · rfl

/-- The cursor over `edge_index` yields what the scan of it is given. -/
theorem createEdgeIndexScanCursor_eq (label_filter : Option EdgeLabelId) :
    createEdgeIndexScanCursor engine s vid direction label_filter =
      (exec (scanIndexedEdges vid direction label_filter) s).1 := by
  simp only [createEdgeIndexScanCursor, seekPrefix_getD, indexedEntries_eq,
    takeWhile_prefix_recordsFrom, scanIndexedEdges, exec_bind, exec_tableScan, exec_pure]

lemma cachedEntries_eq (pre : Bytes) (label_filter : Option EdgeLabelId) (cursor : Cursor) :
    cachedEntries pre label_filter cursor =
      (((cursor.takeWhile fun e => pre.isPrefixOf e.1).filter fun row =>
        !isVertexDataAdjStateKey row.1).map fun row =>
          (decodeVertexDataAdjEdgeKey row.1, row.2)).filterMap fun row =>
            if passesFilter label_filter row.1.edgeLabelId then some (indexEntry row.1 row.2)
            else none := by
  induction cursor with
  | nil => rfl
  | cons row rest ih =>
    obtain ⟨key, value⟩ := row
    rw [cachedEntries, takeWhile_cons]
    by_cases hpre : pre.isPrefixOf key = true
    · by_cases hstate : isVertexDataAdjStateKey key = true
      · simp [hpre, hstate, ih]
      · by_cases hpass : passesFilter label_filter (decodeVertexDataAdjEdgeKey key).edgeLabelId = true
        · simp [hpre, hstate, hpass, ih]
        · simp [hpre, hstate, hpass, ih]
    · simp [hpre]

/-- A state row is the first row of its side. -/
theorem recordsFrom_state {value : Bytes}
    (hget : s.get .vertexData (encodeVertexDataAdjStateKey vid direction) = some value) :
    ∃ rest, recordsFrom (s .vertexData) (encodeVertexDataAdjPrefix vid direction) false =
      (encodeVertexDataAdjStateKey vid direction, value) :: rest := by
  have hmem : (encodeVertexDataAdjStateKey vid direction, value) ∈
      recordsFrom (s .vertexData) (encodeVertexDataAdjPrefix vid direction) false := by
    rw [recordsFrom, mem_filter]
    exact ⟨(SortedMap.mem_entries_iff _ _ _).mpr hget, by simp [encodeVertexDataAdjPrefix]⟩
  have hsorted : (recordsFrom (s .vertexData) (encodeVertexDataAdjPrefix vid direction) false).Pairwise
      fun a b => a.1 < b.1 := (s .vertexData).sorted.filter _
  have hfrom : ∀ e ∈ recordsFrom (s .vertexData) (encodeVertexDataAdjPrefix vid direction) false,
      encodeVertexDataAdjStateKey vid direction ≤ e.1 := by
    intro e he
    have hle := (mem_filter.mp he).2
    simp only [Bool.false_eq_true, if_false, decide_eq_true_eq] at hle
    exact hle
  cases hrecords : recordsFrom (s .vertexData) (encodeVertexDataAdjPrefix vid direction) false with
  | nil =>
    rw [hrecords] at hmem
    cases hmem
  | cons first rest =>
    rw [hrecords] at hmem hsorted hfrom
    rcases mem_cons.mp hmem with heq | hin
    · exact ⟨rest, by rw [heq]⟩
    · have hlt := (pairwise_cons.mp hsorted).1 _ hin
      exact absurd hlt (not_lt.mpr (hfrom first mem_cons_self))

/-- The cursor decides by the first row at or after the prefix. -/
theorem vertexDataEdgeScanCursor_eq (label_filter : Option EdgeLabelId) :
    vertexDataEdgeScanCursor engine s vid direction label_filter =
      match recordsFrom (s .vertexData) (encodeVertexDataAdjPrefix vid direction) false with
      | [] => none
      | (state_key, value) :: rest =>
        if ¬ (encodeVertexDataAdjPrefix vid direction).isPrefixOf state_key then some []
        else if ¬ isVertexDataAdjStateKey state_key then none
        else if (decodeAdjacencyState value).1 = .COMPLETE then
          some (cachedEntries (encodeVertexDataAdjPrefix vid direction) label_filter rest)
        else none := by
  rw [← seekPrefix_getD engine, vertexDataEdgeScanCursor]
  cases seekPrefix engine (s .vertexData) (encodeVertexDataAdjPrefix vid direction) with
  | none => rfl
  | some cursor =>
    cases cursor with
    | nil => rfl
    | cons row rest => rfl

/-- With a state row the cursor is usable on a `COMPLETE` side and yields its cached edges. -/
theorem vertexDataEdgeScanCursor_marked {state : AdjacencyCacheState} {count : UInt32}
    (hstate : sideState s vid direction = some (state, count)) (label_filter : Option EdgeLabelId) :
    vertexDataEdgeScanCursor engine s vid direction label_filter =
      if state = .COMPLETE then some (exec (scanCachedEdges vid direction label_filter) s).1
      else none := by
  obtain ⟨value, hget, hdecode⟩ := map_eq_some_iff.mp hstate
  obtain ⟨rest, hrecords⟩ := recordsFrom_state hget
  have hpre : (encodeVertexDataAdjPrefix vid direction).isPrefixOf
      (encodeVertexDataAdjStateKey vid direction) = true :=
    isPrefixOf_iff_prefix.mpr (prefix_refl _)
  have hkey : isVertexDataAdjStateKey (encodeVertexDataAdjStateKey vid direction) = true := by
    simp [isVertexDataAdjStateKey, encodeVertexDataAdjStateKey]
  -- the state row is skipped, so the entries are those of the whole side
  have hentries : cachedEntries (encodeVertexDataAdjPrefix vid direction) label_filter rest =
      (exec (scanCachedEdges vid direction label_filter) s).1 := by
    have hskip : cachedEntries (encodeVertexDataAdjPrefix vid direction) label_filter
        ((encodeVertexDataAdjStateKey vid direction, value) :: rest) =
          cachedEntries (encodeVertexDataAdjPrefix vid direction) label_filter rest := by
      simp [cachedEntries, hpre, hkey]
    rw [← hskip, ← hrecords, cachedEntries_eq, takeWhile_prefix_recordsFrom]
    simp only [scanCachedEdges, exec_bind, exec_tableScan, exec_pure]
  rw [vertexDataEdgeScanCursor_eq, hrecords]
  simp only [hpre, hkey, hdecode, hentries, not_true_eq_false, if_false]

/-- From the prefix of a bare side on there are the rows of later vertices only. -/
theorem recordsFrom_bare (hrows : VertexRowsOk s) (hbare : Bare s vid) (hdir : direction ≠ .BOTH) {row : Record}
    (hrow : row ∈ recordsFrom (s .vertexData) (encodeVertexDataAdjPrefix vid direction) false) :
    ∃ vid' sec rest, vid < vid' ∧ row.1 = sectionKey vid' sec rest := by
  obtain ⟨hentry, hle⟩ := mem_filter.mp hrow
  have hget : s.get .vertexData row.1 = some row.2 := (SortedMap.mem_entries_iff _ _ _).mp hentry
  simp only [Bool.false_eq_true, if_false, decide_eq_true_eq] at hle
  have hlater : ∀ vid' sec rest, row.1 = sectionKey vid' sec rest →
      (vid' = vid → sec < (adjacencyKind direction).byte) →
      ∃ vid' sec rest, vid < vid' ∧ row.1 = sectionKey vid' sec rest := by
    intro vid' sec rest hkey hsection
    refine ⟨vid', sec, rest, ?_, hkey⟩
    by_contra hnot
    rw [hkey, encodeVertexDataAdjPrefix, encodeVertexDataAdjStateKey, ← not_lt] at hle
    apply hle
    rw [sectionKey, sectionKey, append_lt_append_iff (by simp)]
    rcases lt_or_eq_of_le (UInt64.le_iff_toNat_le.mp (UInt64.not_lt.mp hnot)) with hlt | heq
    · left
      exact u64BE_lt_iff.mpr hlt
    · right
      have hvid : vid' = vid := UInt64.toNat_inj.mp heq
      exact ⟨by rw [hvid], cons_lt_cons_iff.mpr (inl (hsection hvid))⟩
  have hbyte : VertexDataKind.PROPERTY.byte < (adjacencyKind direction).byte := by
    cases direction
    · decide
    · decide
    · exact absurd rfl hdir
  rcases hrows row.1 row.2 hget with ⟨vid', l, hkey⟩ | ⟨vid', l, p, v, hkey, -⟩ | ⟨vid', kind, rest, hkind, hkey⟩
  · exact hlater vid' _ _ hkey fun _ => lt_trans (by decide) hbyte
  · exact hlater vid' _ _ hkey fun _ => hbyte
  · refine hlater vid' _ _ hkey fun hvid => ?_
    -- adjacency rows of the vertex itself are excluded
    exfalso
    rw [hkey, hvid] at hget
    rcases hkind with rfl | rfl
    · rw [show VertexDataKind.OUT_ADJACENCY.byte = (adjacencyKind .OUT).byte from rfl, hbare] at hget
      cases hget
    · rw [show VertexDataKind.IN_ADJACENCY.byte = (adjacencyKind .IN).byte from rfl, hbare] at hget
      cases hget

/-- Without a state row the cursor is usable exactly when a later vertex has a row. -/
theorem vertexDataEdgeScanCursor_bare (hrows : VertexRowsOk s) (hbare : Bare s vid)
    (hdir : direction ≠ .BOTH) (label_filter : Option EdgeLabelId) :
    (LaterRow s vid → vertexDataEdgeScanCursor engine s vid direction label_filter = some []) ∧
      (¬ LaterRow s vid → vertexDataEdgeScanCursor engine s vid direction label_filter = none) := by
  rw [vertexDataEdgeScanCursor_eq]
  have hfrom (row : Record)
      (hrow : row ∈ recordsFrom (s .vertexData) (encodeVertexDataAdjPrefix vid direction) false) :
      ∃ vid' sec rest, vid < vid' ∧ row.1 = sectionKey vid' sec rest :=
    recordsFrom_bare hrows hbare hdir hrow
  cases hrecords : recordsFrom (s .vertexData) (encodeVertexDataAdjPrefix vid direction) false with
  | nil =>
    refine ⟨fun hlater => ?_, fun _ => rfl⟩
    obtain ⟨vid', sec, rest, hlt, hsome⟩ := hlater
    obtain ⟨value, hget⟩ := isSome_iff_exists.mp hsome
    have hmem : (sectionKey vid' sec rest, value) ∈
        recordsFrom (s .vertexData) (encodeVertexDataAdjPrefix vid direction) false := by
      rw [recordsFrom, mem_filter]
      refine ⟨(SortedMap.mem_entries_iff _ _ _).mpr hget, ?_⟩
      have hle : encodeVertexDataAdjPrefix vid direction ≤ sectionKey vid' sec rest := by
        apply le_of_lt
        rw [encodeVertexDataAdjPrefix, encodeVertexDataAdjStateKey, sectionKey, sectionKey,
          append_lt_append_iff (by simp)]
        exact inl (u64BE_lt_iff.mpr hlt)
      simpa using hle
    rw [hrecords] at hmem
    cases hmem
  | cons row rest =>
    obtain ⟨state_key, value⟩ := row
    obtain ⟨vid', sec, rest', hlt, hkey⟩ := hfrom (state_key, value) (by rw [hrecords]; simp)
    have hmem : (state_key, value) ∈ (s .vertexData).entries := by
      have hin : (state_key, value) ∈
          recordsFrom (s .vertexData) (encodeVertexDataAdjPrefix vid direction) false := by
        rw [hrecords]
        exact mem_cons_self
      exact (mem_filter.mp hin).1
    have hget : s.get .vertexData state_key = some value := (SortedMap.mem_entries_iff _ _ _).mp hmem
    have hforeign : ¬ (encodeVertexDataAdjPrefix vid direction).isPrefixOf state_key = true := by
      rw [ isPrefixOf_iff_prefix]
      rw [show state_key = sectionKey vid' sec rest' from hkey, encodeVertexDataAdjPrefix,
        encodeVertexDataAdjStateKey, sectionKey_isPrefix_iff]
      rintro ⟨rfl, -⟩
      exact UInt64.lt_irrefl _ hlt
    refine ⟨fun _ => if_pos hforeign, fun hnone => ?_⟩
    refine absurd ⟨vid', sec, rest', hlt, ?_⟩ hnone
    rw [← show state_key = sectionKey vid' sec rest' from hkey, hget]
    rfl

end Seeking

/-! ### What each path returns -/

section Agreement

variable {engine : Engine} {capacity : UInt32} {s : Store} {vid : VertexId} {direction : Direction}

lemma AdjacencyOk.bare (h : AdjacencyOk s) (hnot : ¬ Marked s vid) : Bare s vid := (h.sides vid).resolve_left hnot

lemma sideState_of_bare (h : Bare s vid) : sideState s vid direction = none := by
  rw [sideState, encodeVertexDataAdjStateKey, h direction, map_none]

lemma scanned_single (hdir : direction ≠ .BOTH) (label_filter : Option EdgeLabelId) :
    scanned capacity s vid direction label_filter = (exec (scanSide capacity vid direction label_filter) s).1 := by
  rw [scanned, scanEdges, if_neg hdir]

lemma scanSide_readOnly (label_filter : Option EdgeLabelId) :
    (exec (scanSide capacity vid direction label_filter) s).2 = s := by
  refine WritesOnly.readOnly ?_ s
  unfold scanSide
  split
  · refine .bind (.bind (.get _ _ _) fun _ => .pure _) fun state => ?_
    dsimp only
    split
    · exact .bind (.scan _ _ _) fun _ => .pure _
    · exact .bind (.scan _ _ _) fun _ => .pure _
  · refine .bind (.pure _) fun state => ?_
    dsimp only
    split
    · exact .bind (.scan _ _ _) fun _ => .pure _
    · exact .bind (.scan _ _ _) fun _ => .pure _

lemma scanned_both (label_filter : Option EdgeLabelId) : scanned capacity s vid .BOTH label_filter =
      scanned capacity s vid .OUT label_filter ++ scanned capacity s vid .IN label_filter := by
  rw [scanned_single (show Direction.OUT ≠ .BOTH by decide),
    scanned_single (show Direction.IN ≠ .BOTH by decide), scanned, scanEdges, if_pos rfl,
    exec_bind, exec_bind, scanSide_readOnly, exec_pure]

/-- What `scanEdges` returns for a side, by its state row. -/
theorem scanned_indexed (hdir : direction ≠ .BOTH) (label_filter : Option EdgeLabelId)
    (hstate : 0 < capacity → ∀ count, sideState s vid direction ≠ some (.COMPLETE, count)) :
    scanned capacity s vid direction label_filter = (exec (scanIndexedEdges vid direction label_filter) s).1 := by
  rw [scanned_single hdir, scanSide]
  by_cases hpos : 0 < capacity
  · simp only [hpos, if_true, exec_bind, exec_getAdjacencyState]
    split
    · rename_i count heq
      exact absurd heq (hstate hpos count)
    · rfl
  · simp only [hpos, if_false, exec_bind, exec_pure]

lemma scanned_cached (hdir : direction ≠ .BOTH) (label_filter : Option EdgeLabelId)
    (hpos : 0 < capacity) {count : UInt32} (hstate : sideState s vid direction = some (.COMPLETE, count)) :
    scanned capacity s vid direction label_filter = (exec (scanCachedEdges vid direction label_filter) s).1 := by
  rw [scanned_single hdir, scanSide]
  simp only [hpos, if_true, exec_bind, exec_getAdjacencyState, hstate]

/-- A vertex without state rows is scanned in `edge_index`. -/
theorem scanned_unmarked (h : AdjacencyOk s) (hnot : ¬ Marked s vid) (hdir : direction ≠ .BOTH)
    (label_filter : Option EdgeLabelId) :
    scanned capacity s vid direction label_filter = (exec (scanIndexedEdges vid direction label_filter) s).1 := by
  refine scanned_indexed hdir label_filter fun _ count => ?_
  rw [sideState_of_bare (h.bare hnot)]
  simp

lemma createEdgeScanCursor_misled (h : AdjacencyOk s) (hrows : VertexRowsOk s)
    (hdir : direction ≠ .BOTH) (hmisled : CursorMisled capacity s vid)
    (label_filter : Option EdgeLabelId) :
    createEdgeScanCursor engine capacity s vid direction label_filter = [] := by
  obtain ⟨hpos, hnot, hlater⟩ := hmisled
  rw [createEdgeScanCursor, if_neg hdir, if_pos hpos,
    (vertexDataEdgeScanCursor_bare engine hrows (h.bare hnot) hdir label_filter).1 hlater]
  rfl

lemma createEdgeScanCursor_off (hoff : capacity = 0) (hdir : direction ≠ .BOTH)
    (label_filter : Option EdgeLabelId) :
    createEdgeScanCursor engine capacity s vid direction label_filter =
      scanned capacity s vid direction label_filter := by
  have hpos : ¬ 0 < capacity := by simp [hoff]
  rw [createEdgeScanCursor, if_neg hdir, if_neg hpos, createEdgeIndexScanCursor_eq,
    scanned_indexed hdir label_filter]
  exact fun hpos' => absurd hpos' hpos

lemma createEdgeScanCursor_marked (hpos : 0 < capacity) (hdir : direction ≠ .BOTH)
    (hstate : (sideState s vid direction).isSome) (label_filter : Option EdgeLabelId) :
    createEdgeScanCursor engine capacity s vid direction label_filter =
      scanned capacity s vid direction label_filter := by
  obtain ⟨⟨state, count⟩, hstate⟩ := isSome_iff_exists.mp hstate
  rw [createEdgeScanCursor, if_neg hdir, if_pos hpos, createEdgeIndexScanCursor_eq,
    vertexDataEdgeScanCursor_marked engine hstate]
  cases state with
  | COMPLETE =>
    rw [if_pos rfl, getD_some, scanned_cached hdir label_filter hpos hstate]
  | OVERFLOW =>
    rw [if_neg (by simp), getD_none, scanned_indexed hdir label_filter]
    intro _ count'
    rw [hstate]
    simp

lemma createEdgeScanCursor_eq (h : AdjacencyOk s) (hrows : VertexRowsOk s)
    (hdir : direction ≠ .BOTH) (hnot : ¬ CursorMisled capacity s vid)
    (label_filter : Option EdgeLabelId) :
    createEdgeScanCursor engine capacity s vid direction label_filter =
      scanned capacity s vid direction label_filter := by
  by_cases hpos : 0 < capacity
  · by_cases hmarked : Marked s vid
    · apply createEdgeScanCursor_marked hpos hdir
      rw [sideState, isSome_map]
      exact hmarked direction
    · have hnone := (vertexDataEdgeScanCursor_bare engine hrows (h.bare hmarked) hdir
        label_filter).2 fun hlater => hnot ⟨hpos, hmarked, hlater⟩
      rw [createEdgeScanCursor, if_neg hdir, if_pos hpos, createEdgeIndexScanCursor_eq, hnone,
        getD_none, scanned_unmarked h hmarked hdir]
  · exact createEdgeScanCursor_off (by simpa using hpos) hdir label_filter

/-- The batch returns for a source what its cursor yields. -/
theorem mem_scanSideBatch {src_ids : List VertexId} (hvid : vid ∈ src_ids)
    (hdir : direction ≠ .BOTH) (label_filter : Option EdgeLabelId) (x : EdgeIndexEntry) :
    (vid, x) ∈ scanSideBatch engine capacity s src_ids direction label_filter ↔
      x ∈ createEdgeScanCursor engine capacity s vid direction label_filter := by
  have hlist : ∀ found : VertexId → List EdgeIndexEntry,
      (vid, x) ∈ (src_ids.flatMap fun v => (found v).map fun e => (v, e)) ↔ x ∈ found vid := by
    intro found
    simp only [mem_flatMap, List.mem_map, Prod.mk.injEq]
    constructor
    · rintro ⟨v, -, e, he, rfl, rfl⟩
      exact he
    · exact fun hx => ⟨vid, hvid, x, hx, rfl, rfl⟩
  rw [scanSideBatch]
  split
  · exact hlist _
  · rename_i hpos
    rw [createEdgeScanCursor, if_neg hdir, if_neg hpos, ← hlist fun v =>
      createEdgeIndexScanCursor engine s v direction label_filter]
    refine iff_of_eq (congrArg _ (flatMap_congr fun v _ => ?_))
    simp only [createEdgeIndexScanCursor]
    cases seekPrefix engine (s .edgeIndex) (indexScanPrefix v direction label_filter) with
    | none => rfl
    | some cursor => rfl

lemma readSides_single {d : Direction} (hd : d ∈ readSides direction) : d ≠ .BOTH := by
  cases direction <;> simp [readSides] at hd
  · rw [hd]
    decide
  · rw [hd]
    decide
  · rcases hd with rfl | rfl
    all_goals decide

lemma mem_scanned (label_filter : Option EdgeLabelId) (x : EdgeIndexEntry) :
    x ∈ scanned capacity s vid direction label_filter ↔
      ∃ d ∈ readSides direction, x ∈ scanned capacity s vid d label_filter := by
  cases direction with
  | OUT => simp [readSides]
  | IN => simp [readSides]
  | BOTH =>
    rw [scanned_both]
    simp [readSides]

lemma mem_scanEdgesBatch {src_ids : List VertexId} (hvid : vid ∈ src_ids)
    (label_filter : Option EdgeLabelId) (x : EdgeIndexEntry) :
    (vid, x) ∈ scanEdgesBatch engine capacity s src_ids direction label_filter ↔
      ∃ d ∈ readSides direction, x ∈ createEdgeScanCursor engine capacity s vid d label_filter := by
  have hside : ∀ d ≠ .BOTH, (vid, x) ∈ scanSideBatch engine capacity s src_ids d label_filter ↔
      x ∈ createEdgeScanCursor engine capacity s vid d label_filter :=
    fun d hd => mem_scanSideBatch hvid hd label_filter x
  cases direction with
  | OUT => simp [scanEdgesBatch, readSides, hside]
  | IN => simp [scanEdgesBatch, readSides, hside]
  | BOTH => simp [scanEdgesBatch, readSides, hside]

lemma scanIndexedEdges_entries (label_filter : Option EdgeLabelId) :
    (exec (scanIndexedEdges vid direction label_filter) s).1 =
      (prefixRecords (s .edgeIndex) (indexScanPrefix vid direction label_filter)).map fun row =>
        indexEntry (decodeEdgeIndexKey row.1) row.2 := by
  simp only [scanIndexedEdges, exec_bind, exec_tableScan, exec_pure]

/-- A row found under a prefix of a side is the row of an edge of that side. -/
theorem AdjacencyOk.index_row (h : AdjacencyOk s) {more : Bytes} {row : Record}
    (hrow : row ∈ prefixRecords (s .edgeIndex) (sectionKey vid (directionByte direction) more)) :
    direction ≠ .BOTH ∧ ∃ l n q, row.1 = sectionKey vid (directionByte direction) (adjacencySuffix l n q) ∧
        more <+: adjacencySuffix l n q := by
  obtain ⟨hpre, hget⟩ := (mem_prefixRecords _ _ _ _).mp hrow
  obtain ⟨k, hdir, hkey⟩ := h.index row.1 row.2 hget
  rw [hkey, encodeEdgeIndexKey, sectionKey_isPrefix_iff, directionByte_inj] at hpre
  obtain ⟨hvid, hdirection, hmore⟩ := hpre
  refine ⟨by rw [hdirection]; exact hdir, k.edgeLabelId, k.neighborId, k.seq, ?_, hmore⟩
  rw [hkey, encodeEdgeIndexKey, hvid, hdirection]

/-- No row is stored under the byte of `BOTH`. -/
theorem scanIndexedEdges_both (h : AdjacencyOk s) (label_filter : Option EdgeLabelId) :
    (exec (scanIndexedEdges vid .BOTH label_filter) s).1 = [] := by
  rw [scanIndexedEdges_entries, map_eq_nil_iff, eq_nil_iff_forall_not_mem]
  intro row hrow
  cases label_filter with
  | none => exact (h.index_row hrow).1 rfl
  | some l => exact (h.index_row hrow).1 rfl

/-- Without the cache, `scanEdgesExact` selects the neighbour in the rows of the label. -/
theorem mem_scanEdgesExact_zero (h : AdjacencyOk s) (label_id : EdgeLabelId) (neighbor_id : VertexId)
    (x : EdgeIndexEntry) :
    x ∈ scanEdgesExact 0 s vid direction label_id neighbor_id ↔
      x ∈ (exec (scanIndexedEdges vid direction (some label_id)) s).1 ∧ x.neighborId = neighbor_id := by
  have hlong : encodeEdgeIndexNeighborPrefix vid direction label_id neighbor_id =
      encodeEdgeIndexLabelPrefix vid direction label_id ++ u64BE neighbor_id := by
    rw [encodeEdgeIndexLabelPrefix, sectionKey_append]
    rfl
  have hselect : ∀ row ∈ prefixRecords (s .edgeIndex) (encodeEdgeIndexLabelPrefix vid direction label_id),
      (u64BE neighbor_id).isPrefixOf
          (row.1.drop (encodeEdgeIndexLabelPrefix vid direction label_id).length) = true ↔
        (indexEntry (decodeEdgeIndexKey row.1) row.2).neighborId = neighbor_id := by
    intro row hrow
    obtain ⟨-, l, n, q, hkey, hlabel⟩ := h.index_row hrow
    obtain ⟨-, -, hn, -⟩ := decode_sectionKey_adjacencySuffix vid (directionByte direction) l n q
    rw [u16BE_isPrefix_adjacencySuffix] at hlabel
    have hsplit : row.1 = encodeEdgeIndexLabelPrefix vid direction label_id ++ (u64BE n ++ u64BE q) := by
      rw [hkey, encodeEdgeIndexLabelPrefix, sectionKey_append, hlabel]
      rfl
    have hdrop : row.1.drop (encodeEdgeIndexLabelPrefix vid direction label_id).length = u64BE n ++ u64BE q := by
      rw [hsplit, drop_left]
    have hfirst : u64BE neighbor_id <+: u64BE n ++ u64BE q ↔ u64BE neighbor_id = u64BE n := by
      rw [← append_nil (u64BE neighbor_id), append_isPrefix_append_iff (by simp)]
      simp
    rw [hdrop, isPrefixOf_iff_prefix, hfirst, u64BE_inj, hkey]
    simp only [indexEntry, decodeEdgeIndexKey, hn]
    exact eq_comm
  rw [scanEdgesExact, if_neg (by decide), hlong, prefixRecords_append, scanIndexedEdges_entries]
  simp only [indexScanPrefix, List.mem_map, mem_filter]
  constructor
  · rintro ⟨row, ⟨hrow, hpre⟩, rfl⟩
    exact ⟨⟨row, hrow, rfl⟩, (hselect row hrow).mp hpre⟩
  · rintro ⟨⟨row, hrow, rfl⟩, hn⟩
    exact ⟨row, ⟨hrow, (hselect row hrow).mpr hn⟩, rfl⟩

lemma nothingIndexed_iff (label_filter : Option EdgeLabelId) : NothingIndexed s vid direction label_filter ↔
      ∀ d ∈ readSides direction, (exec (scanIndexedEdges vid d label_filter) s).1 = [] := by
  simp only [NothingIndexed, scanIndexedEdges_entries, map_eq_nil_iff]

/-- Where the cursor is not misled, or finds nothing to miss, it yields what is scanned. -/
theorem mem_createEdgeScanCursor (h : AdjacencyOk s) (hrows : VertexRowsOk s) {label_filter : Option EdgeLabelId}
    (hfine : ¬ CursorMisled capacity s vid ∨ NothingIndexed s vid direction label_filter)
    {d : Direction} (hd : d ∈ readSides direction) (x : EdgeIndexEntry) :
    x ∈ createEdgeScanCursor engine capacity s vid d label_filter ↔ x ∈ scanned capacity s vid d label_filter := by
  have hdir := readSides_single hd
  by_cases hmisled : CursorMisled capacity s vid
  · have hnone := (nothingIndexed_iff label_filter).mp (hfine.resolve_left fun hnot => hnot hmisled) d hd
    rw [createEdgeScanCursor_misled h hrows hdir hmisled, scanned_unmarked h hmisled.2.1 hdir, hnone]
  · rw [createEdgeScanCursor_eq h hrows hdir hmisled]

lemma mem_scanEdgesExact (h : AdjacencyOk s) {label_id : EdgeLabelId}
    (hfine : ¬ ExactOfBoth capacity direction (some label_id) ∨ NothingIndexed s vid direction (some label_id))
    (neighbor_id : VertexId) (x : EdgeIndexEntry) :
    x ∈ scanEdgesExact capacity s vid direction label_id neighbor_id ↔
      x ∈ scanned capacity s vid direction (some label_id) ∧ x.neighborId = neighbor_id := by
  by_cases hpos : 0 < capacity
  · rw [scanEdgesExact, if_pos hpos, mem_filter, decide_eq_true_eq]
  · have hzero : capacity = 0 := by
      by_contra hne
      exact hpos (UInt32.pos_iff_ne_zero.mpr hne)
    subst hzero
    rw [mem_scanEdgesExact_zero h]
    by_cases hdir : direction = .BOTH
    · subst hdir
      have hnone := (nothingIndexed_iff (some label_id)).mp (hfine.resolve_left fun hnot => hnot ⟨rfl, rfl, by simp⟩)
      rw [scanIndexedEdges_both h, mem_scanned]
      constructor
      · intro hin
        exact absurd hin.1 not_mem_nil
      · rintro ⟨⟨d, hd, hin⟩, -⟩
        rw [scanned_indexed (readSides_single hd) _ fun hlt => absurd hlt hpos, hnone d hd] at hin
        exact absurd hin not_mem_nil
    · rw [scanned_indexed hdir _ fun hlt => absurd hlt hpos]

/-- Exactly when the four paths agree on a vertex. -/
theorem readPathsAgree_iff_of_ok (h : AdjacencyOk s) (hrows : VertexRowsOk s) (label_filter : Option EdgeLabelId) :
    ReadPathsAgree engine capacity s vid direction label_filter ↔
      (¬ CursorMisled capacity s vid ∧ ¬ ExactOfBoth capacity direction label_filter) ∨
        NothingIndexed s vid direction label_filter := by
  constructor
  · intro hagree
    by_contra hparts
    obtain ⟨hwrong, hindexed⟩ := not_or.mp hparts
    rw [nothingIndexed_iff] at hindexed
    -- an entry of `edge_index` that one of the paths leaves out
    obtain ⟨d, hd, hsome⟩ : ∃ d ∈ readSides direction, (exec (scanIndexedEdges vid d label_filter) s).1 ≠ [] := by
      by_contra hall
      refine hindexed fun d hd => ?_
      by_contra hne
      exact hall ⟨d, hd, hne⟩
    obtain ⟨x, hx⟩ := exists_mem_of_ne_nil _ hsome
    by_cases hmisled : CursorMisled capacity s vid
    · have hscanned : x ∈ scanned capacity s vid direction label_filter := by
        rw [mem_scanned]
        exact ⟨d, hd, by rw [scanned_unmarked h hmisled.2.1 (readSides_single hd)]; exact hx⟩
      obtain ⟨d', hd', hin⟩ := (mem_scanEdgesBatch (mem_singleton_self vid) label_filter x).mp
        ((hagree.batch [vid] (mem_singleton_self vid) x).mpr hscanned)
      rw [createEdgeScanCursor_misled h hrows (readSides_single hd') hmisled] at hin
      exact not_mem_nil hin
    · have hboth : ExactOfBoth capacity direction label_filter := by
        by_contra hnot
        exact hwrong ⟨hmisled, hnot⟩
      obtain ⟨rfl, rfl, hlabel⟩ := hboth
      obtain ⟨l, rfl⟩ := ne_none_iff_exists'.mp hlabel
      have hscanned : x ∈ scanned 0 s vid .BOTH (some l) := by
        rw [mem_scanned]
        refine ⟨d, hd, ?_⟩
        rw [scanned_indexed (readSides_single hd) _ fun hlt => absurd hlt (by decide)]
        exact hx
      have hexact := (hagree.exact l x.neighborId rfl x).mpr ⟨hscanned, rfl⟩
      rw [mem_scanEdgesExact_zero h, scanIndexedEdges_both h] at hexact
      exact not_mem_nil hexact.1
  · intro hfine
    have hcursor : ∀ {d : Direction}, d ∈ readSides direction → ∀ x,
        x ∈ createEdgeScanCursor engine capacity s vid d label_filter ↔ x ∈ scanned capacity s vid d label_filter :=
      fun hd x => mem_createEdgeScanCursor h hrows (hfine.imp_left And.left) hd x
    refine ⟨fun x => ?_, fun src_ids hvid x => ?_, ?_⟩
    · cases direction with
      | OUT => exact hcursor (by simp [readSides]) x
      | IN => exact hcursor (by simp [readSides]) x
      | BOTH => rw [createEdgeScanCursor, if_pos rfl]
    · rw [mem_scanEdgesBatch hvid, mem_scanned]
      constructor
      · rintro ⟨d, hd, hin⟩
        exact ⟨d, hd, (hcursor hd x).mp hin⟩
      · rintro ⟨d, hd, hin⟩
        exact ⟨d, hd, (hcursor hd x).mpr hin⟩
    · rintro l n rfl x
      exact mem_scanEdgesExact h (hfine.imp_left And.right) n x

end Agreement

/-! ### Draining a cursor -/

/-- The rows a cursor meets from a key on. -/
def cursorFrom (table : TableName) (key : Bytes) : StoreM Cursor := do
  let rows ← tableScan .session table []
  return rows.filter fun row => key ≤ row.1

/-- What a `VertexDataEdgeScanCursor` yields of the rows it meets. -/
def cachedSide (pre : Bytes) : Cursor → Option (List EdgeIndexEntry)
  | [] => none
  | (state_key, value) :: rest =>
    if ¬ pre.isPrefixOf state_key then some []
    else if ¬ isVertexDataAdjStateKey state_key then none
    else if (decodeAdjacencyState value).1 = .COMPLETE then some (cachedEntries pre none rest)
    else none

/-- `AsyncGraphDataStore::scanEdges` in one direction, which drains the cursor of
`createEdgeScanCursor`; operators read edges with it. -/
def asyncScanEdges (capacity : UInt32) (vid : VertexId) (direction : Direction) :
    StoreM (List EdgeIndexEntry) := do
  let pre := encodeVertexDataAdjPrefix vid direction
  let rows ← if 0 < capacity then cursorFrom .vertexData pre else pure []
  match cachedSide pre rows with
  | some entries => return entries
  | none => scanIndexedEdges vid direction none

/-- The cursor finds the edges of the side: there is no cache, the side has its state row, or no row
of `vertex_data` comes after the place of that row. -/
def CursorReads (capacity : UInt32) (s : Store) (vid : VertexId) (direction : Direction) : Prop :=
  capacity = 0 ∨ (sideState s vid direction).isSome ∨
    recordsFrom (s .vertexData) (encodeVertexDataAdjPrefix vid direction) false = []

instance (capacity : UInt32) (s : Store) (vid : VertexId) (direction : Direction) :
    Decidable (CursorReads capacity s vid direction) := by
  unfold CursorReads
  infer_instance

section Draining

variable {capacity : UInt32} {s : Store} {vid : VertexId} {direction : Direction}

lemma exec_cursorFrom (table : TableName) (key : Bytes) :
    exec (cursorFrom table key) s = (recordsFrom (s table) key false, s) := by
  have hall : prefixRecords (s table) [] = (s table).entries := filter_eq_self.mpr fun _ _ => rfl
  simp only [cursorFrom, exec_bind, exec_tableScan, exec_pure, hall, recordsFrom]
  rfl

theorem exec_asyncScanEdges (engine : Engine) (hdir : direction ≠ .BOTH) :
    exec (asyncScanEdges capacity vid direction) s =
      (createEdgeScanCursor engine capacity s vid direction none, s) := by
  have hindexed : exec (scanIndexedEdges vid direction none) s =
      (createEdgeIndexScanCursor engine s vid direction none, s) :=
    Prod.ext (createEdgeIndexScanCursor_eq engine none).symm rfl
  rw [createEdgeScanCursor, if_neg hdir]
  by_cases hpos : 0 < capacity
  · have hside : cachedSide (encodeVertexDataAdjPrefix vid direction)
        (recordsFrom (s .vertexData) (encodeVertexDataAdjPrefix vid direction) false) =
          vertexDataEdgeScanCursor engine s vid direction none := by
      rw [vertexDataEdgeScanCursor_eq]
      cases recordsFrom (s .vertexData) (encodeVertexDataAdjPrefix vid direction) false with
      | nil => rfl
      | cons row rest => rfl
    simp only [asyncScanEdges, exec_bind, if_pos hpos, exec_cursorFrom, hside]
    cases vertexDataEdgeScanCursor engine s vid direction none with
    | none => exact hindexed
    | some entries => rfl
  · simp only [asyncScanEdges, exec_bind, if_neg hpos, exec_pure, cachedSide]
    exact hindexed

/-- The cursor finds the edges of the side, or none. -/
theorem asyncScanEdges_shown {rows : Bytes → Option Bytes}
    (h : SideShown capacity s vid direction rows) (hdir : direction ≠ .BOTH) :
    exec (asyncScanEdges capacity vid direction) s =
      (if CursorReads capacity s vid direction then scanned capacity s vid direction none else [], s) := by
  obtain ⟨engine⟩ : Nonempty Engine := ⟨⟨fun _ _ => false⟩⟩
  rw [exec_asyncScanEdges engine hdir]
  by_cases hoff : capacity = 0
  · have hreads : CursorReads capacity s vid direction := inl hoff
    rw [if_pos hreads, createEdgeScanCursor_off hoff hdir]
  have hpos : 0 < capacity := UInt32.pos_iff_ne_zero.mpr hoff
  by_cases hsome : (sideState s vid direction).isSome
  · have hreads : CursorReads capacity s vid direction := inr (inl hsome)
    rw [if_pos hreads, createEdgeScanCursor_marked hpos hdir hsome]
  have hnone : sideState s vid direction = none := by simpa using hsome
  rw [createEdgeScanCursor, if_neg hdir, if_pos hpos, vertexDataEdgeScanCursor_eq]
  cases hfrom : recordsFrom (s .vertexData) (encodeVertexDataAdjPrefix vid direction) false with
  | nil =>
    have hreads : CursorReads capacity s vid direction := inr (inr hfrom)
    rw [if_pos hreads, scanned_indexed hdir none, ← createEdgeIndexScanCursor_eq engine]
    · rfl
    intro _ count
    rw [hnone]
    simp
  | cons row rest =>
    have hreads : ¬ CursorReads capacity s vid direction := by
      rintro (hoff' | hsome' | hnil)
      · exact hoff hoff'
      · exact hsome hsome'
      · rw [hfrom] at hnil
        cases hnil
    -- without a state row the side has no row at all, so the first one belongs to another side
    have hforeign : ¬ (encodeVertexDataAdjPrefix vid direction).isPrefixOf row.1 = true := by
      rw [ isPrefixOf_iff_prefix]
      rintro ⟨rest', hkey⟩
      have hmem : row ∈ recordsFrom (s .vertexData) (encodeVertexDataAdjPrefix vid direction) false := by
        rw [hfrom]
        exact mem_cons_self
      have hget : s.get .vertexData row.1 = some row.2 :=
        (SortedMap.mem_entries_iff _ _ _).mp (mem_filter.mp hmem).1
      rw [← hkey] at hget
      cases rest' with
      | nil =>
        rw [append_nil] at hget
        rw [sideState, show encodeVertexDataAdjStateKey vid direction =
          encodeVertexDataAdjPrefix vid direction from rfl, hget] at hnone
        cases hnone
      | cons b bs =>
        have hcached := (h.1.indexed (by simp [hnone])).1 (b :: bs)
        rw [get_cachedRows, if_neg (by simp), ← nil_append (b :: bs), ← sectionKey_append] at hcached
        rw [encodeVertexDataAdjPrefix, encodeVertexDataAdjStateKey, hcached] at hget
        cases hget
    rw [if_neg hreads]
    simp only [hforeign, Bool.false_eq_true, not_false_eq_true, if_true, getD_some]

end Draining

/-! ### Runs that keep the endpoints of edges -/

/-- Only vertices with state rows have rows in `edge_index`, and the kept ones have them. -/
structure EndpointsMarked (kept : VertexId → Prop) (s : Store) : Prop where
  indexed : ∀ vid sec rest, (s.get .edgeIndex (sectionKey vid sec rest)).isSome → Marked s vid
  kept : ∀ vid, kept vid → Marked s vid

/-- With the cache, edges are inserted between vertices that have state rows, and a vertex
is deleted when `edge_index` has none of its rows. -/
def endpointsKept (capacity : UInt32) (s : Store) : StoreAction → Prop
  | .insertEdge e _ => capacity = 0 ∨ Marked s e.src ∧ Marked s e.dst
  | .vertex (.deleteVertex vid) =>
    capacity = 0 ∨ ∀ sec rest, s.get .edgeIndex (sectionKey vid sec rest) = none
  | _ => True

section EndpointsKept

variable {kept : VertexId → Prop} {s s' : Store}

/-- State rows stay and `edge_index` gains no row. -/
theorem EndpointsMarked.mono (h : EndpointsMarked kept s) (hmarked : ∀ vid, Marked s vid → Marked s' vid)
    (hindex : ∀ key, (s'.get .edgeIndex key).isSome → (s.get .edgeIndex key).isSome) :
    EndpointsMarked kept s' :=
  ⟨fun vid sec rest hsome => hmarked vid (h.indexed vid sec rest (hindex _ hsome)),
    fun vid hvid => hmarked vid (h.kept vid hvid)⟩

lemma endpoints_beside {α : Type} {p : StoreM α} (hp : WritesOnly besideAdjacency p) :
    Keeps (EndpointsMarked kept) p := by
  refine .of_writesOnly hp fun s s' hchanges h => h.mono (fun vid hmarked direction => ?_) fun key hsome => ?_
  · rw [encodeVertexDataAdjStateKey, hchanges _ _ fun hrow => hrow.2 vid direction (inl ⟨rfl, [], rfl⟩)]
    exact hmarked direction
  · rwa [hchanges _ _ fun hrow => hrow.1 rfl] at hsome

lemma endpoints_rows {α : Type} {p : StoreM α} (hp : WritesOnly vertexRow p) : Keeps (EndpointsMarked kept) p :=
  endpoints_beside (hp.mono fun _ _ => besideAdjacency_of_vertexRow)

lemma endpoints_tables : KeptByTables (EndpointsMarked kept) :=
  fun hp => endpoints_beside (hp.mono fun _ _ => edgeTableRow.beside)

lemma endpoints_putData {via : Via} (key value : Bytes) :
    Keeps (EndpointsMarked kept) (tablePut via .vertexData key value) := by
  refine .put fun s h => h.mono (fun vid hmarked direction => ?_) fun key' hsome => ?_
  · rw [put_get]
    split
    · rfl
    · exact hmarked direction
  · rwa [put_get_of_ne _ _ _ _ _ _ (inl (by simp))] at hsome

lemma endpoints_delData {via : Via} {key : Bytes} (hkey : key.length ≠ 9) :
    Keeps (EndpointsMarked kept) (tableDel via .vertexData key) := by
  refine .del fun s h => h.mono (fun vid hmarked direction => ?_) fun key' hsome => ?_
  · rw [del_get_of_ne]
    · exact hmarked direction
    · right
      rintro rfl
      exact hkey (length_sectionKey _ _ _)
  · rwa [del_get_of_ne _ _ _ _ _ (inl (by simp))] at hsome

lemma endpoints_delIndex {via : Via} (key : Bytes) :
    Keeps (EndpointsMarked kept) (tableDel via .edgeIndex key) := by
  refine .del fun s h => h.mono (fun vid hmarked direction => ?_) fun key' hsome => ?_
  · rw [del_get_of_ne _ _ _ _ _ (inl (by simp))]
    exact hmarked direction
  · rw [del_get] at hsome
    split at hsome
    · cases hsome
    · exact hsome

/-- A kept vertex may be given rows in `edge_index`. -/
theorem endpoints_putIndex {via : Via} {vid : VertexId} (hvid : kept vid) (sec : UInt8) (rest value : Bytes) :
    Keeps (EndpointsMarked kept) (tablePut via .edgeIndex (sectionKey vid sec rest) value) := by
  intro s h
  have hmarked : ∀ vid', Marked s vid' → Marked (s.put .edgeIndex (sectionKey vid sec rest) value) vid' := by
    intro vid' hm direction
    rw [put_get_of_ne _ _ _ _ _ _ (inl (by simp))]
    exact hm direction
  refine ⟨fun vid' sec' rest' hsome => hmarked vid' ?_, fun vid' hvid' => hmarked vid' (h.kept vid' hvid')⟩
  rw [exec_tablePut, put_get] at hsome
  split at hsome
  · rename_i hkey
    rw [(sectionKey_inj.mp hkey.2).1]
    exact h.kept vid hvid
  · exact h.indexed vid' sec' rest' hsome

lemma endpoints_promoteAdjacency {vid : VertexId} (hvid : kept vid) (direction : Direction) :
    Keeps (EndpointsMarked kept) (promoteAdjacency vid direction) := by
  intro s h
  rw [promoteAdjacency, exec_bind, exec_tableScan]
  have hlength : ∀ row ∈ (prefixRecords (s .vertexData) (encodeVertexDataAdjPrefix vid direction)).filter
      fun row => !isVertexDataAdjStateKey row.1, row.1.length ≠ 9 := by
    intro row hrow
    simpa [isVertexDataAdjStateKey] using (mem_filter.mp hrow).2
  -- the vertex of a promoted row is read back from its cached key
  have hvertex : ∀ row ∈ (prefixRecords (s .vertexData) (encodeVertexDataAdjPrefix vid direction)).filter
      fun row => !isVertexDataAdjStateKey row.1, (decodeVertexDataAdjEdgeKey row.1).vertexId = vid := by
    intro row hrow
    obtain ⟨rest, hkey⟩ := isPrefix_of_mem_prefixRecords (mem_filter.mp hrow).1
    have hdecode := decodeU64BE_append [] ((adjacencyKind direction).byte :: rest) vid rfl
    rw [← hkey]
    simpa [decodeVertexDataAdjEdgeKey, encodeVertexDataAdjPrefix, encodeVertexDataAdjStateKey,
      sectionKey] using hdecode
  refine Keeps.andThen (.allOf_mem fun row hrow => ?_) (.bind (.forEach_mem fun row hrow => ?_)
    fun _ => endpoints_putData _ _) s h
  · exact endpoints_putIndex (by rw [hvertex row hrow]; exact hvid) _ _ _
  · exact endpoints_delData (hlength row hrow)

lemma endpoints_insertAdjacencyEdge (capacity : UInt32) {k : EdgeIndexKey} (hvid : kept k.vertexId)
    (eid : EdgeId) : Keeps (EndpointsMarked kept) (insertAdjacencyEdge capacity k eid) := by
  have hindexed : Keeps (EndpointsMarked kept)
      (tablePut .raw .edgeIndex (encodeEdgeIndexKey k) (ValueCodec.encodeU64 eid)) :=
    endpoints_putIndex hvid _ _ _
  refine .ite hindexed (.bind (.bind (fun s h => h) fun _ => .pure _) fun state => ?_)
  split
  · exact hindexed
  · exact hindexed
  · exact .ite (.andThen (endpoints_promoteAdjacency hvid _) hindexed)
      (.andThen (endpoints_putData _ _) (endpoints_putData _ _))

lemma endpoints_dropAdjacencyRow (k : EdgeIndexKey) : Keeps (EndpointsMarked kept) (dropAdjacencyRow k) := by
  have hlength : (encodeVertexDataAdjEdgeKey k).length ≠ 9 := by
    simp [encodeVertexDataAdjEdgeKey]
  refine .bind (.bind (fun s h => h) fun _ => .pure _) fun state => ?_
  split
  · exact .bind (endpoints_delData hlength) fun _ => endpoints_putData _ _
  · exact .bind (endpoints_delIndex _) fun _ => .pure true

lemma endpoints_insertVertex (capacity : UInt32) (vid : VertexId) (labelProps : LabelProps) :
    Keeps (EndpointsMarked kept) (insertVertex capacity vid labelProps) :=
  .andThen (endpoints_beside (.put _ (besideAdjacency_of_table (by simp) (by simp) _) _)) <|
    .andThen (.ite (.allOf (fun _ => endpoints_putData _ _) _) (.pure true))
      (endpoints_rows (writesRows_publishing vid labelProps))

/-- A vertex without rows in `edge_index` can lose its state rows. -/
theorem endpoints_deleteVertex {vid : VertexId} (h : EndpointsMarked (fun _ => False) s)
    (hnone : ∀ sec rest, s.get .edgeIndex (sectionKey vid sec rest) = none) :
    EndpointsMarked (fun _ => False) (exec (deleteVertex vid) s).2 := by
  obtain ⟨hchanges, -⟩ := exec_deleteVertex vid s
  refine ⟨fun vid' sec rest hsome direction => ?_, fun _ hfalse => hfalse.elim⟩
  rw [hchanges _ _ (by simp [deletedRow])] at hsome
  rw [hchanges]
  · exact h.indexed vid' sec rest hsome direction
  · rintro (⟨-, hpre⟩ | htable | htable | ⟨l, htable⟩)
    · rw [encodeVertexDataAdjStateKey, vertexPrefix_isPrefix_sectionKey] at hpre
      rw [← hpre, hnone] at hsome
      cases hsome
    all_goals exact absurd htable (by simp)

lemma endpoints_vertexAction {capacity : UInt32} (hcap : capacity ≠ 0) (a : VertexAction)
    (h : EndpointsMarked (fun _ => False) s) (hguard : endpointsKept capacity s (.vertex a)) :
    EndpointsMarked (fun _ => False) (exec (a.program capacity) s).2 := by
  induction a using vertexAction_cases with
  | hinsert vid labelProps => exact endpoints_insertVertex capacity vid labelProps s h
  | hdelete vid => exact endpoints_deleteVertex h (hguard.resolve_left hcap)
  | hrows a hrows => exact endpoints_rows (hrows capacity) s h

lemma endpoints_step {capacity : UInt32} (hpos : 0 < capacity) {a : StoreAction}
    (h : EndpointsMarked (fun _ => False) s) (hguard : endpointsKept capacity s a)
    (hends : a.ends = true) : EndpointsMarked (fun _ => False) (exec (a.program capacity) s).2 := by
  have hcap : capacity ≠ 0 := UInt32.pos_iff_ne_zero.mp hpos
  cases a with
  | vertex a => exact endpoints_vertexAction hcap a h hguard
  | insertEdge e props =>
    obtain ⟨hsrc, hdst⟩ := hguard.resolve_left hcap
    have hkept : EndpointsMarked (fun vid => vid = e.src ∨ vid = e.dst) s := by
      refine ⟨h.indexed, ?_⟩
      rintro vid (rfl | rfl)
      · exact hsrc
      · exact hdst
    have hdone := keeps_insertEdge endpoints_tables
      (endpoints_insertAdjacencyEdge capacity (k := e.outKey) (inl rfl) e.eid)
      (endpoints_insertAdjacencyEdge capacity (k := e.inKey) (inr rfl) e.eid) props s hkept
    exact ⟨hdone.indexed, fun _ hfalse => hfalse.elim⟩
  | deleteEdge e =>
    exact keeps_deleteEdge endpoints_tables endpoints_delIndex endpoints_dropAdjacencyRow e s h
  | putEdgeProperty labelId eid propId value =>
    exact endpoints_tables (.put _ (inr (inl ⟨_, rfl⟩)) _) s h
  | deleteEdgeProperty labelId eid propId =>
    exact endpoints_tables (.del _ (inr (inl ⟨_, rfl⟩))) s h
  | dropEdgeLabel labelId =>
    exact keeps_dropEdgeLabel endpoints_tables endpoints_dropAdjacencyRow labelId s h
  | insertIndexEntry table values entityId payload =>
    exact endpoints_tables (.put _ (inr (inr hends)) _) s h
  | deleteIndexEntry table values entityId => exact endpoints_tables (.del _ (inr (inr hends))) s h
  | dropIndex table => exact endpoints_tables (.drop fun _ => inr (inr hends)) s h

lemma endpointsMarked_reached {capacity : UInt32} (hpos : 0 < capacity)
    (h : Reaches (storeStep capacity) (endpointsKept capacity) empty s) :
    EndpointsMarked (fun _ => False) s := by
  refine h.invariant (EndpointsMarked fun _ => False) ⟨fun vid sec rest hsome => ?_, fun _ hfalse =>
    hfalse.elim⟩ fun s a s' hok hguard hstep => ?_
  · exact absurd hsome (by simp [empty, Store.get])
  · unfold storeStep at hstep
    split at hstep
    · rename_i hends
      rw [← Option.some.inj hstep]
      exact endpoints_step hpos hok hguard hends
    · cases hstep

lemma EndpointsMarked.nothingIndexed (h : EndpointsMarked kept s) {vid : VertexId}
    (hnot : ¬ Marked s vid) (direction : Direction) (label_filter : Option EdgeLabelId) :
    NothingIndexed s vid direction label_filter := by
  intro d _
  rw [eq_nil_iff_forall_not_mem]
  intro row hrow
  obtain ⟨hpre, hget⟩ := (mem_prefixRecords _ _ _ _).mp hrow
  have hside : encodeEdgeIndexPrefix vid d <+: row.1 := by
    cases label_filter with
    | none => exact hpre
    | some l => exact (sectionKey_isPrefix_iff.mpr ⟨rfl, rfl, nil_prefix⟩).trans hpre
  obtain ⟨rest, hkey⟩ := hside
  rw [encodeEdgeIndexPrefix, sectionKey_append] at hkey
  refine hnot (h.indexed vid (directionByte d) ([] ++ rest) ?_)
  rw [hkey, Store.get, hget]
  rfl

end EndpointsKept

/-- In every store reached, the four read paths of a vertex agree exactly when the cursor
does not meet a later vertex's row in place of a missing state row and `scanEdgesExact` is
not asked for both directions without the cache, or there is nothing to miss.  In runs that
insert edges between inserted vertices and delete only vertices free of `edge_index` rows,
that call of `scanEdgesExact` is the one exception. -/
theorem readPathsAgree_iff (engine : Engine) (capacity : UInt32) :
    (∀ s, Reaches (storeStep capacity) (fun _ _ => True) empty s → ∀ vid direction label_filter,
        ReadPathsAgree engine capacity s vid direction label_filter ↔
          (¬ CursorMisled capacity s vid ∧ ¬ ExactOfBoth capacity direction label_filter) ∨
            NothingIndexed s vid direction label_filter) ∧
    ∀ s, Reaches (storeStep capacity) (endpointsKept capacity) empty s →
      ∀ vid direction label_filter, ¬ ExactOfBoth capacity direction label_filter →
        ReadPathsAgree engine capacity s vid direction label_filter := by
  have hexact : ∀ s, Reaches (storeStep capacity) (fun _ _ => True) empty s → ∀ vid direction label_filter,
        ReadPathsAgree engine capacity s vid direction label_filter ↔
          (¬ CursorMisled capacity s vid ∧ ¬ ExactOfBoth capacity direction label_filter) ∨
            NothingIndexed s vid direction label_filter :=
    fun s h vid direction label_filter =>
      readPathsAgree_iff_of_ok (adjacencyOk_reached h) (vertexRowsOk_reached h) label_filter
  refine ⟨hexact, fun s h vid direction label_filter hone => ?_⟩
  rw [hexact s (h.mono fun _ _ _ => trivial)]
  by_cases hmisled : CursorMisled capacity s vid
  · exact inr ((endpointsMarked_reached hmisled.1 h).nothingIndexed hmisled.2.1 direction label_filter)
  · exact inl ⟨hmisled, hone⟩

/-- An engine that answers with the larger neighbour. -/
def largerNeighbor : Engine := ⟨fun _ _ => false⟩

/-- Two inserted vertices, and then an edge between them. -/
def twoVertices : Store :=
  (exec ((StoreAction.vertex (.insertVertex 2 [])).program 1)
    (exec ((StoreAction.vertex (.insertVertex 1 [])).program 1) empty).2).2

theorem readPathsAgree_iff_twoVertices : ReadPathsAgree largerNeighbor 1
        (exec ((StoreAction.insertEdge (parallelEdge 1) []).program 1) twoVertices).2 1 .OUT none ∧
      (ReadPathsAgree largerNeighbor 1 twoVertices 3 .OUT none ↔
        (¬ CursorMisled 1 twoVertices 3 ∧ ¬ ExactOfBoth 1 .OUT none) ∨ NothingIndexed twoVertices 3 .OUT none) := by
  have hmarked : Marked twoVertices 1 ∧ Marked twoVertices 2 := by
    constructor
    all_goals
      intro direction
      cases direction <;> decide +kernel
  have hinserted : Reaches (storeStep 1) (endpointsKept 1) empty twoVertices :=
    (Reaches.start.next (a := .vertex (.insertVertex 1 [])) trivial (if_pos rfl)).next
      (a := .vertex (.insertVertex 2 [])) trivial (if_pos rfl)
  have hedge : Reaches (storeStep 1) (endpointsKept 1) empty
      (exec ((StoreAction.insertEdge (parallelEdge 1) []).program 1) twoVertices).2 :=
    hinserted.next (a := .insertEdge (parallelEdge 1) []) (inr hmarked) (if_pos rfl)
  exact ⟨(readPathsAgree_iff largerNeighbor 1).2 _ hedge 1 .OUT none (by simp [ExactOfBoth]),
    (readPathsAgree_iff largerNeighbor 1).1 _ (hinserted.mono fun _ _ _ => trivial) 3 .OUT none⟩

/-- An edge from vertex `1`, which is never inserted, to the inserted vertex `2`. -/
def uninsertedSource : Store :=
  (exec ((StoreAction.insertEdge (parallelEdge 1) []).program 1)
    (exec ((StoreAction.vertex (.insertVertex 2 [])).program 1) empty).2).2

/-- `scanEdges` returns the edge; the cursor takes the row of vertex `2` for the end of a
`COMPLETE` side without edges. -/
theorem cursor_misses_edge :
    Reaches (storeStep 1) (fun _ _ => True) empty uninsertedSource ∧
      scanned 1 uninsertedSource 1 .OUT none = [⟨2, 1, 1, 1⟩] ∧
      createEdgeScanCursor largerNeighbor 1 uninsertedSource 1 .OUT none = [] ∧
      scanEdgesBatch largerNeighbor 1 uninsertedSource [1] .OUT none = [] ∧
      ¬ ReadPathsAgree largerNeighbor 1 uninsertedSource 1 .OUT none := by
  have hscanned : scanned 1 uninsertedSource 1 .OUT none = [⟨2, 1, 1, 1⟩] := by decide +kernel
  have hcursor : createEdgeScanCursor largerNeighbor 1 uninsertedSource 1 .OUT none = [] := by
    decide +kernel
  refine ⟨(Reaches.start.next (a := .vertex (.insertVertex 2 [])) trivial (if_pos rfl)).next
    (a := .insertEdge (parallelEdge 1) []) trivial (if_pos rfl), hscanned, hcursor, by decide +kernel,
    fun hagree => ?_⟩
  have hmem := (hagree.cursor ⟨2, 1, 1, 1⟩).mpr (by rw [hscanned]; exact mem_singleton_self _)
  rw [hcursor] at hmem
  exact not_mem_nil hmem

end Eugraph.DataStore
