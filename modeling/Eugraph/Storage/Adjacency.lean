import Eugraph.Lib.Transition
import Eugraph.Storage.DataStore

/-!
# The adjacency cache

Each side of a vertex (`OUT` or `IN`) keeps its edges either cached under the vertex in
`vertex_data`, with a counted `COMPLETE` state row, or in `edge_index`.  `SideInv` says
that a side presents exactly the rows it should, wherever they are; every adjacency
operation keeps it, and `scanEdges` and `countDegree` depend on nothing else.
-/

namespace Eugraph.DataStore

open Lib Lib.Program Wt KeyCodec List Lib.SortedMap Store ValueCodec Or

/-! ### One side of a vertex -/

/-- The cached rows of a side, by label, neighbour and seq. -/
def cachedRows (s : Store) (vid : VertexId) (direction : Direction) : Table :=
  (under (s .vertexData) (encodeVertexDataAdjPrefix vid direction)).del []

/-- The `edge_index` rows of a side, by label, neighbour and seq. -/
def indexRows (s : Store) (vid : VertexId) (direction : Direction) : Table :=
  under (s .edgeIndex) (encodeEdgeIndexPrefix vid direction)

def sideState (s : Store) (vid : VertexId) (direction : Direction) :
    Option (AdjacencyCacheState × UInt32) :=
  (s.get .vertexData (encodeVertexDataAdjStateKey vid direction)).map decodeAdjacencyState

/-- The side presents exactly the rows `rows`: cached with their number if `COMPLETE`,
in `edge_index` otherwise, and never in both places. -/
def SideInv (s : Store) (vid : VertexId) (direction : Direction) (rows : Bytes → Option Bytes) :
    Prop :=
  match sideState s vid direction with
  | some (.COMPLETE, count) =>
    (∀ rest, (cachedRows s vid direction).get rest = rows rest) ∧
    (∀ rest, (indexRows s vid direction).get rest = none) ∧
    count.toNat = (cachedRows s vid direction).size
  | _ =>
    (∀ rest, (cachedRows s vid direction).get rest = none) ∧
    (∀ rest, (indexRows s vid direction).get rest = rows rest)

/-- `SideInv` without the count. -/
def SideShows (s : Store) (vid : VertexId) (direction : Direction) (rows : Bytes → Option Bytes) :
    Prop :=
  match sideState s vid direction with
  | some (.COMPLETE, _) =>
    (∀ rest, (cachedRows s vid direction).get rest = rows rest) ∧
    (∀ rest, (indexRows s vid direction).get rest = none)
  | _ =>
    (∀ rest, (cachedRows s vid direction).get rest = none) ∧
    (∀ rest, (indexRows s vid direction).get rest = rows rest)

variable {s : Store}

lemma sideInv_iff {vid : VertexId} {direction : Direction}
    {rows : Bytes → Option Bytes} : SideInv s vid direction rows ↔
      SideShows s vid direction rows ∧ ∀ count, sideState s vid direction = some (.COMPLETE, count) →
        count.toNat = (cachedRows s vid direction).size := by
  unfold SideInv SideShows
  split
  · rename_i count hstate
    constructor
    · rintro ⟨hcached, hindex, hsize⟩
      refine ⟨⟨hcached, hindex⟩, fun count' heq => ?_⟩
      rw [hstate, Option.some.injEq, Prod.mk.injEq] at heq
      rw [← heq.2, hsize]
    · rintro ⟨⟨hcached, hindex⟩, hsize⟩
      exact ⟨hcached, hindex, hsize count hstate⟩
  · rename_i hstate
    exact ⟨fun h => ⟨h, fun count heq => absurd heq (hstate count)⟩, And.left⟩

lemma SideInv.shows {vid : VertexId} {direction : Direction}
    {rows : Bytes → Option Bytes} (hinv : SideInv s vid direction rows) :
    SideShows s vid direction rows := (sideInv_iff.mp hinv).1

/-- Rows are keyed by an edge label, a neighbour and a seq. -/
def WellFormedRows (rows : Bytes → Option Bytes) : Prop :=
  ∀ rest value, rows rest = some value → ∃ l n q, rest = adjacencySuffix l n q

section Lookup

variable (s : Store) (vid : VertexId) (direction : Direction) (rest : Bytes)

lemma get_cachedRows : (cachedRows s vid direction).get rest =
      if rest = [] then none
      else s.get .vertexData (sectionKey vid (adjacencyKind direction).byte rest) := by
  rw [cachedRows, get_del, get_under, encodeVertexDataAdjPrefix,
    encodeVertexDataAdjStateKey, sectionKey_append, nil_append]
  by_cases hrest : rest = []
  · simp [hrest]
  · simp [hrest, Store.get]

lemma get_indexRows : (indexRows s vid direction).get rest =
      s.get .edgeIndex (sectionKey vid (directionByte direction) rest) := by
  rw [indexRows, get_under, encodeEdgeIndexPrefix, sectionKey_append, nil_append]
  rfl

end Lookup

/-! ### What leaves a side alone -/

/-- The stores agree on every row of a side. -/
structure SameSide (s s' : Store) (vid : VertexId) (direction : Direction) : Prop where
  data : ∀ rest, s'.get .vertexData (sectionKey vid (adjacencyKind direction).byte rest) =
    s.get .vertexData (sectionKey vid (adjacencyKind direction).byte rest)
  index : ∀ rest, s'.get .edgeIndex (sectionKey vid (directionByte direction) rest) =
    s.get .edgeIndex (sectionKey vid (directionByte direction) rest)

variable {s' : Store}

lemma SameSide.sideState_eq {vid : VertexId} {direction : Direction}
    (h : SameSide s s' vid direction) : sideState s' vid direction = sideState s vid direction := by
  rw [sideState, sideState, encodeVertexDataAdjStateKey, h.data]

lemma SameSide.cachedRows_eq {vid : VertexId} {direction : Direction}
    (h : SameSide s s' vid direction) : cachedRows s' vid direction = cachedRows s vid direction := by
  apply SortedMap.ext_get
  intro rest
  rw [get_cachedRows, get_cachedRows, h.data]

lemma SameSide.indexRows_eq {vid : VertexId} {direction : Direction}
    (h : SameSide s s' vid direction) : indexRows s' vid direction = indexRows s vid direction := by
  apply SortedMap.ext_get
  intro rest
  rw [get_indexRows, get_indexRows, h.index]

lemma SideShows.of_same {vid : VertexId} {direction : Direction}
    {rows : Bytes → Option Bytes} (hshows : SideShows s vid direction rows)
    (hsame : SameSide s s' vid direction) : SideShows s' vid direction rows := by
  rw [SideShows, hsame.sideState_eq, hsame.cachedRows_eq, hsame.indexRows_eq]
  exact hshows

lemma SideInv.of_same {vid : VertexId} {direction : Direction}
    {rows : Bytes → Option Bytes} (hinv : SideInv s vid direction rows)
    (hsame : SameSide s s' vid direction) : SideInv s' vid direction rows := by
  rw [SideInv, hsame.sideState_eq, hsame.cachedRows_eq, hsame.indexRows_eq]
  exact hinv

/-- A row that belongs to one side of a vertex. -/
def sideRow (vid : VertexId) (direction : Direction) (table : TableName) (key : Bytes) : Prop :=
  (table = .vertexData ∧ ∃ rest, key = sectionKey vid (adjacencyKind direction).byte rest) ∨
  (table = .edgeIndex ∧ ∃ rest, key = sectionKey vid (directionByte direction) rest)

variable {d d' : Direction}

lemma adjacencyKind_byte_inj (hd : d ≠ .BOTH) (hd' : d' ≠ .BOTH) :
    (adjacencyKind d).byte = (adjacencyKind d').byte ↔ d = d' := by
  cases d <;> cases d' <;> simp_all [adjacencyKind, VertexDataKind.byte]

lemma directionByte_inj : directionByte d = directionByte d' ↔ d = d' := by
  cases d <;> cases d' <;> simp [directionByte]

/-- Changing one side leaves every other side alone. -/
theorem sameSide_of_changesOnly {vid vid' : VertexId}
    (h : ChangesOnly s s' (sideRow vid d)) (hd : d ≠ .BOTH) (hd' : d' ≠ .BOTH)
    (hne : ¬ (vid' = vid ∧ d' = d)) : SameSide s s' vid' d' := by
  constructor
  · intro rest
    apply h
    rintro (⟨-, rest', hkey⟩ | ⟨htable, -⟩)
    · rw [sectionKey_inj, adjacencyKind_byte_inj hd' hd] at hkey
      exact hne ⟨hkey.1, hkey.2.1⟩
    · exact absurd htable (by simp)
  · intro rest
    apply h
    rintro (⟨htable, -⟩ | ⟨-, rest', hkey⟩)
    · exact absurd htable (by simp)
    · rw [sectionKey_inj, directionByte_inj] at hkey
      exact hne ⟨hkey.1, hkey.2.1⟩

/-! ### Inserting and deleting a row of one side -/

lemma exec_getAdjacencyState (vid : VertexId) (direction : Direction) (s : Store) :
    exec (getAdjacencyState vid direction) s = (sideState s vid direction, s) := by
  simp [getAdjacencyState, sideState]

section OneSide

variable {s : Store} {vid : VertexId} {direction : Direction} {rows : Bytes → Option Bytes}

lemma sideState_put_state (s : Store) (vid : VertexId) (direction : Direction)
    (state : AdjacencyCacheState) (count : UInt32) :
    sideState (s.put .vertexData (encodeVertexDataAdjStateKey vid direction)
      (encodeAdjacencyState state count)) vid direction = some (state, count) := by
  simp [sideState, decodeAdjacencyState_encode]

lemma sideState_put_index (key value : Bytes) :
    sideState (s.put .edgeIndex key value) vid direction = sideState s vid direction := by
  rw [sideState, sideState, put_get_of_ne _ _ _ _ _ _ (inl (by simp))]

lemma sideState_del_index (key : Bytes) :
    sideState (s.del .edgeIndex key) vid direction = sideState s vid direction := by
  rw [sideState, sideState, del_get_of_ne _ _ _ _ _ (inl (by simp))]

/-- State rows and cached rows of a side have different keys. -/
theorem cachedRows_put_state (value : Bytes) :
    cachedRows (s.put .vertexData (encodeVertexDataAdjStateKey vid direction) value) vid direction =
      cachedRows s vid direction := by
  apply SortedMap.ext_get
  intro rest
  rw [get_cachedRows, get_cachedRows]
  by_cases hrest : rest = []
  · rw [if_pos hrest, if_pos hrest]
  · rw [if_neg hrest, if_neg hrest, put_get_of_ne]
    right
    simp [encodeVertexDataAdjStateKey, hrest]

lemma indexRows_put_data (key value : Bytes) :
    indexRows (s.put .vertexData key value) vid direction = indexRows s vid direction := by
  apply SortedMap.ext_get
  intro rest
  rw [get_indexRows, get_indexRows, put_get_of_ne _ _ _ _ _ _ (inl (by simp))]

lemma indexRows_del_data (key : Bytes) :
    indexRows (s.del .vertexData key) vid direction = indexRows s vid direction := by
  apply SortedMap.ext_get
  intro rest
  rw [get_indexRows, get_indexRows, del_get_of_ne _ _ _ _ _ (inl (by simp))]

lemma cachedRows_put_index (key value : Bytes) :
    cachedRows (s.put .edgeIndex key value) vid direction = cachedRows s vid direction := by
  apply SortedMap.ext_get
  intro rest
  rw [get_cachedRows, get_cachedRows, put_get_of_ne _ _ _ _ _ _ (inl (by simp))]

lemma cachedRows_del_index (key : Bytes) :
    cachedRows (s.del .edgeIndex key) vid direction = cachedRows s vid direction := by
  apply SortedMap.ext_get
  intro rest
  rw [get_cachedRows, get_cachedRows, del_get_of_ne _ _ _ _ _ (inl (by simp))]

variable {rest : Bytes}

lemma cachedRows_put_row (hrest : rest ≠ []) (value : Bytes) :
    cachedRows (s.put .vertexData (sectionKey vid (adjacencyKind direction).byte rest) value)
      vid direction = (cachedRows s vid direction).put rest value := by
  apply SortedMap.ext_get
  intro rest'
  rw [get_put, get_cachedRows, get_cachedRows, put_get]
  by_cases hrest' : rest' = rest
  · simp [hrest', hrest]
  · simp [hrest']

lemma cachedRows_del_row (rest : Bytes) :
    cachedRows (s.del .vertexData (sectionKey vid (adjacencyKind direction).byte rest))
      vid direction = (cachedRows s vid direction).del rest := by
  apply SortedMap.ext_get
  intro rest'
  rw [get_del, get_cachedRows, get_cachedRows, del_get]
  by_cases hrest' : rest' = rest
  · simp [hrest']
  · simp [hrest']

lemma indexRows_put_row (rest value : Bytes) :
    indexRows (s.put .edgeIndex (sectionKey vid (directionByte direction) rest) value)
      vid direction = (indexRows s vid direction).put rest value := by
  apply SortedMap.ext_get
  intro rest'
  rw [get_put, get_indexRows, get_indexRows, put_get]
  by_cases hrest' : rest' = rest
  · simp [hrest']
  · simp [hrest']

lemma indexRows_del_row (rest : Bytes) :
    indexRows (s.del .edgeIndex (sectionKey vid (directionByte direction) rest))
      vid direction = (indexRows s vid direction).del rest := by
  apply SortedMap.ext_get
  intro rest'
  rw [get_del, get_indexRows, get_indexRows, del_get]
  by_cases hrest' : rest' = rest
  · simp [hrest']
  · simp [hrest']

/-- The rows with one of them set or removed. -/
def setRow (rows : Bytes → Option Bytes) (rest : Bytes) (value : Option Bytes) :
    Bytes → Option Bytes := Function.update rows rest value

lemma get_put_setRow {m : Table} (h : ∀ rest, m.get rest = rows rest) (rest value : Bytes)
    (rest' : Bytes) : (m.put rest value).get rest' = setRow rows rest (some value) rest' := by
  rw [get_put, setRow]
  by_cases hrest : rest' = rest
  · simp [hrest]
  · simp [hrest, h]

lemma get_del_setRow {m : Table} (h : ∀ rest, m.get rest = rows rest) (rest rest' : Bytes) :
    (m.del rest).get rest' = setRow rows rest none rest' := by
  rw [get_del, setRow]
  by_cases hrest : rest' = rest
  · simp [hrest]
  · simp [hrest, h]

lemma adjacencySuffix_ne_nil (l : EdgeLabelId) (n : VertexId) (q : UInt64) : adjacencySuffix l n q ≠ [] := by
  intro h
  have hlen := congrArg List.length h
  simp at hlen

variable {count : UInt32}

/-- The facts behind a `COMPLETE` side. -/
theorem SideShows.complete (hshows : SideShows s vid direction rows)
    (hstate : sideState s vid direction = some (.COMPLETE, count)) :
    (∀ rest, (cachedRows s vid direction).get rest = rows rest) ∧
    (∀ rest, (indexRows s vid direction).get rest = none) := by
  unfold SideShows at hshows
  rw [hstate] at hshows
  exact hshows

/-- The facts behind any other side. -/
theorem SideShows.indexed (hshows : SideShows s vid direction rows)
    (hstate : ∀ count, sideState s vid direction ≠ some (.COMPLETE, count)) :
    (∀ rest, (cachedRows s vid direction).get rest = none) ∧
    (∀ rest, (indexRows s vid direction).get rest = rows rest) := by
  unfold SideShows at hshows
  split at hshows
  · rename_i count hcomplete
    exact absurd hcomplete (hstate count)
  · exact hshows

lemma SideShows.of_complete (hstate : sideState s vid direction = some (.COMPLETE, count))
    (hcached : ∀ rest, (cachedRows s vid direction).get rest = rows rest)
    (hindex : ∀ rest, (indexRows s vid direction).get rest = none) :
    SideShows s vid direction rows := by
  rw [SideShows, hstate]
  exact ⟨hcached, hindex⟩

lemma SideShows.of_indexed (hstate : ∀ count, sideState s vid direction ≠ some (.COMPLETE, count))
    (hcached : ∀ rest, (cachedRows s vid direction).get rest = none)
    (hindex : ∀ rest, (indexRows s vid direction).get rest = rows rest) :
    SideShows s vid direction rows := by
  unfold SideShows
  split
  · rename_i count hcomplete
    exact absurd hcomplete (hstate count)
  · exact ⟨hcached, hindex⟩

/-- A side that is not `COMPLETE` takes a new row in `edge_index`. -/
theorem SideShows.put_index (hshows : SideShows s vid direction rows)
    (hstate : ∀ count, sideState s vid direction ≠ some (.COMPLETE, count)) (rest value : Bytes) :
    SideShows (s.put .edgeIndex (sectionKey vid (directionByte direction) rest) value)
      vid direction (setRow rows rest (some value)) := by
  obtain ⟨hcached, hindex⟩ := hshows.indexed hstate
  refine .of_indexed (by rwa [sideState_put_index]) ?_ ?_
  · rwa [cachedRows_put_index]
  · rw [indexRows_put_row]
    exact get_put_setRow hindex rest value

lemma SideShows.del_index (hshows : SideShows s vid direction rows)
    (hstate : ∀ count, sideState s vid direction ≠ some (.COMPLETE, count)) (rest : Bytes) :
    SideShows (s.del .edgeIndex (sectionKey vid (directionByte direction) rest))
      vid direction (setRow rows rest none) := by
  obtain ⟨hcached, hindex⟩ := hshows.indexed hstate
  refine .of_indexed (by rwa [sideState_del_index]) ?_ ?_
  · rwa [cachedRows_del_index]
  · rw [indexRows_del_row]
    exact get_del_setRow hindex rest

/-- A `COMPLETE` side takes a new row into the cache. -/
theorem SideShows.put_cached (hshows : SideShows s vid direction rows)
    (hstate : sideState s vid direction = some (.COMPLETE, count))
    (hrest : rest ≠ []) (value : Bytes) (count' : UInt32) :
    SideShows ((s.put .vertexData (sectionKey vid (adjacencyKind direction).byte rest) value).put
      .vertexData (encodeVertexDataAdjStateKey vid direction)
      (encodeAdjacencyState .COMPLETE count')) vid direction (setRow rows rest (some value)) := by
  obtain ⟨hcached, hindex⟩ := hshows.complete hstate
  refine .of_complete (sideState_put_state _ vid direction .COMPLETE count') ?_ ?_
  · rw [cachedRows_put_state, cachedRows_put_row hrest]
    exact get_put_setRow hcached rest value
  · rwa [indexRows_put_data, indexRows_put_data]

lemma SideShows.del_cached (hshows : SideShows s vid direction rows)
    (hstate : sideState s vid direction = some (.COMPLETE, count)) (rest : Bytes) (count' : UInt32) :
    SideShows ((s.del .vertexData (sectionKey vid (adjacencyKind direction).byte rest)).put
      .vertexData (encodeVertexDataAdjStateKey vid direction)
      (encodeAdjacencyState .COMPLETE count')) vid direction (setRow rows rest none) := by
  obtain ⟨hcached, hindex⟩ := hshows.complete hstate
  refine .of_complete (sideState_put_state _ vid direction .COMPLETE count') ?_ ?_
  · rw [cachedRows_put_state, cachedRows_del_row]
    exact get_del_setRow hcached rest
  · rwa [indexRows_put_data, indexRows_del_data]

/-! ### Counting the cached rows -/

/-- A side that is not `COMPLETE` counts nothing. -/
theorem SideShows.inv (hshows : SideShows s vid direction rows)
    (hstate : ∀ count, sideState s vid direction ≠ some (.COMPLETE, count)) :
    SideInv s vid direction rows :=
  sideInv_iff.mpr ⟨hshows, fun count heq => absurd heq (hstate count)⟩

lemma SideShows.inv_counted (hshows : SideShows s vid direction rows)
    (hstate : sideState s vid direction = some (.COMPLETE, count))
    (hsize : count.toNat = (cachedRows s vid direction).size) : SideInv s vid direction rows := by
  refine sideInv_iff.mpr ⟨hshows, fun count' heq => ?_⟩
  rw [hstate, Option.some.injEq, Prod.mk.injEq] at heq
  rw [← heq.2, hsize]

lemma SideInv.put_index (hinv : SideInv s vid direction rows)
    (hstate : ∀ count, sideState s vid direction ≠ some (.COMPLETE, count)) (rest value : Bytes) :
    SideInv (s.put .edgeIndex (sectionKey vid (directionByte direction) rest) value)
      vid direction (setRow rows rest (some value)) :=
  (hinv.shows.put_index hstate rest value).inv (by rwa [sideState_put_index])

lemma SideInv.del_index (hinv : SideInv s vid direction rows)
    (hstate : ∀ count, sideState s vid direction ≠ some (.COMPLETE, count)) (rest : Bytes) :
    SideInv (s.del .edgeIndex (sectionKey vid (directionByte direction) rest))
      vid direction (setRow rows rest none) :=
  (hinv.shows.del_index hstate rest).inv (by rwa [sideState_del_index])

lemma SideInv.complete (hinv : SideInv s vid direction rows)
    (hstate : sideState s vid direction = some (.COMPLETE, count)) :
    (∀ rest, (cachedRows s vid direction).get rest = rows rest) ∧
    (∀ rest, (indexRows s vid direction).get rest = none) ∧
    count.toNat = (cachedRows s vid direction).size :=
  ⟨(hinv.shows.complete hstate).1, (hinv.shows.complete hstate).2, (sideInv_iff.mp hinv).2 count hstate⟩

lemma SideInv.indexed (hinv : SideInv s vid direction rows)
    (hstate : ∀ count, sideState s vid direction ≠ some (.COMPLETE, count)) :
    (∀ rest, (cachedRows s vid direction).get rest = none) ∧
    (∀ rest, (indexRows s vid direction).get rest = rows rest) := hinv.shows.indexed hstate

/-- A `COMPLETE` side takes a new row into the cache and counts it. -/
theorem SideInv.put_cached (hinv : SideInv s vid direction rows)
    (hstate : sideState s vid direction = some (.COMPLETE, count))
    (hrest : rest ≠ []) (hfresh : rows rest = none) (hcount : count.toNat + 1 < 2 ^ 32)
    (value : Bytes) :
    SideInv ((s.put .vertexData (sectionKey vid (adjacencyKind direction).byte rest) value).put
      .vertexData (encodeVertexDataAdjStateKey vid direction)
      (encodeAdjacencyState .COMPLETE (count + 1))) vid direction
      (setRow rows rest (some value)) := by
  obtain ⟨hcached, -, hsize⟩ := hinv.complete hstate
  have hadd : (count + 1).toNat = count.toNat + 1 := by
    rw [UInt32.toNat_add]
    exact Nat.mod_eq_of_lt hcount
  refine (hinv.shows.put_cached hstate hrest value (count + 1)).inv_counted
    (sideState_put_state _ vid direction .COMPLETE _) ?_
  rw [cachedRows_put_state, cachedRows_put_row hrest, size_put, hcached, hfresh, hadd, hsize]
  rfl

lemma SideInv.del_cached (hinv : SideInv s vid direction rows)
    (hstate : sideState s vid direction = some (.COMPLETE, count))
    (hlive : (rows rest).isSome) :
    SideInv ((s.del .vertexData (sectionKey vid (adjacencyKind direction).byte rest)).put
      .vertexData (encodeVertexDataAdjStateKey vid direction)
      (encodeAdjacencyState .COMPLETE (if count > 0 then count - 1 else 0))) vid direction
      (setRow rows rest none) := by
  obtain ⟨hcached, -, hsize⟩ := hinv.complete hstate
  have hdel := size_del_add_one (m := cachedRows s vid direction) (k := rest) (by rw [hcached]; exact hlive)
  have hpos : (0 : UInt32) < count := by
    rw [UInt32.lt_iff_toNat_lt]
    change 0 < count.toNat
    omega
  have hsub : (count - 1).toNat = count.toNat - 1 := by
    rw [UInt32.toNat_sub_of_le]
    · rfl
    · rw [UInt32.le_iff_toNat_le]
      change 1 ≤ count.toNat
      omega
  refine (hinv.shows.del_cached hstate rest _).inv_counted (sideState_put_state _ vid direction .COMPLETE _) ?_
  rw [cachedRows_put_state, cachedRows_del_row, if_pos hpos, hsub]
  omega

/-! ### Promotion -/

/-- The scan of a side, without its state row, lists the cached rows. -/
theorem cachedRows_scan (s : Store) (vid : VertexId) (direction : Direction) :
    (prefixRecords (s .vertexData) (encodeVertexDataAdjPrefix vid direction)).filter
        (fun row => !isVertexDataAdjStateKey row.1) =
      (cachedRows s vid direction).entries.map fun e =>
        (sectionKey vid (adjacencyKind direction).byte e.1, e.2) := by
  have hfilter : (cachedRows s vid direction).entries =
      (under (s .vertexData) (encodeVertexDataAdjPrefix vid direction)).entries.filter
        ((fun row : Record => !isVertexDataAdjStateKey row.1) ∘ fun e : Record =>
          (encodeVertexDataAdjPrefix vid direction ++ e.1, e.2)) := by
    rw [cachedRows, SortedMap.del, SortedMap.filterKeys]
    apply filter_congr
    intro e _
    simp [isVertexDataAdjStateKey, encodeVertexDataAdjPrefix, encodeVertexDataAdjStateKey, sectionKey_append]
  rw [prefixRecords_eq_under, filter_map, hfilter]
  refine map_congr_left fun e _ => ?_
  rw [encodeVertexDataAdjPrefix, encodeVertexDataAdjStateKey, sectionKey_append, nil_append]

lemma promotedKey_sectionKey (vid : VertexId) (direction : Direction) (sec : UInt8)
    (l : EdgeLabelId) (n : VertexId) (q : UInt64) :
    promotedKey direction (sectionKey vid sec (adjacencySuffix l n q)) =
      sectionKey vid (directionByte direction) (adjacencySuffix l n q) := by
  obtain ⟨hvid, hl, hn, hq⟩ := decode_sectionKey_adjacencySuffix vid sec l n q
  simp only [promotedKey, encodeEdgeIndexKey, decodeVertexDataAdjEdgeKey, hvid, hl, hn, hq]

/-- The rows a promotion writes, and the keys it deletes. -/
theorem exec_promoteAdjacency (hshows : SideShows s vid direction rows) (hrows : WellFormedRows rows)
    (hstate : sideState s vid direction = some (.COMPLETE, count)) :
    exec (promoteAdjacency vid direction) s = (true,
      ((s.putAll .edgeIndex ((cachedRows s vid direction).entries.map fun e =>
          (sectionKey vid (directionByte direction) e.1, e.2))).delAll .vertexData
        ((cachedRows s vid direction).entries.map fun e =>
          sectionKey vid (adjacencyKind direction).byte e.1)).put .vertexData
        (encodeVertexDataAdjStateKey vid direction) (encodeAdjacencyState .OVERFLOW 0)) := by
  obtain ⟨hcached, -⟩ := hshows.complete hstate
  have hkeys : ∀ e ∈ (cachedRows s vid direction).entries,
      promotedKey direction (sectionKey vid (adjacencyKind direction).byte e.1) =
        sectionKey vid (directionByte direction) e.1 := by
    intro e he
    have hrow := (mem_entries_iff _ e.1 e.2).mp he
    rw [hcached] at hrow
    obtain ⟨l, n, q, hrest⟩ := hrows e.1 e.2 hrow
    rw [hrest]
    exact promotedKey_sectionKey vid direction _ l n q
  have hpromoted : (cachedRows s vid direction).entries.map (fun e =>
      (sectionKey vid (directionByte direction) e.1, e.2)) =
        ((cachedRows s vid direction).entries.map fun e =>
          (sectionKey vid (adjacencyKind direction).byte e.1, e.2)).map fun row =>
            (promotedKey direction row.1, row.2) := by
    rw [map_map]
    refine map_congr_left fun e he => ?_
    simp [hkeys e he]
  have hput : ∀ (row : Record) s', exec (tablePut .raw .edgeIndex (promotedKey direction row.1) row.2) s' =
        (true, Store.put s' .edgeIndex (promotedKey direction row.1) row.2) := fun row s' => rfl
  have hdel : ∀ (row : Record) s', (exec (tableDel .raw .vertexData row.1) s').2 =
      Store.del s' .vertexData row.1 := fun row s' => rfl
  simp only [promoteAdjacency, exec_bind, exec_tableScan]
  rw [exec_andThen (exec_allOf _ hput _), exec_bind, exec_forEach _ hdel, putAdjacencyState,
    exec_tablePut, cachedRows_scan, hpromoted]
  simp only [putAll, delAll, foldl_map]

lemma entries_nodup (t : Table) {key : Bytes → Bytes} (hkey : Function.Injective key) :
    ((t.entries.map fun e => (key e.1, e.2)).map Prod.fst).Nodup := by
  rw [map_map]
  exact List.Pairwise.map _ (fun a b hlt heq => absurd (hkey heq) (ne_of_lt hlt)) t.sorted

lemma sectionKey_injective (vid : VertexId) (sec : UInt8) :
    Function.Injective (sectionKey vid sec) := fun _ _ h => (sectionKey_inj.mp h).2.2

/-- After a promotion the side is `OVERFLOW` and presents the same rows. -/
theorem SideShows.promote (hshows : SideShows s vid direction rows) (hrows : WellFormedRows rows)
    (hstate : sideState s vid direction = some (.COMPLETE, count)) :
    SideShows (exec (promoteAdjacency vid direction) s).2 vid direction rows ∧
    sideState (exec (promoteAdjacency vid direction) s).2 vid direction = some (.OVERFLOW, 0) := by
  obtain ⟨hcached, hindex⟩ := hshows.complete hstate
  rw [exec_promoteAdjacency hshows hrows hstate]
  have hover := sideState_put_state
    ((s.putAll .edgeIndex ((cachedRows s vid direction).entries.map fun e =>
      (sectionKey vid (directionByte direction) e.1, e.2))).delAll .vertexData
      ((cachedRows s vid direction).entries.map fun e =>
        sectionKey vid (adjacencyKind direction).byte e.1)) vid direction .OVERFLOW 0
  refine ⟨.of_indexed (by simp [hover]) ?_ ?_, hover⟩
  · intro rest
    rw [cachedRows_put_state, get_cachedRows, delAll_get]
    by_cases hrest : rest = []
    · rw [if_pos hrest]
    · rw [if_neg hrest]
      by_cases hmem : sectionKey vid (adjacencyKind direction).byte rest ∈
          (cachedRows s vid direction).entries.map fun e =>
            sectionKey vid (adjacencyKind direction).byte e.1
      · rw [if_pos ⟨rfl, hmem⟩]
      · -- a row that was not cached is not there either
        rw [if_neg fun h => hmem h.2, putAll_get_of_not_mem _ _ _ _ _ (inl (by simp))]
        have hget := get_cachedRows s vid direction rest
        rw [if_neg hrest] at hget
        rw [← hget]
        by_contra hsome
        obtain ⟨value, hvalue⟩ := Option.ne_none_iff_exists'.mp hsome
        have hentry := (mem_entries_iff _ rest value).mpr hvalue
        exact hmem (mem_map.mpr ⟨(rest, value), hentry, rfl⟩)
  · intro rest
    rw [indexRows_put_data, get_indexRows, delAll_get, if_neg (by simp), ← hcached]
    cases hrow : (cachedRows s vid direction).get rest with
    | none =>
      rw [putAll_get_of_not_mem, ← get_indexRows, hindex]
      right
      intro value hmem
      obtain ⟨e, he, heq⟩ := mem_map.mp hmem
      obtain ⟨hkey, -⟩ := Prod.mk.inj heq
      obtain ⟨-, -, rfl⟩ := sectionKey_inj.mp hkey
      have hsome := (mem_entries_iff _ e.1 e.2).mp he
      rw [hrow] at hsome
      exact absurd hsome (by simp)
    | some value =>
      have hentry := (mem_entries_iff _ rest value).mpr hrow
      exact putAll_get_of_mem _ _ _ _ _ (entries_nodup _ (sectionKey_injective vid (directionByte direction)))
        (mem_map.mpr ⟨(rest, value), hentry, rfl⟩)

lemma changesOnly_promote (hshows : SideShows s vid direction rows) (hrows : WellFormedRows rows)
    (hstate : sideState s vid direction = some (.COMPLETE, count)) :
    ChangesOnly s (exec (promoteAdjacency vid direction) s).2 (sideRow vid direction) := by
  rw [exec_promoteAdjacency hshows hrows hstate]
  refine (((ChangesOnly.refl s _).putAll _ _ ?_).delAll _ _ ?_).put ?_ _
  · intro row hrow
    obtain ⟨e, -, rfl⟩ := mem_map.mp hrow
    exact inr ⟨rfl, e.1, rfl⟩
  · intro key hkey
    obtain ⟨e, -, rfl⟩ := mem_map.mp hkey
    exact inl ⟨rfl, e.1, rfl⟩
  · exact inl ⟨rfl, [], rfl⟩

end OneSide

/-! ### The adjacency operations on their side -/

/-- The row of an adjacency key within its side. -/
def suffixOf (k : EdgeIndexKey) : Bytes := adjacencySuffix k.edgeLabelId k.neighborId k.seq

/-- With capacity `0` no side ever has a state row. -/
def SideOk (capacity : UInt32) (s : Store) (vid : VertexId) (direction : Direction)
    (rows : Bytes → Option Bytes) : Prop :=
  SideInv s vid direction rows ∧ WellFormedRows rows ∧
    (capacity = 0 → sideState s vid direction = none)

/-- `SideOk` without the count. -/
def SideShown (capacity : UInt32) (s : Store) (vid : VertexId) (direction : Direction)
    (rows : Bytes → Option Bytes) : Prop :=
  SideShows s vid direction rows ∧ WellFormedRows rows ∧
    (capacity = 0 → sideState s vid direction = none)

lemma SideOk.shown {capacity : UInt32} {vid : VertexId} {direction : Direction}
    {rows : Bytes → Option Bytes} (h : SideOk capacity s vid direction rows) :
    SideShown capacity s vid direction rows := ⟨h.1.shows, h.2⟩

/-- A program that succeeds, sets one row of the key's side and touches nothing else; what
is known of a side is `Holds`. -/
def SetsRowOf (Holds : Store → VertexId → Direction → (Bytes → Option Bytes) → Prop)
    (p : StoreM Bool) (s : Store) (k : EdgeIndexKey) (rows : Bytes → Option Bytes)
    (value : Option Bytes) : Prop :=
  (exec p s).1 = true ∧
    Holds (exec p s).2 k.vertexId k.direction (setRow rows (suffixOf k) value) ∧
    ChangesOnly s (exec p s).2 (sideRow k.vertexId k.direction)

def SetsRow (capacity : UInt32) (p : StoreM Bool) (s : Store) (k : EdgeIndexKey)
    (rows : Bytes → Option Bytes) (value : Option Bytes) : Prop :=
  (exec p s).1 = true ∧
    SideOk capacity (exec p s).2 k.vertexId k.direction (setRow rows (suffixOf k) value) ∧
    ChangesOnly s (exec p s).2 (sideRow k.vertexId k.direction)

lemma WellFormedRows.setRow {rows : Bytes → Option Bytes} (h : WellFormedRows rows)
    (k : EdgeIndexKey) (value : Option Bytes) :
    WellFormedRows (DataStore.setRow rows (suffixOf k) value) := by
  intro rest v hv
  by_cases hrest : rest = suffixOf k
  · exact ⟨_, _, _, hrest⟩
  · rw [DataStore.setRow, Function.update_of_ne hrest] at hv
    exact h rest v hv

section Operations

variable {capacity : UInt32} {s : Store} {k : EdgeIndexKey} {rows : Bytes → Option Bytes}

/-! The operations by the state of the side. -/

lemma exec_insertAdjacencyEdge_indexed
    (hstate : capacity = 0 ∨ ∀ count, sideState s k.vertexId k.direction ≠ some (.COMPLETE, count))
    (eid : EdgeId) : exec (insertAdjacencyEdge capacity k eid) s =
      (true, s.put .edgeIndex (encodeEdgeIndexKey k) (encodeU64 eid)) := by
  by_cases hcap : capacity = 0
  · simp [insertAdjacencyEdge, hcap]
  · have hother := hstate.resolve_left hcap
    simp only [insertAdjacencyEdge, if_neg hcap, exec_bind, exec_getAdjacencyState]
    split
    · rfl
    · rfl
    · rename_i count heq
      exact absurd heq (hother count)

lemma exec_insertAdjacencyEdge_cached (hcap : capacity ≠ 0) {count : UInt32}
    (hstate : sideState s k.vertexId k.direction = some (.COMPLETE, count))
    (hroom : ¬ count ≥ capacity) (eid : EdgeId) : exec (insertAdjacencyEdge capacity k eid) s =
      (true, (s.put .vertexData (encodeVertexDataAdjEdgeKey k) (encodeU64 eid)).put
        .vertexData (encodeVertexDataAdjStateKey k.vertexId k.direction)
        (encodeAdjacencyState .COMPLETE (count + 1))) := by
  simp [insertAdjacencyEdge, hcap, exec_getAdjacencyState, hstate, hroom, putAdjacencyState]

/-- A full side is promoted first, then the row goes to `edge_index`. -/
theorem exec_insertAdjacencyEdge_full (hshows : SideShows s k.vertexId k.direction rows)
    (hrows : WellFormedRows rows) (hcap : capacity ≠ 0) {count : UInt32}
    (hstate : sideState s k.vertexId k.direction = some (.COMPLETE, count))
    (hfull : count ≥ capacity) (eid : EdgeId) : exec (insertAdjacencyEdge capacity k eid) s =
      (true, (exec (promoteAdjacency k.vertexId k.direction) s).2.put .edgeIndex
        (encodeEdgeIndexKey k) (encodeU64 eid)) := by
  have hsucc : exec (promoteAdjacency k.vertexId k.direction) s =
      (true, (exec (promoteAdjacency k.vertexId k.direction) s).2) := by
    rw [exec_promoteAdjacency hshows hrows hstate]
  simp only [insertAdjacencyEdge, if_neg hcap, exec_bind, exec_getAdjacencyState, hstate, if_pos hfull]
  exact exec_andThen hsucc

lemma exec_dropAdjacencyRow_indexed
    (hstate : ∀ count, sideState s k.vertexId k.direction ≠ some (.COMPLETE, count)) :
    exec (dropAdjacencyRow k) s = (true, s.del .edgeIndex (encodeEdgeIndexKey k)) := by
  simp only [dropAdjacencyRow, exec_bind, exec_getAdjacencyState]
  rfl

lemma exec_dropAdjacencyRow_cached {count : UInt32}
    (hstate : sideState s k.vertexId k.direction = some (.COMPLETE, count)) :
    exec (dropAdjacencyRow k) s = (true, (s.del .vertexData (encodeVertexDataAdjEdgeKey k)).put .vertexData
        (encodeVertexDataAdjStateKey k.vertexId k.direction)
        (encodeAdjacencyState .COMPLETE (if count > 0 then count - 1 else 0))) := by
  simp [dropAdjacencyRow, exec_getAdjacencyState, hstate, putAdjacencyState]

/-- Without the cache an edge is deleted from `edge_index`. -/
theorem exec_deleteAdjacencyEdge (hzero : capacity = 0 → sideState s k.vertexId k.direction = none) :
    exec (deleteAdjacencyEdge capacity k) s = exec (dropAdjacencyRow k) s := by
  by_cases hcap : capacity = 0
  · rw [exec_dropAdjacencyRow_indexed (by simp [hzero hcap])]
    simp [deleteAdjacencyEdge, hcap]
  · simp [deleteAdjacencyEdge, hcap]

/-! What they do to the rows of a side. -/

lemma changesOnly_putIndex (value : Bytes) :
    ChangesOnly s (s.put .edgeIndex (encodeEdgeIndexKey k) value) (sideRow k.vertexId k.direction) :=
  (ChangesOnly.refl s _).put (inr ⟨rfl, _, rfl⟩) value

lemma changesOnly_putCached (value state : Bytes) :
    ChangesOnly s ((s.put .vertexData (encodeVertexDataAdjEdgeKey k) value).put .vertexData
      (encodeVertexDataAdjStateKey k.vertexId k.direction) state) (sideRow k.vertexId k.direction) :=
  ((ChangesOnly.refl s _).put (inl ⟨rfl, _, rfl⟩) _).put (inl ⟨rfl, [], rfl⟩) _

lemma changesOnly_delCached (state : Bytes) :
    ChangesOnly s ((s.del .vertexData (encodeVertexDataAdjEdgeKey k)).put .vertexData
      (encodeVertexDataAdjStateKey k.vertexId k.direction) state) (sideRow k.vertexId k.direction) :=
  ((ChangesOnly.refl s _).del (inl ⟨rfl, _, rfl⟩)).put (inl ⟨rfl, [], rfl⟩) _

lemma SideShown.insert (h : SideShown capacity s k.vertexId k.direction rows) (eid : EdgeId) :
    SetsRowOf (SideShown capacity) (insertAdjacencyEdge capacity k eid) s k rows
      (some (encodeU64 eid)) := by
  obtain ⟨hshows, hrows, hzero⟩ := h
  by_cases hcomplete : ∃ count, sideState s k.vertexId k.direction = some (.COMPLETE, count)
  · obtain ⟨count, hstate⟩ := hcomplete
    have hcap : capacity ≠ 0 := fun hcap => by simp [hzero hcap] at hstate
    by_cases hfull : count ≥ capacity
    · obtain ⟨hpromoted, hover⟩ := hshows.promote hrows hstate
      rw [SetsRowOf, exec_insertAdjacencyEdge_full hshows hrows hcap hstate hfull]
      refine ⟨rfl, ⟨hpromoted.put_index (by simp [hover]) _ _, hrows.setRow k _, fun hc => absurd hc hcap⟩,
        (changesOnly_promote hshows hrows hstate).trans (changesOnly_putIndex _)⟩
    · rw [SetsRowOf, exec_insertAdjacencyEdge_cached hcap hstate hfull]
      exact ⟨rfl, ⟨hshows.put_cached hstate (adjacencySuffix_ne_nil _ _ _) _ _, hrows.setRow k _,
        fun hc => absurd hc hcap⟩, changesOnly_putCached _ _⟩
  · have hother : ∀ count, sideState s k.vertexId k.direction ≠ some (.COMPLETE, count) :=
      fun count heq => hcomplete ⟨count, heq⟩
    rw [SetsRowOf, exec_insertAdjacencyEdge_indexed (inr hother)]
    refine ⟨rfl, ⟨hshows.put_index hother _ _, hrows.setRow k _, fun hcap => ?_⟩, changesOnly_putIndex _⟩
    rw [sideState_put_index]
    exact hzero hcap

/-- A new row also keeps the count. -/
theorem SideOk.insert (h : SideOk capacity s k.vertexId k.direction rows)
    (hfresh : rows (suffixOf k) = none) (eid : EdgeId) :
    SetsRow capacity (insertAdjacencyEdge capacity k eid) s k rows
      (some (encodeU64 eid)) := by
  obtain ⟨hinv, hrows, hzero⟩ := h
  by_cases hcomplete : ∃ count, sideState s k.vertexId k.direction = some (.COMPLETE, count)
  · obtain ⟨count, hstate⟩ := hcomplete
    have hcap : capacity ≠ 0 := fun hcap => by simp [hzero hcap] at hstate
    by_cases hfull : count ≥ capacity
    · obtain ⟨hpromoted, hover⟩ := hinv.shows.promote hrows hstate
      have hother : ∀ count, sideState (exec (promoteAdjacency k.vertexId k.direction) s).2 k.vertexId
          k.direction ≠ some (.COMPLETE, count) := by simp [hover]
      rw [SetsRow, exec_insertAdjacencyEdge_full hinv.shows hrows hcap hstate hfull]
      exact ⟨rfl, ⟨(hpromoted.inv hother).put_index hother _ _, hrows.setRow k _, fun hc => absurd hc hcap⟩,
        (changesOnly_promote hinv.shows hrows hstate).trans (changesOnly_putIndex _)⟩
    · have hcount : count.toNat + 1 < 2 ^ 32 := by
        have hlt : count.toNat < capacity.toNat := by
          rw [← UInt32.lt_iff_toNat_lt]
          exact UInt32.not_le.mp hfull
        have hbound := capacity.toNat_lt
        omega
      rw [SetsRow, exec_insertAdjacencyEdge_cached hcap hstate hfull]
      exact ⟨rfl, ⟨hinv.put_cached hstate (adjacencySuffix_ne_nil _ _ _) hfresh hcount _,
        hrows.setRow k _, fun hc => absurd hc hcap⟩, changesOnly_putCached _ _⟩
  · have hother : ∀ count, sideState s k.vertexId k.direction ≠ some (.COMPLETE, count) :=
      fun count heq => hcomplete ⟨count, heq⟩
    rw [SetsRow, exec_insertAdjacencyEdge_indexed (inr hother)]
    refine ⟨rfl, ⟨hinv.put_index hother _ _, hrows.setRow k _, fun hcap => ?_⟩, changesOnly_putIndex _⟩
    rw [sideState_put_index]
    exact hzero hcap

lemma SideShown.drop (h : SideShown capacity s k.vertexId k.direction rows) :
    SetsRowOf (SideShown capacity) (dropAdjacencyRow k) s k rows none := by
  obtain ⟨hshows, hrows, hzero⟩ := h
  by_cases hcomplete : ∃ count, sideState s k.vertexId k.direction = some (.COMPLETE, count)
  · obtain ⟨count, hstate⟩ := hcomplete
    rw [SetsRowOf, exec_dropAdjacencyRow_cached hstate]
    refine ⟨rfl, ⟨hshows.del_cached hstate _ _, hrows.setRow k _, fun hcap => ?_⟩, changesOnly_delCached _⟩
    exact absurd (hzero hcap) (by simp [hstate])
  · have hother : ∀ count, sideState s k.vertexId k.direction ≠ some (.COMPLETE, count) :=
      fun count heq => hcomplete ⟨count, heq⟩
    rw [SetsRowOf, exec_dropAdjacencyRow_indexed hother]
    refine ⟨rfl, ⟨hshows.del_index hother _, hrows.setRow k _, fun hcap => ?_⟩,
      (ChangesOnly.refl s _).del (inr ⟨rfl, _, rfl⟩)⟩
    rw [sideState_del_index]
    exact hzero hcap

/-- A live row leaves its side and its count, whatever the capacity. -/
theorem SideOk.drop (h : SideOk capacity s k.vertexId k.direction rows)
    (hlive : (rows (suffixOf k)).isSome) : SetsRow capacity (dropAdjacencyRow k) s k rows none := by
  obtain ⟨hinv, hrows, hzero⟩ := h
  by_cases hcomplete : ∃ count, sideState s k.vertexId k.direction = some (.COMPLETE, count)
  · obtain ⟨count, hstate⟩ := hcomplete
    rw [SetsRow, exec_dropAdjacencyRow_cached hstate]
    refine ⟨rfl, ⟨hinv.del_cached hstate hlive, hrows.setRow k _, fun hcap => ?_⟩, changesOnly_delCached _⟩
    exact absurd (hzero hcap) (by simp [hstate])
  · have hother : ∀ count, sideState s k.vertexId k.direction ≠ some (.COMPLETE, count) :=
      fun count heq => hcomplete ⟨count, heq⟩
    rw [SetsRow, exec_dropAdjacencyRow_indexed hother]
    refine ⟨rfl, ⟨hinv.del_index hother _, hrows.setRow k _, fun hcap => ?_⟩,
      (ChangesOnly.refl s _).del (inr ⟨rfl, _, rfl⟩)⟩
    rw [sideState_del_index]
    exact hzero hcap

lemma SideShown.delete (h : SideShown capacity s k.vertexId k.direction rows) :
    SetsRowOf (SideShown capacity) (deleteAdjacencyEdge capacity k) s k rows none := by
  rw [SetsRowOf, exec_deleteAdjacencyEdge h.2.2]
  exact h.drop

lemma SideOk.delete (h : SideOk capacity s k.vertexId k.direction rows) (hlive : (rows (suffixOf k)).isSome) :
    SetsRow capacity (deleteAdjacencyEdge capacity k) s k rows none := by
  rw [SetsRow, exec_deleteAdjacencyEdge h.2.2]
  exact h.drop hlive

end Operations

end Eugraph.DataStore
