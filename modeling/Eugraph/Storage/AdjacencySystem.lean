import Eugraph.Storage.Adjacency

/-!
# Runs of the adjacency cache

A run of vertex and edge operations is followed in two stores at once, one with the
cache capacity under study and one with capacity `0`, next to the edges that are live.
As long as no vertex with live edges is inserted again and no edge is inserted under the
key of a live one, both stores present exactly the live edges.
-/

namespace Eugraph.DataStore

open Lib Lib.Program Wt KeyCodec List Option Function EdgeRef ValueCodec Store Or DataStore

/-! ### Live edges and the rows they should have -/

/-- What tells one edge from another in every key space. -/
structure EdgeKey where
  labelId : EdgeLabelId
  src : VertexId
  dst : VertexId
  seq : UInt64
  deriving DecidableEq

def EdgeRef.key (e : EdgeRef) : EdgeKey := ⟨e.labelId, e.src, e.dst, e.seq⟩

abbrev LiveEdges := EdgeKey → Option EdgeId

/-- The edge behind a row of one side of a vertex. -/
def sideKey (vid : VertexId) (direction : Direction) (l : EdgeLabelId) (n : VertexId)
    (q : UInt64) : EdgeKey :=
  if direction = .IN then ⟨l, n, vid, q⟩ else ⟨l, vid, n, q⟩

/-- The rows a side should present. -/
def sideRows (live : LiveEdges) (vid : VertexId) (direction : Direction) (rest : Bytes) :
    Option Bytes :=
  let l := decodeU16BE rest 0
  let n := decodeU64BE rest 2
  let q := decodeU64BE rest 10
  if rest = adjacencySuffix l n q then
    (live (sideKey vid direction l n q)).map encodeU64
  else none

/-- The rows an edge type's table should hold. -/
def typeRows (live : LiveEdges) (labelId : EdgeLabelId) (key : Bytes) : Option Bytes :=
  let k := decodeEdgeTypeIndexKey key
  if key = encodeEdgeTypeIndexKey k then
    (live ⟨labelId, k.srcVertexId, k.dstVertexId, k.seq⟩).map encodeU64
  else none

lemma decode_adjacencySuffix (l : EdgeLabelId) (n : VertexId) (q : UInt64) :
    decodeU16BE (adjacencySuffix l n q) 0 = l ∧ decodeU64BE (adjacencySuffix l n q) 2 = n ∧
      decodeU64BE (adjacencySuffix l n q) 10 = q := by
  refine ⟨decodeU16BE_append [] _ l rfl, decodeU64BE_append (u16BE l) _ n (by simp), ?_⟩
  have hq := decodeU64BE_append (u16BE l ++ IndexKeyCodec.u64BE n) [] q (by simp : _ = 10)
  simpa [adjacencySuffix] using hq

@[simp] lemma sideRows_adjacencySuffix (live : LiveEdges) (vid : VertexId)
    (direction : Direction) (l : EdgeLabelId) (n : VertexId) (q : UInt64) :
    sideRows live vid direction (adjacencySuffix l n q) = (live (sideKey vid direction l n q)).map encodeU64 := by
  obtain ⟨hl, hn, hq⟩ := decode_adjacencySuffix l n q
  simp [sideRows, hl, hn, hq]

lemma wellFormedRows_sideRows (live : LiveEdges) (vid : VertexId) (direction : Direction) :
    WellFormedRows (sideRows live vid direction) := by
  intro rest value h
  simp only [sideRows] at h
  split at h
  · rename_i hrest
    exact ⟨_, _, _, hrest⟩
  · exact absurd h (by simp)

@[simp] lemma typeRows_encode (live : LiveEdges) (labelId : EdgeLabelId) (k : EdgeTypeIndexKey) :
    typeRows live labelId (encodeEdgeTypeIndexKey k) =
      (live ⟨labelId, k.srcVertexId, k.dstVertexId, k.seq⟩).map encodeU64 := by
  simp [typeRows, decodeEdgeTypeIndexKey_encode]

/-! ### All sides at once -/

abbrev Sides := VertexId → Direction → Bytes → Option Bytes

/-- Set one row of one side. -/
def setSide (sides : Sides) (k : EdgeIndexKey) (value : Option Bytes) : Sides :=
  fun vid direction =>
    if vid = k.vertexId ∧ direction = k.direction then setRow (sides vid direction) (suffixOf k) value
    else sides vid direction

/-- What is known of a side, if only its own rows decide it. -/
structure SideView where
  Holds : Store → VertexId → Direction → (Bytes → Option Bytes) → Prop
  of_same : ∀ {s s' vid direction rows}, Holds s vid direction rows →
    SameSide s s' vid direction → Holds s' vid direction rows

def SidesHold (view : SideView) (s : Store) (sides : Sides) : Prop :=
  ∀ vid direction, direction ≠ .BOTH → view.Holds s vid direction (sides vid direction)

def SidesOk (capacity : UInt32) (s : Store) (sides : Sides) : Prop :=
  ∀ vid direction, direction ≠ .BOTH → SideOk capacity s vid direction (sides vid direction)

variable {vid : VertexId} {direction : Direction}

/-- Rows outside `vertex_data` and `edge_index` belong to no side. -/
theorem not_sideRow {table : TableName} {key : Bytes}
    (hdata : table ≠ .vertexData) (hindex : table ≠ .edgeIndex) :
    ¬ sideRow vid direction table key := by
  rintro (⟨h, -⟩ | ⟨h, -⟩)
  · exact hdata h
  · exact hindex h

/-- The sides with their counts. -/
def counted (capacity : UInt32) : SideView where
  Holds := SideOk capacity
  of_same h hsame :=
    ⟨h.1.of_same hsame, h.2.1, fun hcap => hsame.sideState_eq.trans (h.2.2 hcap)⟩

/-- What can be read of the sides. -/
def shown (capacity : UInt32) : SideView where
  Holds := SideShown capacity
  of_same h hsame :=
    ⟨h.1.of_same hsame, h.2.1, fun hcap => hsame.sideState_eq.trans (h.2.2 hcap)⟩

/-- A program that sets one row of one side. -/
theorem SidesHold.setsRow {view : SideView} {s : Store} {sides : Sides} {k : EdgeIndexKey}
    {p : StoreM Bool} {value : Option Bytes} (h : SidesHold view s sides)
    (hdir : k.direction ≠ .BOTH)
    (hp : SetsRowOf view.Holds p s k (sides k.vertexId k.direction) value) :
    SidesHold view (exec p s).2 (setSide sides k value) := by
  obtain ⟨-, hside, hchanges⟩ := hp
  intro vid direction hboth
  unfold setSide
  split
  · rename_i hk
    obtain ⟨rfl, rfl⟩ := hk
    exact hside
  · rename_i hk
    exact view.of_same (h vid direction hboth) (sameSide_of_changesOnly hchanges hdir hboth hk)

/-- Rows are told apart by label, neighbour and seq. -/
theorem rows_ext {rows rows' : Bytes → Option Bytes} (h : WellFormedRows rows) (h' : WellFormedRows rows')
    (heq : ∀ l n q, rows (adjacencySuffix l n q) = rows' (adjacencySuffix l n q)) :
    rows = rows' := by
  funext rest
  by_cases hrest : ∃ l n q, rest = adjacencySuffix l n q
  · obtain ⟨l, n, q, rfl⟩ := hrest
    exact heq l n q
  · have hnone : ∀ {r : Bytes → Option Bytes}, WellFormedRows r → r rest = none := by
      intro r hr
      by_contra hsome
      obtain ⟨value, hvalue⟩ := ne_none_iff_exists'.mp hsome
      exact hrest (hr rest value hvalue)
    rw [hnone h, hnone h']

lemma wellFormedRows_setSide {sides : Sides} (k : EdgeIndexKey) (value : Option Bytes)
    (h : WellFormedRows (sides vid direction)) :
    WellFormedRows (setSide sides k value vid direction) := by
  unfold setSide
  split
  · exact h.setRow k value
  · exact h

/-- Both rows of an edge, set one after the other. -/
theorem setSide_setSide (live : LiveEdges) (e : EdgeRef) (value : Option EdgeId) (vid : VertexId)
    (hdir : direction ≠ .BOTH) :
    setSide (setSide (sideRows live) e.outKey (value.map encodeU64)) e.inKey
        (value.map encodeU64) vid direction =
      sideRows (update live e.key value) vid direction := by
  refine rows_ext (wellFormedRows_setSide _ _ (wellFormedRows_setSide _ _
    (wellFormedRows_sideRows live vid direction))) (wellFormedRows_sideRows _ _ _) ?_
  intro l n q
  rw [sideRows_adjacencySuffix]
  obtain ⟨eid, src, dst, labelId, seq⟩ := e
  cases direction with
  | BOTH => exact absurd rfl hdir
  | OUT =>
    by_cases hkey : vid = src ∧ l = labelId ∧ n = dst ∧ q = seq
    · obtain ⟨rfl, rfl, rfl, rfl⟩ := hkey
      simp [setSide, inKey, outKey, setRow, suffixOf, sideKey, key]
    · have hother : sideKey vid .OUT l n q ≠ ⟨labelId, src, dst, seq⟩ := by
        simp only [sideKey, reduceCtorEq, if_false, ne_eq, EdgeKey.mk.injEq]
        tauto
      rw [key, update_of_ne hother]
      by_cases hvid : vid = src
      · have hrest : adjacencySuffix l n q ≠ adjacencySuffix labelId dst seq := by
          rw [ne_eq, adjacencySuffix_inj]
          tauto
        simp [setSide, inKey, outKey, setRow, suffixOf, hvid, update_of_ne hrest]
      · simp [setSide, inKey, outKey, hvid]
  | IN =>
    by_cases hkey : vid = dst ∧ l = labelId ∧ n = src ∧ q = seq
    · obtain ⟨rfl, rfl, rfl, rfl⟩ := hkey
      simp [setSide, inKey, outKey, setRow, suffixOf, sideKey, key]
    · have hother : sideKey vid .IN l n q ≠ ⟨labelId, src, dst, seq⟩ := by
        simp only [sideKey, if_true, ne_eq, EdgeKey.mk.injEq]
        tauto
      rw [key, update_of_ne hother]
      by_cases hvid : vid = dst
      · have hrest : adjacencySuffix l n q ≠ adjacencySuffix labelId src seq := by
          rw [ne_eq, adjacencySuffix_inj]
          tauto
        simp [setSide, inKey, outKey, setRow, suffixOf, hvid, update_of_ne hrest]
      · simp [setSide, inKey, outKey, hvid]

/-! ### Operations on a whole store -/

/-- The store presents exactly the live edges. -/
structure StoreOk (capacity : UInt32) (s : Store) (live : LiveEdges) : Prop where
  sides : SidesOk capacity s (sideRows live)
  types : ∀ labelId key, s.get (.etypeTable labelId) key = typeRows live labelId key

/-- The same, by what is known of the sides. -/
structure StoreHolds (view : SideView) (s : Store) (live : LiveEdges) : Prop where
  sides : SidesHold view s (sideRows live)
  types : ∀ labelId key, s.get (.etypeTable labelId) key = typeRows live labelId key

lemma storeOk_iff {capacity : UInt32} {s : Store} {live : LiveEdges} :
    StoreOk capacity s live ↔ StoreHolds (counted capacity) s live :=
  ⟨fun h => ⟨h.sides, h.types⟩, fun h => ⟨h.sides, h.types⟩⟩

lemma sameSide_of_frame {s s' : Store} {changed : TableName → Bytes → Prop}
    (h : ChangesOnly s s' changed)
    (hno : ∀ table key, changed table key → ¬ sideRow vid direction table key) :
    SameSide s s' vid direction := by
  constructor
  · exact fun rest => h _ _ fun hkey => hno _ _ hkey (inl ⟨rfl, rest, rfl⟩)
  · exact fun rest => h _ _ fun hkey => hno _ _ hkey (inr ⟨rfl, rest, rfl⟩)

lemma SidesHold.frame {view : SideView} {s s' : Store} {sides : Sides}
    (h : SidesHold view s sides) (changed : TableName → Bytes → Prop)
    (hchanges : ChangesOnly s s' changed)
    (hno : ∀ table key, changed table key → ∀ vid direction, ¬ sideRow vid direction table key) :
    SidesHold view s' sides := by
  intro vid direction hdir
  exact view.of_same (h vid direction hdir)
    (sameSide_of_frame hchanges fun table key hkey => hno table key hkey vid direction)

lemma typeRows_update (live : LiveEdges) (e : EdgeRef) (value : Option EdgeId)
    (labelId : EdgeLabelId) (key : Bytes) :
    typeRows (update live e.key value) labelId key =
      if labelId = e.labelId ∧ key = encodeEdgeTypeIndexKey e.typeKey then
        value.map encodeU64
      else typeRows live labelId key := by
  by_cases hkey : labelId = e.labelId ∧ key = encodeEdgeTypeIndexKey e.typeKey
  · obtain ⟨rfl, rfl⟩ := hkey
    simp [typeKey, EdgeRef.key]
  · rw [if_neg hkey]
    simp only [typeRows]
    split
    · rename_i henc
      rw [update_of_ne]
      intro heq
      apply hkey
      simp only [EdgeRef.key, EdgeKey.mk.injEq] at heq
      obtain ⟨hlabel, hsrc, hdst, hseq⟩ := heq
      refine ⟨hlabel, ?_⟩
      rw [henc, typeKey, ← hsrc, ← hdst, ← hseq]
    · rfl

lemma StoreHolds.frame {view : SideView} {s s' : Store} {live : LiveEdges}
    (h : StoreHolds view s live) {changed : TableName → Bytes → Prop}
    (hchanges : ChangesOnly s s' changed)
    (hsides : ∀ table key, changed table key → ∀ vid direction, ¬ sideRow vid direction table key)
    (htypes : ∀ labelId key, ¬ changed (.etypeTable labelId) key) : StoreHolds view s' live :=
  ⟨h.sides.frame changed hchanges hsides, fun labelId key =>
    (hchanges _ _ (htypes labelId key)).trans (h.types labelId key)⟩

section EdgeOperations

variable {view : SideView} {capacity : UInt32} {s : Store} {live : LiveEdges} {e : EdgeRef}

lemma sideRows_outKey (live : LiveEdges) (e : EdgeRef) :
    sideRows live e.src .OUT (suffixOf e.outKey) = (live e.key).map encodeU64 := by
  simp [suffixOf, outKey, sideKey, key]

lemma sideRows_inKey (live : LiveEdges) (e : EdgeRef) :
    sideRows live e.dst .IN (suffixOf e.inKey) = (live e.key).map encodeU64 := by
  simp [suffixOf, inKey, sideKey, key]

/-- A row of an edge can be set by `p` wherever the side has a row for it as `found` says. -/
def RowSetter (view : SideView) (p : EdgeIndexKey → StoreM Bool) (found : Option EdgeId)
    (value : Option EdgeId) : Prop :=
  ∀ s k rows, view.Holds s k.vertexId k.direction rows →
    rows (suffixOf k) = found.map encodeU64 →
      SetsRowOf view.Holds (p k) s k rows (value.map encodeU64)

/-- Both rows of an edge, set one after the other. -/
theorem SidesHold.setsEdge {p : EdgeIndexKey → StoreM Bool} {value : Option EdgeId}
    (h : SidesHold view s (sideRows live)) (hp : RowSetter view p (live e.key) value) :
    (exec (p e.outKey) s).1 = true ∧ (exec (p e.inKey) (exec (p e.outKey) s).2).1 = true ∧
    SidesHold view (exec (p e.inKey) (exec (p e.outKey) s).2).2
      (sideRows (update live e.key value)) ∧
    ∀ table key, table ≠ .vertexData → table ≠ .edgeIndex →
      (exec (p e.inKey) (exec (p e.outKey) s).2).2.get table key = s.get table key := by
  have hfirst := hp s e.outKey _ (h e.src .OUT (by simp)) (sideRows_outKey live e)
  have hout := h.setsRow (by simp [outKey]) hfirst
  have hsame : setSide (sideRows live) e.outKey (value.map encodeU64) e.dst .IN = sideRows live e.dst .IN := by
    simp [setSide, outKey]
  have hmid := hout e.dst .IN (by simp)
  rw [hsame] at hmid
  have hsecond := hp _ e.inKey _ hmid (sideRows_inKey live e)
  have hkept := hsecond
  rw [← hsame] at hsecond
  have hboth := hout.setsRow (k := e.inKey) (by simp [inKey]) hsecond
  refine ⟨hfirst.1, hkept.1, ?_, ?_⟩
  · intro vid direction hdir
    rw [← setSide_setSide live e value vid hdir]
    exact hboth vid direction hdir
  · intro table key hdata hindex
    rw [hkept.2.2 table key (not_sideRow hdata hindex), hfirst.2.2 table key (not_sideRow hdata hindex)]

lemma rowSetter_insert_counted {found : Option EdgeId} (hfresh : found = none) (eid : EdgeId) :
    RowSetter (counted capacity) (fun k => insertAdjacencyEdge capacity k eid) found (some eid) := by
  intro s k rows h hrow
  exact SideOk.insert h (by rw [hrow, hfresh]; rfl) eid

lemma rowSetter_delete_counted {found : Option EdgeId} (hlive : found.isSome) :
    RowSetter (counted capacity) (deleteAdjacencyEdge capacity) found none := by
  intro s k rows h hrow
  exact SideOk.delete h (by rw [hrow, isSome_map]; exact hlive)

lemma rowSetter_drop_counted {found : Option EdgeId} (hlive : found.isSome) :
    RowSetter (counted capacity) dropAdjacencyRow found none := by
  intro s k rows h hrow
  exact SideOk.drop h (by rw [hrow, isSome_map]; exact hlive)

lemma rowSetter_insert_shown (found : Option EdgeId) (eid : EdgeId) :
    RowSetter (shown capacity) (fun k => insertAdjacencyEdge capacity k eid) found (some eid) :=
  fun _ _ _ h _ => SideShown.insert h eid

lemma rowSetter_delete_shown (found : Option EdgeId) :
    RowSetter (shown capacity) (deleteAdjacencyEdge capacity) found none :=
  fun _ _ _ h _ => SideShown.delete h

lemma rowSetter_drop_shown (found : Option EdgeId) : RowSetter (shown capacity) dropAdjacencyRow found none :=
  fun _ _ _ h _ => SideShown.drop h

/-- `insertEdge` of an edge whose two rows can be set. -/
theorem StoreHolds.insertEdge (h : StoreHolds view s live)
    (hinsert : RowSetter view (fun k => insertAdjacencyEdge capacity k e.eid) (live e.key)
      (some e.eid)) (props : Properties) :
    (exec (insertEdge capacity e props) s).1 = true ∧
    StoreHolds view (exec (insertEdge capacity e props) s).2
      (update live e.key (some e.eid)) := by
  have hprops : ∀ (slot : PropId × PropertyValue) s', exec (putEdgeProperty e.labelId e.eid slot.1 slot.2) s' =
        (true, put s' (.epropTable e.labelId) (encodeEPropKey e.eid slot.1) (encode slot.2)) := fun slot s' => rfl
  -- the store once the type row and the property rows are written
  obtain ⟨s₁, hs₁⟩ : ∃ s₁, s₁ = (exec (allOf (fun slot : PropId × PropertyValue =>
      putEdgeProperty e.labelId e.eid slot.1 slot.2) (slots props))
      (s.put (.etypeTable e.labelId) (encodeEdgeTypeIndexKey e.typeKey) (encodeU64 e.eid))).2 := ⟨_, rfl⟩
  have hframe : ChangesOnly (s.put (.etypeTable e.labelId) (encodeEdgeTypeIndexKey e.typeKey)
      (encodeU64 e.eid)) s₁ fun table _ => table = .epropTable e.labelId := by
    rw [hs₁]
    exact WritesOnly.allOf (fun slot _ => WritesOnly.put _ rfl _) _
  have hsides₁ : SidesHold view s₁ (sideRows live) := by
    refine h.sides.frame (fun table _ =>
      table = .epropTable e.labelId ∨ table = .etypeTable e.labelId) ?_ ?_
    · exact ((ChangesOnly.refl s _).put (inr rfl) _).trans (hframe.mono fun table key hkey => inl hkey)
    · rintro table key (rfl | rfl) vid direction
      · exact not_sideRow (by simp) (by simp)
      · exact not_sideRow (by simp) (by simp)
  obtain ⟨hout, hin, hsides, hother⟩ := hsides₁.setsEdge hinsert
  have hexec : exec (DataStore.insertEdge capacity e props) s = (true,
      (exec (insertAdjacencyEdge capacity e.inKey e.eid)
        (exec (insertAdjacencyEdge capacity e.outKey e.eid) s₁).2).2) := by
    have hall : exec (allOf (fun slot : PropId × PropertyValue =>
        putEdgeProperty e.labelId e.eid slot.1 slot.2) (slots props))
        (s.put (.etypeTable e.labelId) (encodeEdgeTypeIndexKey e.typeKey) (encodeU64 e.eid)) = (true, s₁) := by
      rw [hs₁, exec_allOf _ hprops]
    rw [DataStore.insertEdge, exec_andThen_put, exec_andThen hall,
      exec_andThen (Prod.ext hout rfl), exec_andThen (Prod.ext hin rfl), exec_pure]
  rw [hexec]
  refine ⟨rfl, hsides, ?_⟩
  intro labelId key
  rw [hother _ _ (by simp) (by simp), hframe _ _ (by simp), put_get, h.types,
    typeRows_update]
  by_cases hlabel : labelId = e.labelId
  · simp [hlabel]
  · simp [hlabel]

lemma StoreOk.insertEdge (h : StoreOk capacity s live) (hfresh : live e.key = none) (props : Properties) :
    (exec (insertEdge capacity e props) s).1 = true ∧
    StoreOk capacity (exec (insertEdge capacity e props) s).2
      (update live e.key (some e.eid)) := by
  rw [storeOk_iff] at h ⊢
  exact h.insertEdge (rowSetter_insert_counted hfresh e.eid) props

/-- Deleting under a prefix empties it and touches nothing else. -/
theorem exec_deleteUnder_get (via : Via) (table : TableName) (pre : Bytes) (s : Store)
    (table' : TableName) (key : Bytes) :
    (exec (deleteUnder via table pre) s).2.get table' key =
      if table' = table ∧ pre <+: key then none else s.get table' key := by
  have hdel : ∀ (row : Record) s', (exec (tableDel via table row.1) s').2 = del s' table row.1 := fun row s' => rfl
  rw [deleteUnder, exec_bind, exec_tableScan, exec_forEach _ hdel]
  have hfold : (prefixRecords (s table) pre).foldl (fun s' row => del s' table row.1) s =
      s.delAll table ((prefixRecords (s table) pre).map Prod.fst) := by
    rw [delAll, foldl_map]
  change ((prefixRecords (s table) pre).foldl (fun s' row => del s' table row.1) s).get
    table' key = _
  rw [hfold, delAll_get]
  by_cases htable : table' = table
  · subst htable
    simp only [true_and]
    by_cases hpre : pre <+: key
    · rw [if_pos hpre]
      split
      · rfl
      · rename_i hmem
        -- a row under the prefix that the scan did not list is not there
        rw [← not_isSome_iff_eq_none, isSome_iff_exists]
        rintro ⟨value, hvalue⟩
        have hrow := (mem_prefixRecords (s table') pre key value).mpr ⟨hpre, hvalue⟩
        exact hmem (mem_map.mpr ⟨(key, value), hrow, rfl⟩)
    · rw [if_neg hpre, if_neg]
      intro hmem
      obtain ⟨row, hrow, rfl⟩ := mem_map.mp hmem
      exact hpre (isPrefix_of_mem_prefixRecords hrow)
  · rw [if_neg fun h => htable h.1, if_neg fun h => htable h.1]

lemma writesOnly_deleteUnder (via : Via) {table : TableName} {pre : Bytes}
    {changed : TableName → Bytes → Prop} (hkeys : ∀ key, pre <+: key → changed table key) :
    WritesOnly changed (deleteUnder via table pre) := by
  intro s table' key hno
  rw [exec_deleteUnder_get, if_neg]
  rintro ⟨rfl, hpre⟩
  exact hno (hkeys key hpre)

/-- `deleteEdge`: both sides, then the type row and the property rows. -/
theorem StoreHolds.exec_deleteEdge (h : StoreHolds view s live)
    (hdelete : RowSetter view (deleteAdjacencyEdge capacity) (live e.key) none) :
    ∃ s₁, SidesHold view s₁ (sideRows (update live e.key none)) ∧
      (∀ table key, table ≠ .vertexData → table ≠ .edgeIndex → s₁.get table key = s.get table key) ∧
      exec (deleteEdge capacity e) s = (true,
        (exec (deleteUnder .session (.epropTable e.labelId) (encodeEPropPrefix e.eid))
          (s₁.del (.etypeTable e.labelId) (encodeEdgeTypeIndexKey e.typeKey))).2) := by
  obtain ⟨hout, hin, hsides, hother⟩ := h.sides.setsEdge hdelete
  refine ⟨_, hsides, hother, ?_⟩
  rw [DataStore.deleteEdge, exec_andThen (Prod.ext hout rfl), exec_andThen (Prod.ext hin rfl)]
  simp

lemma StoreHolds.deleteEdge (h : StoreHolds view s live)
    (hdelete : RowSetter view (deleteAdjacencyEdge capacity) (live e.key) none) :
    (exec (deleteEdge capacity e) s).1 = true ∧
    StoreHolds view (exec (deleteEdge capacity e) s).2 (update live e.key none) := by
  obtain ⟨s₁, hsides, hother, hexec⟩ := h.exec_deleteEdge hdelete
  rw [hexec]
  refine ⟨rfl, ?_, ?_⟩
  · refine hsides.frame (fun table _ =>
      table = .epropTable e.labelId ∨ table = .etypeTable e.labelId) ?_ ?_
    · exact ((ChangesOnly.refl s₁ _).del (inr rfl)).trans (writesOnly_deleteUnder _ (fun _ _ => inl rfl) _)
    · rintro table key (rfl | rfl) vid direction
      · exact not_sideRow (by simp) (by simp)
      · exact not_sideRow (by simp) (by simp)
  · intro labelId key
    rw [exec_deleteUnder_get, if_neg (by simp), del_get, hother _ _ (by simp) (by simp),
      h.types, typeRows_update]
    by_cases hlabel : labelId = e.labelId
    · simp [hlabel]
    · simp [hlabel]

lemma StoreOk.exec_deleteEdge (h : StoreOk capacity s live) (hlive : (live e.key).isSome) :
    ∃ s₁, SidesOk capacity s₁ (sideRows (update live e.key none)) ∧
      (∀ table key, table ≠ .vertexData → table ≠ .edgeIndex → s₁.get table key = s.get table key) ∧
      exec (deleteEdge capacity e) s = (true,
        (exec (deleteUnder .session (.epropTable e.labelId) (encodeEPropPrefix e.eid))
          (s₁.del (.etypeTable e.labelId) (encodeEdgeTypeIndexKey e.typeKey))).2) :=
  (storeOk_iff.mp h).exec_deleteEdge (rowSetter_delete_counted hlive)

lemma StoreOk.deleteEdge (h : StoreOk capacity s live) (hlive : (live e.key).isSome) :
    (exec (deleteEdge capacity e) s).1 = true ∧
    StoreOk capacity (exec (deleteEdge capacity e) s).2 (update live e.key none) := by
  rw [storeOk_iff] at h ⊢
  exact h.deleteEdge (rowSetter_delete_counted hlive)

/-! ### `dropEdgeLabel` -/

/-- One row of the loop of `dropEdgeLabel`. -/
def dropBothRows (e : EdgeRef) : StoreM Bool := do
  let _ ← dropAdjacencyRow e.outKey
  dropAdjacencyRow e.inKey

/-- The edge behind a row of an edge type's table. -/
def typeRowEdge (labelId : EdgeLabelId) (row : Record) : EdgeRef :=
  let k := decodeEdgeTypeIndexKey row.1
  ⟨decodeU64 row.2, k.srcVertexId, k.dstVertexId, labelId, k.seq⟩

/-- The live edges after some have been dropped. -/
def dropEdges (live : LiveEdges) (edges : List EdgeRef) : LiveEdges :=
  edges.foldl (fun live e => update live e.key none) live

lemma dropEdges_apply (edges : List EdgeRef) (live : LiveEdges) (k : EdgeKey) :
    dropEdges live edges k = if k ∈ edges.map key then none else live k := by
  induction edges generalizing live with
  | nil => simp [dropEdges]
  | cons e rest ih =>
    rw [dropEdges, foldl_cons]
    change dropEdges (update live e.key none) rest k = _
    rw [ih]
    by_cases hk : k = e.key
    · simp [hk]
    · simp [hk]

/-- The loop drops edges with distinct keys, one after the other. -/
theorem SidesHold.dropLoop (edges : List EdgeRef) (h : SidesHold view s (sideRows live))
    (hnodup : (edges.map EdgeRef.key).Nodup)
    (hdrop : ∀ e ∈ edges, RowSetter view dropAdjacencyRow (live e.key) none) :
    SidesHold view (exec (forEach dropBothRows edges) s).2
      (sideRows (dropEdges live edges)) ∧
    ∀ table key, table ≠ .vertexData → table ≠ .edgeIndex →
      (exec (forEach dropBothRows edges) s).2.get table key = s.get table key := by
  induction edges generalizing s live with
  | nil => exact ⟨h, fun _ _ _ _ => rfl⟩
  | cons e rest ih =>
    rw [map_cons, nodup_cons] at hnodup
    obtain ⟨-, -, hsides, hother⟩ := h.setsEdge (hdrop e mem_cons_self)
    obtain ⟨hsides', hother'⟩ := ih hsides hnodup.2 (by
      intro e' he'
      rw [update_of_ne]
      · exact hdrop e' (mem_cons_of_mem _ he')
      · intro heq
        exact hnodup.1 (mem_map.mpr ⟨e', he', heq⟩))
    rw [forEach, exec_bind, dropBothRows, exec_bind]
    refine ⟨hsides', fun table key hdata hindex => ?_⟩
    rw [hother' table key hdata hindex, hother table key hdata hindex]

/-- The live edges without those of a label. -/
def dropLabelEdges (live : LiveEdges) (labelId : EdgeLabelId) : LiveEdges :=
  fun k => if k.labelId = labelId then none else live k

/-- A row of an edge type's table belongs to a live edge. -/
theorem StoreHolds.live_of_typeRow (h : StoreHolds view s live) {labelId : EdgeLabelId}
    {row : Record} (hrow : row ∈ prefixRecords (s (.etypeTable labelId)) []) :
    row.1 = encodeEdgeTypeIndexKey (decodeEdgeTypeIndexKey row.1) ∧ (live (typeRowEdge labelId row).key).isSome := by
  have hget := ((mem_prefixRecords _ _ _ _).mp hrow).2
  have htypes := h.types labelId row.1
  rw [Store.get, hget] at htypes
  simp only [typeRows] at htypes
  split at htypes
  · rename_i henc
    obtain ⟨eid, heid, -⟩ := map_eq_some_iff.mp htypes.symm
    exact ⟨henc, isSome_iff_exists.mpr ⟨eid, heid⟩⟩
  · exact absurd htypes (by simp)

lemma StoreHolds.nodup_typeRows (h : StoreHolds view s live) (labelId : EdgeLabelId) :
    (((prefixRecords (s (.etypeTable labelId)) []).map (typeRowEdge labelId)).map key).Nodup := by
  rw [List.map_map]
  refine nodup_map_prefixRecords fun row hrow row' hrow' heq => ?_
  obtain ⟨henc, -⟩ := h.live_of_typeRow hrow
  obtain ⟨henc', -⟩ := h.live_of_typeRow hrow'
  simp only [comp_apply, key, typeRowEdge, EdgeKey.mk.injEq, true_and] at heq
  obtain ⟨hsrc, hdst, hseq⟩ := heq
  rw [henc, henc', encodeEdgeTypeIndexKey_inj]
  cases hk : decodeEdgeTypeIndexKey row.1
  cases hk' : decodeEdgeTypeIndexKey row'.1
  simp_all

/-- The loop covers every live edge of the label. -/
theorem StoreHolds.dropEdges_typeRows (h : StoreHolds view s live) (labelId : EdgeLabelId) :
    dropEdges live ((prefixRecords (s (.etypeTable labelId)) []).map (typeRowEdge labelId)) =
      dropLabelEdges live labelId := by
  funext k
  rw [dropEdges_apply, dropLabelEdges]
  by_cases hlabel : k.labelId = labelId
  · rw [if_pos hlabel]
    split
    · rfl
    · rename_i hmem
      rw [← not_isSome_iff_eq_none, isSome_iff_exists]
      rintro ⟨eid, heid⟩
      apply hmem
      have hget := h.types labelId (encodeEdgeTypeIndexKey ⟨k.src, k.dst, k.seq⟩)
      rw [typeRows_encode] at hget
      have hk : (⟨labelId, k.src, k.dst, k.seq⟩ : EdgeKey) = k := by rw [← hlabel]
      rw [hk, heid] at hget
      have hrow := (mem_prefixRecords (s (.etypeTable labelId)) [] _ _).mpr ⟨ nil_prefix, hget⟩
      refine mem_map.mpr ⟨_, mem_map.mpr ⟨_, hrow, rfl⟩, ?_⟩
      simp [typeRowEdge, decodeEdgeTypeIndexKey_encode, key, ← hlabel]
  · rw [if_neg hlabel, if_neg]
    intro hmem
    obtain ⟨e, he, rfl⟩ := mem_map.mp hmem
    obtain ⟨row, -, rfl⟩ := mem_map.mp he
    exact hlabel rfl

lemma StoreHolds.dropEdgeLabel (h : StoreHolds view s live) (labelId : EdgeLabelId)
    (hdrop : ∀ k, (live k).isSome → RowSetter view dropAdjacencyRow (live k) none) :
    (exec (dropEdgeLabel labelId) s).1 = true ∧
    StoreHolds view (exec (dropEdgeLabel labelId) s).2 (dropLabelEdges live labelId) := by
  obtain ⟨hsides, hother⟩ := h.sides.dropLoop _ (h.nodup_typeRows labelId) (by
    intro e he
    obtain ⟨row, hrow, rfl⟩ := mem_map.mp he
    exact hdrop _ (h.live_of_typeRow hrow).2)
  rw [h.dropEdges_typeRows] at hsides
  obtain ⟨s₁, hs₁⟩ : ∃ s₁, s₁ = (exec (forEach dropBothRows
      ((prefixRecords (s (.etypeTable labelId)) []).map (typeRowEdge labelId))) s).2 := ⟨_, rfl⟩
  rw [← hs₁] at hsides hother
  have hexec : exec (DataStore.dropEdgeLabel labelId) s =
      (true, (s₁.clear (.etypeTable labelId)).clear (.epropTable labelId)) := by
    rw [DataStore.dropEdgeLabel, exec_bind, exec_tableScan, exec_bind, hs₁, forEach_map]
    rfl
  rw [hexec]
  refine ⟨rfl, ?_, ?_⟩
  · refine hsides.frame (fun table _ =>
      table = .epropTable labelId ∨ table = .etypeTable labelId) ?_ ?_
    · intro table key hno
      rw [not_or] at hno
      rw [clear_get, if_neg hno.1, clear_get, if_neg hno.2]
    · rintro table key (rfl | rfl) vid direction
      · exact not_sideRow (by simp) (by simp)
      · exact not_sideRow (by simp) (by simp)
  · intro labelId' key
    rw [clear_get, if_neg (by simp), clear_get, hother _ _ (by simp) (by simp), h.types]
    by_cases hlabel : labelId' = labelId
    · simp [hlabel, typeRows, dropLabelEdges]
    · simp [hlabel, typeRows, dropLabelEdges]

lemma StoreOk.live_of_typeRow (h : StoreOk capacity s live) {labelId : EdgeLabelId}
    {row : Record} (hrow : row ∈ prefixRecords (s (.etypeTable labelId)) []) :
    row.1 = encodeEdgeTypeIndexKey (decodeEdgeTypeIndexKey row.1) ∧ (live (typeRowEdge labelId row).key).isSome :=
  (storeOk_iff.mp h).live_of_typeRow hrow

lemma StoreOk.dropEdgeLabel (h : StoreOk capacity s live) (labelId : EdgeLabelId) :
    (exec (dropEdgeLabel labelId) s).1 = true ∧
    StoreOk capacity (exec (dropEdgeLabel labelId) s).2 (dropLabelEdges live labelId) := by
  rw [storeOk_iff] at h ⊢
  exact h.dropEdgeLabel labelId fun k hlive => rowSetter_drop_counted hlive

end EdgeOperations

/-! ### Vertices -/

/-- Rows of vertices that the adjacency cache does not use. -/
def vertexRow (table : TableName) (key : Bytes) : Prop :=
  table = .vertexExistence ∨ table = .vertexSummary ∨ (∃ labelId, table = .labelFwdTable labelId) ∨
  (table = .vertexData ∧ ∃ vid kind rest, (kind = .LABEL ∨ kind = .PROPERTY) ∧
    key = sectionKey vid (VertexDataKind.byte kind) rest)

lemma not_sideRow_of_vertexRow {table : TableName} {key : Bytes} (h : vertexRow table key)
    (vid : VertexId) (direction : Direction) : ¬ sideRow vid direction table key := by
  obtain rfl | rfl | ⟨l, rfl⟩ | ⟨rfl, vid', kind, rest, hkind, rfl⟩ := h
  · exact not_sideRow (by simp) (by simp)
  · exact not_sideRow (by simp) (by simp)
  · exact not_sideRow (by simp) (by simp)
  · rintro (⟨-, rest', hkey⟩ | ⟨htable, -⟩)
    · rw [sectionKey_inj] at hkey
      obtain ⟨-, hbyte, -⟩ := hkey
      rcases hkind with rfl | rfl
      · cases direction <;> simp [adjacencyKind, VertexDataKind.byte] at hbyte
      · cases direction <;> simp [adjacencyKind, VertexDataKind.byte] at hbyte
    · exact absurd htable (by simp)

lemma writesOnly_insertLabelGroup (vid : VertexId) (group : LabelId × Properties) :
    WritesOnly vertexRow (insertLabelGroup vid group) := by
  refine .ite (.pure true) (.andThen ?_ (.andThen ?_ (.allOf fun slot _ => ?_)))
  · exact .put _ (inr (inr (inr ⟨rfl, vid, .LABEL, _, inl rfl, rfl⟩))) _
  · exact .put _ (inr (inr (inl ⟨_, rfl⟩))) _
  · exact .put _ (inr (inr (inr ⟨rfl, vid, .PROPERTY, _, inr rfl, rfl⟩))) _

lemma writesOnly_publishSummary (vid : VertexId) (labelProps : LabelProps) :
    WritesOnly vertexRow (publishSummary vid labelProps) := by
  refine .bind (.get _ _ _) fun found => .ite (.del _ (inr (inl rfl))) ?_
  exact .ite (.pure true) (.put _ (inr (inl rfl)) _)

section VertexOperations

variable {view : SideView} {capacity : UInt32} {s : Store} {live : LiveEdges}

/-- No live edge starts or ends at the vertex. -/
def Detached (live : LiveEdges) (vid : VertexId) : Prop :=
  ∀ k : EdgeKey, k.src = vid ∨ k.dst = vid → live k = none

lemma sideRows_eq_none {direction : Direction} (h : ∀ l n q, live (sideKey vid direction l n q) = none) :
    sideRows live vid direction = fun _ => none := by
  refine rows_ext (wellFormedRows_sideRows _ _ _) (fun rest value hv => absurd hv (by simp)) ?_
  intro l n q
  rw [sideRows_adjacencySuffix, h, map_none]

lemma Detached.sideRows (h : Detached live vid) (direction : Direction) :
    sideRows live vid direction = fun _ => none := by
  refine sideRows_eq_none fun l n q => h _ ?_
  unfold sideKey
  split
  · exact inr rfl
  · exact inl rfl

/-- A side without rows has none in either place. -/
theorem SideInv.empty (h : SideInv s vid direction fun _ => none) :
    (∀ rest, (cachedRows s vid direction).get rest = none) ∧
    (∀ rest, (indexRows s vid direction).get rest = none) := by
  unfold SideInv at h
  split at h
  · exact ⟨h.1, h.2.1⟩
  · exact h

lemma SideInv.of_empty
    (hcached : ∀ rest, (cachedRows s vid direction).get rest = none)
    (hindex : ∀ rest, (indexRows s vid direction).get rest = none)
    (hcount : ∀ count, sideState s vid direction = some (.COMPLETE, count) → count = 0) :
    SideInv s vid direction fun _ => none := by
  unfold SideInv
  split
  · rename_i count hstate
    refine ⟨hcached, hindex, ?_⟩
    have hempty : cachedRows s vid direction = SortedMap.empty :=
      SortedMap.ext_get fun rest => (hcached rest).trans (SortedMap.get_empty rest).symm
    rw [hempty, hcount count hstate]
    rfl
  · exact ⟨hcached, hindex⟩

/-- `insertVertex` marks a side without rows in `edge_index` `COMPLETE`; what is cached stays. -/
theorem SideShows.init {rows : Bytes → Option Bytes}
    (h : SideShows s vid direction rows)
    (hindex : ∀ rest, (indexRows s vid direction).get rest = none) (count : UInt32) :
    SideShows (s.put .vertexData (encodeVertexDataAdjStateKey vid direction)
      (encodeAdjacencyState .COMPLETE count)) vid direction rows := by
  refine .of_complete (sideState_put_state s vid direction .COMPLETE count) ?_ ?_
  · rw [cachedRows_put_state]
    by_cases hcomplete : ∃ count, sideState s vid direction = some (.COMPLETE, count)
    · obtain ⟨count', hstate⟩ := hcomplete
      exact (h.complete hstate).1
    · obtain ⟨hcached, hrows⟩ := h.indexed fun count heq => hcomplete ⟨count, heq⟩
      intro rest
      rw [hcached, ← hrows, hindex]
  · rwa [indexRows_put_data]

/-- A side without rows is `COMPLETE` with count `0`. -/
theorem SideInv.init (h : SideInv s vid direction fun _ => none) :
    SideInv (s.put .vertexData (encodeVertexDataAdjStateKey vid direction)
      (encodeAdjacencyState .COMPLETE 0)) vid direction fun _ => none := by
  obtain ⟨hcached, hindex⟩ := h.empty
  refine SideInv.of_empty ?_ ?_ ?_
  · rw [cachedRows_put_state]
    exact hcached
  · rw [indexRows_put_data]
    exact hindex
  · intro count hcount
    rw [sideState_put_state] at hcount
    simpa using hcount.symm

lemma StoreHolds.vertexRows {s' : Store} (h : StoreHolds view s live)
    (hchanges : ChangesOnly s s' vertexRow) : StoreHolds view s' live := by
  refine h.frame hchanges (fun _ _ hkey => not_sideRow_of_vertexRow hkey) ?_
  rintro labelId key (h | h | ⟨l, h⟩ | ⟨h, -⟩)
  all_goals exact absurd h (by simp)

/-- Marking one side of a vertex, if its rows can take it. -/
theorem StoreHolds.initAdjacencyState (h : StoreHolds view s live)
    (hdir : direction ≠ .BOTH)
    (hinit : view.Holds s vid direction (sideRows live vid direction) →
      view.Holds (s.put .vertexData (encodeVertexDataAdjStateKey vid direction)
        (encodeAdjacencyState .COMPLETE 0)) vid direction (sideRows live vid direction)) :
    StoreHolds view (s.put .vertexData (encodeVertexDataAdjStateKey vid direction)
      (encodeAdjacencyState .COMPLETE 0)) live := by
  have hchanges : ChangesOnly s (s.put .vertexData (encodeVertexDataAdjStateKey vid direction)
      (encodeAdjacencyState .COMPLETE 0)) (sideRow vid direction) :=
    (ChangesOnly.refl s _).put (inl ⟨rfl, [], rfl⟩) _
  refine ⟨fun vid' direction' hdir' => ?_, fun labelId key => ?_⟩
  · by_cases hside : vid' = vid ∧ direction' = direction
    · obtain ⟨rfl, rfl⟩ := hside
      exact hinit (h.sides vid' direction' hdir')
    · exact view.of_same (h.sides vid' direction' hdir') (sameSide_of_changesOnly hchanges hdir hdir' hside)
  · rw [hchanges _ _ (not_sideRow (by simp) (by simp)), h.types]

/-- `insertVertex`, if with the cache both sides can be marked; marking leaves `edge_index` alone. -/
theorem StoreHolds.insertVertex (h : StoreHolds view s live)
    (hinit : capacity = 0 ∨ ∀ s' direction, direction ≠ .BOTH →
      (∀ key, s'.get .edgeIndex key = s.get .edgeIndex key) →
      view.Holds s' vid direction (sideRows live vid direction) →
        view.Holds (s'.put .vertexData (encodeVertexDataAdjStateKey vid direction)
          (encodeAdjacencyState .COMPLETE 0)) vid direction (sideRows live vid direction))
    (labelProps : LabelProps) :
    StoreHolds view (exec (insertVertex capacity vid labelProps) s).2 live := by
  have hrest : ∀ s', StoreHolds view s' live →
      StoreHolds view (exec (andThen (allOf (insertLabelGroup vid) labelProps)
        (publishSummary vid labelProps)) s').2 live := by
    intro s' hs'
    exact hs'.vertexRows (WritesOnly.andThen (WritesOnly.allOf fun group _ => writesOnly_insertLabelGroup vid group)
      (writesOnly_publishSummary vid labelProps) s')
  have hexistence : StoreHolds view (s.put .vertexExistence (encodeVertexExistenceKey vid) []) live :=
    h.vertexRows ((ChangesOnly.refl s _).put (inl rfl) _)
  rw [DataStore.insertVertex, exec_andThen_put]
  by_cases hcap : capacity = 0
  · have hpos : ¬ 0 < capacity := by simp [hcap]
    rw [if_neg hpos, exec_andThen rfl]
    exact hrest _ hexistence
  · have hpos : 0 < capacity := UInt32.pos_iff_ne_zero.mpr hcap
    have hmark := hinit.resolve_left hcap
    have hstates : ∀ d s', exec (DataStore.initAdjacencyState vid d) s' = (true, Store.put s'
        .vertexData (encodeVertexDataAdjStateKey vid d) (encodeAdjacencyState .COMPLETE 0)) :=
      fun d s' => rfl
    have hindex : ∀ (s' : Store) (table : TableName) (key value : Bytes), table ≠ .edgeIndex →
        ∀ key', (s'.put table key value).get .edgeIndex key' = s'.get .edgeIndex key' :=
      fun s' table key value hne key' => Store.put_get_of_ne _ _ _ _ _ _ (inl hne.symm)
    rw [if_pos hpos, exec_andThen (exec_allOf _ hstates _)]
    have hout := hexistence.initAdjacencyState (show Direction.OUT ≠ .BOTH by simp)
      (hmark _ .OUT (by simp) fun key => hindex s _ _ _ (by simp) key)
    refine hrest _ (hout.initAdjacencyState (show Direction.IN ≠ .BOTH by simp)
      (hmark _ .IN (by simp) fun key => ?_))
    rw [hindex _ _ _ _ (by simp), hindex _ _ _ _ (by simp)]

/-- Marking one side of a detached vertex. -/
theorem counted_init (hcap : capacity ≠ 0) (hvid : Detached live vid)
    (h : (counted capacity).Holds s vid direction (sideRows live vid direction)) :
    (counted capacity).Holds (s.put .vertexData (encodeVertexDataAdjStateKey vid direction)
      (encodeAdjacencyState .COMPLETE 0)) vid direction (sideRows live vid direction) := by
  obtain ⟨hinv, hrows, -⟩ := h
  rw [hvid.sideRows] at hinv hrows ⊢
  exact ⟨hinv.init, hrows, fun hc => absurd hc hcap⟩

lemma shown_init (hcap : capacity ≠ 0)
    (hindex : ∀ rest, s.get .edgeIndex (sectionKey vid (directionByte direction) rest) = none)
    (h : (shown capacity).Holds s vid direction (sideRows live vid direction)) :
    (shown capacity).Holds (s.put .vertexData (encodeVertexDataAdjStateKey vid direction)
      (encodeAdjacencyState .COMPLETE 0)) vid direction (sideRows live vid direction) :=
  ⟨h.1.init (fun rest => by rw [get_indexRows, hindex]) 0, h.2.1, fun hc => absurd hc hcap⟩

lemma StoreOk.insertVertex (h : StoreOk capacity s live)
    (hvid : capacity = 0 ∨ Detached live vid) (labelProps : LabelProps) :
    StoreOk capacity (exec (insertVertex capacity vid labelProps) s).2 live := by
  rw [storeOk_iff] at h ⊢
  by_cases hcap : capacity = 0
  · exact h.insertVertex (inl hcap) labelProps
  · exact h.insertVertex (inr fun s' direction _ _ hs' =>
      counted_init hcap (hvid.resolve_left hcap) hs') labelProps

/-- The rows `deleteVertex` may touch. -/
def deletedRow (vid : VertexId) (table : TableName) (key : Bytes) : Prop :=
  (table = .vertexData ∧ encodeVertexDataVertexPrefix vid <+: key) ∨
  table = .vertexExistence ∨ table = .vertexSummary ∨ ∃ labelId, table = .labelFwdTable labelId

lemma vertexPrefix_isPrefix_sectionKey {vid' : VertexId} {sec : UInt8} {rest : Bytes} :
    encodeVertexDataVertexPrefix vid <+: sectionKey vid' sec rest ↔ vid = vid' := by
  rw [encodeVertexDataVertexPrefix, sectionKey, ← append_nil (IndexKeyCodec.u64BE vid),
    append_isPrefix_append_iff (by simp), IndexKeyCodec.u64BE_inj]
  simp

lemma vertexPrefix_of_sectionPrefix {sec : UInt8} {rest key : Bytes}
    (h : sectionKey vid sec rest <+: key) : encodeVertexDataVertexPrefix vid <+: key :=
  (vertexPrefix_isPrefix_sectionKey.mpr rfl).trans h

lemma writesOnly_deleteLabelRows (vid : VertexId) (labelId : LabelId) :
    WritesOnly (deletedRow vid) (deleteLabelRows vid labelId) := by
  refine .bind (.del _ (inl ⟨rfl, ?_⟩)) fun _ => .bind (.del _ ?_) fun _ => ?_
  · exact vertexPrefix_isPrefix_sectionKey.mpr rfl
  · exact inr (inr (inr ⟨_, rfl⟩))
  · exact writesOnly_deleteUnder _ fun key hkey =>
      inl ⟨rfl, vertexPrefix_of_sectionPrefix hkey⟩

/-- `deleteVertex` empties the vertex's rows and stays within them. -/
theorem exec_deleteVertex (vid : VertexId) (s : Store) :
    ChangesOnly s (exec (deleteVertex vid) s).2 (deletedRow vid) ∧
    ∀ sec rest, (exec (deleteVertex vid) s).2.get .vertexData (sectionKey vid sec rest) = none := by
  constructor
  · refine WritesOnly.bind (.bind (.scan _ _ _) fun _ => .pure _) (fun labels => ?_) s
    refine .bind (.forEach fun labelId _ => writesOnly_deleteLabelRows vid labelId) fun _ => ?_
    refine .bind (writesOnly_deleteUnder _ fun key hkey => inl ⟨rfl, hkey⟩) fun _ => ?_
    refine .bind (.del _ (inr (inl rfl))) fun _ => ?_
    exact .bind (.del _ (inr (inr (inl rfl)))) fun _ => .pure true
  · intro sec rest
    simp only [deleteVertex, exec_bind, exec_tableDel, exec_pure]
    rw [del_get_of_ne _ _ _ _ _ (inl (by simp)),
      del_get_of_ne _ _ _ _ _ (inl (by simp)), exec_deleteUnder_get,
      if_pos ⟨rfl, vertexPrefix_isPrefix_sectionKey.mpr rfl⟩]

/-- `deleteVertex`, if the sides of the vertex can lose their rows in `vertex_data`. -/
theorem StoreHolds.deleteVertex (h : StoreHolds view s live)
    (hgone : ∀ direction, direction ≠ .BOTH → view.Holds s vid direction (sideRows live vid direction) →
        view.Holds (exec (deleteVertex vid) s).2 vid direction (sideRows live vid direction)) :
    StoreHolds view (exec (deleteVertex vid) s).2 live := by
  obtain ⟨hchanges, -⟩ := exec_deleteVertex vid s
  refine ⟨fun vid' direction hdir => ?_, fun labelId key => ?_⟩
  · by_cases hsame : vid' = vid
    · subst hsame
      exact hgone direction hdir (h.sides vid' direction hdir)
    · -- another vertex's rows lie outside the prefix
      refine view.of_same (h.sides vid' direction hdir) ⟨fun rest => hchanges _ _ ?_,
        fun rest => hchanges _ _ (by simp [deletedRow])⟩
      rintro (⟨-, hpre⟩ | htable | htable | ⟨l, htable⟩)
      · exact hsame (vertexPrefix_isPrefix_sectionKey.mp hpre).symm
      all_goals exact absurd htable (by simp)
  · rw [hchanges _ _ (by simp [deletedRow]), h.types]

/-- The sides of a deleted vertex have no state row, no cached row and their `edge_index` rows. -/
theorem sides_deleteVertex (vid : VertexId) (s : Store) (direction : Direction) :
    sideState (exec (deleteVertex vid) s).2 vid direction = none ∧
      (∀ rest, (cachedRows (exec (deleteVertex vid) s).2 vid direction).get rest = none) ∧
      ∀ rest, (indexRows (exec (deleteVertex vid) s).2 vid direction).get rest =
        (indexRows s vid direction).get rest := by
  obtain ⟨hchanges, hgone⟩ := exec_deleteVertex vid s
  refine ⟨?_, fun rest => ?_, fun rest => ?_⟩
  · rw [sideState, encodeVertexDataAdjStateKey, hgone, map_none]
  · rw [get_cachedRows, hgone, ite_self]
  · rw [get_indexRows, hchanges _ _ (by simp [deletedRow]), ← get_indexRows]

/-- `deleteVertex`, if each side of the vertex has its rows in `edge_index` or no row. -/
theorem StoreOk.deleteVertex_of (h : StoreOk capacity s live)
    (hvid : ∀ direction, direction ≠ .BOTH →
      sideState s vid direction = none ∨ sideRows live vid direction = fun _ => none) :
    StoreOk capacity (exec (deleteVertex vid) s).2 live := by
  rw [storeOk_iff] at h ⊢
  refine h.deleteVertex fun direction hdir hside => ?_
  obtain ⟨hinv, hrows, -⟩ := hside
  obtain ⟨hstate, hcached, hindex⟩ := sides_deleteVertex vid s direction
  have hbefore : ∀ rest, (indexRows s vid direction).get rest = sideRows live vid direction rest := by
    rcases hvid direction hdir with hnone | hempty
    · exact (hinv.indexed (by simp [hnone])).2
    · rw [hempty] at hinv ⊢
      exact hinv.empty.2
  exact ⟨(SideShows.of_indexed (by simp [hstate]) hcached fun rest =>
    (hindex rest).trans (hbefore rest)).inv (by simp [hstate]), hrows, fun _ => hstate⟩

lemma StoreOk.deleteVertex (h : StoreOk capacity s live)
    (hvid : Detached live vid) : StoreOk capacity (exec (deleteVertex vid) s).2 live :=
  h.deleteVertex_of fun direction _ => inr (hvid.sideRows direction)

end VertexOperations

end Eugraph.DataStore
