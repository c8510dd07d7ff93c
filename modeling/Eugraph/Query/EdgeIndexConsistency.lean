import Eugraph.Query.EdgeProperties

/-!
# Consistency of edge indexes

An index over properties of an edge type should hold one entry per live edge that has all
of them, under the current values and with the stored edge as payload.  The backfill of
`CREATE INDEX` and the deletes keep to that; `CREATE`, `MERGE`, `SET`, `REMOVE` and
`batchInsertEdges` write entries with another payload, with none, or not at all, and
`DETACH DELETE` leaves entries behind.  The runs here avoid exactly those writes.
-/

namespace Eugraph.Query

open Lib Lib.Program Wt KeyCodec DataStore IndexKeyCodec List Option ValueCodec EdgeRef EdgeRun Or Store Function

/-! ### What an index should hold -/

/-- The `WRITE_ONLY` and `PUBLIC` indexes of an edge type. -/
def liveIndexes (defs : EdgeLabelDefs) (labelId : EdgeLabelId) : List IndexDef :=
  match defs labelId with
  | none => []
  | some labelDef => labelDef.indexes.filter IndexDef.isLive

/-- Rows and live edges with all indexed properties correspond, and a row's payload is
its edge. -/
structure IndexConsistent (defs : EdgeLabelDefs) (s : Store) (edges : List EdgeRef) : Prop where
  rows : ∀ labelId, ∀ idx ∈ liveIndexes defs labelId, ∀ key payload,
    s.get (.eidxTable labelId idx.propIds) key = some payload →
      ∃ e ∈ edges, e.labelId = labelId ∧ ∃ values,
        collectValues (storedProp s labelId e.eid) idx.propIds = some values ∧
        key = encodeIndexKey values e.eid ∧
        decodeEdgeAdjacency payload = (e.src, e.dst, e.seq, e.labelId)
  entries : ∀ e ∈ edges, ∀ idx ∈ liveIndexes defs e.labelId, ∀ values,
    collectValues (storedProp s e.labelId e.eid) idx.propIds = some values →
      (s.get (.eidxTable e.labelId idx.propIds) (encodeIndexKey values e.eid)).isSome

/-! ### Runs with index creation -/

/-- A run of the edge writers, with the schema they work under. -/
structure IndexRun where
  run : EdgeRun
  defs : EdgeLabelDefs

inductive IndexAction
  | write (a : EdgeAction)
  | createIndex (labelId : EdgeLabelId) (indexId : UInt32) (propIds : List PropId) (unique : Bool)

/-- `CREATE_EDGE_INDEX` fills the index and makes it `PUBLIC`. -/
def IndexRun.step (capacity : UInt32) (x : IndexRun) : IndexAction → Option IndexRun
  | .write a => (x.run.step capacity x.defs a).map fun r => { x with run := r }
  | .createIndex labelId indexId propIds unique =>
    match x.defs labelId with
    | none => none
    | some labelDef =>
      (x.run.step capacity x.defs (.backfill labelId propIds unique)).map fun r =>
        ⟨r, update x.defs labelId (some { labelDef with
          indexes := labelDef.indexes ++ [⟨indexId, [], propIds, unique, .PUBLIC⟩] })⟩

/-- The cursors of `DETACH DELETE` find the edges of the vertex. -/
def EdgeRun.findsEdges (capacity : UInt32) (r : EdgeRun) (vid : VertexId) : Prop :=
  ∀ e ∈ r.edges, ∀ direction ∈ [Direction.OUT, .IN], e.near direction = vid →
    CursorReads capacity r.store vid direction

/-- The statement leaves no edge with all properties of a live index that it has written
itself, and detaches none; `DETACH DELETE` finds what it is to delete; a backfill runs only
within `createIndex`. -/
def EdgeRun.keepsPayloads (capacity : UInt32) (defs : EdgeLabelDefs) (r : EdgeRun) :
    EdgeAction → Prop
  | .insertVertex _ _ => True
  | .create eid _ _ labelId props => edgeRows defs labelId eid (propValue props) = []
  | .merge eid _ _ labelId props => edgeRows defs labelId eid (propValue props) = []
  | .batch labelId _ records => ∀ entry ∈ resolvedEntries records,
      edgeRows defs labelId entry.eid (propValue entry.props) = []
  | .setProperty e pid value => edgeRows defs e.labelId e.eid (fun p =>
    if p = pid then value else storedProp r.store e.labelId e.eid p) = []
  | .removeProperty e pid => edgeRows defs e.labelId e.eid (fun p =>
    if p = pid then none else storedProp r.store e.labelId e.eid p) = []
  | .delete _ => True
  | .detachDelete vid => r.findsEdges capacity vid ∧ ∀ e ∈ r.edges, touches e vid →
      edgeRows defs e.labelId e.eid (storedProp r.store e.labelId e.eid) = []
  | .backfill _ _ _ => False

/-- No index of the edge type is over these properties. -/
def unindexed (defs : EdgeLabelDefs) (labelId : EdgeLabelId) (propIds : List PropId) : Prop :=
  match defs labelId with
  | none => True
  | some labelDef => ∀ idx ∈ labelDef.indexes, idx.propIds ≠ propIds

instance (defs : EdgeLabelDefs) (labelId : EdgeLabelId) (propIds : List PropId) :
    Decidable (unindexed defs labelId propIds) := by
  unfold unindexed
  cases defs labelId
  all_goals infer_instance

/-- The steps of runs that keep indexes consistent: `seq`s of parallel edges differ, and
no statement writes an entry itself. -/
def IndexRun.keepsPayloads (capacity : UInt32) (x : IndexRun) : IndexAction → Prop
  | .write a => x.run.distinctSeqs capacity a ∧ x.run.keepsPayloads capacity x.defs a
  | .createIndex labelId _ propIds _ => propIds ≠ [] ∧ unindexed x.defs labelId propIds

instance (capacity : UInt32) (r : EdgeRun) (vid : VertexId) : Decidable (r.findsEdges capacity vid) := by
  unfold EdgeRun.findsEdges
  infer_instance

instance (capacity : UInt32) (defs : EdgeLabelDefs) (r : EdgeRun) :
    (a : EdgeAction) → Decidable (r.keepsPayloads capacity defs a)
  | .insertVertex _ _ => inferInstanceAs (Decidable True)
  | .create eid _ _ labelId props =>
    inferInstanceAs (Decidable (edgeRows defs labelId eid (propValue props) = []))
  | .merge eid _ _ labelId props =>
    inferInstanceAs (Decidable (edgeRows defs labelId eid (propValue props) = []))
  | .batch labelId _ records =>
    inferInstanceAs (Decidable (∀ entry ∈ resolvedEntries records,
      edgeRows defs labelId entry.eid (propValue entry.props) = []))
  | .setProperty e pid value =>
    inferInstanceAs (Decidable (edgeRows defs e.labelId e.eid (fun p =>
      if p = pid then value else storedProp r.store e.labelId e.eid p) = []))
  | .removeProperty e pid =>
    inferInstanceAs (Decidable (edgeRows defs e.labelId e.eid (fun p =>
      if p = pid then none else storedProp r.store e.labelId e.eid p) = []))
  | .delete _ => inferInstanceAs (Decidable True)
  | .detachDelete vid =>
    inferInstanceAs (Decidable (r.findsEdges capacity vid ∧ ∀ e ∈ r.edges, touches e vid →
      edgeRows defs e.labelId e.eid (storedProp r.store e.labelId e.eid) = []))
  | .backfill _ _ _ => inferInstanceAs (Decidable False)

instance (capacity : UInt32) (x : IndexRun) (a : IndexAction) :
    Decidable (x.keepsPayloads capacity a) := by
  cases a
  all_goals unfold IndexRun.keepsPayloads
  all_goals infer_instance

/-! ### Entries and values -/

section Entries

variable {defs : EdgeLabelDefs} {labelId : EdgeLabelId} {eid : EdgeId}
  {value value' : PropId → Option PropertyValue}

lemma mem_edgeRows {row : IndexRow} :
    row ∈ edgeRows defs labelId eid value ↔ ∃ idx ∈ liveIndexes defs labelId, ∃ values,
      collectValues value idx.propIds = some values ∧
      row = ⟨.eidxTable labelId idx.propIds, values, eid, idx.unique⟩ := by
  unfold edgeRows liveIndexes
  cases defs labelId with
  | none => simp
  | some labelDef =>
    simp only [mem_filterMap, map_eq_some_iff]
    constructor
    · rintro ⟨idx, hidx, values, hvalues, rfl⟩
      exact ⟨idx, hidx, values, hvalues, rfl⟩
    · rintro ⟨idx, hidx, values, hvalues, rfl⟩
      exact ⟨idx, hidx, values, hvalues, rfl⟩

lemma edgeRows_eq_nil_iff : edgeRows defs labelId eid value = [] ↔
      ∀ idx ∈ liveIndexes defs labelId, collectValues value idx.propIds = none := by
  rw [eq_nil_iff_forall_not_mem]
  constructor
  · intro h idx hidx
    cases hvalues : collectValues value idx.propIds with
    | none => rfl
    | some values => exact absurd (mem_edgeRows.mpr ⟨idx, hidx, values, hvalues, rfl⟩) (h _)
  · rintro h row hrow
    obtain ⟨idx, hidx, values, hvalues, -⟩ := mem_edgeRows.mp hrow
    rw [h idx hidx] at hvalues
    exact absurd hvalues (by simp)

lemma collectValues_eq_none_iff {propIds : List PropId} :
    collectValues value propIds = none ↔ ∃ pid ∈ propIds, value pid = none := by
  unfold collectValues
  induction propIds with
  | nil => simp
  | cons pid rest ih =>
    rw [mapM_cons]
    cases hpid : value pid with
    | none => simp [hpid]
    | some v =>
      cases hrest : List.mapM value rest with
      | none => simpa [hpid, hrest] using ih.mp hrest
      | some values => simpa [hpid, hrest] using ih.not.mp (by simp [hrest])

/-- Fewer values give no more entries. -/
theorem edgeRows_eq_nil_of_le {eid' : EdgeId} (h : edgeRows defs labelId eid value = [])
    (hle : ∀ pid, value pid = none → value' pid = none) :
    edgeRows defs labelId eid' value' = [] := by
  rw [edgeRows_eq_nil_iff] at h ⊢
  intro idx hidx
  obtain ⟨pid, hpid, hnone⟩ := collectValues_eq_none_iff.mp (h idx hidx)
  exact collectValues_eq_none_iff.mpr ⟨pid, hpid, hle pid hnone⟩

lemma storedProp_eq_none_of_get {s : Store} {pid : PropId}
    (h : s.get (.epropTable labelId) (encodeEPropKey eid pid) = none) :
    storedProp s labelId eid pid = none := by
  rw [storedProp, h]
  rfl

lemma storedProp_congr {s s' : Store} (h : ∀ pid, s'.get (.epropTable labelId) (encodeEPropKey eid pid) =
      s.get (.epropTable labelId) (encodeEPropKey eid pid)) :
    storedProp s' labelId eid = storedProp s labelId eid := by
  funext pid
  rw [storedProp, storedProp, h]

/-- The slots of a property vector hold its values. -/
theorem propValue_of_mem_slots {props : Properties} (hlen : props.length < 2 ^ 16)
    {slot : PropId × PropertyValue} (h : slot ∈ slots props) :
    propValue props slot.1 = some slot.2 := by
  obtain ⟨⟨cell, i⟩, hmem, hcell⟩ := mem_filterMap.mp h
  obtain ⟨v, hv, rfl⟩ := map_eq_some_iff.mp hcell
  obtain ⟨-, hlt, hget⟩ := mem_zipIdx hmem
  have hi : i < 2 ^ 16 := by omega
  have hnat : (UInt16.ofNat i).toNat = i := UInt16.toNat_ofNat_of_lt' hi
  have hcell' : props[i]? = some cell := by
    rw [hget, List.getElem?_eq_some_iff]
    exact ⟨by omega, by simp⟩
  change cell = some v at hv
  change (props[(UInt16.ofNat i).toNat]?).join = some v
  rw [hnat, hcell', hv]
  rfl

end Entries

lemma exec_deleteEdgeIndexEntries_get (entries : List IndexRow) (s : Store) (table : TableName) (key : Bytes) :
    ((exec (deleteEdgeIndexEntries entries) s).2.get table key = s.get table key ∧
      ∀ row ∈ entries, ¬ (row.table = table ∧ encodeIndexKey row.values row.entityId = key)) ∨
    ((exec (deleteEdgeIndexEntries entries) s).2.get table key = none ∧
      ∃ row ∈ entries, row.table = table ∧ encodeIndexKey row.values row.entityId = key) := by
  induction entries generalizing s with
  | nil => exact inl ⟨rfl, by simp⟩
  | cons row rest ih =>
    have hexec : exec (deleteEdgeIndexEntries (row :: rest)) s = exec (deleteEdgeIndexEntries rest)
          (s.del row.table (encodeIndexKey row.values row.entityId)) := rfl
    rw [hexec]
    rcases ih (s.del row.table (encodeIndexKey row.values row.entityId)) with
      ⟨hget, hno⟩ | ⟨hget, row', hrow', hkey⟩
    · rw [hget, del_get]
      by_cases hkey : row.table = table ∧ encodeIndexKey row.values row.entityId = key
      · refine inr ⟨if_pos ⟨hkey.1.symm, hkey.2.symm⟩, row, mem_cons_self, hkey⟩
      · refine inl ⟨if_neg fun h => hkey ⟨h.1.symm, h.2.symm⟩, fun row' hrow' => ?_⟩
        rcases mem_cons.mp hrow' with rfl | hrow'
        · exact hkey
        · exact hno row' hrow'
    · exact inr ⟨hget, row', mem_cons_of_mem _ hrow', hkey⟩

/-! ### What a statement does to the indexes -/

/-- Edges that are not `kept` lose their entries and have none afterwards; nothing else
happens to the index tables. -/
structure IndexChange (defs : EdgeLabelDefs) (s s' : Store) (edges edges' : List EdgeRef)
    (kept : EdgeRef → Prop) : Prop where
  edges_iff : ∀ e, kept e → (e ∈ edges ↔ e ∈ edges')
  props_eq : ∀ e ∈ edges, kept e →
    storedProp s' e.labelId e.eid = storedProp s e.labelId e.eid
  unindexed : ∀ e ∈ edges', ¬ kept e →
    edgeRows defs e.labelId e.eid (storedProp s' e.labelId e.eid) = []
  gone : ∀ e ∈ edges, ¬ kept e →
    ∀ row ∈ edgeRows defs e.labelId e.eid (storedProp s e.labelId e.eid),
      s'.get row.table (encodeIndexKey row.values row.entityId) = none
  rows : ∀ labelId propIds key,
    s'.get (.eidxTable labelId propIds) key = s.get (.eidxTable labelId propIds) key ∨
    (s'.get (.eidxTable labelId propIds) key = none ∧ ∃ e ∈ edges, ¬ kept e ∧
      ∃ row ∈ edgeRows defs e.labelId e.eid (storedProp s e.labelId e.eid),
        encodeIndexKey row.values row.entityId = key)

section Changes

variable {defs : EdgeLabelDefs} {s s' : Store} {edges edges' : List EdgeRef}
  {kept : EdgeRef → Prop}

lemma IndexConsistent.change (h : IndexConsistent defs s edges)
    (hids : (edges.map eid).Nodup) (hchange : IndexChange defs s s' edges edges' kept) :
    IndexConsistent defs s' edges' where
  rows labelId idx hidx key payload hget := by
    rcases hchange.rows labelId idx.propIds key with hsame | ⟨hnone, -⟩
    · obtain ⟨e, he, rfl, values, hvalues, hkey, hpayload⟩ :=
        h.rows labelId idx hidx key payload (by rw [← hsame, hget])
      by_cases hkept : kept e
      · refine ⟨e, (hchange.edges_iff e hkept).mp he, rfl, values, ?_, hkey, hpayload⟩
        rw [hchange.props_eq e he hkept]
        exact hvalues
      · -- the entries of the other edges are gone
        have hgone := hchange.gone e he hkept _ (mem_edgeRows.mpr ⟨idx, hidx, values, hvalues, rfl⟩)
        rw [hkey] at hget
        rw [hget] at hgone
        exact absurd hgone (by simp)
    · rw [hget] at hnone
      exact absurd hnone (by simp)
  entries e he idx hidx values hvalues := by
    by_cases hkept : kept e
    · have hmem := (hchange.edges_iff e hkept).mpr he
      rw [hchange.props_eq e hmem hkept] at hvalues
      have hold := h.entries e hmem idx hidx values hvalues
      rcases hchange.rows e.labelId idx.propIds (encodeIndexKey values e.eid) with
        hsame | ⟨-, e', he', hno, row, hrow, hkey⟩
      · rw [hsame]
        exact hold
      · -- an index key ends in the id of its edge
        obtain ⟨idx', hidx', values', hvalues', rfl⟩ := mem_edgeRows.mp hrow
        have heid := congrArg decodeEntityId hkey
        rw [decodeEntityId_encodeIndexKey, decodeEntityId_encodeIndexKey] at heid
        have hsame : e' = e := inj_on_of_nodup_map hids he' hmem heid
        exact absurd (hsame ▸ hkept) hno
    · have hnone := edgeRows_eq_nil_iff.mp (hchange.unindexed e he hkept) idx hidx
      rw [hvalues] at hnone
      exact absurd hnone (by simp)

/-- A statement that leaves properties and indexes alone. -/
theorem IndexChange.topology (hframe : ChangesOnly s s' topologyRow) :
    IndexChange defs s s' edges edges fun _ => True where
  edges_iff _ _ := Iff.rfl
  props_eq e _ _ := storedProp_congr fun _ => hframe _ _ fun hrow => hrow.1 e.labelId rfl
  unindexed _ _ hno := absurd trivial hno
  gone _ _ hno := absurd trivial hno
  rows labelId propIds _ := inl (hframe _ _ fun hrow => hrow.2 labelId propIds rfl)

/-- New edges without entries. -/
theorem IndexChange.insert (news : List (EdgeRef × Properties))
    (hframe : ChangesOnly s s' fun table key => topologyRow table key ∨
      ∃ new ∈ news, insertedProp new.1 new.2 table key)
    (hfresh : ∀ new ∈ news, ∀ labelId pid, s.get (.epropTable labelId) (encodeEPropKey new.1.eid pid) = none)
    (hold : ∀ e ∈ edges, ∀ new ∈ news, e.eid ≠ new.1.eid)
    (hnodup : (news.map fun new => new.1.eid).Nodup)
    (hlen : ∀ new ∈ news, new.2.length < 2 ^ 16)
    (hnone : ∀ new ∈ news, edgeRows defs new.1.labelId new.1.eid (propValue new.2) = [])
    (hedges : ∀ e, e ∈ edges' ↔ e ∈ edges ∨ ∃ new ∈ news, new.1 = e) :
    IndexChange defs s s' edges edges' fun e => e ∈ edges where
  edges_iff e he := ⟨fun _ => (hedges e).mpr (inl he), fun _ => he⟩
  props_eq e he _ := by
    refine storedProp_congr fun pid => hframe _ _ ?_
    rintro (hrow | ⟨new, hnew, -, slot, -, hkey⟩)
    · exact hrow.1 e.labelId rfl
    · exact hold e he new hnew (encodeEPropKey_inj.mp hkey).1
  unindexed e he hno := by
    obtain ⟨new, hnew, rfl⟩ := ((hedges e).mp he).resolve_left hno
    refine edgeRows_eq_nil_of_le (hnone new hnew) fun pid hpid => ?_
    refine storedProp_eq_none_of_get ?_
    rw [hframe _ _ ?_, hfresh new hnew]
    rintro (hrow | ⟨new', hnew', -, slot, hslot, hkey⟩)
    · exact hrow.1 _ rfl
    · -- the row would be one of the edge's own slots
      obtain ⟨heid, rfl⟩ := encodeEPropKey_inj.mp hkey
      have hsame : new = new' := inj_on_of_nodup_map hnodup hnew hnew' heid
      subst hsame
      rw [propValue_of_mem_slots (hlen new hnew) hslot] at hpid
      exact absurd hpid (by simp)
  gone _ he hno := absurd he hno
  rows labelId propIds key := by
    refine inl (hframe _ _ ?_)
    rintro (hrow | ⟨new, -, htable, -⟩)
    · exact hrow.2 labelId propIds rfl
    · exact absurd htable (by simp)

/-- The entries of one edge are deleted and its property rows change. -/
theorem IndexChange.rewrite {e : EdgeRef} (hprops : ∀ labelId key, ¬ deletedProp e (.epropTable labelId) key →
      s'.get (.epropTable labelId) key = s.get (.epropTable labelId) key)
    (hindex : ∀ labelId propIds key, s'.get (.eidxTable labelId propIds) key = (exec (deleteEdgeIndexEntries
        (edgeRows defs e.labelId e.eid (storedProp s e.labelId e.eid))) s).2.get
          (.eidxTable labelId propIds) key)
    (hids : (edges.map eid).Nodup) (he : e ∈ edges)
    (hedges : ∀ e', e' ≠ e → (e' ∈ edges ↔ e' ∈ edges'))
    (hnone : e ∈ edges' → edgeRows defs e.labelId e.eid (storedProp s' e.labelId e.eid) = []) :
    IndexChange defs s s' edges edges' fun e' => e' ≠ e := by
  refine ⟨hedges, ?_, ?_, ?_, ?_⟩
  · intro e' he' hne
    refine storedProp_congr fun pid => hprops _ _ ?_
    rintro ⟨-, hpre⟩
    exact hne (inj_on_of_nodup_map hids he' he (ePropPrefix_isPrefix.mp hpre).symm)
  · intro e' he' hno
    rw [ne_eq, not_not] at hno
    subst hno
    exact hnone he'
  · intro e' _ hno row hrow
    rw [ne_eq, not_not] at hno
    subst hno
    obtain ⟨⟨propIds, htable⟩, -⟩ := table_of_mem_edgeRows hrow
    rw [htable, hindex, ← htable]
    rcases exec_deleteEdgeIndexEntries_get (edgeRows defs e'.labelId e'.eid
      (storedProp s e'.labelId e'.eid)) s row.table (encodeIndexKey row.values row.entityId) with
        ⟨-, hno⟩ | ⟨hget, -⟩
    · exact absurd ⟨rfl, rfl⟩ (hno row hrow)
    · exact hget
  · intro labelId propIds key
    rw [hindex]
    rcases exec_deleteEdgeIndexEntries_get (edgeRows defs e.labelId e.eid
      (storedProp s e.labelId e.eid)) s (.eidxTable labelId propIds) key with
        ⟨hget, -⟩ | ⟨hget, row, hrow, -, hkey⟩
    · exact inl hget
    · exact inr ⟨hget, e, he, by simp, row, hrow, hkey⟩

/-- Edges without entries are dropped. -/
theorem IndexChange.detach {vid : VertexId}
    (hframe : ChangesOnly s s' fun table key => topologyRow table key ∨
      ∃ e ∈ edges, touches e vid ∧ deletedProp e table key)
    (hids : (edges.map eid).Nodup)
    (hnone : ∀ e ∈ edges, touches e vid → edgeRows defs e.labelId e.eid (storedProp s e.labelId e.eid) = []) :
    IndexChange defs s s' edges (edges.filter fun e => !touches e vid)
      fun e => touches e vid = false where
  edges_iff e hkept := by simp [mem_filter, hkept]
  props_eq e he hkept := by
    refine storedProp_congr fun pid => hframe _ _ ?_
    rintro (hrow | ⟨e', he', htouch, -, hpre⟩)
    · exact hrow.1 e.labelId rfl
    · have hsame := inj_on_of_nodup_map hids he' he (ePropPrefix_isPrefix.mp hpre)
      rw [hsame, hkept] at htouch
      exact absurd htouch (by simp)
  unindexed e he hno := by
    have hmem := (mem_filter.mp he).2
    exact absurd (by simpa using hmem) hno
  gone e he hno row hrow := by
    rw [hnone e he (by simpa using hno)] at hrow
    exact absurd hrow (by simp)
  rows labelId propIds key := by
    refine inl (hframe _ _ ?_)
    rintro (hrow | ⟨e, -, -, htable, -⟩)
    · exact hrow.2 labelId propIds rfl
    · exact absurd htable (by simp)

end Changes

/-! ### The writers -/

lemma length_props_of_mem_resolvedEntries {records : List ResolvedEdge}
    (hlen : ∀ record ∈ records, record.props.length < 2 ^ 16) {entry : BatchEdgeEntry}
    (h : entry ∈ resolvedEntries records) : entry.props.length < 2 ^ 16 := by
  obtain ⟨⟨record, i⟩, hmem, hentry⟩ := mem_filterMap.mp h
  have hrecord := hlen record (fst_mem_of_mem_zipIdx hmem)
  split at hentry
  · rw [some.injEq] at hentry
    rw [← hentry, length_map]
    exact hrecord
  · exact absurd hentry (by simp)

section Writers

variable {capacity : UInt32} {defs : EdgeLabelDefs} {s : Store} {n : Nat}

lemma PropsOk.fresh (h : PropsOk n s) {eid : EdgeId} (hid : n ≤ eid.toNat) (labelId : EdgeLabelId) (pid : PropId) :
    s.get (.epropTable labelId) (encodeEPropKey eid pid) = none := by
  cases hget : s.get (.epropTable labelId) (encodeEPropKey eid pid) with
  | none => rfl
  | some value =>
    obtain ⟨⟨eid', pid', hlt, hkey⟩, -⟩ := h labelId _ value hget
    rw [(encodeEPropKey_inj.mp hkey).1] at hid
    omega

/-- Without entries to write, `CREATE` is an insert. -/
theorem exec_createEdge_unindexed {eid : EdgeId} {labelId : EdgeLabelId} {props : Properties}
    (hnone : edgeRows defs labelId eid (propValue props) = []) (src dst : VertexId) :
    exec (createEdge capacity defs eid src dst labelId props) s =
      exec (insertEdge capacity ⟨eid, src, dst, labelId, eid⟩ props) s := by
  simp only [createEdge, collectEdgeIndexEntries, hnone, filter_nil, exec_bind]
  change exec (if true = true then _ else _) s = _
  rw [if_pos rfl, exec_bind]
  cases hok : (exec (insertEdge capacity ⟨eid, src, dst, labelId, eid⟩ props) s).1 with
  | false => exact Prod.ext hok.symm rfl
  | true => exact Prod.ext hok.symm rfl

lemma changesOnly_batchInsertEdges {labelId : EdgeLabelId} {entries : List BatchEdgeEntry}
    (hnone : ∀ entry ∈ entries, edgeRows defs labelId entry.eid (propValue entry.props) = []) :
    WritesOnly (fun table key => topologyRow table key ∨
      ∃ new ∈ entries.map (fun entry => (entry.ref labelId, entry.props)),
        insertedProp new.1 new.2 table key) (batchInsertEdges capacity defs labelId entries) := by
  refine .forEach fun entry hentry => .bind (fun s => ?_) fun _ => ?_
  · refine (writesOnly_insertEdge capacity (entry.ref labelId) entry.props s).mono ?_
    rintro table key (hrow | hrow)
    · exact inl hrow
    · exact inr ⟨_, List.mem_map.mpr ⟨entry, hentry, rfl⟩, hrow⟩
  · rw [collectEdgeIndexEntries, hnone entry hentry]
    exact .pure 0

lemma get_deleteEdgeIndexEntries_props (labelId : EdgeLabelId) (eid : EdgeId)
    (value : PropId → Option PropertyValue) (labelId' : EdgeLabelId) (key : Bytes) :
    (exec (deleteEdgeIndexEntries (edgeRows defs labelId eid value)) s).2.get
      (.epropTable labelId') key = s.get (.epropTable labelId') key := by
  rcases exec_deleteEdgeIndexEntries_get (edgeRows defs labelId eid value) s
    (.epropTable labelId') key with ⟨hget, -⟩ | ⟨-, row, hrow, htable, -⟩
  · exact hget
  · obtain ⟨⟨propIds, heq⟩, -⟩ := table_of_mem_edgeRows hrow
    rw [heq] at htable
    exact absurd htable (by simp)

lemma get_deleteEdgeIndexEntries_congr (entries : List IndexRow) {s₁ : Store}
    {table : TableName} {key : Bytes} (h : s₁.get table key = s.get table key) :
    (exec (deleteEdgeIndexEntries entries) s₁).2.get table key =
      (exec (deleteEdgeIndexEntries entries) s).2.get table key := by
  rcases exec_deleteEdgeIndexEntries_get entries s₁ table key with
    ⟨hget₁, hno₁⟩ | ⟨hget₁, row₁, hrow₁, hkey₁⟩
  · rcases exec_deleteEdgeIndexEntries_get entries s table key with
      ⟨hget, -⟩ | ⟨-, row, hrow, hkey⟩
    · rw [hget₁, hget, h]
    · exact absurd hkey (hno₁ row hrow)
  · rcases exec_deleteEdgeIndexEntries_get entries s table key with
      ⟨-, hno⟩ | ⟨hget, -⟩
    · exact absurd hkey₁ (hno row₁ hrow₁)
    · rw [hget₁, hget]

lemma exec_maintainEdgeEntries_unindexed {labelId : EdgeLabelId} {eid : EdgeId}
    {change : StoreM Bool} (h : PropsOk n s) (hchange : PropsOk n (exec change s).2)
    (hnone : edgeRows defs labelId eid (storedProp (exec change s).2 labelId eid) = []) :
    (exec (maintainEdgeEntries defs labelId eid change) s).2 =
      (exec (deleteEdgeIndexEntries (edgeRows defs labelId eid (storedProp s labelId eid)))
        (exec change s).2).2 := by
  simp only [maintainEdgeEntries, exec_bind, exec_collectStoredEntries h,
    exec_collectStoredEntries hchange, hnone, exec_pure]
  rfl

variable {edges : List EdgeRef}

/-- `SET` and `REMOVE`, when the edge has no entries afterwards. -/
theorem indexChange_maintain {e : EdgeRef} (pid : PropId)
    {change : StoreM Bool} (h : PropsOk n s) (hchange : PropsOk n (exec change s).2)
    (hframe : ChangesOnly s (exec change s).2 fun table key =>
      table = .epropTable e.labelId ∧ key = encodeEPropKey e.eid pid)
    (hids : (edges.map eid).Nodup) (he : e ∈ edges)
    (hnone : edgeRows defs e.labelId e.eid (storedProp (exec change s).2 e.labelId e.eid) = []) :
    IndexChange defs s (exec (maintainEdgeEntries defs e.labelId e.eid change) s).2 edges edges
      fun e' => e' ≠ e := by
  rw [exec_maintainEdgeEntries_unindexed h hchange hnone]
  refine .rewrite ?_ ?_ hids he (fun _ _ => Iff.rfl) fun _ => ?_
  · intro labelId key hno
    rw [get_deleteEdgeIndexEntries_props, hframe]
    rintro ⟨htable, rfl⟩
    exact hno ⟨htable, ePropPrefix_isPrefix.mpr rfl⟩
  · intro labelId propIds key
    exact get_deleteEdgeIndexEntries_congr _ (hframe _ _ (by simp))
  · rw [storedProp_congr fun pid => get_deleteEdgeIndexEntries_props _ _ _ _ _]
    exact hnone

lemma indexChange_delete {edges' : List EdgeRef} {e : EdgeRef} (h : PropsOk n s)
    (hids : (edges.map eid).Nodup) (he : e ∈ edges)
    (hedges : ∀ e', e' ≠ e → (e' ∈ edges ↔ e' ∈ edges')) (hgone : e ∉ edges') :
    IndexChange defs s (exec (deleteEdgeEntity capacity defs e) s).2 edges edges'
      fun e' => e' ≠ e := by
  simp only [deleteEdgeEntity, exec_bind, exec_collectStoredEntries h, exec_pure]
  refine .rewrite ?_ ?_ hids he hedges fun hmem => absurd hmem hgone
  · intro labelId key hno
    rw [writesOnly_deleteEdge capacity e _ _ _ ?_, get_deleteEdgeIndexEntries_props]
    rintro (hrow | hrow)
    · exact hrow.1 labelId rfl
    · exact hno hrow
  · intro labelId propIds key
    refine writesOnly_deleteEdge capacity e _ _ _ ?_
    rintro (hrow | ⟨htable, -⟩)
    · exact hrow.2 labelId propIds rfl
    · exact absurd htable (by simp)

/-- `DETACH DELETE` deletes property rows of incident edges only. -/
theorem changesOnly_detachSide (h : StoreOk capacity s (liveEdges edges))
    (hnodup : (edges.map key).Nodup) (vid : VertexId) {direction : Direction}
    (hdir : direction ≠ .BOTH) :
    ChangesOnly s (exec (detachSide capacity vid direction) s).2 fun table key =>
      topologyRow table key ∨ ∃ e ∈ edges, e.near direction = vid ∧ deletedProp e table key := by
  obtain ⟨hperm, hstore⟩ := exec_detachSide h hnodup vid hdir
  rw [hstore]
  refine WritesOnly.forEach (fun e he s' => ?_) s
  have hmem := hperm.mem_iff.mp he
  split at hmem
  · obtain ⟨hedge, hnear⟩ := mem_filter.mp hmem
    refine (writesOnly_deleteEdge capacity _ s').mono ?_
    rintro table key (hrow | hrow)
    · exact inl hrow
    · exact inr ⟨e, hedge, by simpa using hnear, hrow⟩
  · cases hmem

lemma changesOnly_detachDelete
    (h : StoreOk capacity s (liveEdges edges)) (hnodup : (edges.map key).Nodup)
    (vid : VertexId) :
    ChangesOnly s (exec (detachDelete capacity vid) s).2 fun table key =>
      topologyRow table key ∨ ∃ e ∈ edges, touches e vid ∧ deletedProp e table key := by
  have hout := storeOk_detachSide h hnodup vid (by simp : Direction.OUT ≠ .BOTH)
  have hfirst := changesOnly_detachSide h hnodup vid (by simp : Direction.OUT ≠ .BOTH)
  have hsecond := changesOnly_detachSide hout (hnodup.sublist (filter_sublist.map _)) vid
    (by simp : Direction.IN ≠ .BOTH)
  simp only [detachDelete, detachEdges, exec_bind, exec_pure]
  refine ((hfirst.mono ?_).trans (hsecond.mono ?_)).trans
    ((writesOnly_deleteVertex vid _).mono fun _ _ hrow => inl hrow)
  · rintro table key (hrow | ⟨e, he, hnear, hrow⟩)
    · exact inl hrow
    · exact inr ⟨e, he, by simp [touches, ← hnear, near], hrow⟩
  · rintro table key (hrow | ⟨e, he, hnear, hrow⟩)
    · exact inl hrow
    · exact inr ⟨e, mem_of_mem_filter he, by simp [touches, ← hnear, near], hrow⟩

end Writers

/-! ### One statement -/

section Steps

variable {capacity : UInt32} {defs : EdgeLabelDefs} {r : EdgeRun} {labelId : EdgeLabelId}

/-- One more edge of `CREATE` or `MERGE`, without entries. -/
theorem EdgeRun.Inv.indexChange_cons (h : r.Inv capacity) (hprops : PropsOk r.nextId r.store)
    {eid : EdgeId} (hid : r.nextId ≤ eid.toNat) {props : Properties}
    (hlen : props.length < 2 ^ 16) (src dst : VertexId)
    (hnone : edgeRows defs labelId eid (propValue props) = []) :
    IndexChange defs r.store
      (exec (insertEdge capacity ⟨eid, src, dst, labelId, eid⟩ props) r.store).2 r.edges
      (⟨eid, src, dst, labelId, eid⟩ :: r.edges) fun e => e ∈ r.edges := by
  obtain ⟨new, hnew⟩ : ∃ new : EdgeRef, new = ⟨eid, src, dst, labelId, eid⟩ := ⟨_, rfl⟩
  have heid : new.eid = eid := by rw [hnew]
  rw [← hnew]
  refine IndexChange.insert [(new, props)] ?_ ?_ ?_ (by simp) ?_ ?_ ?_
  · refine (writesOnly_insertEdge capacity new props r.store).mono ?_
    rintro table key (hrow | hrow)
    · exact inl hrow
    · exact inr ⟨_, mem_singleton.mpr rfl, hrow⟩
  · intro new' hnew' l pid
    rw [mem_singleton.mp hnew']
    exact hprops.fresh (by rw [heid]; exact hid) l pid
  · intro e he new' hnew' heq
    rw [mem_singleton.mp hnew', heid] at heq
    have hold := h.issued e he
    rw [heq] at hold
    omega
  · intro new' hnew'
    rw [mem_singleton.mp hnew']
    exact hlen
  · intro new' hnew'
    rw [mem_singleton.mp hnew', hnew]
    exact hnone
  · intro e
    rw [mem_cons, or_comm]
    simp [eq_comm]

lemma EdgeRun.Inv.indexChange_batch (h : r.Inv capacity) (hprops : PropsOk r.nextId r.store)
    {startEid : EdgeId} {records : List ResolvedEdge}
    (hid : r.nextId ≤ startEid.toNat)
    (hfits : startEid.toNat + (batchEntries startEid records).length ≤ 2 ^ 64)
    (hlen : ∀ record ∈ records, record.props.length < 2 ^ 16)
    (hnone : ∀ entry ∈ resolvedEntries records, edgeRows defs labelId entry.eid (propValue entry.props) = []) :
    IndexChange defs r.store
      (exec (batchInsertEdges capacity defs labelId (batchEntries startEid records)) r.store).2
      r.edges (((batchEntries startEid records).map fun entry => entry.ref labelId).reverse ++
        r.edges) fun e => e ∈ r.edges := by
  have hunindexed : ∀ entry ∈ batchEntries startEid records,
      edgeRows defs labelId entry.eid (propValue entry.props) = [] := by
    intro entry hentry
    obtain ⟨entry', hentry', -, -, -, hsame⟩ := mem_batchEntries hentry
    rw [← hsame]
    exact edgeRows_eq_nil_of_le (hnone entry' hentry') fun _ => id
  have hshort : ∀ entry ∈ batchEntries startEid records, entry.props.length < 2 ^ 16 := by
    intro entry hentry
    obtain ⟨entry', hentry', -, -, -, hsame⟩ := mem_batchEntries hentry
    rw [← hsame]
    exact length_props_of_mem_resolvedEntries hlen hentry'
  refine IndexChange.insert ((batchEntries startEid records).map fun entry =>
    (entry.ref labelId, entry.props)) (changesOnly_batchInsertEdges hunindexed _) ?_ ?_ ?_ ?_ ?_ ?_
  · intro new hnew l pid
    obtain ⟨entry, hentry, rfl⟩ := List.mem_map.mp hnew
    exact hprops.fresh (le_trans hid (batchEntries_eid_bounds hfits hentry).1) l pid
  · intro e he new hnew heq
    obtain ⟨entry, hentry, rfl⟩ := List.mem_map.mp hnew
    have hold := h.issued e he
    have hlow := (batchEntries_eid_bounds hfits hentry).1
    have hsame : e.eid = entry.eid := heq
    rw [hsame] at hold
    omega
  · rw [List.map_map]
    exact nodup_batchEntries_eid hfits
  · intro new hnew
    obtain ⟨entry, hentry, rfl⟩ := List.mem_map.mp hnew
    exact hshort entry hentry
  · intro new hnew
    obtain ⟨entry, hentry, rfl⟩ := List.mem_map.mp hnew
    exact hunindexed entry hentry
  · intro e
    rw [mem_append, mem_reverse, or_comm]
    simp [List.mem_map]

lemma storedProp_put {s : Store} {eid : EdgeId} {pid q : PropId}
    (v : PropertyValue) (hq : storedProp s labelId eid q = none) (hne : q ≠ pid) :
    storedProp (s.put (.epropTable labelId) (encodeEPropKey eid pid) (encode v))
      labelId eid q = none := by
  rw [storedProp, put_get_of_ne]
  · exact hq
  · exact inr fun heq => hne (encodeEPropKey_inj.mp heq).2

lemma storedProp_del {s : Store} {eid : EdgeId} {pid q : PropId}
    (hq : (if q = pid then none else storedProp s labelId eid q) = none) :
    storedProp (s.del (.epropTable labelId) (encodeEPropKey eid pid)) labelId eid q = none := by
  rw [storedProp, del_get]
  split
  · rfl
  · rename_i hno
    rw [if_neg] at hq
    · exact hq
    · rintro rfl
      exact hno ⟨rfl, rfl⟩

/-- What a statement that writes no entry does to the indexes. -/
theorem EdgeRun.indexChange_step {r' : EdgeRun} {a : EdgeAction} (h : r.Inv capacity)
    (hprops : PropsOk r.nextId r.store) (hseqs : r.distinctSeqs capacity a)
    (hkeeps : r.keepsPayloads capacity defs a) (hstep : r.step capacity defs a = some r') :
    ∃ kept, IndexChange defs r.store r'.store r.edges r'.edges kept := by
  cases a with
  | insertVertex vid labelProps =>
    rw [step, ite_none_right_eq_some, some.injEq] at hstep
    obtain ⟨-, rfl⟩ := hstep
    exact ⟨_, .topology (writesOnly_insertVertex capacity vid labelProps r.store)⟩
  | create eid src dst labelId props =>
    rw [step, ite_none_right_eq_some, some.injEq] at hstep
    obtain ⟨⟨hid, hlen⟩, rfl⟩ := hstep
    have hnone : edgeRows defs labelId eid (propValue props) = [] := hkeeps
    have hfresh := liveEdges_eq_none.mpr (h.fresh_key hid hseqs)
    have htrue := (h.storeOk.insertEdge (e := ⟨eid, src, dst, labelId, eid⟩) hfresh props).1
    simp only [exec_createEdge_unindexed hnone, htrue, if_true]
    exact ⟨_, h.indexChange_cons hprops hid hlen src dst hnone⟩
  | merge eid src dst labelId props =>
    rw [step, ite_none_right_eq_some, some.injEq] at hstep
    obtain ⟨⟨hid, hlen⟩, rfl⟩ := hstep
    have hinsert : (exec (mergeCreateEdge capacity eid src dst labelId props) r.store).2 =
        (exec (insertEdge capacity ⟨eid, src, dst, labelId, eid⟩ props) r.store).2 := by
      rw [mergeCreateEdge, exec_bind, exec_pure]
    simp only [hinsert]
    exact ⟨_, h.indexChange_cons hprops hid hlen src dst hkeeps⟩
  | batch labelId startEid records =>
    simp only [step, ite_none_right_eq_some, some.injEq] at hstep
    obtain ⟨⟨hid, hfits, -, hlen⟩, rfl⟩ := hstep
    exact ⟨_, h.indexChange_batch hprops hid hfits (by simpa using hlen) hkeeps⟩
  | setProperty e pid value =>
    rw [step, ite_none_right_eq_some] at hstep
    obtain ⟨he, hstep⟩ := hstep
    obtain ⟨-, rfl⟩ := completed_eq hstep
    have hnone : edgeRows defs e.labelId e.eid (fun p =>
      if p = pid then value else storedProp r.store e.labelId e.eid p) = [] := hkeeps
    cases value with
    | none =>
      refine ⟨_, indexChange_maintain pid hprops (hprops.del _ _) ?_ h.ids he ?_⟩
      · exact (ChangesOnly.refl r.store _).del ⟨rfl, rfl⟩
      · exact edgeRows_eq_nil_of_le hnone fun q => storedProp_del
    | some v =>
      refine ⟨_, indexChange_maintain pid hprops (hprops.put (h.issued e he) _ _ v) ?_ h.ids he ?_⟩
      · exact (ChangesOnly.refl r.store _).put ⟨rfl, rfl⟩ _
      · refine edgeRows_eq_nil_of_le hnone fun q hq => ?_
        split at hq
        · exact absurd hq (by simp)
        · rename_i hne
          exact storedProp_put v hq hne
  | removeProperty e pid =>
    rw [step, ite_none_right_eq_some] at hstep
    obtain ⟨he, hstep⟩ := hstep
    obtain ⟨-, rfl⟩ := completed_eq hstep
    refine ⟨_, indexChange_maintain pid hprops (hprops.del _ _) ?_ h.ids he ?_⟩
    · exact (ChangesOnly.refl r.store _).del ⟨rfl, rfl⟩
    · exact edgeRows_eq_nil_of_le hkeeps fun q => storedProp_del
  | delete e =>
    rw [step, ite_none_right_eq_some] at hstep
    obtain ⟨he, hstep⟩ := hstep
    obtain ⟨-, rfl⟩ := completed_eq hstep
    refine ⟨_, indexChange_delete hprops h.ids he (fun e' hne => ?_) (by simp)⟩
    have hkey : e' ∈ r.edges → e'.key ≠ e.key := fun he' heq =>
      hne (inj_on_of_nodup_map h.nodup he' he heq)
    constructor
    · exact fun he' => mem_filter.mpr ⟨he', by simpa using hkey he'⟩
    · exact fun he' => mem_of_mem_filter he'
  | detachDelete vid =>
    rw [step, some.injEq] at hstep
    subst hstep
    simp only [detachDelete_touches h.storeOk h.nodup vid hkeeps.1]
    exact ⟨_, .detach (changesOnly_detachDelete h.storeOk h.nodup vid) h.ids hkeeps.2⟩
  | backfill labelId propIds unique => exact absurd hkeeps not_false

end Steps

/-! ### `CREATE INDEX` -/

section Backfill

variable {s : Store} {n : Nat} {labelId : EdgeLabelId} {propIds : List PropId} {unique : Bool}

lemma storedProp_put_index (s : Store) (l : EdgeLabelId) (ps : List PropId) (key value : Bytes)
    (labelId : EdgeLabelId) (eid : EdgeId) :
    storedProp (s.put (.eidxTable l ps) key value) labelId eid = storedProp s labelId eid :=
  storedProp_congr fun _ => put_get_of_ne _ _ _ _ _ _ (inl (by simp))

/-- One edge: nothing to index, its entry, or a conflict. -/
theorem exec_backfillEntry (h : PropsOk n s) (hne : propIds ≠ []) (entry : EdgeTypeIndexEntry) :
    (collectValues (storedProp s labelId entry.edgeId) propIds = none ∧
      exec (backfillEntry labelId propIds unique entry) s = (.ok (), s)) ∨
    ∃ values, collectValues (storedProp s labelId entry.edgeId) propIds = some values ∧
      (exec (backfillEntry labelId propIds unique entry) s = (.ok (),
        s.put (.eidxTable labelId propIds) (encodeIndexKey values entry.edgeId)
          (encodeEdgeAdjacency entry.srcVertexId entry.dstVertexId entry.seq labelId)) ∨
      ∃ message, (exec (backfillEntry labelId propIds unique entry) s).1 = .error message) := by
  obtain ⟨props, hread, hvalue, hempty⟩ := exec_getEdgeProperties h labelId entry.edgeId
  have hread' : exec (getEdgeProperties labelId entry.edgeId) s = (_, s) :=
    Prod.ext hread (WritesOnly.readOnly (.bind (.scan _ _ _) fun _ => .pure _) s)
  simp only [backfillEntry, exec_bind, hread']
  by_cases hrows : (prefixRecords (s (.epropTable labelId)) (encodeEPropPrefix entry.edgeId)).isEmpty
  · -- no stored property at all, and the index has at least one
    obtain ⟨pid, hpid⟩ := exists_mem_of_ne_nil _ hne
    refine inl ⟨collectValues_eq_none_iff.mpr ⟨pid, hpid, ?_⟩, ?_⟩
    · rw [← hvalue, hempty hrows]
      rfl
    · simp [hrows]
  · simp only [hrows, Bool.false_eq_true, if_false]
    rw [← hvalue]
    cases hvalues : collectValues (propValue props) propIds with
    | none => exact inl ⟨rfl, by simp⟩
    | some values =>
      refine inr ⟨values, rfl, ?_⟩
      obtain ⟨row, hrow⟩ : ∃ row : IndexRow,
        row = ⟨.eidxTable labelId propIds, values, entry.edgeId, unique⟩ := ⟨_, rfl⟩
      have hallowed : (exec (entryAllowed row) s).2 = s :=
        WritesOnly.readOnly (.ite (writesOnly_checkUniqueConstraint _ _) (.pure true)) s
      simp only [exec_bind, ← hrow, hallowed]
      cases (exec (entryAllowed row) s).1 with
      | false => exact inr ⟨_, rfl⟩
      | true => exact inl rfl

lemma exec_backfillEntries (hne : propIds ≠ []) (entries : List EdgeTypeIndexEntry) (h : PropsOk n s)
    (hok : (exec (backfillEntries labelId propIds unique entries) s).1 = .ok ()) :
    (∀ key, (s.get (.eidxTable labelId propIds) key).isSome →
      ((exec (backfillEntries labelId propIds unique entries) s).2.get (.eidxTable labelId propIds) key).isSome) ∧
    (∀ entry ∈ entries, ∀ values, collectValues (storedProp s labelId entry.edgeId) propIds = some values →
        ((exec (backfillEntries labelId propIds unique entries) s).2.get
          (.eidxTable labelId propIds) (encodeIndexKey values entry.edgeId)).isSome) ∧
    (∀ key payload, (exec (backfillEntries labelId propIds unique entries) s).2.get
        (.eidxTable labelId propIds) key = some payload →
      s.get (.eidxTable labelId propIds) key = some payload ∨
      ∃ entry ∈ entries, ∃ values, collectValues (storedProp s labelId entry.edgeId) propIds = some values ∧
        key = encodeIndexKey values entry.edgeId ∧ payload = encodeEdgeAdjacency
          entry.srcVertexId entry.dstVertexId entry.seq labelId) := by
  induction entries generalizing s with
  | nil => exact ⟨fun _ => id, by simp, fun _ _ => inl⟩
  | cons entry rest ih =>
    rw [backfillEntries, exec_bind] at hok ⊢
    rcases exec_backfillEntry h hne entry with
      ⟨hnone, hexec⟩ | ⟨values, hvalues, hexec | ⟨message, hexec⟩⟩
    · rw [hexec] at hok ⊢
      obtain ⟨hkept, hentries, hrows⟩ := ih h hok
      refine ⟨hkept, ?_, ?_⟩
      · intro entry' hentry' values hvalues
        rcases mem_cons.mp hentry' with rfl | hentry'
        · rw [hnone] at hvalues
          exact absurd hvalues (by simp)
        · exact hentries entry' hentry' values hvalues
      · intro key payload hget
        rcases hrows key payload hget with hold | ⟨entry', hentry', hnew⟩
        · exact inl hold
        · exact inr ⟨entry', mem_cons_of_mem _ hentry', hnew⟩
    · rw [hexec] at hok ⊢
      obtain ⟨hkept, hentries, hrows⟩ := ih (keeps_outsideProps (WritesOnly.put .session
        (by simp [outsideProps]) _) s h) hok
      simp only [exec_tablePut, storedProp_put_index] at hkept hentries hrows
      refine ⟨?_, ?_, ?_⟩
      · intro key hkey
        refine hkept key ?_
        rw [put_get]
        split
        · rfl
        · exact hkey
      · intro entry' hentry' values' hvalues'
        rcases mem_cons.mp hentry' with rfl | hentry'
        · rw [hvalues, some.injEq] at hvalues'
          subst hvalues'
          exact hkept _ (by rw [put_get_self]; rfl)
        · exact hentries entry' hentry' values' hvalues'
      · intro key payload hget
        rcases hrows key payload hget with hold | ⟨entry', hentry', hnew⟩
        · rw [put_get] at hold
          split at hold
          · rename_i hkey
            rw [some.injEq] at hold
            exact inr ⟨entry, mem_cons_self, values, hvalues, hkey.2, hold.symm⟩
          · exact inl hold
        · exact inr ⟨entry', mem_cons_of_mem _ hentry', hnew⟩
    · rw [hexec] at hok
      exact absurd hok (by simp)

end Backfill

/-! ### Runs -/

/-- The edge writers' invariant, consistent indexes, and empty tables where no index is. -/
structure IndexRun.Inv (capacity : UInt32) (x : IndexRun) : Prop where
  edges : x.run.Inv capacity
  props : PropsOk x.run.nextId x.run.store
  consistent : IndexConsistent x.defs x.run.store x.run.edges
  unused : ∀ labelId propIds, unindexed x.defs labelId propIds →
    ∀ key, x.run.store.get (.eidxTable labelId propIds) key = none

lemma IndexRun.inv_start (capacity : UInt32) (defs : EdgeLabelDefs) :
    (⟨EdgeRun.start, defs⟩ : IndexRun).Inv capacity where
  edges := EdgeRun.inv_start capacity
  props := propsOk_empty _
  consistent := ⟨fun _ _ _ _ _ hget => absurd hget (by simp [EdgeRun.start, Store.empty, Store.get]),
    fun _ he => absurd he (by simp [EdgeRun.start])⟩
  unused _ _ _ _ := by simp [EdgeRun.start, Store.empty, Store.get]

section Runs

variable {capacity : UInt32} {x x' : IndexRun}

lemma IndexRun.inv_write {a : EdgeAction} {r : EdgeRun} (h : x.Inv capacity)
    (hseqs : x.run.distinctSeqs capacity a) (hkeeps : x.run.keepsPayloads capacity x.defs a)
    (hstep : x.run.step capacity x.defs a = some r) :
    ({ x with run := r } : IndexRun).Inv capacity := by
  obtain ⟨kept, hchange⟩ := indexChange_step h.edges h.props hseqs hkeeps hstep
  refine ⟨inv_step h.edges hseqs hstep, propsOk_step h.edges.issued h.props hstep,
    h.consistent.change h.edges.ids hchange, fun labelId propIds hno key => ?_⟩
  rcases hchange.rows labelId propIds key with hsame | ⟨hnone, -⟩
  · exact hsame.trans (h.unused labelId propIds hno key)
  · exact hnone

variable {labelId : EdgeLabelId} {labelDef : EdgeLabelDef} {defs : EdgeLabelDefs}

/-- The new index next to the old ones. -/
theorem mem_liveIndexes_update {l : EdgeLabelId}
    (hdef : defs labelId = some labelDef) {new : IndexDef}
    (hnew : new.isLive) {idx : IndexDef} :
    idx ∈ liveIndexes (update defs labelId (some { labelDef with
        indexes := labelDef.indexes ++ [new] })) l ↔
      idx ∈ liveIndexes defs l ∨ (l = labelId ∧ idx = new) := by
  by_cases hl : l = labelId
  · subst hl
    simp [liveIndexes, hdef, filter_append, hnew]
  · simp [liveIndexes, hl]

variable {propIds : List PropId}

lemma propIds_ne_of_unindexed
    (h : unindexed defs labelId propIds) {idx : IndexDef}
    (hidx : idx ∈ liveIndexes defs labelId) : idx.propIds ≠ propIds := by
  unfold liveIndexes at hidx
  unfold unindexed at h
  split at hidx
  · exact absurd hidx (by simp)
  · rename_i labelDef hdef
    rw [hdef] at h
    exact h idx (mem_of_mem_filter hidx)

lemma unindexed_update {l : EdgeLabelId}
    (hdef : defs labelId = some labelDef) {new : IndexDef}
    (h : unindexed (update defs labelId (some { labelDef with
      indexes := labelDef.indexes ++ [new] })) l propIds) :
    unindexed defs l propIds ∧ ¬ (l = labelId ∧ propIds = new.propIds) := by
  unfold unindexed at h ⊢
  by_cases hl : l = labelId
  · subst hl
    rw [update_self] at h
    rw [hdef]
    refine ⟨fun idx hidx => h idx (mem_append_left _ hidx), fun hsame => ?_⟩
    exact h new (by simp) hsame.2.symm
  · rw [update_of_ne hl] at h
    exact ⟨h, fun hsame => hl hsame.1⟩

/-- The backfill of an index over properties without one. -/
theorem IndexRun.inv_createIndex
    {indexId : UInt32} {unique : Bool} {r : EdgeRun} (h : x.Inv capacity)
    (hne : propIds ≠ []) (hunused : unindexed x.defs labelId propIds)
    (hdef : x.defs labelId = some labelDef)
    (hstep : x.run.step capacity x.defs (.backfill labelId propIds unique) = some r) :
    (⟨r, Function.update x.defs labelId (some { labelDef with
      indexes := labelDef.indexes ++ [⟨indexId, [], propIds, unique, .PUBLIC⟩] })⟩ : IndexRun).Inv capacity := by
  have hinv := EdgeRun.inv_step (a := .backfill labelId propIds unique) h.edges trivial hstep
  have hprops := EdgeRun.propsOk_step h.edges.issued h.props hstep
  rw [EdgeRun.step] at hstep
  obtain ⟨hok, rfl⟩ := EdgeRun.completed_eq hstep
  have hframe : ChangesOnly x.run.store (exec (backfillEdgeIndex labelId propIds unique)
      x.run.store).2 fun table _ => table = .eidxTable labelId propIds :=
    writesOnly_backfillEdgeIndex (fun _ => rfl) unique _
  have hscan : exec (backfillEdgeIndex labelId propIds unique) x.run.store =
      exec (backfillEntries labelId propIds unique (exec (scanEdgesByType labelId) x.run.store).1) x.run.store := by
    rw [backfillEdgeIndex, exec_bind]
    exact congrArg _ (WritesOnly.readOnly (.bind (.scan _ _ _) fun _ => .pure _) x.run.store)
  rw [hscan] at hok
  obtain ⟨-, hentries, hrows⟩ := exec_backfillEntries hne _ h.props hok
  rw [← hscan] at hentries hrows
  have hstored : ∀ l eid, storedProp (exec (backfillEdgeIndex labelId propIds unique)
      x.run.store).2 l eid = storedProp x.run.store l eid := fun l eid =>
    storedProp_congr fun _ => hframe _ _ (by simp)
  have hold : ∀ {l idx}, idx ∈ liveIndexes x.defs l → ∀ key,
      (exec (backfillEdgeIndex labelId propIds unique) x.run.store).2.get
        (.eidxTable l idx.propIds) key = x.run.store.get (.eidxTable l idx.propIds) key := by
    intro l idx hidx key
    refine hframe _ _ fun htable => ?_
    obtain ⟨rfl, hsame⟩ := TableName.eidxTable.inj htable
    exact propIds_ne_of_unindexed hunused hidx hsame
  refine ⟨hinv, hprops, ⟨?_, ?_⟩, ?_⟩
  · intro l idx hidx key payload hget
    simp only [hstored]
    rcases (mem_liveIndexes_update hdef (by rfl)).mp hidx with hidx | ⟨rfl, rfl⟩
    · exact h.consistent.rows l idx hidx key payload (by rw [← hold hidx, hget])
    · -- the table was empty, so the row is one of the backfill's
      rcases hrows key payload hget with hbefore | ⟨entry, hentry, values, hvalues, hkey, hpayload⟩
      · rw [h.unused l propIds hunused] at hbefore
        exact absurd hbefore (by simp)
      · obtain ⟨e, he, rfl, rfl⟩ := h.edges.mem_scanEdgesByType.mp hentry
        refine ⟨e, he, rfl, values, hvalues, hkey, ?_⟩
        rw [hpayload, decodeEdgeAdjacency_encode]
  · intro e he idx hidx values hvalues
    simp only [hstored] at hvalues
    rcases (mem_liveIndexes_update hdef (by rfl)).mp hidx with hidx | ⟨hlabel, rfl⟩
    · rw [hold hidx]
      exact h.consistent.entries e he idx hidx values hvalues
    · subst hlabel
      exact hentries _ (h.edges.mem_scanEdgesByType.mpr ⟨e, he, rfl, rfl⟩) values hvalues
  · intro l ps hno key
    obtain ⟨hbefore, hother⟩ := unindexed_update hdef hno
    rw [hframe _ _ fun htable => hother (by simpa using htable)]
    exact h.unused l ps hbefore key

lemma IndexRun.inv_step {a : IndexAction} (h : x.Inv capacity)
    (hguard : x.keepsPayloads capacity a) (hstep : x.step capacity a = some x') :
    x'.Inv capacity := by
  cases a with
  | write a =>
    obtain ⟨r, hr, rfl⟩ := map_eq_some_iff.mp hstep
    exact IndexRun.inv_write h hguard.1 hguard.2 hr
  | createIndex labelId indexId propIds unique =>
    rw [IndexRun.step] at hstep
    split at hstep
    · exact absurd hstep (by simp)
    · rename_i labelDef hdef
      obtain ⟨r, hr, rfl⟩ := map_eq_some_iff.mp hstep
      exact IndexRun.inv_createIndex h hguard.1 hguard.2 hdef hr

end Runs

/-- In every run whose statements write no entry of a live index themselves, every live
index holds exactly the entries it should, payloads included, in every state; and a `DETACH DELETE`
of such a run leaves no edge of its vertex. -/
theorem edgeIndexes_consistent (capacity : UInt32) (defs : EdgeLabelDefs) (x : IndexRun)
    (hrun : Reaches (IndexRun.step capacity) (IndexRun.keepsPayloads capacity) ⟨start, defs⟩ x) :
    IndexConsistent x.defs x.run.store x.run.edges ∧
      ∀ vid x', x.keepsPayloads capacity (.write (.detachDelete vid)) →
        x.step capacity (.write (.detachDelete vid)) = some x' →
          x'.run.edges = x.run.edges.filter fun e => !touches e vid := by
  have hinv : x.Inv capacity := hrun.invariant (IndexRun.Inv capacity) (IndexRun.inv_start capacity defs)
    fun _ _ _ h hguard hstep => IndexRun.inv_step h hguard hstep
  refine ⟨hinv.consistent, fun vid x' hguard hstep => ?_⟩
  rw [IndexRun.step] at hstep
  obtain ⟨r, hr, rfl⟩ := map_eq_some_iff.mp hstep
  rw [step, some.injEq] at hr
  subst hr
  exact detachDelete_touches hinv.edges.storeOk hinv.edges.nodup vid hguard.2.1

/-- One edge type without indexes. -/
def plainType : EdgeLabelDefs := fun labelId => if labelId = 1 then some ⟨[], []⟩ else none

/-- An edge with the property `0`, an index over it, edges without the property, and a vertex with
one of these that is detached. -/
def indexAfterEdge : List IndexAction :=
  [.write (.create 1 1 2 1 [some (.int64 5)]), .createIndex 1 1 [0] true,
    .write (.create 2 1 2 1 []), .write (.removeProperty ⟨2, 1, 2, 1, 2⟩ 0),
    .write (.insertVertex 3 []), .write (.create 3 3 2 1 []), .write (.detachDelete 3)]

theorem edgeIndexes_consistent_indexAfterEdge :
    ∃ x, runGuarded (IndexRun.step 4) (IndexRun.keepsPayloads 4) ⟨start, plainType⟩
        indexAfterEdge = some x ∧ x.run.edges = [⟨2, 1, 2, 1, 2⟩, ⟨1, 1, 2, 1, 1⟩] ∧
      x.run.store.get (.eidxTable 1 [0]) (encodeIndexKey [.int64 5] 1) = some (encodeEdgeAdjacency 1 2 1 1) ∧
      IndexConsistent x.defs x.run.store x.run.edges := by
  have hrun : (runGuarded (IndexRun.step 4) (IndexRun.keepsPayloads 4)
      ⟨start, plainType⟩ indexAfterEdge).map (fun x => (x.run.edges,
        x.run.store.get (.eidxTable 1 [0]) (encodeIndexKey [.int64 5] 1))) =
      some ([⟨2, 1, 2, 1, 2⟩, ⟨1, 1, 2, 1, 1⟩], some (encodeEdgeAdjacency 1 2 1 1)) := by decide +kernel
  obtain ⟨x, hx, heq⟩ := map_eq_some_iff.mp hrun
  obtain ⟨hedges, hrow⟩ := Prod.mk.inj heq
  exact ⟨x, hx, hedges, hrow, (edgeIndexes_consistent 4 plainType x (reaches_of_runGuarded _ hx)).1⟩

/-- One edge type with a public index over the property `0`. -/
def indexedType : EdgeLabelDefs := fun labelId =>
  if labelId = 1 then some ⟨[], [⟨1, [], [0], false, .PUBLIC⟩]⟩ else none

/-- `CREATE` of an edge with the indexed property: the payload has `seq = 0`, the edge is
stored under `1`. -/
theorem createdEdge_has_wrong_payload :
    ∃ x, Reaches (IndexRun.step 0) (fun _ _ => True) ⟨start, indexedType⟩ x ∧ x.run.edges = [⟨1, 1, 2, 1, 1⟩] ∧
      x.run.store.get (.eidxTable 1 [0]) (encodeIndexKey [.int64 5] 1) = some (encodeEdgeAdjacency 1 2 0 1) ∧
      ¬ IndexConsistent x.defs x.run.store x.run.edges := by
  have hrun : (runGuarded (IndexRun.step 0) (fun _ _ => True) ⟨start, indexedType⟩
      [.write (.create 1 1 2 1 [some (.int64 5)])]).map (fun x => (x.run.edges,
        x.run.store.get (.eidxTable 1 [0]) (encodeIndexKey [.int64 5] 1),
        (liveIndexes x.defs 1).map IndexDef.propIds)) =
      some ([⟨1, 1, 2, 1, 1⟩], some (encodeEdgeAdjacency 1 2 0 1), [[0]]) := by
    decide +kernel
  obtain ⟨x, hx, heq⟩ := map_eq_some_iff.mp hrun
  simp only [Prod.mk.injEq] at heq
  obtain ⟨hedges, hrow, hlive⟩ := heq
  refine ⟨x, reaches_of_runGuarded _ hx, hedges, hrow, fun hconsistent => ?_⟩
  obtain ⟨idx, hidx, hprops⟩ := List.mem_map.mp (hlive ▸ mem_singleton.mpr rfl :
    ([0] : List PropId) ∈ (liveIndexes x.defs 1).map IndexDef.propIds)
  obtain ⟨e, he, -, values, -, -, hpayload⟩ := hconsistent.rows 1 idx hidx _ _ (by rw [hprops]; exact hrow)
  rw [hedges, mem_singleton] at he
  rw [decodeEdgeAdjacency_encode, he] at hpayload
  exact absurd hpayload (by decide)

end Eugraph.Query
