import Eugraph.Query.EdgeRuns

/-!
# Stored edge properties

Which rows the edge operators touch, what is invariant about the property tables of edges
(keys are those of ids handed out, values can be read back), and what
`getEdgeProperties` then reads.
-/

namespace Eugraph.Query

open Lib Lib.Program Wt KeyCodec DataStore List Option EdgeRun ValueCodec Or

/-! ### Frames of the store operations -/

/-- The two tables of adjacency rows. -/
def adjacencyTable (table : TableName) (_ : Bytes) : Prop :=
  table = .vertexData ∨ table = .edgeIndex

/-- Rows of any table but those of edge properties and edge indexes. -/
def topologyRow (table : TableName) (_ : Bytes) : Prop :=
  (∀ labelId, table ≠ .epropTable labelId) ∧ ∀ labelId propIds, table ≠ .eidxTable labelId propIds

section Frames

variable (capacity : UInt32)

lemma writesOnly_promoteAdjacency (vid : VertexId) (direction : Direction) :
    WritesOnly adjacencyTable (promoteAdjacency vid direction) := by
  refine .bind (.scan _ _ _) fun rows => .andThen (.allOf fun row _ => ?_) ?_
  · exact .put _ (inr rfl) _
  · exact .bind (.forEach fun row _ => .del _ (inl rfl)) fun _ => .put _ (inl rfl) _

lemma writesOnly_insertAdjacencyEdge (k : EdgeIndexKey) (eid : EdgeId) :
    WritesOnly adjacencyTable (insertAdjacencyEdge capacity k eid) := by
  have hindexed : WritesOnly adjacencyTable (tablePut .raw .edgeIndex (encodeEdgeIndexKey k)
      (encodeU64 eid)) := .put _ (inr rfl) _
  unfold insertAdjacencyEdge
  refine .ite hindexed (.bind (.bind (.get _ _ _) fun _ => .pure _) fun state => ?_)
  split
  · exact hindexed
  · exact hindexed
  · refine .ite (.andThen (writesOnly_promoteAdjacency _ _) hindexed) (.andThen ?_ ?_)
    · exact .put _ (inl rfl) _
    · exact .put _ (inl rfl) _

lemma writesOnly_deleteAdjacencyEdge (k : EdgeIndexKey) :
    WritesOnly adjacencyTable (deleteAdjacencyEdge capacity k) := by
  have hindexed : WritesOnly adjacencyTable (do
      let _ ← tableDel .raw .edgeIndex (encodeEdgeIndexKey k)
      return true) := .bind (.del _ (inr rfl)) fun _ => .pure true
  unfold deleteAdjacencyEdge dropAdjacencyRow
  refine .ite hindexed (.bind (.bind (.get _ _ _) fun _ => .pure _) fun state => ?_)
  split
  · exact .bind (.del _ (inl rfl)) fun _ => .put _ (inl rfl) _
  · exact hindexed

lemma topologyRow_of_adjacencyTable {table : TableName} {key : Bytes}
    (h : adjacencyTable table key) : topologyRow table key := by
  rcases h with rfl | rfl
  · exact ⟨fun _ => by simp, fun _ _ => by simp⟩
  · exact ⟨fun _ => by simp, fun _ _ => by simp⟩

lemma writesOnly_insertVertex (vid : VertexId) (labelProps : LabelProps) :
    WritesOnly topologyRow (insertVertex capacity vid labelProps) := by
  have hdata : ∀ key, topologyRow .vertexData key := fun key =>
    topologyRow_of_adjacencyTable (inl rfl)
  have hvertex : ∀ table key, vertexRow table key → topologyRow table key := by
    rintro table key (rfl | rfl | ⟨l, rfl⟩ | ⟨rfl, -⟩)
    all_goals exact ⟨fun _ => by simp, fun _ _ => by simp⟩
  refine .andThen (.put _ ⟨fun _ => by simp, fun _ _ => by simp⟩ _)
    (.andThen (.ite ?_ (.pure true)) (.andThen ?_ ?_))
  · exact .allOf fun direction _ => .put _ (hdata _) _
  · exact .allOf fun group _ s => (writesOnly_insertLabelGroup vid group s).mono hvertex
  · exact fun s => (writesOnly_publishSummary vid labelProps s).mono hvertex

lemma writesOnly_deleteVertex (vid : VertexId) : WritesOnly topologyRow (deleteVertex vid) := by
  intro s
  refine (exec_deleteVertex vid s).1.mono ?_
  rintro table key (⟨rfl, -⟩ | rfl | rfl | ⟨l, rfl⟩)
  all_goals exact ⟨fun _ => by simp, fun _ _ => by simp⟩

/-- The property rows `insertEdge` writes. -/
def insertedProp (e : EdgeRef) (props : Properties) (table : TableName) (key : Bytes) : Prop :=
  table = .epropTable e.labelId ∧ ∃ slot ∈ slots props, key = encodeEPropKey e.eid slot.1

lemma writesOnly_insertEdge (e : EdgeRef) (props : Properties) :
    WritesOnly (fun table key => topologyRow table key ∨ insertedProp e props table key)
      (insertEdge capacity e props) := by
  have hadj : ∀ k, WritesOnly (fun table key => topologyRow table key ∨
      insertedProp e props table key) (insertAdjacencyEdge capacity k e.eid) := fun k s =>
    (writesOnly_insertAdjacencyEdge capacity k e.eid s).mono fun _ _ hrow =>
      inl (topologyRow_of_adjacencyTable hrow)
  refine .andThen (.put _ (inl ⟨fun _ => by simp, fun _ _ => by simp⟩) _) (.andThen ?_ ?_)
  · exact .allOf fun slot hslot => .put _ (inr ⟨rfl, slot, hslot, rfl⟩) _
  · exact .andThen (hadj _) (.andThen (hadj _) (.pure true))

/-- The property rows `deleteEdge` deletes. -/
def deletedProp (e : EdgeRef) (table : TableName) (key : Bytes) : Prop :=
  table = .epropTable e.labelId ∧ encodeEPropPrefix e.eid <+: key

lemma writesOnly_deleteEdge (e : EdgeRef) :
    WritesOnly (fun table key => topologyRow table key ∨ deletedProp e table key)
      (deleteEdge capacity e) := by
  have hadj : ∀ k, WritesOnly (fun table key => topologyRow table key ∨ deletedProp e table key)
      (deleteAdjacencyEdge capacity k) := fun k s =>
    (writesOnly_deleteAdjacencyEdge capacity k s).mono fun _ _ hrow =>
      inl (topologyRow_of_adjacencyTable hrow)
  refine .andThen (hadj _) (.andThen (hadj _) (.bind (.del _ ?_) fun _ => ?_))
  · exact inl ⟨fun _ => by simp, fun _ _ => by simp⟩
  · exact .bind (writesOnly_deleteUnder _ fun key hkey => inr ⟨rfl, hkey⟩) fun _ => .pure true

lemma writesOnly_asyncScanEdges {changed : TableName → Bytes → Prop} (vid : VertexId) (direction : Direction) :
    WritesOnly changed (asyncScanEdges capacity vid direction) := by
  refine .ite (.bind (.bind (.scan _ _ _) fun _ => .pure _) fun rows => ?_) (.bind (.pure _) fun rows => ?_)
  all_goals
    dsimp only
    split
    · exact .pure _
    · exact .bind (.scan _ _ _) fun _ => .pure _

end Frames

variable {eid : EdgeId}

lemma ePropPrefix_isPrefix {eid' : EdgeId} {pid : PropId} :
    encodeEPropPrefix eid <+: encodeEPropKey eid' pid ↔ eid = eid' := by
  rw [encodeEPropPrefix, encodeEPropKey, ← append_nil (IndexKeyCodec.u64BE eid),
    append_isPrefix_append_iff (by simp), IndexKeyCodec.u64BE_inj]
  simp

/-! ### What holds of the property tables -/

/-- Every property row is under an id below `n` and can be read back. -/
def PropsOk (n : Nat) (s : Store) : Prop :=
  ∀ labelId key value, s.get (.epropTable labelId) key = some value →
    (∃ eid pid, eid.toNat < n ∧ key = encodeEPropKey eid pid) ∧ ∃ v, decode value = .ok v

/-- Rows of any table but the property tables. -/
def outsideProps (table : TableName) (_ : Bytes) : Prop := ∀ labelId, table ≠ .epropTable labelId

section PropsOk

variable {n : Nat}

lemma PropsOk.mono {n' : Nat} {s : Store} (h : PropsOk n s) (hle : n ≤ n') : PropsOk n' s := by
  intro labelId key value hget
  obtain ⟨⟨eid, pid, hlt, hkey⟩, hdecode⟩ := h labelId key value hget
  exact ⟨⟨eid, pid, lt_of_lt_of_le hlt hle, hkey⟩, hdecode⟩

lemma keeps_outsideProps {α : Type} {p : StoreM α} (hp : WritesOnly outsideProps p) : Keeps (PropsOk n) p :=
  .of_writesOnly hp fun s s' hchanges h labelId key value hget =>
    h labelId key value (by rwa [← hchanges _ _ fun hno => hno labelId rfl])

lemma keeps_topology {α : Type} {p : StoreM α} (hp : WritesOnly topologyRow p) : Keeps (PropsOk n) p :=
  keeps_outsideProps fun s => (hp s).mono fun _ _ hrow => hrow.1

lemma PropsOk.put {s : Store} (h : PropsOk n s) (hlt : eid.toNat < n)
    (labelId : EdgeLabelId) (pid : PropId) (v : PropertyValue) :
    PropsOk n (s.put (.epropTable labelId) (encodeEPropKey eid pid) (encode v)) := by
  intro labelId' key' value hget
  rw [Store.put_get] at hget
  split at hget
  · rename_i hkey
    rw [some.injEq] at hget
    rw [← hget, hkey.2]
    exact ⟨⟨eid, pid, hlt, rfl⟩, exists_decode_encode v⟩
  · exact h labelId' key' value hget

lemma PropsOk.del {s : Store} (h : PropsOk n s) (table : TableName) (key : Bytes) :
    PropsOk n (s.del table key) := by
  intro labelId key' value hget
  rw [Store.del_get] at hget
  split at hget
  · exact absurd hget (by simp)
  · exact h labelId key' value hget

lemma keeps_insertEdge (capacity : UInt32) {e : EdgeRef} (hlt : e.eid.toNat < n)
    (props : Properties) : Keeps (PropsOk n) (insertEdge capacity e props) := by
  have hadj : ∀ k, Keeps (PropsOk n) (insertAdjacencyEdge capacity k e.eid) := fun k =>
    keeps_topology fun s => (writesOnly_insertAdjacencyEdge capacity k e.eid s).mono
      fun _ _ hrow => topologyRow_of_adjacencyTable hrow
  refine .andThen (keeps_outsideProps (.put _ (fun _ => by simp) _)) (.andThen ?_ ?_)
  · exact .allOf (fun slot => .put fun s h => h.put hlt _ _ slot.2) _
  · exact .andThen (hadj _) (.andThen (hadj _) (.pure true))

lemma keeps_deleteEdge (capacity : UInt32) (e : EdgeRef) : Keeps (PropsOk n) (deleteEdge capacity e) := by
  have hadj : ∀ k, Keeps (PropsOk n) (deleteAdjacencyEdge capacity k) := fun k =>
    keeps_topology fun s => (writesOnly_deleteAdjacencyEdge capacity k s).mono
      fun _ _ hrow => topologyRow_of_adjacencyTable hrow
  refine .andThen (hadj _) (.andThen (hadj _) (.bind (.del fun s h => h.del _ _) fun _ => ?_))
  exact .bind (.bind (keeps_outsideProps (.scan _ _ _)) fun _ =>
    .forEach (fun _ => .del fun _ h => h.del _ _) _) fun _ => .pure true

lemma keeps_insertIndexEntries {entries : List IndexRow}
    (h : ∀ entry ∈ entries, ∃ labelId propIds, entry.table = .eidxTable labelId propIds) :
    Keeps (PropsOk n) (insertIndexEntries entries) := by
  induction entries with
  | nil => exact .pure 0
  | cons entry rest ih =>
    have hrest := ih fun e he => h e (mem_cons_of_mem _ he)
    obtain ⟨l, ps, htable⟩ := h entry mem_cons_self
    rw [insertIndexEntries]
    refine .bind (.ite (keeps_outsideProps (writesOnly_checkUniqueConstraint _ _)) (.pure true)) fun free => ?_
    split
    · refine .bind (keeps_outsideProps (.put _ ?_ _)) fun _ => hrest
      simp [outsideProps, htable]
    · exact .bind hrest fun _ => .pure _

lemma keeps_maintainEdgeEntries {defs : EdgeLabelDefs} {labelId : EdgeLabelId}
    {change : StoreM Bool} (hchange : Keeps (PropsOk n) change) :
    Keeps (PropsOk n) (maintainEdgeEntries defs labelId eid change) := by
  intro s hs
  simp only [maintainEdgeEntries, exec_bind, exec_collectStoredEntries_snd]
  cases (exec (collectStoredEntries defs labelId eid) s).1 with
  | error message => exact hs
  | ok old =>
    simp only [exec_bind, exec_collectStoredEntries_snd]
    cases hnew : (exec (collectStoredEntries defs labelId eid) (exec change s).2).1 with
    | error message => exact hchange s hs
    | ok new =>
      simp only [exec_bind, exec_pure]
      refine keeps_insertIndexEntries (edgeTable_of_collected hnew) _ ?_
      exact Keeps.forEach (fun _ => .del fun _ h => h.del _ _) old _ (hchange s hs)

lemma keeps_createEdge (capacity : UInt32) (defs : EdgeLabelDefs)
    (hlt : eid.toNat < n) (src dst : VertexId) (labelId : EdgeLabelId) (props : Properties) :
    Keeps (PropsOk n) (createEdge capacity defs eid src dst labelId props) := by
  refine .bind (keeps_outsideProps (.allOf fun entry _ =>
    writesOnly_checkUniqueConstraint _ _)) fun free => ?_
  refine .ite (.bind (keeps_insertEdge capacity hlt props) fun ok => .ite ?_ (.pure _)) (.pure _)
  refine .bind (keeps_outsideProps (.forEach fun entry hentry => .put _ ?_ _)) fun _ => .pure _
  obtain ⟨⟨propIds, htable⟩, -⟩ := table_of_mem_edgeRows hentry
  simp [outsideProps, htable]

lemma keeps_batchInsertEdges (capacity : UInt32) (defs : EdgeLabelDefs) (labelId : EdgeLabelId)
    {entries : List BatchEdgeEntry} (hlt : ∀ entry ∈ entries, entry.eid.toNat < n) :
    Keeps (PropsOk n) (batchInsertEdges capacity defs labelId entries) := by
  induction entries with
  | nil => exact .pure ()
  | cons entry rest ih =>
    rw [batchInsertEdges, forEach, batchInsertEdge]
    refine .bind (.bind (keeps_insertEdge capacity (hlt entry mem_cons_self) _) fun _ =>
      keeps_insertIndexEntries fun row hrow => ?_) fun _ =>
        ih fun e he => hlt e (mem_cons_of_mem _ he)
    obtain ⟨⟨propIds, htable⟩, -⟩ := table_of_mem_edgeRows hrow
    exact ⟨labelId, propIds, htable⟩

lemma keeps_detachDelete (capacity : UInt32) (vid : VertexId) : Keeps (PropsOk n) (detachDelete capacity vid) := by
  have hside : ∀ direction, Keeps (PropsOk n) (detachSide capacity vid direction) := fun d =>
    .bind (keeps_outsideProps (writesOnly_asyncScanEdges capacity vid d)) fun _ =>
      .bind (.forEach (keeps_deleteEdge capacity) _) fun _ => .pure _
  exact .bind (.bind (hside .OUT) fun _ => .bind (hside .IN) fun _ => .pure _) fun _ =>
    .bind (keeps_topology (writesOnly_deleteVertex vid)) fun _ => .pure _

lemma keeps_deleteEdgeEntity (capacity : UInt32) (defs : EdgeLabelDefs) (e : EdgeRef) :
    Keeps (PropsOk n) (deleteEdgeEntity capacity defs e) := by
  refine .bind (keeps_outsideProps (writesOnly_collectStoredEntries defs _ _)) fun entries => ?_
  split
  · exact .pure _
  · exact .bind (.forEach (fun _ => .del fun _ h => h.del _ _) _) fun _ =>
      .bind (keeps_deleteEdge capacity e) fun _ => .pure _

end PropsOk

/-- Along a run the property tables stay as the readers need them. -/
theorem EdgeRun.propsOk_step {capacity : UInt32} {defs : EdgeLabelDefs} {r r' : EdgeRun}
    {a : EdgeAction} (hissued : ∀ e ∈ r.edges, e.eid.toNat < r.nextId)
    (h : PropsOk r.nextId r.store) (hstep : r.step capacity defs a = some r') :
    PropsOk r'.nextId r'.store := by
  cases a with
  | insertVertex vid labelProps =>
    rw [step, ite_none_right_eq_some, some.injEq] at hstep
    obtain ⟨-, rfl⟩ := hstep
    exact keeps_topology (writesOnly_insertVertex capacity vid labelProps) _ h
  | create eid src dst labelId props =>
    rw [step, ite_none_right_eq_some, some.injEq] at hstep
    obtain ⟨⟨hid, -⟩, rfl⟩ := hstep
    exact keeps_createEdge capacity defs (Nat.lt_succ_self _) src dst labelId props _ (h.mono (by omega))
  | merge eid src dst labelId props =>
    rw [step, ite_none_right_eq_some, some.injEq] at hstep
    obtain ⟨⟨hid, -⟩, rfl⟩ := hstep
    exact Keeps.bind (keeps_insertEdge capacity (Nat.lt_succ_self _) props)
      (fun _ => .pure ()) _ (h.mono (le_trans hid (Nat.le_succ _)))
  | batch labelId startEid records =>
    simp only [step, ite_none_right_eq_some, some.injEq] at hstep
    obtain ⟨⟨hid, hfits, -, -⟩, rfl⟩ := hstep
    exact keeps_batchInsertEdges capacity defs labelId
      (fun entry hentry => (batchEntries_eid_bounds hfits hentry).2) r.store
      (h.mono (le_trans hid (Nat.le_add_right _ _)))
  | setProperty e pid value =>
    rw [step, ite_none_right_eq_some] at hstep
    obtain ⟨-, rfl⟩ := completed_eq hstep.2
    refine keeps_maintainEdgeEntries ?_ _ h
    cases value with
    | none => exact .del fun _ h => h.del _ _
    | some v => exact .put fun _ h => h.put (hissued e hstep.1) _ _ v
  | removeProperty e pid =>
    rw [step, ite_none_right_eq_some] at hstep
    obtain ⟨-, rfl⟩ := completed_eq hstep.2
    exact keeps_maintainEdgeEntries (.del fun _ h => h.del _ _) _ h
  | delete e =>
    rw [step, ite_none_right_eq_some] at hstep
    obtain ⟨-, rfl⟩ := completed_eq hstep.2
    exact keeps_deleteEdgeEntity capacity defs e _ h
  | detachDelete vid =>
    rw [step, some.injEq] at hstep
    subst hstep
    exact keeps_detachDelete capacity vid _ h
  | backfill labelId propIds unique =>
    rw [step] at hstep
    obtain ⟨-, rfl⟩ := completed_eq hstep
    exact keeps_outsideProps (writesOnly_backfillEdgeIndex (fun _ _ => by simp) unique) _ h

lemma propsOk_empty (n : Nat) : PropsOk n Store.empty := by
  intro labelId key value hget
  exact absurd hget (by simp [Store.empty, Store.get])

/-! ### What `getEdgeProperties` reads -/

/-- A property of an edge as it is stored. -/
def storedProp (s : Store) (labelId : EdgeLabelId) (eid : EdgeId) (pid : PropId) :
    Option PropertyValue :=
  (s.get (.epropTable labelId) (encodeEPropKey eid pid)).bind fun value =>
    (decode value).toOption

lemma propValue_setProp (props : Properties) (pid : PropId) (v : PropertyValue) (q : PropId) :
    propValue (setProp props pid v) q = if q = pid then some v else propValue props q := by
  unfold propValue setProp
  by_cases hq : q = pid
  · subst hq
    have hlen : q.toNat < (props ++ replicate (q.toNat + 1 - props.length) none).length := by
      simp
      omega
    rw [if_pos rfl, getElem?_set_self hlen]
    rfl
  · have hne : pid.toNat ≠ q.toNat := fun heq => hq (UInt16.toNat_inj.mp heq.symm)
    rw [if_neg hq, getElem?_set_ne hne, getElem?_append]
    split
    · rfl
    · rename_i hlen
      rw [getElem?_replicate, getElem?_eq_none (by omega)]
      split <;> rfl

/-- The loop of `getEdgeProperties`, over rows of distinct properties. -/
theorem foldProps (rows : List Record) (props : Properties)
    (hdecode : ∀ row ∈ rows, ∃ v, decode row.2 = .ok v)
    (hnodup : (rows.map fun row => (decodeEPropKey row.1).2).Nodup) :
    ∃ props', rows.foldlM (fun props row =>
        (decode row.2).map (setProp props (decodeEPropKey row.1).2)) props = .ok props' ∧
      (∀ pid, (∀ row ∈ rows, (decodeEPropKey row.1).2 ≠ pid) → propValue props' pid = propValue props pid) ∧
      ∀ row ∈ rows, propValue props' (decodeEPropKey row.1).2 = (decode row.2).toOption := by
  induction rows generalizing props with
  | nil => exact ⟨props, rfl, fun _ _ => rfl, fun _ hrow => absurd hrow (by simp)⟩
  | cons row rest ih =>
    rw [map_cons, nodup_cons] at hnodup
    obtain ⟨v, hv⟩ := hdecode row mem_cons_self
    obtain ⟨props', hfold, hkept, hread⟩ := ih (setProp props (decodeEPropKey row.1).2 v)
      (fun row' hrow' => hdecode row' (mem_cons_of_mem _ hrow')) hnodup.2
    refine ⟨props', ?_, fun pid hpid => ?_, fun row' hrow' => ?_⟩
    · rw [foldlM_cons, hv]
      exact hfold
    · rw [hkept pid fun row' hrow' => hpid row' (mem_cons_of_mem _ hrow'),
        propValue_setProp, if_neg (Ne.symm (hpid row mem_cons_self))]
    · rcases mem_cons.mp hrow' with rfl | hrow'
      · rw [hkept, propValue_setProp, if_pos rfl, hv]
        · rfl
        · intro row'' hrow'' heq
          exact hnodup.1 (mem_map.mpr ⟨row'', hrow'', heq⟩)
      · exact hread row' hrow'

lemma exec_getEdgeProperties {n : Nat} {s : Store} (h : PropsOk n s) (labelId : EdgeLabelId) (eid : EdgeId) :
    ∃ props : Properties, (exec (getEdgeProperties labelId eid) s).1 = .ok
        (if (prefixRecords (s (.epropTable labelId)) (encodeEPropPrefix eid)).isEmpty then none
          else some props) ∧ propValue props = storedProp s labelId eid ∧
      ((prefixRecords (s (.epropTable labelId)) (encodeEPropPrefix eid)).isEmpty → props = []) := by
  obtain ⟨rows, hrows⟩ : ∃ rows, rows = prefixRecords (s (.epropTable labelId)) (encodeEPropPrefix eid) := ⟨_, rfl⟩
  have hkey : ∀ row ∈ rows, row.1 = encodeEPropKey eid (decodeEPropKey row.1).2 ∧
      s.get (.epropTable labelId) row.1 = some row.2 := by
    intro row hrow
    rw [hrows] at hrow
    obtain ⟨hpre, hget⟩ := (mem_prefixRecords _ _ _ _).mp hrow
    obtain ⟨⟨eid', pid, -, hkey⟩, -⟩ := h labelId row.1 row.2 hget
    rw [hkey, ePropPrefix_isPrefix] at hpre
    rw [hkey, ← hpre, decodeEPropKey_encode]
    exact ⟨rfl, by rw [hpre, ← hkey]; exact hget⟩
  have hnodup : (rows.map fun row => (decodeEPropKey row.1).2).Nodup := by
    rw [hrows]
    refine nodup_map_prefixRecords fun row hrow row' hrow' heq => ?_
    rw [← hrows] at hrow hrow'
    rw [(hkey row hrow).1, (hkey row' hrow').1, heq]
  obtain ⟨props, hfold, hkept, hread⟩ := foldProps rows []
    (fun row hrow => (h labelId row.1 row.2 (hkey row hrow).2).2) hnodup
  refine ⟨props, ?_, funext fun pid => ?_, fun hempty => ?_⟩
  · simp only [getEdgeProperties, exec_bind, exec_tableScan, exec_pure, ← hrows]
    rw [hfold]
    rfl
  · rw [storedProp]
    cases hget : s.get (.epropTable labelId) (encodeEPropKey eid pid) with
    | none =>
      rw [hkept pid]
      · rfl
      · rintro row hrow rfl
        obtain ⟨hrowKey, hrowGet⟩ := hkey row hrow
        rw [← hrowKey, hrowGet] at hget
        exact absurd hget (by simp)
    | some value =>
      have hmem : (encodeEPropKey eid pid, value) ∈ rows := by
        rw [hrows]
        exact (mem_prefixRecords _ _ _ _).mpr ⟨ePropPrefix_isPrefix.mpr rfl, hget⟩
      have hvalue := hread _ hmem
      rw [decodeEPropKey_encode] at hvalue
      exact hvalue
  · rw [← hrows, List.isEmpty_iff] at hempty
    subst hempty
    exact (Except.ok.inj hfold).symm

/-- The entries collected for an edge are those of its stored properties. -/
theorem exec_collectStoredEntries {n : Nat} {s : Store} (h : PropsOk n s) (defs : EdgeLabelDefs)
    (labelId : EdgeLabelId) (eid : EdgeId) :
    exec (collectStoredEntries defs labelId eid) s =
      (.ok (edgeRows defs labelId eid (storedProp s labelId eid)), s) := by
  refine Prod.ext ?_ (exec_collectStoredEntries_snd defs labelId eid s)
  obtain ⟨props, hread, hvalue, hempty⟩ := exec_getEdgeProperties h labelId eid
  simp only [collectStoredEntries, exec_bind, exec_pure]
  rw [hread]
  simp only [Except.map, Except.ok.injEq]
  split
  · rename_i hrows
    rw [← hvalue, hempty hrows]
    rfl
  · rw [← hvalue]
    rfl

/-- A scan of an edge type yields its live edges. -/
theorem EdgeRun.Inv.mem_scanEdgesByType {capacity : UInt32} {r : EdgeRun} (h : r.Inv capacity)
    {labelId : EdgeLabelId} {entry : EdgeTypeIndexEntry} :
    entry ∈ (exec (scanEdgesByType labelId) r.store).1 ↔
      ∃ e ∈ r.edges, e.labelId = labelId ∧ entry = ⟨e.src, e.dst, e.seq, e.eid⟩ := by
  simp only [scanEdgesByType, exec_bind, exec_tableScan, exec_pure]
  constructor
  · intro hentry
    obtain ⟨row, hrow, rfl⟩ := mem_map.mp hentry
    have hget := ((mem_prefixRecords _ _ _ _).mp hrow).2
    obtain ⟨henc, -⟩ := h.storeOk.live_of_typeRow hrow
    have htypes := h.storeOk.types labelId row.1
    rw [Store.get, hget, henc, typeRows_encode] at htypes
    obtain ⟨eid, hlive, hvalue⟩ := map_eq_some_iff.mp htypes.symm
    obtain ⟨e, he, hkey, heid⟩ := (liveEdges_eq_some h.nodup).mp hlive
    simp only [EdgeRef.key, EdgeKey.mk.injEq] at hkey
    obtain ⟨hlabel, hsrc, hdst, hseq⟩ := hkey
    refine ⟨e, he, hlabel, ?_⟩
    rw [hsrc, hdst, hseq, heid, ← hvalue, decodeU64_encodeU64]
  · rintro ⟨e, he, rfl, rfl⟩
    have hget := h.noCollision.type_row e he
    refine mem_map.mpr ⟨_, (mem_prefixRecords _ _ _ _).mpr ⟨ nil_prefix, hget⟩, ?_⟩
    simp [decodeEdgeTypeIndexKey_encode, EdgeRef.typeKey]

end Eugraph.Query
