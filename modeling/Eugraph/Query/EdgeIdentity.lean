import Eugraph.Query.EdgeProperties

/-!
# Edge values and `DELETE`

`DELETE r` recomputes every storage key of an edge from the runtime value it is given.
Each producer fills that value by a route of its own; this module says when the value is
the stored edge, and that then `DELETE` removes the edge and nothing else.
-/

namespace Eugraph.Query

open Lib Lib.Program Wt KeyCodec DataStore List Option EdgeRun DataStore.EdgeRef Or

/-! ### `DELETE` of the stored edge -/

/-- `DELETE` of the value `v` removes the rows of the edge `e` and of no other edge. -/
structure DeletesExactly (capacity : UInt32) (defs : EdgeLabelDefs) (r : EdgeRun)
    (e v : EdgeRef) : Prop where
  completes : (exec (deleteEdgeEntity capacity defs v) r.store).1 = .ok ()
  type_row : (exec (deleteEdgeEntity capacity defs v) r.store).2.get (.etypeTable e.labelId)
    (encodeEdgeTypeIndexKey e.typeKey) = none
  cached_rows : ∀ direction, direction ≠ .BOTH →
    (exec (deleteEdgeEntity capacity defs v) r.store).2.get .vertexData
      (encodeVertexDataAdjEdgeKey (adjacencyKey e direction)) = none
  index_rows : ∀ direction, direction ≠ .BOTH →
    (exec (deleteEdgeEntity capacity defs v) r.store).2.get .edgeIndex
      (encodeEdgeIndexKey (adjacencyKey e direction)) = none
  prop_rows : ∀ pid, (exec (deleteEdgeEntity capacity defs v) r.store).2.get
    (.epropTable e.labelId) (encodeEPropKey e.eid pid) = none
  other_type_rows : ∀ e' ∈ r.edges, e' ≠ e →
    (exec (deleteEdgeEntity capacity defs v) r.store).2.get (.etypeTable e'.labelId)
      (encodeEdgeTypeIndexKey e'.typeKey) = some (ValueCodec.encodeU64 e'.eid)
  other_adjacency_rows : ∀ direction, direction ≠ .BOTH → ∀ e' ∈ r.edges, e' ≠ e →
    (⟨e'.far direction, e'.labelId, e'.seq, e'.eid⟩ : DataStore.EdgeIndexEntry) ∈
      (exec (scanEdges capacity (e'.near direction) direction none)
        (exec (deleteEdgeEntity capacity defs v) r.store).2).1
  other_prop_rows : ∀ e' ∈ r.edges, e' ≠ e → ∀ pid,
    (exec (deleteEdgeEntity capacity defs v) r.store).2.get (.epropTable e'.labelId)
      (encodeEPropKey e'.eid pid) = r.store.get (.epropTable e'.labelId) (encodeEPropKey e'.eid pid)

section Delete

variable {capacity : UInt32} {r : EdgeRun} {e : EdgeRef}

/-- A side whose rows lack one holds it in neither place. -/
theorem SideInv.row_none {s : Store} {k : EdgeIndexKey} {rows : Bytes → Option Bytes}
    (h : DataStore.SideInv s k.vertexId k.direction rows) (hnone : rows (suffixOf k) = none) :
    s.get .vertexData (encodeVertexDataAdjEdgeKey k) = none ∧
    s.get .edgeIndex (encodeEdgeIndexKey k) = none := by
  have hcached := get_cachedRows s k.vertexId k.direction (suffixOf k)
  have hne : suffixOf k ≠ [] := adjacencySuffix_ne_nil _ _ _
  rw [if_neg hne] at hcached
  have hindex := get_indexRows s k.vertexId k.direction (suffixOf k)
  unfold DataStore.SideInv at h
  split at h
  · exact ⟨hcached.symm.trans ((h.1 _).trans hnone), hindex.symm.trans (h.2.1 _)⟩
  · exact ⟨hcached.symm.trans (h.1 _), hindex.symm.trans ((h.2 _).trans hnone)⟩

/-- The store after `DELETE` of the stored edge. -/
theorem EdgeRun.Inv.delete (defs : EdgeLabelDefs) (h : r.Inv capacity) (hprops : PropsOk r.nextId r.store)
    (he : e ∈ r.edges) :
    (exec (deleteEdgeEntity capacity defs e) r.store).1 = .ok () ∧
    EdgeRun.Inv capacity { r with
      store := (exec (deleteEdgeEntity capacity defs e) r.store).2
      edges := r.edges.filter fun e' => e'.key ≠ e.key } := by
  have hok : (exec (deleteEdgeEntity capacity defs e) r.store).1 = .ok () := by
    simp only [deleteEdgeEntity, exec_bind, exec_collectStoredEntries hprops, exec_pure]
  refine ⟨hok, ?_⟩
  have hstep : r.step capacity defs (.delete e) = some { r with
      store := (exec (deleteEdgeEntity capacity defs e) r.store).2
      edges := r.edges.filter fun e' => e'.key ≠ e.key } := by
    rw [step, if_pos he, completed, hok]
  exact inv_step (a := .delete e) h trivial hstep

lemma EdgeRun.Inv.deletesExactly (defs : EdgeLabelDefs) (h : r.Inv capacity) (hprops : PropsOk r.nextId r.store)
    (he : e ∈ r.edges) : DeletesExactly capacity defs r e e := by
  obtain ⟨hok, hinv⟩ := h.delete defs hprops he
  have hgone : liveEdges (r.edges.filter fun e' => e'.key ≠ e.key) e.key = none := by
    rw [liveEdges_filter_ne, Function.update_self]
  have hother : ∀ e' ∈ r.edges, e' ≠ e → e' ∈ r.edges.filter fun e' => e'.key ≠ e.key := by
    intro e' he' hne
    refine mem_filter.mpr ⟨he', ?_⟩
    simpa using fun hkey => hne (inj_on_of_nodup_map h.nodup he' he hkey)
  have hside : ∀ direction, direction ≠ .BOTH → DataStore.SideInv
      (exec (deleteEdgeEntity capacity defs e) r.store).2 (adjacencyKey e direction).vertexId
      (adjacencyKey e direction).direction (sideRows (liveEdges (r.edges.filter fun e' =>
        e'.key ≠ e.key)) (adjacencyKey e direction).vertexId (adjacencyKey e direction).direction) := by
    intro direction hdir
    refine (hinv.storeOk.sides _ _ ?_).1
    unfold adjacencyKey
    split
    · simp [inKey]
    · simp [outKey]
  have hrow : ∀ direction, sideRows (liveEdges (r.edges.filter fun e' => e'.key ≠ e.key))
      (adjacencyKey e direction).vertexId (adjacencyKey e direction).direction
      (suffixOf (adjacencyKey e direction)) = none := by
    intro direction
    unfold adjacencyKey
    split
    · change sideRows _ e.dst .IN (suffixOf e.inKey) = none
      rw [sideRows_inKey, hgone]
      rfl
    · change sideRows _ e.src .OUT (suffixOf e.outKey) = none
      rw [sideRows_outKey, hgone]
      rfl
  have hcollide := hinv.noCollision
  have hentries := congrArg Prod.fst (exec_collectStoredEntries hprops defs e.labelId e.eid)
  obtain ⟨s₁, hs₁⟩ : ∃ s₁, s₁ = (exec (deleteEdgeIndexEntries
    (edgeRows defs e.labelId e.eid (storedProp r.store e.labelId e.eid))) r.store).2 := ⟨_, rfl⟩
  have hstore : (exec (deleteEdgeEntity capacity defs e) r.store).2 = (exec (deleteEdge capacity e) s₁).2 := by
    simp only [deleteEdgeEntity, exec_bind, exec_collectStoredEntries hprops, exec_pure, hs₁]
  have hentriesFrame : ChangesOnly r.store s₁ outsideProps := by
    rw [hs₁]
    refine WritesOnly.forEach (fun entry hentry => .del _ ?_) _
    obtain ⟨l, propIds, htable⟩ := edgeTable_of_collected hentries entry hentry
    simp [outsideProps, htable]
  refine ⟨hok, ?_, fun d hd => ?_, fun d hd => ?_, fun pid => ?_, ?_, ?_, ?_⟩
  · rw [hinv.storeOk.types, typeRows_encode]
    change (liveEdges _ e.key).map _ = none
    rw [hgone]
    rfl
  · exact (SideInv.row_none (hside d hd) (hrow d)).1
  · exact (SideInv.row_none (hside d hd) (hrow d)).2
  · -- the last loop of `deleteEdge`
    have hlive := (liveEdges_eq_some h.nodup).mpr ⟨e, he, rfl, rfl⟩
    obtain ⟨s₂, -, -, hexec⟩ := (storeOk_of_propertyRows h.storeOk (hs₁ ▸
      writesOnly_deleteEdgeIndexEntries (edgeTable_of_collected hentries) r.store)).exec_deleteEdge
        (by rw [hlive]; rfl)
    rw [hstore, hexec, exec_deleteUnder_get, if_pos ⟨rfl, ePropPrefix_isPrefix.mpr rfl⟩]
  · intro e' he' hne
    exact hcollide.type_row e' (hother e' he' hne)
  · intro d hd e' he' hne
    exact hcollide.adjacency_rows d hd e' (hother e' he' hne)
  · intro e' he' hne pid
    rw [hstore, writesOnly_deleteEdge capacity e s₁, hentriesFrame]
    · exact fun hno => hno e'.labelId rfl
    · rintro (hno | ⟨-, hpre⟩)
      · exact hno.1 e'.labelId rfl
      · have heid := ePropPrefix_isPrefix.mp hpre
        exact hne (inj_on_of_nodup_map h.ids he' he heid.symm)

/-- `DELETE` of a value touches one row of the edge-type tables only. -/
theorem writesOnly_deleteEdgeEntity (capacity : UInt32) (defs : EdgeLabelDefs) (v : EdgeRef) :
    WritesOnly (fun table key => (∀ labelId, table ≠ .etypeTable labelId) ∨
      table = .etypeTable v.labelId ∧ key = encodeEdgeTypeIndexKey v.typeKey)
      (deleteEdgeEntity capacity defs v) := by
  have hadj : ∀ k, WritesOnly (fun table key => (∀ labelId, table ≠ .etypeTable labelId) ∨
      table = .etypeTable v.labelId ∧ key = encodeEdgeTypeIndexKey v.typeKey)
      (deleteAdjacencyEdge capacity k) := fun k s =>
    (writesOnly_deleteAdjacencyEdge capacity k s).mono (by
      rintro table key (rfl | rfl)
      · exact inl fun _ => by simp
      · exact inl fun _ => by simp)
  intro s
  simp only [deleteEdgeEntity, exec_bind, exec_collectStoredEntries_snd]
  cases hold : (exec (collectStoredEntries defs v.labelId v.eid) s).1 with
  | error message => exact ChangesOnly.refl s _
  | ok entries =>
    simp only [exec_bind, exec_pure]
    refine ((writesOnly_deleteEdgeIndexEntries (edgeTable_of_collected hold) s).mono ?_).trans ?_
    · rintro table key (⟨l, ps, rfl⟩ | ⟨l, rfl⟩)
      · exact inl fun _ => by simp
      · exact inl fun _ => by simp
    · refine WritesOnly.andThen (hadj _) (.andThen (hadj _) (.bind (.del _ (inr ⟨rfl, rfl⟩))
        fun _ => .bind (writesOnly_deleteUnder _ ?_) fun _ => .pure true)) _
      exact fun key _ => inl fun _ => by simp

/-- A value that makes `DELETE` remove the edge has the key of the edge. -/
theorem EdgeRun.Inv.key_of_deletesExactly {defs : EdgeLabelDefs} {v : EdgeRef} (h : r.Inv capacity)
    (he : e ∈ r.edges) (hdel : DeletesExactly capacity defs r e v) : v.key = e.key := by
  by_contra hkey
  have hrow := h.noCollision.type_row e he
  rw [← writesOnly_deleteEdgeEntity capacity defs v r.store, hdel.type_row] at hrow
  · exact absurd hrow (by simp)
  · rintro (hno | ⟨hlabel, hkeys⟩)
    · exact hno e.labelId rfl
    · rw [TableName.etypeTable.injEq] at hlabel
      rw [encodeEdgeTypeIndexKey_inj] at hkeys
      simp only [typeKey, EdgeTypeIndexKey.mk.injEq] at hkeys
      exact hkey (by simp [key, hlabel, hkeys])

end Delete

/-! ### Ids start at `1` -/

/-- No live edge has the id `0`. -/
def EdgeRun.PositiveIds (r : EdgeRun) : Prop := 0 < r.nextId ∧ ∀ e ∈ r.edges, 0 < e.eid.toNat

lemma EdgeRun.positiveIds_step {capacity : UInt32} {defs : EdgeLabelDefs} {r r' : EdgeRun}
    {a : EdgeAction} (h : r.PositiveIds) (hstep : r.step capacity defs a = some r') :
    r'.PositiveIds := by
  obtain ⟨hnext, hedges⟩ := h
  have hkept : ∀ (keep : EdgeRef → Bool), ∀ e ∈ r.edges.filter keep, 0 < e.eid.toNat :=
    fun keep e he => hedges e (mem_of_mem_filter he)
  have hcons : ∀ new : EdgeRef, r.nextId ≤ new.eid.toNat → ∀ e ∈ new :: r.edges, 0 < e.eid.toNat := by
    intro new hid e he
    rcases mem_cons.mp he with rfl | he
    · exact lt_of_lt_of_le hnext hid
    · exact hedges e he
  cases a with
  | insertVertex vid labelProps =>
    rw [step, ite_none_right_eq_some, some.injEq] at hstep
    obtain ⟨-, rfl⟩ := hstep
    exact ⟨hnext, hedges⟩
  | create eid src dst labelId props =>
    rw [step, ite_none_right_eq_some, some.injEq] at hstep
    obtain ⟨⟨hid, -⟩, rfl⟩ := hstep
    refine ⟨Nat.succ_pos _, ?_⟩
    cases hok : (exec (createEdge capacity defs eid src dst labelId props) r.store).1 with
    | false => simpa [hok] using hedges
    | true => simpa [hok] using hcons ⟨eid, src, dst, labelId, eid⟩ hid
  | merge eid src dst labelId props =>
    rw [step, ite_none_right_eq_some, some.injEq] at hstep
    obtain ⟨⟨hid, -⟩, rfl⟩ := hstep
    exact ⟨Nat.succ_pos _, hcons _ hid⟩
  | batch labelId startEid records =>
    simp only [step, ite_none_right_eq_some, some.injEq] at hstep
    obtain ⟨⟨hid, hfits, -, -⟩, rfl⟩ := hstep
    refine ⟨by dsimp only; omega, fun e he => ?_⟩
    rcases mem_append.mp he with he | he
    · obtain ⟨entry, hentry, rfl⟩ := List.mem_map.mp (mem_reverse.mp he)
      have hlow := (batchEntries_eid_bounds hfits hentry).1
      change 0 < entry.eid.toNat
      omega
    · exact hedges e he
  | setProperty e pid value =>
    rw [step, ite_none_right_eq_some] at hstep
    obtain ⟨-, rfl⟩ := completed_eq hstep.2
    exact ⟨hnext, hedges⟩
  | removeProperty e pid =>
    rw [step, ite_none_right_eq_some] at hstep
    obtain ⟨-, rfl⟩ := completed_eq hstep.2
    exact ⟨hnext, hedges⟩
  | delete e =>
    rw [step, ite_none_right_eq_some] at hstep
    obtain ⟨-, rfl⟩ := completed_eq hstep.2
    exact ⟨hnext, hkept _⟩
  | detachDelete vid =>
    rw [step, some.injEq] at hstep
    subst hstep
    exact ⟨hnext, hkept _⟩
  | backfill labelId propIds unique =>
    rw [step] at hstep
    obtain ⟨-, rfl⟩ := completed_eq hstep
    exact ⟨hnext, hedges⟩

/-! ### The ways an edge is handed on -/

/-- How an edge value comes to a later operator. -/
inductive ReadPath
  | createOutput
  | expand (direction : Direction) (labelFilter : Option EdgeLabelId)
  | varLenExpand (direction : Direction) (labelFilter : Option EdgeLabelId)
  | typeScan (labelId : EdgeLabelId)
  | typeScanReversed (labelId : EdgeLabelId)
  | indexScan (labelId : EdgeLabelId) (propIds : List PropId) (key : Bytes)

/-- The path hands out `v` for the edge with the id of `e`. -/
def EdgeRun.HandsOut (capacity : UInt32) (r : EdgeRun) (e v : EdgeRef) : ReadPath → Prop
  | .createOutput =>
    e.eid ∉ r.batchIds ∧ v = (createdValue e.eid e.src e.dst e.labelId).entity
  | .expand direction labelFilter => direction ≠ .BOTH ∧
      ∃ vid, ∃ entry ∈ (exec (scanEdges capacity vid direction labelFilter) r.store).1,
        entry.edgeId = e.eid ∧ v = (expandValue vid direction entry).entity
  | .varLenExpand direction labelFilter => direction ≠ .BOTH ∧
      ∃ vid, ∃ entry ∈ (exec (scanEdges capacity vid direction labelFilter) r.store).1,
        entry.edgeId = e.eid ∧ v = (loadEdge vid direction entry).entity
  | .typeScan labelId =>
    ∃ entry ∈ (exec (scanEdgesByType labelId) r.store).1,
      entry.edgeId = e.eid ∧ v = (typeScanValue labelId entry).entity
  | .typeScanReversed labelId =>
    ∃ entry ∈ (exec (scanEdgesByType labelId) r.store).1, entry.edgeId = e.eid ∧
      entry.srcVertexId ≠ entry.dstVertexId ∧ v = (Query.typeScanReversed labelId entry).entity
  | .indexScan labelId propIds key =>
    ∃ payload, r.store.get (.eidxTable labelId propIds) key = some payload ∧
      IndexKeyCodec.decodeEntityId key = e.eid ∧ v = (indexScanValue e.eid payload).entity

/-- When the path hands out the stored edge: `CREATE` and `MERGE` never do, the copy of an
undirected type scan never does, and topology values keep 32 bits of `seq`. -/
def ReadPath.Faithful (r : EdgeRun) (e : EdgeRef) : ReadPath → Prop
  | .createOutput => False
  | .expand _ _ => e.seq.toNat < 2 ^ 32
  | .varLenExpand _ _ => True
  | .typeScan _ => e.seq.toNat < 2 ^ 32
  | .typeScanReversed _ => False
  | .indexScan labelId propIds key =>
    e.seq.toNat < 2 ^ 32 ∧ ∃ payload seq,
      r.store.get (.eidxTable labelId propIds) key = some payload ∧
      ValueCodec.decodeEdgeAdjacency payload = (e.src, e.dst, seq, e.labelId) ∧
      seq.toUInt32 = e.seq.toUInt32

lemma toUInt64_toUInt32_eq_iff {seq seq' : UInt64} :
    seq.toUInt32.toUInt64 = seq' ↔ seq'.toNat < 2 ^ 32 ∧ seq.toUInt32 = seq'.toUInt32 := by
  constructor
  · rintro rfl
    refine ⟨?_, (UInt32.toUInt32_toUInt64 _).symm⟩
    rw [UInt32.toNat_toUInt64]
    exact UInt32.toNat_lt _
  · rintro ⟨hlt, hsame⟩
    rw [hsame, ← UInt64.toNat_inj, UInt32.toNat_toUInt64, UInt64.toNat_toUInt32]
    exact Nat.mod_eq_of_lt hlt

section Paths

variable {capacity : UInt32} {r : EdgeRun} {e : EdgeRef}

/-- An entry of a side with the id of a live edge is that edge's. -/
theorem EdgeRun.Inv.scanned (h : r.Inv capacity) (he : e ∈ r.edges) {vid : VertexId}
    {direction : Direction} (hdir : direction ≠ .BOTH) {labelFilter : Option EdgeLabelId}
    {entry : DataStore.EdgeIndexEntry}
    (hentry : entry ∈ (exec (scanEdges capacity vid direction labelFilter) r.store).1)
    (hid : entry.edgeId = e.eid) :
    vid = e.near direction ∧ entry = ⟨e.far direction, e.labelId, e.seq, e.eid⟩ := by
  rw [(h.storeOk.scanEdges_perm h.nodup vid hdir labelFilter).1.mem_iff] at hentry
  obtain ⟨e', he', rfl⟩ := List.mem_map.mp hentry
  obtain ⟨hmem, hnear⟩ := mem_filter.mp he'
  have hsame : e' = e := inj_on_of_nodup_map h.ids hmem he hid
  subst hsame
  simp only [Bool.and_eq_true, decide_eq_true_eq] at hnear
  exact ⟨hnear.1.symm, rfl⟩

lemma EdgeRun.Inv.typeScanned (h : r.Inv capacity) (he : e ∈ r.edges) {labelId : EdgeLabelId}
    {entry : EdgeTypeIndexEntry} (hentry : entry ∈ (exec (scanEdgesByType labelId) r.store).1)
    (hid : entry.edgeId = e.eid) :
    labelId = e.labelId ∧ entry = ⟨e.src, e.dst, e.seq, e.eid⟩ := by
  obtain ⟨e', he', rfl, rfl⟩ := h.mem_scanEdgesByType.mp hentry
  have hsame : e' = e := inj_on_of_nodup_map h.ids he' he hid
  subst hsame
  exact ⟨rfl, rfl⟩

/-- A value of a path has the id of the edge, and is the edge exactly on faithful paths. -/
theorem EdgeRun.Inv.handsOut (h : r.Inv capacity) (hpos : r.PositiveIds) (he : e ∈ r.edges)
    {path : ReadPath} {v : EdgeRef} (hv : r.HandsOut capacity e v path) :
    v.eid = e.eid ∧ (v = e ↔ path.Faithful r e) := by
  have hends : ∀ direction, (if direction ≠ .IN then e.near direction else e.far direction) = e.src ∧
      (if direction ≠ .IN then e.far direction else e.near direction) = e.dst := by
    intro direction
    cases direction <;> simp [near, far]
  have htrunc : ∀ seq : UInt64, seq.toUInt32.toUInt64 = seq ↔ seq.toNat < 2 ^ 32 := fun seq =>
    toUInt64_toUInt32_eq_iff.trans (and_iff_left rfl)
  cases path with
  | createOutput =>
    obtain ⟨hbatch, rfl⟩ := hv
    refine ⟨rfl, fun heq => ?_, False.elim⟩
    have hseq := h.created e he hbatch
    have hzero : e.seq = 0 := (congrArg EdgeRef.seq heq).symm
    have heid := hpos.2 e he
    rw [← hseq, hzero] at heid
    exact absurd heid (by decide)
  | expand direction labelFilter =>
    obtain ⟨hdir, vid, entry, hentry, hid, rfl⟩ := hv
    obtain ⟨rfl, rfl⟩ := h.scanned he hdir hentry hid
    obtain ⟨hsrc, hdst⟩ := hends direction
    refine ⟨rfl, ?_⟩
    rw [ReadPath.Faithful, ← htrunc, expandValue, EdgeKeyValue.entity, hsrc, hdst]
    exact ⟨fun heq => congrArg EdgeRef.seq heq, fun hseq => by rw [hseq]⟩
  | varLenExpand direction labelFilter =>
    obtain ⟨hdir, vid, entry, hentry, hid, rfl⟩ := hv
    obtain ⟨rfl, rfl⟩ := h.scanned he hdir hentry hid
    obtain ⟨hsrc, hdst⟩ := hends direction
    refine ⟨rfl, fun _ => trivial, fun _ => ?_⟩
    rw [loadEdge, EdgeValue.entity, hsrc, hdst]
  | typeScan labelId =>
    obtain ⟨entry, hentry, hid, rfl⟩ := hv
    obtain ⟨rfl, rfl⟩ := h.typeScanned he hentry hid
    refine ⟨rfl, ?_⟩
    rw [ReadPath.Faithful, ← htrunc]
    exact ⟨fun heq => congrArg EdgeRef.seq heq, fun hseq => by
      rw [typeScanValue, EdgeKeyValue.entity, hseq]⟩
  | typeScanReversed labelId =>
    obtain ⟨entry, hentry, hid, hne, rfl⟩ := hv
    obtain ⟨rfl, rfl⟩ := h.typeScanned he hentry hid
    exact ⟨rfl, fun heq => hne (congrArg dst heq), False.elim⟩
  | indexScan labelId propIds key =>
    obtain ⟨payload, hget, -, rfl⟩ := hv
    refine ⟨rfl, ?_⟩
    rw [ReadPath.Faithful, hget]
    constructor
    · intro heq
      simp only [indexScanValue, EdgeKeyValue.entity] at heq
      have hseq := congrArg EdgeRef.seq heq
      obtain ⟨hlt, hlow⟩ := toUInt64_toUInt32_eq_iff.mp hseq
      refine ⟨hlt, payload, _, rfl, Prod.ext (congrArg src heq)
        (Prod.ext (congrArg dst heq) (Prod.ext rfl (congrArg EdgeRef.labelId heq))), hlow⟩
    · rintro ⟨hlt, payload', seq, hpayload, hdecode, hlow⟩
      rw [some.injEq] at hpayload
      subst hpayload
      rw [indexScanValue, hdecode]
      simp only [EdgeKeyValue.entity]
      rw [toUInt64_toUInt32_eq_iff.mpr ⟨hlt, hlow⟩]

end Paths

/-- In every run whose writers pick distinct `seq`s for parallel edges: a path hands out
the stored edge, and `DELETE` of what it hands out removes that edge and no other, exactly
on the faithful paths. -/
theorem edgeValue_deletesExactly_iff (capacity : UInt32) (defs : EdgeLabelDefs) (r : EdgeRun)
    (hrun : Reaches (step capacity defs) (distinctSeqs capacity) start r)
    (e : EdgeRef) (he : e ∈ r.edges) (path : ReadPath) (v : EdgeRef)
    (hv : r.HandsOut capacity e v path) :
    (v = e ↔ path.Faithful r e) ∧
    (DeletesExactly capacity defs r e v ↔ path.Faithful r e) := by
  obtain ⟨hinv, hprops, hpos⟩ : r.Inv capacity ∧ PropsOk r.nextId r.store ∧ r.PositiveIds := by
    refine hrun.invariant (fun r => r.Inv capacity ∧ PropsOk r.nextId r.store ∧ r.PositiveIds)
      ⟨inv_start capacity, propsOk_empty _, Nat.one_pos, by simp [start]⟩ ?_
    rintro r₁ a r₂ ⟨h, hprops, hpos⟩ hseqs hstep
    exact ⟨inv_step h hseqs hstep, propsOk_step h.issued hprops hstep, positiveIds_step hpos hstep⟩
  obtain ⟨heid, hfaithful⟩ := hinv.handsOut hpos he hv
  refine ⟨hfaithful, fun hdel => hfaithful.mp ?_, fun hok => ?_⟩
  · have hkey := hinv.key_of_deletesExactly he hdel
    simp only [key, EdgeKey.mk.injEq] at hkey
    cases v
    cases e
    simp_all
  · rw [hfaithful.mpr hok]
    exact hinv.deletesExactly defs hprops he

/-- The edge of a batch at position `0`, found by an expand from vertex `1`. -/
theorem edgeValue_deletesExactly_iff_batchEdge :
    ∃ r, runGuarded (step 4 fun _ => none) (distinctSeqs 4) start
        [.batch 1 1 oneRecord] = some r ∧
      DeletesExactly 4 (fun _ => none) r ⟨1, 1, 2, 1, 0⟩ ⟨1, 1, 2, 1, 0⟩ := by
  have hrun : (runGuarded (step 4 fun _ => none) (distinctSeqs 4) start
      [.batch 1 1 oneRecord]).map (fun r => (r.edges, (exec (scanEdges 4 1 .OUT none) r.store).1)) =
      some ([⟨1, 1, 2, 1, 0⟩], [⟨2, 1, 0, 1⟩]) := by decide +kernel
  obtain ⟨r, hr, heq⟩ := map_eq_some_iff.mp hrun
  obtain ⟨hedges, hscan⟩ := Prod.mk.inj heq
  have hv : r.HandsOut 4 ⟨1, 1, 2, 1, 0⟩ ⟨1, 1, 2, 1, 0⟩ (.expand .OUT none) :=
    ⟨by simp, 1, ⟨2, 1, 0, 1⟩, by rw [hscan]; exact mem_singleton.mpr rfl, rfl, rfl⟩
  exact ⟨r, hr, (edgeValue_deletesExactly_iff 4 _ r (reaches_of_runGuarded _ hr) _
    (by simp [hedges]) _ _ hv).2.mpr (show (0 : UInt64).toNat < 2 ^ 32 by decide)⟩

/-- `CREATE (1)-[r]->(2) DELETE r`: the value has `seq = 0`, the row of the edge stays. -/
theorem createdEdge_survives_delete :
    ∃ r, Reaches (step 0 fun _ => none) (distinctSeqs 0) start r ∧ (⟨1, 1, 2, 1, 1⟩ : EdgeRef) ∈ r.edges ∧
      r.HandsOut 0 ⟨1, 1, 2, 1, 1⟩ ⟨1, 1, 2, 1, 0⟩ .createOutput ∧
      ¬ DeletesExactly 0 (fun _ => none) r ⟨1, 1, 2, 1, 1⟩ ⟨1, 1, 2, 1, 0⟩ := by
  have hrun : (runGuarded (step 0 fun _ => none) (distinctSeqs 0) start
      [.create 1 1 2 1 []]).map (fun r => (r.edges, r.batchIds,
        (exec (deleteEdgeEntity 0 (fun _ => none) ⟨1, 1, 2, 1, 0⟩) r.store).2.get (.etypeTable 1)
          (encodeEdgeTypeIndexKey ⟨1, 2, 1⟩))) =
      some ([⟨1, 1, 2, 1, 1⟩], [], some (ValueCodec.encodeU64 1)) := by decide +kernel
  obtain ⟨r, hr, heq⟩ := map_eq_some_iff.mp hrun
  simp only [Prod.mk.injEq] at heq
  obtain ⟨hedges, hbatch, hrow⟩ := heq
  refine ⟨r, reaches_of_runGuarded _ hr, by simp [hedges], ⟨by simp [hbatch], rfl⟩, fun hdel => ?_⟩
  have hgone := hdel.type_row
  change (exec (deleteEdgeEntity 0 (fun _ => none) ⟨1, 1, 2, 1, 0⟩) r.store).2.get (.etypeTable 1)
    (encodeEdgeTypeIndexKey ⟨1, 2, 1⟩) = none at hgone
  rw [hrow] at hgone
  exact absurd hgone (by simp)

end Eugraph.Query
