import Eugraph.Lib.Calls
import Eugraph.Query.IndexDdl

/-!
# What a backfill leaves in its table

A backfill reads other tables than the one it fills, so what it finds for an entity does
not depend on the batch in which the entity comes.  A backfill without a conflict adds one
key per entity with a value for every accessor and takes no key away.
-/

namespace Eugraph

open Lib Lib.Program Wt KeyCodec IndexKeyCodec DataStore List Lib.Program.OkCalls MetaStore Query.Backfill Except

/-! ### Programs that only read other tables -/

/-- The call only reads, and not from `table`. -/
def StoreCall.readsOff (table : TableName) : StoreCall → Prop
  | .get _ table' _ => table' ≠ table
  | .scan _ table' _ => table' ≠ table
  | _ => False

/-- The stores differ in `table` at most. -/
def Store.AgreeOff (table : TableName) (s s' : Store) : Prop :=
  ∀ table', table' ≠ table → s' table' = s table'

lemma Store.AgreeOff.refl (table : TableName) (s : Store) : s.AgreeOff table s := fun _ _ => rfl

lemma Store.AgreeOff.trans {table : TableName} {s s' s'' : Store} (h : s.AgreeOff table s')
    (h' : s'.AgreeOff table s'') : s.AgreeOff table s'' :=
  fun table' hne => (h' table' hne).trans (h table' hne)

lemma Store.agreeOff_put (s : Store) (table : TableName) (key value : Bytes) :
    s.AgreeOff table (s.put table key value) :=
  fun _ hne => Function.update_of_ne hne _ _

section ReadsOff

variable {α : Type} {table : TableName} {Q : α → Prop} {p : StoreM α}

lemma exec_snd_of_readsOff (h : Calls (StoreCall.readsOff table) Q p) (s : Store) : (exec p s).2 = s := by
  have hmakes := h.makes
  unfold exec
  induction p generalizing s with
  | done a => rfl
  | call c next ih =>
    cases c with
    | get => exact ih _ ⟨hmakes.2 _, h.returns _ trivial⟩ s (hmakes.2 _)
    | scan => exact ih _ ⟨hmakes.2 _, h.returns _ trivial⟩ s (hmakes.2 _)
    | put => exact absurd hmakes.1 not_false
    | del => exact absurd hmakes.1 not_false
    | dropTable => exact absurd hmakes.1 not_false

/-- Such a program answers alike on stores that differ in `table` only. -/
theorem exec_fst_of_readsOff (h : Calls (StoreCall.readsOff table) Q p) {s s' : Store}
    (hagree : s.AgreeOff table s') : (exec p s').1 = (exec p s).1 := by
  have hmakes := h.makes
  unfold exec
  induction p with
  | done a => rfl
  | call c next ih =>
    cases c with
    | get via table' key =>
      show (run Store.answer (next ((s' table').get key)) s').1 = _
      rw [hagree table' hmakes.1]
      exact ih _ ⟨hmakes.2 _, h.returns _ trivial⟩ (hmakes.2 _)
    | scan via table' pre =>
      show (run Store.answer (next (prefixRecords (s' table') pre)) s').1 = _
      rw [hagree table' hmakes.1]
      exact ih _ ⟨hmakes.2 _, h.returns _ trivial⟩ (hmakes.2 _)
    | put => exact absurd hmakes.1 not_false
    | del => exact absurd hmakes.1 not_false
    | dropTable => exact absurd hmakes.1 not_false

lemma readsOff_scan {via : Via} {table' : TableName} (h : table' ≠ table) (pre : Bytes) :
    Calls (StoreCall.readsOff table) (fun _ => True) (tableScan via table' pre) :=
  Calls.ask (show StoreCall.readsOff table (.scan via table' pre) from h)

end ReadsOff

namespace Query

/-! ### Runs of programs that may throw -/

section RunOperator

variable {α β : Type} (s : Store)

lemma runOperator_bind (p : OperatorM α) (f : α → OperatorM β) : runOperator (p >>= f) s =
      match runOperator p s with
      | (.ok a, s') => runOperator (f a) s'
      | (.error message, s') => (.error message, s') := by
  show exec (p.run >>= _) s = _
  rw [exec_bind]
  unfold runOperator
  rcases exec p.run s with ⟨_ | a, s'⟩
  · rfl
  · rfl

@[simp] lemma runOperator_call (p : StoreM α) : runOperator (call p) s = (.ok (exec p s).1, (exec p s).2) := by
  show exec (p >>= _) s = _
  rw [exec_bind]
  rfl

/-- An operator that only reads, followed by another one. -/
theorem runOperator_bind_read {table : TableName} {Q : α → Prop} {p : OperatorM α}
    (hp : OkCalls (StoreCall.readsOff table) Q p) (f : α → OperatorM β) :
    runOperator (p >>= f) s =
      match (runOperator p s).1 with
      | .ok a => runOperator (f a) s
      | .error message => (.error message, s) := by
  have hsame : (runOperator p s).2 = s := exec_snd_of_readsOff hp s
  rw [runOperator_bind]
  rcases hrun : runOperator p s with ⟨result, s'⟩
  rw [hrun] at hsame
  obtain rfl : s' = s := hsame
  cases result with
  | error message => rfl
  | ok a => rfl

end RunOperator

/-! ### One entity -/

namespace Backfill

variable {ε : Type} {b : Backfill ε} {s s' s'' : Store}

/-- What the backfill finds for an entity in a store. -/
def found (b : Backfill ε) (s : Store) (e : ε) : Except String Found := (runOperator (b.find e) s).1

/-- Looking for the values of an entity reads tables other than the index table. -/
def ReadsOff (b : Backfill ε) : Prop :=
  ∀ e, OkCalls (StoreCall.readsOff b.table) (fun _ => True) (b.find e)

lemma ReadsOff.found_congr (h : b.ReadsOff) (hagree : s.AgreeOff b.table s') (e : ε) : b.found s' e = b.found s e :=
  exec_fst_of_readsOff (h e) hagree

/-- The key under which an entity is filed. -/
def key (b : Backfill ε) (values : List PropertyValue) (e : ε) : Bytes :=
  encodeIndexKey values (b.entityId e)

/-- The values are free, or the index does not ask. -/
def Free (b : Backfill ε) (s : Store) (values : List PropertyValue) : Prop :=
  b.unique = true → prefixRecords (s b.table) (encodeEqualityPrefix values) = []

instance (b : Backfill ε) (s : Store) (values : List PropertyValue) : Decidable (b.Free s values) := by
  unfold Free
  infer_instance

lemma exec_insert (b : Backfill ε) (s : Store) (e : ε) (values : List PropertyValue) : exec (b.insert e values) s =
      if b.Free s values then (true, s.put b.table (b.key values e) (b.payload e)) else (false, s) := by
  unfold insert entryAllowed
  by_cases hunique : b.unique = true
  · by_cases hfree : prefixRecords (s b.table) (encodeEqualityPrefix values) = []
    · have hallowed : b.Free s values := fun _ => hfree
      simp [checkUniqueConstraint, insertIndexEntry, key, hunique, hfree, hallowed]
    · have hallowed : ¬ b.Free s values := fun h => hfree (h hunique)
      simp [checkUniqueConstraint, hunique, hfree, hallowed]
  · have hallowed : b.Free s values := fun h => absurd h hunique
    simp [insertIndexEntry, key, hunique, hallowed]

/-- One entity of a batch. -/
theorem runOperator_entity (h : b.ReadsOff) (s : Store) (e : ε) : runOperator (b.entity e) s =
      match b.found s e with
      | .error message => (.error message, s)
      | .ok .skipped => (.ok true, s)
      | .ok .conflicting => (.ok false, s)
      | .ok (.values values) =>
        if b.Free s values then (.ok true, s.put b.table (b.key values e) (b.payload e))
        else (.ok false, s) := by
  unfold entity
  rw [runOperator_bind_read s (h e)]
  unfold found
  rcases (runOperator (b.find e) s).1 with _ | found
  · rfl
  · cases found with
    | skipped => rfl
    | conflicting => rfl
    | values vs =>
      simp only [runOperator_call, exec_insert]
      split
      · rfl
      · rfl

/-! ### Batches -/

/-- From `s` to `s'` the entities were filed: each was skipped or has its key now, and
nothing else changed. -/
structure Filed (b : Backfill ε) (s : Store) (es : List ε) (s' : Store) : Prop where
  off : s.AgreeOff b.table s'
  found : ∀ e ∈ es, b.found s e = .ok .skipped ∨ ∃ values, b.found s e = .ok (.values values)
  keys : ∀ key, ((s' b.table).get key).isSome ↔ ((s b.table).get key).isSome ∨
    ∃ e ∈ es, ∃ values, b.found s e = .ok (.values values) ∧ key = b.key values e

lemma Filed.refl (b : Backfill ε) (s : Store) : b.Filed s [] s where
  off := .refl b.table s
  found _ he := nomatch he
  keys key := by simp

lemma Filed.trans (hreads : b.ReadsOff) {es es' : List ε} (h : b.Filed s es s')
    (h' : b.Filed s' es' s'') : b.Filed s (es ++ es') s'' where
  off := h.off.trans h'.off
  found e he := by
    rcases mem_append.mp he with he | he
    · exact h.found e he
    · rw [← hreads.found_congr h.off e]
      exact h'.found e he
  keys key := by
    rw [h'.keys, h.keys, or_assoc]
    apply or_congr_right
    simp only [hreads.found_congr h.off, mem_append, or_and_right, exists_or]

lemma Filed.entity (hreads : b.ReadsOff) {e : ε} (h : runOperator (b.entity e) s = (.ok true, s')) :
    b.Filed s [e] s' := by
  rw [runOperator_entity hreads] at h
  split at h
  · exact nomatch h
  · rename_i hfound
    obtain rfl := (Prod.mk.inj h).2
    refine ⟨.refl b.table s, fun e' he' => .inl (mem_singleton.mp he' ▸ hfound), fun key => ?_⟩
    simp [hfound]
  · exact nomatch h
  · rename_i values hfound
    split at h
    · obtain rfl := (Prod.mk.inj h).2
      refine ⟨s.agreeOff_put _ _ _, fun e' he' => .inr ⟨values, mem_singleton.mp he' ▸ hfound⟩, fun key => ?_⟩
      have hget := s.put_get b.table b.table (b.key values e) key (b.payload e)
      show (((s.put b.table (b.key values e) (b.payload e)).get b.table key).isSome) ↔ _
      rw [hget]
      by_cases hkey : key = b.key values e
      · simp [hkey, hfound]
      · simp [hkey, hfound, Store.get]
    · exact nomatch h

lemma Filed.entities (hreads : b.ReadsOff) {es : List ε}
    (h : runOperator (b.entities es) s = (.ok true, s')) : b.Filed s es s' := by
  induction es generalizing s with
  | nil =>
    obtain rfl := (Prod.mk.inj h).2
    exact .refl b s
  | cons e rest ih =>
    unfold entities at h
    rw [runOperator_bind] at h
    rcases hentity : runOperator (b.entity e) s with ⟨_ | _ | _, s₁⟩
    · rw [hentity] at h
      exact nomatch h
    · rw [hentity] at h
      exact nomatch h
    · rw [hentity] at h
      exact (Filed.entity hreads hentity).trans hreads (ih h)

lemma Filed.flushBatch (hreads : b.ReadsOff) {pending : List ε}
    (h : b.flushBatch pending s = (.ok true, s')) : b.Filed s pending s' := by
  unfold Backfill.flushBatch at h
  split at h
  · rename_i s₁ hrun
    obtain rfl := (Prod.mk.inj h).2
    exact .entities hreads hrun
  · exact nomatch h
  · exact nomatch h

lemma scanLoop_cons (b : Backfill ε) (batchRows : Nat) (pending : List ε) (e : ε) (rest : List ε) (s : Store) :
    b.scanLoop batchRows pending (e :: rest) s =
      if (pending ++ [e]).length < batchRows then b.scanLoop batchRows (pending ++ [e]) rest s
      else
        match b.flushBatch (pending ++ [e]) s with
        | (.ok true, s') => b.scanLoop batchRows [] rest s'
        | out => out := by
  cases pending with
  | nil => rfl
  | cons _ _ => rfl

/-- With or without a conflict, no other table changes. -/
theorem agreeOff_flushBatch (hreads : b.ReadsOff) (pending : List ε) (s : Store) :
    s.AgreeOff b.table (b.flushBatch pending s).2 := by
  unfold flushBatch
  split
  · rename_i s' hrun
    exact (Filed.entities hreads hrun).off
  · exact .refl b.table s
  · exact .refl b.table s

lemma agreeOff_scanLoop (hreads : b.ReadsOff) (batchRows : Nat) (pending rest : List ε)
    (s : Store) : s.AgreeOff b.table (b.scanLoop batchRows pending rest s).2 := by
  induction rest generalizing pending s with
  | nil =>
    cases pending with
    | nil => exact .refl b.table s
    | cons e pending => exact agreeOff_flushBatch hreads (e :: pending) s
  | cons e rest ih =>
    have hflush := agreeOff_flushBatch hreads (pending ++ [e]) s
    rw [scanLoop_cons]
    split
    · exact ih _ s
    · split
      · rename_i s' heq
        rw [heq] at hflush
        exact hflush.trans (ih [] s')
      · exact hflush

/-- A scan without a conflict files every entity, whatever the size of the batches. -/
theorem Filed.scanLoop (hreads : b.ReadsOff) (batchRows : Nat) {pending rest : List ε}
    (h : b.scanLoop batchRows pending rest s = (.ok true, s')) : b.Filed s (pending ++ rest) s' := by
  induction rest generalizing pending s with
  | nil =>
    cases pending with
    | nil =>
      obtain rfl := (Prod.mk.inj h).2
      exact .refl b s
    | cons e pending =>
      rw [append_nil]
      exact .flushBatch hreads h
  | cons e rest ih =>
    have hsplit : pending ++ e :: rest = (pending ++ [e]) ++ rest := by simp
    rw [scanLoop_cons] at h
    rw [hsplit]
    split at h
    · exact ih h
    · split at h
      · rename_i s₁ hflush
        exact (Filed.flushBatch hreads hflush).trans hreads (ih h)
      · rename_i hconflict
        exact absurd h (hconflict s')

end Backfill

/-! ### Exact contents -/

/-- The table has exactly one entry for every entity with a tuple of values, under that
tuple, and no other entry. -/
structure ExactContent (t : Table) (values : UInt64 → Option (List PropertyValue)) : Prop where
  only : ∀ key, (t.get key).isSome → ∃ id vs, values id = some vs ∧ key = encodeIndexKey vs id
  every : ∀ id, (values id).isSome → ∃! key, (t.get key).isSome ∧ decodeEntityId key = id

/-- Every entry of the table is the one of an entity with that tuple of values. -/
def NoLeftover (t : Table) (values : UInt64 → Option (List PropertyValue)) : Prop :=
  ∀ key, (t.get key).isSome → ∃ id vs, values id = some vs ∧ key = encodeIndexKey vs id

lemma noLeftover_empty (values : UInt64 → Option (List PropertyValue)) : NoLeftover SortedMap.empty values := by
  intro key hkey
  exact nomatch hkey

/-- A table without leftovers is exact if every entity with a tuple has its entry. -/
theorem ExactContent.of_entries {t : Table} {values : UInt64 → Option (List PropertyValue)}
    (honly : NoLeftover t values)
    (hentry : ∀ id vs, values id = some vs → (t.get (encodeIndexKey vs id)).isSome) :
    ExactContent t values := by
  refine ⟨honly, fun id hid => ?_⟩
  obtain ⟨vs, hvs⟩ := Option.isSome_iff_exists.mp hid
  refine ⟨encodeIndexKey vs id, ⟨hentry id vs hvs, decodeEntityId_encodeIndexKey vs id⟩, ?_⟩
  rintro key ⟨hkey, hdecode⟩
  obtain ⟨id', vs', hvs', rfl⟩ := honly key hkey
  -- The entity decides the tuple, so a second entry of it has the same key.
  rw [decodeEntityId_encodeIndexKey] at hdecode
  rw [hdecode, hvs, Option.some.injEq] at hvs'
  rw [hdecode, hvs']

/-- After a backfill the table is exact if and only if it had no leftover before. -/
theorem Backfill.Filed.exactContent_iff {ε : Type} {b : Backfill ε} {s s' : Store} {es : List ε}
    (h : b.Filed s es s') {values : UInt64 → Option (List PropertyValue)}
    (hvalues : ∀ id vs, values id = some vs ↔ ∃ e ∈ es, b.entityId e = id ∧ b.found s e = .ok (.values vs)) :
    ExactContent (s' b.table) values ↔ NoLeftover (s b.table) values := by
  constructor
  · intro hexact key hkey
    exact hexact.only key ((h.keys key).mpr (.inl hkey))
  · intro hleft
    apply ExactContent.of_entries
    · intro key hkey
      rcases (h.keys key).mp hkey with hold | ⟨e, he, vs, hfound, hkey⟩
      · exact hleft key hold
      · exact ⟨b.entityId e, vs, (hvalues _ vs).mpr ⟨e, he, rfl, hfound⟩, hkey⟩
    · intro id vs hvs
      obtain ⟨e, he, rfl, hfound⟩ := (hvalues id vs).mp hvs
      exact (h.keys _).mpr (.inr ⟨e, he, vs, hfound, rfl⟩)

/-! ### Edges -/

/-- The values of the indexed properties, for the edges that a scan of the type delivers. -/
def edgeValues (s : Store) (labelId : EdgeLabelId) (propIds : List PropId) (eid : UInt64) :
    Option (List PropertyValue) :=
  if (exec (scanEdgesByType labelId) s).1.any fun entry => entry.edgeId = eid then
    match (exec (getEdgeProperties labelId eid) s).1 with
    | .ok (some props) => collectValues (propValue props) propIds
    | _ => none
  else none

section Edges

variable {labelId : EdgeLabelId} {propIds : List PropId} {s s' : Store}

lemma readsOff_scanEdgesByType :
    Calls (StoreCall.readsOff (.eidxTable labelId propIds)) (fun _ => True)
      (scanEdgesByType labelId) := by
  apply (readsOff_scan (by simp) _).bind
  intro rows _
  exact .pure trivial

lemma readsOff_getEdgeProperties (eid : EdgeId) :
    Calls (StoreCall.readsOff (.eidxTable labelId propIds)) (fun _ => True)
      (getEdgeProperties labelId eid) := by
  apply (readsOff_scan (by simp) _).bind
  intro rows _
  exact .pure trivial

lemma readsOff_edgeBackfill (unique : Bool) : (edgeBackfill labelId propIds unique).ReadsOff := by
  intro entry
  apply bind (Q := fun _ => True)
  · exact (readsOff_getEdgeProperties entry.edgeId).mono fun _ _ _ _ => trivial
  · rintro (_ | props) _
    · exact .pure trivial
    · dsimp only
      split
      · exact .pure trivial
      · exact .pure trivial

lemma edgeValues_congr (hagree : s.AgreeOff (.eidxTable labelId propIds) s') :
    edgeValues s' labelId propIds = edgeValues s labelId propIds := by
  funext eid
  unfold edgeValues
  rw [exec_fst_of_readsOff readsOff_scanEdgesByType hagree,
    exec_fst_of_readsOff (readsOff_getEdgeProperties eid) hagree]

/-- What the backfill finds for an edge. -/
theorem found_edgeBackfill (unique : Bool) (s : Store) (entry : EdgeTypeIndexEntry) :
    (edgeBackfill labelId propIds unique).found s entry =
      (exec (getEdgeProperties labelId entry.edgeId) s).1.map fun props =>
        match props.bind fun props => collectValues (propValue props) propIds with
        | none => .skipped
        | some values => .values values := by
  have hread : runOperator (ExceptT.mk (getEdgeProperties labelId entry.edgeId)) s =
      exec (getEdgeProperties labelId entry.edgeId) s := rfl
  unfold found
  show (runOperator (findEdgeValues labelId propIds entry) s).1 = _
  rw [findEdgeValues, runOperator_bind, hread]
  rcases exec (getEdgeProperties labelId entry.edgeId) s with ⟨_ | _ | props, s'⟩
  · rfl
  · rfl
  · dsimp only [Except.map, Option.bind_some]
    cases collectValues (propValue props) propIds with
    | none => rfl
    | some values => rfl

lemma edgeValues_eq_some_iff (unique : Bool) (eid : UInt64) (vs : List PropertyValue) :
    edgeValues s labelId propIds eid = some vs ↔ ∃ entry ∈ (exec (scanEdgesByType labelId) s).1, entry.edgeId = eid ∧
        (edgeBackfill labelId propIds unique).found s entry = .ok (.values vs) := by
  have hfound : ∀ entry : EdgeTypeIndexEntry, entry.edgeId = eid →
      ((edgeBackfill labelId propIds unique).found s entry = .ok (.values vs) ↔
        (match (exec (getEdgeProperties labelId eid) s).1 with
          | .ok (some props) => collectValues (propValue props) propIds
          | _ => none) = some vs) := by
    rintro entry rfl
    rw [found_edgeBackfill]
    rcases (exec (getEdgeProperties labelId entry.edgeId) s).1 with _ | _ | props
    · simp [Except.map]
    · simp [Except.map]
    · simp only [Except.map, Option.bind_some]
      cases collectValues (propValue props) propIds with
      | none => simp
      | some values => simp
  unfold edgeValues
  constructor
  · intro h
    split at h
    · rename_i hany
      obtain ⟨entry, hentry, heid⟩ := any_eq_true.mp hany
      have heid : entry.edgeId = eid := by simpa using heid
      exact ⟨entry, hentry, heid, (hfound entry heid).mpr h⟩
    · exact nomatch h
  · rintro ⟨entry, hentry, heid, h⟩
    rw [if_pos (any_eq_true.mpr ⟨entry, hentry, by simpa using heid⟩)]
    exact (hfound entry heid).mp h

end Edges

/-! ### Vertices -/

/-- A slot of the stored properties of a vertex. -/
def slotValue (s : Store) (vid : VertexId) (labelId : LabelId) (pid : PropId) :
    Option PropertyValue :=
  match (runOperator (readSlot vid labelId pid) s).1 with
  | .ok v => v
  | .error _ => none

/-- The values a vertex has for a weak accessor, in the order of its labels. -/
def weakValues (schema : GraphSchema) (s : Store) (vid : VertexId) (propName : String)
    (labels : List LabelId) : List PropertyValue :=
  labels.filterMap fun labelId => (weakPropId schema propName labelId).bind (slotValue s vid labelId)

/-- What an accessor of an index reads of a vertex: a strong one the property of its source
label, a weak one the property of that name under the first label that has a value for it. -/
def accessorRead (schema : GraphSchema) (s : Store) (vid : VertexId)
    (acc : IndexAccessorDef) : Option PropertyValue :=
  if acc.isStrong then
    (schema.getLabelById acc.sourceLabelId).bind fun src =>
      (MetaStore.findPropId src.properties acc.propertyName).bind
        (slotValue s vid acc.sourceLabelId)
  else (weakValues schema s vid acc.propertyName (exec (getVertexLabels vid) s).1).head?

/-- The values of the accessors, for the vertices that a scan of the label delivers. -/
def vertexValues (schema : GraphSchema) (s : Store) (labelId : LabelId)
    (accessors : List IndexAccessorDef) (vid : UInt64) : Option (List PropertyValue) :=
  if vid ∈ (exec (scanVerticesByLabel labelId) s).1 then
    accessors.mapM (accessorRead schema s vid)
  else none

section Vertices

variable {schema : GraphSchema} {indexId : UInt32} {s s' : Store} {vid : VertexId}
  {labels : List LabelId}

lemma readsOff_scanVerticesByLabel (labelId : LabelId) :
    Calls (StoreCall.readsOff (.vidxTableById indexId)) (fun _ => True)
      (scanVerticesByLabel labelId) := by
  apply (readsOff_scan (by simp) _).bind
  intro rows _
  exact .pure trivial

lemma readsOff_getVertexLabels :
    Calls (StoreCall.readsOff (.vidxTableById indexId)) (fun _ => True) (getVertexLabels vid) := by
  apply (readsOff_scan (by simp) _).bind
  intro rows _
  exact .pure trivial

lemma readsOff_readSlot (labelId : LabelId) (pid : PropId) :
    OkCalls (StoreCall.readsOff (.vidxTableById indexId)) (fun _ => True)
      (readSlot vid labelId pid) := by
  have hprops : OkCalls (StoreCall.readsOff (.vidxTableById indexId)) (fun _ => True)
      (getVertexProperties vid labelId) := by
    apply bind (lift (readsOff_scan (by simp) _))
    intro rows _
    apply bind (Q := fun _ => True)
    · exact .mk (.pure fun _ _ => trivial)
    · intro props _
      exact .pure trivial
  apply bind hprops
  intro props _
  exact .pure trivial

lemma accessWeak_cons (propName : String) (found : Option PropertyValue) (labelId : LabelId) (rest : List LabelId) :
    accessWeak schema vid propName found (labelId :: rest) =
      match weakPropId schema propName labelId with
      | none => accessWeak schema vid propName found rest
      | some pid =>
        readSlot vid labelId pid >>= fun
          | none => accessWeak schema vid propName found rest
          | some candidate =>
            match found with
            | none => accessWeak schema vid propName (some candidate) rest
            | some v =>
              if PropertyValue.equal v candidate then
                accessWeak schema vid propName (some v) rest
              else pure .conflicting := by
  cases found with
  | none => rfl
  | some v => rfl

lemma readsOff_accessWeak (propName : String) (found : Option PropertyValue) :
    OkCalls (StoreCall.readsOff (.vidxTableById indexId)) (fun _ => True)
      (accessWeak schema vid propName found labels) := by
  induction labels generalizing found with
  | nil =>
    cases found with
    | none => exact .pure trivial
    | some v => exact .pure trivial
  | cons labelId rest ih =>
    rw [accessWeak_cons]
    split
    · exact ih found
    · apply bind (readsOff_readSlot labelId _)
      rintro (_ | candidate) _
      · exact ih found
      · cases found with
        | none => exact ih _
        | some v =>
          apply OkCalls.ite
          · exact ih _
          · exact .pure trivial

lemma readsOff_access (ra : ResolvedAccessor) :
    OkCalls (StoreCall.readsOff (.vidxTableById indexId)) (fun _ => True)
      (access schema vid labels ra) := by
  apply OkCalls.ite
  · apply bind (readsOff_readSlot _ _)
    rintro (_ | v) _
    · exact .pure trivial
    · exact .pure trivial
  · exact readsOff_accessWeak _ _

lemma readsOff_findVertexValues (values : List PropertyValue) (resolved : List ResolvedAccessor) :
    OkCalls (StoreCall.readsOff (.vidxTableById indexId)) (fun _ => True)
      (findVertexValues schema vid labels values resolved) := by
  induction resolved generalizing values with
  | nil => exact .pure trivial
  | cons ra rest ih =>
    apply bind (readsOff_access ra)
    intro accessed _
    cases accessed with
    | missing => exact .pure trivial
    | conflicting => exact .pure trivial
    | value v => exact ih _

lemma readsOff_vertexBackfill (unique : Bool) (resolved : List ResolvedAccessor) :
    (vertexBackfill schema indexId unique resolved).ReadsOff := by
  intro vid
  apply bind (lift readsOff_getVertexLabels)
  intro labels _
  exact readsOff_findVertexValues [] resolved

lemma slotValue_congr (hagree : s.AgreeOff (.vidxTableById indexId) s') : slotValue s' vid = slotValue s vid := by
  funext labelId pid
  unfold slotValue runOperator
  rw [exec_fst_of_readsOff (readsOff_readSlot labelId pid) hagree]

/-- Which values the vertices have does not depend on the index table. -/
theorem vertexValues_congr (hagree : s.AgreeOff (.vidxTableById indexId) s') (labelId : LabelId)
    (accessors : List IndexAccessorDef) :
    vertexValues schema s' labelId accessors = vertexValues schema s labelId accessors := by
  funext vid
  have hread : accessorRead schema s' vid = accessorRead schema s vid := by
    funext acc
    unfold accessorRead weakValues
    rw [exec_fst_of_readsOff readsOff_getVertexLabels hagree, slotValue_congr hagree]
  unfold vertexValues
  rw [exec_fst_of_readsOff (readsOff_scanVerticesByLabel labelId) hagree, hread]

end Vertices

/-! ### What is found for a vertex -/

/-- The value that was read, if there is one. -/
def Accessed.value? : Accessed → Option PropertyValue
  | .missing => none
  | .value v => some v
  | .conflicting => none

section VertexTuples

variable {schema : GraphSchema} {s : Store} {vid : VertexId}

/-- A read slot followed by a branch on its value. -/
theorem runOperator_bind_readSlot {α : Type} (labelId : LabelId) (pid : PropId)
    (f : Option PropertyValue → OperatorM α) {a : α}
    (h : (runOperator (readSlot vid labelId pid >>= f) s).1 = .ok a) :
    (runOperator (f (slotValue s vid labelId pid)) s).1 = .ok a := by
  have hreads : OkCalls (StoreCall.readsOff (.vidxTableById 0)) (fun _ => True)
      (readSlot vid labelId pid) := readsOff_readSlot labelId pid
  rw [runOperator_bind_read s hreads] at h
  unfold slotValue
  cases hread : (runOperator (readSlot vid labelId pid) s).1 with
  | error message =>
    rw [hread] at h
    exact nomatch h
  | ok v =>
    rw [hread] at h
    exact h

variable {labels : List LabelId}

/-- Without a conflict a weak accessor reads the first value. -/
theorem value_of_accessWeak {propName : String}
    {found : Option PropertyValue} {accessed : Accessed}
    (h : (runOperator (accessWeak schema vid propName found labels) s).1 = .ok accessed)
    (hagree : accessed ≠ .conflicting) :
    accessed.value? = found.or (weakValues schema s vid propName labels).head? := by
  induction labels generalizing found with
  | nil =>
    cases found with
    | none => exact ok.inj h ▸ rfl
    | some v => exact ok.inj h ▸ rfl
  | cons labelId rest ih =>
    have hcons : weakValues schema s vid propName (labelId :: rest) =
        ((weakPropId schema propName labelId).bind (slotValue s vid labelId)).toList ++
          weakValues schema s vid propName rest := by
      unfold weakValues
      rw [filterMap_cons]
      cases (weakPropId schema propName labelId).bind (slotValue s vid labelId) with
      | none => rfl
      | some v => rfl
    rw [accessWeak_cons] at h
    rw [hcons]
    split at h
    · rename_i hpid
      rw [hpid]
      exact ih h
    · rename_i pid hpid
      rw [hpid, Option.bind_some]
      have h := runOperator_bind_readSlot labelId pid _ h
      cases hslot : slotValue s vid labelId pid with
      | none =>
        rw [hslot] at h
        exact ih h
      | some candidate =>
        rw [hslot] at h
        cases found with
        | none => exact ih h
        | some v =>
          dsimp only at h
          split at h
          · exact ih h
          · exact absurd (ok.inj h).symm hagree

/-- What a resolved accessor reads. -/
def resolvedRead (schema : GraphSchema) (s : Store) (vid : VertexId)
    (labels : List LabelId) (ra : ResolvedAccessor) : Option PropertyValue :=
  if ra.isStrong then slotValue s vid ra.sourceLabelId ra.sourcePropId
  else (weakValues schema s vid ra.propertyName labels).head?

lemma value_of_access {ra : ResolvedAccessor} {accessed : Accessed}
    (h : (runOperator (access schema vid labels ra) s).1 = .ok accessed)
    (hagree : accessed ≠ .conflicting) :
    accessed.value? = resolvedRead schema s vid labels ra := by
  unfold access at h
  unfold resolvedRead
  split at h
  · rename_i hstrong
    rw [if_pos hstrong]
    have h := runOperator_bind_readSlot ra.sourceLabelId ra.sourcePropId _ h
    cases hslot : slotValue s vid ra.sourceLabelId ra.sourcePropId with
    | none =>
      rw [hslot] at h
      exact ok.inj h ▸ rfl
    | some v =>
      rw [hslot] at h
      exact ok.inj h ▸ rfl
  · rename_i hweak
    rw [if_neg hweak]
    exact value_of_accessWeak h hagree

/-- The tuple that was found, if there is one. -/
def Found.values? : Found → Option (List PropertyValue)
  | .skipped => none
  | .values vs => some vs
  | .conflicting => none

variable {resolved : List ResolvedAccessor}

lemma values_of_findVertexValues
    {values : List PropertyValue} {found : Found}
    (h : (runOperator (findVertexValues schema vid labels values resolved) s).1 = .ok found)
    (hagree : found ≠ .conflicting) :
    found.values? = (resolved.mapM (resolvedRead schema s vid labels)).map (values ++ ·) := by
  induction resolved generalizing values with
  | nil =>
    obtain rfl := ok.inj h
    simp [Found.values?]
  | cons ra rest ih =>
    have hreads : OkCalls (StoreCall.readsOff (.vidxTableById 0)) (fun _ => True)
        (access schema vid labels ra) := readsOff_access ra
    unfold findVertexValues at h
    rw [runOperator_bind_read s hreads] at h
    cases haccess : (runOperator (access schema vid labels ra) s).1 with
    | error message =>
      rw [haccess] at h
      exact nomatch h
    | ok accessed =>
      rw [haccess] at h
      have hvalue := value_of_access haccess
      cases accessed with
      | conflicting => exact absurd (ok.inj h).symm hagree
      | missing =>
        obtain rfl := ok.inj h
        have hnone : resolvedRead schema s vid labels ra = none := (hvalue nofun).symm
        simp [Found.values?, mapM_cons, hnone]
      | value v =>
        have hsome : resolvedRead schema s vid labels ra = some v := (hvalue nofun).symm
        rw [ih h, mapM_cons, hsome]
        cases rest.mapM (resolvedRead schema s vid labels) with
        | none => rfl
        | some vs => simp

lemma found_vertexBackfill (indexId : UInt32) (unique : Bool) (resolved : List ResolvedAccessor)
    (s : Store) (vid : VertexId) :
    (vertexBackfill schema indexId unique resolved).found s vid =
      (runOperator (findVertexValues schema vid (exec (getVertexLabels vid) s).1 [] resolved) s).1 := by
  have hreads : Calls (StoreCall.readsOff (.vidxTableById indexId)) (fun _ => True)
      (getVertexLabels vid) := readsOff_getVertexLabels
  have hsame : (exec (getVertexLabels vid) s).2 = s := exec_snd_of_readsOff hreads s
  unfold found
  show (runOperator (call (getVertexLabels vid) >>= fun labels =>
    findVertexValues schema vid labels [] resolved) s).1 = _
  rw [runOperator_bind, runOperator_call, hsame]

/-- Resolving the accessors of an index keeps what they read. -/
theorem mapM_resolvedRead {indexName : String} {accessors : List IndexAccessorDef}
    (h : accessors.mapM (resolveAccessor schema indexName) = .ok resolved) (s : Store)
    (vid : VertexId) :
    resolved.mapM (resolvedRead schema s vid (exec (getVertexLabels vid) s).1) =
      accessors.mapM (accessorRead schema s vid) := by
  induction accessors generalizing resolved with
  | nil =>
    obtain rfl := ok.inj h
    rfl
  | cons acc rest ih =>
    rw [mapM_cons] at h
    cases hacc : resolveAccessor schema indexName acc with
    | error message =>
      rw [hacc] at h
      exact nomatch h
    | ok ra =>
      rw [hacc] at h
      cases hrest : rest.mapM (resolveAccessor schema indexName) with
      | error message =>
        rw [hrest] at h
        exact nomatch h
      | ok more =>
        rw [hrest] at h
        obtain rfl := ok.inj h
        have hread : resolvedRead schema s vid (exec (getVertexLabels vid) s).1 ra =
            accessorRead schema s vid acc := by
          unfold resolveAccessor at hacc
          unfold resolvedRead accessorRead
          split at hacc
          · rename_i hstrong
            split at hacc
            · exact nomatch hacc
            · rename_i src hsrc
              split at hacc
              · exact nomatch hacc
              · rename_i pid hpid
                obtain rfl := ok.inj hacc
                rw [if_pos rfl, if_pos hstrong, hsrc, Option.bind_some, hpid, Option.bind_some]
          · rename_i hweak
            obtain rfl := ok.inj hacc
            rw [if_neg hweak, if_neg (by simp)]
        rw [mapM_cons, mapM_cons, hread, ih hrest]

lemma vertexValues_eq_some_iff {indexName : String} {accessors : List IndexAccessorDef}
    (hresolved : accessors.mapM (resolveAccessor schema indexName) = .ok resolved)
    {indexId : UInt32} {unique : Bool} {labelId : LabelId}
    (hfound : ∀ vid ∈ (exec (scanVerticesByLabel labelId) s).1,
      (vertexBackfill schema indexId unique resolved).found s vid = .ok .skipped ∨
      ∃ values, (vertexBackfill schema indexId unique resolved).found s vid = .ok (.values values))
    (vid : UInt64) (vs : List PropertyValue) :
    vertexValues schema s labelId accessors vid = some vs ↔ ∃ e ∈ (exec (scanVerticesByLabel labelId) s).1, e = vid ∧
        (vertexBackfill schema indexId unique resolved).found s e = .ok (.values vs) := by
  have htuple : ∀ found, (vertexBackfill schema indexId unique resolved).found s vid = .ok found →
      found ≠ .conflicting → found.values? = accessors.mapM (accessorRead schema s vid) := by
    intro found h hagree
    rw [found_vertexBackfill] at h
    have hvalues := values_of_findVertexValues h hagree
    rw [mapM_resolvedRead hresolved] at hvalues
    simpa using hvalues
  unfold vertexValues
  constructor
  · intro h
    split at h
    · rename_i hmem
      refine ⟨vid, hmem, rfl, ?_⟩
      rcases hfound vid hmem with hskipped | ⟨values, hvalues⟩
      · rw [← htuple _ hskipped nofun] at h
        exact nomatch h
      · rw [← htuple _ hvalues nofun] at h
        rw [hvalues, Option.some.inj h]
    · exact nomatch h
  · rintro ⟨e, hmem, rfl, h⟩
    rw [if_pos hmem, ← htuple _ h nofun]
    rfl

end VertexTuples

end Query

end Eugraph
