import Mathlib.Data.List.Dedup
import Eugraph.Lib.Transition
import Eugraph.Query.IndexPublication

/-!
# A backfill among writers

`CREATE INDEX` registers the index in the state `WRITE_ONLY`, from which on writers keep its
table.  Then a cursor scans the label, and what it delivers is filed in batches.  A batch is
a transaction: it reads its snapshot, and its entries are added to what the store has become
by then.  Between any two of these steps writers may commit.
-/

namespace Eugraph

open Lib Lib.Program Wt KeyCodec IndexKeyCodec DataStore List

namespace Store

lemma agreeOff_putAll (s : Store) (table : TableName) (rows : List Record) :
    s.AgreeOff table (s.putAll table rows) := by
  induction rows generalizing s with
  | nil => exact .refl table s
  | cons row rest ih => exact (s.agreeOff_put table row.1 row.2).trans (ih _)

lemma putAll_get_isSome (s : Store) (table : TableName) (rows : List Record) (key : Bytes) :
    (((s.putAll table rows).get table key).isSome ↔ (s.get table key).isSome ∨ key ∈ rows.map Prod.fst) := by
  induction rows generalizing s with
  | nil => simp [putAll]
  | cons row rest ih =>
    show (((s.put table row.1 row.2).putAll table rest).get table key).isSome ↔ _
    rw [ih, put_get, map_cons, mem_cons]
    by_cases hkey : key = row.1
    · simp [hkey]
    · simp [hkey]

end Store

namespace Query

namespace Backfill

variable {ε : Type} {b : Backfill ε} {s s' : Store}

/-! ### The writes of a batch -/

/-- The rows that a batch adds to the index table, as its transaction finds the entities. -/
def rows (b : Backfill ε) (s : Store) (es : List ε) : List Record :=
  es.filterMap fun e =>
    match b.found s e with
    | .ok (.values values) => some (b.key values e, b.payload e)
    | _ => none

lemma rows_congr (hreads : b.ReadsOff) (hagree : s.AgreeOff b.table s') (es : List ε) :
    b.rows s' es = b.rows s es := by
  unfold rows
  simp only [hreads.found_congr hagree]

lemma mem_rows {es : List ε} {key : Bytes} : key ∈ (b.rows s es).map Prod.fst ↔
      ∃ e ∈ es, ∃ values, b.found s e = .ok (.values values) ∧ key = b.key values e := by
  rw [rows, mem_map]
  constructor
  · rintro ⟨row, hrow, rfl⟩
    obtain ⟨e, he, hsome⟩ := mem_filterMap.mp hrow
    refine ⟨e, he, ?_⟩
    split at hsome <;> cases hsome
    rename_i values hfound
    exact ⟨values, hfound, rfl⟩
  · rintro ⟨e, he, values, hfound, rfl⟩
    refine ⟨(b.key values e, b.payload e), mem_filterMap.mpr ⟨e, he, ?_⟩, rfl⟩
    rw [hfound]

/-- Where a batch stops: at an entity whose accessors disagree, or whose values a key of the
table begins with, be it one of the snapshot or one of this batch. -/
theorem stop_of_conflict (hreads : b.ReadsOff) {es : List ε} (h : runOperator (b.entities es) s = (.ok false, s')) :
    ∃ pre e post, es = pre ++ e :: post ∧ (b.found s e = .ok .conflicting ∨
        ∃ values, b.found s e = .ok (.values values) ∧ ∃ key, encodeEqualityPrefix values <+: key ∧
            ((s.get b.table key).isSome ∨ key ∈ (b.rows s pre).map Prod.fst)) := by
  induction es generalizing s with
  | nil => cases (Prod.mk.inj h).1
  | cons e rest ih =>
    unfold Backfill.entities at h
    rw [runOperator_bind] at h
    rcases hentity : runOperator (b.entity e) s with ⟨_ | _ | _, s₁⟩
    · rw [hentity] at h
      cases h
    · -- the first entity is the one
      refine ⟨[], e, rest, rfl, ?_⟩
      rw [runOperator_entity hreads] at hentity
      split at hentity
      · cases hentity
      · cases hentity
      · rename_i hfound
        exact .inl hfound
      · rename_i values hfound
        split at hentity
        · cases hentity
        · rename_i htaken
          rw [Free, not_forall] at htaken
          obtain ⟨-, hrecords⟩ := htaken
          obtain ⟨⟨key, value⟩, hmem⟩ := exists_mem_of_ne_nil _ hrecords
          obtain ⟨hbegins, hget⟩ := (mem_prefixRecords _ _ _ _).mp hmem
          refine .inr ⟨values, hfound, key, hbegins, .inl ?_⟩
          show ((s b.table).get key).isSome
          rw [hget]
          rfl
    · -- an entity of the rest, which finds the first one filed
      rw [hentity] at h
      obtain ⟨pre, e', post, rfl, hstop⟩ := ih h
      have hfiled := Filed.entity hreads hentity
      refine ⟨e :: pre, e', post, rfl, ?_⟩
      rw [hreads.found_congr hfiled.off, rows_congr hreads hfiled.off] at hstop
      rcases hstop with hconflict | ⟨values, hfound, key, hbegins, hkey⟩
      · exact .inl hconflict
      · refine .inr ⟨values, hfound, key, hbegins, ?_⟩
        rcases hkey with hkey | hkey
        · rcases (hfiled.keys key).mp hkey with hold | ⟨e'', he'', hnew⟩
          · exact .inl hold
          · refine .inr (mem_rows.mpr ⟨e, mem_cons_self, ?_⟩)
            rwa [mem_singleton.mp he''] at hnew
        · obtain ⟨e'', he'', hnew⟩ := mem_rows.mp hkey
          exact .inr (mem_rows.mpr ⟨e'', mem_cons_of_mem e he'', hnew⟩)

end Backfill

/-! ### The system -/

/-- A registered vertex index whose table is to be filled. -/
structure VertexIndexJob where
  schema : MetaStore.GraphSchema
  indexId : UInt32
  unique : Bool
  resolved : List ResolvedAccessor
  labelId : LabelId
  batchRows : Nat

/-- How the loop over the scan ends: every vertex is filed, a batch meets a conflict, there
is no session or transaction or its commit is refused, an exception is thrown. -/
inductive BackfillEnd
  | filled
  | conflict
  | refused
  | threw
  deriving DecidableEq

/-- The state that the index gets at the end; an exception skips the state change. -/
def BackfillEnd.indexState : BackfillEnd → Option IndexState
  | .filled => some .PUBLIC
  | .conflict => some .ERROR
  | .refused => some .ERROR
  | .threw => none

/-- `todo` is what the cursor has still to deliver, `pending` the batch that is collected,
`snapshot` the store that the transaction of the batch reads. -/
inductive BackfillPhase
  | opening
  | scanning (todo pending : List VertexId)
  | flushing (todo pending : List VertexId) (snapshot : Store)
  | ended (e : BackfillEnd)

namespace BackfillPhase

/-- The cursor will also deliver the vertices `seen`, which were inserted ahead of it. -/
def ahead (seen : List VertexId) : BackfillPhase → BackfillPhase
  | .opening => .opening
  | .scanning todo pending => .scanning (todo ++ seen) pending
  | .flushing todo pending snapshot => .flushing (todo ++ seen) pending snapshot
  | .ended e => .ended e

/-- The vertices that are still to be filed. -/
def awaited (live : List VertexId) : BackfillPhase → List VertexId
  | .opening => live
  | .scanning todo pending => todo ++ pending
  | .flushing todo pending _ => todo ++ pending
  | .ended _ => []

/-- Some of the vertices will never be filed. -/
def Failed : BackfillPhase → Prop
  | .ended e => e ≠ .filled
  | _ => False

end BackfillPhase

/-- The statement after it has registered the index.  `written` and `delivered` only record
which vertices writers inserted since then and which the scan delivered. -/
structure BackfillRun where
  store : Store
  phase : BackfillPhase
  state : IndexState
  written : List VertexId
  delivered : List VertexId

def BackfillRun.start (s : Store) : BackfillRun := ⟨s, .opening, .WRITE_ONLY, [], []⟩

inductive BackfillAction
  /-- a writer commits; the cursor comes upon the vertices `seen` of those it inserted -/
  | insert (vids seen : List VertexId) (after : Store)
  | openScan
  | deliver (vid : VertexId)
  | beginBatch
  | commitBatch
  /-- the pool is exhausted, or the transaction does not begin or does not commit -/
  | refuse
  | complete
  | changeState

def BackfillAction.IsInsert : BackfillAction → Prop
  | .insert .. => True
  | _ => False

instance (a : BackfillAction) : Decidable a.IsInsert := by
  unfold BackfillAction.IsInsert
  split
  · infer_instance
  · infer_instance

namespace VertexIndexJob

variable (job : VertexIndexJob)

def backfill : Backfill VertexId :=
  vertexBackfill job.schema job.indexId job.unique job.resolved

/-- The vertices that a scan of the label delivers. -/
def live (s : Store) : List VertexId := (exec (scanVerticesByLabel job.labelId) s).1

/-- The tuple under which a live vertex belongs into the index: there is one if it has a
value for every accessor and no weak accessor finds two. -/
def tuple (s : Store) (vid : VertexId) : Option (List PropertyValue) :=
  if vid ∈ job.live s then
    match job.backfill.found s vid with
    | .ok found => found.values?
    | .error _ => none
  else none

/-- The batch is full, or the scan is over and a rest is left. -/
def FlushDue (todo pending : List VertexId) : Prop :=
  pending ≠ [] ∧ (job.batchRows ≤ pending.length ∨ todo = [])

instance (todo pending : List VertexId) : Decidable (job.FlushDue todo pending) := by
  unfold FlushDue
  infer_instance

def step (r : BackfillRun) : BackfillAction → Option BackfillRun
  | .insert vids seen after =>
    some { r with store := after, phase := r.phase.ahead seen, written := r.written ++ vids }
  | .openScan =>
    match r.phase with
    -- the label has one row for each of its vertices
    | .opening => some { r with phase := .scanning (job.live r.store).dedup [] }
    | _ => none
  | .deliver vid =>
    match r.phase with
    | .scanning todo pending =>
      if vid ∈ todo ∧ (pending = [] ∨ pending.length < job.batchRows) then
        some { r with
          phase := .scanning (todo.erase vid) (pending ++ [vid])
          delivered := r.delivered ++ [vid] }
      else none
    | _ => none
  | .beginBatch =>
    match r.phase with
    | .scanning todo pending =>
      if job.FlushDue todo pending then
        some { r with phase := .flushing todo pending r.store }
      else none
    | _ => none
  | .commitBatch =>
    match r.phase with
    | .flushing todo pending snapshot =>
      match runOperator (job.backfill.entities pending) snapshot with
      | (.ok true, _) =>
        some { r with
          store := r.store.putAll job.backfill.table (job.backfill.rows snapshot pending)
          phase := .scanning todo [] }
      | (.ok false, _) => some { r with phase := .ended .conflict }
      | (.error _, _) => some { r with phase := .ended .threw }
    | _ => none
  | .refuse =>
    match r.phase with
    | .opening => some { r with phase := .ended .refused }
    | .scanning todo pending =>
      if job.FlushDue todo pending then some { r with phase := .ended .refused } else none
    | .flushing .. => some { r with phase := .ended .refused }
    | .ended _ => none
  | .complete =>
    match r.phase with
    | .scanning [] [] => some { r with phase := .ended .filled }
    | _ => none
  | .changeState =>
    match r.phase with
    | .ended e =>
      if r.state = .WRITE_ONLY then e.indexState.map fun state => { r with state := state }
      else none
    | _ => none

/-- A committed transaction inserts vertices of the label and maintains the index. -/
structure Inserts (s : Store) (vids : List VertexId) (s' : Store) : Prop where
  nodup : vids.Nodup
  fresh : ∀ vid ∈ vids, vid ∉ job.live s
  live : ∀ vid, vid ∈ job.live s' ↔ vid ∈ job.live s ∨ vid ∈ vids
  kept : ∀ vid ∈ job.live s, job.backfill.found s' vid = job.backfill.found s vid
  entries : ∀ key, (s'.get (.vidxTableById job.indexId) key).isSome ↔
    (s.get (.vidxTableById job.indexId) key).isSome ∨
      ∃ vid ∈ vids, ∃ vs, job.tuple s' vid = some vs ∧ key = encodeIndexKey vs vid

/-- Writers only insert vertices, and maintain the index. -/
def Allowed (r : BackfillRun) : BackfillAction → Prop
  | .insert vids seen after => job.Inserts r.store vids after ∧ seen.Sublist vids
  | _ => True

end VertexIndexJob

end Query

end Eugraph
