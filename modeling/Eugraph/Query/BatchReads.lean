import Eugraph.Lib.Scatter
import Eugraph.Query.IndexBackfill
import Eugraph.Storage.StoreRuns

/-!
# Batch reads of vertices

The batch readers visit the distinct ids once, or the positions in the order of their
ids when there are many, and hand the answers out to the positions.  The coalescing ones
and `getVertexLabelsBatch` also trust the summary row of a vertex.  What a position is
given is compared with the reads of single vertices, `getVertexLabels`,
`getVertexProperties` and `getVertexProperty`.
-/

namespace Eugraph.BatchReads

open Lib Lib.Program Wt KeyCodec DataStore Query List Option ValueCodec Lib.DistinctKeys Except

/-! ### Reads of a single vertex -/

def getVertexProperty (vid : VertexId) (labelId : LabelId) (pid : PropId) :
    OperatorM (Option PropertyValue) := do
  match ← call (tableGet .session .vertexData (encodeVertexDataPropKey vid labelId pid)) with
  | none => return none
  | some bytes =>
    let v ← rethrow (decode bytes)
    return some v

/-- One read after another. -/
def readEach {κ α : Type} (read : κ → OperatorM α) : List κ → OperatorM (List α)
  | [] => pure []
  | k :: rest => do
      let v ← read k
      let vs ← readEach read rest
      return v :: vs

/-- `*std::max_element(proj.begin(), proj.end()) + 1`. -/
def width (proj : List PropId) : Nat := (proj.map UInt16.toNat).foldl max 0 + 1

/-- The values of the properties in `proj`, each in its slot. -/
def projected (proj : List PropId) (values : List (Option PropertyValue)) : Option Properties :=
  if values.all isNone then none
  else some ((range (width proj)).map fun i =>
    ((proj.zip values).find? fun slot => slot.1.toNat = i).bind Prod.snd)

/-- A projection from single property reads. -/
def projectedRead (labelId : LabelId) (proj : List PropId) (vid : VertexId) :
    OperatorM (Option Properties) := do
  let values ← readEach (getVertexProperty vid labelId) proj
  return projected proj values

/-- The values of the candidates that have one, from single property reads. -/
def candidateValues (candidates : List Candidate) (vid : VertexId) :
    OperatorM (List PropertyValue) := do
  let found ← readEach (fun cand : Candidate => getVertexProperty vid cand.1 cand.2) candidates
  return foundValues found

def labelSet (vid : VertexId) : OperatorM (Finset LabelId) := do
  let labels ← call (getVertexLabels vid)
  return labels.toFinset

def candidateData (candidates : List Candidate) (vid : VertexId) :
    OperatorM CoalescedVertexData := do
  let labels ← labelSet vid
  let values ← candidateValues candidates vid
  return ⟨labels, values⟩

/-! ### The batch readers -/

/-- `unique`, `unique_of` and the copy back; with all ids distinct `unique` is `vids`. -/
def readDistinct {α : Type} (read : VertexId → OperatorM α) (fallback : α)
    (vids : List VertexId) : OperatorM (List α) := do
  let d := ofList vids
  let answers ← readEach read d.keys
  return if d.keys.length = vids.length then answers else d.hand fallback answers

/-- The scan of one vertex: `props` and `found`. -/
def scanProperties (labelId : LabelId) (vid : VertexId) : OperatorM (Option Properties) := do
  let rows ← call (tableScan .session .vertexData (encodeVertexDataLabelPropPrefix vid labelId))
  let state ← rethrow (rows.foldlM (fun (state : Properties × Bool) row =>
    (decode row.2).map fun v =>
      (setProp state.1 (decodeVertexDataPropKey row.1).2 v, true)) ([], false))
  return if state.2 then some state.1 else none

def getVertexPropertiesBatch (labelId : LabelId) (vids : List VertexId) :
    OperatorM (List (Option Properties)) :=
  readDistinct (scanProperties labelId) none vids

/-- The point searches of one vertex. -/
def searchProperties (labelId : LabelId) (vid : VertexId) :
    List PropId → Properties × Bool → OperatorM (Properties × Bool)
  | [], state => pure state
  | pid :: rest, state => do
      match ← call (tableGet .session .vertexData (encodeVertexDataPropKey vid labelId pid)) with
      | none => searchProperties labelId vid rest state
      | some bytes =>
        let v ← rethrow (decode bytes)
        searchProperties labelId vid rest (state.1.set pid.toNat (some v), true)

def searchProjected (labelId : LabelId) (proj : List PropId) (vid : VertexId) :
    OperatorM (Option Properties) := do
  let state ← searchProperties labelId vid proj (replicate (width proj) none, false)
  return if state.2 then some state.1 else none

def getVertexPropertiesBatchProjected (labelId : LabelId) (vids : List VertexId)
    (proj : List PropId) : OperatorM (List (Option Properties)) :=
  if proj = [] then pure (vids.map fun _ => none)
  else readDistinct (searchProjected labelId proj) none vids

/-- The positions in the order they are probed: by id when there are more than 64. -/
def probeOrder (vids : List VertexId) : List Nat :=
  if 64 < vids.length then
    (range vids.length).mergeSort fun a b => vids.getD a 0 ≤ vids.getD b 0
  else range vids.length

/-- Probe the positions in an order; `out[out_index]` is the slot of a position. -/
def probeEach {α : Type} (read : VertexId → OperatorM α) (vids : List VertexId) :
    List Nat → List α → OperatorM (List α)
  | [], out => pure out
  | i :: rest, out => do
      let v ← read (vids.getD i 0)
      probeEach read vids rest (out.set i v)

def getVertexCoalescePropertiesBatch (vids : List VertexId) (candidates : List Candidate) :
    OperatorM (List (List PropertyValue)) :=
  if candidates = [] then pure (vids.map fun _ => [])
  else probeEach (fun vid => ExceptT.mk (coalesceProperties candidates vid)) vids
    (probeOrder vids) (vids.map fun _ => [])

def getVertexCoalesceDataBatch (vids : List VertexId) (candidates : List Candidate) :
    OperatorM (List CoalescedVertexData) :=
  probeEach (fun vid => ExceptT.mk (coalesceData candidates vid)) vids
    (probeOrder vids) (vids.map fun _ => ⟨∅, []⟩)

/-- Every position is given what the reads of its vertex alone return. -/
structure EqualPointwise (s : Store) (vids : List VertexId) (labelId : LabelId)
    (proj : List PropId) (candidates : List Candidate) : Prop where
  labels : ok (exec (getVertexLabelsBatch vids) s).1 =
    (runOperator (readEach labelSet vids) s).1
  properties : (runOperator (getVertexPropertiesBatch labelId vids) s).1 =
    (runOperator (readEach (fun vid => getVertexProperties vid labelId) vids) s).1
  projected : (runOperator (getVertexPropertiesBatchProjected labelId vids proj) s).1 =
    (runOperator (readEach (projectedRead labelId proj) vids) s).1
  coalesced : (runOperator (getVertexCoalescePropertiesBatch vids candidates) s).1 =
    (runOperator (readEach (candidateValues candidates) vids) s).1
  data : (runOperator (getVertexCoalesceDataBatch vids candidates) s).1 =
    (runOperator (readEach (candidateData candidates) vids) s).1

/-! ### When the summaries are up to date -/

/-- What a summary has for a candidate; empty bytes stand for a value that is left out. -/
def entryBytes (summary : DecodedVertexSummary) (cand : Candidate) : Option Bytes :=
  (summaryEntry summary cand).map Prod.snd

def omits (summary : DecodedVertexSummary) (cand : Candidate) : Bool :=
  entryBytes summary cand = some []

def inlinedValue (summary : DecodedVertexSummary) (cand : Candidate) : Option PropertyValue :=
  (entryBytes summary cand).bind fun bytes => (decode bytes).toOption

/-- The bytes inlined for the candidates before the first that is left out are values. -/
def Readable (summary : DecodedVertexSummary) (candidates : List Candidate) : Prop :=
  ∀ cand ∈ candidates.takeWhile fun cand => !omits summary cand,
    (entryBytes summary cand).all fun bytes => (decode bytes).isOk

instance (summary : DecodedVertexSummary) (candidates : List Candidate) :
    Decidable (Readable summary candidates) :=
  decidableBAll _ (candidates.takeWhile fun cand => !omits summary cand)

/-- The labels of the label rows. -/
def rowLabels (s : Store) (vid : VertexId) : Finset LabelId :=
  ((prefixRecords (s .vertexData) (encodeVertexDataLabelPrefix vid)).map fun row =>
    decodeVertexDataLabelKey row.1).toFinset

/-- The summary row of a vertex, when it decodes. -/
def storedSummary (s : Store) (vid : VertexId) : Option DecodedVertexSummary :=
  (s.get .vertexSummary (encodeVertexSummaryKey vid)).bind decodeVertexSummary

/-- The summary agrees with the rows on the labels, and on the values of the candidates
unless one of them is left out.  Where the rows answer, no candidate with a value is
repeated, and no label row has the invalid id. -/
def SummaryCurrent (s : Store) (candidates : List Candidate) (vid : VertexId) : Prop :=
  match storedSummary s vid with
  | none => INVALID_LABEL_ID ∉ rowLabels s vid ∧ OncePresent s vid candidates
  | some summary =>
    summary.labels.toFinset = rowLabels s vid ∧ Readable summary candidates ∧
      if candidates.any (omits summary) then OncePresent s vid candidates
      else candidates.filterMap (inlinedValue summary) =
        candidates.filterMap (canonicalValue s vid)

instance (s : Store) (candidates : List Candidate) (vid : VertexId) :
    Decidable (SummaryCurrent s candidates vid) := by
  unfold SummaryCurrent
  cases storedSummary s vid
  all_goals infer_instance

/-! ### Runs of reads -/

section Runs

variable {κ α : Type} {s : Store}

/-- Reads that change nothing answer as the batch of their answers. -/
theorem runOperator_readEach {read : κ → OperatorM α} {r : κ → Except String α} (ks : List κ)
    (hread : ∀ k, runOperator (read k) s = (r k, s)) :
    runOperator (readEach read ks) s = (ks.mapM r, s) := by
  induction ks with
  | nil => rfl
  | cons k rest ih =>
    rw [readEach, runOperator_bind, hread, mapM_cons]
    cases r k with
    | error e => rfl
    | ok v =>
      show runOperator (readEach read rest >>= _) s = _
      rw [runOperator_bind, ih]
      cases rest.mapM r with
      | error e => rfl
      | ok vs => rfl

variable {read : VertexId → OperatorM α} {r : VertexId → Except String α}
  (hread : ∀ vid, runOperator (read vid) s = (r vid, s))

include hread

lemma runOperator_readDistinct (fallback : α) (vids : List VertexId) :
    runOperator (readDistinct read fallback vids) s = (vids.mapM r, s) := by
  rw [readDistinct, runOperator_bind, runOperator_readEach _ hread, ← map_hand_mapM r fallback vids]
  by_cases hall : (ofList vids).keys.length = vids.length
  · -- no copy back: the distinct ids are the positions
    have hids := map_hand_mapM r fallback vids
    rw [hids, keys_eq hall]
    cases vids.mapM r with
    | error e => rfl
    | ok answers =>
      show runOperator (pure (if _ then _ else _)) s = _
      rw [if_pos rfl]
      rfl
  · cases (ofList vids).keys.mapM r with
    | error e => rfl
    | ok answers =>
      show runOperator (pure (if _ then _ else _)) s = _
      rw [if_neg hall]
      rfl

lemma runOperator_probeEach (vids : List VertexId) (order : List Nat) (out : List α) :
    runOperator (probeEach read vids order out) s = (fillSlots (fun i => r (vids.getD i 0)) order out, s) := by
  induction order generalizing out with
  | nil => rfl
  | cons i rest ih =>
    rw [probeEach, runOperator_bind, hread, fillSlots_cons]
    cases r (vids.getD i 0) with
    | error e => rfl
    | ok v => exact ih _

omit hread in
lemma probeOrder_perm (vids : List VertexId) : (probeOrder vids).Perm (range vids.length) := by
  unfold probeOrder
  split
  · exact mergeSort_perm _ _
  · exact List.Perm.refl _

/-- Sorted or not, the slots get the answers of their own ids. -/
theorem probeEach_eq_ok_iff (fallback : α) (vids : List VertexId) {out : List α} :
    (runOperator (probeEach read vids (probeOrder vids) (vids.map fun _ => fallback)) s).1 =
      .ok out ↔ vids.mapM r = .ok out := by
  rw [runOperator_probeEach hread]
  refine fillSlots_eq_ok_iff_mapM (fun i hi => ?_) (probeOrder_perm vids) (length_map _)
  rw [getD_eq_getElem?_getD, getElem?_eq_getElem hi, getD_some]

end Runs

/-! ### Single reads of a well-formed store -/

section Single

variable {s : Store} (h : VertexRowsOk s)

include h

lemma runOperator_getVertexProperty (vid : VertexId) (labelId : LabelId) (pid : PropId) :
    runOperator (getVertexProperty vid labelId pid) s = (.ok (canonicalValue s vid (labelId, pid)), s) := by
  rw [getVertexProperty, runOperator_bind, runOperator_call, exec_tableGet]
  cases hrow : s.get .vertexData (encodeVertexDataPropKey vid labelId pid) with
  | none =>
    have hvalue : canonicalValue s vid (labelId, pid) = none := by
      rw [canonicalValue, propRow, hrow]
      rfl
    rw [hvalue]
    rfl
  | some bytes =>
    obtain ⟨v, hv⟩ := h.decode_propRow (show propRow s vid (labelId, pid) = some bytes from hrow)
    have hvalue : canonicalValue s vid (labelId, pid) = some v := by
      rw [canonicalValue, propRow, hrow, bind_some, hv]
      rfl
    rw [hvalue]
    show runOperator (rethrow (decode bytes) >>= _) s = _
    rw [hv]
    rfl

lemma runOperator_candidateValues (candidates : List Candidate) (vid : VertexId) :
    runOperator (candidateValues candidates vid) s = (.ok (candidates.filterMap (canonicalValue s vid)), s) := by
  have hall := runOperator_readEach candidates fun cand =>
    runOperator_getVertexProperty h vid cand.1 cand.2
  rw [candidateValues, runOperator_bind, hall, mapM_eq_map_iff.mpr fun cand _ => rfl]
  show ((.ok (foundValues (candidates.map (canonicalValue s vid))) : Except String (List PropertyValue)), s) = _
  rw [foundValues, filterMap_map, Function.id_comp]

omit h in
lemma runOperator_labelSet (vid : VertexId) : runOperator (labelSet vid) s = (.ok (rowLabels s vid), s) := by
  rw [labelSet, runOperator_bind, runOperator_call]
  rfl

lemma runOperator_candidateData (candidates : List Candidate) (vid : VertexId) :
    runOperator (candidateData candidates vid) s =
      (.ok ⟨rowLabels s vid, candidates.filterMap (canonicalValue s vid)⟩, s) := by
  rw [candidateData, runOperator_bind, runOperator_labelSet]
  show runOperator (candidateValues candidates vid >>= _) s = _
  rw [runOperator_bind, runOperator_candidateValues h]
  rfl

end Single

/-! ### All properties of a label -/

/-- `found` is set by the first row. -/
theorem foldlM_scanProperties (rows : List Record) (props : Properties) (found : Bool) :
    rows.foldlM (fun (state : Properties × Bool) row => (decode row.2).map fun v =>
        (setProp state.1 (decodeVertexDataPropKey row.1).2 v, true)) (props, found) =
      (rows.foldlM (fun props row => (decode row.2).map
        (setProp props (decodeVertexDataPropKey row.1).2)) props).map fun props =>
          (props, found || !rows.isEmpty) := by
  induction rows generalizing props found with
  | nil =>
    show ok (props, found) = ok (props, found || false)
    rw [Bool.or_false]
  | cons row rest ih =>
    rw [foldlM_cons, foldlM_cons]
    cases decode row.2 with
    | error e => rfl
    | ok v =>
      refine (ih _ _).trans ?_
      rw [Bool.true_or, isEmpty_cons, Bool.not_false, Bool.or_true]
      rfl

lemma runOperator_scanProperties (s : Store) (labelId : LabelId) (vid : VertexId) :
    runOperator (scanProperties labelId vid) s = ((runOperator (getVertexProperties vid labelId) s).1, s) := by
  rw [scanProperties, getVertexProperties, runOperator_bind, runOperator_bind, runOperator_call, exec_tableScan]
  dsimp only
  rw [foldlM_scanProperties]
  obtain ⟨rows, hrows⟩ : ∃ rows, rows = prefixRecords (s .vertexData)
    (encodeVertexDataLabelPropPrefix vid labelId) := ⟨_, rfl⟩
  rw [← hrows, runOperator_bind, runOperator_bind]
  cases rows.foldlM (fun props row => (decode row.2).map (setProp props (decodeVertexDataPropKey row.1).2)) [] with
  | error e => rfl
  | ok props =>
    cases rows with
    | nil => rfl
    | cons row rest => rfl

lemma runOperator_getVertexProperties (s : Store) (labelId : LabelId) (vid : VertexId) :
    runOperator (getVertexProperties vid labelId) s = ((runOperator (getVertexProperties vid labelId) s).1, s) := by
  rw [getVertexProperties, runOperator_bind, runOperator_call, exec_tableScan]
  dsimp only
  rw [runOperator_bind]
  cases (prefixRecords (s .vertexData) (encodeVertexDataLabelPropPrefix vid labelId)).foldlM
      (fun props row => (decode row.2).map (setProp props (decodeVertexDataPropKey row.1).2)) [] with
  | error e => rfl
  | ok props => rfl

lemma propertiesBatch_eq (s : Store) (labelId : LabelId) (vids : List VertexId) :
    runOperator (getVertexPropertiesBatch labelId vids) s =
      runOperator (readEach (fun vid => getVertexProperties vid labelId) vids) s := by
  rw [getVertexPropertiesBatch, runOperator_readDistinct (runOperator_scanProperties s labelId) none vids,
    runOperator_readEach vids (runOperator_getVertexProperties s labelId)]

/-! ### Projections -/

section Projection

variable (f : PropId → Option PropertyValue)

/-- One point search that finds `f pid`. -/
def projectStep (state : Properties × Bool) (pid : PropId) : Properties × Bool :=
  match f pid with
  | none => state
  | some v => (state.1.set pid.toNat (some v), true)

lemma foldl_projectStep_found (proj : List PropId) (state : Properties × Bool) :
    (proj.foldl (projectStep f) state).2 = (state.2 || proj.any fun pid => (f pid).isSome) := by
  induction proj generalizing state with
  | nil => simp
  | cons pid rest ih =>
    rw [foldl_cons, ih, any_cons, projectStep]
    cases f pid with
    | none => simp
    | some v => simp

/-- A slot holds what the search for its id found. -/
theorem foldl_projectStep_get (proj : List PropId) (state : Properties × Bool) (i : Nat) :
    (proj.foldl (projectStep f) state).1[i]? = state.1[i]?.map fun old =>
      ((proj.find? fun pid => pid.toNat = i).bind f).or old := by
  induction proj generalizing state with
  | nil => simp
  | cons pid rest ih =>
    rw [foldl_cons, ih, find?_cons]
    by_cases hi : pid.toNat = i
    · -- the id of slot `i`; a later search for it finds the same
      have hlater : ∀ pid' ∈ rest.find? fun pid => pid.toNat = i, pid' = pid := by
        intro pid' hpid'
        have hnat : pid'.toNat = i := by simpa using find?_some hpid'
        exact UInt16.toNat_inj.mp (hnat.trans hi.symm)
      have hsame : (rest.find? fun pid => pid.toNat = i).bind f = none ∨
          (rest.find? fun pid => pid.toNat = i).bind f = f pid := by
        cases hfind : rest.find? fun pid => pid.toNat = i with
        | none => exact Or.inl rfl
        | some pid' =>
          rw [hlater pid' hfind]
          exact Or.inr rfl
      simp only [hi, decide_true, bind_some]
      rw [projectStep]
      cases hf : f pid with
      | none =>
        rw [hf] at hsame
        rw [or_self_iff.mp hsame]
      | some v =>
        rw [hf] at hsame
        show Option.map _ (state.1.set pid.toNat (some v))[i]? = _
        rw [hi, getElem?_set]
        by_cases hlt : i < state.1.length
        · rcases hsame with hsame | hsame
          · simp [hsame, hlt]
          · simp [hsame, hlt]
        · simp [hlt]
    · simp only [hi, decide_false]
      rw [projectStep]
      cases f pid with
      | none => rfl
      | some v =>
        show Option.map _ (state.1.set pid.toNat (some v))[i]? = _
        rw [getElem?_set_ne hi]

/-- The searches fill the slots as the projection of the values does. -/
theorem projected_map (proj : List PropId) : projected proj (proj.map f) =
      let state := proj.foldl (projectStep f) (replicate (width proj) none, false)
      if state.2 then some state.1 else none := by
  dsimp only
  rw [foldl_projectStep_found, Bool.false_or, projected]
  have hall : ((proj.map f).all isNone) = !(proj.any fun pid => (f pid).isSome) := by
    rw [List.all_map, not_any_eq_all_not]
    refine all_congr rfl fun pid => ?_
    show (f pid).isNone = _
    rw [not_isSome]
  rw [hall]
  cases proj.any fun pid => (f pid).isSome with
  | false => rfl
  | true =>
    show some _ = some _
    refine congrArg some (ext_getElem? fun i => ?_)
    have hzip : proj.zip (proj.map f) = proj.map fun pid => (pid, f pid) := by
      have hboth := zip_map' (f := fun pid : PropId => pid) (g := f) (l := proj)
      rwa [List.map_id'] at hboth
    rw [foldl_projectStep_get, hzip, List.getElem?_map]
    by_cases hi : i < width proj
    · rw [List.getElem?_range hi, List.getElem?_replicate, if_pos hi, map_some,
        map_some, find?_map, or_none, bind_map]
      rfl
    · rw [List.getElem?_eq_none (by simpa using hi), List.getElem?_replicate, if_neg hi]
      rfl

variable {s : Store} (h : VertexRowsOk s)

include h

lemma runOperator_searchProperties (labelId : LabelId) (vid : VertexId) (proj : List PropId)
    (state : Properties × Bool) :
    runOperator (searchProperties labelId vid proj state) s =
      (.ok (proj.foldl (projectStep fun pid => canonicalValue s vid (labelId, pid)) state), s) := by
  induction proj generalizing state with
  | nil => rfl
  | cons pid rest ih =>
    rw [searchProperties, runOperator_bind, runOperator_call, exec_tableGet, foldl_cons, projectStep]
    cases hrow : s.get .vertexData (encodeVertexDataPropKey vid labelId pid) with
    | none =>
      have hvalue : canonicalValue s vid (labelId, pid) = none := by
        rw [canonicalValue, propRow, hrow]
        rfl
      rw [hvalue]
      exact ih state
    | some bytes =>
      obtain ⟨v, hv⟩ := h.decode_propRow (show propRow s vid (labelId, pid) = some bytes from hrow)
      have hvalue : canonicalValue s vid (labelId, pid) = some v := by
        rw [canonicalValue, propRow, hrow, bind_some, hv]
        rfl
      rw [hvalue]
      show runOperator (rethrow (decode bytes) >>= _) s = _
      rw [hv]
      exact ih _

lemma runOperator_searchProjected (labelId : LabelId) (proj : List PropId) (vid : VertexId) :
    runOperator (searchProjected labelId proj vid) s =
      (.ok (projected proj (proj.map fun pid => canonicalValue s vid (labelId, pid))), s) := by
  rw [searchProjected, runOperator_bind, runOperator_searchProperties h, projected_map]
  rfl

lemma runOperator_projectedRead (labelId : LabelId) (proj : List PropId) (vid : VertexId) :
    runOperator (projectedRead labelId proj vid) s =
      (.ok (projected proj (proj.map fun pid => canonicalValue s vid (labelId, pid))), s) := by
  rw [projectedRead, runOperator_bind,
    runOperator_readEach proj fun pid => runOperator_getVertexProperty h vid labelId pid,
    mapM_eq_map_iff.mpr fun pid _ => rfl]
  rfl

lemma projectedBatch_eq (labelId : LabelId) (vids : List VertexId) (proj : List PropId) :
    runOperator (getVertexPropertiesBatchProjected labelId vids proj) s =
      runOperator (readEach (projectedRead labelId proj) vids) s := by
  rw [runOperator_readEach vids (runOperator_projectedRead h labelId proj), getVertexPropertiesBatchProjected]
  by_cases hproj : proj = []
  · -- nothing is asked for, so no vertex has it
    subst hproj
    rw [if_pos rfl, mapM_eq_map_iff.mpr fun vid _ => rfl]
    rfl
  · rw [if_neg hproj, runOperator_readDistinct (runOperator_searchProjected h labelId proj)]

end Projection

/-! ### Labels -/

lemma exec_vertexLabels_summary (s : Store) (vid : VertexId) :
    exec (vertexLabels vid) s = ((storedSummary s vid).elim (rowLabels s vid)
      fun summary => summary.labels.toFinset, s) := by
  simp only [vertexLabels, exec_bind, exec_vertexSummary]
  rw [show (s.get .vertexSummary (encodeVertexSummaryKey vid)).bind decodeVertexSummary =
    storedSummary s vid from rfl]
  cases storedSummary s vid with
  | none => rfl
  | some summary => rfl

lemma labelsBatch_iff (s : Store) (vids : List VertexId) :
    ok (exec (getVertexLabelsBatch vids) s).1 = (runOperator (readEach labelSet vids) s).1 ↔
      ∀ vid ∈ vids, ∀ summary ∈ storedSummary s vid, summary.labels.toFinset = rowLabels s vid := by
  rw [exec_getVertexLabelsBatch fun vid => by rw [exec_vertexLabels_summary],
    runOperator_readEach vids (runOperator_labelSet),
    mapM_eq_map_iff.mpr fun vid _ => rfl, ok.injEq, map_inj_left]
  refine forall₂_congr fun vid _ => ?_
  rw [exec_vertexLabels_summary]
  cases storedSummary s vid with
  | none => simp
  | some summary => simp

/-! ### Values of the candidates -/

section Values

variable {candidates : List Candidate}

/-- The loop over the candidates on a summary whose inlined bytes are values. -/
theorem summaryValues_of_readable {summary : DecodedVertexSummary}
    (hreadable : Readable summary candidates) :
    summaryValues summary candidates =
      .ok (if candidates.any (omits summary) then none
        else some (candidates.map (inlinedValue summary))) := by
  induction candidates with
  | nil => rfl
  | cons cand rest ih =>
    rw [summaryValues]
    cases hentry : summaryEntry summary cand with
    | none =>
      have hbytes : entryBytes summary cand = none := by
        rw [entryBytes, hentry]
        rfl
      have homits : omits summary cand = false := by simp [omits, hbytes]
      have hrest : Readable summary rest := fun c hc => hreadable c (by simp [homits, hc])
      simp only [ih hrest, any_cons, homits, Bool.false_or, map_cons, inlinedValue, hbytes]
      cases rest.any (omits summary) with
      | true => rfl
      | false => rfl
    | some entry =>
      obtain ⟨slot, bytes⟩ := entry
      have hbytes : entryBytes summary cand = some bytes := by
        rw [entryBytes, hentry]
        rfl
      by_cases hempty : bytes = []
      · have homits : omits summary cand = true := by simp [omits, hbytes, hempty]
        simp [hempty, homits]
      · have homits : omits summary cand = false := by simp [omits, hbytes, hempty]
        have hrest : Readable summary rest := fun c hc => hreadable c (by simp [homits, hc])
        have hok := hreadable cand (by simp [homits])
        rw [hbytes, all_some] at hok
        cases hv : decode bytes with
        | error e =>
          rw [hv] at hok
          cases hok
        | ok v =>
          simp only [hempty, if_false, hv, ih hrest, any_cons, homits, Bool.false_or, map_cons, inlinedValue, hbytes]
          cases rest.any (omits summary) with
          | true => rfl
          | false => simp [Except.map, hv, Except.toOption]

/-- Bytes that are no value end the loop with an exception. -/
theorem summaryValues_of_not_readable {summary : DecodedVertexSummary}
    (hno : ¬ Readable summary candidates) :
    ∃ e, summaryValues summary candidates = .error e := by
  induction candidates with
  | nil => exact absurd (fun c hc => by simp at hc) hno
  | cons cand rest ih =>
    rw [summaryValues]
    by_cases homits : omits summary cand = true
    · exact absurd (fun c hc => by simp [homits] at hc) hno
    · rw [Bool.not_eq_true] at homits
      have hsplit : (entryBytes summary cand).all (fun bytes => (decode bytes).isOk) → ¬ Readable summary rest := by
        intro hok hrest
        refine hno fun c hc => ?_
        simp only [homits, Bool.not_false, takeWhile_cons_of_pos, mem_cons] at hc
        rcases hc with rfl | hc
        · exact hok
        · exact hrest c hc
      cases hentry : summaryEntry summary cand with
      | none =>
        have hbytes : entryBytes summary cand = none := by
          rw [entryBytes, hentry]
          rfl
        obtain ⟨e, he⟩ := ih (hsplit (by rw [hbytes]; rfl))
        exact ⟨e, by simp only [he]; rfl⟩
      | some entry =>
        obtain ⟨slot, bytes⟩ := entry
        have hbytes : entryBytes summary cand = some bytes := by
          rw [entryBytes, hentry]
          rfl
        have hempty : bytes ≠ [] := by
          rintro rfl
          simp [omits, hbytes] at homits
        simp only [hempty, if_false]
        cases hv : decode bytes with
        | error e => exact ⟨e, rfl⟩
        | ok v =>
          obtain ⟨e, he⟩ := ih (hsplit (by rw [hbytes, all_some, hv]; rfl))
          exact ⟨e, by simp only [he]; rfl⟩

variable {s : Store} (h : VertexRowsOk s)

include h

lemma exec_coalesceProperties_summary (candidates : List Candidate) (vid : VertexId) :
    exec (coalesceProperties candidates vid) s =
      (((storedSummary s vid).elim (.ok none) fun summary => summaryValues summary candidates).map
        fun found => foundValues (found.getD (firstValues candidates (canonicalValue s vid))),
        s) := by
  simp only [coalesceProperties, exec_bind, exec_vertexSummary]
  rw [show (s.get .vertexSummary (encodeVertexSummaryKey vid)).bind decodeVertexSummary =
    storedSummary s vid from rfl]
  cases (storedSummary s vid).elim (.ok none) fun summary => summaryValues summary candidates with
  | error e => rfl
  | ok found =>
    cases found with
    | some found => rfl
    | none =>
      simp only [exec_bind, exec_tableScan, exec_pure, scan_coalesceProperties h]
      rfl

/-- What `SummaryCurrent` says of the values. -/
def ValuesCurrent (s : Store) (candidates : List Candidate) (vid : VertexId) : Prop :=
  match storedSummary s vid with
  | none => OncePresent s vid candidates
  | some summary =>
    Readable summary candidates ∧
      if candidates.any (omits summary) then OncePresent s vid candidates
      else candidates.filterMap (inlinedValue summary) =
        candidates.filterMap (canonicalValue s vid)

lemma coalesceProperties_iff (candidates : List Candidate) (vid : VertexId) :
    (exec (coalesceProperties candidates vid) s).1 =
      .ok (candidates.filterMap (canonicalValue s vid)) ↔ ValuesCurrent s candidates vid := by
  rw [exec_coalesceProperties_summary h, ValuesCurrent]
  cases storedSummary s vid with
  | none =>
    show ok _ = ok _ ↔ _
    rw [ok.injEq]
    exact foundValues_firstValues_iff candidates (canonicalValue s vid)
  | some summary =>
    show (summaryValues summary candidates).map _ = _ ↔ _
    by_cases hreadable : Readable summary candidates
    · rw [summaryValues_of_readable hreadable]
      show ok _ = ok _ ↔ _
      rw [ok.injEq]
      refine Iff.trans ?_ (and_iff_right hreadable).symm
      cases candidates.any (omits summary) with
      | true => exact foundValues_firstValues_iff candidates (canonicalValue s vid)
      | false =>
        show foundValues (candidates.map (inlinedValue summary)) = _ ↔ _
        rw [foundValues, filterMap_map, Function.id_comp]
        rfl
    · obtain ⟨e, he⟩ := summaryValues_of_not_readable hreadable
      rw [he]
      exact ⟨fun heq => (by cases heq), fun hcurrent => absurd hcurrent.1 hreadable⟩

omit h in
lemma mem_rowLabels (h : VertexRowsOk s) (vid : VertexId) (l : LabelId) :
    l ∈ rowLabels s vid ↔ hasLabel s vid l := by
  rw [rowLabels, List.mem_toFinset, mem_labelRows h]

lemma exec_coalesceData_summary (candidates : List Candidate) (vid : VertexId) :
    exec (coalesceData candidates vid) s =
      (match storedSummary s vid with
        | none => .ok ⟨(rowLabels s vid).erase INVALID_LABEL_ID,
            foundValues (firstValues candidates (canonicalValue s vid))⟩
        | some summary => (summaryValues summary candidates).map fun found =>
          match found with
          | some found => ⟨summary.labels.toFinset, foundValues found⟩
          | none => ⟨summary.labels.toFinset ∪ (rowLabels s vid).erase INVALID_LABEL_ID,
              foundValues (firstValues candidates (canonicalValue s vid))⟩, s) := by
  have hscan : ∀ labels : Finset LabelId, exec (scanVertexData candidates vid labels) s =
      (.ok ⟨labels ∪ (rowLabels s vid).erase INVALID_LABEL_ID,
        foundValues (firstValues candidates (canonicalValue s vid))⟩, s) := by
    intro labels
    obtain ⟨labels', hexec, hlabels⟩ := exec_scanVertexData h candidates vid labels
    have hunion : labels' = labels ∪ (rowLabels s vid).erase INVALID_LABEL_ID := by
      ext l
      rw [hlabels, Finset.mem_union, Finset.mem_erase, mem_rowLabels h]
    rw [hexec, hunion]
  simp only [coalesceData, exec_bind, exec_vertexSummary]
  show exec (match storedSummary s vid with | none => _ | some summary => _) s = _
  cases storedSummary s vid with
  | none => exact (hscan ∅).trans (by rw [Finset.empty_union])
  | some summary =>
    dsimp only
    cases summaryValues summary candidates with
    | error e => rfl
    | ok found =>
      cases found with
      | some found => rfl
      | none => exact hscan _

lemma coalesceData_iff (candidates : List Candidate) (vid : VertexId)
    (hlabels : ∀ summary ∈ storedSummary s vid, summary.labels.toFinset = rowLabels s vid) :
    (exec (coalesceData candidates vid) s).1 = .ok ⟨rowLabels s vid, candidates.filterMap (canonicalValue s vid)⟩ ↔
      (storedSummary s vid = none → INVALID_LABEL_ID ∉ rowLabels s vid) ∧ ValuesCurrent s candidates vid := by
  have hvalues := coalesceProperties_iff h candidates vid
  rw [exec_coalesceProperties_summary h] at hvalues
  rw [exec_coalesceData_summary h, ← hvalues]
  cases hsummary : storedSummary s vid with
  | none =>
    show ok _ = ok _ ↔ _ ∧ ok _ = ok _
    rw [ok.injEq, ok.injEq, CoalescedVertexData.mk.injEq, Finset.erase_eq_self]
    simp
  | some summary =>
    show (summaryValues summary candidates).map _ = _ ↔ _ ∧ (summaryValues summary candidates).map _ = _
    cases summaryValues summary candidates with
    | error e => exact ⟨fun heq => (by cases heq), fun hboth => (by cases hboth.2)⟩
    | ok found =>
      have hsame := hlabels summary hsummary
      have hunion : rowLabels s vid ∪ (rowLabels s vid).erase INVALID_LABEL_ID =
          rowLabels s vid := Finset.union_eq_left.mpr (Finset.erase_subset _ _)
      show ok _ = ok _ ↔ _ ∧ ok _ = ok _
      rw [ok.injEq, ok.injEq, hsame, hunion]
      cases found with
      | some found => simp
      | none => simp

end Values

/-! ### Batches -/

lemma summaryCurrent_iff (s : Store) (candidates : List Candidate) (vid : VertexId) :
    SummaryCurrent s candidates vid ↔ (∀ summary ∈ storedSummary s vid, summary.labels.toFinset = rowLabels s vid) ∧
      (storedSummary s vid = none → INVALID_LABEL_ID ∉ rowLabels s vid) ∧
      ValuesCurrent s candidates vid := by
  unfold SummaryCurrent ValuesCurrent
  cases storedSummary s vid with
  | none => simp
  | some summary => simp

/-- The batch readers answer as the reads of single vertices exactly when the summaries of
the vertices are current. -/
theorem equalPointwise_iff {capacity : UInt32} {s : Store}
    (hrun : Reaches (storeStep capacity) (fun _ _ => True) Store.empty s)
    (vids : List VertexId) (labelId : LabelId) (proj : List PropId)
    (candidates : List Candidate) :
    EqualPointwise s vids labelId proj candidates ↔ ∀ vid ∈ vids, SummaryCurrent s candidates vid := by
  have h := vertexRowsOk_reached hrun
  have hcoalesced : (runOperator (getVertexCoalescePropertiesBatch vids candidates) s).1 =
        (runOperator (readEach (candidateValues candidates) vids) s).1 ↔
      ∀ vid ∈ vids, ValuesCurrent s candidates vid := by
    have hread : ∀ vid, runOperator (ExceptT.mk (coalesceProperties candidates vid)) s =
        ((exec (coalesceProperties candidates vid) s).1, s) := fun vid => by
      show exec (coalesceProperties candidates vid) s = _
      rw [exec_coalesceProperties_summary h]
    rw [runOperator_readEach vids (runOperator_candidateValues h candidates),
      mapM_eq_map_iff.mpr fun vid _ => rfl, getVertexCoalescePropertiesBatch]
    by_cases hnone : candidates = []
    · subst hnone
      rw [if_pos rfl]
      refine ⟨fun _ vid _ => (coalesceProperties_iff h [] vid).mp ?_, fun _ => rfl⟩
      rw [exec_coalesceProperties_summary h]
      cases storedSummary s vid with
      | none => rfl
      | some summary => rfl
    · rw [if_neg hnone]
      refine (probeEach_eq_ok_iff hread [] vids).trans (mapM_eq_map_iff.trans ?_)
      exact forall₂_congr fun vid _ => coalesceProperties_iff h candidates vid
  have hdata : (∀ vid ∈ vids, ∀ summary ∈ storedSummary s vid, summary.labels.toFinset = rowLabels s vid) →
      ((runOperator (getVertexCoalesceDataBatch vids candidates) s).1 =
        (runOperator (readEach (candidateData candidates) vids) s).1 ↔
      ∀ vid ∈ vids, (storedSummary s vid = none → INVALID_LABEL_ID ∉ rowLabels s vid) ∧
        ValuesCurrent s candidates vid) := by
    intro hlabels
    have hread : ∀ vid, runOperator (ExceptT.mk (coalesceData candidates vid)) s =
        ((exec (coalesceData candidates vid) s).1, s) := fun vid => by
      show exec (coalesceData candidates vid) s = _
      rw [exec_coalesceData_summary h]
    rw [runOperator_readEach vids (runOperator_candidateData h candidates),
      mapM_eq_map_iff.mpr fun vid _ => rfl, getVertexCoalesceDataBatch]
    refine (probeEach_eq_ok_iff hread _ vids).trans (mapM_eq_map_iff.trans ?_)
    exact forall₂_congr fun vid hvid => coalesceData_iff h candidates vid (hlabels vid hvid)
  constructor
  · intro heq vid hvid
    have hlabels := (labelsBatch_iff s vids).mp heq.labels
    exact (summaryCurrent_iff s candidates vid).mpr ⟨hlabels vid hvid, (hdata hlabels).mp heq.data vid hvid⟩
  · intro hcurrent
    have hparts := fun vid hvid => (summaryCurrent_iff s candidates vid).mp (hcurrent vid hvid)
    have hlabels := fun vid hvid => (hparts vid hvid).1
    exact {
      labels := (labelsBatch_iff s vids).mpr hlabels
      properties := by rw [propertiesBatch_eq]
      projected := by rw [projectedBatch_eq h]
      coalesced := hcoalesced.mpr fun vid hvid => (hparts vid hvid).2.2
      data := (hdata hlabels).mpr fun vid hvid => (hparts vid hvid).2 }

/-- A vertex with its summary and one that has lost it, the second asked for twice. -/
theorem equalPointwise_iff_summaryRun :
    ∃ s, runGuarded (storeStep 1) (fun _ _ => True) Store.empty
        (summaryRun.map StoreAction.vertex) = some s ∧
      EqualPointwise s [2, 1, 2] 1 [2, 0] [(1, 0), (1, 2)] := by
  have hsome : (runGuarded (storeStep 1) (fun _ _ => True) Store.empty
      (summaryRun.map StoreAction.vertex)).any (fun s =>
        [2, 1, 2].all fun vid => decide (SummaryCurrent s [(1, 0), (1, 2)] vid)) := by
    decide +kernel
  obtain ⟨s, hs, hcurrent⟩ := (any_eq_true _ _).mp hsome
  refine ⟨s, hs, (equalPointwise_iff (reaches_of_runGuarded _ hs) [2, 1, 2] 1 [2, 0]
    [(1, 0), (1, 2)]).mpr fun vid hvid => ?_⟩
  exact of_decide_eq_true (all_eq_true.mp hcurrent vid hvid)

/-- The third insert of a vertex publishes a summary of its own labels only. -/
theorem republishedSummary_misread :
    ∃ s, Reaches (storeStep 0) (fun _ _ => True) Store.empty s ∧ ¬ EqualPointwise s [1] 1 [] [] := by
  have hsome : (runGuarded (storeStep 0) (fun _ _ => True) Store.empty
      (republishingRun.map StoreAction.vertex)).any (fun s =>
        [(exec (getVertexLabelsBatch [1]) s).1, [rowLabels s 1]] = [[{3}], [{1, 2, 3}]]) := by
    decide +kernel
  obtain ⟨s, hs, hreads⟩ := (any_eq_true _ _).mp hsome
  obtain ⟨hbatch, hrows⟩ : (exec (getVertexLabelsBatch [1]) s).1 = [{3}] ∧
      [rowLabels s 1] = [{1, 2, 3}] := by simpa using hreads
  refine ⟨s, reaches_of_runGuarded _ hs, fun h => ?_⟩
  have hsame := h.labels
  rw [runOperator_readEach [1] runOperator_labelSet] at hsame
  change ok _ = ok [rowLabels s 1] at hsame
  rw [hbatch, hrows, ok.injEq] at hsame
  exact absurd hsame (by decide)

end Eugraph.BatchReads
