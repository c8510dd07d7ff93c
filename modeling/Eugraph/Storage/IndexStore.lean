import Eugraph.Storage.TableOps
import Eugraph.Kv.IndexKeyCodec

/-!
# Index tables (`SyncGraphDataStore`, index part)

Writers, the callback scans and the pull cursor `IndexScanCursorImpl`.  The rows of
an index table are `encodeIndexKey(values, entity_id)`, so every reader is a walk
over a contiguous run of keys.  `scanIndexEquality_eq`, `scanIndexRange_eq` and
`entityIds_position` say which run it is.
-/

namespace Eugraph.IndexStore

open Lib Wt IndexKeyCodec List

structure IndexEntry where
  values : List PropertyValue
  entityId : UInt64
  payload : Bytes
  deriving DecidableEq

/-- The row key of an entry. -/
def IndexEntry.key (e : IndexEntry) : Bytes := encodeIndexKey e.values e.entityId

/-! ### Writers -/

/-- `insertIndexEntry` with a payload; the overload without one passes `{}`. -/
def insertIndexEntry (t : Table) (values : List PropertyValue) (entityId : UInt64)
    (payload : Bytes) : Table :=
  t.put (encodeIndexKey values entityId) payload

def deleteIndexEntry (t : Table) (values : List PropertyValue) (entityId : UInt64) : Table :=
  t.del (encodeIndexKey values entityId)

/-- A table filled by `insertIndexEntry` calls. -/
def insertAll (entries : List IndexEntry) (t : Table) : Table :=
  entries.foldl (fun t e => insertIndexEntry t e.values e.entityId e.payload) t

abbrev buildIndex (entries : List IndexEntry) : Table := insertAll entries SortedMap.empty

/-! ### Callback scans -/

/-- The callback that keeps every id it is given. -/
def collectId (ids : List UInt64) (id : UInt64) : List UInt64 × Bool := (ids ++ [id], true)

def scanIndexEquality {σ : Type} (engine : Engine) (t : Table) (values : List PropertyValue)
    (callback : σ → UInt64 → σ × Bool) (s : σ) : σ :=
  scanWithCursor engine t (encodeEqualityPrefix values)
    (fun s key _ => callback s (decodeEntityId key)) s

/-- `true` when no entry is found under the equality prefix. -/
def checkUniqueConstraint (engine : Engine) (t : Table) (values : List PropertyValue) : Bool :=
  let pre := encodeEqualityPrefix values
  !scanWithCursor engine t pre
    (fun found key _ => if pre.length ≤ key.length then (true, false) else (found, true)) false

def stripEntityIdSuffix (key : Bytes) : Bytes :=
  if 8 ≤ key.length then key.take (key.length - 8) else key

/-- The filler after an exclusive lower bound: the largest entity id. -/
def maxEntityIdSuffix : Bytes := List.replicate 8 0xFF

/-- `start_encoded`: empty without a bound. -/
def startEncoded : Option PropertyValue → Bytes
  | none => []
  | some v => encodeSortableValue v ++ maxEntityIdSuffix

/-- `end_encoded`: empty without a bound. -/
def endEncoded : Option PropertyValue → Bytes
  | none => []
  | some v => encodeSortableValue v

def scanIndexRange {σ : Type} (engine : Engine) (t : Table) (start stop : Option PropertyValue)
    (callback : σ → UInt64 → σ × Bool) (s : σ) : σ :=
  scanRangeWithCursor engine t (startEncoded start) true (endEncoded stop) stripEntityIdSuffix
    (fun s key _ => callback s (decodeEntityId key)) s

/-! ### Pull cursors -/

/-- `IndexScanCursorImpl::Spec`. -/
structure Spec where
  startKey : Bytes
  endKey : Bytes
  exclusiveStart : Bool
  prefixMode : Bool

structure IndexScanCursor where
  spec : Spec
  cursor : Cursor
  valid : Bool
  entityId : UInt64
  value : Bytes

namespace IndexScanCursor

/-- Loads the record under the cursor unless the prefix or the upper bound has ended. -/
def readCurrent (c : IndexScanCursor) : IndexScanCursor :=
  match c.cursor with
  | [] => c
  | (key, value) :: _ =>
    if c.spec.prefixMode ∧ ¬ c.spec.startKey.isPrefixOf key then c
    else if c.spec.endKey ≠ [] ∧ c.spec.endKey ≤ stripEntityIdSuffix key then c
    else { c with entityId := decodeEntityId key, value := value, valid := true }

/-- The constructor: `position()` on a fresh cursor. -/
def position (engine : Engine) (t : Table) (spec : Spec) : IndexScanCursor :=
  let fresh : IndexScanCursor := ⟨spec, [], false, 0, []⟩
  if spec.startKey ≠ [] then
    match searchNear engine t spec.startKey with
    | none => fresh
    | some (cmp, cursor) =>
      let advance :=
        if spec.prefixMode then cmp = .lt
        else if spec.exclusiveStart then cmp ≠ .gt else cmp = .lt
      readCurrent { fresh with cursor := if advance then cursor.tail else cursor }
  else readCurrent { fresh with cursor := t.entries }

def next (c : IndexScanCursor) : IndexScanCursor :=
  if ¬ c.valid then c
  else readCurrent { c with valid := false, cursor := c.cursor.tail }

/-- `for (; cursor->valid(); cursor->next())`, reading `entityId()`. -/
def entityIds : Nat → IndexScanCursor → List UInt64
  | 0, _ => []
  | fuel + 1, c => if c.valid then c.entityId :: entityIds fuel c.next else []

end IndexScanCursor

def createIndexEqualityCursor (engine : Engine) (t : Table) (values : List PropertyValue) :
    IndexScanCursor :=
  .position engine t ⟨encodeEqualityPrefix values, [], false, true⟩

def createIndexRangeCursor (engine : Engine) (t : Table) (start stop : Option PropertyValue) :
    IndexScanCursor :=
  .position engine t ⟨startEncoded start, endEncoded stop, true, false⟩

/-- The first entry under the key, if there is one. -/
def lookupVertexByPrimaryKey (engine : Engine) (t : Table) (values : List PropertyValue) :
    Option VertexId :=
  let cursor := createIndexEqualityCursor engine t values
  if ¬ cursor.valid then none else some cursor.entityId

/-! ### Contents of a built table -/

lemma mem_insertAll_keys (entries : List IndexEntry) (t : Table) (key : Bytes) :
    ((insertAll entries t).get key).isSome ↔ (t.get key).isSome ∨ ∃ e ∈ entries, e.key = key := by
  induction entries generalizing t with
  | nil => simp [insertAll]
  | cons e rest ih =>
    rw [insertAll, foldl_cons]
    change ((insertAll rest _).get key).isSome ↔ _
    rw [ih, insertIndexEntry, SortedMap.get_put]
    by_cases hkey : key = encodeIndexKey e.values e.entityId
    · simp [hkey, IndexEntry.key]
    · simp [hkey, IndexEntry.key, Ne.symm hkey]

lemma mem_buildIndex_keys (entries : List IndexEntry) (key : Bytes) :
    (∃ value, (key, value) ∈ (buildIndex entries).entries) ↔ ∃ e ∈ entries, e.key = key := by
  have h := mem_insertAll_keys entries SortedMap.empty key
  simp only [SortedMap.get_empty, Option.isSome_none, Bool.false_eq_true, false_or] at h
  rw [← h, Option.isSome_iff_exists]
  simp only [SortedMap.mem_entries_iff]

/-! ### What the readers hand out -/

/-- The ids in the keys of some records. -/
def recordIds (records : List Record) : List UInt64 := records.map fun e => decodeEntityId e.1

lemma runCallback_collectId (records : List Record) (ids : List UInt64) :
    runCallback (fun ids key _ => collectId ids (decodeEntityId key)) records ids = ids ++ recordIds records := by
  induction records generalizing ids with
  | nil => simp [runCallback, recordIds]
  | cons e rest ih =>
    rw [runCallback]
    change runCallback _ rest (ids ++ [decodeEntityId e.1]) = _
    rw [ih]
    simp [recordIds]

lemma runCallback_collectKeys (records : List Record) (keys : List Bytes) :
    runCallback (fun keys key _ => (keys ++ [key], true)) records keys = keys ++ records.map Prod.fst := by
  induction records generalizing keys with
  | nil => simp [runCallback]
  | cons e rest ih =>
    rw [runCallback]
    change runCallback _ rest (keys ++ [e.1]) = _
    rw [ih]
    simp

lemma scanIndexEquality_eq (engine : Engine) (t : Table) (values : List PropertyValue) :
    scanIndexEquality engine t values collectId [] = recordIds (prefixRecords t (encodeEqualityPrefix values)) := by
  rw [scanIndexEquality, scanWithCursor_eq, runCallback_collectId, nil_append]

lemma scanIndexRange_eq (engine : Engine) (t : Table) (start stop : Option PropertyValue) :
    scanIndexRange engine t start stop collectId [] =
      recordIds (rangeRecords t (startEncoded start) true (endEncoded stop) stripEntityIdSuffix) := by
  rw [scanIndexRange, scanRangeWithCursor_eq, runCallback_collectId, nil_append]

/-- The constraint holds exactly when the prefix has no record: a key under the
prefix is never shorter than it, so the length test of the callback always passes. -/
theorem checkUniqueConstraint_eq (engine : Engine) (t : Table) (values : List PropertyValue) :
    checkUniqueConstraint engine t values = (prefixRecords t (encodeEqualityPrefix values)).isEmpty := by
  rw [checkUniqueConstraint, scanWithCursor_eq]
  have hunder : ∀ e ∈ prefixRecords t (encodeEqualityPrefix values),
      (encodeEqualityPrefix values).length ≤ e.1.length := by
    intro e he
    exact ((mem_prefixRecords t _ e.1 e.2).mp he).1.length_le
  cases hrecords : prefixRecords t (encodeEqualityPrefix values) with
  | nil => simp [runCallback]
  | cons e rest =>
    have hlen := hunder e (by rw [hrecords]; simp)
    simp [runCallback, hlen]

/-! ### What the pull cursor hands out -/

/-- `readCurrent` loads this key. -/
def Spec.accepts (spec : Spec) (key : Bytes) : Bool :=
  if spec.prefixMode ∧ ¬ spec.startKey.isPrefixOf key then false
  else !(spec.endKey ≠ [] ∧ spec.endKey ≤ stripEntityIdSuffix key : Bool)

namespace IndexScanCursor

lemma readCurrent_cons (c : IndexScanCursor) (key value : Bytes) (rest : Cursor)
    (hcursor : c.cursor = (key, value) :: rest) :
    readCurrent c = if c.spec.accepts key then
      { c with entityId := decodeEntityId key, value := value, valid := true } else c := by
  unfold readCurrent Spec.accepts
  rw [hcursor]
  by_cases hpre : c.spec.prefixMode = true ∧ ¬ c.spec.startKey.isPrefixOf key = true
  · simp only [if_pos hpre, Bool.false_eq_true, if_false]
  · simp only [if_neg hpre]
    by_cases hend : c.spec.endKey ≠ [] ∧ c.spec.endKey ≤ stripEntityIdSuffix key
    · simp [hend]
    · simp only [if_neg hend]
      simp [hend]

/-- A freshly positioned cursor yields the ids of the accepted run, given fuel for it. -/
theorem entityIds_readCurrent (fuel : Nat) (c : IndexScanCursor) (hvalid : c.valid = false)
    (hfuel : c.cursor.length < fuel) :
    entityIds fuel c.readCurrent = recordIds (c.cursor.takeWhile fun e => c.spec.accepts e.1) := by
  induction fuel generalizing c with
  | zero => omega
  | succ fuel ih =>
    cases hcursor : c.cursor with
    | nil =>
      have hread : c.readCurrent = c := by
        unfold readCurrent
        rw [hcursor]
      simp [hread, entityIds, hvalid, recordIds]
    | cons e rest =>
      obtain ⟨key, value⟩ := e
      rw [readCurrent_cons c key value rest hcursor, takeWhile_cons]
      by_cases haccepts : c.spec.accepts key = true
      · rw [if_pos haccepts, if_pos haccepts, entityIds, if_pos rfl, recordIds, map_cons]
        congr 1
        unfold next
        rw [if_neg (by simp)]
        have hrest := ih { c with entityId := decodeEntityId key, value := value, valid := false,
                                  cursor := c.cursor.tail } rfl
          (by simp only [hcursor, tail_cons]; simp [hcursor] at hfuel; omega)
        simpa [hcursor, recordIds] using hrest
      · rw [if_neg haccepts, if_neg haccepts, entityIds, hvalid]
        simp [recordIds]

/-- The run of records a cursor stands before. -/
def startRecords (t : Table) (spec : Spec) : List Record :=
  if spec.startKey = [] then t.entries
  else recordsFrom t spec.startKey (!spec.prefixMode && spec.exclusiveStart)

lemma position_eq (engine : Engine) (t : Table) (spec : Spec) :
    position engine t spec = readCurrent ⟨spec, startRecords t spec, false, 0, []⟩ := by
  unfold position startRecords
  by_cases hstart : spec.startKey = []
  · simp [hstart]
  · have hpos := searchNear_position engine t spec.startKey (!spec.prefixMode && spec.exclusiveStart)
    simp only [ne_eq, hstart, not_false_eq_true, if_true, if_false]
    rw [← hpos]
    cases searchNear engine t spec.startKey with
    | none => rfl
    | some found =>
      cases spec.prefixMode <;> cases spec.exclusiveStart <;> simp

lemma startRecords_length_le (t : Table) (spec : Spec) : (startRecords t spec).length ≤ t.entries.length := by
  unfold startRecords
  split
  · exact Nat.le_refl _
  · exact length_filter_le _ _

lemma entityIds_position (engine : Engine) (t : Table) (spec : Spec) (fuel : Nat)
    (hfuel : t.entries.length < fuel) :
    entityIds fuel (position engine t spec) =
      recordIds ((startRecords t spec).takeWhile fun e => spec.accepts e.1) := by
  have hle := startRecords_length_le t spec
  rw [position_eq, entityIds_readCurrent fuel _ rfl (Nat.lt_of_le_of_lt hle hfuel)]

end IndexScanCursor

open IndexScanCursor

/-- Walking an equality cursor yields what `scanIndexEquality` reports. -/
theorem entityIds_createIndexEqualityCursor (engine : Engine) (t : Table)
    (values : List PropertyValue) (fuel : Nat) (hfuel : t.entries.length < fuel) :
    entityIds fuel (createIndexEqualityCursor engine t values) = scanIndexEquality engine t values collectId [] := by
  have hend : Spec.accepts ⟨encodeEqualityPrefix values, [], false, true⟩ =
      (encodeEqualityPrefix values).isPrefixOf := by
    funext key
    unfold Spec.accepts
    cases (encodeEqualityPrefix values).isPrefixOf key <;> simp
  rw [createIndexEqualityCursor, entityIds_position engine t _ fuel hfuel, scanIndexEquality_eq, hend, startRecords]
  by_cases hpre : encodeEqualityPrefix values = []
  · simp only [hpre, if_true]
    have hall : prefixRecords t [] = t.entries := by
      rw [prefixRecords, SortedMap.filterKeys, filter_eq_self]
      simp
    rw [hall, takeWhile_eq_self_iff.mpr]
    simp
  · simp only [hpre, if_false]
    exact congrArg recordIds (takeWhile_prefix_recordsFrom t _)

/-- Walking a range cursor yields what `scanIndexRange` reports. -/
theorem entityIds_createIndexRangeCursor (engine : Engine) (t : Table)
    (start stop : Option PropertyValue) (fuel : Nat) (hfuel : t.entries.length < fuel) :
    entityIds fuel (createIndexRangeCursor engine t start stop) =
      scanIndexRange engine t start stop collectId [] := by
  rw [createIndexRangeCursor, entityIds_position engine t _ fuel hfuel, scanIndexRange_eq, rangeRecords,
    startRecords]
  simp [Spec.accepts]

/-- The primary-key lookup returns the first id the equality scan reports. -/
theorem lookupVertexByPrimaryKey_eq (engine : Engine) (t : Table) (values : List PropertyValue) :
    lookupVertexByPrimaryKey engine t values = (scanIndexEquality engine t values collectId []).head? := by
  rw [← entityIds_createIndexEqualityCursor engine t values (t.entries.length + 1) (by omega),
    lookupVertexByPrimaryKey, entityIds]
  by_cases hvalid : (createIndexEqualityCursor engine t values).valid = true
  · simp [hvalid]
  · simp [hvalid]

end Eugraph.IndexStore
