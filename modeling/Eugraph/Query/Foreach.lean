import Eugraph.Lib.Newest
import Eugraph.Query.ChunkWriter

/-!
# FOREACH

`foreach_physical_op.cpp`: for each row of a chunk the body runs once per element of the
row's list.  The entities in the last row of each chunk the body hands out are remembered,
and in the end the vertex and edge columns of the row are refreshed from them.

The entities are remembered by id alone.  A vertex and an edge with one id share a slot,
so the newer one hides the other and the column of the other is not refreshed.

The body is a parameter: what it does to the world it writes to, and the chunks one run of
it hands out.  A statement that is cancelled is not modelled.
-/

namespace Eugraph.Dataset

open Lib List Option ColumnBuffer Payload

/-- `ensureExclusiveBuffer`.  Columns do not share their buffers here. -/
def ensureExclusiveBuffer (col : Column) (n : Nat) : Column :=
  match col with
  | .flat buffer => .flat buffer
  | .unallocated type => .unallocated type
  | col => (range n).foldl (fun fresh i => fresh.copyCell col i i) (Column.ofType col.type n)

/-- Entity id of a published vertex or edge value. -/
def entityId : Value → Option UInt64
  | .vertex vertex => some vertex.id
  | .edge edge => some edge.id
  | _ => none

/-- Record a value in place of the earlier one with its id. -/
def rememberEntity (collected : List Value) (value : Value) : List Value :=
  if entityId value = none then collected else putNewest entityId value collected

def rememberEntities (collected : List Value) (chunk : DataChunk) (row : Nat) : List Value :=
  (chunk.row row).foldl rememberEntity collected

/-- The loop over the chunks of one run; the last row of each is remembered. -/
def rememberStream (updated : List Value) (stream : List DataChunk) : List Value :=
  stream.foldl
    (fun updated body_chunk =>
      if body_chunk.count = 0 then updated
      else rememberEntities updated body_chunk (body_chunk.count - 1))
    updated

/-- One pass of the loop over the columns. -/
def refreshColumn (n row : Nat) (updated : List Value) (column : Column) : Column :=
  if column.type ≠ .VERTEX ∧ column.type ≠ .EDGE then column
  else
    match entityId (column.getValue row) with
    | none => column
    | some id =>
      match updated.find? (fun replacement => entityId replacement = some id) with
      | none => column
      | some replacement => (ensureExclusiveBuffer column n).setValue row replacement

def refreshOuterEntities (chunk : DataChunk) (row : Nat) (updated : List Value) : DataChunk :=
  if updated.isEmpty then chunk
  else { chunk with columns := chunk.columns.map (refreshColumn chunk.count row updated) }

/-- `σ` is the world the body writes to. -/
structure ForeachPhysicalOp (σ : Type) where
  /-- `eval.evaluate(list_expr_, ..)`: the list of each row. -/
  list_expr : σ → DataChunk → Nat → Value
  input_columns : List Nat
  /-- One run of the body with the correlated values, drained. -/
  body : Row → σ → List DataChunk × σ

namespace ForeachPhysicalOp

variable {σ : Type} (op : ForeachPhysicalOp σ)

/-- Outer variables first, the element last. -/
def correlated (chunk : DataChunk) (row : Nat) (element : Value) : Row :=
  (op.input_columns.map fun column => chunk.getValue column row) ++ [element]

def runBodyOnce (chunk : DataChunk) (row : Nat) (element : Value) (updated : List Value) (world : σ) :
    List Value × σ :=
  let run := op.body (op.correlated chunk row element) world
  (rememberStream updated run.1, run.2)

/-- The loop over the elements of a list. -/
def runElements (chunk : DataChunk) (row : Nat) : List Value → List Value → σ → List Value × σ
  | [], updated, world => (updated, world)
  | element :: rest, updated, world =>
    let once := op.runBodyOnce chunk row element updated world
    runElements chunk row rest once.1 once.2

/-- One pass of the loop over the rows. -/
def executeRow (list : Value) (row : Nat) (chunk : DataChunk) (world : σ) : DataChunk × σ :=
  match list with
  | .null => (chunk, world)
  | .list elements =>
    let all := op.runElements chunk row elements [] world
    (refreshOuterEntities chunk row all.1, all.2)
  | element =>
    let once := op.runBodyOnce chunk row element [] world
    (refreshOuterEntities chunk row once.1, once.2)

def executeRows (lists : Nat → Value) : List Nat → DataChunk → σ → DataChunk × σ
  | [], chunk, world => (chunk, world)
  | row :: rest, chunk, world =>
    let done := op.executeRow (lists row) row chunk world
    executeRows lists rest done.1 done.2

/-- What is handed on for one chunk of the child. -/
def executeChunk (chunk : DataChunk) (world : σ) : List DataChunk × σ :=
  if chunk.count = 0 then ([], world)
  else
    let done := op.executeRows (op.list_expr world chunk) (range chunk.count) chunk world
    ([done.1], done.2)

/-! ### What FOREACH is for -/

/-- A list iterates its elements, null is a no-op, any other value is a list of one. -/
def elementsOf : Value → List Value
  | .null => []
  | .list elements => elements
  | element => [element]

/-- The body run on one row of values after another. -/
def runs : List Row → σ → List DataChunk × σ
  | [], world => ([], world)
  | row :: rest, world =>
    let run := op.body row world
    let tail := runs rest run.2
    (run.1 ++ tail.1, tail.2)

/-- The values the body is run on for one row of the chunk. -/
def bodyRows (chunk : DataChunk) (lists : Nat → Value) (row : Nat) : List Row :=
  (elementsOf (lists row)).map (op.correlated chunk row)

/-- The world after the rows before `row`. -/
def worldBefore (chunk : DataChunk) (world : σ) (row : Nat) : σ :=
  (op.runs ((range row).flatMap (op.bodyRows chunk (op.list_expr world chunk))) world).2

/-- Everything the runs for one row hand out. -/
def rowStream (chunk : DataChunk) (world : σ) (row : Nat) : List DataChunk :=
  (op.runs (op.bodyRows chunk (op.list_expr world chunk) row) (op.worldBefore chunk world row)).1

end ForeachPhysicalOp

/-- The graph entity of a published value: ids of vertices and of edges are apart. -/
def publishedEntity : Value → Option (EntityKind × UInt64)
  | .vertex vertex => some (.vertex, vertex.id)
  | .edge edge => some (.edge, edge.id)
  | _ => none

/-- All values that were handed out, in order. -/
def published (stream : List DataChunk) : List Value := (streamRows stream).flatten

/-- The values in the last rows of the chunks. -/
def lastRows (stream : List DataChunk) : List Value :=
  stream.flatMap fun chunk => if chunk.count = 0 then [] else chunk.row (chunk.count - 1)

/-- The state in which the runs leave an entity: the newest value published for it, or the
one that was held. -/
def finalState (stream : List DataChunk) (held : Value) : Value :=
  match publishedEntity held with
  | none => held
  | some e => (newest (fun v => publishedEntity v = some e) (published stream)).getD held

/-- Vertex and edge columns hold the final states; everything else is passed on. -/
def finalCell (stream : List DataChunk) (kind : BoundTypeKind) (held : Value) : Value :=
  if kind ≠ .VERTEX ∧ kind ≠ .EDGE then held else finalState stream held

def finalRow (stream : List DataChunk) (chunk : DataChunk) (row : Nat) : Row :=
  chunk.columns.map fun column => finalCell stream column.type (column.getValue row)

/-! ### Remembering -/

lemma find?_rememberEntity (collected : List Value) (value : Value) (id : UInt64) :
    (rememberEntity collected value).find? (fun v => entityId v = some id) =
      if entityId value = some id then some value
      else collected.find? (fun v => entityId v = some id) := by
  unfold rememberEntity
  split
  next hnone => simp [hnone]
  next => exact find?_putNewest entityId value collected (some id)

lemma find?_rememberEntities (collected : List Value) (chunk : DataChunk) (row : Nat) (id : UInt64) :
    (rememberEntities collected chunk row).find? (fun v => entityId v = some id) =
      (newest (fun v => entityId v = some id) (chunk.row row)).or
        (collected.find? (fun v => entityId v = some id)) := by
  unfold rememberEntities
  generalize chunk.row row = values
  induction values generalizing collected with
  | nil => rfl
  | cons value rest ih =>
    rw [foldl_cons, ih, find?_rememberEntity, ← singleton_append, newest_append]
    by_cases hid : entityId value = some id
    · simp [newest, hid]
    · simp [newest, hid]

lemma lastRows_cons (chunk : DataChunk) (rest : List DataChunk) : lastRows (chunk :: rest) =
      (if chunk.count = 0 then [] else chunk.row (chunk.count - 1)) ++ lastRows rest :=
  flatMap_cons

/-- What is found under an id is the newest value with that id in the last rows. -/
theorem find?_rememberStream (updated : List Value) (stream : List DataChunk) (id : UInt64) :
    (rememberStream updated stream).find? (fun v => entityId v = some id) =
      (newest (fun v => entityId v = some id) (lastRows stream)).or
        (updated.find? (fun v => entityId v = some id)) := by
  induction stream generalizing updated with
  | nil => rfl
  | cons chunk rest ih =>
    rw [rememberStream, foldl_cons]
    refine (ih _).trans ?_
    rw [lastRows_cons, newest_append, Option.or_assoc]
    congr 1
    by_cases hempty : chunk.count = 0
    · simp [hempty]
    · rw [if_neg hempty, if_neg hempty, find?_rememberEntities]

lemma rememberStream_append (updated : List Value) (first second : List DataChunk) :
    rememberStream updated (first ++ second) = rememberStream (rememberStream updated first) second :=
  foldl_append

/-! ### Refreshing one column -/

lemma entityId_eq (v : Value) : entityId v = (publishedEntity v).map (·.2) := by
  cases v <;> rfl

/-- What the refreshed column holds in the row of the runs. -/
def refreshedCell (stream : List DataChunk) (kind : BoundTypeKind) (held : Value) : Value :=
  if kind ≠ .VERTEX ∧ kind ≠ .EDGE then held
  else
    match publishedEntity held with
    | none => held
    | some e =>
      ((newest (fun v => entityId v = some e.2) (lastRows stream)).filter
        (publishedEntity · = some e)).getD held

/-- A flat column that holds an entity in a row can be written there. -/
theorem writable_held {buffer : ColumnBuffer} {row : Nat} {e : EntityKind × UInt64}
    (hkind : buffer.type = .VERTEX ∨ buffer.type = .EDGE)
    (hheld : publishedEntity (buffer.getValue row) = some e) :
    Writable buffer.type (row + 1) (.flat buffer) := by
  obtain ⟨type, data, validity⟩ := buffer
  simp only at hkind
  have hvalid : row < validity.length := by
    by_contra hpast
    have hnull : (⟨type, data, validity⟩ : ColumnBuffer).getValue row = .null := by
      simp [getValue, ColumnBuffer.isNull, getElem?_eq_none (not_lt.mp hpast)]
    rw [hnull] at hheld
    cases hheld
  have hdata : row < data.length := by
    by_contra hpast
    have hnull : (⟨type, data, validity⟩ : ColumnBuffer).getValue row = .null := by
      have hpast' : data[row]? = none := getElem?_eq_none (not_lt.mp hpast)
      unfold getValue
      split
      · rfl
      · -- a handle that was never published reads as null
        rw [hpast']
        rcases hkind with rfl | rfl <;> rfl
    rw [hnull] at hheld
    cases hheld
  exact ⟨_, rfl, rfl, hdata, hvalid⟩

lemma Writable.mono {kind : BoundTypeKind} {n k : Nat} {col : Column} (h : Writable kind n col)
    (hk : k ≤ n) : Writable kind k col := by
  obtain ⟨b, hcol, htype, hdata, hvalid⟩ := h
  exact ⟨b, hcol, htype, by omega, by omega⟩

lemma writable_materialized (col : Column) (n : Nat) {k : Nat} (hk : k ≤ n) :
    let fresh := (range k).foldl (fun fresh i => fresh.copyCell col i i) (Column.ofType col.type n)
    Writable col.type n fresh ∧ ∀ j < k, fresh.getValue j = col.getValue j := by
  induction k with
  | zero => exact ⟨writable_ofType col.type n, fun j hj => by omega⟩
  | succ k ih =>
    obtain ⟨hwritable, hread⟩ := ih (by omega)
    rw [range_succ, foldl_append]
    obtain ⟨hnext, hcell⟩ := hwritable.copyCell (by omega : k < n) (col.fits_getValue k)
    refine ⟨hnext, fun j hj => (hcell j).trans ?_⟩
    split
    next heq => rw [heq]
    next hne => exact hread j (by omega)

section OneColumn

variable {col : Column} {n row : Nat} {e : EntityKind × UInt64}

/-- The column that is written in place of the one read: it holds the same rows. -/
theorem ensureExclusiveBuffer_spec (hrow : row < n) (hkind : col.type = .VERTEX ∨ col.type = .EDGE)
    (hheld : publishedEntity (col.getValue row) = some e) :
    Writable col.type (row + 1) (ensureExclusiveBuffer col n) ∧
      ∀ j < n, (ensureExclusiveBuffer col n).getValue j = col.getValue j := by
  cases col with
  | flat buffer => exact ⟨writable_held hkind hheld, fun j hj => rfl⟩
  | unallocated type => cases hheld
  | constant value => rcases hkind with hkind | hkind <;> cases hkind
  | dict buffer sel =>
    obtain ⟨hwritable, hread⟩ := writable_materialized (.dict buffer sel) n (le_refl n)
    exact ⟨hwritable.mono (by omega), hread⟩

/-- A vertex column holds vertices, an edge column edges. -/
theorem held_kind (hkind : col.type = .VERTEX ∨ col.type = .EDGE)
    (hheld : publishedEntity (col.getValue row) = some e) :
    (col.type = .VERTEX ∧ e.1 = .vertex) ∨ (col.type = .EDGE ∧ e.1 = .edge) := by
  have hfits := col.fits_getValue row
  generalize col.getValue row = v at hfits hheld
  generalize col.type = kind at hfits hkind
  rcases hfits with hnull | ⟨x, hx, -⟩
  · cases v <;> simp [isNull] at hnull
    cases hheld
  · rcases hkind with rfl | rfl <;> cases v <;> simp [assigned] at hx <;>
      simp_all [publishedEntity] <;> simp [← hheld]

/-- A value of the other kind leaves a written row as it is. -/
theorem Writable.setValue_unassigned {kind : BoundTypeKind} (h : Writable kind (row + 1) col)
    (hheld : col.getValue row ≠ .null) {v : Value} (hnull : isNull v = false)
    (hassigned : Payload.assigned kind v = none) :
    (col.setValue row v).type = kind ∧ ∀ j, (col.setValue row v).getValue j = col.getValue j := by
  obtain ⟨⟨type, data, validity⟩, rfl, rfl, hdata, hvalid⟩ := h
  simp only at hdata hvalid hassigned
  have hbit : validity[row]? = some true := by
    by_contra hbit
    apply hheld
    apply Column.getValue_of_isNull
    have hlt : row < validity.length := by omega
    rw [getElem?_eq_getElem hlt] at hbit
    simpa [Column.isNull, ColumnBuffer.isNull, hlt] using hbit
  have hset : validity.set row true = validity := by
    apply ext_getElem?
    intro j
    by_cases hj : row = j
    · subst hj
      rw [hbit]
      exact getElem?_set_self (by omega)
    · simp [hj]
  have hwritten : (Column.flat ⟨type, data, validity⟩).setValue row v = .flat ⟨type, data, validity⟩ := by
    simp [Column.setValue, ColumnBuffer.setValue, hnull, hassigned, ColumnBuffer.setValid, hset]
  rw [hwritten]
  exact ⟨rfl, fun j => rfl⟩

/-- The replacement is written where it is of the kind of the column. -/
theorem getValue_replacement (hrow : row < n) (hkind : col.type = .VERTEX ∨ col.type = .EDGE)
    (hheld : publishedEntity (col.getValue row) = some e) {v : Value} (hid : entityId v = some e.2) :
    ((ensureExclusiveBuffer col n).setValue row v).type = col.type ∧
      ∀ j < n, ((ensureExclusiveBuffer col n).setValue row v).getValue j =
        if j = row then (if publishedEntity v = some e then v else col.getValue row)
        else col.getValue j := by
  obtain ⟨hwritable, hread⟩ := ensureExclusiveBuffer_spec hrow hkind hheld
  obtain ⟨kind, id⟩ := e
  have hcolumn := held_kind hkind hheld
  simp only at hid hcolumn
  by_cases hsame : publishedEntity v = some (kind, id)
  · have hfits : Fits col.type v := by
      rcases hcolumn with ⟨htype, rfl⟩ | ⟨htype, rfl⟩
      · rw [htype]
        cases v <;> simp [publishedEntity] at hsame
        exact .inr ⟨_, rfl, rfl⟩
      · rw [htype]
        cases v <;> simp [publishedEntity] at hsame
        exact .inr ⟨_, rfl, rfl⟩
    obtain ⟨⟨buffer, hbuffer, htype, -⟩, hset⟩ := hwritable.setValue (by omega : row < row + 1) hfits
    refine ⟨by rw [hbuffer]; exact htype, fun j hj => ?_⟩
    rw [hset j, if_pos hsame, hread j hj]
  · have hother : isNull v = false ∧ assigned col.type v = none := by
      rcases hcolumn with ⟨htype, rfl⟩ | ⟨htype, rfl⟩
      · rw [htype]
        cases v <;> simp_all [publishedEntity, entityId, isNull, assigned]
      · rw [htype]
        cases v <;> simp_all [publishedEntity, entityId, isNull, assigned]
    have hfull : (ensureExclusiveBuffer col n).getValue row ≠ .null := by
      rw [hread row hrow]
      intro hnull
      rw [hnull] at hheld
      cases hheld
    obtain ⟨htype, hset⟩ := hwritable.setValue_unassigned hfull hother.1 hother.2
    refine ⟨htype, fun j hj => ?_⟩
    rw [hset j, hread j hj, if_neg hsame]
    split
    next heq => rw [heq]
    next => rfl

/-- One pass of the refreshing loop changes one cell. -/
theorem refreshColumn_spec (stream : List DataChunk) (col : Column) (hrow : row < n) :
    (refreshColumn n row (rememberStream [] stream) col).type = col.type ∧
      ∀ j < n, (refreshColumn n row (rememberStream [] stream) col).getValue j =
        if j = row then refreshedCell stream col.type (col.getValue row) else col.getValue j := by
  -- a column that is left alone
  have hkept : refreshedCell stream col.type (col.getValue row) = col.getValue row → ∀ j < n, col.getValue j =
        if j = row then refreshedCell stream col.type (col.getValue row) else col.getValue j := by
    intro hcell j hj
    split
    next heq => rw [hcell, heq]
    next => rfl
  by_cases hkind : col.type ≠ .VERTEX ∧ col.type ≠ .EDGE
  · rw [refreshColumn, if_pos hkind]
    exact ⟨rfl, hkept (if_pos hkind)⟩
  · have hentity : col.type = .VERTEX ∨ col.type = .EDGE := by tauto
    have hcell : refreshedCell stream col.type (col.getValue row) = _ := if_neg hkind
    rw [refreshColumn, if_neg hkind, entityId_eq]
    cases hheld : publishedEntity (col.getValue row) with
    | none =>
      rw [hheld] at hcell
      exact ⟨rfl, hkept hcell⟩
    | some e =>
      have hfound := find?_rememberStream [] stream e.2
      rw [find?_nil, or_none] at hfound
      simp only [hheld] at hcell
      simp only [map_some, hfound]
      cases hnewest : newest (fun v => entityId v = some e.2) (lastRows stream) with
      | none =>
        rw [hnewest] at hcell
        exact ⟨rfl, hkept hcell⟩
      | some v =>
        have hid : entityId v = some e.2 := by simpa using (newest_spec hnewest).2
        obtain ⟨htype, hread⟩ := getValue_replacement hrow hentity hheld hid
        refine ⟨htype, fun j hj => ?_⟩
        rw [hread j hj, hcell, hnewest]
        by_cases hsame : publishedEntity v = some e
        · simp [hsame, Option.filter]
        · simp [hsame, Option.filter]

end OneColumn

/-! ### Refreshing one row -/

def refreshedRow (stream : List DataChunk) (chunk : DataChunk) (row : Nat) : Row :=
  chunk.columns.map fun column => refreshedCell stream column.type (column.getValue row)

/-- The columns of `after` have the types of those of `before`, and each row below `n` is as
`value` says. -/
def Reads (n : Nat) (before after : DataChunk) (value : Nat → Column → Value) : Prop :=
  after.count = before.count ∧
    Forall₂ (fun col col' => col'.type = col.type ∧ ∀ j < n, col'.getValue j = value j col)
      before.columns after.columns

lemma Reads.row {n : Nat} {before after : DataChunk} {value : Nat → Column → Value}
    (h : Reads n before after value) {j : Nat} (hj : j < n) :
    after.row j = before.columns.map (value j) := by
  obtain ⟨-, hcolumns⟩ := h
  unfold DataChunk.row
  generalize before.columns = columns, after.columns = columns' at hcolumns
  induction hcolumns with
  | nil => rfl
  | cons hcol _ ih => rw [map_cons, map_cons, ih, hcol.2 j hj]

lemma reads_self (n : Nat) (chunk : DataChunk) : Reads n chunk chunk fun j col => col.getValue j :=
  ⟨rfl, forall₂_same.mpr fun _ _ => ⟨rfl, fun _ _ => rfl⟩⟩

lemma rememberStream_isEmpty {stream : List DataChunk}
    (h : (rememberStream [] stream).isEmpty = true) (kind : BoundTypeKind) (held : Value) :
    refreshedCell stream kind held = held := by
  unfold refreshedCell
  split
  · rfl
  · cases publishedEntity held with
    | none => rfl
    | some e =>
      have hfound := find?_rememberStream [] stream e.2
      rw [isEmpty_iff.mp h, find?_nil, or_none] at hfound
      simp [← hfound]

/-- Refreshing a row of a chunk changes that row only. -/
theorem Reads.refresh {before chunk : DataChunk} {value : Nat → Column → Value} {n row : Nat}
    (h : Reads n before chunk value) (hn : chunk.count = n) (hrow : row < n)
    (stream : List DataChunk) :
    Reads n before (refreshOuterEntities chunk row (rememberStream [] stream)) fun j col =>
      if j = row then refreshedCell stream col.type (value row col) else value j col := by
  obtain ⟨hcount, hcolumns⟩ := h
  unfold refreshOuterEntities
  split
  next hempty =>
    refine ⟨hcount, hcolumns.imp fun col col' hcol => ⟨hcol.1, fun j hj => ?_⟩⟩
    simp only [rememberStream_isEmpty hempty]
    rw [hcol.2 j hj]
    split
    next heq => rw [heq]
    next => rfl
  next =>
    refine ⟨hcount, ?_⟩
    rw [forall₂_map_right_iff, hn]
    refine hcolumns.imp fun col col' hcol => ?_
    obtain ⟨htype, hread⟩ := refreshColumn_spec stream col' hrow
    refine ⟨htype.trans hcol.1, fun j hj => ?_⟩
    rw [hread j hj, hcol.1, hcol.2 row hrow, hcol.2 j hj]

namespace ForeachPhysicalOp

variable {σ : Type} (op : ForeachPhysicalOp σ)

/-! ### The runs of the body -/

lemma runs_append (first second : List Row) (world : σ) : op.runs (first ++ second) world =
      ((op.runs first world).1 ++ (op.runs second (op.runs first world).2).1,
        (op.runs second (op.runs first world).2).2) := by
  induction first generalizing world with
  | nil => rfl
  | cons row rest ih => simp [runs, ih, append_assoc]

lemma worldBefore_succ (chunk : DataChunk) (world : σ) (row : Nat) : op.worldBefore chunk world (row + 1) =
      (op.runs (op.bodyRows chunk (op.list_expr world chunk) row) (op.worldBefore chunk world row)).2 := by
  unfold worldBefore
  rw [range_succ, flatMap_append, runs_append]
  simp

lemma runElements_eq (chunk : DataChunk) (row : Nat) (elements updated : List Value) (world : σ) :
    let stream := op.runs (elements.map (op.correlated chunk row)) world
    op.runElements chunk row elements updated world = (rememberStream updated stream.1, stream.2) := by
  induction elements generalizing updated world with
  | nil => rfl
  | cons element rest ih =>
    simp only [runElements, map_cons, runs, runBodyOnce, rememberStream_append]
    exact ih _ _

/-- A row is refreshed from the runs for its elements, whatever its list is. -/
theorem executeRow_eq (list : Value) (row : Nat) (chunk : DataChunk) (world : σ) :
    let stream := op.runs ((elementsOf list).map (op.correlated chunk row)) world
    op.executeRow list row chunk world = (refreshOuterEntities chunk row (rememberStream [] stream.1),
      stream.2) := by
  cases list with
  | null => rfl
  | list elements =>
    simp only [executeRow, elementsOf]
    rw [runElements_eq]
  | _ => simp [executeRow, elementsOf, runs, runBodyOnce]

lemma correlated_congr {chunk chunk' : DataChunk} {row : Nat} (h : chunk'.row row = chunk.row row)
    (element : Value) : op.correlated chunk' row element = op.correlated chunk row element := by
  have hvalue : ∀ column, chunk'.getValue column row = chunk.getValue column row := by
    intro column
    have hcell := congrArg (·[column]?) h
    simp only [DataChunk.row, getElem?_map] at hcell
    unfold DataChunk.getValue
    cases hcol : chunk.columns[column]? with
    | none =>
      rw [hcol] at hcell
      rw [map_eq_none_iff.mp hcell]
    | some col =>
      rw [hcol] at hcell
      obtain ⟨col', hcol', hread⟩ := map_eq_some_iff.mp hcell
      rw [hcol']
      exact hread
  unfold correlated
  simp only [hvalue]

lemma executeRows_append (lists : Nat → Value) (first : List Nat) (row : Nat) (chunk : DataChunk) (world : σ) :
    let done := op.executeRows lists first chunk world
    op.executeRows lists (first ++ [row]) chunk world = op.executeRow (lists row) row done.1 done.2 := by
  induction first generalizing chunk world with
  | nil => rfl
  | cons next rest ih => exact ih _ _

/-- The loop over the first rows: they are refreshed, the others are as they were. -/
theorem executeRows_range (chunk : DataChunk) (world : σ) {n : Nat} (hn : n ≤ chunk.count) :
    let done := op.executeRows (op.list_expr world chunk) (range n) chunk world
    done.2 = op.worldBefore chunk world n ∧
      Reads chunk.count chunk done.1 fun j col =>
        if j < n then refreshedCell (op.rowStream chunk world j) col.type (col.getValue j)
        else col.getValue j := by
  induction n with
  | zero => exact ⟨rfl, reads_self chunk.count chunk⟩
  | succ n ih =>
    obtain ⟨hworld, hreads⟩ := ih (by omega)
    have hrow := hreads.row (by omega : n < chunk.count)
    simp only [lt_self_iff_false, if_false] at hrow
    rw [range_succ]
    simp only [executeRows_append, executeRow_eq, hworld]
    -- the body sees row `n` as the child handed it on
    have hbody : (elementsOf (op.list_expr world chunk n)).map (op.correlated
        (op.executeRows (op.list_expr world chunk) (range n) chunk world).1 n) =
        op.bodyRows chunk (op.list_expr world chunk) n :=
      map_congr_left fun element _ => op.correlated_congr hrow element
    rw [hbody]
    refine ⟨(op.worldBefore_succ chunk world n).symm, ?_⟩
    have hnext := hreads.refresh hreads.1 (by omega : n < chunk.count) (op.rowStream chunk world n)
    refine ⟨hnext.1, hnext.2.imp fun col col' hcol => ⟨hcol.1, fun j hj => ?_⟩⟩
    rw [hcol.2 j hj]
    rcases Nat.lt_trichotomy j n with hlt | rfl | hgt
    · have hne : ¬ j = n := by omega
      have hlt' : j < n + 1 := by omega
      simp [hne, hlt, hlt']
    · simp
    · have hne : ¬ j = n := by omega
      have hge : ¬ j < n := by omega
      have hge' : ¬ j < n + 1 := by omega
      simp [hne, hge, hge']

/-- What is handed on, and the world the body leaves. -/
theorem executeChunk_eq (chunk : DataChunk) (world : σ) : streamRows (op.executeChunk chunk world).1 =
        (range chunk.count).map (fun row => refreshedRow (op.rowStream chunk world row) chunk row) ∧
      (op.executeChunk chunk world).2 = op.worldBefore chunk world chunk.count := by
  unfold executeChunk
  split
  next hempty => rw [hempty]; exact ⟨rfl, rfl⟩
  next =>
    obtain ⟨hworld, hreads⟩ := op.executeRows_range chunk world (le_refl chunk.count)
    refine ⟨?_, hworld⟩
    simp only [streamRows, flatMap_cons, flatMap_nil, append_nil, DataChunk.rows]
    rw [hreads.1]
    apply map_congr_left
    intro row hmem
    have hlt : row < chunk.count := mem_range.mp hmem
    rw [hreads.row hlt]
    exact map_congr_left fun col _ => if_pos hlt

end ForeachPhysicalOp

/-! ### Where the rows hold the final states -/

lemma mem_published {stream : List DataChunk} {v : Value} (h : v ∈ lastRows stream) : v ∈ published stream := by
  obtain ⟨chunk, hchunk, hv⟩ := mem_flatMap.mp h
  split at hv
  next => cases hv
  next hrows =>
    refine mem_flatten.mpr ⟨chunk.row (chunk.count - 1), ?_, hv⟩
    exact mem_flatMap.mpr ⟨chunk, hchunk, mem_map.mpr ⟨chunk.count - 1, mem_range.mpr (by omega), rfl⟩⟩

/-- The newest state the runs published for the entity of a cell comes through: it is the
newest value with the entity's id in the last rows.  Where the newest one there is of the
other kind, or there is none, the cell must have held that state before. -/
def Remembered (stream : List DataChunk) (held : Value) : Prop :=
  ∀ e, publishedEntity held = some e →
    ∀ v, newest (fun v => publishedEntity v = some e) (published stream) = some v →
      newest (fun v => entityId v = some e.2) (lastRows stream) = some v ∨
        (v = held ∧ ∀ w, newest (fun v => entityId v = some e.2) (lastRows stream) = some w →
          publishedEntity w ≠ some e)

lemma refreshedCell_eq_iff (stream : List DataChunk) (kind : BoundTypeKind) (held : Value) :
    refreshedCell stream kind held = finalCell stream kind held ↔
      (kind = .VERTEX ∨ kind = .EDGE → Remembered stream held) := by
  unfold refreshedCell finalCell
  by_cases hkind : kind ≠ .VERTEX ∧ kind ≠ .EDGE
  · rw [if_pos hkind, if_pos hkind]
    tauto
  · have hentity : kind = .VERTEX ∨ kind = .EDGE := by tauto
    rw [if_neg hkind, if_neg hkind, finalState]
    simp only [hentity, true_imp_iff, Remembered]
    cases publishedEntity held with
    | none => simp
    | some e =>
      simp only [some.injEq, forall_eq']
      cases hfinal : newest (fun v => publishedEntity v = some e) (published stream) with
      | none =>
        -- nothing was published for the entity, so nothing of it is remembered
        cases hnewest : newest (fun v => entityId v = some e.2) (lastRows stream) with
        | none => simp
        | some w =>
          have hother := newest_eq_none hfinal w (mem_published (newest_spec hnewest).1)
          simp only [decide_eq_false_iff_not] at hother
          simp [Option.filter, hother]
      | some v =>
        cases hnewest : newest (fun v => entityId v = some e.2) (lastRows stream) with
        | none => simp [eq_comm]
        | some w =>
          have hv : publishedEntity v = some e := by simpa using (newest_spec hfinal).2
          by_cases hsame : publishedEntity w = some e
          · simp [Option.filter, hsame]
          · have hne : w ≠ v := fun heq => hsame (heq ▸ hv)
            simpa [Option.filter, hsame, hne] using eq_comm

namespace ForeachPhysicalOp

/-- The body runs once per element, row by row; each row is passed on once, and its vertex
and edge columns hold the final states, exactly where these are remembered. -/
theorem executeChunk_final_iff {σ : Type} (op : ForeachPhysicalOp σ) (chunk : DataChunk) (world : σ) :
    ((op.executeChunk chunk world).2 = (op.runs ((range chunk.count).flatMap
            (op.bodyRows chunk (op.list_expr world chunk))) world).2 ∧
        streamRows (op.executeChunk chunk world).1 =
          (range chunk.count).map fun row => finalRow (op.rowStream chunk world row) chunk row) ↔
      ∀ row < chunk.count, ∀ column ∈ chunk.columns, column.type = .VERTEX ∨ column.type = .EDGE →
        Remembered (op.rowStream chunk world row) (column.getValue row) := by
  obtain ⟨hrows, hworld⟩ := op.executeChunk_eq chunk world
  rw [hrows, hworld]
  have hcells : ∀ row, refreshedRow (op.rowStream chunk world row) chunk row =
      finalRow (op.rowStream chunk world row) chunk row ↔
        ∀ column ∈ chunk.columns, column.type = .VERTEX ∨ column.type = .EDGE →
          Remembered (op.rowStream chunk world row) (column.getValue row) := by
    intro row
    rw [refreshedRow, finalRow, map_inj_left]
    exact forall₂_congr fun column _ => refreshedCell_eq_iff _ _ _
  rw [map_inj_left]
  constructor
  · rintro ⟨-, hall⟩ row hlt
    exact (hcells row).mp (hall row (mem_range.mpr hlt))
  · intro hall
    exact ⟨rfl, fun row hmem => (hcells row).mpr (hall row (mem_range.mp hmem))⟩

/-! A vertex and an edge, both with id 1, and a body that sets a label of one and the
properties of the other. -/

def vertexBefore : VertexValue := { id := 1, properties := [], labels := some [], deleted := false }

def edgeBefore : EdgeValue :=
  { id := 1, src_id := 1, dst_id := 2, label_id := 1, seq := 0, properties := none, deleted := false }

def vertexAfter : VertexValue := { vertexBefore with labels := some [1] }

def edgeAfter : EdgeValue := { edgeBefore with properties := some [] }

/-- One row: a vertex column and an edge column. -/
def vertexAndEdge (vertex : VertexValue) (edge : EdgeValue) : DataChunk :=
  { columns := [.flat ⟨.VERTEX, [some vertex], [true]⟩, .flat ⟨.EDGE, [some edge], [true]⟩]
    count := 1 }

def setBoth : ForeachPhysicalOp Unit where
  list_expr _ _ _ := .list [.int64 1]
  input_columns := [0, 1]
  body _ _ := ([vertexAndEdge vertexAfter edgeAfter], ())

/-- The edge takes the place of the vertex, and the vertex column keeps the old state. -/
theorem sharedId_stale : ¬ ((setBoth.executeChunk (vertexAndEdge vertexBefore edgeBefore) ()).2 =
          (setBoth.runs ((range 1).flatMap (setBoth.bodyRows (vertexAndEdge vertexBefore edgeBefore)
            (setBoth.list_expr () (vertexAndEdge vertexBefore edgeBefore)))) ()).2 ∧
        streamRows (setBoth.executeChunk (vertexAndEdge vertexBefore edgeBefore) ()).1 =
          (range 1).map fun row =>
            finalRow (setBoth.rowStream (vertexAndEdge vertexBefore edgeBefore) () row)
              (vertexAndEdge vertexBefore edgeBefore) row) := by
  rintro ⟨-, hrows⟩
  have hkept : streamRows (setBoth.executeChunk (vertexAndEdge vertexBefore edgeBefore) ()).1 =
      [[.vertex vertexBefore, .edge edgeAfter]] := rfl
  have hfinal : ((range 1).map fun row =>
      finalRow (setBoth.rowStream (vertexAndEdge vertexBefore edgeBefore) () row)
        (vertexAndEdge vertexBefore edgeBefore) row) = [[.vertex vertexAfter, .edge edgeAfter]] := rfl
  rw [hkept, hfinal] at hrows
  simp [vertexBefore, vertexAfter] at hrows

end ForeachPhysicalOp

end Eugraph.Dataset
