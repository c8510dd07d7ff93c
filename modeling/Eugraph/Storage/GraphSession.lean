import Eugraph.Storage.IndexMaintenance

/-!
# Transactions of a `GraphSession`

The transaction state machine (`TxnController`), the sticky error and
`GraphSession::commit`, and the table calls of `wt_table_ops` under an engine whose
calls may fail.  A call through the `GraphSession` records its failure; a call through
the bare `WT_SESSION*` only returns it.
-/

namespace Eugraph

open Lib Wt DataStore

/-! ### Error codes and outcomes -/

/-- What a WiredTiger call returns. -/
inductive WtCode
  | ok
  | busy
  | rollback
  | cacheOverflow
  | panic
  | notFound
  | other (code : Int)
  deriving DecidableEq

inductive TxnKind
  | None
  | Read
  | Write
  deriving DecidableEq

inductive TxnState
  | None
  | Active
  | Committed
  | RolledBack
  | Failed
  deriving DecidableEq

inductive TxnErrorClass
  | None
  | Busy
  | Rollback
  | CacheOverflow
  | Panic
  | Unknown
  deriving DecidableEq

def classifyWtError : WtCode → TxnErrorClass
  | .ok => .None
  | .busy => .Busy
  | .rollback => .Rollback
  | .cacheOverflow => .CacheOverflow
  | .panic => .Panic
  | .notFound => .Unknown
  | .other _ => .Unknown

def describeWtError : WtCode → String
  | .ok => "success"
  | .busy => "WT_BUSY (retryable)"
  | .rollback => "WT_ROLLBACK (transaction invalidated)"
  | .cacheOverflow => "WT_CACHE_OVERFLOW (transaction too large)"
  | .panic => "WT_PANIC (storage engine is shutting down)"
  | .notFound => "WT_NOTFOUND"
  | .other _ => "WiredTiger error"

def isRetryable (errorClass : TxnErrorClass) : Bool := errorClass = .Busy

def poisonsSession : TxnErrorClass → Bool
  | .Rollback | .CacheOverflow | .Panic | .Unknown => true
  | .None | .Busy => false

structure TxnOutcome where
  state : TxnState
  wtError : WtCode
  message : String
  errorClass : TxnErrorClass
  deriving DecidableEq

namespace TxnOutcome

def committed (out : TxnOutcome) : Bool := out.state = .Committed

def failed (out : TxnOutcome) : Bool := out.state = .Failed

/-- A failure that was not classified counts as `Unknown`. -/
def effectiveErrorClass (out : TxnOutcome) : TxnErrorClass :=
  if out.failed ∧ out.errorClass = .None then .Unknown else out.errorClass

def retryable (out : TxnOutcome) : Bool := out.failed && isRetryable out.effectiveErrorClass

end TxnOutcome

/-- The first failure of a transaction, if there was one. -/
abbrev StickyError := Option TxnOutcome

def StickyError.set (err : StickyError) (out : TxnOutcome) : StickyError :=
  if err.isNone ∧ out.failed then some out else err

/-! ### The transaction state machine -/

structure TxnController where
  state : TxnState
  kind : TxnKind
  txnOpen : Bool
  deriving DecidableEq

namespace TxnController

def fresh : TxnController := ⟨.None, .None, false⟩

def begin (t : TxnController) (kind : TxnKind) : Option TxnController :=
  if t.state = .Active ∨ t.state = .Failed ∨ t.txnOpen then none else some ⟨.Active, kind, true⟩

def commitRequest (t : TxnController) : Option TxnKind :=
  if t.state ≠ .Active ∨ !t.txnOpen then none else some t.kind

def onCommitResult (t : TxnController) (out : TxnOutcome) : TxnController :=
  if !t.txnOpen then { t with state := .Failed, kind := .None }
  else
    ⟨if out.committed then .Committed else if out.retryable then .RolledBack else .Failed,
      .None, false⟩

def onRollback (t : TxnController) : TxnController :=
  ⟨if t.state = .Active then .RolledBack else t.state, .None, false⟩

def poison (t : TxnController) : TxnController := { t with state := .Failed, kind := .None }

end TxnController

/-! ### `GraphSession` -/

/-- The transaction calls of a `WT_SESSION`. -/
inductive TxnCall
  | beginTransaction
  | commitTransaction
  | rollbackTransaction
  deriving DecidableEq

/-- A session over a live `WT_SESSION`, with the transaction calls it has made. -/
structure GraphSession where
  txn : TxnController
  err : StickyError
  calls : List (TxnCall × WtCode)

namespace GraphSession

def fresh : GraphSession := ⟨.fresh, none, []⟩

def fail (gs : GraphSession) (errorClass : TxnErrorClass) (wtError : WtCode) (message : String) :
    GraphSession :=
  { gs with
    err := gs.err.set ⟨.Failed, wtError, message, errorClass⟩
    txn := if poisonsSession errorClass then gs.txn.poison else gs.txn }

def failFromWt (gs : GraphSession) (wtError : WtCode) (message : String) : GraphSession :=
  gs.fail (classifyWtError wtError) wtError message

/-- `begin`; `ret` is what `begin_transaction` returns. -/
def begin (gs : GraphSession) (kind : TxnKind) (ret : WtCode) : Bool × GraphSession :=
  if gs.txn.state = .Failed then (false, gs)
  else
    match gs.txn.begin kind with
    | none => (false, gs)
    | some txn =>
      let calls := gs.calls ++ [(.beginTransaction, ret)]
      if ret = .ok then (true, ⟨txn, none, calls⟩)
      else
        let failed : TxnOutcome := ⟨.Failed, ret, "begin_transaction failed", classifyWtError ret⟩
        let closed := txn.onRollback
        (false, ⟨if classifyWtError ret = .Panic then closed.poison else closed, some failed,
          calls⟩)

def rollback (gs : GraphSession) (ret : WtCode) : GraphSession :=
  if gs.txn.txnOpen then
    let calls := gs.calls ++ [(.rollbackTransaction, ret)]
    if ret = .ok then { gs with txn := gs.txn.onRollback, calls := calls }
    else
      ⟨gs.txn.poison, gs.err.set ⟨.Failed, ret,
        "rollback_transaction failed: " ++ describeWtError ret, classifyWtError ret⟩, calls⟩
  else { gs with txn := gs.txn.onRollback }

/-- `commit`; the codes are what `commit_transaction` and `rollback_transaction` return. -/
def commit (gs : GraphSession) (ret rollbackRet : WtCode) : TxnOutcome × GraphSession :=
  match gs.err with
  | some first =>
    (⟨.Failed, first.wtError, "commit refused after earlier failure: " ++ first.message,
      first.effectiveErrorClass⟩, gs.rollback rollbackRet)
  | none =>
    match gs.txn.commitRequest with
    | none =>
      let out : TxnOutcome := ⟨.Failed, .ok, "commit without active transaction", .None⟩
      (out, { gs with err := gs.err.set out })
    | some _ =>
      let out : TxnOutcome :=
        if ret = .ok then ⟨.Committed, .ok, "", .None⟩
        else ⟨.Failed, ret, describeWtError ret, classifyWtError ret⟩
      (out, ⟨gs.txn.onCommitResult out, gs.err.set out,
        gs.calls ++ [(.commitTransaction, ret)]⟩)

/-- `commit_transaction` has succeeded. -/
def backendCommitted (gs : GraphSession) : Prop := (TxnCall.commitTransaction, WtCode.ok) ∈ gs.calls

instance (gs : GraphSession) : Decidable gs.backendCommitted := List.instDecidableMemOfLawfulBEq _ _

end GraphSession

/-! ### Table calls that may fail -/

def TableName.name : TableName → String
  | .vertexData => "table:vertex_data"
  | .edgeIndex => "table:edge_index"
  | .vertexExistence => "table:vertex_existence"
  | .vertexSummary => "table:vertex_summary"
  | .labelFwdTable id => "table:label_fwd_" ++ toString id.toNat
  | .etypeTable id => "table:etype_" ++ toString id.toNat
  | .epropTable id => "table:eprop_" ++ toString id.toNat
  | .vidxTableById indexId => "table:vidx_" ++ toString indexId.toNat
  | .eidxTable labelId propIds => "table:eidx_" ++ toString labelId.toNat ++
      String.join (propIds.map fun pid => "_" ++ toString pid.toNat)

/-- What the engine does for one table call: the code of opening the cursor, the code of
the operation, and how many rows a scan delivers before its code. -/
structure Fault where
  openCursor : WtCode
  operation : WtCode
  rows : Nat
  deriving DecidableEq

/-- Nothing goes wrong. -/
def Fault.none : Fault := ⟨.ok, .ok, 0⟩

namespace StoreCall

def via : StoreCall → Via
  | .put via .. => via
  | .get via .. => via
  | .del via .. => via
  | .scan via .. => via
  | .dropTable _ => .raw

def isWrite : StoreCall → Bool
  | .put .. => true
  | .del .. => true
  | _ => false

/-- `table_put` and the like, for messages. -/
def verb : StoreCall → String
  | .put .. => "table_put"
  | .get .. => "table_get"
  | .del .. => "table_del"
  | .scan .. => "table_scan"
  | .dropTable _ => "drop"

def table : StoreCall → TableName
  | .put _ table _ _ => table
  | .get _ table _ => table
  | .del _ table _ => table
  | .scan _ table _ => table
  | .dropTable table => table

/-- The operation's code is an error; `not found` is none, except on a put. -/
def operationFailed (c : StoreCall) (code : WtCode) : Bool :=
  match c with
  | .put .. => code ≠ .ok
  | _ => code ≠ .ok ∧ code ≠ .notFound

def failed (c : StoreCall) (f : Fault) : Bool :=
  f.openCursor ≠ .ok ∨ c.operationFailed f.operation

/-- The error a failed call through the session records. -/
def recordFailure (c : StoreCall) (f : Fault) (gs : GraphSession) : GraphSession :=
  if f.openCursor ≠ .ok then
    gs.failFromWt f.openCursor (c.verb ++ ": cannot open cursor on " ++ c.table.name)
  else gs.failFromWt f.operation (c.verb ++ " failed on " ++ c.table.name)

/-- The answer of a call that failed; a scan has delivered some rows before. -/
def failedAnswer (c : StoreCall) (f : Fault) (s : Store) : c.Answer :=
  match c with
  | .put .. => false
  | .get .. => none
  | .del .. => false
  | .scan _ table pre => if f.openCursor ≠ .ok then [] else (prefixRecords (s table) pre).take f.rows
  | .dropTable _ => false

end StoreCall

/-- The state of a transaction under way: the rows it sees, its session and the calls
made so far with what the engine did, the latest first. -/
structure TxnRun where
  store : Store
  session : GraphSession
  log : List (StoreCall × Fault)

/-- One table call, with the engine behaving by plan. -/
def TxnRun.answer (plan : Nat → Fault) (c : StoreCall) (r : TxnRun) : c.Answer × TxnRun :=
  let f := plan r.log.length
  let log := (c, f) :: r.log
  if c.failed f then
    (c.failedAnswer f r.store,
      ⟨r.store, if c.via = .session then c.recordFailure f r.session else r.session, log⟩)
  else ((Store.answer c r.store).1, ⟨(Store.answer c r.store).2, r.session, log⟩)

/-! ### Operations inside one transaction -/

/-- The operations of the data store that take a `GraphSession`. -/
inductive DataOp
  | insertVertex (vid : VertexId) (labelProps : LabelProps)
  | deleteVertex (vid : VertexId)
  | putVertexProperty (vid : VertexId) (labelId : LabelId) (propId : PropId) (value : PropertyValue)
  | putVertexProperties (vid : VertexId) (labelId : LabelId) (props : Properties)
  | deleteVertexProperty (vid : VertexId) (labelId : LabelId) (propId : PropId)
  | addVertexLabel (vid : VertexId) (labelId : LabelId)
  | removeVertexLabel (vid : VertexId) (labelId : LabelId)
  | getVertexLabels (vid : VertexId)
  | insertEdge (e : EdgeRef) (props : Properties)
  | deleteEdge (e : EdgeRef)
  | putEdgeProperty (labelId : EdgeLabelId) (eid : EdgeId) (propId : PropId) (value : PropertyValue)
  | deleteEdgeProperty (labelId : EdgeLabelId) (eid : EdgeId) (propId : PropId)
  | scanEdges (vid : VertexId) (direction : Direction) (labelFilter : Option EdgeLabelId)
  | countDegree (vid : VertexId) (direction : Direction) (labelFilter : Option EdgeLabelId)
  | insertIndexEntry (table : TableName) (values : List PropertyValue) (entityId : UInt64)
      (payload : Bytes)
  | deleteIndexEntry (table : TableName) (values : List PropertyValue) (entityId : UInt64)
  | checkUniqueConstraint (table : TableName) (values : List PropertyValue)
  | batchInsertVertices (defs : LabelDefs) (entries : List BatchVertexEntry)
  | batchInsertEdges (defs : EdgeLabelDefs) (labelId : EdgeLabelId)
      (entries : List BatchEdgeEntry)

/-- The calls an operation makes; what it returns is left to the caller to look at. -/
def DataOp.program (capacity : UInt32) : DataOp → StoreM Unit
  | .insertVertex vid labelProps => do let _ ← DataStore.insertVertex capacity vid labelProps
  | .deleteVertex vid => do let _ ← DataStore.deleteVertex vid
  | .putVertexProperty vid labelId propId value => do
      let _ ← DataStore.putVertexProperty vid labelId propId value
  | .putVertexProperties vid labelId props => do
      let _ ← DataStore.putVertexProperties vid labelId props
  | .deleteVertexProperty vid labelId propId => do
      let _ ← DataStore.deleteVertexProperty vid labelId propId
  | .addVertexLabel vid labelId => do let _ ← DataStore.addVertexLabel vid labelId
  | .removeVertexLabel vid labelId => do let _ ← DataStore.removeVertexLabel vid labelId
  | .getVertexLabels vid => do let _ ← DataStore.getVertexLabels vid
  | .insertEdge e props => do let _ ← DataStore.insertEdge capacity e props
  | .deleteEdge e => do let _ ← DataStore.deleteEdge capacity e
  | .putEdgeProperty labelId eid propId value => do
      let _ ← DataStore.putEdgeProperty labelId eid propId value
  | .deleteEdgeProperty labelId eid propId => do
      let _ ← DataStore.deleteEdgeProperty labelId eid propId
  | .scanEdges vid direction labelFilter => do
      let _ ← DataStore.scanEdges capacity vid direction labelFilter
  | .countDegree vid direction labelFilter => do
      let _ ← DataStore.countDegree capacity vid direction labelFilter
  | .insertIndexEntry table values entityId payload => do
      let _ ← DataStore.insertIndexEntry table values entityId payload
  | .deleteIndexEntry table values entityId => do
      let _ ← DataStore.deleteIndexEntry table values entityId
  | .checkUniqueConstraint table values => do
      let _ ← DataStore.checkUniqueConstraint table values
  | .batchInsertVertices defs entries => DataStore.batchInsertVertices capacity defs entries
  | .batchInsertEdges defs labelId entries =>
    DataStore.batchInsertEdges capacity defs labelId entries

namespace TxnRun

/-- A write transaction that has just begun on a fresh session. -/
def begun (store : Store) : TxnRun := ⟨store, (GraphSession.fresh.begin .Write .ok).2, []⟩

/-- A sequence of operations, whatever they return. -/
def runOps (plan : Nat → Fault) (capacity : UInt32) (ops : List DataOp) (r : TxnRun) : TxnRun :=
  ((Program.forEach (DataOp.program capacity) ops).run (TxnRun.answer plan) r).2

/-- Some put or remove has failed. -/
def writeFailed (r : TxnRun) : Bool := r.log.any fun e => e.1.isWrite && e.1.failed e.2

/-- Some put or remove through the bare `WT_SESSION*` has failed. -/
def rawWriteFailed (r : TxnRun) : Bool :=
  r.log.any fun e => e.1.isWrite && e.1.failed e.2 && e.1.via = .raw

/-- Some call through the `GraphSession` has failed, a read or a write. -/
def sessionCallFailed (r : TxnRun) : Bool :=
  r.log.any fun e => e.1.failed e.2 && e.1.via = .session

/-- The sticky error is set exactly by failed session calls; without it the transaction
is active, and nothing has been committed. -/
structure Inv (r : TxnRun) : Prop where
  sticky : r.session.err.isSome = r.sessionCallFailed
  active : r.session.err = none → r.session.txn.state = .Active ∧ r.session.txn.txnOpen = true
  uncommitted : ¬ r.session.backendCommitted

lemma inv_begun (store : Store) : (begun store).Inv :=
  ⟨rfl, fun _ => ⟨rfl, rfl⟩, by
    change (TxnCall.commitTransaction, WtCode.ok) ∉ [(TxnCall.beginTransaction, WtCode.ok)]
    decide⟩

lemma failFromWt_err (gs : GraphSession) (code : WtCode) (message : String) :
    (gs.failFromWt code message).err.isSome = true := by
  cases herr : gs.err with
  | none => simp [GraphSession.failFromWt, GraphSession.fail, StickyError.set, herr, TxnOutcome.failed]
  | some first => simp [GraphSession.failFromWt, GraphSession.fail, StickyError.set, herr]

lemma recordFailure_err (c : StoreCall) (f : Fault) (gs : GraphSession) :
    (c.recordFailure f gs).err.isSome = true := by
  unfold StoreCall.recordFailure
  split
  · exact failFromWt_err gs _ _
  · exact failFromWt_err gs _ _

lemma recordFailure_calls (c : StoreCall) (f : Fault) (gs : GraphSession) :
    (c.recordFailure f gs).calls = gs.calls := by
  unfold StoreCall.recordFailure
  split
  · rfl
  · rfl

/-- One table call keeps the invariant, whatever the engine does. -/
theorem inv_answer (plan : Nat → Fault) (c : StoreCall) (r : TxnRun) (h : r.Inv) : (r.answer plan c).2.Inv := by
  unfold answer
  by_cases hfailed : c.failed (plan r.log.length)
  · simp only [hfailed, if_true]
    by_cases hvia : c.via = .session
    · simp only [hvia, if_true]
      refine ⟨?_, ?_, ?_⟩
      · simp [sessionCallFailed, recordFailure_err, hfailed, hvia]
      · intro hnone
        have hsome := recordFailure_err c (plan r.log.length) r.session
        rw [hnone] at hsome
        exact absurd hsome (by simp)
      · rw [GraphSession.backendCommitted, recordFailure_calls]
        exact h.uncommitted
    · simp only [hvia, if_false]
      refine ⟨?_, h.active, h.uncommitted⟩
      rw [h.sticky]
      simp [sessionCallFailed, hvia]
  · rw [if_neg hfailed]
    refine ⟨?_, h.active, h.uncommitted⟩
    rw [h.sticky]
    simp [sessionCallFailed, hfailed]

lemma inv_runOps (plan : Nat → Fault) (capacity : UInt32) (ops : List DataOp) {r : TxnRun}
    (h : r.Inv) : (r.runOps plan capacity ops).Inv :=
  Program.run_preserves (TxnRun.answer plan) (inv_answer plan) _ h

/-- `commit` commits exactly a transaction without a sticky error. -/
theorem commit_backendCommitted_iff {r : TxnRun} (h : r.Inv) (ret rollbackRet : WtCode) :
    (r.session.commit ret rollbackRet).2.backendCommitted ↔ r.sessionCallFailed = false ∧ ret = .ok := by
  rw [← h.sticky]
  have hopen := h.uncommitted
  unfold GraphSession.backendCommitted at hopen ⊢
  cases herr : r.session.err with
  | some first =>
    have hcalls : (TxnCall.commitTransaction, WtCode.ok) ∉ (r.session.rollback rollbackRet).calls := by
      unfold GraphSession.rollback
      split
      · simp only
        split
        · simpa using hopen
        · simpa using hopen
      · exact hopen
    simp [GraphSession.commit, herr, hcalls]
  | none =>
    obtain ⟨hactive, htxn⟩ := h.active herr
    have hrequest : r.session.txn.commitRequest = some r.session.txn.kind := by
      simp [TxnController.commitRequest, hactive, htxn]
    simp [GraphSession.commit, herr, hrequest, hopen, eq_comm]

/-- Without a failed session call, every failed write went through the bare session. -/
theorem writeFailed_eq_rawWriteFailed {r : TxnRun} (h : r.sessionCallFailed = false) :
    r.writeFailed = r.rawWriteFailed := by
  rw [Bool.eq_iff_iff]
  simp only [sessionCallFailed, List.any_eq_false, Bool.and_eq_true, decide_eq_true_eq, not_and] at h
  simp only [writeFailed, rawWriteFailed, List.any_eq_true, Bool.and_eq_true, decide_eq_true_eq]
  constructor
  · rintro ⟨e, he, hwrite, hfailed⟩
    have hvia := h e he hfailed
    cases hcase : e.1.via with
    | session => exact absurd hcase hvia
    | raw => exact ⟨e, he, ⟨hwrite, hfailed⟩, hcase⟩
  · rintro ⟨e, he, ⟨hwrite, hfailed⟩, -⟩
    exact ⟨e, he, hwrite, hfailed⟩

/-- A failed write keeps the transaction from being committed exactly if no write through
the bare session failed, or a call through the `GraphSession` failed as well, or
`commit_transaction` itself fails. -/
theorem failedWrite_blocks_commit_iff (store : Store) (capacity : UInt32) (ops : List DataOp)
    (plan : Nat → Fault) (ret rollbackRet : WtCode) :
    (((begun store).runOps plan capacity ops).writeFailed = true →
      ¬ (((begun store).runOps plan capacity ops).session.commit ret rollbackRet).2.backendCommitted) ↔
      ((begun store).runOps plan capacity ops).rawWriteFailed = false ∨
      ((begun store).runOps plan capacity ops).sessionCallFailed = true ∨ ret ≠ .ok := by
  have hinv := inv_runOps plan capacity ops (inv_begun store)
  rw [commit_backendCommitted_iff hinv]
  cases hsession : ((begun store).runOps plan capacity ops).sessionCallFailed with
  | true => simp
  | false =>
    rw [writeFailed_eq_rawWriteFailed hsession]
    cases ((begun store).runOps plan capacity ops).rawWriteFailed with
    | true => simp
    | false => simp

/-- The engine reports `WT_CACHE_OVERFLOW` on the third table call. -/
def thirdCallFails (n : Nat) : Fault := if n = 2 then ⟨.ok, .cacheOverflow, 0⟩ else .none

/-- `batchInsertEdges` of one edge: the row of its destination's side is not written,
and the transaction is committed. -/
theorem lostAdjacencyRow_committed :
    let r := (begun Store.empty).runOps thirdCallFails 0
      [.batchInsertEdges (fun _ => none) 1 [⟨7, 1, 2, 0, []⟩]]
    r.writeFailed = true ∧ (r.session.commit .ok .ok).1.committed = true ∧
      (r.session.commit .ok .ok).2.backendCommitted ∧
      ¬ (r.writeFailed = true → ¬ (r.session.commit .ok .ok).2.backendCommitted) := by
  decide +kernel

end TxnRun

end Eugraph
