import Eugraph.Lib.Handler

/-!
# The Bolt session

`service/bolt/bolt_session.cpp`: the dispatcher `processMessage` and its message
handlers.  A request is what the PackStream decoder finds in one frame; the graph
service, the statement's result stream, the cancel flags and the clocks are the
session's environment, and every use of them is a call whose answer is not fixed here.
The conversions between engine values and PackStream values are parameters.

Log lines are left out, and a response is the list of messages it encodes.
-/

namespace Eugraph.Service

open Lib Lib.Handler

/-! ### Messages -/

/-- A decoded PackStream value; a dictionary is the list of its entries. -/
inductive PackValue
  | null
  | bool (b : Bool)
  | int (i : Int)
  | float (bits : UInt64)
  | string (s : String)
  | bytes (b : List UInt8)
  | list (items : List PackValue)
  | dict (entries : List (String × PackValue))
  | struct (tag : UInt8) (fields : List PackValue)

abbrev PackMap := List (String × PackValue)

/-- `find` followed by `holds_alternative<std::string>`. -/
def PackMap.findString (fields : PackMap) (key : String) : Option String :=
  match fields.lookup key with
  | some (.string s) => some s
  | _ => none

/-- The strings of a list; the other items are skipped. -/
def PackValue.strings : PackValue → List String
  | .list items =>
    items.filterMap fun item =>
      match item with
      | .string s => some s
      | _ => none
  | _ => []

/-- The entries of a dictionary, none when the value is something else. -/
def PackValue.entries : PackValue → PackMap
  | .dict entries => entries
  | _ => []

namespace Tags

def HELLO : UInt8 := 0x01
def GOODBYE : UInt8 := 0x02
def LOGON : UInt8 := 0x6A
def LOGOFF : UInt8 := 0x6B
def RESET : UInt8 := 0x0F
def RUN : UInt8 := 0x10
def DISCARD : UInt8 := 0x2F
def PULL : UInt8 := 0x3F
def BEGIN : UInt8 := 0x11
def COMMIT : UInt8 := 0x12
def ROLLBACK : UInt8 := 0x13
def TELEMETRY : UInt8 := 0x54
def ROUTE : UInt8 := 0x66

end Tags

open Tags

structure RunMessage where
  query : String
  parameters : PackMap
  extra : PackMap

structure PullMessage where
  n : Int := -1

structure BeginMessage where
  extra : PackMap

structure RouteMessage where
  routing : PackMap
  bookmarks : List String
  extra : PackMap

/-- A client message, as far as the dispatcher's switch takes it before a handler runs.
`malformed` carries the text of the protocol error that the switch answers itself. -/
inductive Message
  | hello (fields : PackMap)
  | logon (fields : PackMap)
  | logoff
  | run (msg : RunMessage)
  | pull (msg : PullMessage)
  | discard
  | begin (msg : BeginMessage)
  | commit
  | rollback
  | route (msg : RouteMessage)
  | telemetry
  | reset
  | goodbye
  | malformed (reason : String)

/-- A server message. -/
inductive Reply
  | success (fields : PackMap)
  | failure (code message : String)
  | record (fields : List PackValue)
  | ignored

/-! ### Errors -/

inductive QueryErrorKind
  | Syntax
  | Type
  | Argument
  | Arithmetic
  | ExecutionFailed
  deriving DecidableEq

/-- The exceptions that `makeFailureFor` tells apart. -/
inductive StdException
  | queryException (kind : QueryErrorKind) (message : String)
  | other (what : String)

/-- What the decoder throws: a `DecodeError` of its own, which nothing else throws, or an
exception of the runtime such as a failed allocation. -/
inductive DecoderException
  | decodeError (what : String)
  | std (e : StdException)

def queryErrorToken : QueryErrorKind → String
  | .Syntax => "SyntaxError"
  | .Type => "TypeError"
  | .Argument => "ArgumentError"
  | .Arithmetic => "ArithmeticError"
  | .ExecutionFailed => "ExecutionFailed"

def neo4jStatusCode : QueryErrorKind → String
  | .Syntax => "Neo.ClientError.Statement.SyntaxError"
  | .Type => "Neo.ClientError.Statement.TypeError"
  | .Argument => "Neo.ClientError.Statement.ArgumentError"
  | .Arithmetic => "Neo.ClientError.Statement.ArithmeticError"
  | .ExecutionFailed => "Neo.DatabaseError.Statement.ExecutionFailed"

/-- `std::string_view::find`: where the token first occurs in the text. -/
def findToken (token : List Char) : List Char → Option Nat
  | [] => if token.isEmpty then some 0 else none
  | c :: rest =>
    if token.isPrefixOf (c :: rest) then some 0
    else (findToken token rest).map (· + 1)

/-- The specific kind whose token occurs first; `ExecutionFailed` when none does. -/
def classifyQueryErrorMessage (message : String) : QueryErrorKind :=
  let better (best : Option Nat × QueryErrorKind) (kind : QueryErrorKind) :=
    match findToken (queryErrorToken kind).toList message.toList, best.1 with
    | none, _ => best
    | some pos, none => (some pos, kind)
    | some pos, some bestPos => if pos < bestPos then (some pos, kind) else best
  ([.Syntax, .Type, .Argument, .Arithmetic].foldl better (none, .ExecutionFailed)).2

/-- `e.what()`. -/
def StdException.what : StdException → String
  | .queryException kind message => queryErrorToken kind ++ ": " ++ message
  | .other what => what

/-- `makeFailureFor`. -/
def makeFailureFor : StdException → Reply
  | .queryException kind message => .failure (neo4jStatusCode kind) message
  | e => .failure (neo4jStatusCode (classifyQueryErrorMessage e.what)) e.what

/-! ### Decoding a request -/

/-- What the decoder finds in one frame: the structure header with its tag and field
count, then one value after the other. -/
structure Request where
  header : Except DecoderException (UInt8 × Nat)
  values : List (Except DecoderException PackValue)

/-- The result of the `i`-th `decoder.decode()`; past the last value the data has ended. -/
def Request.decode (req : Request) (i : Nat) : Except DecoderException PackValue :=
  req.values.getD i (.error (.decodeError "unexpected end of data"))

/-- The cases of the switch in `processMessage`, up to the call of the handler. -/
def decodeMessage (req : Request) : Except DecoderException Message := do
  let (tag, fieldCount) ← req.header
  if tag = HELLO then
    if fieldCount ≠ 1 then return .malformed "HELLO must have 1 field"
    match ← req.decode 0 with
    | .dict fields => return .hello fields
    | _ => return .malformed "HELLO field must be a dictionary"
  else if tag = LOGON then
    if fieldCount ≠ 1 then return .malformed "LOGON must have 1 field"
    return .logon (← req.decode 0).entries
  else if tag = LOGOFF then
    return .logoff
  else if tag = RUN then
    if fieldCount ≠ 3 then return .malformed "RUN must have 3 fields"
    match ← req.decode 0 with
    | .string query =>
      let params ← req.decode 1
      let extra ← req.decode 2
      return .run ⟨query, params.entries, extra.entries⟩
    | _ => return .malformed "RUN query must be a string"
  else if tag = PULL then
    if fieldCount ≠ 1 then return .malformed "PULL must have 1 field"
    match (← req.decode 0).entries.lookup "n" with
    | some (.int n) => return .pull ⟨n⟩
    | _ => return .pull {}
  else if tag = DISCARD then
    return .discard
  else if tag = BEGIN then
    if 1 ≤ fieldCount then return .begin ⟨(← req.decode 0).entries⟩
    return .begin ⟨[]⟩
  else if tag = COMMIT then
    return .commit
  else if tag = ROLLBACK then
    return .rollback
  else if tag = ROUTE then
    if fieldCount ≠ 3 then return .malformed "ROUTE must have 3 fields"
    let routing ← req.decode 0
    let bookmarks ← req.decode 1
    let extra ← req.decode 2
    return .route ⟨routing.entries, bookmarks.strings, extra.entries⟩
  else if tag = TELEMETRY then
    return .telemetry
  else if tag = RESET then
    return .reset
  else if tag = GOODBYE then
    return .goodbye
  else return .malformed "Unknown message type"

/-! ### The session and its environment -/

inductive SessionState
  | CONNECTING
  | READY
  | STREAMING
  | TX_READY
  | TX_STREAMING
  | FAILED
  | CLOSED
  deriving DecidableEq, Repr

/-- A batch of result rows. -/
structure DataChunk (V : Type) where
  rows : List (List V)

/-- A graph lease and a session lease of that graph's pool. -/
structure SessionScope where
  graph : String
  session : Nat
  deriving DecidableEq

/-- A prepared statement: the batches its generator will still yield, and the exception
that ends them, if one does.  `session` says whether the statement holds a session lease
of its own. -/
structure StreamContext (V : Type) where
  columns : List String
  batches : List (DataChunk V)
  failure : Option StdException
  session : Bool
  shouldCommit : Bool
  profileRequested : Bool

/-- `label_defs` and `edge_label_defs` together are one value of `D`. -/
structure CypherExecutionContext (V D : Type) where
  switchedDatabase : String
  ctx : StreamContext V
  labelDefs : D

/-- What the session asks of its environment. -/
inductive EnvCall (V : Type)
  | beginSession (db : String)
  | executeCypher (query : String) (params : List (String × V)) (db : String)
      (txn : Option SessionScope)
  | next
  | streamCancelled
  | commitAsync
  | rollbackStream
  | commitSession (scope : SessionScope)
  | rollbackSession (scope : SessionScope)
  | finalizeProfile
  | nextBookmark
  | elapsedMs
  | rearmCancel

/-- A generator step answers nothing: the batch itself is in the stream context. -/
def Answer (V D : Type) : EnvCall V → Type
  | .beginSession _ => Except StdException (Option SessionScope)
  | .executeCypher _ _ _ _ => Except StdException (CypherExecutionContext V D)
  | .streamCancelled => Bool
  | .commitAsync | .commitSession _ => Except StdException Bool
  | .finalizeProfile => PackMap
  | .nextBookmark => Nat
  | .elapsedMs => Int
  | .next | .rollbackStream | .rollbackSession _ | .rearmCancel => Unit

/-- The conversions of `bolt_value_mapping.cpp`. -/
structure ValueMapping (V D : Type) where
  boltParamToValue : PackValue → Except StdException V
  valueToBolt : D → UInt32 → V → PackValue
  noDefs : D

/-- The fields of `BoltSession` that the handlers use. -/
structure BoltSession (V D : Type) where
  state : SessionState
  negotiatedVersion : UInt32
  streamCtx : Option (StreamContext V)
  pendingChunk : Option (DataChunk V)
  pendingRow : Nat
  labelDefs : D
  inTransaction : Bool
  explicitTxn : Option SessionScope
  currentDatabase : String
  authScheme : String
  authPrincipal : String
  nextBookmarkFn : Bool
  receivedBookmarks : List String
  boltPort : Nat

/-- The session of a new connection, after the version handshake. -/
def BoltSession.initial {V D : Type} (vm : ValueMapping V D) (version : UInt32)
    (nextBookmarkFn : Bool) (boltPort : Nat) : BoltSession V D where
  state := .CONNECTING
  negotiatedVersion := version
  streamCtx := none
  pendingChunk := none
  pendingRow := 0
  labelDefs := vm.noDefs
  inTransaction := false
  explicitTxn := none
  currentDatabase := "default"
  authScheme := ""
  authPrincipal := ""
  nextBookmarkFn := nextBookmarkFn
  receivedBookmarks := []
  boltPort := boltPort

abbrev BoltM (V D : Type) := Handler (EnvCall V) (Answer V D) StdException (BoltSession V D)

namespace BoltSession

variable {V D : Type} (vm : ValueMapping V D)

/-! ### Calls to the environment -/

def env (c : EnvCall V) : BoltM V D (Answer V D c) := ask c

def beginSession (db : String) : BoltM V D (Option SessionScope) := do
  fromExcept (← env (.beginSession db))

def executeCypher (query : String) (params : List (String × V)) (db : String)
    (txn : Option SessionScope) : BoltM V D (CypherExecutionContext V D) := do
  fromExcept (← env (.executeCypher query params db txn))

def commitSession (scope : SessionScope) : BoltM V D Bool := do
  fromExcept (← env (.commitSession scope))

def rollbackSession (scope : SessionScope) : BoltM V D Unit := env (.rollbackSession scope)

def streamCancelled : BoltM V D Bool := env .streamCancelled

def elapsedMs : BoltM V D Int := env .elapsedMs

def finalizeProfile : BoltM V D PackMap := env .finalizeProfile

def setState (state : SessionState) : BoltM V D Unit :=
  modify fun s => { s with state := state }

/-! ### Streams -/

/-- `StreamContext::rollback`. -/
def rollbackStream (ctx : StreamContext V) : BoltM V D Unit := do
  if ctx.session then
    let _ ← env .rollbackStream
    return ()

/-- `StreamContext::commitAsync`. -/
def commitAsync (ctx : StreamContext V) : BoltM V D Bool := do
  if ¬ ctx.session ∨ ¬ ctx.shouldCommit then return true
  fromExcept (← env .commitAsync)

def endStream : BoltM V D Unit :=
  modify fun s => { s with pendingChunk := none, pendingRow := 0, streamCtx := none }

/-- A dropped statement that would have committed is rolled back. -/
def rollbackUnfinished : Option (StreamContext V) → BoltM V D Unit
  | some ctx => if ctx.session ∧ ctx.shouldCommit then rollbackStream ctx else pure ()
  | none => pure ()

/-- `if (explicit_txn_)`: roll its session back and return the lease. -/
def rollbackExplicitTxn : BoltM V D Unit := do
  match (← get).explicitTxn with
  | some scope =>
    rollbackSession scope
    modify fun s => { s with explicitTxn := none }
  | none => pure ()

def abandonStream (rollbackExplicit : Bool) : BoltM V D Unit := do
  let ctx := (← get).streamCtx
  endStream
  rollbackUnfinished ctx
  if rollbackExplicit then
    rollbackExplicitTxn
    modify fun s => { s with inTransaction := false }

/-- Back to the ready state of the kind the stream was in. -/
def leaveStreaming : BoltM V D Unit :=
  modify fun s => { s with state := if s.state = .TX_STREAMING then .TX_READY else .READY }

/-! ### Handshake and authentication -/

/-- What the two authenticating handlers check of a scheme and the message's fields:
the text of the rejection, or `none`. -/
def authError (scheme : String) (fields : PackMap) : Option String :=
  if scheme = "" then none
  else if scheme ≠ "basic" then some "Only BASIC auth is supported"
  else if (fields.findString "credentials").getD "" ≠ "eugraph" then some "Invalid credentials"
  else none

def unauthorized : String := "Neo.ClientError.Security.Unauthorized"

def protocolError (message : String) : BoltM V D (List Reply) :=
  return [.failure "ProtocolError" message]

def handleHello (fields : PackMap) : BoltM V D (List Reply) := do
  if (← get).state ≠ .CONNECTING then
    return ← protocolError "Unexpected HELLO in current state"
  modify fun s => { s with
    currentDatabase := (fields.findString "db").getD s.currentDatabase
    authScheme := (fields.findString "scheme").getD s.authScheme }
  let scheme := (← get).authScheme
  if scheme = "basic" then
    modify fun s => { s with authPrincipal := (fields.findString "principal").getD "" }
  match authError scheme fields with
  | some message => return [.failure unauthorized message]
  | none =>
    setState .READY
    return [.success [("server", .string "Neo4j/EuGraph-1.0"),
      ("connection_id", .string "bolt-1")]]

def handleLogon (fields : PackMap) : BoltM V D (List Reply) := do
  let s ← get
  if s.state = .FAILED then return [.ignored]
  match authError ((fields.findString "scheme").getD s.authScheme) fields with
  | some message => return [.failure unauthorized message]
  | none => return [.success []]

def handleLogoff : BoltM V D (List Reply) := do
  if (← get).state = .FAILED then return [.ignored]
  return [.success []]

/-! ### Statements -/

/-- The string items of the bookmarks entry. -/
def bookmarksOf (extra : PackMap) : List String :=
  match extra.lookup "bookmarks" with
  | some v => v.strings
  | none => []

/-- The session of the explicit transaction, opened at its first statement. -/
def transactionSession (db : String) : BoltM V D (Option SessionScope) := do
  let s ← get
  if s.inTransaction then
    match s.explicitTxn with
    | some scope => return some scope
    | none =>
      match ← beginSession db with
      | none => throw (StdException.other "Failed to begin explicit transaction")
      | some scope =>
        modify fun s => { s with explicitTxn := some scope }
        return some scope
  else return none

/-- The guarded part of `handleRun`. -/
def runStatement (msg : RunMessage) (params : List (String × V)) : BoltM V D (List Reply) := do
  let db := (msg.extra.findString "db").getD (← get).currentDatabase
  modify fun s => { s with receivedBookmarks := bookmarksOf msg.extra }
  let txn ← transactionSession db
  let exec ← executeCypher msg.query params db txn
  if exec.switchedDatabase ≠ "" then
    modify fun s => { s with currentDatabase := exec.switchedDatabase }
  abandonStream false
  modify fun s => { s with streamCtx := some exec.ctx, labelDefs := exec.labelDefs }
  let tFirst ← elapsedMs
  modify fun s => { s with state := if s.state = .TX_READY then .TX_STREAMING else .STREAMING }
  return [.success [("fields", .list (exec.ctx.columns.map .string)), ("t_first", .int tFirst)]]

/-- A failed statement invalidates the explicit transaction. -/
def runFailed (e : StdException) : BoltM V D (List Reply) := do
  if (← get).explicitTxn.isSome then
    rollbackExplicitTxn
    modify fun s => { s with inTransaction := false }
  setState .FAILED
  return [makeFailureFor e]

def handleRun (msg : RunMessage) : BoltM V D (List Reply) := do
  let s ← get
  if s.state = .FAILED then return [.ignored]
  if s.state ≠ .READY ∧ s.state ≠ .TX_READY then
    return ← protocolError "Unexpected RUN in current state"
  -- The parameters are converted outside the try block.
  let params ← fromExcept (msg.parameters.mapM fun (key, val) => do
    return (key, ← vm.boltParamToValue val))
  tryCatch (runStatement msg params) runFailed

/-! ### Pulling records -/

/-- What one PULL has gathered so far, and why its loop ended. -/
structure Pulled where
  records : List Reply := []
  fetched : Nat := 0
  exhausted : Bool := false
  disconnected : Bool := false

/-- The loop condition: a negative limit means no limit. -/
def Pulled.wants (p : Pulled) (limit : Int) : Prop := limit < 0 ∨ (p.fetched : Int) < limit

instance (p : Pulled) (limit : Int) : Decidable (p.wants limit) :=
  inferInstanceAs (Decidable (_ ∨ _))

/-- The rows of a chunk from `row` on that still fit the limit. -/
def rowsToSend (limit : Int) (fetched : Nat) (chunk : DataChunk V) (row : Nat) : List (List V) :=
  let rest := chunk.rows.drop row
  if limit < 0 then rest else rest.take (limit.toNat - fetched)

/-- Serialise rows of the chunk at hand; an unfinished chunk is kept for the next PULL. -/
def emitRows (limit : Int) (chunk : DataChunk V) (row : Nat) (p : Pulled) : BoltM V D Pulled := do
  let s ← get
  let rows := rowsToSend limit p.fetched chunk row
  let row' := row + rows.length
  if chunk.rows.length ≤ row' then
    modify fun s => { s with pendingChunk := none, pendingRow := 0 }
  else
    modify fun s => { s with pendingChunk := some chunk, pendingRow := row' }
  return { p with
    records := p.records ++ rows.map fun r =>
      .record (r.map (vm.valueToBolt s.labelDefs s.negotiatedVersion))
    fetched := p.fetched + rows.length }

/-- The loop of `handlePull` from a point where no chunk is pending. -/
def pullBatches (limit : Int) (failure : Option StdException) :
    List (DataChunk V) → Pulled → BoltM V D Pulled
  | [], p => do
      if ¬ p.wants limit then return p
      if ← streamCancelled then return { p with disconnected := true }
      let _ ← env .next
      match failure with
      | some e => throw e
      | none => return { p with exhausted := true }
  | chunk :: rest, p => do
      if ¬ p.wants limit then return p
      if ← streamCancelled then return { p with disconnected := true }
      let _ ← env .next
      modify fun s => { s with streamCtx := s.streamCtx.map fun ctx => { ctx with batches := rest } }
      pullBatches limit failure rest (← emitRows vm limit chunk 0 p)

/-- The whole loop: the rows left over by the last PULL come first. -/
def pullLoop (limit : Int) (ctx : StreamContext V) : BoltM V D Pulled := do
  let s ← get
  match s.pendingChunk with
  | none => pullBatches vm limit ctx.failure ctx.batches {}
  | some chunk =>
    if ¬ ({} : Pulled).wants limit then return {}
    if ← streamCancelled then return { disconnected := true }
    pullBatches vm limit ctx.failure ctx.batches (← emitRows vm limit chunk s.pendingRow {})

/-- The metadata entry of a new bookmark, where one is wanted. -/
def bookmarkEntry (wanted : Bool) : BoltM V D PackMap := do
  if wanted then
    let n : Nat ← env .nextBookmark
    return [("bookmark", .string ("eugraph:bookmark:" ++ toString n))]
  return []

/-- The metadata entries of a requested profile. -/
def profileEntries (requested : Bool) : BoltM V D PackMap := do
  if requested then return ← finalizeProfile
  return []

/-- Commit a drained auto-commit statement; explicit transactions commit at COMMIT. -/
def commitDrained (inTxn : Bool) (ctx : StreamContext V) : BoltM V D Bool :=
  if ¬ inTxn ∧ ctx.shouldCommit then commitAsync ctx else return true

/-- An aborted statement is rolled back, and with it the explicit transaction. -/
def pullAborted (ctx : StreamContext V) (reason : String) : BoltM V D (List Reply) := do
  endStream
  rollbackStream ctx
  rollbackExplicitTxn
  modify fun s => { s with inTransaction := false, state := .FAILED }
  return [.failure "DatabaseError" reason]

/-- A drained result: the stream is dropped, then its own transaction is committed. -/
def pullDrained (ctx : StreamContext V) (p : Pulled) (fields : PackMap) :
    BoltM V D (List Reply) := do
  let inTxn := (← get).inTransaction
  endStream
  if ¬ (← commitDrained inTxn ctx) then
    return [.failure "DatabaseError" "Transaction commit failed (storage engine error)"]
  let profile ← profileEntries ctx.profileRequested
  let bookmark ← bookmarkEntry (ctx.shouldCommit && (← get).nextBookmarkFn)
  leaveStreaming
  return p.records ++
    [.success (fields ++ profile ++ [("has_more", .bool false)] ++ bookmark)]

/-- The guarded part of `handlePull`. -/
def pullStream (limit : Int) (ctx : StreamContext V) : BoltM V D (List Reply) := do
  let p ← pullLoop vm limit ctx
  let tFirst ← elapsedMs
  let tLast ← elapsedMs
  let fields : PackMap := [("type", .string "r"), ("t_first", .int tFirst), ("t_last", .int tLast)]
  if p.disconnected then pullAborted ctx "client disconnected"
  else if ← streamCancelled then pullAborted ctx "query cancelled"
  else if ¬ p.exhausted then
    return p.records ++ [.success (fields ++ [("has_more", .bool true)])]
  else pullDrained ctx p fields

def pullFailed (e : StdException) : BoltM V D (List Reply) := do
  setState .FAILED
  abandonStream false
  return [makeFailureFor e]

def handlePull (msg : PullMessage) : BoltM V D (List Reply) := do
  let s ← get
  if s.state = .FAILED then return [.ignored]
  if s.state ≠ .STREAMING ∧ s.state ≠ .TX_STREAMING then
    return ← protocolError "Unexpected PULL in current state"
  match s.streamCtx with
  | none =>
    leaveStreaming
    return [.success [("type", .string "r")]]
  | some ctx => tryCatch (pullStream vm msg.n ctx) pullFailed

def handleDiscard : BoltM V D (List Reply) := do
  if (← get).state = .FAILED then return [.ignored]
  abandonStream false
  leaveStreaming
  return [.success []]

/-! ### Explicit transactions -/

def handleBegin (msg : BeginMessage) : BoltM V D (List Reply) := do
  let s ← get
  if s.state = .FAILED then return [.ignored]
  if s.state ≠ .READY then return ← protocolError "Unexpected BEGIN in current state"
  modify fun s => { s with
    receivedBookmarks := bookmarksOf msg.extra
    currentDatabase := (msg.extra.findString "db").getD s.currentDatabase
    inTransaction := true
    state := .TX_READY }
  return [.success []]

/-- Commit the explicit transaction, if a statement opened it, and return its lease. -/
def commitExplicitTxn : BoltM V D Bool := do
  match (← get).explicitTxn with
  | some scope =>
    let committed ← commitSession scope
    modify fun s => { s with explicitTxn := none }
    return committed
  | none => return true

def handleCommit : BoltM V D (List Reply) := do
  let s ← get
  if s.state = .FAILED then return [.ignored]
  if s.state ≠ .TX_READY then return ← protocolError "Unexpected COMMIT in current state"
  let committed ← commitExplicitTxn
  modify fun s => { s with inTransaction := false, state := .READY }
  if ¬ committed then return [.failure "DatabaseError" "COMMIT failed (storage engine error)"]
  return [.success (← bookmarkEntry s.nextBookmarkFn)]

def handleRollback : BoltM V D (List Reply) := do
  let s ← get
  if s.state = .FAILED then return [.ignored]
  if s.state ≠ .TX_READY then return ← protocolError "Unexpected ROLLBACK in current state"
  rollbackExplicitTxn
  modify fun s => { s with inTransaction := false, state := .READY }
  return [.success []]

/-! ### Routing and connection control -/

/-- One row of the routing table. -/
def makeServer (address role : String) : PackValue :=
  .dict [("addresses", .list [.string address]), ("role", .string role)]

def handleRoute (msg : RouteMessage) : BoltM V D (List Reply) := do
  let s ← get
  if s.state = .FAILED then return [.ignored]
  if s.state ≠ .READY ∧ s.state ≠ .CONNECTING then
    return ← protocolError "Unexpected ROUTE in current state"
  let address :=
    match msg.routing.findString "address" with
    | some candidate => if candidate ≠ "" then candidate else "localhost:" ++ toString s.boltPort
    | none => "localhost:" ++ toString s.boltPort
  return [.success [("rt", .dict [
    ("servers", .list [makeServer address "WRITE", makeServer address "READ",
      makeServer address "ROUTE"]),
    ("ttl", .int 3600),
    ("db", .string ((msg.extra.findString "db").getD s.currentDatabase))])]]

def handleReset : BoltM V D (List Reply) := do
  abandonStream true
  let _ ← env .rearmCancel
  modify fun s => { s with inTransaction := false, state := .READY }
  return [.success []]

def handleGoodbye : BoltM V D (List Reply) := do
  abandonStream true
  setState .CLOSED
  return []

/-! ### The dispatcher -/

def dispatch : Message → BoltM V D (List Reply)
  | .hello fields => handleHello fields
  | .logon fields => handleLogon fields
  | .logoff => handleLogoff
  | .run msg => handleRun vm msg
  | .pull msg => handlePull vm msg
  | .discard => handleDiscard
  | .begin msg => handleBegin msg
  | .commit => handleCommit
  | .rollback => handleRollback
  | .route msg => handleRoute msg
  | .telemetry => return [.success []]
  | .reset => handleReset
  | .goodbye => handleGoodbye
  | .malformed reason => protocolError reason

/-- The second catch clause of `processMessage`. -/
def sessionError (e : StdException) : BoltM V D (List Reply) := do
  setState .FAILED
  return [makeFailureFor e]

def processMessage (req : Request) : BoltM V D (List Reply) :=
  match decodeMessage req with
  | .error (.decodeError what) => protocolError what
  | .error (.std e) => sessionError e
  | .ok msg => tryCatch (dispatch vm msg) sessionError

/-! ### What the parts of the handlers ensure -/

section Rules

variable {vm} {ok : (c : EnvCall V) → Answer V D c → Prop} {s : BoltSession V D}

@[simp] lemma ensures_env (c : EnvCall V) {Q : Except StdException (Answer V D c) → BoltSession V D → Prop} :
    Ensures ok (env c) s Q ↔ ∀ r, ok c r → Q (.ok r) s := Iff.rfl

@[simp] lemma ensures_streamCancelled {Q : Except StdException Bool → BoltSession V D → Prop} :
    Ensures ok streamCancelled s Q ↔ ∀ b, ok .streamCancelled b → Q (.ok b) s := Iff.rfl

@[simp] lemma ensures_elapsedMs {Q : Except StdException Int → BoltSession V D → Prop} :
    Ensures ok elapsedMs s Q ↔ ∀ t, ok .elapsedMs t → Q (.ok t) s := Iff.rfl

variable {Q : Except StdException Unit → BoltSession V D → Prop}

@[simp] lemma ensures_setState (state : SessionState) :
    Ensures ok (setState state) s Q ↔ Q (.ok ()) { s with state := state } := Iff.rfl

@[simp] lemma ensures_beginSession (db : String)
    {Q : Except StdException (Option SessionScope) → BoltSession V D → Prop} :
    Ensures ok (beginSession db) s Q ↔ ∀ r, ok (.beginSession db) r → Q r s := by
  rw [beginSession, ensures_bind, ensures_env]
  exact forall_congr' fun r => imp_congr_right fun _ => ensures_fromExcept r

@[simp] lemma ensures_executeCypher (query : String) (params : List (String × V)) (db : String)
    (txn : Option SessionScope)
    {Q : Except StdException (CypherExecutionContext V D) → BoltSession V D → Prop} :
    Ensures ok (executeCypher query params db txn) s Q ↔ ∀ r, ok (.executeCypher query params db txn) r → Q r s := by
  rw [executeCypher, ensures_bind, ensures_env]
  exact forall_congr' fun r => imp_congr_right fun _ => ensures_fromExcept r

@[simp] lemma ensures_commitSession (scope : SessionScope) {Q : Except StdException Bool → BoltSession V D → Prop} :
    Ensures ok (commitSession scope) s Q ↔ ∀ r, ok (.commitSession scope) r → Q r s := by
  rw [commitSession, ensures_bind, ensures_env]
  exact forall_congr' fun r => imp_congr_right fun _ => ensures_fromExcept r

@[simp] lemma ensures_protocolError (message : String)
    {Q : Except StdException (List Reply) → BoltSession V D → Prop} :
    Ensures ok (protocolError message) s Q ↔ Q (.ok [.failure "ProtocolError" message]) s := Iff.rfl

lemma rollbackStream_ensures (ctx : StreamContext V)
    (h : Q (.ok ()) s) :
    Ensures ok (rollbackStream ctx) s Q := by
  simp [rollbackStream, h]

lemma rollbackUnfinished_ensures (ctx : Option (StreamContext V))
    (h : Q (.ok ()) s) :
    Ensures ok (rollbackUnfinished ctx) s Q := by
  cases ctx with
  | none => exact h
  | some ctx =>
    rw [rollbackUnfinished, ensures_ite]
    exact ⟨fun _ => rollbackStream_ensures ctx h, fun _ => h⟩

lemma rollbackExplicitTxn_ensures
    (h : Q (.ok ()) { s with explicitTxn := none }) : Ensures ok rollbackExplicitTxn s Q := by
  cases htxn : s.explicitTxn with
  | none =>
    simp only [rollbackExplicitTxn, ensures_bind, ensures_get, htxn, ensures_pure]
    rw [← htxn] at h
    exact h
  | some scope =>
    simp only [rollbackExplicitTxn, ensures_bind, ensures_get, htxn]
    exact fun _ _ => h

lemma bookmarkEntry_ensures (wanted : Bool)
    {Q : Except StdException PackMap → BoltSession V D → Prop} (h : ∀ entries, Q (.ok entries) s) :
    Ensures ok (bookmarkEntry wanted) s Q := by
  rw [bookmarkEntry, ensures_ite]
  exact ⟨fun _ n _ => h _, fun _ => h _⟩

lemma profileEntries_ensures (requested : Bool)
    {Q : Except StdException PackMap → BoltSession V D → Prop} (h : ∀ entries, Q (.ok entries) s) :
    Ensures ok (profileEntries requested) s Q := by
  rw [profileEntries, ensures_ite]
  exact ⟨fun _ entries _ => h entries, fun _ => h _⟩

/-- What is left of a session whose stream is dropped, with or without its explicit
transaction. -/
def withoutStream (s : BoltSession V D) (rollbackExplicit : Bool) : BoltSession V D :=
  { s with
    pendingChunk := none
    pendingRow := 0
    streamCtx := none
    explicitTxn := if rollbackExplicit then none else s.explicitTxn
    inTransaction := if rollbackExplicit then false else s.inTransaction }

lemma abandonStream_ensures (rollbackExplicit : Bool)
    (h : Q (.ok ()) (s.withoutStream rollbackExplicit)) :
    Ensures ok (abandonStream rollbackExplicit) s Q := by
  rw [abandonStream]
  simp only [ensures_bind, ensures_get, endStream, ensures_modify]
  apply rollbackUnfinished_ensures
  cases rollbackExplicit with
  | false => simpa [withoutStream] using h
  | true =>
    simp only [if_true, ensures_bind]
    apply rollbackExplicitTxn_ensures
    exact h

/-- Both sessions are at the same point of the protocol; stream and metadata may differ. -/
structure SameControl (s s' : BoltSession V D) : Prop where
  state : s'.state = s.state
  inTransaction : s'.inTransaction = s.inTransaction
  explicitTxn : s'.explicitTxn = s.explicitTxn

lemma SameControl.refl (s : BoltSession V D) : SameControl s s := ⟨rfl, rfl, rfl⟩

lemma SameControl.trans {s s' s'' : BoltSession V D} (h : SameControl s s')
    (h' : SameControl s' s'') : SameControl s s'' :=
  ⟨h'.state.trans h.state, h'.inTransaction.trans h.inTransaction, h'.explicitTxn.trans h.explicitTxn⟩

/-- What a PULL has gathered is RECORD messages. -/
def Pulled.OnlyRecords (p : Pulled) : Prop := ∀ r ∈ p.records, ∃ fields, r = Reply.record fields

/-- The loop of PULL moves the stream and gathers records; it does nothing else. -/
def PullsFrom (s : BoltSession V D) (r : Except StdException Pulled) (s' : BoltSession V D) : Prop :=
  SameControl s s' ∧ ∀ p, r = .ok p → p.OnlyRecords

lemma emitRows_ensures (limit : Int) (chunk : DataChunk V) (row : Nat) {p : Pulled}
    (hp : p.OnlyRecords) : Ensures ok (emitRows vm limit chunk row p) s (PullsFrom s) := by
  have hrecords : ∀ rows : List (List V), ({ p with
      records := p.records ++ rows.map fun r =>
        .record (r.map (vm.valueToBolt s.labelDefs s.negotiatedVersion))
      fetched := p.fetched + rows.length } : Pulled).OnlyRecords := by
    intro rows r hr
    rcases List.mem_append.mp hr with hr | hr
    · exact hp r hr
    · obtain ⟨row, -, rfl⟩ := List.mem_map.mp hr
      exact ⟨_, rfl⟩
  simp only [emitRows, ensures_bind, ensures_get, ensures_ite, ensures_modify, ensures_pure]
  constructor
  · intro _
    refine ⟨⟨rfl, rfl, rfl⟩, fun q hq => ?_⟩
    obtain rfl := Except.ok.inj hq
    exact hrecords _
  · intro _
    refine ⟨⟨rfl, rfl, rfl⟩, fun q hq => ?_⟩
    obtain rfl := Except.ok.inj hq
    exact hrecords _

/-- A loop that gathers no more keeps what it has. -/
theorem PullsFrom.stop {p q : Pulled} (hp : p.OnlyRecords) (hq : q.records = p.records) : PullsFrom s (.ok q) s := by
  refine ⟨.refl s, fun q' h => ?_⟩
  obtain rfl := Except.ok.inj h
  exact fun r hr => hp r (hq ▸ hr)

lemma PullsFrom.throw (e : StdException) : PullsFrom s (.error e) s := ⟨.refl s, fun _ h => nomatch h⟩

lemma PullsFrom.after {s s' : BoltSession V D} (h : SameControl s s')
    {r : Except StdException Pulled} {s'' : BoltSession V D} (h' : PullsFrom s' r s'') :
    PullsFrom s r s'' :=
  ⟨h.trans h'.1, h'.2⟩

lemma pullBatches_ensures (limit : Int) (failure : Option StdException)
    (batches : List (DataChunk V)) {p : Pulled} (hp : p.OnlyRecords) :
    Ensures ok (pullBatches vm limit failure batches p) s (PullsFrom s) := by
  induction batches generalizing s p with
  | nil =>
    simp only [pullBatches, ensures_bind, ensures_ite, ensures_streamCancelled, ensures_pure, ensures_env]
    refine ⟨fun _ => .stop hp rfl, fun _ b _ => ⟨fun _ => .stop hp rfl, fun _ _ _ => ?_⟩⟩
    cases failure with
    | none => exact PullsFrom.stop hp rfl
    | some e => exact PullsFrom.throw e
  | cons chunk rest ih =>
    simp only [pullBatches, ensures_bind, ensures_ite, ensures_streamCancelled, ensures_pure,
      ensures_env, ensures_modify]
    refine ⟨fun _ => .stop hp rfl, fun _ b _ => ⟨fun _ => .stop hp rfl, fun _ _ _ => ?_⟩⟩
    apply (emitRows_ensures limit chunk 0 hp).mono
    intro r s' h
    have hcontrol : SameControl s s' := ⟨h.1.state, h.1.inTransaction, h.1.explicitTxn⟩
    cases r with
    | error e => exact (PullsFrom.throw e).after hcontrol
    | ok q => exact (ih (h.2 q rfl)).mono fun _ _ h' => h'.after hcontrol

lemma pullLoop_ensures (limit : Int) (ctx : StreamContext V) :
    Ensures ok (pullLoop vm limit ctx) s (PullsFrom s) := by
  have hnone : Pulled.OnlyRecords {} := fun r hr => nomatch hr
  cases hpending : s.pendingChunk with
  | none =>
    simp only [pullLoop, ensures_bind, ensures_get, hpending]
    exact pullBatches_ensures limit _ _ hnone
  | some chunk =>
    simp only [pullLoop, ensures_bind, ensures_get, hpending, ensures_ite, ensures_streamCancelled, ensures_pure]
    refine ⟨fun _ => .stop hnone rfl, fun _ b _ => ⟨fun _ => .stop hnone rfl, fun _ => ?_⟩⟩
    apply (emitRows_ensures limit chunk s.pendingRow hnone).mono
    intro r s' h
    cases r with
    | error e => exact (PullsFrom.throw e).after h.1
    | ok q => exact (pullBatches_ensures limit _ _ (h.2 q rfl)).mono fun _ _ h' => h'.after h.1

end Rules

end BoltSession

end Eugraph.Service
