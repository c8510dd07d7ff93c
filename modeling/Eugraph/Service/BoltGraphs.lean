import Eugraph.Service.BoltLeases

/-!
# The graph of an explicit transaction

Which graph a statement runs on, and with whose session.  `GraphService::executeCypher`
resolves the graph from the database name it is given and hands the session of the explicit
transaction to that graph's executor; the session was taken from the pool of the graph that
the first statement of the transaction named.  Nothing compares the two.
-/

namespace Eugraph.Service

open Lib Lib.Handler BoltSession List Tags

variable {V D : Type}

/-! ### Database statements -/

inductive DatabaseDdlStatement
  | CREATE_DATABASE (name : String)
  | DROP_DATABASE (name : String)
  | SHOW_DATABASES
  | SHOW_DATABASE (name : String)
  | SHOW_PROCEDURES
  | SHOW_FUNCTIONS
  | SHOW_CURRENT_USER
  | SHOW_VECTOR_INDEXES
  | USE_GRAPH (name : String)
  | DESCRIBE_LABELS
  | DESCRIBE_RELATIONSHIPS
  | DESCRIBE_LABEL (name : String)
  | DESCRIBE_RELATIONSHIP (name : String)
  deriving DecidableEq

namespace DatabaseDdlParser

/-- `isspace` of the C locale. -/
def isSpace (c : Char) : Bool :=
  c = ' ' || c = '\t' || c = '\n' || c = '\x0b' || c = '\x0c' || c = '\r'

/-- The maximal runs of characters that are no white space. -/
def tokenize (s : List Char) : List (List Char) := (s.splitOnP isSpace).filter (· ≠ [])

def toUpper (token : List Char) : String := String.ofList (token.map Char.toUpper)

/-- The tokens joined by single blanks, less one layer of backticks around the whole. -/
def joinQuotedName (tokens : List (List Char)) : String :=
  let name := (tokens.intersperse [' ']).flatten
  if 2 ≤ name.length ∧ name.head? = some '\x60' ∧ name.getLast? = some '\x60' then
    String.ofList (name.tail.dropLast)
  else String.ofList name

/-- The statement after DESCRIBE; a singular form needs a name. -/
def parseDescribe : List (List Char) → Option DatabaseDdlStatement
  | [] => none
  | target :: names =>
    match toUpper target with
    | "LABELS" => some .DESCRIBE_LABELS
    | "RELATIONSHIPS" => some .DESCRIBE_RELATIONSHIPS
    | "RELATIONSHIP" | "REL" =>
      if names = [] then none else some (.DESCRIBE_RELATIONSHIP (joinQuotedName names))
    | "LABEL" => if names = [] then none else some (.DESCRIBE_LABEL (joinQuotedName names))
    | _ => none

/-- `DatabaseDdlParser::tryParse`. -/
def tryParse (query : String) : Option DatabaseDdlStatement :=
  match tokenize query.toList with
  | [] => none
  | first :: rest =>
    match toUpper first, rest with
    | "CREATE", second :: name :: _ =>
      if toUpper second = "DATABASE" then some (.CREATE_DATABASE (String.ofList name)) else none
    | "DROP", second :: name :: _ =>
      if toUpper second = "DATABASE" then some (.DROP_DATABASE (String.ofList name)) else none
    | "SHOW", second :: rest =>
      match toUpper second, rest with
      | "DATABASES", _ => some .SHOW_DATABASES
      | "DATABASE", name :: _ => some (.SHOW_DATABASE (String.ofList name))
      | "PROCEDURES", _ => some .SHOW_PROCEDURES
      | "FUNCTIONS", _ => some .SHOW_FUNCTIONS
      | "CURRENT", third :: _ => if toUpper third = "USER" then some .SHOW_CURRENT_USER else none
      | "VECTOR", third :: _ =>
        if toUpper third = "INDEXES" then some .SHOW_VECTOR_INDEXES else none
      | _, _ => none
    | "USE", name :: _ => some (.USE_GRAPH (String.ofList name))
    | "DESCRIBE", rest | "DESC", rest => parseDescribe rest
    | _, _ => none

example : tryParse "  use  other" = some (.USE_GRAPH "other") := by decide +kernel

example : tryParse "CREATE (n)" = none := by decide +kernel

end DatabaseDdlParser

/-! ### Where a statement runs -/

open DatabaseDdlParser

/-- The graph a database name stands for: the home databases of the clients are aliases of
the default graph. -/
def resolveGraph (name : String) : String :=
  if name = "neo4j" ∨ name = "system" then "default" else name

/-- What the graph service answers while the graphs `graphs` can be acquired: the session
is one of the graph that the name stands for, and a statement on a graph that is not there is
an error.  A database statement needs neither. -/
def ServiceAnswers (graphs : List String) : (c : EnvCall V) → Answer V D c → Prop
  | .beginSession db, (r : Except StdException (Option SessionScope)) =>
    ∀ scope, r = .ok (some scope) → scope.graph = resolveGraph db
  | .executeCypher query _ db _, (r : Except StdException (CypherExecutionContext V D)) =>
    tryParse query = none → resolveGraph db ∉ graphs → r.isOk = false
  | _, _ => True

/-- A statement that was executed in an explicit transaction ran on the graph whose pool the
transaction's session is from. -/
def OnOneGraph : BoltEvent V D → Prop
  | ⟨.executeCypher query _ db (some scope), (r : Except StdException (CypherExecutionContext V D))⟩ =>
    tryParse query = none → r.isOk = true → resolveGraph db = scope.graph
  | _ => True

instance : DecidablePred (OnOneGraph : BoltEvent V D → Prop)
  | ⟨.executeCypher query _ db (some scope), (r : Except StdException (CypherExecutionContext V D))⟩ =>
    inferInstanceAs (Decidable (tryParse query = none → r.isOk = true →
      resolveGraph db = scope.graph))
  | ⟨.executeCypher _ _ _ none, _⟩ | ⟨.beginSession _, _⟩ | ⟨.next, _⟩ | ⟨.streamCancelled, _⟩
  | ⟨.commitAsync, _⟩ | ⟨.rollbackStream, _⟩ | ⟨.commitSession _, _⟩ | ⟨.rollbackSession _, _⟩
  | ⟨.finalizeProfile, _⟩ | ⟨.nextBookmark, _⟩ | ⟨.elapsedMs, _⟩ | ⟨.rearmCancel, _⟩ => isTrue trivial

/-- The database a RUN names: its own entry, or the session's current one. -/
def RunMessage.database (msg : RunMessage) (s : BoltSession V D) : String :=
  (msg.extra.findString "db").getD s.currentDatabase

/-- A statement sent while the transaction has a session names the graph of that session, or
no graph at all. -/
def StaysOnGraph (graphs : List String) (s : BoltSession V D) (msg : RunMessage) : Prop :=
  s.inTransaction = true → ∀ scope ∈ s.explicitTxn,
    tryParse msg.query = none → resolveGraph (msg.database s) ∈ graphs →
      resolveGraph (msg.database s) = scope.graph

instance (graphs : List String) (s : BoltSession V D) (msg : RunMessage) :
    Decidable (StaysOnGraph graphs s msg) :=
  inferInstanceAs (Decidable (s.inTransaction = true → ∀ scope ∈ s.explicitTxn,
    tryParse msg.query = none → resolveGraph (msg.database s) ∈ graphs →
      resolveGraph (msg.database s) = scope.graph))

/-- The condition on a request: only a RUN that is accepted can leave the graph. -/
def RequestStays (graphs : List String) (s : BoltSession V D) (req : Request) : Prop :=
  match decodeMessage req with
  | .ok (.run msg) => s.state = .READY ∨ s.state = .TX_READY → StaysOnGraph graphs s msg
  | _ => True

instance (graphs : List String) (s : BoltSession V D) (req : Request) :
    Decidable (RequestStays graphs s req) := by
  unfold RequestStays
  split <;> infer_instance

lemma NoStatement.onOneGraph {e : BoltEvent V D} (h : NoStatement e.1) : OnOneGraph e := by
  obtain ⟨c, r⟩ := e
  cases c with
  | executeCypher => exact h.elim
  | _ => trivial

section Statements

variable {vm : ValueMapping V D} {s : BoltSession V D} {graphs : List String}

/-- Every statement of the transcript ran on the transaction's graph. -/
def AllOnOneGraph (es : List (BoltEvent V D)) : Prop := ∀ e ∈ es, OnOneGraph e

lemma AllOnOneGraph.append {es es' : List (BoltEvent V D)} (h : AllOnOneGraph es)
    (h' : AllOnOneGraph es') : AllOnOneGraph (es ++ es') := by
  intro e he
  rcases mem_append.mp he with he | he
  · exact h e he
  · exact h' e he

lemma allOnOneGraph_nil : AllOnOneGraph ([] : List (BoltEvent V D)) := fun _ he => nomatch he

lemma allOnOneGraph_singleton {e : BoltEvent V D} (h : OnOneGraph e) : AllOnOneGraph [e] := by
  intro e' he'
  rw [mem_singleton.mp he']
  exact h

/-- With the session of the transaction, the statement runs on that session's graph or fails. -/
theorem transactionSession_yields {msg : RunMessage} (hstays : StaysOnGraph graphs s msg) {t : BoltSession V D}
    (htxn : t.inTransaction = s.inTransaction ∧ t.explicitTxn = s.explicitTxn) :
    Yields (ServiceAnswers graphs) (transactionSession (msg.database s)) t fun r _ es =>
      AllOnOneGraph es ∧ ∀ txn, r = .ok txn → ∀ (params : List (String × V))
        (answer : Answer V D (.executeCypher msg.query params (msg.database s) txn)),
        ServiceAnswers graphs _ answer → OnOneGraph (⟨_, answer⟩ : BoltEvent V D) := by
  rw [transactionSession]
  simp only [yields_bind, yields_get, yields_ite, nil_append]
  constructor
  · intro hin
    cases hscope : t.explicitTxn with
    | some scope =>
      refine ⟨allOnOneGraph_nil, ?_⟩
      rintro _ ⟨⟩ params answer hanswer hquery hok
      -- a graph that is not there answers with an error
      apply hstays (htxn.1 ▸ hin) scope (htxn.2 ▸ hscope) hquery
      by_contra habsent
      exact Bool.noConfusion (hok.symm.trans (hanswer hquery habsent))
    | none =>
      dsimp only
      rw [yields_bind]
      refine (yields_beginSession _).mpr ?_
      intro r hr
      cases r with
      | error e => exact ⟨allOnOneGraph_singleton trivial, fun _ h => by cases h⟩
      | ok begun =>
        cases begun with
        | none => exact ⟨allOnOneGraph_singleton trivial, fun _ h => by cases h⟩
        | some scope =>
          dsimp only
          rw [yields_bind, yields_modify]
          refine ⟨allOnOneGraph_singleton trivial, ?_⟩
          rintro _ ⟨⟩ params answer _ _ _
          exact (hr scope rfl).symm
  · intro _
    refine ⟨allOnOneGraph_nil, ?_⟩
    rintro _ ⟨⟩ params answer _
    trivial

/-! ### Statements of the transaction -/

/-- A part without a statement adds nothing to check. -/
theorem allOnOneGraph_of_settles {P : List Reply → Prop} {m : BoltM V D (List Reply)} {es : List (BoltEvent V D)}
    {ok : (c : EnvCall V) → Answer V D c → Prop} (h : SettlesWith ok P m s)
    (hes : AllOnOneGraph es) : Yields ok m s fun _ _ es' => AllOnOneGraph (es ++ es') :=
  h.mono fun _ _ _ hs => hes.append fun e he => (hs.1.calls e he).onOneGraph

/-- The part of a RUN after its statement was prepared. -/
theorem runStatement_yields {msg : RunMessage} (hstays : StaysOnGraph graphs s msg) (params : List (String × V)) :
    Yields (ServiceAnswers graphs) (BoltSession.runStatement msg params) s fun _ _ es =>
      AllOnOneGraph es := by
  rw [BoltSession.runStatement]
  simp only [yields_bind, yields_get, yields_modify, nil_append]
  have hsession := transactionSession_yields hstays
    (t := { s with receivedBookmarks := bookmarksOf msg.extra }) ⟨rfl, rfl⟩
  refine hsession.mono ?_
  rintro r t es ⟨hes, htxn⟩
  cases r with
  | error e => exact hes
  | ok txn =>
    refine (yields_executeCypher ..).mpr ?_
    intro r hr
    have hcall := hes.append (allOnOneGraph_singleton (htxn txn rfl params r hr))
    cases r with
    | error e => exact hcall
    | ok exec =>
      simp only [← append_assoc]
      exact allOnOneGraph_of_settles (Settles.ite (Settles.bind (Settles.modify rfl) fun _ _ =>
        adopted_settles exec) (adopted_settles exec)) hcall

lemma handleRun_yields {msg : RunMessage}
    (hstays : s.state = .READY ∨ s.state = .TX_READY → StaysOnGraph graphs s msg) :
    Yields (ServiceAnswers graphs) (handleRun vm msg) s fun _ _ es => AllOnOneGraph es := by
  rw [handleRun]
  simp only [yields_bind, yields_get, yields_ite, yields_pure, nil_append]
  refine ⟨fun _ => allOnOneGraph_nil, fun _ => ⟨fun _ => ?_, fun haccepts => ?_⟩⟩
  · exact allOnOneGraph_nil
  · refine (yields_fromExcept _).mpr ?_
    generalize List.mapM (m := Except StdException) _ msg.parameters = converted
    cases converted with
    | error e => exact allOnOneGraph_nil
    | ok params =>
      simp only [nil_append]
      rw [yields_tryCatch]
      refine (runStatement_yields (hstays (by tauto)) params).mono ?_
      intro r t es hes
      cases r with
      | ok replies => exact hes
      | error e => exact allOnOneGraph_of_settles (runFailed_settles e) hes

/-- What one request executes runs on the transaction's graph. -/
theorem exchange_allOnOneGraph {a : BoltAction V D}
    (hserved : ∀ e ∈ (exchange vm s a).events, ServiceAnswers graphs e.1 e.2)
    (hstays : RequestStays graphs s a.req) : AllOnOneGraph (exchange vm s a).events := by
  have hprocess : Yields (ServiceAnswers graphs) (processMessage vm a.req) s fun _ _ es =>
      AllOnOneGraph es := by
    rw [processMessage]
    split
    · exact allOnOneGraph_nil
    · exact allOnOneGraph_nil
    · rename_i msg hdecode
      have hdispatch : Yields (ServiceAnswers graphs) (dispatch vm msg) s fun _ _ es =>
          AllOnOneGraph es := by
        by_cases hrun : ∃ m, msg = .run m
        · obtain ⟨m, rfl⟩ := hrun
          rw [RequestStays, hdecode] at hstays
          exact handleRun_yields hstays
        · exact allOnOneGraph_of_settles (Settles.dispatch fun m hm => hrun ⟨m, hm⟩) allOnOneGraph_nil
      rw [yields_tryCatch]
      refine hdispatch.mono ?_
      intro r t es hes
      cases r with
      | ok replies => exact hes
      | error e => exact hes.append allOnOneGraph_nil
  exact Program.Yields.exchange hprocess hserved

end Statements

/-! ### Runs -/

/-- A request, the service that answers its calls, and the graphs that can be acquired while
it is processed. -/
structure GraphAction (V D : Type) extends BoltAction V D where
  graphs : List String

/-- A session with everything it has asked of the graph service so far. -/
structure GraphRun (V D : Type) where
  session : BoltSession V D
  log : List (BoltEvent V D)

namespace GraphRun

def initial (vm : ValueMapping V D) (version : UInt32) (nextBookmarkFn : Bool) (boltPort : Nat) :
    GraphRun V D :=
  ⟨.initial vm version nextBookmarkFn boltPort, []⟩

def next (vm : ValueMapping V D) (run : GraphRun V D) (a : GraphAction V D) : GraphRun V D :=
  let x := exchange vm run.session a.toBoltAction
  ⟨x.session, run.log ++ x.events⟩

def step (vm : ValueMapping V D) (run : GraphRun V D) (a : GraphAction V D) :
    Option (GraphRun V D) :=
  some (run.next vm a)

end GraphRun

open GraphRun

/-- The calls of the request are answered as the graph service answers them. -/
def Served (vm : ValueMapping V D) (run : GraphRun V D) (a : GraphAction V D) : Prop :=
  ∀ e ∈ (exchange vm run.session a.toBoltAction).events, ServiceAnswers a.graphs e.1 e.2

/-- The request is served, and a RUN stays on the graph of the open transaction. -/
def GraphGuard (vm : ValueMapping V D) (run : GraphRun V D) (a : GraphAction V D) : Prop :=
  Served vm run a ∧ RequestStays a.graphs run.session a.req

/-- In every run whose statements name the graph that the open transaction's session is from,
every statement executed in an explicit transaction ran on the graph of its session. -/
theorem transaction_on_one_graph (vm : ValueMapping V D) (version : UInt32)
    (nextBookmarkFn : Bool) (boltPort : Nat) (run : GraphRun V D)
    (h : Reaches (step vm) (GraphGuard vm) (.initial vm version nextBookmarkFn boltPort) run) :
    ∀ e ∈ run.log, OnOneGraph e := by
  apply h.invariant fun run => AllOnOneGraph run.log
  · exact allOnOneGraph_nil
  · intro run a run' hlog hguard hstep
    obtain rfl := Option.some.inj hstep
    exact hlog.append (exchange_allOnOneGraph hguard.1 hguard.2)

/-- What is done on a graph of the name, or the error of `resolveGraph`. -/
def onGraph {α : Type} (graphs : List String) (db : String) (answer : Except StdException α) :
    Except StdException α :=
  if resolveGraph db ∈ graphs then answer
  else .error (.other ("Graph not found or being dropped: " ++ db))

/-- The service of `oneRowService` on the graphs `graphs`. -/
def graphService (graphs : List String) : Program.Oracle (EnvCall Int) (Answer Int Unit)
  | _, .beginSession db => onGraph graphs db (.ok (some ⟨resolveGraph db, 0⟩))
  | n, .executeCypher query params db txn =>
    match tryParse query with
    | some _ => oneRowService n (.executeCypher query params db txn)
    | none => onGraph graphs db (oneRowService n (.executeCypher query params db txn))
  | n, c => oneRowService n c

lemma graphService_statement {graphs : List String} {query : String}
    (hquery : tryParse query = none) (n : Nat) (params : List (String × Int))
    (db : String) (txn : Option SessionScope) :
    graphService graphs n (.executeCypher query params db txn) =
      onGraph graphs db (oneRowService n (.executeCypher query params db txn)) := by
  show (match tryParse query with
    | some _ => oneRowService n (.executeCypher query params db txn)
    | none => onGraph graphs db (oneRowService n (.executeCypher query params db txn))) = _
  rw [hquery]

lemma graphService_answers (graphs : List String) (n : Nat) (c : EnvCall Int) :
    ServiceAnswers graphs c (graphService graphs n c) := by
  generalize hanswer : graphService graphs n c = answer
  cases c with
  | beginSession db =>
    intro scope hscope
    have hbegun := hanswer.trans hscope
    change onGraph graphs db _ = _ at hbegun
    rw [onGraph] at hbegun
    split at hbegun
    · obtain rfl := Option.some.inj (Except.ok.inj hbegun)
      rfl
    · exact nomatch hbegun
  | executeCypher query params db txn =>
    intro hquery hgraph
    have herror : answer = .error (.other ("Graph not found or being dropped: " ++ db)) :=
      hanswer.symm.trans ((graphService_statement hquery ..).trans (if_neg hgraph))
    rw [herror]
    rfl
  | _ => trivial

/-- A well-formed request of the given tag, on a server with the graphs default and other. -/
def graphFrame (tag : UInt8) (values : List PackValue) : GraphAction Int Unit :=
  ⟨⟨(frame tag values).req, graphService ["default", "other"]⟩, ["default", "other"]⟩

lemma served_graphFrame (tag : UInt8) (values : List PackValue) (run : GraphRun Int Unit) :
    Served integerMapping run (graphFrame tag values) :=
  Program.exchange_answered (graphService_answers ["default", "other"]) _

/-- HELLO, BEGIN, a statement and its rows, and a second statement on the database `db`. -/
def secondStatementOn (db : String) : List (GraphAction Int Unit) :=
  [graphFrame HELLO [.dict []], graphFrame BEGIN [],
    graphFrame RUN [.string "RETURN 1", .dict [], .dict []], graphFrame PULL [.dict []],
    graphFrame RUN [.string "RETURN 1", .dict [], .dict [("db", .string db)]]]

def newGraphRun : GraphRun Int Unit := .initial integerMapping 0x0501 true 7687

/-- A statement inside an explicit transaction. -/
def inTransaction : BoltEvent Int Unit → Bool
  | ⟨.executeCypher _ _ _ (some _), _⟩ => true
  | _ => false

/-- The name neo4j stands for the default graph, so both statements run there. -/
theorem transaction_on_one_graph_alias :
    let run := (secondStatementOn "neo4j").foldl (GraphRun.next integerMapping) newGraphRun
    run.log.countP inTransaction = 2 ∧ ∀ e ∈ run.log, OnOneGraph e := by
  refine ⟨by decide +kernel, transaction_on_one_graph integerMapping 0x0501 true 7687 _ ?_⟩
  have hstep : ∀ (run : GraphRun Int Unit) (tag : UInt8) (values : List PackValue),
      RequestStays ["default", "other"] run.session (graphFrame tag values).req →
      GraphGuard integerMapping run (graphFrame tag values) :=
    fun run tag values hstays => ⟨served_graphFrame tag values run, hstays⟩
  have hstart : Reaches (step integerMapping) (GraphGuard integerMapping) newGraphRun newGraphRun := .start
  have hhello := hstart.next (hstep _ HELLO [.dict []] (by decide +kernel)) rfl
  have hbegin := hhello.next (hstep _ BEGIN [] (by decide +kernel)) rfl
  have hrun := hbegin.next (hstep _ RUN [.string "RETURN 1", .dict [], .dict []] (by decide +kernel)) rfl
  have hpull := hrun.next (hstep _ PULL [.dict []] (by decide +kernel)) rfl
  exact hpull.next (hstep _ RUN [.string "RETURN 1", .dict [], .dict [("db", .string "neo4j")]]
    (by decide +kernel)) rfl

/-- The second statement names another graph, and runs there with the first one's session. -/
theorem transaction_leaves_graph :
    ¬ ∀ run, Reaches (step integerMapping) (Served integerMapping) newGraphRun run → ∀ e ∈ run.log,
      OnOneGraph e := by
  intro h
  have hstep : ∀ {run run' : GraphRun Int Unit} (tag : UInt8) (values : List PackValue),
      Reaches (step integerMapping) (Served integerMapping) run run' →
      Reaches (step integerMapping) (Served integerMapping) run
        (run'.next integerMapping (graphFrame tag values)) :=
    fun tag values hrun => hrun.next (served_graphFrame tag values _) rfl
  have hrun : Reaches (step integerMapping) (Served integerMapping) newGraphRun
      ((secondStatementOn "other").foldl (GraphRun.next integerMapping) newGraphRun) :=
    hstep _ _ (hstep _ _ (hstep _ _ (hstep _ _ (hstep _ _ .start))))
  exact absurd (h _ hrun) (by decide +kernel)

/-! ### The sessions of a run -/

/-- The sessions taken are those given back and the one in hand. -/
def GraphRun.Balanced (run : GraphRun V D) : Prop :=
  opened run.log = ended run.log ++ run.session.explicitTxn.toList

variable {vm : ValueMapping V D} {run : GraphRun V D}

lemma balanced_next (h : run.Balanced) (a : GraphAction V D) : (run.next vm a).Balanced := by
  have hkeeps : Yields (fun _ _ => True) (processMessage vm a.req) run.session _ := processMessage_yields a.req
  obtain ⟨⟨-, hbooks⟩, -⟩ := Program.Yields.exchange hkeeps fun _ _ => trivial
  calc opened (run.log ++ (exchange vm run.session a.toBoltAction).events)
      = ended run.log ++ (run.session.explicitTxn.toList ++
          opened (exchange vm run.session a.toBoltAction).events) := by
        rw [opened, filterMap_append, ← append_assoc, ← h]
        rfl
    _ = ended run.log ++ (ended (exchange vm run.session a.toBoltAction).events ++
          (run.next vm a).session.explicitTxn.toList) := congrArg _ hbooks
    _ = ended (run.next vm a).log ++ (run.next vm a).session.explicitTxn.toList := by
        rw [← append_assoc]
        exact congrArg (· ++ _) (filterMap_append ..).symm

lemma explicitTxn_of_ended {a : GraphAction V D}
    (h : decodeMessage a.req = .ok .reset ∨ decodeMessage a.req = .ok .goodbye) :
    (run.next vm a).session.explicitTxn = none := by
  obtain ⟨refusals, hprocesses⟩ := exchange_processes vm run.session a.toBoltAction
  show (exchange vm run.session a.toBoltAction).session.control.explicitTxn = none
  generalize verdictOf _ = v, (exchange vm run.session a.toBoltAction).session.control = c at hprocesses
  cases hprocesses with
  | handled hdecode hmove =>
    rw [hdecode] at h
    rcases h with h | h
    all_goals
      obtain rfl := Except.ok.inj h
      cases hmove <;> simp_all [Message.Ignorable, Message.ExpectedIn, Message.MayFail, Message.authFields]
  | undecoded hdecode | crashed hdecode => simp [hdecode] at h

/-- In every run the sessions taken for explicit transactions are, in order, those given back
and the one in hand; RESET and GOODBYE leave none in hand. -/
theorem sessions_given_back (vm : ValueMapping V D) (version : UInt32) (nextBookmarkFn : Bool)
    (boltPort : Nat) (actions : List (GraphAction V D)) (a : GraphAction V D) :
    let run := actions.foldl (next vm) (.initial vm version nextBookmarkFn boltPort)
    run.Balanced ∧ (decodeMessage a.req = .ok .reset ∨ decodeMessage a.req = .ok .goodbye →
      opened (run.next vm a).log = ended (run.next vm a).log) := by
  intro run
  have hrun : run.Balanced :=
    List.foldlRecOn actions (next vm) rfl fun _ h a _ => balanced_next h a
  refine ⟨hrun, fun hends => ?_⟩
  have hnext : (run.next vm a).Balanced := balanced_next hrun a
  rw [GraphRun.Balanced, explicitTxn_of_ended hends] at hnext
  exact hnext.trans (append_nil _)

end Eugraph.Service
