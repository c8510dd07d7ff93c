import Eugraph.Service.BoltProtocol
import Eugraph.Lib.Transition

/-!
# Runs of a Bolt session

A run is a sequence of client requests, each answered by `processMessage` against a
graph service of any behaviour.  Three laws of the session are followed over all runs:
the protocol state and the transaction flag agree, a FAILURE is followed by IGNORED
answers until RESET, and a rejected authentication keeps statements from running.
Each holds in the runs whose steps meet the guard stated beside it.
-/

namespace Eugraph.Service

open Lib Lib.Handler List BoltSession Tags Lib.Program Option

variable {V D : Type}

/-! ### Requests and answers -/

/-- A request together with the service that answers the calls it causes. -/
structure BoltAction (V D : Type) where
  req : Request
  oracle : Oracle (EnvCall V) (Answer V D)

/-- The answer to a request, the session after it and the calls made on the way. -/
structure Exchanged (V D : Type) where
  replies : List Reply
  session : BoltSession V D
  events : List (Event (EnvCall V) (Answer V D))

/-- The response of a handler that returned. -/
def repliesOf : Except StdException (List Reply) → List Reply
  | .ok replies => replies
  | .error _ => []

/-- Process one request. -/
def exchange (vm : ValueMapping V D) (s : BoltSession V D) (a : BoltAction V D) :
    Exchanged V D :=
  let result := Program.exchange a.oracle ((processMessage vm a.req).run.run s)
  ⟨repliesOf result.1.1, result.1.2, result.2⟩

/-- The service did not refuse a commit. -/
def NotRefused : (c : EnvCall V) → Answer V D c → Prop
  | .commitAsync, (r : Except StdException Bool) => r ≠ .ok false
  | .commitSession _, (r : Except StdException Bool) => r ≠ .ok false
  | _, _ => True

def CommitsAccepted (events : List (Event (EnvCall V) (Answer V D))) : Prop :=
  ∀ e ∈ events, NotRefused e.1 e.2

variable {vm : ValueMapping V D} {s : BoltSession V D} {a : BoltAction V D}

lemma not_mayRefuse_notRefused : ¬ MayRefuse (NotRefused : (c : EnvCall V) → Answer V D c → Prop) := by
  rintro (h | ⟨_, h⟩)
  · exact h rfl
  · exact h rfl

/-- A processed request follows the protocol. -/
theorem exchange_processes_of_allowed (ok : (c : EnvCall V) → Answer V D c → Prop)
    (hok : ∀ e ∈ (exchange vm s a).events, ok e.1 e.2) :
    Processes (MayRefuse ok) s.authScheme s.control a.req
      (verdictOf (.ok (exchange vm s a).replies)) (exchange vm s a).session.control := by
  have h := Program.Always.exchange (processMessage_processes a.req) hok
  obtain ⟨replies, hreplies, hprocesses⟩ := h
  have hexchanged : (exchange vm s a).replies = replies := congrArg repliesOf hreplies
  rw [hexchanged, ← hreplies]
  exact hprocesses

lemma exchange_processes (vm : ValueMapping V D) (s : BoltSession V D) (a : BoltAction V D) :
    ∃ refusals, Processes refusals s.authScheme s.control a.req
      (verdictOf (.ok (exchange vm s a).replies)) (exchange vm s a).session.control :=
  ⟨_, exchange_processes_of_allowed (fun _ _ => True) fun _ _ => trivial⟩

/-! ### Runs -/

/-- A request whose header names HELLO or LOGON. -/
def Request.authenticates (req : Request) : Bool :=
  match req.header with
  | .ok (tag, _) => tag == HELLO || tag == LOGON
  | .error _ => false

/-- Whether the last authentication with a scheme of its own stands rejected: a rejection
sets it, and only a HELLO or LOGON that succeeds clears it. -/
def rejectedAfter (before : Bool) (req : Request) (v : Verdict) : Bool :=
  match decodeMessage req with
  | .ok msg =>
    match msg.authFields with
    | some fields =>
      if v = .success then false
      else if v = .failure unauthorized ∧ (fields.findString "scheme").isSome then
        true
      else before
    | none => before
  | .error _ => before

/-- A session with what a run has to remember of its past: whether the handshake still
goes on (nothing but HELLO and LOGON since the session left CONNECTING), and whether the
last authentication stands rejected. -/
structure BoltRun (V D : Type) where
  session : BoltSession V D
  handshake : Bool
  authRejected : Bool

namespace BoltRun

/-- A new connection. -/
def initial (vm : ValueMapping V D) (version : UInt32) (nextBookmarkFn : Bool) (boltPort : Nat) :
    BoltRun V D :=
  ⟨.initial vm version nextBookmarkFn boltPort, true, false⟩

/-- Process one request. -/
def next (vm : ValueMapping V D) (run : BoltRun V D) (a : BoltAction V D) : BoltRun V D :=
  let x := exchange vm run.session a
  { session := x.session
    handshake := x.session.state == .CONNECTING || run.handshake && a.req.authenticates
    authRejected := rejectedAfter run.authRejected a.req (verdictOf (.ok x.replies)) }

def step (vm : ValueMapping V D) (run : BoltRun V D) (a : BoltAction V D) : Option (BoltRun V D) :=
  some (run.next vm a)

/-- Every request of the list meets the guard when it arrives. -/
def Guarded (vm : ValueMapping V D) (guard : BoltRun V D → BoltAction V D → Prop) :
    BoltRun V D → List (BoltAction V D) → Prop
  | _, [] => True
  | run, a :: rest => guard run a ∧ Guarded vm guard (run.next vm a) rest

lemma reaches_of_guarded {vm : ValueMapping V D} {guard : BoltRun V D → BoltAction V D → Prop}
    {run : BoltRun V D} {actions : List (BoltAction V D)} (h : Guarded vm guard run actions) :
    Reaches (step vm) guard run (actions.foldl (next vm) run) := by
  induction actions generalizing run with
  | nil => exact .start
  | cons a rest ih => exact (Reaches.start.next h.1 rfl).trans (ih h.2)

end BoltRun

/-! ### A small service for concrete runs -/

open BoltRun

/-- Values that are integers only. -/
def integerMapping : ValueMapping Int Unit where
  boltParamToValue
    | .int n => .ok n
    | _ => .error (.other "not an integer")
  valueToBolt _ _ n := .int n
  noDefs := ()

/-- A service on which every statement returns the row `1` and every commit succeeds. -/
def oneRowService : Oracle (EnvCall Int) (Answer Int Unit)
  | _, .beginSession db => (.ok (some ⟨db, 0⟩) : Except StdException (Option SessionScope))
  | _, .executeCypher _ _ _ txn =>
    (.ok ⟨"", ⟨["n"], [⟨[[1]]⟩], none, txn.isNone, txn.isNone, false⟩, ()⟩ :
      Except StdException (CypherExecutionContext Int Unit))
  | _, .streamCancelled => false
  | _, .commitAsync | _, .commitSession _ => (.ok true : Except StdException Bool)
  | _, .finalizeProfile => ([] : PackMap)
  | n, .nextBookmark => n
  | _, .elapsedMs => (0 : Int)
  | _, .next | _, .rollbackStream | _, .rollbackSession _ | _, .rearmCancel => ()

/-- A well-formed request of the given tag. -/
def frame (tag : UInt8) (values : List PackValue) : BoltAction Int Unit :=
  ⟨⟨.ok (tag, values.length), values.map .ok⟩, oneRowService⟩

def newConnection : BoltRun Int Unit := .initial integerMapping 0x0501 true 7687

/-! ### The transaction flag follows the state -/

/-- READY and STREAMING are outside an explicit transaction, TX_READY and TX_STREAMING
inside one. -/
structure TxnInvariant (s : BoltSession V D) : Prop where
  outside : s.state = .READY ∨ s.state = .STREAMING →
    s.inTransaction = false ∧ s.explicitTxn = none
  inside : s.state = .TX_READY ∨ s.state = .TX_STREAMING → s.inTransaction = true

namespace Control

/-- The invariant behind it: a session that is not connected yet or not any more holds no
transaction either, and FAILED says nothing. -/
def TxnFollows (c : Control) : Prop :=
  match c.state with
  | .CONNECTING | .READY | .STREAMING | .CLOSED => c.inTransaction = false ∧ c.explicitTxn = none
  | .TX_READY | .TX_STREAMING => c.inTransaction = true
  | .FAILED => True

lemma TxnFollows.of_failed {c : Control} (h : c.state = .FAILED) : c.TxnFollows := by
  simp [TxnFollows, h]

/-- Every move keeps it, except the one of a DISCARD in TX_READY. -/
theorem TxnFollows.moves {c c' : Control} {refusals : Prop} {scheme : String} {msg : Message}
    {v : Verdict} (h : c.TxnFollows) (hmove : Moves refusals scheme c msg v c')
    (hreturns : v ≠ .threw) (hdiscard : msg = .discard → c.state ≠ .TX_READY) : c'.TxnFollows := by
  obtain ⟨state, inTransaction, explicitTxn⟩ := c
  cases hmove with
  | ignored | refused | rejected | loggedOn | loggedOff | telemetry | routed | paused | undrained =>
    exact h
  | failed _ _ _ hfailed => exact .of_failed hfailed
  | threw => exact absurd rfl hreturns
  | connected hstate =>
    obtain rfl : state = .CONNECTING := hstate
    exact h
  | started hstate htxn =>
    rcases hstate with hstate | hstate
    · obtain rfl : state = .READY := hstate
      exact ⟨h.1, (htxn h.1).trans h.2⟩
    · obtain rfl : state = .TX_READY := hstate
      exact h
  | drained hstate =>
    rcases hstate with hstate | hstate
    · obtain rfl : state = .STREAMING := hstate
      exact h
    · obtain rfl : state = .TX_STREAMING := hstate
      exact h
  | discarded hstate =>
    cases state with
    | TX_READY => exact absurd rfl (hdiscard rfl)
    | FAILED => exact absurd rfl hstate
    | _ => exact h
  | begun => rfl
  | committed | uncommitted | rolledBack | reset | closed => exact ⟨rfl, rfl⟩

end Control

lemma TxnInvariant.of_follows (h : s.control.TxnFollows) : TxnInvariant s := by
  constructor
  · rintro (hstate | hstate) <;> simpa [Control.TxnFollows, BoltSession.control, hstate] using h
  · rintro (hstate | hstate) <;> simpa [Control.TxnFollows, BoltSession.control, hstate] using h

/-- No DISCARD arrives in TX_READY. -/
def TxnGuard (run : BoltRun V D) (a : BoltAction V D) : Prop :=
  decodeMessage a.req = .ok .discard → run.session.state ≠ .TX_READY

lemma exchange_txnFollows (h : s.control.TxnFollows)
    (hdiscard : decodeMessage a.req = .ok .discard → s.state ≠ .TX_READY) :
    (exchange vm s a).session.control.TxnFollows := by
  obtain ⟨refusals, hprocesses⟩ := exchange_processes vm s a
  generalize verdictOf (.ok (exchange vm s a).replies) = v at hprocesses
  generalize (exchange vm s a).session.control = c' at hprocesses ⊢
  cases hprocesses with
  | handled hdecode hmove hreturns =>
    apply h.moves hmove hreturns
    rintro rfl
    exact hdiscard hdecode
  | undecoded => exact h
  | crashed => exact .of_failed rfl

lemma reaches_txnFollows {version : UInt32} {nextBookmarkFn : Bool} {boltPort : Nat} {run : BoltRun V D}
    (h : Reaches (step vm) TxnGuard (.initial vm version nextBookmarkFn boltPort) run) :
    run.session.control.TxnFollows := by
  apply h.invariant fun run => run.session.control.TxnFollows
  · exact ⟨rfl, rfl⟩
  · intro run a run' hinv hguard hstep
    obtain rfl := some.inj hstep
    exact exchange_txnFollows hinv hguard

/-- A DISCARD in TX_READY returns to READY with the transaction still open. -/
theorem exchange_discard_txnReady (hstate : s.state = .TX_READY) (htxn : s.inTransaction = true)
    (hdecode : decodeMessage a.req = .ok .discard) :
    ¬ TxnInvariant (exchange vm s a).session := by
  obtain ⟨refusals, hprocesses⟩ := exchange_processes vm s a
  generalize verdictOf (.ok (exchange vm s a).replies) = v at hprocesses
  generalize hafter : (exchange vm s a).session.control = c' at hprocesses
  suffices c' = { s.control with state := .READY } by
    intro h
    rw [← hafter] at this
    have hready : (exchange vm s a).session.state = .READY := congrArg Control.state this
    have hopen : (exchange vm s a).session.inTransaction = s.inTransaction := congrArg Control.inTransaction this
    simp [htxn, (h.outside (.inl hready)).1] at hopen
  cases hprocesses with
  | handled hdecode' hmove hreturns =>
    obtain rfl := Except.ok.inj (hdecode'.symm.trans hdecode)
    cases hmove with
    | ignored _ hfailed => simp [BoltSession.control, hstate] at hfailed
    | refused hrefused => exact absurd trivial hrefused
    | rejected hmsg => cases hmsg
    | failed hmsg => exact hmsg.elim
    | threw => exact absurd rfl hreturns
    | discarded =>
      simp [BoltSession.control, hstate, SessionState.ready]
  | undecoded hdecode' => cases hdecode'.symm.trans hdecode
  | crashed hdecode' => cases hdecode'.symm.trans hdecode

/-- In every run without a DISCARD in TX_READY, protocol state and transaction agree in
every state reached; and the first such DISCARD always breaks the agreement. -/
theorem txnInvariant_iff_no_discard_txReady (vm : ValueMapping V D) (version : UInt32)
    (nextBookmarkFn : Bool) (boltPort : Nat) (run : BoltRun V D)
    (h : Reaches (step vm) TxnGuard (.initial vm version nextBookmarkFn boltPort) run) :
    TxnInvariant run.session ∧ ∀ a : BoltAction V D,
      TxnInvariant (exchange vm run.session a).session ↔ TxnGuard run a := by
  have hfollows := reaches_txnFollows h
  refine ⟨.of_follows hfollows, fun a => ⟨fun hinv hdecode hstate => ?_, fun hguard => ?_⟩⟩
  · have htxn : run.session.inTransaction = true := (TxnInvariant.of_follows hfollows).inside (.inl hstate)
    exact exchange_discard_txnReady hstate htxn hdecode hinv
  · exact .of_follows (exchange_txnFollows hfollows hguard)

/-- HELLO, BEGIN, RUN, PULL: a statement inside an explicit transaction. -/
def statementInTransaction : List (BoltAction Int Unit) :=
  [frame HELLO [.dict []], frame BEGIN [],
    frame RUN [.string "RETURN 1", .dict [], .dict []], frame PULL [.dict []]]

theorem txnInvariant_statementInTransaction :
    (statementInTransaction.foldl (BoltRun.next integerMapping) newConnection).session.state
        = .TX_READY ∧
      TxnInvariant
        (statementInTransaction.foldl (BoltRun.next integerMapping) newConnection).session := by
  have hguarded : Guarded integerMapping TxnGuard newConnection statementInTransaction :=
    ⟨nofun, nofun, nofun, nofun, trivial⟩
  exact ⟨by decide, (txnInvariant_iff_no_discard_txReady integerMapping 0x0501 true 7687 _
    (reaches_of_guarded hguarded)).1⟩

/-- HELLO, BEGIN, DISCARD leaves READY with the transaction open. -/
theorem txnInvariant_broken_by_discard :
    ¬ ∀ run, Reaches (step integerMapping) (fun _ _ => True) newConnection run → TxnInvariant run.session := by
  intro h
  have hrun : Reaches (step integerMapping) (fun _ _ => True) newConnection
      ([frame HELLO [.dict []], frame BEGIN [], frame DISCARD []].foldl
        (BoltRun.next integerMapping) newConnection) :=
    reaches_of_guarded ⟨trivial, trivial, trivial, trivial⟩
  exact absurd ((h _ hrun).outside (.inl (by decide))).1 (by decide)

/-! ### After a FAILURE only RESET is answered -/

/-- A decoded message that its handler answers without a call and without a change. -/
theorem exchange_of_dispatch {msg : Message} {replies : List Reply} (hdecode : decodeMessage a.req = .ok msg)
    (hdispatch : (dispatch vm msg).run.run s = pure (.ok replies, s)) :
    exchange vm s a = ⟨replies, s, []⟩ := by
  have hprocess : (processMessage vm a.req).run.run s = pure (.ok replies, s) := by
    rw [processMessage, hdecode]
    change (tryCatch (dispatch vm msg) sessionError).run.run s = _
    rw [run_tryCatch, hdispatch]
    rfl
  rw [exchange, hprocess, exchange_pure]
  rfl

lemma dispatch_ignored {msg : Message} (hmsg : msg.Ignorable) (hstate : s.state = .FAILED) :
    (dispatch vm msg).run.run s = pure (.ok [.ignored], s) := by
  obtain ⟨state, _, _, _, _, _, _, _, _, _, _, _, _, _⟩ := s
  obtain rfl : state = .FAILED := hstate
  cases msg with
  | hello | telemetry | reset | goodbye | malformed => exact hmsg.elim
  | _ => rfl

/-- The response contains a FAILURE. -/
def Fails (replies : List Reply) : Prop := ∃ code message, Reply.failure code message ∈ replies

lemma failureCode_of_fails {replies : List Reply} (h : Fails replies) :
    ∃ code, failureCode replies = some code := by
  obtain ⟨code, message, hmem⟩ := h
  induction replies with
  | nil => exact nomatch hmem
  | cons r rest ih =>
    cases r with
    | failure code' _ => exact ⟨code', rfl⟩
    | success | record | ignored => exact ih (by simpa using hmem)

lemma verdictOf_of_fails {replies : List Reply} (h : Fails replies) :
    ∃ code, verdictOf (.ok replies) = .failure code := by
  obtain ⟨code, hcode⟩ := failureCode_of_fails h
  refine ⟨code, ?_⟩
  rw [verdictOf, hcode]
  · rintro rfl
    cases hcode
  · rintro rfl
    cases hcode

/-- A request outside FAILED that the session can take: it decodes, is expected in the
state, is not rejected by the authenticator, and no commit it causes is refused.  An
exception of the decoder other than a `DecodeError` is also taken as it should. -/
def Accepted (vm : ValueMapping V D) (s : BoltSession V D) (a : BoltAction V D) : Prop :=
  match decodeMessage a.req with
  | .ok msg =>
    msg.ExpectedIn s.state ∧
    (∀ fields, msg.authFields = some fields →
      authError (schemeOf s.authScheme fields) fields = none) ∧
    CommitsAccepted (exchange vm s a).events
  | .error (.decodeError _) => False
  | .error (.std _) => True

/-- HELLO or LOGON while the handshake goes on. -/
def AtHandshake (run : BoltRun V D) (req : Request) : Prop :=
  run.handshake = true ∧ req.authenticates = true

/-- In FAILED only messages arrive that their handler ignores, or RESET and GOODBYE;
elsewhere a request is an authentication of the handshake or one the session can take. -/
def FailureGuard (vm : ValueMapping V D) (run : BoltRun V D) (a : BoltAction V D) : Prop :=
  (run.session.state = .FAILED →
    ∃ msg, decodeMessage a.req = .ok msg ∧ (msg.Ignorable ∨ msg = .reset ∨ msg = .goodbye)) ∧
  (run.session.state ≠ .FAILED → AtHandshake run a.req ∨ Accepted vm run.session a)

/-- An accepted request that is answered with FAILURE fails the session. -/
theorem exchange_failed_of_fails (haccepted : Accepted vm s a) (hfails : Fails (exchange vm s a).replies) :
    (exchange vm s a).session.state = .FAILED := by
  obtain ⟨code, hcode⟩ := verdictOf_of_fails hfails
  rw [Accepted] at haccepted
  match hdecode : decodeMessage a.req with
  | .error (.decodeError what) =>
    rw [hdecode] at haccepted
    exact haccepted.elim
  | .error (.std e) =>
    obtain ⟨refusals, hprocesses⟩ := exchange_processes vm s a
    generalize hafter : (exchange vm s a).session.control = c' at hprocesses
    generalize verdictOf (.ok (exchange vm s a).replies) = v at hprocesses
    suffices c'.state = .FAILED by rw [← hafter] at this; exact this
    cases hprocesses with
    | handled hdecode' => exact nomatch hdecode'.symm.trans hdecode
    | undecoded hdecode' => exact nomatch hdecode'.symm.trans hdecode
    | crashed => rfl
  | .ok msg =>
    rw [hdecode] at haccepted
    obtain ⟨hexpected, hauth, hcommits⟩ := haccepted
    have hprocesses := exchange_processes_of_allowed NotRefused hcommits
    have hrefusals := not_mayRefuse_notRefused (V := V) (D := D)
    generalize MayRefuse (NotRefused : (c : EnvCall V) → Answer V D c → Prop) = refusals at hprocesses hrefusals
    generalize hafter : (exchange vm s a).session.control = c' at hprocesses
    rw [hcode] at hprocesses
    suffices c'.state = .FAILED by rw [← hafter] at this; exact this
    cases hprocesses with
    | undecoded hdecode' => exact nomatch hdecode'.symm.trans hdecode
    | crashed hdecode' => exact nomatch hdecode'.symm.trans hdecode
    | handled hdecode' hmove =>
      obtain rfl := Except.ok.inj (hdecode'.symm.trans hdecode)
      cases hmove with
      | refused hrefused => exact absurd hexpected hrefused
      | rejected hmsg _ _ hrejected => exact absurd (hauth _ hmsg) hrejected
      | failed _ _ _ hfailed => exact hfailed
      | undrained hrefused => exact absurd hrefused hrefusals
      | uncommitted hrefused => exact absurd hrefused hrefusals

/-- In FAILED, a message that meets the guard is not answered with FAILURE. -/
theorem exchange_not_fails_of_failed (hstate : s.state = .FAILED) (hmsg : ∃ msg, decodeMessage a.req = .ok msg ∧
      (msg.Ignorable ∨ msg = .reset ∨ msg = .goodbye)) :
    ¬ Fails (exchange vm s a).replies := by
  obtain ⟨msg, hdecode, hmsg⟩ := hmsg
  intro hfails
  rcases hmsg with hmsg | hmsg
  · rw [exchange_of_dispatch hdecode (dispatch_ignored hmsg hstate)] at hfails
    obtain ⟨code, message, hmem⟩ := hfails
    exact nomatch mem_singleton.mp hmem
  · obtain ⟨code, hcode⟩ := verdictOf_of_fails hfails
    obtain ⟨refusals, hprocesses⟩ := exchange_processes vm s a
    generalize (exchange vm s a).session.control = c' at hprocesses
    rw [hcode] at hprocesses
    cases hprocesses with
    | undecoded hdecode' => exact nomatch hdecode'.symm.trans hdecode
    | crashed hdecode' => exact nomatch hdecode'.symm.trans hdecode
    | handled hdecode' hmove =>
      obtain rfl := Except.ok.inj (hdecode'.symm.trans hdecode)
      rcases hmsg with rfl | rfl
      · cases hmove with
        | refused h => exact h trivial
        | rejected h => exact nomatch h
        | failed h => exact h
      · cases hmove with
        | refused h => exact h trivial
        | rejected h => exact nomatch h
        | failed h => exact h

/-- The answers to a list of requests. -/
def exchanges (vm : ValueMapping V D) : BoltSession V D → List (BoltAction V D) →
    List (Exchanged V D)
  | _, [] => []
  | s, a :: rest => exchange vm s a :: exchanges vm (exchange vm s a).session rest

/-- A failed session answers IGNORED to every list of messages that its handlers ignore,
and asks nothing of the service on the way. -/
theorem exchanges_ignored (hstate : s.state = .FAILED) (later : List (BoltAction V D))
    (hlater : ∀ b ∈ later, ∃ msg, decodeMessage b.req = .ok msg ∧ msg.Ignorable) :
    ∀ x ∈ exchanges vm s later, x = ⟨[.ignored], s, []⟩ := by
  induction later with
  | nil => exact fun x hx => nomatch hx
  | cons b rest ih =>
    obtain ⟨msg, hdecode, hmsg⟩ := hlater b mem_cons_self
    have hfirst : exchange vm s b = ⟨[.ignored], s, []⟩ :=
      exchange_of_dispatch hdecode (dispatch_ignored hmsg hstate)
    intro x hx
    rw [exchanges, hfirst] at hx
    rcases mem_cons.mp hx with rfl | hx
    · rfl
    · exact ih (fun b hb => hlater b (mem_cons_of_mem _ hb)) x hx

/-- The request ends the failed state or the connection. -/
def Clears (req : Request) : Prop :=
  decodeMessage req = .ok .reset ∨ decodeMessage req = .ok .goodbye

/-- In every run whose requests meet the guard: after a FAILURE to anything but an
authentication of the handshake the session is FAILED, and from then on every further
request up to a RESET or GOODBYE is answered IGNORED, leaves the session as it is and asks
nothing of the graph service. -/
theorem failure_then_ignored (vm : ValueMapping V D) (version : UInt32) (nextBookmarkFn : Bool)
    (boltPort : Nat) (run : BoltRun V D)
    (_ : Reaches (step vm) (FailureGuard vm) (.initial vm version nextBookmarkFn boltPort) run)
    (a : BoltAction V D) (hguard : FailureGuard vm run a) (hhandshake : ¬ AtHandshake run a.req)
    (hfails : Fails (exchange vm run.session a).replies) :
    (run.next vm a).session.state = .FAILED ∧
    ∀ later : List (BoltAction V D), (∀ b ∈ later, FailureGuard vm (run.next vm a) b ∧ ¬ Clears b.req) →
      ∀ x ∈ exchanges vm (run.next vm a).session later, x = ⟨[.ignored], (run.next vm a).session, []⟩ := by
  have hfailed : (run.next vm a).session.state = .FAILED := by
    by_cases hstate : run.session.state = .FAILED
    · exact absurd hfails (exchange_not_fails_of_failed hstate (hguard.1 hstate))
    · exact exchange_failed_of_fails ((hguard.2 hstate).resolve_left hhandshake) hfails
  refine ⟨hfailed, fun later hlater => exchanges_ignored hfailed later fun b hb => ?_⟩
  obtain ⟨hb, hclears⟩ := hlater b hb
  obtain ⟨msg, hdecode, hmsg⟩ := hb.1 hfailed
  refine ⟨msg, hdecode, hmsg.resolve_right fun h => hclears ?_⟩
  rcases h with rfl | rfl
  · exact .inl hdecode
  · exact .inr hdecode

/-- A service that cannot parse any statement. -/
def rejectingService : Oracle (EnvCall Int) (Answer Int Unit)
  | _, .executeCypher _ _ _ _ =>
    (.error (.queryException .Syntax "unexpected end") :
      Except StdException (CypherExecutionContext Int Unit))
  | n, c => oneRowService n c

/-- A statement with a syntax error. -/
def badStatement : BoltAction Int Unit :=
  { frame RUN [.string "RETURN", .dict [], .dict []] with oracle := rejectingService }

/-- After HELLO, a bad statement fails the session, and the PULL and the COMMIT that the
client had already sent are ignored. -/
theorem failure_then_ignored_badStatement :
    let run := newConnection.next integerMapping (frame HELLO [.dict []])
    let failed := (run.next integerMapping badStatement).session
    failed.state = .FAILED ∧ ∀ x ∈ exchanges integerMapping failed [frame PULL [.dict []], frame COMMIT []],
        x = ⟨[.ignored], failed, []⟩ := by
  intro run failed
  have hreaches : Reaches (step integerMapping) (FailureGuard integerMapping) newConnection run :=
    Reaches.start.next ⟨nofun, fun _ => .inl ⟨rfl, rfl⟩⟩ rfl
  have hguard : FailureGuard integerMapping run badStatement := by
    refine ⟨nofun, fun _ => .inr ⟨.inl rfl, nofun, ?_⟩⟩
    intro e he
    obtain rfl := mem_singleton.mp he
    trivial
  have hfails : Fails (exchange integerMapping run.session badStatement).replies := ⟨_, _, mem_singleton_self _⟩
  obtain ⟨hfailed, hlater⟩ := failure_then_ignored integerMapping 0x0501 true 7687 run hreaches
    badStatement hguard (fun h => nomatch h.2) hfails
  refine ⟨hfailed, hlater _ fun b hb => ?_⟩
  simp only [mem_cons, not_mem_nil, or_false] at hb
  rcases hb with rfl | rfl
  · exact ⟨⟨fun _ => ⟨_, rfl, .inl trivial⟩, fun h => absurd rfl h⟩, fun h => h.elim nofun nofun⟩
  · exact ⟨⟨fun _ => ⟨_, rfl, .inl trivial⟩, fun h => absurd rfl h⟩, fun h => h.elim nofun nofun⟩

/-- A COMMIT in READY is answered with FAILURE, and the session stays READY. -/
theorem failure_without_failed : ¬ ∀ (run : BoltRun Int Unit) (a : BoltAction Int Unit),
      Reaches (step integerMapping) (fun _ _ => True) newConnection run →
      ¬ AtHandshake run a.req → Fails (exchange integerMapping run.session a).replies →
      (run.next integerMapping a).session.state = .FAILED ∧
      ∀ later : List (BoltAction Int Unit), (∀ b ∈ later, ¬ Clears b.req) →
        ∀ x ∈ exchanges integerMapping (run.next integerMapping a).session later,
          x = ⟨[.ignored], (run.next integerMapping a).session, []⟩ := by
  intro h
  have hrun : Reaches (step integerMapping) (fun _ _ => True) newConnection
      (newConnection.next integerMapping (frame HELLO [.dict []])) :=
    Reaches.start.next trivial rfl
  have hlaw := h _ (frame COMMIT []) hrun (fun h => nomatch h.2) ⟨_, _, mem_singleton_self _⟩
  exact absurd hlaw.1 (by decide)

/-! ### A rejected authentication keeps statements from running -/

namespace SessionState

/-- The states in which no statement is taken. -/
def Blocks : SessionState → Prop
  | .CONNECTING | .FAILED | .CLOSED => True
  | _ => False

end SessionState

/-- While the last authentication stands rejected no RESET arrives, and a DISCARD arrives
only where it is ignored; a LOGON with a scheme of its own that the authenticator rejects
arrives only where no statement is taken. -/
def AuthGuard (run : BoltRun V D) (a : BoltAction V D) : Prop :=
  (run.authRejected = true →
    decodeMessage a.req ≠ .ok .reset ∧
    (decodeMessage a.req = .ok .discard → run.session.state = .FAILED)) ∧
  ∀ fields, decodeMessage a.req = .ok (.logon fields) → (fields.findString "scheme").isSome →
    authError (schemeOf run.session.authScheme fields) fields ≠ none →
    run.session.state.Blocks

/-- Where no statement is taken, only an accepted HELLO, a RESET or a DISCARD leads out. -/
theorem Moves.blocks {c c' : Control} {refusals : Prop} {scheme : String} {msg : Message}
    {v : Verdict} (hmove : Moves refusals scheme c msg v c') (hreturns : v ≠ .threw)
    (hblocks : c.state.Blocks) (hreset : msg ≠ .reset)
    (hdiscard : msg = .discard → c.state = .FAILED)
    (hhello : ∀ fields, msg = .hello fields → v ≠ .success) : c'.state.Blocks := by
  obtain ⟨state, inTransaction, explicitTxn⟩ := c
  cases hmove with
  | ignored | refused | rejected | loggedOn | loggedOff | telemetry | routed | paused | undrained =>
    exact hblocks
  | failed _ _ _ hfailed =>
    rw [hfailed]
    trivial
  | threw => exact absurd rfl hreturns
  | connected => exact absurd rfl (hhello _ rfl)
  | started hstate =>
    rcases hstate with hstate | hstate
    · obtain rfl : state = .READY := hstate
      exact hblocks.elim
    · obtain rfl : state = .TX_READY := hstate
      exact hblocks.elim
  | drained hstate =>
    rcases hstate with hstate | hstate
    · obtain rfl : state = .STREAMING := hstate
      exact hblocks.elim
    · obtain rfl : state = .TX_STREAMING := hstate
      exact hblocks.elim
  | discarded hstate => exact absurd (hdiscard rfl) hstate
  | begun hstate =>
    obtain rfl : state = .READY := hstate
    exact hblocks.elim
  | committed hstate | uncommitted _ hstate | rolledBack hstate =>
    obtain rfl : state = .TX_READY := hstate
    exact hblocks.elim
  | reset => exact absurd rfl hreset
  | closed => trivial

/-- A rejected HELLO or LOGON leaves the session where no statement is taken. -/
theorem Moves.blocks_of_rejected {c c' : Control} {refusals : Prop} {scheme : String}
    {msg : Message} {v : Verdict} {fields : PackMap} (hmove : Moves refusals scheme c msg v c')
    (hv : v = .failure unauthorized) (hmsg : msg.authFields = some fields)
    (hlogon : msg = .logon fields → authError (schemeOf scheme fields) fields ≠ none → c.state.Blocks) :
    c'.state.Blocks := by
  cases hmove with
  | ignored | connected | loggedOn | threw => exact nomatch hv
  | refused => exact absurd hv (by decide)
  | failed _ _ _ hfailed =>
    rw [hfailed]
    trivial
  | rejected hmsg' hstate _ hauth =>
    obtain rfl := some.inj (hmsg'.symm.trans hmsg)
    cases msg with
    | hello fields' =>
      -- HELLO is checked in CONNECTING only.
      have hconnecting : c.state = .CONNECTING := hstate
      rw [hconnecting]
      trivial
    | logon fields' =>
      obtain rfl := some.inj hmsg
      exact hlogon rfl hauth
    | _ => exact nomatch hmsg
  | _ => exact nomatch hmsg

/-- While the last authentication stands rejected, the session takes no statement. -/
def AuthBlocks (run : BoltRun V D) : Prop :=
  run.authRejected = true → run.session.state.Blocks

lemma AuthBlocks.next {run : BoltRun V D} (h : AuthBlocks run) (hguard : AuthGuard run a) :
    AuthBlocks (run.next vm a) := by
  intro hrejected
  obtain ⟨refusals, hprocesses⟩ := exchange_processes vm run.session a
  change rejectedAfter run.authRejected a.req _ = true at hrejected
  change (exchange vm run.session a).session.control.state.Blocks
  generalize verdictOf (.ok (exchange vm run.session a).replies) = v at hprocesses hrejected
  generalize (exchange vm run.session a).session.control = c' at hprocesses ⊢
  cases hprocesses with
  | undecoded hdecode =>
    rw [rejectedAfter, hdecode] at hrejected
    exact h hrejected
  | crashed => trivial
  | @handled msg _ _ hdecode hmove hreturns =>
    have hkeeps : run.authRejected = true → v ≠ .success ∨ msg.authFields = none → c'.state.Blocks := by
      intro hbefore hv
      obtain ⟨hreset, hdiscard⟩ := hguard.1 hbefore
      apply hmove.blocks hreturns (h hbefore)
      · rintro rfl
        exact hreset hdecode
      · rintro rfl
        exact hdiscard hdecode
      · rintro fields rfl
        exact hv.resolve_right nofun
    rw [rejectedAfter, hdecode] at hrejected
    cases hfields : msg.authFields with
    | none =>
      simp only [hfields] at hrejected
      exact hkeeps hrejected (.inr hfields)
    | some fields =>
      simp only [hfields] at hrejected
      split at hrejected
      · exact nomatch hrejected
      · rename_i hv
        split at hrejected
        · rename_i hrejection
          obtain ⟨hunauthorized, hscheme⟩ := hrejection
          apply hmove.blocks_of_rejected hunauthorized hfields
          rintro rfl hauth
          exact hguard.2 fields hdecode hscheme hauth
        · exact hkeeps hrejected (.inl hv)

/-- A statement that arrives where none is taken is answered without being executed. -/
theorem exchange_statement_of_blocks {msg : Message} (hblocks : s.state.Blocks)
    (hmsg : (∃ m, msg = .run m) ∨ ∃ m, msg = .begin m) (hdecode : decodeMessage a.req = .ok msg) :
    ∃ replies, exchange vm s a = ⟨replies, s, []⟩ ∧
      (replies = [.ignored] ∨ ∃ text, replies = [.failure "ProtocolError" text]) := by
  have hdispatch : ∃ replies, (dispatch vm msg).run.run s = pure (.ok replies, s) ∧
      (replies = [.ignored] ∨ ∃ text, replies = [.failure "ProtocolError" text]) := by
    obtain ⟨state, _, _, _, _, _, _, _, _, _, _, _, _, _⟩ := s
    cases state with
    | READY | STREAMING | TX_READY | TX_STREAMING => exact hblocks.elim
    | FAILED => rcases hmsg with ⟨m, rfl⟩ | ⟨m, rfl⟩ <;> exact ⟨_, rfl, .inl rfl⟩
    | CONNECTING => rcases hmsg with ⟨m, rfl⟩ | ⟨m, rfl⟩ <;> exact ⟨_, rfl, .inr ⟨_, rfl⟩⟩
    | CLOSED => rcases hmsg with ⟨m, rfl⟩ | ⟨m, rfl⟩ <;> exact ⟨_, rfl, .inr ⟨_, rfl⟩⟩
  obtain ⟨replies, hpure, hreplies⟩ := hdispatch
  exact ⟨replies, exchange_of_dispatch hdecode hpure, hreplies⟩

/-- In every run that meets the guard, as long as the last authentication stands rejected, a
RUN or BEGIN is answered with IGNORED or a protocol error, leaves the session as it is and
asks nothing of the graph service. -/
theorem rejectedAuth_blocks_statements (vm : ValueMapping V D) (version : UInt32)
    (nextBookmarkFn : Bool) (boltPort : Nat) (run : BoltRun V D)
    (h : Reaches (step vm) AuthGuard (.initial vm version nextBookmarkFn boltPort) run)
    (hrejected : run.authRejected = true) (a : BoltAction V D) (msg : Message)
    (hdecode : decodeMessage a.req = .ok msg)
    (hmsg : (∃ m, msg = .run m) ∨ ∃ m, msg = .begin m) :
    ∃ replies, exchange vm run.session a = ⟨replies, run.session, []⟩ ∧
      (replies = [.ignored] ∨ ∃ text, replies = [.failure "ProtocolError" text]) := by
  have hblocks : AuthBlocks run := by
    apply h.invariant AuthBlocks
    · exact nofun
    · intro run a run' hinv hguard hstep
      obtain rfl := some.inj hstep
      exact hinv.next hguard
  exact exchange_statement_of_blocks (hblocks hrejected) hmsg hdecode

/-- HELLO with the wrong password. -/
def wrongPassword : BoltAction Int Unit :=
  frame HELLO [.dict [("scheme", .string "basic"), ("credentials", .string "wrong")]]

def runStatement : BoltAction Int Unit :=
  frame RUN [.string "RETURN 1", .dict [], .dict []]

/-- After a HELLO with the wrong password a statement is not executed. -/
theorem rejectedAuth_blocks_runStatement :
    let run := newConnection.next integerMapping wrongPassword
    run.authRejected = true ∧
      ∃ replies, exchange integerMapping run.session runStatement = ⟨replies, run.session, []⟩ ∧
        (replies = [.ignored] ∨ ∃ text, replies = [.failure "ProtocolError" text]) := by
  intro run
  have hguard : AuthGuard newConnection wrongPassword := ⟨nofun, fun _ h => nomatch h⟩
  have hreaches : Reaches (step integerMapping) AuthGuard newConnection run := Reaches.start.next hguard rfl
  have hrejected : run.authRejected = true := by decide
  exact ⟨hrejected, rejectedAuth_blocks_statements integerMapping 0x0501 true 7687 run hreaches
    hrejected runStatement _ rfl (.inl ⟨_, rfl⟩)⟩

/-- HELLO with the wrong password, then RESET: the next statement is executed. -/
theorem rejectedAuth_runs_after_reset :
    ¬ ∀ run, Reaches (step integerMapping) (fun _ _ => True) newConnection run →
      run.authRejected = true → ∀ (a : BoltAction Int Unit) (msg : Message),
      decodeMessage a.req = .ok msg → (∃ m, msg = .run m) ∨ (∃ m, msg = .begin m) →
      ∃ replies, exchange integerMapping run.session a = ⟨replies, run.session, []⟩ ∧
        (replies = [.ignored] ∨ ∃ text, replies = [.failure "ProtocolError" text]) := by
  intro h
  have hrun : Reaches (step integerMapping) (fun _ _ => True) newConnection
      ([wrongPassword, frame RESET []].foldl (BoltRun.next integerMapping) newConnection) :=
    reaches_of_guarded ⟨trivial, trivial, trivial⟩
  obtain ⟨replies, hexchange, -⟩ := h _ hrun (by decide) runStatement _ rfl (.inl ⟨_, rfl⟩)
  have hevents := congrArg (fun x => x.events.length) hexchange
  change (exchange integerMapping _ runStatement).events.length = 0 at hevents
  exact absurd hevents (by decide)

end Eugraph.Service
