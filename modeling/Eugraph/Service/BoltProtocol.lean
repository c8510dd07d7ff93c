import Eugraph.Service.BoltSession

/-!
# The protocol that the Bolt session follows

`Moves` is the abstract state machine of a session: for each message, the verdicts it
can be answered with and where the protocol state and the transaction flag go.  The
streams, the records and the graph service are gone; what is left is what the laws
about whole runs need.  `dispatch_moves` connects it to the handlers: whatever the
service answers, a handled message is one of these moves.
-/

namespace Eugraph.Service

open Lib Lib.Handler

/-- The part of a session that the protocol is about. -/
@[ext] structure Control where
  state : SessionState
  inTransaction : Bool
  explicitTxn : Option SessionScope

def BoltSession.control {V D : Type} (s : BoltSession V D) : Control where
  state := s.state
  inTransaction := s.inTransaction
  explicitTxn := s.explicitTxn

/-- How a message is answered. -/
inductive Verdict
  | success
  | failure (code : String)
  | ignored
  | silent
  | threw
  deriving DecidableEq

/-- The code of the first FAILURE. -/
def failureCode : List Reply → Option String
  | [] => none
  | .failure code _ :: _ => some code
  | _ :: rest => failureCode rest

def verdictOf : Except StdException (List Reply) → Verdict
  | .error _ => .threw
  | .ok [] => .silent
  | .ok [.ignored] => .ignored
  | .ok replies =>
    match failureCode replies with
    | some code => .failure code
    | none => .success

lemma verdictOf_ne_threw (replies : List Reply) : verdictOf (.ok replies) ≠ .threw := by
  rw [verdictOf.eq_def]
  split
  · rename_i h
    exact nomatch h
  · exact nofun
  · exact nofun
  · split <;> exact nofun

lemma failureCode_records {records : List Reply}
    (h : ∀ r ∈ records, ∃ fields, r = Reply.record fields) (fields : PackMap) :
    failureCode (records ++ [.success fields]) = none := by
  induction records with
  | nil => rfl
  | cons r rest ih =>
    obtain ⟨values, rfl⟩ := h r List.mem_cons_self
    exact ih fun r hr => h r (List.mem_cons_of_mem _ hr)

/-- Records followed by a SUCCESS are a success. -/
theorem verdictOf_records {records : List Reply}
    (h : ∀ r ∈ records, ∃ fields, r = Reply.record fields) (fields : PackMap) :
    verdictOf (.ok (records ++ [.success fields])) = .success := by
  have hcode := failureCode_records h fields
  cases records with
  | nil => rfl
  | cons r rest =>
    obtain ⟨values, rfl⟩ := h r List.mem_cons_self
    rw [List.cons_append] at hcode ⊢
    rw [verdictOf, hcode]
    · exact fun h => nomatch h
    · exact fun h => nomatch h

namespace Message

/-- The messages that a handler ignores in FAILED. -/
def Ignorable : Message → Prop
  | .hello _ | .telemetry | .reset | .goodbye | .malformed _ => False
  | _ => True

/-- The states in which a message is not answered with a protocol error. -/
def ExpectedIn : Message → SessionState → Prop
  | .hello _, state => state = .CONNECTING
  | .run _, state => state = .READY ∨ state = .TX_READY
  | .pull _, state => state = .STREAMING ∨ state = .TX_STREAMING
  | .begin _, state => state = .READY
  | .commit, state | .rollback, state => state = .TX_READY
  | .route _, state => state = .READY ∨ state = .CONNECTING
  | .malformed _, _ => False
  | _, _ => True

/-- The messages whose handlers may run into an exception. -/
def MayFail : Message → Prop
  | .run _ | .pull _ | .commit => True
  | _ => False

/-- The fields of a message that asks for authentication. -/
def authFields : Message → Option PackMap
  | .hello fields | .logon fields => some fields
  | _ => none

end Message

namespace SessionState

/-- Where a statement's stream leaves from and returns to. -/
def streaming : SessionState → SessionState
  | .TX_READY => .TX_STREAMING
  | _ => .STREAMING

def ready : SessionState → SessionState
  | .TX_STREAMING => .TX_READY
  | _ => .READY

lemma ite_streaming (state : SessionState) :
    (if state = .TX_READY then .TX_STREAMING else .STREAMING) = state.streaming := by
  cases state <;> rfl

lemma ite_ready (state : SessionState) :
    (if state = .TX_STREAMING then .TX_READY else .READY) = state.ready := by
  cases state <;> rfl

end SessionState

/-- The scheme that authenticates a message: its own, or the one an earlier HELLO left. -/
def schemeOf (authScheme : String) (fields : PackMap) : String :=
  (fields.findString "scheme").getD authScheme

/-- The moves of a session.  `refusals` says whether the service may refuse a commit, and
`authScheme` is the scheme that an earlier HELLO left. -/
inductive Moves (refusals : Prop) (authScheme : String) (c : Control) :
    Message → Verdict → Control → Prop
  | ignored {msg : Message} (hmsg : msg.Ignorable) (hfailed : c.state = .FAILED) :
      Moves refusals authScheme c msg .ignored c
  | refused {msg : Message} (hstate : ¬ msg.ExpectedIn c.state) :
      Moves refusals authScheme c msg (.failure "ProtocolError") c
  | rejected {msg : Message} {fields : PackMap} (hmsg : msg.authFields = some fields)
      (hstate : msg.ExpectedIn c.state) (hfailed : c.state ≠ .FAILED)
      (hauth : BoltSession.authError (schemeOf authScheme fields) fields ≠ none) :
      Moves refusals authScheme c msg (.failure BoltSession.unauthorized) c
  | connected {fields : PackMap} (hstate : c.state = .CONNECTING)
      (hauth : BoltSession.authError (schemeOf authScheme fields) fields = none) :
      Moves refusals authScheme c (.hello fields) .success { c with state := .READY }
  | loggedOn {fields : PackMap} (hstate : c.state ≠ .FAILED)
      (hauth : BoltSession.authError (schemeOf authScheme fields) fields = none) :
      Moves refusals authScheme c (.logon fields) .success c
  | loggedOff (hstate : c.state ≠ .FAILED) : Moves refusals authScheme c .logoff .success c
  | telemetry : Moves refusals authScheme c .telemetry .success c
  | routed {msg : RouteMessage} (hstate : c.state ≠ .FAILED) :
      Moves refusals authScheme c (.route msg) .success c
  | started {msg : RunMessage} (hstate : c.state = .READY ∨ c.state = .TX_READY)
      {explicitTxn : Option SessionScope}
      (htxn : c.inTransaction = false → explicitTxn = c.explicitTxn) :
      Moves refusals authScheme c (.run msg) .success
        { c with state := c.state.streaming, explicitTxn := explicitTxn }
  | failed {msg : Message} (hmsg : msg.MayFail) (hstate : c.state ≠ .FAILED) (code : String)
      {c' : Control} (hfailed : c'.state = .FAILED) :
      Moves refusals authScheme c msg (.failure code) c'
  | threw {msg : Message} (hmsg : msg.MayFail) (hstate : c.state ≠ .FAILED) {c' : Control} :
      Moves refusals authScheme c msg .threw c'
  | paused {msg : PullMessage} (hstate : c.state ≠ .FAILED) :
      Moves refusals authScheme c (.pull msg) .success c
  | drained {msg : PullMessage} (hstate : c.state = .STREAMING ∨ c.state = .TX_STREAMING) :
      Moves refusals authScheme c (.pull msg) .success { c with state := c.state.ready }
  | undrained {msg : PullMessage} (hrefused : refusals)
      (hstate : c.state = .STREAMING ∨ c.state = .TX_STREAMING) :
      Moves refusals authScheme c (.pull msg) (.failure "DatabaseError") c
  | discarded (hstate : c.state ≠ .FAILED) :
      Moves refusals authScheme c .discard .success { c with state := c.state.ready }
  | begun {msg : BeginMessage} (hstate : c.state = .READY) :
      Moves refusals authScheme c (.begin msg) .success
        { c with state := .TX_READY, inTransaction := true }
  | committed (hstate : c.state = .TX_READY) :
      Moves refusals authScheme c .commit .success ⟨.READY, false, none⟩
  | uncommitted (hrefused : refusals) (hstate : c.state = .TX_READY) :
      Moves refusals authScheme c .commit (.failure "DatabaseError") ⟨.READY, false, none⟩
  | rolledBack (hstate : c.state = .TX_READY) :
      Moves refusals authScheme c .rollback .success ⟨.READY, false, none⟩
  | reset : Moves refusals authScheme c .reset .success ⟨.READY, false, none⟩
  | closed : Moves refusals authScheme c .goodbye .silent ⟨.CLOSED, false, none⟩

namespace BoltSession

variable {V D : Type} {vm : ValueMapping V D}
variable {ok : (c : EnvCall V) → Answer V D c → Prop} {s : BoltSession V D}

/-- The allowed answers contain a refused commit. -/
def MayRefuse (ok : (c : EnvCall V) → Answer V D c → Prop) : Prop :=
  ok .commitAsync (.ok false : Except StdException Bool) ∨
    ∃ scope, ok (.commitSession scope) (.ok false : Except StdException Bool)

/-- From session `s`, the message is answered by one of its moves. -/
def MovesFrom (ok : (c : EnvCall V) → Answer V D c → Prop) (s : BoltSession V D) (msg : Message)
    (r : Except StdException (List Reply)) (s' : BoltSession V D) : Prop :=
  Moves (MayRefuse ok) s.authScheme s.control msg (verdictOf r) s'.control

lemma handleHello_moves (fields : PackMap) :
    Ensures ok (handleHello fields) s (MovesFrom ok s (.hello fields)) := by
  simp only [handleHello, ensures_bind, ensures_get, ensures_ite, ensures_modify, ensures_protocolError]
  refine ⟨fun hstate => .refused hstate, fun hstate => ?_⟩
  have hconnecting : s.state = .CONNECTING := not_not.mp hstate
  cases hauth : authError ((fields.findString "scheme").getD s.authScheme) fields with
  | none => exact ⟨fun _ => .connected hconnecting hauth, fun _ => .connected hconnecting hauth⟩
  | some message =>
    have hmove : Moves (MayRefuse ok) s.authScheme s.control (.hello fields) (.failure unauthorized) s.control :=
      .rejected rfl hconnecting (by simp [control, hconnecting]) (by simp [schemeOf, hauth])
    exact ⟨fun _ => hmove, fun _ => hmove⟩

lemma handleLogon_moves (fields : PackMap) :
    Ensures ok (handleLogon fields) s (MovesFrom ok s (.logon fields)) := by
  simp only [handleLogon, ensures_bind, ensures_get, ensures_ite, ensures_pure]
  refine ⟨fun hstate => .ignored trivial hstate, fun hstate => ?_⟩
  cases hauth : authError ((fields.findString "scheme").getD s.authScheme) fields with
  | none => exact Moves.loggedOn hstate hauth
  | some message => exact Moves.rejected rfl trivial hstate (by simp [schemeOf, hauth])

lemma handleLogoff_moves : Ensures ok handleLogoff s (MovesFrom ok s .logoff) := by
  simp only [handleLogoff, ensures_bind, ensures_get, ensures_ite, ensures_pure]
  exact ⟨fun hstate => .ignored trivial hstate, fun hstate => .loggedOff hstate⟩

/-- A session in an explicit transaction may gain the session of that transaction. -/
theorem transactionSession_ensures (db : String) :
    Ensures ok (transactionSession db) s fun _ s' => ∃ txn,
      s' = { s with explicitTxn := txn } ∧ (s.inTransaction = false → txn = s.explicitTxn) := by
  simp only [transactionSession, ensures_bind, ensures_get, ensures_ite, ensures_pure]
  refine ⟨fun htxn => ?_, fun _ => ⟨_, rfl, fun _ => rfl⟩⟩
  cases hscope : s.explicitTxn with
  | some scope => exact ⟨s.explicitTxn, rfl, fun _ => hscope⟩
  | none =>
    simp only [ensures_bind, ensures_beginSession]
    intro r _
    rcases r with e | _ | scope
    · exact ⟨s.explicitTxn, rfl, fun _ => hscope⟩
    · exact ⟨s.explicitTxn, rfl, fun _ => hscope⟩
    · exact ⟨some scope, rfl, fun hfalse => by simp [htxn] at hfalse⟩

variable {s' : BoltSession V D}

lemma runFailed_moves (msg : RunMessage) (e : StdException)
    (hstate : s.state ≠ .FAILED) : Ensures ok (runFailed e) s' (MovesFrom ok s (.run msg)) := by
  have hmove : ∀ t : BoltSession V D,
      MovesFrom ok s (.run msg) (.ok [makeFailureFor e]) { t with state := .FAILED } := by
    intro t
    cases e <;> exact Moves.failed (by trivial) hstate _ rfl
  simp only [runFailed, ensures_bind, ensures_get, ensures_ite, ensures_setState, ensures_pure]
  refine ⟨fun _ => ?_, fun _ => hmove s'⟩
  apply rollbackExplicitTxn_ensures
  exact hmove _

lemma runStatement_ensures (msg : RunMessage) (params : List (String × V))
    (hstate : s.state = .READY ∨ s.state = .TX_READY) :
    Ensures ok (runStatement msg params) s fun r s' =>
      ∀ replies, r = .ok replies → MovesFrom ok s (.run msg) (.ok replies) s' := by
  simp only [runStatement, ensures_bind, ensures_get, ensures_modify]
  apply (transactionSession_ensures _).mono
  rintro r s' ⟨txn, rfl, htxn⟩
  have hstarted : Moves (MayRefuse ok) s.authScheme s.control (.run msg) .success { s.control with
        state := if s.state = .TX_READY then .TX_STREAMING else .STREAMING
        explicitTxn := txn } := by
    rw [SessionState.ite_streaming]
    exact .started hstate htxn
  cases r with
  | error e => exact fun _ h => by cases h
  | ok scope =>
    simp only [ensures_executeCypher]
    intro exec _
    cases exec with
    | error e => exact fun _ h => by cases h
    | ok exec =>
      -- Whether or not the statement switched the database, the rest goes on alike.
      simp only [ensures_ite, ensures_bind, ensures_modify]
      refine ⟨fun _ => ?_, fun _ => ?_⟩
      all_goals
        apply abandonStream_ensures
        simp only [ensures_elapsedMs, ensures_pure]
        intro t _ replies hreplies
        obtain rfl := Except.ok.inj hreplies
        exact hstarted

lemma handleRun_moves (msg : RunMessage) : Ensures ok (handleRun vm msg) s (MovesFrom ok s (.run msg)) := by
  simp only [handleRun, ensures_bind, ensures_get, ensures_ite, ensures_pure,
    ensures_protocolError, ensures_fromExcept]
  refine ⟨fun hfailed => .ignored trivial hfailed, fun hfailed => ⟨fun hstate => ?_, fun hstate => ?_⟩⟩
  · exact Moves.refused fun h => h.elim hstate.1 hstate.2
  · have hready : s.state = .READY ∨ s.state = .TX_READY := by
      by_contra h
      exact hstate (not_or.mp h)
    split
    · simp only [ensures_tryCatch]
      apply (runStatement_ensures msg _ hready).mono
      intro r s' h
      cases r with
      | ok replies => exact h replies rfl
      | error e => exact runFailed_moves msg e hfailed
    · exact Moves.threw (by trivial) hfailed

/-- The end of a stream takes the session back to the ready state of its kind. -/
theorem leaveStreaming_control :
    Ensures ok leaveStreaming s fun r s' =>
      r = .ok () ∧ s'.control = { s.control with state := s.state.ready } := by
  rw [leaveStreaming, ensures_modify, ← SessionState.ite_ready]
  exact ⟨rfl, rfl⟩

lemma handleDiscard_moves : Ensures ok handleDiscard s (MovesFrom ok s .discard) := by
  simp only [handleDiscard, ensures_bind, ensures_get, ensures_ite, ensures_pure]
  refine ⟨fun hfailed => .ignored trivial hfailed, fun hfailed => ?_⟩
  apply abandonStream_ensures
  apply leaveStreaming_control.mono
  rintro r s' ⟨rfl, hcontrol⟩
  have hmove : Moves (MayRefuse ok) s.authScheme s.control .discard .success s'.control := by
    rw [hcontrol]
    exact .discarded hfailed
  exact hmove

lemma handleBegin_moves (msg : BeginMessage) : Ensures ok (handleBegin msg) s (MovesFrom ok s (.begin msg)) := by
  simp only [handleBegin, ensures_bind, ensures_get, ensures_ite, ensures_pure, ensures_protocolError,
    ensures_modify]
  refine ⟨fun hfailed => .ignored trivial hfailed, fun _ => ⟨fun hstate => .refused hstate, ?_⟩⟩
  exact fun hstate => .begun (not_not.mp hstate)

lemma commitExplicitTxn_ensures :
    Ensures ok commitExplicitTxn s fun r s' =>
      (∀ committed, r = .ok committed → s' = { s with explicitTxn := none }) ∧
      (r = .ok false → MayRefuse ok) := by
  cases htxn : s.explicitTxn with
  | none =>
    simp only [commitExplicitTxn, ensures_bind, ensures_get, htxn, ensures_pure]
    refine ⟨fun _ _ => ?_, fun h => by cases h⟩
    rw [← htxn]
  | some scope =>
    simp only [commitExplicitTxn, ensures_bind, ensures_get, htxn, ensures_commitSession]
    intro r hr
    rcases r with e | _ | _
    · exact ⟨fun _ h => (by cases h), fun h => by cases h⟩
    · exact ⟨fun _ _ => rfl, fun _ => .inr ⟨scope, hr⟩⟩
    · exact ⟨fun _ _ => rfl, fun h => by cases h⟩

lemma handleCommit_moves : Ensures ok handleCommit s (MovesFrom ok s .commit) := by
  simp only [handleCommit, ensures_bind, ensures_get, ensures_ite, ensures_pure,
    ensures_protocolError, ensures_modify]
  refine ⟨fun hfailed => .ignored trivial hfailed, fun hfailed => ⟨fun hstate => .refused hstate, fun hstate => ?_⟩⟩
  have hready : s.state = .TX_READY := not_not.mp hstate
  apply commitExplicitTxn_ensures.mono
  rintro r s' ⟨hs', hrefused⟩
  rcases r with e | _ | _
  · exact Moves.threw (by trivial) hfailed
  · obtain rfl := hs' false rfl
    exact ⟨fun _ => .uncommitted (hrefused rfl) hready, fun h => absurd Bool.false_ne_true h⟩
  · obtain rfl := hs' true rfl
    refine ⟨fun h => absurd rfl h, fun _ => ?_⟩
    apply bookmarkEntry_ensures
    exact fun _ => Moves.committed hready

lemma handleRollback_moves : Ensures ok handleRollback s (MovesFrom ok s .rollback) := by
  simp only [handleRollback, ensures_bind, ensures_get, ensures_ite, ensures_pure,
    ensures_protocolError, ensures_modify]
  refine ⟨fun hfailed => .ignored trivial hfailed, fun _ => ⟨fun hstate => .refused hstate, ?_⟩⟩
  intro hstate
  apply rollbackExplicitTxn_ensures
  exact Moves.rolledBack (not_not.mp hstate)

lemma handleRoute_moves (msg : RouteMessage) : Ensures ok (handleRoute msg) s (MovesFrom ok s (.route msg)) := by
  simp only [handleRoute, ensures_bind, ensures_get, ensures_ite, ensures_pure, ensures_protocolError]
  refine ⟨fun hfailed => .ignored trivial hfailed, fun hfailed => ⟨fun hstate => ?_, fun _ => ?_⟩⟩
  · exact Moves.refused fun h => h.elim hstate.1 hstate.2
  · exact Moves.routed hfailed

lemma handleReset_moves : Ensures ok handleReset s (MovesFrom ok s .reset) := by
  simp only [handleReset, ensures_bind, ensures_env, ensures_modify, ensures_pure]
  apply abandonStream_ensures
  exact fun _ _ => Moves.reset

lemma handleGoodbye_moves : Ensures ok handleGoodbye s (MovesFrom ok s .goodbye) := by
  simp only [handleGoodbye, ensures_bind, ensures_setState, ensures_pure]
  apply abandonStream_ensures
  exact Moves.closed

/-! ### PULL -/

lemma control_eq_of_sameControl (h : SameControl s s') : s'.control = s.control :=
  Control.ext h.state h.inTransaction h.explicitTxn

lemma pullFailed_moves (msg : PullMessage) (e : StdException)
    (hstate : s.state ≠ .FAILED) : Ensures ok (pullFailed e) s' (MovesFrom ok s (.pull msg)) := by
  simp only [pullFailed, ensures_bind, ensures_setState, ensures_pure]
  apply abandonStream_ensures
  cases e <;> exact Moves.failed (by trivial) hstate _ rfl

lemma pullAborted_moves (msg : PullMessage) (ctx : StreamContext V) (reason : String)
    (hstate : s.state ≠ .FAILED) :
    Ensures ok (pullAborted ctx reason) s' (MovesFrom ok s (.pull msg)) := by
  simp only [pullAborted, endStream, ensures_bind, ensures_modify, ensures_pure]
  apply rollbackStream_ensures
  apply rollbackExplicitTxn_ensures
  exact Moves.failed (by trivial) hstate _ rfl

lemma commitDrained_ensures (inTxn : Bool) (ctx : StreamContext V) :
    Ensures ok (commitDrained inTxn ctx) s fun r s' =>
      s' = s ∧ (r = .ok false → MayRefuse ok) := by
  have hnoCommit : Ensures ok (pure true : BoltM V D Bool) s fun r s' =>
      s' = s ∧ (r = .ok false → MayRefuse ok) := ⟨rfl, fun h => nomatch h⟩
  rw [commitDrained, ensures_ite]
  refine ⟨fun _ => ?_, fun _ => hnoCommit⟩
  rw [commitAsync, ensures_ite]
  refine ⟨fun _ => hnoCommit, fun _ => ?_⟩
  rw [ensures_bind, ensures_env]
  intro r hr
  apply (ensures_fromExcept r).mpr
  refine ⟨rfl, ?_⟩
  rintro rfl
  exact Or.inl hr

lemma pullDrained_ensures (msg : PullMessage) (ctx : StreamContext V) {p : Pulled}
    (hp : p.OnlyRecords) (fields : PackMap)
    (hstate : s.state = .STREAMING ∨ s.state = .TX_STREAMING) (hcontrol : SameControl s s') :
    Ensures ok (pullDrained ctx p fields) s' fun r t =>
      ∀ replies, r = .ok replies → MovesFrom ok s (.pull msg) (.ok replies) t := by
  simp only [pullDrained, endStream, ensures_bind, ensures_get, ensures_modify, ensures_ite, ensures_pure]
  apply (commitDrained_ensures _ ctx).mono
  rintro r t ⟨rfl, hrefused⟩
  rcases r with e | _ | _
  · exact fun _ h => by cases h
  · refine ⟨fun _ replies h => ?_, fun h => absurd Bool.false_ne_true h⟩
    obtain rfl := Except.ok.inj h
    have hmove : Moves (MayRefuse ok) s.authScheme s.control (.pull msg) (.failure "DatabaseError") s'.control := by
      rw [control_eq_of_sameControl hcontrol]
      exact .undrained (hrefused rfl) hstate
    exact hmove
  · refine ⟨fun h => absurd rfl h, fun _ => ?_⟩
    apply profileEntries_ensures
    intro profile
    apply bookmarkEntry_ensures
    intro bookmark
    apply leaveStreaming_control.mono
    rintro r t ⟨rfl, ht⟩ replies h
    obtain rfl := Except.ok.inj h
    have hend : t.control = { s.control with state := s.state.ready } :=
      ht.trans (Control.ext (congrArg SessionState.ready hcontrol.state) hcontrol.inTransaction hcontrol.explicitTxn)
    rw [MovesFrom, verdictOf_records hp, hend]
    exact .drained hstate

lemma pullStream_ensures (msg : PullMessage) (ctx : StreamContext V)
    (hstate : s.state = .STREAMING ∨ s.state = .TX_STREAMING) :
    Ensures ok (pullStream vm msg.n ctx) s fun r t =>
      ∀ replies, r = .ok replies → MovesFrom ok s (.pull msg) (.ok replies) t := by
  have hfailed : s.state ≠ .FAILED := by
    rcases hstate with h | h <;> simp [h]
  simp only [pullStream, ensures_bind, ensures_elapsedMs, ensures_ite, ensures_streamCancelled, ensures_pure]
  apply (pullLoop_ensures msg.n ctx).mono
  rintro r s' ⟨hcontrol, hrecords⟩
  cases r with
  | error e => exact fun _ h => by cases h
  | ok p =>
    have habort : ∀ reason, Ensures ok (pullAborted ctx reason) s' fun r t =>
        ∀ replies, r = .ok replies → MovesFrom ok s (.pull msg) (.ok replies) t := by
      intro reason
      apply (pullAborted_moves msg ctx reason hfailed).mono
      rintro r t h replies rfl
      exact h
    intro tFirst _ tLast _
    refine ⟨fun _ => habort _, fun _ cancelled _ => ⟨fun _ => habort _, fun _ => ?_⟩⟩
    refine ⟨fun _ replies h => ?_, fun _ => pullDrained_ensures msg ctx (hrecords p rfl) _ hstate hcontrol⟩
    obtain rfl := Except.ok.inj h
    rw [MovesFrom, verdictOf_records (hrecords p rfl), control_eq_of_sameControl hcontrol]
    exact .paused hfailed

lemma handlePull_moves (msg : PullMessage) : Ensures ok (handlePull vm msg) s (MovesFrom ok s (.pull msg)) := by
  simp only [handlePull, ensures_bind, ensures_get, ensures_ite, ensures_pure, ensures_protocolError]
  refine ⟨fun hfailed => .ignored trivial hfailed, fun hfailed => ⟨fun hstate => ?_, fun hstate => ?_⟩⟩
  · exact Moves.refused fun h => h.elim hstate.1 hstate.2
  · have hstreaming : s.state = .STREAMING ∨ s.state = .TX_STREAMING := by
      by_contra h
      exact hstate (not_or.mp h)
    cases s.streamCtx with
    | none =>
      simp only [ensures_bind]
      apply leaveStreaming_control.mono
      rintro r t ⟨rfl, ht⟩
      have hmove : Moves (MayRefuse ok) s.authScheme s.control (.pull msg) .success t.control := by
        rw [ht]
        exact .drained hstreaming
      exact hmove
    | some ctx =>
      simp only [ensures_tryCatch]
      apply (pullStream_ensures msg ctx hstreaming).mono
      intro r t h
      cases r with
      | ok replies => exact h replies rfl
      | error e => exact pullFailed_moves msg e hfailed

/-! ### The dispatcher -/

/-- Whatever the service answers, a handled message is one of the protocol's moves. -/
theorem dispatch_moves (msg : Message) : Ensures ok (dispatch vm msg) s (MovesFrom ok s msg) := by
  cases msg with
  | hello fields => exact handleHello_moves fields
  | logon fields => exact handleLogon_moves fields
  | logoff => exact handleLogoff_moves
  | run msg => exact handleRun_moves msg
  | pull msg => exact handlePull_moves msg
  | discard => exact handleDiscard_moves
  | begin msg => exact handleBegin_moves msg
  | commit => exact handleCommit_moves
  | rollback => exact handleRollback_moves
  | route msg => exact handleRoute_moves msg
  | telemetry => exact Moves.telemetry
  | reset => exact handleReset_moves
  | goodbye => exact handleGoodbye_moves
  | malformed reason => exact Moves.refused (fun h => h)

end BoltSession

/-- What a request does to a session: a decoded message moves it, a frame that cannot be
decoded is refused, and an exception of the decoder fails the session. -/
inductive Processes (refusals : Prop) (authScheme : String) (c : Control) (req : Request) :
    Verdict → Control → Prop
  | handled {msg : Message} {v : Verdict} {c' : Control} (hdecode : decodeMessage req = .ok msg)
      (hmove : Moves refusals authScheme c msg v c') (hreturns : v ≠ .threw) :
      Processes refusals authScheme c req v c'
  | undecoded {what : String} (hdecode : decodeMessage req = .error (.decodeError what)) :
      Processes refusals authScheme c req (.failure "ProtocolError") c
  | crashed {e : StdException} (hdecode : decodeMessage req = .error (.std e)) (code : String) :
      Processes refusals authScheme c req (.failure code) { c with state := .FAILED }

namespace BoltSession

variable {V D : Type} {vm : ValueMapping V D}
variable {ok : (c : EnvCall V) → Answer V D c → Prop} {s : BoltSession V D}

lemma verdictOf_makeFailureFor (e : StdException) : ∃ code, verdictOf (.ok [makeFailureFor e]) = .failure code := by
  cases e with
  | queryException kind message => exact ⟨_, rfl⟩
  | other what => exact ⟨_, rfl⟩

/-- Every request is answered, and the answer is one the protocol has. -/
theorem processMessage_processes (req : Request) :
    Ensures ok (processMessage vm req) s fun r s' => ∃ replies, r = .ok replies ∧
      Processes (MayRefuse ok) s.authScheme s.control req (verdictOf r) s'.control := by
  rw [processMessage]
  match hdecode : decodeMessage req with
  | .error (.decodeError what) => exact ⟨_, rfl, .undecoded hdecode⟩
  | .error (.std e) =>
    obtain ⟨code, hcode⟩ := verdictOf_makeFailureFor e
    refine ⟨_, rfl, ?_⟩
    rw [hcode]
    exact .crashed hdecode code
  | .ok msg =>
    simp only [ensures_tryCatch]
    apply (dispatch_moves msg).mono
    intro r s' hmove
    cases r with
    | ok replies =>
      exact ⟨replies, rfl, .handled hdecode hmove (verdictOf_ne_threw replies)⟩
    | error e =>
      obtain ⟨code, hcode⟩ := verdictOf_makeFailureFor e
      refine ⟨_, rfl, ?_⟩
      rw [hcode]
      -- The second catch clause turns a throw into a failed session.
      obtain ⟨hmsg, hstate⟩ : msg.MayFail ∧ s.control.state ≠ .FAILED := by
        cases hmove with
        | threw hmsg hstate => exact ⟨hmsg, hstate⟩
      exact .handled hdecode (.failed hmsg hstate code rfl) (by simp)

end BoltSession

end Eugraph.Service
