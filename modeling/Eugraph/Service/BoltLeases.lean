import Eugraph.Service.BoltPull

/-!
# Requests and their answers

What every request keeps, whatever the graph service answers.  Each request but GOODBYE gets
one summary (SUCCESS, FAILURE or IGNORED), and it comes last; before it stand records, and
only PULL sends any.

A connection takes a session from the service for the first statement of an explicit
transaction, and gives it back by a commit that the service answers or by a rollback.  The
books of a transcript are the sessions taken and the sessions given back; they are kept call
by call, through every handler, so over a whole run the sessions taken are those given back
and the one in hand.
-/

namespace Eugraph.Service

open Lib Lib.Handler BoltSession List

variable {V D : Type}

section Calls

variable {ok : (c : EnvCall V) → Answer V D c → Prop} {s : BoltSession V D}

@[simp] lemma yields_beginSession (db : String)
    {Q : Except StdException (Option SessionScope) → BoltSession V D → List (BoltEvent V D) → Prop} :
    Yields ok (beginSession db) s Q ↔ ∀ r, ok (.beginSession db) r → Q r s [⟨.beginSession db, r⟩] := by
  rw [beginSession, yields_bind, yields_env]
  exact forall_congr' fun r => imp_congr_right fun _ => yields_fromExcept r

@[simp] lemma yields_executeCypher (query : String)
    (params : List (String × V)) (db : String) (txn : Option SessionScope)
    {Q : Except StdException (CypherExecutionContext V D) → BoltSession V D →
      List (BoltEvent V D) → Prop} :
    Yields ok (executeCypher query params db txn) s Q ↔ ∀ r, ok (.executeCypher query params db txn) r →
        Q r s [⟨.executeCypher query params db txn, r⟩] := by
  rw [executeCypher, yields_bind, yields_env]
  exact forall_congr' fun r => imp_congr_right fun _ => yields_fromExcept r

end Calls

/-! ### The books -/

/-- The sessions that were taken, in order. -/
def opened (es : List (BoltEvent V D)) : List SessionScope :=
  es.filterMap fun
    | ⟨.beginSession _, (.ok (some scope) : Except StdException (Option SessionScope))⟩ => some scope
    | _ => none

/-- The sessions that were given back, in order.  A commit that throws gives nothing back. -/
def ended (es : List (BoltEvent V D)) : List SessionScope :=
  es.filterMap fun
    | ⟨.commitSession scope, (.ok _ : Except StdException Bool)⟩ => some scope
    | ⟨.rollbackSession scope, _⟩ => some scope
    | _ => none

/-- The calls of a transcript are calls `E`, and its books go from one session to the other. -/
structure Settled (E : EnvCall V → Prop) (s : BoltSession V D) (es : List (BoltEvent V D))
    (s' : BoltSession V D) : Prop where
  calls : ∀ e ∈ es, E e.1
  books : s.explicitTxn.toList ++ opened es = ended es ++ s'.explicitTxn.toList

theorem composes_settled (E : EnvCall V → Prop) : Composes (Settled (D := D) E) where
  refl s := ⟨fun _ he => (nomatch he), (append_nil _).trans (nil_append _).symm⟩
  append {s s' s'' es es'} h h' := by
    refine ⟨fun e he => (mem_append.mp he).elim (h.calls e) (h'.calls e), ?_⟩
    rw [opened, ended, filterMap_append, filterMap_append]
    calc s.explicitTxn.toList ++ (opened es ++ opened es')
        = ended es ++ (s'.explicitTxn.toList ++ opened es') := by
          rw [← append_assoc, h.books, append_assoc]
      _ = ended es ++ ended es' ++ s''.explicitTxn.toList := by
          rw [h'.books, append_assoc]

/-- Calls that execute no statement. -/
def NoStatement : EnvCall V → Prop
  | .executeCypher .. => False
  | _ => True

/-- Calls that neither execute a statement nor take or give back a session. -/
def Quiet : EnvCall V → Prop
  | .beginSession _ | .executeCypher .. | .commitSession _ | .rollbackSession _ => False
  | _ => True

/-! ### Answers -/

def Reply.IsRecord : Reply → Prop
  | .record _ => True
  | _ => False

/-- Records, none of them unless the request pulls, and then one summary. -/
def Summarised (pulls : Prop) (replies : List Reply) : Prop :=
  ∃ records summary, replies = records ++ [summary] ∧ ¬ summary.IsRecord ∧
    (∀ r ∈ records, r.IsRecord) ∧ (¬ pulls → records = [])

/-- What a request is answered with. -/
def Answered : Message → List Reply → Prop
  | .goodbye => fun replies => replies = []
  | .pull _ => Summarised True
  | _ => Summarised False

lemma summarised_one {pulls : Prop} {reply : Reply} (h : ¬ reply.IsRecord) : Summarised pulls [reply] :=
  ⟨[], reply, rfl, h, fun _ hr => (nomatch hr), fun _ => rfl⟩

lemma summarised_failure {pulls : Prop} (e : StdException) : Summarised pulls [makeFailureFor e] := by
  cases e <;> exact summarised_one id

/-- The records that were gathered go out before the summary. -/
lemma summarised_records {p : Pulled} (hp : p.OnlyRecords) (fields : PackMap) :
    Summarised True (p.records ++ [.success fields]) := by
  refine ⟨p.records, _, rfl, id, fun r hr => ?_, fun h => absurd trivial h⟩
  obtain ⟨values, rfl⟩ := hp r hr
  trivial

/-! ### What the parts of the handlers keep -/

/-- A part of a handler executes no statement and keeps the books. -/
abbrev Settles {α : Type} (ok : (c : EnvCall V) → Answer V D c → Prop) (m : BoltM V D α)
    (s : BoltSession V D) : Prop := Relates ok (Settled NoStatement) (fun _ => True) m s

/-- A handler does so too, and what it answers satisfies `P`. -/
abbrev SettlesWith (ok : (c : EnvCall V) → Answer V D c → Prop) (P : List Reply → Prop)
    (m : BoltM V D (List Reply)) (s : BoltSession V D) : Prop := Relates ok (Settled NoStatement) P m s

namespace Settles

variable {α β : Type} {vm : ValueMapping V D} {s : BoltSession V D}
variable {ok : (c : EnvCall V) → Answer V D c → Prop} {E : EnvCall V → Prop} {m m' : BoltM V D α}
variable {P : α → Prop} {pulls : Prop}

lemma returns {a : α} (h : P a) : Relates ok (Settled E) P (pure a : BoltM V D α) s := by
  refine ⟨(composes_settled E).refl s, fun a' ha => ?_⟩
  obtain rfl := Except.ok.inj ha
  exact h

lemma idle {a : α} : Relates ok (Settled E) (fun _ => True) (pure a : BoltM V D α) s := returns trivial

lemma throws {r : Except StdException α} : Relates ok (Settled E) (fun _ => True) (fromExcept r : BoltM V D α) s :=
  (yields_fromExcept r).mpr ⟨(composes_settled E).refl s, fun _ _ => trivial⟩

lemma one {reply : Reply} (h : ¬ reply.IsRecord) :
    Relates ok (Settled E) (Summarised pulls) (pure [reply] : BoltM V D (List Reply)) s := returns (summarised_one h)

lemma failure (e : StdException) :
    Relates ok (Settled E) (Summarised pulls) (pure [makeFailureFor e] : BoltM V D (List Reply)) s :=
  returns (summarised_failure e)

lemma env (c : EnvCall V) (hc : Quiet c) : Settles ok (env c : BoltM V D (Answer V D c)) s := by
  refine (yields_env c).mpr fun r _ => ⟨?_, fun _ _ => trivial⟩
  cases c <;> first
    | exact hc.elim
    | exact ⟨fun e he => mem_singleton.mp he ▸ trivial, append_nil _⟩

lemma modify {f : BoltSession V D → BoltSession V D} (hf : (f s).explicitTxn = s.explicitTxn) :
    Relates ok (Settled E) (fun _ => True) (modify f : BoltM V D PUnit) s :=
  ⟨⟨fun _ he => (nomatch he), by rw [hf]; exact (append_nil _).trans (nil_append _).symm⟩, fun _ _ => trivial⟩

lemma get {f : BoltSession V D → BoltM V D α} (h : Relates ok (Settled E) P (f s) s) :
    Relates ok (Settled E) P (get >>= f) s := by
  rw [Relates, yields_bind, yields_get]
  exact h

lemma bind {f : α → BoltM V D β} {P : β → Prop} (h : Relates ok (Settled E) (fun _ => True) m s)
    (hf : ∀ a t, Relates ok (Settled E) P (f a) t) : Relates ok (Settled E) P (m >>= f) s :=
  (composes_settled E).bind h fun a t _ => hf a t

lemma ite {c : Prop} [Decidable c] (h : Relates ok (Settled E) P m s)
    (h' : Relates ok (Settled E) P m' s) : Relates ok (Settled E) P (if c then m else m') s :=
  (yields_ite c m m').mpr ⟨fun _ => h, fun _ => h'⟩

lemma streamCancelled : Settles ok (streamCancelled : BoltM V D Bool) s :=
  env .streamCancelled trivial

lemma elapsedMs : Settles ok (elapsedMs : BoltM V D Int) s := env .elapsedMs trivial

/-! ### Giving a session back -/

lemma rollbackExplicitTxn : Settles ok (rollbackExplicitTxn : BoltM V D Unit) s := by
  apply get
  cases htxn : s.explicitTxn with
  | none => exact idle
  | some scope =>
    refine fun _ _ => ⟨⟨fun e he => mem_singleton.mp he ▸ trivial, ?_⟩, fun _ _ => trivial⟩
    rw [htxn]
    rfl

lemma commitExplicitTxn : Settles ok (commitExplicitTxn : BoltM V D Bool) s := by
  apply get
  cases htxn : s.explicitTxn with
  | none => exact idle
  | some scope =>
    rintro (e | committed) _
    · -- the commit threw: the session is still in hand
      exact ⟨⟨fun e he => mem_singleton.mp he ▸ trivial, append_nil _⟩, fun _ _ => trivial⟩
    · refine ⟨⟨fun e he => mem_singleton.mp he ▸ trivial, ?_⟩, fun _ _ => trivial⟩
      rw [htxn]
      rfl

/-! ### Handlers that take no session -/

lemma rollbackStream (ctx : StreamContext V) : Settles ok (rollbackStream ctx : BoltM V D Unit) s :=
  ite (bind (env .rollbackStream trivial) fun _ _ => idle) idle

lemma abandonStream (rollbackExplicit : Bool) :
    Settles ok (abandonStream rollbackExplicit : BoltM V D Unit) s := by
  refine get (bind (modify rfl) fun _ _ => bind ?_ fun _ _ => ?_)
  · cases s.streamCtx with
    | none => exact idle
    | some ctx => exact ite (rollbackStream ctx) idle
  · exact ite (bind rollbackExplicitTxn fun _ _ => modify rfl) idle

lemma emitRows (limit : Int) (chunk : DataChunk V) (row : Nat) (p : Pulled) :
    Settles ok (emitRows vm limit chunk row p) s :=
  get (ite (bind (modify rfl) fun _ _ => idle)
    (bind (modify rfl) fun _ _ => idle))

lemma pullBatches (limit : Int) (failure : Option StdException) (batches : List (DataChunk V)) (p : Pulled) :
    Settles ok (pullBatches vm limit failure batches p) s := by
  induction batches generalizing s p with
  | nil =>
    unfold pullBatches
    refine ite idle (bind streamCancelled fun _ _ => ite idle
      (bind (env .next trivial) fun _ _ => ?_))
    cases failure with
    | none => exact idle
    | some e => exact ⟨(composes_settled _).refl _, fun _ h => by cases h⟩
  | cons chunk rest ih =>
    unfold pullBatches
    exact ite idle (bind streamCancelled fun _ _ => ite idle
      (bind (env .next trivial) fun _ _ => bind (modify rfl) fun _ _ =>
        bind (emitRows ..) fun q _ => ih q))

lemma pullLoop (limit : Int) (ctx : StreamContext V) : Settles ok (pullLoop vm limit ctx) s := by
  apply get
  cases s.pendingChunk with
  | none => exact pullBatches limit _ _ _
  | some chunk =>
    exact ite idle (bind streamCancelled fun _ _ => ite idle
      (bind (emitRows ..) fun q _ => pullBatches limit _ _ q))

lemma pullAborted (ctx : StreamContext V) (reason : String) :
    SettlesWith ok (Summarised pulls) (pullAborted ctx reason) s :=
  bind (modify rfl) fun _ _ => bind (rollbackStream ctx) fun _ _ =>
    bind rollbackExplicitTxn fun _ _ => bind (modify rfl) fun _ _ => one id

lemma commitAsync (ctx : StreamContext V) : Settles ok (commitAsync ctx : BoltM V D Bool) s :=
  ite idle (bind (env .commitAsync trivial) fun _ _ => throws)

lemma bookmarkEntry (wanted : Bool) : Settles ok (bookmarkEntry wanted : BoltM V D PackMap) s :=
  ite (bind (env .nextBookmark trivial) fun _ _ => idle) idle

lemma pullDrained (ctx : StreamContext V) {p : Pulled} (hp : p.OnlyRecords) (fields : PackMap) :
    SettlesWith ok (Summarised True) (pullDrained ctx p fields) s :=
  get (bind (modify rfl) fun _ _ =>
    bind (ite (commitAsync ctx) idle) fun _ _ => ite (one id)
      (bind (ite (bind (env .finalizeProfile trivial) fun _ _ => idle) idle) fun _ _ =>
        get (bind (bookmarkEntry _) fun _ _ =>
          bind (modify rfl) fun _ _ => returns (summarised_records hp _))))

lemma pullStream (limit : Int) (ctx : StreamContext V) :
    SettlesWith ok (Summarised True) (pullStream vm limit ctx) s := by
  have hloop : Relates ok (Settled NoStatement) Pulled.OnlyRecords (BoltSession.pullLoop vm limit ctx) s :=
    (pullLoop _ ctx).ensuring ((pullLoop_ensures limit ctx).mono fun _ _ h => h.2)
  refine (composes_settled _).bind hloop fun p _ hp => bind elapsedMs fun _ _ => bind elapsedMs fun _ _ => ?_
  exact ite (pullAborted ctx _) (bind streamCancelled fun _ _ => ite (pullAborted ctx _)
    (ite (returns (summarised_records hp _)) (pullDrained ctx hp _)))

lemma handlePull (msg : PullMessage) : SettlesWith ok (Summarised True) (handlePull vm msg) s := by
  refine get (ite (one id) (ite (one id) ?_))
  cases s.streamCtx with
  | none => exact bind (modify rfl) fun _ _ => one id
  | some ctx =>
    exact (composes_settled _).tryCatch (pullStream msg.n ctx) fun e _ =>
      bind (modify rfl) fun _ _ => bind (abandonStream false) fun _ _ => failure e

lemma handleHello (fields : PackMap) : SettlesWith ok (Summarised pulls) (handleHello fields) s := by
  refine get (ite (one id) (bind (modify rfl) fun _ t => get
    (ite (bind (modify rfl) fun _ _ => ?_) ?_)))
  all_goals
    cases authError t.authScheme fields with
    | none => exact bind (modify rfl) fun _ _ => one id
    | some message => exact one id

lemma handleLogon (fields : PackMap) : SettlesWith ok (Summarised pulls) (handleLogon fields) s := by
  refine get (ite (one id) ?_)
  cases authError ((fields.findString "scheme").getD s.authScheme) fields <;> exact one id

lemma handleReset : SettlesWith ok (Summarised pulls) handleReset s :=
  bind (abandonStream true) fun _ _ => bind (env .rearmCancel trivial) fun _ _ =>
    bind (modify rfl) fun _ _ => one id

lemma handleCommit : SettlesWith ok (Summarised pulls) handleCommit s :=
  get (ite (one id) (ite (one id) (bind commitExplicitTxn fun _ _ =>
    bind (modify rfl) fun _ _ => ite (one id) (bind (bookmarkEntry _) fun _ _ => one id))))

/-- Every handler but that of RUN. -/
theorem dispatch {msg : Message} (hmsg : ∀ m, msg ≠ .run m) :
    SettlesWith ok (Answered msg) (dispatch vm msg) s := by
  cases msg with
  | run m => exact absurd rfl (hmsg m)
  | hello fields => exact handleHello fields
  | logon fields => exact handleLogon fields
  | logoff => exact get (ite (one id) (one id))
  | pull m => exact handlePull m
  | discard =>
    exact get (ite (one id) (bind (abandonStream false) fun _ _ =>
      bind (modify rfl) fun _ _ => one id))
  | begin m =>
    exact get (ite (one id) (ite (one id) (bind (modify rfl) fun _ _ => one id)))
  | commit => exact handleCommit
  | rollback =>
    exact get (ite (one id) (ite (one id) (bind rollbackExplicitTxn fun _ _ =>
      bind (modify rfl) fun _ _ => one id)))
  | route m => exact get (ite (one id) (ite (one id) (one id)))
  | reset => exact handleReset
  | goodbye => exact bind (abandonStream true) fun _ _ => bind (modify rfl) fun _ _ => returns rfl
  | telemetry | malformed => exact one id

end Settles

/-! ### The handler of RUN -/

section Run

variable {vm : ValueMapping V D} {s : BoltSession V D} {ok : (c : EnvCall V) → Answer V D c → Prop}

/-- A failed statement gives the session back. -/
lemma runFailed_settles (e : StdException) : SettlesWith ok (Summarised False) (runFailed e) s :=
  Settles.get (Settles.ite (Settles.bind Settles.rollbackExplicitTxn fun _ _ =>
    Settles.bind (Settles.modify rfl) fun _ _ => Settles.bind (Settles.modify rfl) fun _ _ => Settles.failure e)
    (Settles.bind (Settles.modify rfl) fun _ _ => Settles.failure e))

/-- The new statement takes the place of the stream at hand. -/
lemma adopted_settles (exec : CypherExecutionContext V D) : SettlesWith ok (Summarised False) (do
    abandonStream false
    modify fun s => { s with streamCtx := some exec.ctx, labelDefs := exec.labelDefs }
    let tFirst ← elapsedMs
    modify fun s => { s with state := if s.state = .TX_READY then .TX_STREAMING else .STREAMING }
    return [.success [("fields", .list (exec.ctx.columns.map .string)), ("t_first", .int tFirst)]]) s :=
  Settles.bind (Settles.abandonStream false) fun _ _ => Settles.bind (Settles.modify rfl) fun _ _ =>
    Settles.bind Settles.elapsedMs fun _ _ => Settles.bind (Settles.modify rfl) fun _ _ => Settles.one id

/-- The books are kept, whatever is executed. -/
abbrev KeepsBooks {α : Type} (ok : (c : EnvCall V) → Answer V D c → Prop) (P : α → Prop)
    (m : BoltM V D α) (s : BoltSession V D) : Prop := Relates ok (Settled fun _ => True) P m s

lemma SettlesWith.keepsBooks {P : List Reply → Prop} {m : BoltM V D (List Reply)}
    (h : SettlesWith ok P m s) : KeepsBooks ok P m s :=
  h.mono fun _ _ _ hs => ⟨⟨fun _ _ => trivial, hs.1.books⟩, hs.2⟩

/-- A session is taken only where none is in hand. -/
lemma transactionSession_keepsBooks (db : String) :
    KeepsBooks ok (fun _ => True) (transactionSession db : BoltM V D (Option SessionScope)) s := by
  refine Settles.get (Settles.ite ?_ Settles.idle)
  cases htxn : s.explicitTxn with
  | some scope => exact Settles.idle
  | none =>
    have hbegin : ∀ r : Except StdException (Option SessionScope),
      opened [(⟨.beginSession db, r⟩ : BoltEvent V D)] = [] →
        Settled (fun _ => True) s [⟨.beginSession db, r⟩] s :=
      fun r hr => ⟨fun _ _ => trivial, by rw [hr]; exact append_nil _⟩
    refine (yields_bind ..).mpr ((yields_beginSession _).mpr fun r _ => ?_)
    rcases r with e | _ | scope
    · exact ⟨hbegin _ rfl, nofun⟩
    · exact ⟨hbegin _ rfl, fun _ _ => trivial⟩
    · refine ⟨⟨fun _ _ => trivial, ?_⟩, fun _ _ => trivial⟩
      rw [htxn]
      rfl

lemma runStatement_keepsBooks (msg : RunMessage) (params : List (String × V)) :
    KeepsBooks ok (Summarised False) (BoltSession.runStatement msg params) s := by
  refine Settles.get (Settles.bind (Settles.modify rfl) fun _ _ =>
    Settles.bind (transactionSession_keepsBooks _) fun txn t => Settles.bind ?_ fun exec _ =>
      Settles.ite (Settles.bind (Settles.modify rfl) fun _ _ => (adopted_settles exec).keepsBooks)
        (adopted_settles exec).keepsBooks)
  exact (yields_executeCypher ..).mpr fun _ _ =>
    ⟨⟨fun _ _ => trivial, append_nil _⟩, fun _ _ => trivial⟩

lemma dispatch_keepsBooks (msg : Message) : KeepsBooks ok (Answered msg) (dispatch vm msg) s := by
  by_cases hrun : ∃ run, msg = .run run
  · obtain ⟨run, rfl⟩ := hrun
    refine Settles.get (Settles.ite (Settles.one id) (Settles.ite (Settles.one id)
      (Settles.bind Settles.throws fun params _ => ?_)))
    exact (composes_settled _).tryCatch (runStatement_keepsBooks run params)
      fun e _ => (runFailed_settles e).keepsBooks
  · exact (Settles.dispatch fun run hmsg => hrun ⟨run, hmsg⟩).keepsBooks

/-- What a handler throws is answered too; that of GOODBYE throws nothing. -/
lemma dispatch_answers (msg : Message) : Ensures ok (dispatch vm msg) s fun r _ =>
    ∀ e, r = .error e → Answered msg [makeFailureFor e] := by
  cases msg with
  | goodbye =>
    rw [BoltSession.dispatch, handleGoodbye, ensures_bind]
    exact abandonStream_ensures true fun _ h => by cases h
  | _ =>
    apply Ensures.of_forall
    exact fun _ _ e _ => summarised_failure e

/-- What a request keeps, and what it is answered with. -/
theorem processMessage_yields (req : Request) : Yields ok (processMessage vm req) s fun r s' es =>
    Settled (fun _ => True) s es s' ∧ (∀ msg, decodeMessage req = .ok msg → Answered msg (repliesOf r)) ∧
      ((decodeMessage req).isOk = false → Summarised False (repliesOf r)) := by
  have hidle : Settled (fun _ => True) s [] s := (composes_settled _).refl s
  rw [processMessage]
  rcases decodeMessage req with (what | e) | msg
  · exact ⟨hidle, (fun _ h => by cases h), fun _ => summarised_one id⟩
  · exact ⟨⟨hidle.calls, hidle.books⟩, (fun _ h => by cases h), fun _ => summarised_failure e⟩
  · show Yields ok (tryCatch _ _) s _
    rw [yields_tryCatch]
    refine Program.Yields.mono (Program.Yields.and (dispatch_keepsBooks msg)
      (Program.Always.yields (dispatch_answers msg))) ?_
    rintro ⟨e | replies, t⟩ es ⟨⟨hs, hreplies⟩, hthrow⟩
    · refine ⟨(composes_settled _).append hs ⟨fun _ h => absurd h not_mem_nil, append_nil _⟩, ?_,
        fun h => by cases h⟩
      rintro _ ⟨⟩
      exact hthrow e rfl
    · refine ⟨hs, ?_, fun h => by cases h⟩
      rintro _ ⟨⟩
      exact hreplies _ rfl

/-- In every session, a request that does not say GOODBYE is answered with exactly one summary,
after the records of a PULL or alone; GOODBYE is not answered. -/
theorem replies_summarised (vm : ValueMapping V D) (s : BoltSession V D) (a : BoltAction V D) :
    (∀ msg, decodeMessage a.req = .ok msg → Answered msg (exchange vm s a).replies) ∧
      ((decodeMessage a.req).isOk = false → Summarised False (exchange vm s a).replies) := by
  have hyields : Yields (fun _ _ => True) (processMessage vm a.req) s _ := processMessage_yields a.req
  exact (Program.Yields.exchange hyields fun _ _ => trivial).2

end Run

end Eugraph.Service
