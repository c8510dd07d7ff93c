import Eugraph.Lib.Transition
import Eugraph.Service.BoltConnection

/-!
# Messages of a connection: first in, first out, one at a time

The connection is followed by the single-server machine of the library: `Follows` says that
its trace is accepted and ends in the connection's own queue, running message and phase.
Every event keeps that, except the completion of a message whose response closes the
connection from inside the write while another message waits: `finishMessage` looks at the
phase before it writes and not again, and dispatches the next message on a connection that
is closed.
-/

namespace Eugraph.BoltServer

open Lib Lib.Server List Or Connection Option

namespace Connection

/-! ### Frames -/

@[simp] lemma closeConnection_pending (c : Connection) : c.closeConnection.pending = c.pending := by
  rw [closeConnection]
  split <;> rfl

@[simp] lemma closeConnection_running (c : Connection) : c.closeConnection.running = c.running := by
  rw [closeConnection]
  split <;> rfl

@[simp] lemma closeConnection_phase (c : Connection) : c.closeConnection.phase = .CLOSED := by
  rw [closeConnection]
  split
  · assumption
  · rfl

/-- The socket answers the next write by a callback that closes the connection. -/
def ClosesInside (c : Connection) : Prop :=
  c.outcomes.headD .later = .error ∨
    (c.outcomes.headD .later = .success ∧ c.closeAfterWrite = true)

/-- A write: the socket takes it, or the connection closes inside the call; the queue, the
running messages and the flag stay. -/
theorem writeChain_cases (c : Connection) (out : Output) (done : List (ServerAction Bytes Bytes)) :
    (∃ written, c.writeChain out done =
        { c with outcomes := c.outcomes.tail, written := written, trace := c.trace ++ done }) ∨
      (c.ClosesInside ∧ ∃ written trace, (trace = c.trace ∨ trace = c.trace ++ done) ∧
        c.writeChain out done = closeConnection
          { c with outcomes := c.outcomes.tail, written := written, trace := trace }) := by
  rw [writeChain, ClosesInside]
  cases houtcome : c.outcomes.headD .later with
  | later => exact inl ⟨_, rfl⟩
  | success =>
    dsimp only
    rw [writeSuccess]
    cases hclose : c.closeAfterWrite with
    | false => exact inl ⟨c.written ++ [out], by simp⟩
    | true => exact inr ⟨inr ⟨rfl, rfl⟩, c.written ++ [out], _, inr rfl, by simp⟩
  | error => exact inr ⟨inl rfl, _, _, inl rfl, rfl⟩

/-! ### Following the machine -/

/-- The trace leads the machine to the connection's queue, running message and phase. -/
def Follows (c : Connection) (owed : Option Bytes) : Prop :=
  ({} : Server Bytes).replay c.trace =
    some ⟨c.pending, c.running.head?, owed, decide (c.phase = .CLOSED)⟩

variable {c : Connection}

lemma Follows.closeConnection {owed : Option Bytes} (h : c.Follows owed) : c.closeConnection.Follows owed := by
  rw [Connection.closeConnection]
  split
  · exact h
  · next hopen =>
      refine replay_concat h ?_
      simp [Server.next, hopen]

/-- A write that means nothing to a message. -/
theorem Follows.writeChain {owed : Option Bytes} (h : c.Follows owed)
    (out : Output) : (c.writeChain out []).Follows owed := by
  rcases writeChain_cases c out [] with ⟨_, heq⟩ | ⟨_, _, trace, htrace, heq⟩
  · rw [heq, Follows, append_nil]
    exact h
  · rw [heq]
    refine Follows.closeConnection ?_
    rcases htrace with rfl | rfl
    · exact h
    · rw [Follows, append_nil]
      exact h

/-- The response to the message that finished last. -/
theorem Follows.sendReply {message : Bytes} (h : c.Follows (some message))
    (data : Bytes) : ∃ owed, (c.sendResponse data [.reply message data]).Follows owed := by
  rw [sendResponse]
  split
  · exact ⟨_, h⟩
  · next hcond =>
      have hopen : c.phase ≠ .CLOSED := fun hclosed => hcond (inr hclosed)
      have hreply : ({} : Server Bytes).replay (c.trace ++ [.reply message data]) =
          some ⟨c.pending, c.running.head?, none, decide (c.phase = .CLOSED)⟩ := by
        refine replay_concat h ?_
        simp [Server.next, hopen]
      rcases writeChain_cases c (.response data) [.reply message data] with
        ⟨_, heq⟩ | ⟨_, _, trace, htrace, heq⟩
      · rw [heq]
        exact ⟨none, hreply⟩
      · rw [heq]
        rcases htrace with rfl | rfl
        · exact ⟨some message, Follows.closeConnection h⟩
        · exact ⟨none, Follows.closeConnection hreply⟩

/-! ### The invariant -/

/-- The machine follows, one message runs at most, the flag of an open connection says
whether one does, and nothing waits for an idle one. -/
structure Tracks (c : Connection) : Prop where
  follows : ∃ owed, c.Follows owed
  single : c.running.length ≤ 1
  busy : c.phase ≠ .CLOSED → c.messageProcessing = !c.running.isEmpty
  idle : c.phase ≠ .CLOSED → c.running = [] → c.pending = []

lemma tracks_init : Tracks {} := ⟨⟨none, rfl⟩, Nat.zero_le _, fun _ => rfl, fun _ _ => rfl⟩

lemma Tracks.accepted (h : c.Tracks) : Accepted c.trace := by
  obtain ⟨owed, hfollows⟩ := h.follows
  rw [Accepted, hfollows]
  rfl

/-- An idle open connection has started all that arrived. -/
theorem Tracks.starts_of_idle (h : c.Tracks) (hopen : c.phase ≠ .CLOSED)
    (hidle : c.running = []) : starts c.trace = arrivals c.trace := by
  obtain ⟨owed, hfollows⟩ := h.follows
  have harrivals := (books_replay hfollows).arrivals
  rw [h.idle hopen hidle, append_nil] at harrivals
  exact harrivals.symm

/-- A closed connection only has to follow. -/
theorem Tracks.closeConnection (h : c.Tracks) : c.closeConnection.Tracks := by
  obtain ⟨owed, hfollows⟩ := h.follows
  refine ⟨⟨owed, hfollows.closeConnection⟩, ?_, ?_, ?_⟩
  · rw [closeConnection_running]
    exact h.single
  · intro hopen
    exact absurd (closeConnection_phase c) hopen
  · intro hopen
    exact absurd (closeConnection_phase c) hopen

lemma Tracks.writeSuccess (h : c.Tracks) : c.writeSuccess.Tracks := by
  rw [Connection.writeSuccess]
  split
  · exact h.closeConnection
  · exact h

lemma Tracks.writeChain (h : c.Tracks) (out : Output) : (c.writeChain out []).Tracks := by
  obtain ⟨owed, hfollows⟩ := h.follows
  have hwrite := hfollows.writeChain out
  rcases writeChain_cases c out [] with ⟨_, heq⟩ | ⟨_, _, trace, htrace, heq⟩
  · rw [heq] at hwrite ⊢
    exact ⟨⟨owed, hwrite⟩, h.single, h.busy, h.idle⟩
  · rw [heq] at hwrite ⊢
    refine ⟨⟨owed, hwrite⟩, ?_, fun hopen => absurd (closeConnection_phase _) hopen,
      fun hopen => absurd (closeConnection_phase _) hopen⟩
    rw [closeConnection_running]
    exact h.single

lemma Tracks.sendResponse (h : c.Tracks) (data : Bytes) : (c.sendResponse data []).Tracks := by
  rw [Connection.sendResponse]
  split
  · exact h
  · exact h.writeChain _

/-! ### Reading messages -/

/-- The first message of the machine's queue is handed to a coroutine. -/
theorem tracks_dispatchMessage {message : Bytes} (owed : Option Bytes) (h : ({} : Server Bytes).replay c.trace =
      some ⟨message :: c.pending, none, owed, decide (c.phase = .CLOSED)⟩)
    (hrunning : c.running = []) (hopen : c.phase ≠ .CLOSED) :
    (c.dispatchMessage message).Tracks := by
  have hstart : ({} : Server Bytes).replay (c.trace ++ [.start message]) =
      some ⟨c.pending, some message, none, decide (c.phase = .CLOSED)⟩ := by
    refine replay_concat h ?_
    simp [Server.next, hopen]
  refine ⟨⟨none, ?_⟩, ?_, ?_, ?_⟩
  · rw [Follows, dispatchMessage]
    dsimp only
    rw [hrunning]
    exact hstart
  · simp [dispatchMessage, hrunning]
  · simp [dispatchMessage, hrunning]
  · simp [dispatchMessage, hrunning]

/-- A message is queued behind the running one, or started when none runs. -/
theorem Tracks.acceptMessage (h : c.Tracks) (hopen : c.phase ≠ .CLOSED)
    (message : Bytes) : (c.acceptMessage message).Tracks := by
  obtain ⟨owed, hfollows⟩ := h.follows
  have harrive : ({} : Server Bytes).replay (c.trace ++ [.arrive message]) =
      some ⟨c.pending ++ [message], c.running.head?, owed, decide (c.phase = .CLOSED)⟩ := by
    refine replay_concat hfollows ?_
    simp [Server.next, hopen]
  have hbusy := h.busy hopen
  rw [Connection.acceptMessage]
  dsimp only
  by_cases hrunning : c.running = []
  · have hpending := h.idle hopen hrunning
    rw [hrunning, isEmpty_nil, Bool.not_true] at hbusy
    rw [if_neg (by simp [hbusy])]
    rw [hrunning, hpending] at harrive
    refine tracks_dispatchMessage owed ?_ hrunning hopen
    show ({} : Server Bytes).replay (c.trace ++ [.arrive message]) =
      some ⟨message :: c.pending, none, owed, decide (c.phase = .CLOSED)⟩
    rw [hpending]
    exact harrive
  · have hflag : c.messageProcessing = true := by
      rw [hbusy]
      simp [hrunning]
    rw [if_pos hflag]
    exact ⟨⟨owed, harrive⟩, h.single, h.busy, fun _ hnil => absurd hnil hrunning⟩

lemma acceptMessage_phase (c : Connection) (message : Bytes) : (c.acceptMessage message).phase = c.phase := by
  rw [acceptMessage]
  split <;> rfl

section Decoding

variable (cfg : Config)

variable {c : Connection}

lemma Tracks.refuse (h : c.Tracks) (reason : String) : (refuse cfg c reason).Tracks := by
  have hsent := h.sendResponse (cfg.makeFailure "ProtocolError" reason)
  exact Tracks.closeConnection ⟨hsent.follows, hsent.single, hsent.busy, hsent.idle⟩

lemma Tracks.processMessageLoop (fuel : Nat) (h : c.Tracks)
    (hopen : c.phase ≠ .CLOSED) : (processMessageLoop cfg fuel c).Tracks := by
  induction fuel generalizing c with
  | zero => exact h
  | succ fuel ih =>
    rw [processMessageLoop]
    split
    · next hi lo rest hbuf =>
        have hrest : Tracks { c with readBuf := some rest } := ⟨h.follows, h.single, h.busy, h.idle⟩
        dsimp only
        split
        · split
          · exact ih hrest hopen
          · refine ih (hrest.acceptMessage hopen _) ?_
            rw [acceptMessage_phase]
            exact hopen
        · split
          · exact h.refuse cfg _
          · split
            · exact h
            · split
              · exact h.refuse cfg _
              · exact ih ⟨h.follows, h.single, h.busy, h.idle⟩ hopen
    · exact h

lemma Tracks.processMessage (h : c.Tracks) (hopen : c.phase ≠ .CLOSED) : (processMessage cfg c).Tracks :=
  h.processMessageLoop cfg _ hopen

end Decoding

/-! ### Completions -/

/-- The response of `finishMessage` is written and the connection stays open, or it closes
inside the write. -/
theorem sendResponse_cases (c : Connection) (data : Bytes) (done : List (ServerAction Bytes Bytes)) :
    (c.sendResponse data done).pending = c.pending ∧ (c.sendResponse data done).running = c.running ∧
      ((c.sendResponse data done).phase = c.phase ∨ (data ≠ [] ∧ c.phase ≠ .CLOSED ∧ c.ClosesInside)) := by
  rw [sendResponse]
  split
  · exact ⟨rfl, rfl, inl rfl⟩
  · next hcond =>
      rcases writeChain_cases c (.response data) done with ⟨_, heq⟩ | ⟨hinside, _, _, _, heq⟩
      · rw [heq]
        exact ⟨rfl, rfl, inl rfl⟩
      · rw [heq, closeConnection_pending, closeConnection_running]
        exact ⟨rfl, rfl, inr ⟨fun hnil => hcond (inl hnil), fun hclosed => hcond (inr hclosed), hinside⟩⟩

/-- The completion of the running message; `hsafe` excludes the write that closes the
connection while a message waits. -/
theorem Tracks.finishMessage (h : c.Tracks) {message response : Bytes}
    {sessionClosed : Bool} (hmem : message ∈ c.running)
    (hsafe : sessionClosed = false → response ≠ [] → c.phase ≠ .CLOSED → c.ClosesInside → c.pending = []) :
    (c.finishMessage message response sessionClosed).Tracks := by
  obtain ⟨owed, hfollows⟩ := h.follows
  have hrunning : c.running = [message] := by
    obtain ⟨first, hfirst⟩ := length_eq_one_iff.mp (le_antisymm h.single (length_pos_of_mem hmem))
    rw [hfirst, mem_singleton] at hmem
    rw [hfirst, hmem]
  have herase : c.running.erase message = [] := by
    rw [hrunning]
    simp
  -- the state in which the response is sent: nothing runs, and the message may be replied to
  generalize hdone : { c with running := c.running.erase message,
                              trace := c.trace ++ [ServerAction.finish message] } = done
  have hfinish : done.Follows (some message) := by
    rw [← hdone]
    show ({} : Server Bytes).replay (c.trace ++ [.finish message]) =
      some ⟨c.pending, (c.running.erase message).head?, some message, decide (c.phase = .CLOSED)⟩
    rw [herase]
    refine replay_concat hfollows ?_
    simp [Server.next, hrunning]
  have hnone : done.running = [] := by rw [← hdone, herase]
  have hphase : done.phase = c.phase := by rw [← hdone]
  have hpending : done.pending = c.pending := by rw [← hdone]
  have hinside : done.ClosesInside ↔ c.ClosesInside := by rw [← hdone]; exact Iff.rfl
  rw [Connection.finishMessage]
  rw [hdone]
  dsimp only
  have hsingle : done.running.length ≤ 1 := by rw [hnone]; exact Nat.zero_le 1
  split
  · next hclosed =>
      exact ⟨⟨_, hfinish⟩, hsingle, fun hopen => absurd hclosed hopen, fun hopen => absurd hclosed hopen⟩
  · next hopen =>
      obtain ⟨owed', hreply⟩ := hfinish.sendReply response
      obtain ⟨hpend, hrun, hstays⟩ := sendResponse_cases done response [.reply message response]
      cases hsession : sessionClosed with
      | true =>
        refine ⟨⟨owed', hreply.closeConnection⟩, ?_, fun hopen' => absurd (closeConnection_phase _) hopen',
          fun hopen' => absurd (closeConnection_phase _) hopen'⟩
        rw [if_pos rfl, closeConnection_running, hrun]
        exact hsingle
      | false =>
        rw [if_neg (by decide)]
        split
        · next hnil =>
            refine ⟨⟨owed', hreply⟩, ?_, ?_, fun _ _ => hnil⟩
            · show (done.sendResponse response _).running.length ≤ 1
              rw [hrun]
              exact hsingle
            · intro _
              show false = !(done.sendResponse response _).running.isEmpty
              rw [hrun, hnone]
              rfl
        · next next rest hcons =>
            have hcons' : c.pending = next :: rest := by
              rw [← hpending, ← hpend]
              exact hcons
            -- a waiting message and a write that closes exclude each other
            have hstill : (done.sendResponse response [.reply message response]).phase ≠ .CLOSED := by
              rcases hstays with heq | ⟨hne, _, hcloses⟩
              · rw [heq]
                exact hopen
              · have hempty := hsafe hsession hne (hphase ▸ hopen) (hinside.mp hcloses)
                rw [hempty] at hcons'
                exact absurd hcons' (by simp)
            refine tracks_dispatchMessage owed' ?_ (hrun.trans hnone) hstill
            rw [Follows, hrun, hnone, hcons] at hreply
            exact hreply

/-! ### Read events -/

/-- A connection that closed while the buffer was its own has given it up. -/
def BufferGone (c : Connection) : Prop := c.phase = .CLOSED → c.readBuf = none

lemma BufferGone.closeConnection (h : c.BufferGone) : c.closeConnection.BufferGone := by
  rw [Connection.closeConnection]
  split
  · exact h
  · exact fun _ => rfl

lemma BufferGone.writeChain (h : c.BufferGone) (out : Output) : (c.writeChain out []).BufferGone := by
  rcases writeChain_cases c out [] with ⟨_, heq⟩ | ⟨_, _, _, _, heq⟩
  · rw [heq]
    exact h
  · rw [heq]
    exact BufferGone.closeConnection h

lemma Tracks.processHandshake (h : c.Tracks) (hopen : c.phase ≠ .CLOSED)
    (data : Bytes) : (c.processHandshake data).Tracks := by
  rw [Connection.processHandshake]
  split
  · exact h.closeConnection
  · refine Tracks.writeChain ?_ _
    obtain ⟨owed, hfollows⟩ := h.follows
    rw [Follows, decide_eq_false hopen] at hfollows
    exact ⟨⟨owed, hfollows⟩, h.single, fun _ => h.busy hopen, fun _ => h.idle hopen⟩

lemma Tracks.trimFrame (h : c.Tracks) (n : Nat) : (c.trimFrame n).Tracks := by
  rw [Connection.trimFrame]
  split
  · exact h
  · exact ⟨h.follows, h.single, h.busy, h.idle⟩

lemma BufferGone.trimFrame (h : c.BufferGone) (n : Nat) : (c.trimFrame n).BufferGone := by
  rw [Connection.trimFrame]
  split
  · exact h
  · next data hdata =>
      intro hclosed
      exact absurd ((h hclosed).symm.trans hdata) (by simp)

section Reading

variable (cfg : Config)

variable {c : Connection}

lemma Tracks.processDataFrame (h : c.Tracks) (hopen : c.phase ≠ .CLOSED)
    (payload : Bytes) : (processDataFrame cfg c payload).Tracks := by
  rw [Connection.processDataFrame]
  split
  · split
    · exact h.closeConnection
    · refine Tracks.writeChain ?_ _
      obtain ⟨owed, hfollows⟩ := h.follows
      rw [Follows, decide_eq_false hopen] at hfollows
      exact ⟨⟨owed, hfollows⟩, h.single, fun _ => h.busy hopen, fun _ => h.idle hopen⟩
  · have hfed : Tracks { c with readBuf := some payload } := ⟨h.follows, h.single, h.busy, h.idle⟩
    have hdone := hfed.processMessage cfg hopen
    exact ⟨hdone.follows, hdone.single, hdone.busy, hdone.idle⟩

lemma Tracks.processWsFrameLoop (fuel : Nat) (h : c.Tracks)
    (hgone : c.BufferGone) : (processWsFrameLoop cfg fuel c).Tracks := by
  induction fuel generalizing c with
  | zero => exact h
  | succ fuel ih =>
    rw [processWsFrameLoop]
    split
    · exact h
    · next data hdata =>
        have hopen : c.phase ≠ .CLOSED := fun hclosed =>
          absurd ((hgone hclosed).symm.trans hdata) (by simp)
        have proceed : ∀ {c' : Connection} (n : Nat), c'.Tracks → c'.BufferGone →
            (processWsFrameLoop cfg fuel (c'.trimFrame n)).Tracks :=
          fun n h' hgone' => ih (h'.trimFrame n) (hgone'.trimFrame n)
        split
        · exact h
        · next hdr _ =>
            dsimp only
            split
            · exact h.closeConnection
            · split
              · exact h
              · have hframe := h.processDataFrame cfg hopen (framePayload hdr data)
                generalize Connection.processDataFrame cfg c (framePayload hdr data) = fed at hframe ⊢
                have hdataFrame : (if hdr.fin = false then c.closeConnection
                    else if fed.phase = .CLOSED then fed
                    else Connection.processWsFrameLoop cfg fuel
                      (fed.trimFrame (hdr.headerSize + hdr.payloadLen))).Tracks := by
                  split
                  · exact h.closeConnection
                  · split
                    · exact hframe
                    · next hstill => exact proceed _ hframe fun hclosed => absurd hclosed hstill
                split
                · exact hdataFrame
                · exact hdataFrame
                · exact proceed _ (h.writeChain _) (hgone.writeChain _)
                · have hcancel : Tracks { c with cancelRequested := true } := ⟨h.follows, h.single, h.busy, h.idle⟩
                  exact (hcancel.writeChain _).closeConnection
                · exact proceed _ h hgone

lemma Tracks.processWsHandshake (h : c.Tracks) (hgone : c.BufferGone) : (processWsHandshake cfg c).Tracks := by
  rw [Connection.processWsHandshake]
  dsimp only
  split
  · split
    · exact h.closeConnection
    · exact h
  · split
    · exact h.closeConnection
    · split
      · have hflag : Tracks { c with closeAfterWrite := true } := ⟨h.follows, h.single, h.busy, h.idle⟩
        exact hflag.writeChain _
      · next request _ _ =>
          have htrim := (h.writeChain (.upgrade request.key)).trimFrame (findHeaderEnd (c.readBuf.getD []))
          have hframed : Tracks { ((c.writeChain (.upgrade request.key) []).trimFrame
              (findHeaderEnd (c.readBuf.getD []))) with transport := .WS_FRAMED } :=
            ⟨htrim.follows, htrim.single, htrim.busy, htrim.idle⟩
          have hgone' := (hgone.writeChain (.upgrade request.key)).trimFrame (findHeaderEnd (c.readBuf.getD []))
          split
          · exact hframed.processWsFrameLoop cfg _ hgone'
          · exact hframed

lemma Tracks.detectProtocol (h : c.Tracks) (hopen : c.phase ≠ .CLOSED) : (detectProtocol cfg c).Tracks := by
  rw [Connection.detectProtocol]
  split
  · exact h
  · split
    · have hupgrade : Tracks { c with transport := .WS_HANDSHAKE } := ⟨h.follows, h.single, h.busy, h.idle⟩
      exact hupgrade.processWsHandshake cfg fun hclosed => absurd hclosed hopen
    · exact ⟨h.follows, h.single, h.busy, h.idle⟩

lemma Tracks.processRaw (h : c.Tracks) (hopen : c.phase ≠ .CLOSED) : (processRaw cfg c).Tracks := by
  rw [Connection.processRaw]
  dsimp only
  split
  · split
    · have hshake := h.processHandshake hopen (c.readBuf.getD [])
      split
      · exact hshake
      · next hcond => exact hshake.processMessage cfg fun hclosed => hcond (inl hclosed)
    · exact h
  · exact h.processMessage cfg hopen

lemma Tracks.readDataAvailable (h : c.Tracks) (hopen : c.phase ≠ .CLOSED)
    (bytes : Bytes) : (readDataAvailable cfg c bytes).Tracks := by
  have hfed : Tracks { c with readBuf := some (c.readBuf.getD [] ++ bytes) } := ⟨h.follows, h.single, h.busy, h.idle⟩
  rw [Connection.readDataAvailable]
  dsimp only
  generalize hdetected : (if c.transport = .DETECTING then
    Connection.detectProtocol cfg { c with readBuf := some (c.readBuf.getD [] ++ bytes) }
    else { c with readBuf := some (c.readBuf.getD [] ++ bytes) }) = detected
  have htracks : detected.Tracks := by
    rw [← hdetected]
    split
    · exact hfed.detectProtocol cfg hopen
    · exact hfed
  split
  · exact htracks
  · next hstill =>
      have hgone : detected.BufferGone := fun hclosed => absurd hclosed hstill
      split
      · exact htracks
      · exact htracks.processWsHandshake cfg hgone
      · exact htracks.processWsFrameLoop cfg _ hgone
      · exact htracks.processRaw cfg hstill

end Reading

end Connection

/-! ### Runs -/

instance (c : Connection) : Decidable c.ClosesInside := inferInstanceAs (Decidable (_ ∨ _))

/-- The completion of a message that is answered on a session that goes on. -/
def Occasion.answers : Occasion → Bool
  | .finish _ response sessionClosed => !sessionClosed && !response.isEmpty
  | _ => false

/-- No completion writes a response that closes the connection from inside the write while
another message waits. -/
def QueueSafe (c : Connection) (e : Event) : Prop :=
  e.occasion.answers = true → c.phase ≠ .CLOSED →
    Connection.ClosesInside { c with outcomes := e.outcomes } → c.pending = []

instance (c : Connection) (e : Event) : Decidable (QueueSafe c e) :=
  inferInstanceAs (Decidable (_ → _))

/-- One event keeps the invariant. -/
theorem Connection.Tracks.step {cfg : Config} {c c' : Connection} {e : Event} (h : c.Tracks)
    (hsafe : QueueSafe c e) (hstep : c.step cfg e = some c') : c'.Tracks := by
  have hready : Tracks { c with outcomes := e.outcomes } := ⟨h.follows, h.single, h.busy, h.idle⟩
  rw [Connection.step] at hstep
  dsimp only at hstep
  split at hstep
  · next bytes _ =>
      split at hstep
      · exact (nomatch hstep)
      · next hopen =>
          obtain rfl := some.inj hstep
          exact hready.readDataAvailable cfg hopen bytes
  · obtain rfl := some.inj hstep
    exact hready.closeConnection
  · obtain rfl := some.inj hstep
    exact hready.closeConnection
  · obtain rfl := some.inj hstep
    exact hready.closeConnection
  · obtain rfl := some.inj hstep
    exact hready.writeSuccess
  · obtain rfl := some.inj hstep
    exact hready.closeConnection
  · next message response sessionClosed hoccasion =>
      split at hstep
      · next hmem =>
          obtain rfl := some.inj hstep
          refine hready.finishMessage hmem fun hsession hresponse hopen hinside => ?_
          refine hsafe ?_ hopen hinside
          rw [hoccasion]
          simp [Occasion.answers, hsession, hresponse]
      · exact (nomatch hstep)

/-- In every run without a response that closes the connection while a message waits: at
most one message is being processed, at the end and at every earlier moment; messages are
started in the order they arrived, and finish in it; an idle open connection has started
all of them; responses are written in that order; and nothing is started after the close. -/
theorem messages_first_in_first_out {cfg : Config} {c : Connection}
    (h : Reaches (step cfg) QueueSafe {} c) :
    c.running.length ≤ 1 ∧ starts c.trace <+: arrivals c.trace ∧
      (c.phase ≠ .CLOSED → c.running = [] → starts c.trace = arrivals c.trace) ∧
      (∀ p, p <+: c.trace → finishes p <+: starts p ∧ (starts p).length ≤ (finishes p).length + 1) ∧
      (replied c.trace).Sublist (finishes c.trace) ∧
      ∀ p u, c.trace = p ++ .close :: u → starts u = [] := by
  have htracks : c.Tracks := h.invariant Connection.Tracks tracks_init
    fun s a s' hs hguard hstep => hs.step hguard hstep
  have haccepted := htracks.accepted
  refine ⟨htracks.single, haccepted.starts_prefix, htracks.starts_of_idle, ?_, haccepted.replies_in_order, ?_⟩
  · intro p hp
    exact (haccepted.isPrefix hp).one_at_a_time
  · intro p u htrace
    rw [htrace] at haccepted
    exact haccepted.no_start_after_close

/-- A handshake that proposes 5.1 and nothing else. -/
def handshake51 : Bytes :=
  [0x60, 0x60, 0xB0, 0x17, 0, 0, 5, 1, 0, 0, 0, 0, 0, 0, 0, 0, 0, 0, 0, 0]

/-- RESET and GOODBYE, one chunk each. -/
def twoMessages : Bytes := [0, 2, 0xB0, 0x0F, 0, 0, 0, 2, 0xB0, 0x02, 0, 0]

def sampleConfig : Config where
  originAllowed := fun _ => true
  makeFailure := fun _ _ => [0xB1, 0x7F, 0xA0]

theorem messages_first_in_first_out_twoMessages : ∃ c, Reaches (step sampleConfig) QueueSafe {} c ∧
      starts c.trace = [[0xB0, 0x0F], [0xB0, 0x02]] ∧ c.running.length ≤ 1 := by
  have hrun : (runGuarded (step sampleConfig) QueueSafe {} [⟨.read (handshake51 ++ twoMessages), []⟩,
        ⟨.finish [0xB0, 0x0F] [0xB1, 0x70, 0xA0] false, [.success]⟩]).map
          (fun c => starts c.trace) = some [[0xB0, 0x0F], [0xB0, 0x02]] := by
    decide +kernel
  obtain ⟨c, hc, hstarts⟩ := map_eq_some_iff.mp hrun
  have hreach := reaches_of_runGuarded _ hc
  exact ⟨c, hreach, hstarts, (messages_first_in_first_out hreach).1⟩

/-- Two messages arrive together; the response to the first fails inside the write, which
closes the connection, and the second is dispatched all the same. -/
theorem message_dispatched_after_close :
    ∃ c, Reaches (step sampleConfig) (fun _ _ => True) {} c ∧ c.phase = .CLOSED ∧
      ∃ p u, c.trace = p ++ .close :: u ∧ starts u = [[0xB0, 0x02]] := by
  have hrun : (runGuarded (step sampleConfig) (fun _ _ => True) {}
      [⟨.read (handshake51 ++ twoMessages), []⟩, ⟨.finish [0xB0, 0x0F] [0xB1, 0x70, 0xA0] false, [.error]⟩]).map
          (fun c => (c.phase, c.trace)) =
      some (.CLOSED, [.arrive [0xB0, 0x0F], .start [0xB0, 0x0F], .arrive [0xB0, 0x02],
        .finish [0xB0, 0x0F], .close, .start [0xB0, 0x02]]) := by
    decide +kernel
  obtain ⟨c, hc, hfacts⟩ := map_eq_some_iff.mp hrun
  obtain ⟨hphase, htrace⟩ := Prod.mk.inj hfacts
  exact ⟨c, reaches_of_runGuarded _ hc, hphase,
    [.arrive [0xB0, 0x0F], .start [0xB0, 0x0F], .arrive [0xB0, 0x02], .finish [0xB0, 0x0F]],
    [.start [0xB0, 0x02]], htrace, rfl⟩

end Eugraph.BoltServer
