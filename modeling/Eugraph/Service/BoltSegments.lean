import Eugraph.Lib.Incremental
import Eugraph.Service.BoltOrder

/-!
# Segments of the byte stream

What a connection makes of its input when the input comes in pieces.  The chunk decoder is
an incremental scanner, so behind the handshake the pieces do not matter: `ChunkState` is
what it has made of the bytes so far and `chunkAttempt` one round of it.

The handshake is not incremental.  It is handled as soon as eight bytes are there, with
all that is buffered: proposals that come later are read as chunks, and bytes of the first
messages that are already there are read as proposals.
-/

namespace Eugraph.BoltServer

open Lib Lib.Server List Option Connection

/-! ### The chunk decoder as a scanner -/

/-- The message being put together, the messages completed, and whether the decoder gave up. -/
structure ChunkState where
  accumulator : Bytes := []
  messages : List Bytes := []
  refused : Bool := false

/-- A terminator: it completes a message, or is a no-op. -/
def ChunkState.terminate (s : ChunkState) : ChunkState :=
  if s.accumulator = [] then s
  else { s with accumulator := [], messages := s.messages ++ [s.accumulator] }

/-- One round of the decoder, and the bytes it takes. -/
def chunkAttempt (s : ChunkState) : Bytes → Option (ChunkState × Nat)
  | hi :: lo :: rest =>
    let chunkSize := wordValue [hi, lo]
    if s.refused then none
    else if chunkSize = 0 then some (s.terminate, 2)
    else if BOLT_MAX_CHUNK_SIZE < chunkSize then
      some ({ s with accumulator := [], refused := true }, 2)
    else if rest.length < chunkSize then none
    else if BOLT_MAX_MESSAGE_SIZE < s.accumulator.length + chunkSize then
      some ({ s with accumulator := [], refused := true }, 2)
    else some ({ s with accumulator := s.accumulator ++ rest.take chunkSize }, 2 + chunkSize)
  | _ => none

lemma incremental_chunkAttempt : Incremental chunkAttempt where
  takes := by
    intro s s' buf n h
    rcases buf with _ | ⟨hi, _ | ⟨lo, rest⟩⟩
    · exact (nomatch h)
    · exact (nomatch h)
    · simp only [chunkAttempt] at h
      simp only [length_cons]
      split_ifs at h <;> (simp only [Option.some.injEq, Prod.mk.injEq] at h; omega)
  stable := by
    intro s s' buf n more h
    rcases buf with _ | ⟨hi, _ | ⟨lo, rest⟩⟩
    · exact (nomatch h)
    · exact (nomatch h)
    · simp only [chunkAttempt, cons_append] at h ⊢
      by_cases hshort : rest.length < wordValue [hi, lo]
      · -- only a chunk that is refused for its size may be incomplete
        rw [if_pos hshort] at h
        split_ifs at h ⊢ <;> simp_all
      · have hlong : ¬ (rest ++ more).length < wordValue [hi, lo] := by
          rw [length_append]
          omega
        rw [if_neg hshort] at h
        rw [if_neg hlong, take_append_of_le_length (by omega)]
        exact h

lemma chunkAttempt_refused {s : ChunkState} (hrefused : s.refused = true) (buf : Bytes) :
    chunkAttempt s buf = none := by
  rcases buf with _ | ⟨hi, _ | ⟨lo, rest⟩⟩
  · rfl
  · rfl
  · simp [chunkAttempt, hrefused]

namespace Connection

/-- What the decoder of a connection has made of its input. -/
def decoded (c : Connection) : ChunkState :=
  ⟨c.accumulator, arrivals c.trace, decide (c.phase = .CLOSED)⟩

/-- The connection survives the writes of the event being handled. -/
structure Steady (c : Connection) : Prop where
  noError : .error ∉ c.outcomes
  staysOpen : c.closeAfterWrite = false

variable {c : Connection}

lemma Steady.not_closesInside (h : c.Steady) : ¬ c.ClosesInside := by
  rintro (herror | ⟨_, hclose⟩)
  · refine h.noError ?_
    cases houtcomes : c.outcomes with
    | nil =>
      rw [houtcomes] at herror
      exact (nomatch herror)
    | cons first rest =>
      rw [houtcomes, headD_cons] at herror
      rw [herror]
      exact mem_cons_self
  · exact absurd (h.staysOpen.symm.trans hclose) (by decide)

/-- A write only uses up an outcome. -/
theorem Steady.writeChain (h : c.Steady) (out : Output) (done : List (ServerAction Bytes Bytes)) :
    ∃ written, c.writeChain out done =
      { c with outcomes := c.outcomes.tail, written := written, trace := c.trace ++ done } := by
  rcases writeChain_cases c out done with hwrite | ⟨hinside, _⟩
  · exact hwrite
  · exact absurd hinside h.not_closesInside

@[simp] lemma arrivals_close (t : List (ServerAction Bytes Bytes)) : arrivals (t ++ [.close]) = arrivals t := by
  rw [arrivals_concat]
  exact append_nil _

/-- What no amount of input changes on a connection that is set up. -/
structure Kept (c c' : Connection) : Prop where
  transport : c'.transport = c.transport
  negotiatedVersion : c'.negotiatedVersion = c.negotiatedVersion
  closeAfterWrite : c'.closeAfterWrite = c.closeAfterWrite
  outcomes : ∀ o ∈ c'.outcomes, o ∈ c.outcomes

lemma Kept.refl (c : Connection) : c.Kept c := ⟨rfl, rfl, rfl, fun _ h => h⟩

variable {c' : Connection}

lemma Kept.trans {c'' : Connection} (h : c.Kept c') (h' : c'.Kept c'') : c.Kept c'' :=
  ⟨h'.transport.trans h.transport, h'.negotiatedVersion.trans h.negotiatedVersion,
    h'.closeAfterWrite.trans h.closeAfterWrite, fun o ho => h.outcomes o (h'.outcomes o ho)⟩

lemma Kept.steady (h : c.Kept c') (hsteady : c.Steady) : c'.Steady :=
  ⟨fun hmem => hsteady.noError (h.outcomes _ hmem), h.closeAfterWrite.trans hsteady.staysOpen⟩

lemma kept_closeConnection (c : Connection) : c.Kept c.closeConnection := by
  rw [closeConnection]
  split <;> exact ⟨rfl, rfl, rfl, fun _ h => h⟩

lemma kept_writeChain (c : Connection) (out : Output) (done : List (ServerAction Bytes Bytes)) :
    c.Kept (c.writeChain out done) := by
  rcases writeChain_cases c out done with ⟨_, heq⟩ | ⟨_, _, _, _, heq⟩
  · rw [heq]
    exact ⟨rfl, rfl, rfl, fun _ h => mem_of_mem_tail h⟩
  · have htaken : ∀ written trace, c.Kept
        { c with outcomes := c.outcomes.tail, written := written, trace := trace } :=
      fun _ _ => ⟨rfl, rfl, rfl, fun _ h => mem_of_mem_tail h⟩
    rw [heq]
    exact (htaken _ _).trans (kept_closeConnection _)

lemma kept_sendResponse (c : Connection) (data : Bytes)
    (done : List (ServerAction Bytes Bytes)) : c.Kept (c.sendResponse data done) := by
  rw [sendResponse]
  split
  · exact Kept.refl c
  · exact kept_writeChain c _ done

lemma kept_acceptMessage (c : Connection) (message : Bytes) : c.Kept (c.acceptMessage message) := by
  rw [acceptMessage]
  split <;> exact ⟨rfl, rfl, rfl, fun _ h => h⟩

/-! ### Arrivals -/

lemma arrivals_closeConnection (c : Connection) : arrivals c.closeConnection.trace = arrivals c.trace := by
  rw [closeConnection]
  split
  · rfl
  · exact arrivals_close c.trace

/-- No write is an arrival. -/
theorem arrivals_writeChain (c : Connection) (out : Output)
    {done : List (ServerAction Bytes Bytes)} (hdone : arrivals done = []) :
    arrivals (c.writeChain out done).trace = arrivals c.trace := by
  have happend : arrivals (c.trace ++ done) = arrivals c.trace := by
    rw [arrivals, filterMap_append]
    exact (congrArg (arrivals c.trace ++ ·) hdone).trans (append_nil _)
  rcases writeChain_cases c out done with ⟨_, heq⟩ | ⟨_, _, trace, htrace, heq⟩
  · rw [heq]
    exact happend
  · rw [heq, arrivals_closeConnection]
    rcases htrace with rfl | rfl
    · rfl
    · exact happend

lemma arrivals_sendResponse (c : Connection) (data : Bytes)
    {done : List (ServerAction Bytes Bytes)} (hdone : arrivals done = []) :
    arrivals (c.sendResponse data done).trace = arrivals c.trace := by
  rw [sendResponse]
  split
  · rfl
  · exact arrivals_writeChain c _ hdone

/-! ### Decoding -/

lemma acceptMessage_decoded (c : Connection) (message : Bytes) : (c.acceptMessage message).decoded =
      ⟨[], arrivals c.trace ++ [message], decide (c.phase = .CLOSED)⟩ := by
  have harrive : arrivals (c.trace ++ [.arrive message]) = arrivals c.trace ++ [message] := arrivals_concat c.trace _
  rw [acceptMessage, decoded]
  dsimp only
  split
  · rw [harrive]
  · rw [dispatchMessage]
    dsimp only
    rw [arrivals_concat, harrive]
    simp [ServerAction.arrived]

lemma acceptMessage_readBuf (c : Connection) (message : Bytes) : (c.acceptMessage message).readBuf = c.readBuf := by
  rw [acceptMessage]
  split <;> rfl

section Decoding

variable (cfg : Config)

lemma refuse_decoded (c : Connection) (reason : String) :
    (refuse cfg c reason).decoded = ⟨[], arrivals c.trace, true⟩ := by
  have harrivals : arrivals (sendResponse c (cfg.makeFailure "ProtocolError" reason) []).trace =
      arrivals c.trace := arrivals_sendResponse c _ rfl
  rw [refuse, decoded, arrivals_closeConnection, closeConnection_phase]
  refine congrArg₂ (fun acc msgs => ChunkState.mk acc msgs true) ?_ harrivals
  rw [closeConnection]
  split <;> rfl

lemma kept_refuse (c : Connection) (reason : String) : c.Kept (refuse cfg c reason) := by
  have hsent := kept_sendResponse c (cfg.makeFailure "ProtocolError" reason) []
  have hcleared : c.Kept { sendResponse c (cfg.makeFailure "ProtocolError" reason) [] with
      accumulator := [] } :=
    ⟨hsent.transport, hsent.negotiatedVersion, hsent.closeAfterWrite, hsent.outcomes⟩
  exact hcleared.trans (kept_closeConnection _)

/-- The connection `c` has become `c'` by input that took its decoder to `r`. -/
structure Decodes (c c' : Connection) (r : ChunkState × Bytes) : Prop where
  decoded : c'.decoded = r.1
  kept : c.Kept c'
  remains : c'.phase ≠ .CLOSED → c'.phase = c.phase ∧ c'.readBuf.getD [] = r.2

variable {c : Connection}

lemma Decodes.trans {c' c'' : Connection} {r : ChunkState × Bytes} (hkept : c.Kept c')
    (hphase : c'.phase = c.phase) (h : c'.Decodes c'' r) : c.Decodes c'' r :=
  ⟨h.decoded, hkept.trans h.kept, fun hopen =>
    ⟨(h.remains hopen).1.trans hphase, (h.remains hopen).2⟩⟩

/-- A connection that gives up is where the scanner stays. -/
theorem decodes_refuse (c : Connection) (reason : String) (fuel : Nat) (buf : Bytes) :
    c.Decodes (refuse cfg c reason)
      (drainWithin chunkAttempt fuel ⟨[], arrivals c.trace, true⟩ buf) := by
  rw [drainWithin_of_none (chunkAttempt_refused rfl buf)]
  exact ⟨refuse_decoded cfg c reason, kept_refuse cfg c reason, fun hopen => absurd (closeConnection_phase _) hopen⟩

/-- The loop of the connection is the scanner. -/
theorem decodes_processMessageLoop (fuel : Nat) {buf : Bytes}
    (hbuf : c.readBuf = some buf) (hopen : c.phase ≠ .CLOSED) :
    c.Decodes (processMessageLoop cfg fuel c) (drainWithin chunkAttempt fuel c.decoded buf) := by
  have hgetD : c.readBuf.getD [] = buf := by rw [hbuf]; rfl
  induction fuel generalizing c buf with
  | zero => exact ⟨rfl, Kept.refl c, fun _ => ⟨rfl, hgetD⟩⟩
  | succ fuel ih =>
    rcases buf with _ | ⟨hi, _ | ⟨lo, rest⟩⟩
    · rw [processMessageLoop, hbuf]
      exact ⟨rfl, Kept.refl c, fun _ => ⟨rfl, hgetD⟩⟩
    · rw [processMessageLoop, hbuf]
      exact ⟨rfl, Kept.refl c, fun _ => ⟨rfl, hgetD⟩⟩
    · have hstate : c.decoded = ⟨c.accumulator, arrivals c.trace, false⟩ := by
        rw [decoded, decide_eq_false hopen]
      have hnext : ∀ (c' : Connection) {rest' : Bytes}, c.Kept c' → c'.phase = c.phase →
          c'.readBuf = some rest' → c.Decodes (processMessageLoop cfg fuel c')
            (drainWithin chunkAttempt fuel c'.decoded rest') := by
        intro c' rest' hkept hphase hbuf'
        refine Decodes.trans hkept hphase (ih hbuf' ?_ (by rw [hbuf']; rfl))
        rw [hphase]
        exact hopen
      rw [processMessageLoop, hbuf, drainWithin, chunkAttempt, hstate]
      simp only [Bool.false_eq_true, if_false]
      split
      · -- a terminator completes a message or is a no-op
        rw [ChunkState.terminate]
        dsimp only
        split
        · have hno := hnext { c with readBuf := some rest } ⟨rfl, rfl, rfl, fun _ h => h⟩ rfl rfl
          rw [decoded, decide_eq_false hopen] at hno
          exact hno
        · have hread : c.Kept { c with readBuf := some rest } := ⟨rfl, rfl, rfl, fun _ h => h⟩
          have haccept := hnext _ (hread.trans (kept_acceptMessage _ c.accumulator))
            (acceptMessage_phase _ _) (acceptMessage_readBuf _ _)
          rw [acceptMessage_decoded, decide_eq_false hopen] at haccept
          exact haccept
      · split
        · exact decodes_refuse cfg c _ fuel _
        · split
          · exact ⟨hstate, Kept.refl c, fun _ => ⟨rfl, hgetD⟩⟩
          · split
            · exact decodes_refuse cfg c _ fuel _
            · have hchunk := hnext { c with
                  accumulator := c.accumulator ++ rest.take (wordValue [hi, lo])
                  readBuf := some (rest.drop (wordValue [hi, lo])) }
                ⟨rfl, rfl, rfl, fun _ h => h⟩ rfl rfl
              rw [decoded, decide_eq_false hopen] at hchunk
              have hdrop : (hi :: lo :: rest).drop (2 + wordValue [hi, lo]) = rest.drop (wordValue [hi, lo]) := by
                rw [← drop_drop]
                rfl
              dsimp only
              rw [hdrop]
              exact hchunk

/-- `processMessage` runs the scanner until it waits. -/
theorem decodes_processMessage {buf : Bytes} (hbuf : c.readBuf = some buf) (hopen : c.phase ≠ .CLOSED) :
    c.Decodes (processMessage cfg c) (drain chunkAttempt c.decoded buf) := by
  have h := decodes_processMessageLoop cfg buf.length hbuf hopen
  rw [processMessage, hbuf]
  exact h

end Decoding

/-! ### An established connection -/

/-- Behind the handshake: the version is settled and the decoder has come to `r`. -/
structure Established (c : Connection) (transport : Transport) (version : Nat)
    (r : ChunkState × Bytes) : Prop where
  transport : c.transport = transport
  version : c.negotiatedVersion = version
  staysOpen : c.closeAfterWrite = false
  decoded : c.decoded = r.1
  remains : c.phase ≠ .CLOSED → c.phase = .MESSAGES ∧ c.readBuf.getD [] = r.2

lemma Established.of_decodes {transport : Transport} {version : Nat}
    {r : ChunkState × Bytes} (h : c.Decodes c' r) (htransport : c.transport = transport)
    (hversion : c.negotiatedVersion = version) (hstays : c.closeAfterWrite = false)
    (hphase : c.phase = .MESSAGES) : c'.Established transport version r :=
  ⟨h.kept.transport.trans htransport, h.kept.negotiatedVersion.trans hversion,
    h.kept.closeAfterWrite.trans hstays, h.decoded, fun hopen =>
      ⟨(h.remains hopen).1.trans hphase, (h.remains hopen).2⟩⟩

/-- A response on a connection that stays up changes nothing but the books. -/
theorem Steady.sendResponse (h : c.Steady) (data : Bytes)
    {done : List (ServerAction Bytes Bytes)} (hdone : arrivals done = []) :
    ∃ outcomes written trace, arrivals trace = arrivals c.trace ∧ c.sendResponse data done =
      { c with outcomes := outcomes, written := written, trace := trace } := by
  have harrivals := arrivals_sendResponse c data hdone
  rw [Connection.sendResponse] at harrivals ⊢
  split at harrivals
  · next hcond =>
      rw [if_pos hcond]
      exact ⟨_, _, _, rfl, rfl⟩
  · next hcond =>
      rw [if_neg hcond]
      obtain ⟨written, hwrite⟩ := h.writeChain (.response data) done
      rw [hwrite] at harrivals ⊢
      exact ⟨_, _, _, harrivals, rfl⟩

lemma Established.finishMessage {transport : Transport} {version : Nat}
    {r : ChunkState × Bytes} (h : c.Established transport version r)
    (hnoError : .error ∉ c.outcomes) (message response : Bytes) :
    (c.finishMessage message response false).Established transport version r := by
  have hfinish : arrivals (c.trace ++ [.finish message]) = arrivals c.trace := by
    rw [arrivals_concat]
    exact append_nil _
  have hdecoded := h.decoded
  rw [Connection.decoded, ← hfinish] at hdecoded
  rw [Connection.finishMessage]
  dsimp only
  split
  · next hclosed => exact ⟨h.transport, h.version, h.staysOpen, hdecoded, h.remains⟩
  · next hopen =>
      have hsteady : Steady { c with running := c.running.erase message,
                                     trace := c.trace ++ [.finish message] } :=
        ⟨hnoError, h.staysOpen⟩
      have hreply : arrivals [ServerAction.reply message response] = [] := rfl
      obtain ⟨outcomes, written, trace, htrace, hsent⟩ := hsteady.sendResponse response hreply
      rw [if_neg (by decide), hsent]
      dsimp only at htrace ⊢
      rw [← htrace] at hdecoded
      split
      · exact ⟨h.transport, h.version, h.staysOpen, hdecoded, h.remains⟩
      · next next rest _ =>
          have hstart : arrivals (trace ++ [.start next]) = arrivals trace := by
            rw [arrivals_concat]
            exact append_nil _
          rw [← hstart] at hdecoded
          exact ⟨h.transport, h.version, h.staysOpen, hdecoded, h.remains⟩

end Connection

/-! ### Runs of a connection that stays up -/

def Occasion.bytes : Occasion → Bytes
  | .read bytes => bytes
  | _ => []

/-- A read, a write that is done, or the completion of a message on a session that goes on. -/
def Occasion.goesOn : Occasion → Bool
  | .read _ | .writeSuccess | .finish _ _ false => true
  | _ => false

/-- An event of a connection on which no write fails and that neither side ends. -/
def Event.Quiet (e : Event) : Prop := e.occasion.goesOn = true ∧ .error ∉ e.outcomes

instance (e : Event) : Decidable e.Quiet := inferInstanceAs (Decidable (_ ∧ _))

/-- The bytes the events deliver. -/
def received (events : List Event) : Bytes := (events.map (·.occasion.bytes)).flatten

/-- The connection after the events; what a closed connection cannot take is lost. -/
def Connection.after (cfg : Config) (c : Connection) (events : List Event) : Connection :=
  events.foldl (fun c e => (c.step cfg e).getD c) c

/-- Reading on the transport runs the scanner over what is buffered and what comes. -/
structure ScannedBy (cfg : Config) (transport : Transport)
    (attempt : ChunkState → Bytes → Option (ChunkState × Nat)) : Prop where
  incremental : Incremental attempt
  stops : ∀ {s buf}, s.refused = true → attempt s buf = none
  reads : ∀ {c : Connection} {version r} (bytes : Bytes), c.Established transport version r →
    c.phase ≠ .CLOSED → .error ∉ c.outcomes →
    (c.readDataAvailable cfg bytes).Established transport version
      (drain attempt r.1 (r.2 ++ bytes))

namespace Connection

variable {cfg : Config} {c : Connection}

lemma Established.step {transport : Transport} {attempt : ChunkState → Bytes → Option (ChunkState × Nat)}
    (hscan : ScannedBy cfg transport attempt) {version : Nat} {s : ChunkState}
    {got : Bytes} (h : c.Established transport version (drain attempt s got)) {e : Event}
    (hquiet : e.Quiet) :
    ((c.step cfg e).getD c).Established transport version
      (drain attempt s (got ++ e.occasion.bytes)) := by
  have hready : Established { c with outcomes := e.outcomes } transport version
      (drain attempt s got) := ⟨h.transport, h.version, h.staysOpen, h.decoded, h.remains⟩
  obtain ⟨hgoes, hnoError⟩ := hquiet
  rw [Connection.step]
  dsimp only
  cases hoccasion : e.occasion with
  | read bytes =>
    rw [Occasion.bytes, hscan.incremental.drain_append]
    dsimp only
    split
    · -- a closed connection has refused, and the scanner takes nothing more
      next hclosed =>
        have hrefused : (drain attempt s got).1.refused = true := by
          rw [← h.decoded]
          exact decide_eq_true hclosed
        rw [drain_of_none (hscan.stops hrefused)]
        exact ⟨h.transport, h.version, h.staysOpen, h.decoded, fun hopen => absurd hclosed hopen⟩
    · next hopen => exact hscan.reads bytes hready hopen hnoError
  | writeSuccess =>
    rw [show Occasion.writeSuccess.bytes = [] from rfl, append_nil]
    show ({ c with outcomes := e.outcomes } : Connection).writeSuccess.Established _ _ _
    rw [Connection.writeSuccess, if_neg (by simp [h.staysOpen])]
    exact hready
  | finish message response sessionClosed =>
    rw [show (Occasion.finish message response sessionClosed).bytes = [] from rfl, append_nil]
    rw [hoccasion] at hgoes
    cases sessionClosed with
    | true => cases hgoes
    | false =>
      dsimp only
      split
      · exact hready.finishMessage hnoError message response
      · exact h
  | readEOF | readErr | writeErr | stop =>
    rw [hoccasion] at hgoes
    cases hgoes

/-- No response closes a connection that stays up, so its messages keep their order. -/
theorem Tracks.quiet_step (h : c.Tracks) (hstays : c.closeAfterWrite = false) {e : Event} (hquiet : e.Quiet) :
    ((c.step cfg e).getD c).Tracks := by
  have hsteady : Steady { c with outcomes := e.outcomes } := ⟨hquiet.2, hstays⟩
  cases hstep : c.step cfg e with
  | none => exact h
  | some c' => exact h.step (fun _ _ hinside => absurd hinside hsteady.not_closesInside) hstep

/-- Over a whole run the decoder is where it would be with the bytes in one piece. -/
theorem Established.after {transport : Transport} {attempt : ChunkState → Bytes → Option (ChunkState × Nat)}
    (hscan : ScannedBy cfg transport attempt) {version : Nat} {s : ChunkState}
    {got : Bytes} (h : c.Established transport version (drain attempt s got)) (htracks : c.Tracks)
    {events : List Event} (hquiet : ∀ e ∈ events, e.Quiet) :
    (c.after cfg events).Established transport version
        (drain attempt s (got ++ received events)) ∧
      (c.after cfg events).Tracks := by
  induction events generalizing c got with
  | nil =>
    rw [received, map_nil, flatten_nil, append_nil]
    exact ⟨h, htracks⟩
  | cons e events ih =>
    have hfirst := hquiet e mem_cons_self
    have hrest := ih (h.step hscan hfirst) (htracks.quiet_step h.staysOpen hfirst)
      fun e' he' => hquiet e' (mem_cons_of_mem e he')
    rw [append_assoc] at hrest
    exact hrest

lemma readDataAvailable_raw (cfg : Config) {bytes : Bytes}
    (htransport : c.transport = .BOLT_RAW) (hopen : c.phase ≠ .CLOSED) :
    c.readDataAvailable cfg bytes = processRaw cfg { c with readBuf := some (c.readBuf.getD [] ++ bytes) } := by
  simp [readDataAvailable, htransport, hopen]

end Connection

/-- Behind the handshake, a raw connection runs the chunk decoder over its input. -/
theorem scannedBy_chunkAttempt (cfg : Config) : ScannedBy cfg .BOLT_RAW chunkAttempt where
  incremental := incremental_chunkAttempt
  stops := fun hrefused => chunkAttempt_refused hrefused _
  reads := by
    intro c version r bytes h hopen _
    obtain ⟨hphase, hbuf⟩ := h.remains hopen
    rw [readDataAvailable_raw cfg h.transport hopen, hbuf, processRaw]
    dsimp only
    rw [if_neg (by rw [hphase]; decide)]
    have hscan : Decodes { c with readBuf := some (r.2 ++ bytes) } _ _ :=
      decodes_processMessage cfg rfl hopen
    rw [← h.decoded]
    exact Connection.Established.of_decodes hscan h.transport h.version h.staysOpen hphase

/-! ### The handshake -/

/-- The bytes that are there when the handshake is handled: all that has come when eight
bytes have. -/
def handshakeBuffer : Bytes → List Event → Bytes
  | got, [] => got
  | got, e :: events =>
    if 8 ≤ got.length then got else handshakeBuffer (got ++ e.occasion.bytes) events

lemma handshakeBuffer_of_le {got : Bytes} (hlen : 8 ≤ got.length) (events : List Event) :
    handshakeBuffer got events = got := by
  cases events with
  | nil => rfl
  | cons e events => rw [handshakeBuffer, if_pos hlen]

lemma handshakeBuffer_isPrefix (got : Bytes) (events : List Event) :
    handshakeBuffer got events <+: got ++ received events := by
  induction events generalizing got with
  | nil =>
    rw [received, map_nil, flatten_nil, append_nil]
    exact prefix_rfl
  | cons e events ih =>
    rw [handshakeBuffer]
    split
    · exact prefix_append got _
    · have hrest := ih (got ++ e.occasion.bytes)
      rw [append_assoc] at hrest
      exact hrest

lemma negotiateHandshake_of_magic {data : Bytes} (hlen : 8 ≤ data.length)
    (hmagic : wordValue (data.take 4) = BOLT_MAGIC) :
    ∃ version, negotiateHandshake data = some version := by
  rw [negotiateHandshake, if_neg (by omega), if_neg (fun hne => hne hmagic)]
  exact ⟨_, rfl⟩

/-- A Bolt client does not look like a browser. -/
theorem take_ne_get {data : Bytes} (hmagic : wordValue (data.take 4) = BOLT_MAGIC) :
    data.take 4 ≠ "GET ".toUTF8.toList := by
  intro hget
  rw [hget] at hmagic
  exact absurd hmagic (by decide +kernel)

namespace Connection

/-- Before the handshake: fewer than eight bytes have come. -/
structure Waiting (c : Connection) (got : Bytes) : Prop where
  transport : (c.transport = .DETECTING ∧ got.length < 4) ∨ c.transport = .BOLT_RAW
  phase : c.phase = .HANDSHAKE
  buffer : c.readBuf.getD [] = got
  short : got.length < 8
  staysOpen : c.closeAfterWrite = false
  fresh : c.decoded = {}
  idle : c.running = []

lemma waiting_init : Waiting {} [] := ⟨Or.inl ⟨rfl, by decide⟩, rfl, rfl, by decide, rfl, rfl, rfl⟩

variable {cfg : Config} {c : Connection} {got : Bytes}

lemma Waiting.readDataAvailable_raw (h : c.Waiting got) {bytes : Bytes} (hlen : 4 ≤ (got ++ bytes).length)
    (hmagic : wordValue ((got ++ bytes).take 4) = BOLT_MAGIC) :
    c.readDataAvailable cfg bytes =
      processRaw cfg { c with transport := .BOLT_RAW, readBuf := some (got ++ bytes) } := by
  have hopen : c.phase ≠ .CLOSED := by rw [h.phase]; decide
  have hget := take_ne_get hmagic
  rcases h.transport with ⟨hdetecting, _⟩ | hraw
  · have hdetect : detectProtocol cfg { c with readBuf := some (got ++ bytes) } =
        { c with transport := .BOLT_RAW, readBuf := some (got ++ bytes) } := by
      rw [detectProtocol]
      dsimp only [getD_some]
      rw [if_neg (by omega), if_neg hget]
    rw [readDataAvailable, h.buffer]
    dsimp only
    rw [if_pos hdetecting, hdetect, if_neg hopen]
  · rw [Connection.readDataAvailable_raw cfg hraw hopen, h.buffer, ← hraw]

/-- A read that leaves the handshake incomplete. -/
theorem Waiting.read_short (h : c.Waiting got) {bytes : Bytes} (hshort : (got ++ bytes).length < 8)
    (hmagic : 4 ≤ (got ++ bytes).length → wordValue ((got ++ bytes).take 4) = BOLT_MAGIC) :
    (c.readDataAvailable cfg bytes).Waiting (got ++ bytes) := by
  by_cases hlen : 4 ≤ (got ++ bytes).length
  · rw [h.readDataAvailable_raw hlen (hmagic hlen), processRaw]
    dsimp only [getD_some]
    rw [if_pos h.phase, if_neg (by omega)]
    exact ⟨Or.inr rfl, h.phase, rfl, hshort, h.staysOpen, h.fresh, h.idle⟩
  · have hopen : c.phase ≠ .CLOSED := by rw [h.phase]; decide
    rcases h.transport with ⟨hdetecting, _⟩ | hraw
    · have hdetect : detectProtocol cfg { c with readBuf := some (got ++ bytes) } =
          { c with readBuf := some (got ++ bytes) } := by
        rw [detectProtocol]
        dsimp only [getD_some]
        rw [if_pos (by omega)]
      rw [readDataAvailable, h.buffer]
      dsimp only
      rw [if_pos hdetecting, hdetect, if_neg hopen]
      dsimp only
      rw [hdetecting]
      exact ⟨Or.inl ⟨rfl, by omega⟩, h.phase, rfl, hshort, h.staysOpen, h.fresh, h.idle⟩
    · rw [Connection.readDataAvailable_raw cfg hraw hopen, h.buffer, processRaw]
      dsimp only [getD_some]
      rw [if_pos h.phase, if_neg (by omega)]
      exact ⟨Or.inr hraw, h.phase, rfl, hshort, h.staysOpen, h.fresh, h.idle⟩

/-- The reply is taken, and what stands behind the twenty bytes is left in the buffer. -/
theorem Steady.processHandshake (h : c.Steady) {data : Bytes} {version : Nat}
    (hversion : negotiateHandshake data = some version) :
    ∃ written, c.processHandshake data = { c with
      negotiatedVersion := version
      phase := .MESSAGES
      readBuf := if data.drop 20 = [] then none else some (data.drop 20)
      outcomes := c.outcomes.tail
      written := written } := by
  have hsteady : Steady { c with
      negotiatedVersion := version
      phase := .MESSAGES
      readBuf := if data.drop 20 = [] then none else some (data.drop 20) } :=
    ⟨h.noError, h.staysOpen⟩
  obtain ⟨written, hwrite⟩ := hsteady.writeChain (.handshake version) []
  rw [append_nil] at hwrite
  rw [Connection.processHandshake, hversion]
  exact ⟨written, hwrite⟩

/-- The read that brings the handshake. -/
theorem Waiting.read_handshake (h : c.Waiting got)
    (hnoError : .error ∉ c.outcomes) {bytes : Bytes} (hlen : 8 ≤ (got ++ bytes).length)
    (hmagic : wordValue ((got ++ bytes).take 4) = BOLT_MAGIC) :
    ∃ version, negotiateHandshake (got ++ bytes) = some version ∧
      (c.readDataAvailable cfg bytes).Established .BOLT_RAW version
        (drain chunkAttempt {} ((got ++ bytes).drop 20)) := by
  obtain ⟨version, hversion⟩ := negotiateHandshake_of_magic hlen hmagic
  refine ⟨version, hversion, ?_⟩
  have hsteady : Steady { c with transport := .BOLT_RAW, readBuf := some (got ++ bytes) } := ⟨hnoError, h.staysOpen⟩
  obtain ⟨written, hshake⟩ := hsteady.processHandshake hversion
  have hfresh : (⟨c.accumulator, arrivals c.trace, false⟩ : ChunkState) = {} := by
    rw [← h.fresh, decoded, h.phase]
    rfl
  rw [h.readDataAvailable_raw (by omega) hmagic, processRaw]
  dsimp only [getD_some]
  rw [if_pos h.phase, if_pos hlen, hshake]
  dsimp only
  by_cases hnil : (got ++ bytes).drop 20 = []
  · rw [if_pos hnil, if_pos (Or.inr rfl), hnil]
    exact ⟨rfl, rfl, h.staysOpen, hfresh, fun _ => ⟨rfl, rfl⟩⟩
  · rw [if_neg hnil, if_neg (by simp), ← hfresh]
    have hscan : Decodes { c with
        transport := .BOLT_RAW
        negotiatedVersion := version
        phase := .MESSAGES
        readBuf := some ((got ++ bytes).drop 20)
        outcomes := c.outcomes.tail
        written := written } _ _ := decodes_processMessage cfg rfl (by simp)
    exact Established.of_decodes hscan rfl rfl h.staysOpen rfl

/-- An event before the handshake: it waits on, or the handshake is there. -/
theorem Waiting.step (h : c.Waiting got) {e : Event}
    (hquiet : e.Quiet) (hmagic : 4 ≤ (got ++ e.occasion.bytes).length →
      wordValue ((got ++ e.occasion.bytes).take 4) = BOLT_MAGIC) :
    (8 ≤ (got ++ e.occasion.bytes).length → ∃ version, negotiateHandshake (got ++ e.occasion.bytes) = some version ∧
          ((c.step cfg e).getD c).Established .BOLT_RAW version
            (drain chunkAttempt {} ((got ++ e.occasion.bytes).drop 20))) ∧
      ((got ++ e.occasion.bytes).length < 8 → ((c.step cfg e).getD c).Waiting (got ++ e.occasion.bytes)) := by
  have hready : Waiting { c with outcomes := e.outcomes } got :=
    ⟨h.transport, h.phase, h.buffer, h.short, h.staysOpen, h.fresh, h.idle⟩
  have hopen : c.phase ≠ .CLOSED := by rw [h.phase]; decide
  have hshort := h.short
  obtain ⟨hgoes, hnoError⟩ := hquiet
  rw [Connection.step]
  dsimp only
  cases hoccasion : e.occasion with
  | read bytes =>
    rw [hoccasion] at hmagic
    dsimp only [Occasion.bytes] at hmagic ⊢
    rw [if_neg hopen]
    exact ⟨fun hlen => hready.read_handshake hnoError hlen (hmagic (by omega)),
      fun hlen => hready.read_short hlen hmagic⟩
  | writeSuccess =>
    dsimp only [Occasion.bytes]
    rw [append_nil, Connection.writeSuccess, if_neg (by simp [h.staysOpen])]
    exact ⟨fun hlen => absurd hlen (by omega), fun _ => hready⟩
  | finish message response sessionClosed =>
    dsimp only [Occasion.bytes]
    rw [append_nil, if_neg (by simp [h.idle])]
    exact ⟨fun hlen => absurd hlen (by omega), fun _ => h⟩
  | readEOF | readErr | writeErr | stop =>
    rw [hoccasion] at hgoes
    cases hgoes

/-- A run that brings the handshake is decided by what was buffered when it was handled. -/
theorem Waiting.after (h : c.Waiting got) (htracks : c.Tracks) {events : List Event} (hquiet : ∀ e ∈ events, e.Quiet)
    (hlen : 8 ≤ (got ++ received events).length)
    (hmagic : wordValue ((got ++ received events).take 4) = BOLT_MAGIC) :
    ∃ version rest, got ++ received events = handshakeBuffer got events ++ rest ∧
      negotiateHandshake (handshakeBuffer got events) = some version ∧
      (c.after cfg events).Established .BOLT_RAW version
        (drain chunkAttempt {} ((handshakeBuffer got events).drop 20 ++ rest)) ∧
      (c.after cfg events).Tracks := by
  induction events generalizing c got with
  | nil =>
    have hshort := h.short
    rw [received, map_nil, flatten_nil, append_nil] at hlen
    omega
  | cons e events ih =>
    have hfirst := hquiet e mem_cons_self
    have hlater : ∀ e' ∈ events, e'.Quiet := fun e' he' => hquiet e' (mem_cons_of_mem e he')
    have hcons : got ++ received (e :: events) = got ++ e.occasion.bytes ++ received events := by
      rw [append_assoc]
      rfl
    have hbuffer : handshakeBuffer got (e :: events) = handshakeBuffer (got ++ e.occasion.bytes) events := by
      have hshort := h.short
      rw [handshakeBuffer, if_neg (by omega)]
    have htracks' : ((c.step cfg e).getD c).Tracks := htracks.quiet_step h.staysOpen hfirst
    rw [hcons] at hlen hmagic ⊢
    rw [hbuffer]
    have hmagic' : 4 ≤ (got ++ e.occasion.bytes).length →
        wordValue ((got ++ e.occasion.bytes).take 4) = BOLT_MAGIC := by
      intro hfour
      rw [take_append_of_le_length hfour] at hmagic
      exact hmagic
    by_cases height : 8 ≤ (got ++ e.occasion.bytes).length
    · obtain ⟨version, hversion, hestablished⟩ := (h.step hfirst hmagic').1 height
      rw [handshakeBuffer_of_le height]
      exact ⟨version, received events, rfl, hversion, hestablished.after (scannedBy_chunkAttempt cfg) htracks'
        hlater⟩
    · exact ih ((h.step hfirst hmagic').2 (by omega)) htracks' hlater hlen hmagic

end Connection

/-! ### Independence of the segments -/

/-- The choice made by the four proposals of a handshake. -/
def selectedVersion (data : Bytes) : Nat :=
  (proposals ((data.take 20).drop 4)).foldl selectProposal 0

/-- The buffer holds the handshake, and no word behind it would change the choice of the
four proposals if it were one of them. -/
structure HandshakeWhole (buffer : Bytes) : Prop where
  complete : 20 ≤ buffer.length
  settled : ∀ ver ∈ proposals (buffer.drop 20),
    selectProposal (selectedVersion buffer) ver = selectedVersion buffer

lemma proposals_append {words : Nat} {front : Bytes} (hlen : front.length = 4 * words)
    (back : Bytes) : proposals (front ++ back) = proposals front ++ proposals back := by
  induction words generalizing front with
  | zero =>
    obtain rfl := length_eq_zero_iff.mp hlen
    rfl
  | succ words ih =>
    match front, hlen with
    | a :: b :: c :: d :: front, hlen =>
      have hfront : front.length = 4 * words := by
        simp only [length_cons] at hlen
        omega
      simp only [cons_append, proposals]
      rw [ih hfront]

/-- Words that change nothing one by one change nothing together. -/
theorem foldl_selectProposal_of_settled {selected : Nat} {words : List Nat}
    (h : ∀ ver ∈ words, selectProposal selected ver = selected) :
    words.foldl selectProposal selected = selected := by
  induction words with
  | nil => rfl
  | cons ver words ih =>
    rw [foldl_cons, h ver mem_cons_self]
    exact ih fun ver' hver' => h ver' (mem_cons_of_mem ver hver')

/-- What stands behind the handshake has no say in the version. -/
theorem HandshakeWhole.negotiateHandshake_eq {buffer : Bytes} (h : HandshakeWhole buffer) :
    negotiateHandshake buffer = negotiateHandshake (buffer.take 20) := by
  have hcomplete := h.complete
  have hsplit : buffer.drop 4 = (buffer.take 20).drop 4 ++ buffer.drop 20 := by
    rw [← drop_append_of_le_length (by simp; omega), take_append_drop]
  have hfour : ((buffer.take 20).drop 4).length = 4 * 4 := by
    simp only [length_drop, length_take]
    omega
  have htake : (buffer.take 20).take 4 = buffer.take 4 := by rw [take_take]; rfl
  have hchoice : (proposals (buffer.drop 4)).foldl selectProposal 0 =
      (proposals ((buffer.take 20).drop 4)).foldl selectProposal 0 := by
    rw [hsplit, proposals_append hfour, foldl_append]
    exact foldl_selectProposal_of_settled h.settled
  have hlong : ¬ buffer.length < 8 := by omega
  have hlong' : ¬ (buffer.take 20).length < 8 := by
    rw [length_take]
    omega
  rw [negotiateHandshake, negotiateHandshake, htake, hchoice, if_neg hlong, if_neg hlong']

/-- A run whose handshake was read whole: the version is that of the twenty bytes, and the
messages are those of the bytes behind them. -/
theorem after_of_handshakeWhole (cfg : Config) {events : List Event}
    (hquiet : ∀ e ∈ events, e.Quiet) (hwhole : HandshakeWhole (handshakeBuffer [] events))
    (hmagic : wordValue ((received events).take 4) = BOLT_MAGIC) :
    ∃ version, negotiateHandshake ((received events).take 20) = some version ∧
      (Connection.after cfg {} events).Established .BOLT_RAW version
        (drain chunkAttempt {} ((received events).drop 20)) ∧
      (Connection.after cfg {} events).Tracks := by
  have hcomplete := hwhole.complete
  have hlen : 8 ≤ (received events).length := by
    have hle := (handshakeBuffer_isPrefix [] events).length_le
    rw [nil_append] at hle
    omega
  obtain ⟨version, rest, hstream, hversion, hestablished, htracks⟩ :=
    waiting_init.after tracks_init hquiet hlen hmagic
  rw [nil_append] at hstream
  refine ⟨version, ?_, ?_, htracks⟩
  · rw [hstream, take_append_of_le_length hcomplete, ← hwhole.negotiateHandshake_eq]
    exact hversion
  · rw [hstream, drop_append_of_le_length hcomplete]
    exact hestablished

/-- Connections whose decoders agree have the same messages, and once nothing runs on them
have started the same. -/
theorem Connection.Tracks.same_messages {c c' : Connection} (h : c.Tracks) (h' : c'.Tracks)
    (hdecoded : c.decoded = c'.decoded) :
    arrivals c.trace = arrivals c'.trace ∧ (c.phase = .CLOSED ↔ c'.phase = .CLOSED) ∧
      starts c.trace <+: arrivals c.trace ∧
      (c.phase ≠ .CLOSED → c.running = [] → c'.running = [] → starts c.trace = starts c'.trace) := by
  have harrivals : arrivals c.trace = arrivals c'.trace := congrArg ChunkState.messages hdecoded
  have hclosed : c.phase = .CLOSED ↔ c'.phase = .CLOSED := decide_eq_decide.mp (congrArg ChunkState.refused hdecoded)
  refine ⟨harrivals, hclosed, h.accepted.starts_prefix, ?_⟩
  intro hopen hidle hidle'
  rw [h.starts_of_idle hopen hidle, h'.starts_of_idle (fun hclosed' => hopen (hclosed.mpr hclosed')) hidle']
  exact harrivals

/-- Two runs over the same Bolt stream that both read the handshake whole negotiate the same
version and decode the same messages, whatever the segments; what is started so far is a
prefix of them, and all of them once nothing runs. -/
theorem messages_independent_of_segments {cfg : Config} {events events' : List Event}
    (hquiet : ∀ e ∈ events, e.Quiet) (hquiet' : ∀ e ∈ events', e.Quiet)
    (hstream : received events = received events')
    (hmagic : wordValue ((received events).take 4) = BOLT_MAGIC)
    (hwhole : HandshakeWhole (handshakeBuffer [] events))
    (hwhole' : HandshakeWhole (handshakeBuffer [] events')) :
    let c := Connection.after cfg {} events
    let c' := Connection.after cfg {} events'
    c.negotiatedVersion = c'.negotiatedVersion ∧ arrivals c.trace = arrivals c'.trace ∧
      (c.phase = .CLOSED ↔ c'.phase = .CLOSED) ∧
      starts c.trace <+: arrivals c.trace ∧
      (c.phase ≠ .CLOSED → c.running = [] → c'.running = [] → starts c.trace = starts c'.trace) := by
  obtain ⟨version, hversion, hc, htracks⟩ := after_of_handshakeWhole cfg hquiet hwhole hmagic
  obtain ⟨version', hversion', hc', htracks'⟩ := after_of_handshakeWhole cfg hquiet' hwhole' (hstream ▸ hmagic)
  rw [hstream] at hversion hc
  refine ⟨?_, htracks.same_messages htracks' (hc.decoded.trans hc'.decoded.symm)⟩
  rw [hc.version, hc'.version]
  exact Option.some.inj (hversion.symm.trans hversion')

/-- One read, and a read that ends inside the first message. -/
theorem messages_independent_of_segments_twoMessages :
    arrivals (Connection.after sampleConfig {} [⟨.read (handshake51 ++ twoMessages), []⟩]).trace =
        [[0xB0, 0x0F], [0xB0, 0x02]] ∧
      arrivals (Connection.after sampleConfig {} [⟨.read (handshake51 ++ twoMessages), []⟩]).trace =
        arrivals (Connection.after sampleConfig {} [⟨.read (handshake51 ++ twoMessages.take 3), [.success]⟩,
            ⟨.read (twoMessages.drop 3), []⟩]).trace :=
  ⟨by decide +kernel,
    (messages_independent_of_segments (by decide) (by decide) (by decide) (by decide +kernel)
      ⟨by decide +kernel, by decide +kernel⟩ ⟨by decide +kernel, by decide +kernel⟩).2.1⟩

/-- A handshake that proposes 4.4 and then 5.1. -/
def handshake44Then51 : Bytes :=
  [0x60, 0x60, 0xB0, 0x17, 0, 0, 4, 4, 0, 0, 5, 1, 0, 0, 0, 0, 0, 0, 0, 0]

/-- Read in one piece the stream negotiates 5.1 and brings two messages; when the first read
ends behind the first proposal it negotiates 4.4, and the second proposal is taken for the
size of a chunk that never comes. -/
theorem handshake_read_in_two_pieces : received [⟨.read (handshake44Then51 ++ twoMessages), []⟩] =
        received [⟨.read (handshake44Then51.take 8), []⟩, ⟨.read (handshake44Then51.drop 8 ++ twoMessages), []⟩] ∧
      (fun c : Connection => (c.negotiatedVersion, arrivals c.trace))
          (Connection.after sampleConfig {} [⟨.read (handshake44Then51 ++ twoMessages), []⟩]) =
        (BOLT_VERSION_5_1, [[0xB0, 0x0F], [0xB0, 0x02]]) ∧
      (fun c : Connection => (c.negotiatedVersion, arrivals c.trace))
          (Connection.after sampleConfig {} [⟨.read (handshake44Then51.take 8), []⟩,
            ⟨.read (handshake44Then51.drop 8 ++ twoMessages), []⟩]) =
        (BOLT_VERSION_4_4, []) := by
  decide +kernel

end Eugraph.BoltServer
