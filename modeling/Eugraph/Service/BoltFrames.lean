import Eugraph.Service.BoltSegments

/-!
# Bolt over WebSocket frames

An upgraded connection decodes its input twice: the bytes into frames, and the payload of
each data frame into chunks.  The frame layer is an incremental scanner like the chunk
decoder, so it does not matter how the frames reach the socket.  The chunk layer starts
over in every frame: the message being put together survives the end of a frame, but the
bytes of a chunk that is cut there are dropped, and the rest of the chunk is taken for a
chunk of its own.
-/

namespace Eugraph.BoltServer

open Lib Lib.Server List Connection Option Or

/-! ### Frames and what follows them -/

/-- A field that lies in the data does not see what follows. -/
theorem take_drop_append {start size : Nat} {data : Bytes} (hlen : start + size ≤ data.length)
    (more : Bytes) : ((data ++ more).drop start).take size = (data.drop start).take size := by
  rw [drop_append_of_le_length (by omega),
    take_append_of_le_length (by rw [length_drop]; omega)]

lemma frameLength_append {len7 payloadLen pos : Nat} {data : Bytes} (hlen : 2 ≤ data.length)
    (h : frameLength len7 data = some (payloadLen, pos)) :
    (2 ≤ pos ∧ pos ≤ data.length) ∧ ∀ more, frameLength len7 (data ++ more) = some (payloadLen, pos) := by
  rw [frameLength] at h
  split at h
  · next hsmall =>
      obtain ⟨rfl, rfl⟩ := Prod.mk.inj (some.inj h)
      refine ⟨⟨le_rfl, hlen⟩, fun more => ?_⟩
      rw [frameLength, if_pos hsmall]
  · next hsmall =>
      split at h
      · next hword =>
          split at h
          · exact (nomatch h)
          · next hfour =>
              obtain ⟨rfl, rfl⟩ := Prod.mk.inj (some.inj h)
              refine ⟨⟨by omega, by omega⟩, fun more => ?_⟩
              have hmore : ¬ (data ++ more).length < 4 := by rw [length_append]; omega
              rw [frameLength, if_neg hsmall, if_pos hword, if_neg hmore, take_drop_append (by omega)]
      · next hword =>
          split at h
          · exact (nomatch h)
          · next hten =>
              obtain ⟨rfl, rfl⟩ := Prod.mk.inj (some.inj h)
              refine ⟨⟨by omega, by omega⟩, fun more => ?_⟩
              have hmore : ¬ (data ++ more).length < 10 := by rw [length_append]; omega
              rw [frameLength, if_neg hsmall, if_neg hword, if_neg hmore, take_drop_append (by omega)]

variable {hdr : FrameHeader}

/-- A complete header is read the same whatever follows it. -/
theorem tryParseFrameHeader_append {data : Bytes} (h : tryParseFrameHeader data = some hdr) :
    (0 < hdr.headerSize ∧ hdr.headerSize ≤ data.length) ∧ ∀ more, tryParseFrameHeader (data ++ more) = some hdr := by
  rcases data with _ | ⟨b0, _ | ⟨b1, rest⟩⟩
  · exact (nomatch h)
  · exact (nomatch h)
  · rw [tryParseFrameHeader] at h
    split at h
    · exact (nomatch h)
    · next payloadLen pos hlength =>
        obtain ⟨⟨hlow, hhigh⟩, hmore⟩ := frameLength_append (by simp) hlength
        dsimp only at h
        split at h
        · exact (nomatch h)
        · next hmask =>
            obtain rfl := some.inj h
            have hfits : b1 &&& 0x80 ≠ 0 → pos + 4 ≤ (b0 :: b1 :: rest).length :=
              fun hset => not_lt.mp fun hlt => hmask ⟨hset, hlt⟩
            refine ⟨?_, fun more => ?_⟩
            · dsimp only
              split
              · next hset => exact ⟨by omega, hfits hset⟩
              · exact ⟨by omega, hhigh⟩
            · have hmask' : ¬ (b1 &&& 0x80 ≠ 0 ∧ ((b0 :: b1 :: rest) ++ more).length < pos + 4) := by
                rintro ⟨hset, hlt⟩
                have hle := hfits hset
                rw [length_append] at hlt
                omega
              have hkey : (if b1 &&& 0x80 ≠ 0 then
                    (((b0 :: b1 :: rest) ++ more).drop pos).take 4 else []) =
                  (if b1 &&& 0x80 ≠ 0 then
                    ((b0 :: b1 :: rest).drop pos).take 4 else []) := by
                split
                · next hset =>
                    have hle := hfits hset
                    rw [take_drop_append hle]
                · rfl
              have hlength' := hmore more
              rw [cons_append, cons_append] at hlength' hkey hmask' ⊢
              rw [tryParseFrameHeader, hlength']
              dsimp only
              rw [if_neg hmask', hkey]

lemma framePayload_append {data : Bytes} (hlen : hdr.headerSize + hdr.payloadLen ≤ data.length) (more : Bytes) :
    framePayload hdr (data ++ more) = framePayload hdr data := by
  rw [framePayload, framePayload, take_drop_append hlen]

/-! ### The frame layer as a scanner -/

/-- The decoder of a connection that closes. -/
def ChunkState.close (s : ChunkState) : ChunkState :=
  { s with accumulator := [], refused := true }

/-- A complete frame: its payload goes to the chunk decoder, and what that leaves is dropped. -/
def ChunkState.frame (s : ChunkState) (hdr : FrameHeader) (payload : Bytes) : ChunkState :=
  match hdr.opcode with
  | .BINARY | .TEXT =>
    if hdr.fin = false then s.close else (drain chunkAttempt s payload).1
  | .CLOSE => s.close
  | _ => s

/-- One round of the frame layer, and the bytes it takes. -/
def frameAttempt (s : ChunkState) (buf : Bytes) : Option (ChunkState × Nat) :=
  if s.refused then none
  else
    match tryParseFrameHeader buf with
    | none => none
    | some hdr =>
      let frameTotal := hdr.headerSize + hdr.payloadLen
      if kMaxFramePayload < hdr.payloadLen then some (s.close, hdr.headerSize)
      else if buf.length < frameTotal then none
      else some (s.frame hdr (framePayload hdr buf), frameTotal)

lemma incremental_frameAttempt : Incremental frameAttempt where
  takes := by
    intro s s' buf n h
    rw [frameAttempt] at h
    split at h
    · exact (nomatch h)
    · split at h
      · exact (nomatch h)
      · next hdr hparse =>
          obtain ⟨⟨hpos, hle⟩, _⟩ := tryParseFrameHeader_append hparse
          dsimp only at h
          split_ifs at h
          all_goals
            simp only [some.injEq, Prod.mk.injEq] at h
            omega
  stable := by
    intro s s' buf n more h
    rw [frameAttempt] at h ⊢
    split at h
    · exact (nomatch h)
    · next hrefused =>
        rw [if_neg hrefused]
        split at h
        · exact (nomatch h)
        · next hdr hparse =>
            rw [(tryParseFrameHeader_append hparse).2 more]
            dsimp only at h ⊢
            split at h
            · next hlarge =>
                rw [if_pos hlarge]
                exact h
            · next hlarge =>
                split at h
                · exact (nomatch h)
                · next hshort =>
                    have hmore : ¬ (buf ++ more).length < hdr.headerSize + hdr.payloadLen := by
                      rw [length_append]
                      omega
                    rw [if_neg hlarge, if_neg hmore, framePayload_append (by omega)]
                    exact h

variable {s : ChunkState}

lemma frameAttempt_refused (hrefused : s.refused = true) (buf : Bytes) : frameAttempt s buf = none := by
  rw [frameAttempt, if_pos hrefused]

namespace Connection

lemma closeConnection_decoded (c : Connection) (hopen : c.phase ≠ .CLOSED) :
    c.closeConnection.decoded = c.decoded.close := by
  rw [decoded, arrivals_closeConnection, closeConnection_phase, closeConnection, if_neg hopen]
  rfl

/-- A connection that closes is where the scanner stays. -/
theorem decodes_closeConnection (c : Connection) (hopen : c.phase ≠ .CLOSED) (fuel : Nat) (buf : Bytes) :
    c.Decodes c.closeConnection (drainWithin frameAttempt fuel c.decoded.close buf) := by
  rw [drainWithin_of_none (frameAttempt_refused rfl buf)]
  exact ⟨closeConnection_decoded c hopen, kept_closeConnection c,
    fun hstill => absurd (closeConnection_phase c) hstill⟩

section Frames

variable (cfg : Config)

variable {c : Connection}

/-- A data frame behind the handshake runs the chunk decoder over the payload alone. -/
theorem decodes_processDataFrame (hphase : c.phase = .MESSAGES) (payload : Bytes) :
    (processDataFrame cfg c payload).decoded = (drain chunkAttempt c.decoded payload).1 ∧
      c.Kept (processDataFrame cfg c payload) ∧
      (processDataFrame cfg c payload).readBuf = c.readBuf ∧
      ((processDataFrame cfg c payload).phase ≠ .CLOSED → (processDataFrame cfg c payload).phase = .MESSAGES) := by
  have hopen : c.phase ≠ .CLOSED := by rw [hphase]; decide
  have hscan : Decodes { c with readBuf := some payload } _ _ := decodes_processMessage cfg rfl hopen
  rw [processDataFrame, if_neg (by rw [hphase]; decide)]
  refine ⟨hscan.decoded, ?_, rfl, fun hstill => (hscan.remains hstill).1.trans hphase⟩
  exact ⟨hscan.kept.transport, hscan.kept.negotiatedVersion, hscan.kept.closeAfterWrite, hscan.kept.outcomes⟩

lemma trimFrame_readBuf (c : Connection) (frameTotal : Nat) :
    (c.trimFrame frameTotal).readBuf.getD [] = (c.readBuf.getD []).drop frameTotal := by
  rw [trimFrame]
  cases hbuf : c.readBuf with
  | none => simp [hbuf]
  | some data =>
    dsimp only [getD_some]
    split
    · next hnil =>
        rw [hnil]
        rfl
    · rfl

lemma kept_trimFrame (c : Connection) (frameTotal : Nat) : c.Kept (c.trimFrame frameTotal) := by
  rw [trimFrame]
  split <;> exact ⟨rfl, rfl, rfl, fun _ h => h⟩

lemma trimFrame_decoded (c : Connection) (frameTotal : Nat) :
    (c.trimFrame frameTotal).decoded = c.decoded ∧ (c.trimFrame frameTotal).phase = c.phase := by
  rw [trimFrame]
  split <;> exact ⟨rfl, rfl⟩

/-- The loop of the connection is the scanner. -/
theorem decodes_processWsFrameLoop (fuel : Nat) {buf : Bytes}
    (hbuf : c.readBuf.getD [] = buf) (hphase : c.phase = .MESSAGES) (hsteady : c.Steady) :
    c.Decodes (processWsFrameLoop cfg fuel c) (drainWithin frameAttempt fuel c.decoded buf) := by
  induction fuel generalizing c buf with
  | zero => exact ⟨rfl, Kept.refl c, fun _ => ⟨rfl, hbuf⟩⟩
  | succ fuel ih =>
    have hopen : c.phase ≠ .CLOSED := by rw [hphase]; decide
    have hrunning : ¬ c.decoded.refused = true := by
      rw [decoded, decide_eq_false hopen]
      exact Bool.false_ne_true
    have hwaits : frameAttempt c.decoded buf = none →
        c.Decodes c (drainWithin frameAttempt (fuel + 1) c.decoded buf) := by
      intro hnone
      rw [drainWithin_of_none hnone]
      exact ⟨rfl, Kept.refl c, fun _ => ⟨rfl, hbuf⟩⟩
    rw [processWsFrameLoop]
    split
    · next hnone =>
        refine hwaits ?_
        rw [← hbuf, hnone, frameAttempt, if_neg hrunning]
        rfl
    · next data hdata =>
        rw [hdata, getD_some] at hbuf
        obtain rfl := hbuf
        split
        · next hparse =>
            refine hwaits ?_
            rw [frameAttempt, if_neg hrunning, hparse]
        · next hdr hparse =>
            have hnext : ∀ c' : Connection, c.Kept c' → c'.phase = .MESSAGES → c'.readBuf = some data →
                c.Decodes (processWsFrameLoop cfg fuel (c'.trimFrame (hdr.headerSize + hdr.payloadLen)))
                  (drainWithin frameAttempt fuel c'.decoded (data.drop (hdr.headerSize + hdr.payloadLen))) := by
              intro c' hkept hphase' hbuf'
              obtain ⟨hsame, htrim⟩ := trimFrame_decoded c' (hdr.headerSize + hdr.payloadLen)
              have hkept' := hkept.trans (kept_trimFrame c' (hdr.headerSize + hdr.payloadLen))
              rw [← hsame]
              refine Decodes.trans hkept' (htrim.trans (hphase'.trans hphase.symm)) (ih ?_
                (htrim.trans hphase') (hkept'.steady hsteady))
              rw [trimFrame_readBuf, hbuf', getD_some]
            have hdataFrame : c.Decodes
                (if hdr.fin = false then c.closeConnection
                  else if (processDataFrame cfg c (framePayload hdr data)).phase = .CLOSED then
                    processDataFrame cfg c (framePayload hdr data)
                  else processWsFrameLoop cfg fuel
                    ((processDataFrame cfg c (framePayload hdr data)).trimFrame (hdr.headerSize + hdr.payloadLen)))
                (drainWithin frameAttempt fuel
                  (if hdr.fin = false then c.decoded.close
                    else (drain chunkAttempt c.decoded (framePayload hdr data)).1)
                  (data.drop (hdr.headerSize + hdr.payloadLen))) := by
              obtain ⟨hdecoded, hkept, hsaved, hstays⟩ :=
                decodes_processDataFrame cfg hphase (framePayload hdr data)
              split
              · exact decodes_closeConnection c hopen fuel _
              · rw [← hdecoded]
                split
                · next hclosed =>
                    have hrefused : (processDataFrame cfg c (framePayload hdr data)).decoded.refused
                        = true := decide_eq_true hclosed
                    rw [drainWithin_of_none (frameAttempt_refused hrefused _)]
                    exact ⟨rfl, hkept, fun hstill => absurd hclosed hstill⟩
                · next hstill => exact hnext _ hkept (hstays hstill) (hsaved.trans hdata)
            rw [drainWithin, frameAttempt, if_neg hrunning, hparse]
            dsimp only
            by_cases hlarge : kMaxFramePayload < hdr.payloadLen
            · rw [if_pos hlarge, if_pos hlarge]
              exact decodes_closeConnection c hopen fuel _
            · rw [if_neg hlarge, if_neg hlarge]
              by_cases hshort : data.length < hdr.headerSize + hdr.payloadLen
              · rw [if_pos hshort, if_pos hshort]
                exact ⟨rfl, Kept.refl c, fun _ => ⟨rfl, by rw [hdata]; rfl⟩⟩
              · rw [if_neg hshort, if_neg hshort]
                dsimp only
                rw [ChunkState.frame]
                cases hopcode : hdr.opcode with
                | BINARY => exact hdataFrame
                | TEXT => exact hdataFrame
                | PING =>
                  obtain ⟨written, hwrite⟩ := hsteady.writeChain (.pong (framePayload hdr data)) []
                  have hpong := hnext _ (kept_writeChain c (.pong (framePayload hdr data)) [])
                  rw [hwrite, append_nil] at hpong
                  dsimp only
                  rw [hwrite, append_nil]
                  exact hpong hphase hdata
                | CLOSE =>
                  have hcancel : Steady { c with cancelRequested := true } := ⟨hsteady.noError, hsteady.staysOpen⟩
                  obtain ⟨written, hwrite⟩ := hcancel.writeChain .closeFrame []
                  have hkept : c.Kept { c with
                      cancelRequested := true
                      outcomes := c.outcomes.tail
                      written := written } :=
                    ⟨rfl, rfl, rfl, fun _ h => mem_of_mem_tail h⟩
                  have hclose := decodes_closeConnection { c with
                      cancelRequested := true
                      outcomes := c.outcomes.tail
                      written := written } hopen fuel
                    (data.drop (hdr.headerSize + hdr.payloadLen))
                  dsimp only
                  rw [hwrite, append_nil]
                  exact Decodes.trans hkept rfl hclose
                | CONTINUATION | PONG | other code =>
                  exact hnext c (Kept.refl c) hphase hdata

/-- `processWsFrame` runs the scanner until it waits. -/
theorem decodes_processWsFrame {buf : Bytes} (hbuf : c.readBuf.getD [] = buf)
    (hphase : c.phase = .MESSAGES) (hsteady : c.Steady) :
    c.Decodes (processWsFrame cfg c) (drain frameAttempt c.decoded buf) := by
  have h := decodes_processWsFrameLoop cfg buf.length hbuf hphase hsteady
  rw [processWsFrame, hbuf]
  exact h

lemma readDataAvailable_framed {bytes : Bytes} (htransport : c.transport = .WS_FRAMED) (hopen : c.phase ≠ .CLOSED) :
    c.readDataAvailable cfg bytes = processWsFrame cfg { c with readBuf := some (c.readBuf.getD [] ++ bytes) } := by
  simp [readDataAvailable, htransport, hopen]

end Frames

end Connection

/-- Behind the handshake, an upgraded connection runs the frame layer over its input. -/
theorem scannedBy_frameAttempt (cfg : Config) : ScannedBy cfg .WS_FRAMED frameAttempt where
  incremental := incremental_frameAttempt
  stops := fun hrefused => frameAttempt_refused hrefused _
  reads := by
    intro c version r bytes h hopen hnoError
    obtain ⟨hphase, hbuf⟩ := h.remains hopen
    rw [readDataAvailable_framed cfg h.transport hopen, hbuf, ← h.decoded]
    have hscan : Decodes { c with readBuf := some (r.2 ++ bytes) } _ _ :=
      decodes_processWsFrame cfg rfl hphase ⟨hnoError, h.staysOpen⟩
    exact Connection.Established.of_decodes hscan h.transport h.version h.staysOpen hphase

/-! ### Streams of frames -/

/-- A complete final binary frame with the payload, of a size the server takes. -/
structure IsBinaryFrame (frame payload : Bytes) (hdr : FrameHeader) : Prop where
  header : tryParseFrameHeader frame = some hdr
  binary : hdr.opcode = .BINARY
  final : hdr.fin = true
  accepted : hdr.payloadLen ≤ kMaxFramePayload
  complete : frame.length = hdr.headerSize + hdr.payloadLen
  payload : framePayload hdr frame = payload

/-- The frames carry the payloads, in order. -/
inductive Carries : List Bytes → List Bytes → Prop
  | nil : Carries [] []
  | cons {frame payload : Bytes} {frames payloads : List Bytes} (hdr : FrameHeader) :
      IsBinaryFrame frame payload hdr → Carries frames payloads →
      Carries (frame :: frames) (payload :: payloads)

/-- The chunk decoder over the payloads, what each of them leaves being dropped. -/
def decodePayloads (s : ChunkState) (payloads : List Bytes) : ChunkState :=
  payloads.foldl (fun s payload => (drain chunkAttempt s payload).1) s

lemma frameAttempt_of_isBinaryFrame {frame payload : Bytes}
    (h : IsBinaryFrame frame payload hdr) (hrunning : s.refused = false) (more : Bytes) :
    frameAttempt s (frame ++ more) = some ((drain chunkAttempt s payload).1, frame.length) := by
  have haccepted := h.accepted
  have hcomplete := h.complete
  have hattempt : frameAttempt s frame = some ((drain chunkAttempt s payload).1, frame.length) := by
    rw [frameAttempt, if_neg (by simp [hrunning]), h.header]
    dsimp only
    rw [if_neg (by omega), if_neg (by omega), h.payload, ← h.complete, ChunkState.frame, h.binary,
      h.final]
    rfl
  exact incremental_frameAttempt.stable more hattempt

variable {payloads : List Bytes}

/-- The frame layer over a stream of data frames decodes their payloads one by one. -/
theorem drain_frames {frames : List Bytes} (h : Carries frames payloads) (s : ChunkState) :
    (drain frameAttempt s frames.flatten).1 = decodePayloads s payloads := by
  induction h generalizing s with
  | nil => rfl
  | @cons frame payload frames payloads hdr hframe _ ih =>
    rw [flatten_cons, decodePayloads, foldl_cons]
    cases hrunning : s.refused with
    | false =>
      rw [incremental_frameAttempt.drain_of_some (frameAttempt_of_isBinaryFrame hframe hrunning _), drop_left]
      exact ih _
    | true =>
      -- a decoder that gave up stays where it is
      have hstay : ∀ payload, drain chunkAttempt s payload = (s, payload) :=
        fun payload => drain_of_none (chunkAttempt_refused hrunning payload)
      have hrest := ih s
      rw [drain_of_none (frameAttempt_refused hrunning _)] at hrest ⊢
      rw [hstay]
      exact hrest

/-- A sequence of whole chunks, terminators among them. -/
inductive WholeChunks : Bytes → Prop
  | nil : WholeChunks []
  | chunk {hi lo : UInt8} {data rest : Bytes} : data.length = wordValue [hi, lo] →
      WholeChunks rest → WholeChunks (hi :: lo :: (data ++ rest))

/-- A whole chunk is taken, or the decoder gives up on it. -/
theorem chunkAttempt_chunk (hrunning : s.refused = false) {hi lo : UInt8}
    {data : Bytes} (hdata : data.length = wordValue [hi, lo]) (rest : Bytes) :
    ∃ s' n, chunkAttempt s (hi :: lo :: (data ++ rest)) = some (s', n) ∧
      (s'.refused = true ∨ (hi :: lo :: (data ++ rest)).drop n = rest) := by
  have hshort : ¬ (data ++ rest).length < wordValue [hi, lo] := by
    rw [length_append]
    omega
  have hdrop : (hi :: lo :: (data ++ rest)).drop (2 + wordValue [hi, lo]) = rest := by
    rw [← hdata, ← drop_drop]
    exact drop_left
  rw [chunkAttempt, if_neg (by simp [hrunning]), if_neg hshort]
  split
  · next hzero =>
      refine ⟨_, _, rfl, inr ?_⟩
      rw [hzero] at hdrop
      exact hdrop
  · split
    · exact ⟨_, _, rfl, inl rfl⟩
    · split
      · exact ⟨_, _, rfl, inl rfl⟩
      · exact ⟨_, _, rfl, inr hdrop⟩

/-- Whole chunks leave nothing, unless the decoder gives up on one of them. -/
theorem WholeChunks.drain_eq {payload : Bytes} (h : WholeChunks payload) (s : ChunkState) :
    (drain chunkAttempt s payload).1.refused = true ∨ (drain chunkAttempt s payload).2 = [] := by
  induction h generalizing s with
  | nil => exact inr rfl
  | @chunk hi lo data rest hdata _ ih =>
    cases hrunning : s.refused with
    | true =>
      rw [drain_of_none (chunkAttempt_refused hrunning _)]
      exact inl hrunning
    | false =>
      obtain ⟨s', n, hattempt, hnext⟩ := chunkAttempt_chunk hrunning hdata rest
      rw [incremental_chunkAttempt.drain_of_some hattempt]
      rcases hnext with hrefused | hdrop
      · rw [drain_of_none (chunkAttempt_refused hrefused _)]
        exact inl hrefused
      · rw [hdrop]
        exact ih s'

/-- A frame that ends between chunks can be joined with what follows it. -/
theorem WholeChunks.drain_append {payload : Bytes} (h : WholeChunks payload) (s : ChunkState) (more : Bytes) :
    (drain chunkAttempt s (payload ++ more)).1 = (drain chunkAttempt (drain chunkAttempt s payload).1 more).1 := by
  rw [incremental_chunkAttempt.drain_append]
  rcases h.drain_eq s with hrefused | hnil
  · rw [drain_of_none (chunkAttempt_refused hrefused _), drain_of_none (chunkAttempt_refused hrefused _)]
  · rw [hnil, nil_append]

/-- Frames of which all but the last end between chunks decode like one frame. -/
theorem decodePayloads_of_wholeChunks
    (h : ∀ payload ∈ payloads, WholeChunks payload) (last : Bytes) (s : ChunkState) :
    decodePayloads s (payloads ++ [last]) = (drain chunkAttempt s (payloads.flatten ++ last)).1 := by
  induction payloads generalizing s with
  | nil => rfl
  | cons payload payloads ih =>
    have hrest := ih (fun p hp => h p (mem_cons_of_mem payload hp)) (drain chunkAttempt s payload).1
    rw [flatten_cons, append_assoc, (h payload mem_cons_self).drain_append, ← hrest]
    rfl

/-! ### Independence of the frames -/

/-- An upgraded connection behind the handshake, with nothing buffered: it was reached by a
run that keeps the messages in order. -/
structure Connection.Upgraded (cfg : Config) (c : Connection) : Prop where
  reached : Reaches (step cfg) QueueSafe {} c
  transport : c.transport = .WS_FRAMED
  phase : c.phase = .MESSAGES
  buffer : c.readBuf.getD [] = []
  accumulator : c.accumulator = []
  staysOpen : c.closeAfterWrite = false

/-- A run that brings the frames takes the decoder over their payloads. -/
theorem Connection.Upgraded.after {cfg : Config} {c : Connection} (h : c.Upgraded cfg)
    {frames : List Bytes} (hframes : Carries frames payloads) {events : List Event}
    (hquiet : ∀ e ∈ events, e.Quiet) (hreceived : received events = frames.flatten) :
    (c.after cfg events).decoded = decodePayloads c.decoded payloads ∧ (c.after cfg events).Tracks := by
  have htracks : c.Tracks := h.reached.invariant Tracks tracks_init
    fun _ _ _ hs hguard hstep => hs.step hguard hstep
  have hstart : c.Established .WS_FRAMED c.negotiatedVersion (drain frameAttempt c.decoded []) :=
    ⟨h.transport, rfl, h.staysOpen, rfl, fun _ => ⟨h.phase, h.buffer⟩⟩
  obtain ⟨hestablished, htracks'⟩ := hstart.after (scannedBy_frameAttempt cfg) htracks hquiet
  refine ⟨?_, htracks'⟩
  rw [hestablished.decoded, nil_append, hreceived]
  exact drain_frames hframes c.decoded

/-- Two ways of framing one chunk stream, neither with a chunk that spans frames, bring the
same messages; a single frame is one such way.  What is started so far is a prefix of them,
and all of them once nothing runs. -/
theorem messages_independent_of_frames {cfg : Config} {c : Connection} (hc : c.Upgraded cfg)
    {frames frames' payloads payloads' : List Bytes} {last last' : Bytes}
    (hframes : Carries frames (payloads ++ [last]))
    (hframes' : Carries frames' (payloads' ++ [last']))
    (hstream : payloads.flatten ++ last = payloads'.flatten ++ last')
    (hwhole : ∀ payload ∈ payloads, WholeChunks payload)
    (hwhole' : ∀ payload ∈ payloads', WholeChunks payload)
    {events events' : List Event}
    (hquiet : ∀ e ∈ events, e.Quiet) (hquiet' : ∀ e ∈ events', e.Quiet)
    (hreceived : received events = frames.flatten)
    (hreceived' : received events' = frames'.flatten) :
    let d := c.after cfg events
    let d' := c.after cfg events'
    arrivals d.trace = arrivals d'.trace ∧ (d.phase = .CLOSED ↔ d'.phase = .CLOSED) ∧
      starts d.trace <+: arrivals d.trace ∧
      (d.phase ≠ .CLOSED → d.running = [] → d'.running = [] → starts d.trace = starts d'.trace) := by
  obtain ⟨hd, htracks⟩ := hc.after hframes hquiet hreceived
  obtain ⟨hd', htracks'⟩ := hc.after hframes' hquiet' hreceived'
  rw [decodePayloads_of_wholeChunks hwhole, hstream] at hd
  rw [decodePayloads_of_wholeChunks hwhole'] at hd'
  exact htracks.same_messages htracks' (hd.trans hd'.symm)

/-- An unmasked final binary frame with a short payload. -/
def shortFrame (payload : Bytes) : Bytes := 0x82 :: payload.length.toUInt8 :: payload

/-- The upgrade of a browser and the handshake in its first frame. -/
def browserHandshake : List Event :=
  [⟨.read "GET / HTTP/1.1\r\nUpgrade: websocket\r\nSec-WebSocket-Key: x\r\n\r\n".toUTF8.toList, []⟩,
    ⟨.read (shortFrame handshake51), []⟩]

/-- The header of such a frame. -/
def shortHeader (payload : Bytes) : FrameHeader where
  fin := true
  mask := false
  opcode := .BINARY
  payloadLen := payload.length
  maskKey := []
  headerSize := 2

/-- The messages in one frame, and in two that are split between chunks. -/
theorem messages_independent_of_frames_twoMessages : ∃ c : Connection, c.Upgraded sampleConfig ∧
      arrivals (c.after sampleConfig [⟨.read (shortFrame twoMessages), []⟩]).trace = arrivals (c.after sampleConfig
          [⟨.read (shortFrame (twoMessages.take 6)), []⟩, ⟨.read (shortFrame (twoMessages.drop 6)), []⟩]).trace := by
  have hrun : (runGuarded (step sampleConfig) QueueSafe {} browserHandshake).map
      (fun c => (c.transport, c.phase, c.readBuf.getD [], c.accumulator, c.closeAfterWrite)) =
        some (.WS_FRAMED, .MESSAGES, [], [], false) := by
    decide +kernel
  obtain ⟨c, hc, hfacts⟩ := map_eq_some_iff.mp hrun
  simp only [Prod.mk.injEq] at hfacts
  obtain ⟨htransport, hphase, hbuffer, haccumulator, hstays⟩ := hfacts
  have hupgraded : c.Upgraded sampleConfig :=
    ⟨reaches_of_runGuarded _ hc, htransport, hphase, hbuffer, haccumulator, hstays⟩
  have hframe : IsBinaryFrame (shortFrame twoMessages) twoMessages (shortHeader twoMessages) :=
    ⟨rfl, rfl, rfl, by decide, rfl, rfl⟩
  have hframe₁ : IsBinaryFrame (shortFrame (twoMessages.take 6)) (twoMessages.take 6)
      (shortHeader (twoMessages.take 6)) := ⟨rfl, rfl, rfl, by decide, rfl, rfl⟩
  have hframe₂ : IsBinaryFrame (shortFrame (twoMessages.drop 6)) (twoMessages.drop 6)
      (shortHeader (twoMessages.drop 6)) := ⟨rfl, rfl, rfl, by decide, rfl, rfl⟩
  have hend : WholeChunks ([] ++ []) := WholeChunks.nil
  have hterminator : WholeChunks ([0, 0] ++ []) := WholeChunks.chunk (by decide) hend
  have hfirst : WholeChunks (twoMessages.take 6) := by
    have hchunk : ([0xB0, 0x0F] : Bytes).length = wordValue [0, 2] := by decide
    exact WholeChunks.chunk hchunk hterminator
  have hone : Carries [shortFrame twoMessages] ([] ++ [twoMessages]) := Carries.cons _ hframe Carries.nil
  have htwo : Carries [shortFrame (twoMessages.take 6), shortFrame (twoMessages.drop 6)]
      ([twoMessages.take 6] ++ [twoMessages.drop 6]) :=
    Carries.cons _ hframe₁ (Carries.cons _ hframe₂ Carries.nil)
  exact ⟨c, hupgraded, (messages_independent_of_frames hupgraded hone htwo rfl
    (fun _ hmem => absurd hmem (by simp)) (fun _ hmem => mem_singleton.mp hmem ▸ hfirst)
    (by decide) (by decide) (by decide) (by decide)).1⟩

/-- One chunk and its terminator, in one frame and cut behind the third byte: the second
time no message comes out. -/
theorem chunk_cut_at_frame_end :
    let c := Connection.after sampleConfig {} browserHandshake
    (c.transport = .WS_FRAMED ∧ c.phase = .MESSAGES) ∧
      arrivals (c.after sampleConfig [⟨.read (shortFrame [0, 2, 0xB0, 0x0F, 0, 0]), []⟩]).trace = [[0xB0, 0x0F]] ∧
      arrivals (c.after sampleConfig [⟨.read (shortFrame [0, 2, 0xB0]), []⟩,
        ⟨.read (shortFrame [0x0F, 0, 0]), []⟩]).trace = [] := by
  decide +kernel

end Eugraph.BoltServer
