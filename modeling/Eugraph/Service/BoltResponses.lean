import Eugraph.Service.PackStream
import Eugraph.Service.WebSocketFrames

/-!
# The bytes of a response

`BoltConnection::sendResponse` is given the bytes of one message, or the messages of a PULL
that are chunked already, and tells the two apart by walking through them as chunks.  A
message starts with the marker of a struct of at most one field, which as a chunk size is
beyond the maximum, so the guess is never wrong.
-/

namespace Eugraph.BoltServer

open Lib PackStream List

/-! ### Chunks -/

/-- The loop of `appendRawChunked` and `appendChunkedMessage`, over what is left. -/
def appendChunks (data : Bytes) : Bytes :=
  if _h : data = [] then []
  else
    let chunkSize := min BOLT_MAX_CHUNK_SIZE data.length
    wordBytes 2 chunkSize ++ (data.take chunkSize ++ appendChunks (data.drop chunkSize))
termination_by data.length
decreasing_by
  have := length_pos_iff.mpr _h
  simp only [length_drop, BOLT_MAX_CHUNK_SIZE]
  omega

/-- `appendRawChunked`. -/
def appendRawChunked (out data : Bytes) : Bytes := out ++ appendChunks data ++ [0x00, 0x00]

/-- `appendChunkedMessage` of the session. -/
def appendChunkedMessage (out data : Bytes) : Bytes := out ++ appendChunks data ++ [0x00, 0x00]

/-- The loop of `isChunkedResponse`. -/
def isChunkedFrom (sawDataChunk sawTerminator : Bool) (data : Bytes) : Bool :=
  match data with
  | [] => sawDataChunk && sawTerminator
  | [_] => false
  | hi :: lo :: rest =>
    let chunkSize := wordValue [hi, lo]
    if chunkSize = 0 then isChunkedFrom sawDataChunk true rest
    else if BOLT_MAX_CHUNK_SIZE < chunkSize ∨ rest.length < chunkSize then false
    else isChunkedFrom true sawTerminator (rest.drop chunkSize)
termination_by data.length
decreasing_by
  · simp only [length_cons]
    omega
  · simp only [length_cons, length_drop]
    omega

def isChunkedResponse (data : Bytes) : Bool := isChunkedFrom false false data

/-- The body that `sendResponse` makes of a response. -/
def responseBody (data : Bytes) : Bytes :=
  if isChunkedResponse data then data else appendRawChunked [] data

/-- What `sendResponse` writes on an open connection. -/
def sentBytes (transport : Transport) (data : Bytes) : Bytes :=
  if data = [] then []
  else
    match transport with
    | .WS_FRAMED => buildFrame (responseBody data) .BINARY
    | _ => responseBody data

/-! ### Responses -/

namespace tags

def SUCCESS : UInt8 := 0x70
def RECORD : UInt8 := 0x71
def IGNORED : UInt8 := 0x7E
def FAILURE : UInt8 := 0x7F

end tags

inductive ServerMessage
  | success (fields : List (Bytes × Value))
  | failure (code message : Bytes)
  | ignored
  | record (fields : List Value)

/-- `makeSuccess`, `makeFailure`, `makeIgnored` and `makeRecord`. -/
def ServerMessage.bytes : ServerMessage → Bytes
  | .success fields => writeValue (.struct tags.SUCCESS [.dict fields])
  | .failure code message =>
    writeValue (.struct tags.FAILURE
      [.dict [("code".toUTF8.toList, .string code), ("message".toUTF8.toList, .string message)]])
  | .ignored => writeValue (.struct tags.IGNORED [])
  | .record fields => writeValue (.struct tags.RECORD [.list fields])

/-- What `processMessage` of the session returns: nothing after GOODBYE, the messages of a
PULL one chunked behind the other, and one message as it is otherwise. -/
inductive Response
  | none
  | raw (message : ServerMessage)
  | chunked (messages : List ServerMessage)

def Response.messages : Response → List ServerMessage
  | .none => []
  | .raw message => [message]
  | .chunked messages => messages

def Response.bytes : Response → Bytes
  | .none => []
  | .raw message => message.bytes
  | .chunked messages => messages.foldl (fun out message => appendChunkedMessage out message.bytes) []

/-! ### The receiver -/

/-- Chunks up to a zero one make a message; `current` are those of the message under way. -/
def dechunk (current : List Bytes) (data : Bytes) : Option (List (List Bytes)) :=
  match data with
  | [] => if current = [] then some [] else none
  | [_] => none
  | hi :: lo :: rest =>
    let chunkSize := wordValue [hi, lo]
    if chunkSize = 0 then (dechunk [] rest).map (current :: ·)
    else if rest.length < chunkSize then none
    else dechunk (current ++ [rest.take chunkSize]) (rest.drop chunkSize)
termination_by data.length
decreasing_by
  · simp only [length_cons]
    omega
  · simp only [length_cons, length_drop]
    omega

/-- The receiver takes the payload out of a frame first. -/
def receivedChunks (transport : Transport) (data : Bytes) : Option (List (List Bytes)) :=
  match transport with
  | .WS_FRAMED =>
    if data = [] then some []
    else
      match tryParseFrameHeader data with
      | some hdr =>
        if data.length = hdr.headerSize + hdr.payloadLen then dechunk [] (framePayload hdr data)
        else none
      | none => none
  | _ => dechunk [] data

/-! ### Chunks of a message -/

/-- One data chunk. -/
def chunkBytes (chunk : Bytes) : Bytes := wordBytes 2 chunk.length ++ chunk

/-- Chunks that can be told from a terminator and from a message. -/
def Chunks (chunks : List Bytes) : Prop :=
  ∀ chunk ∈ chunks, 0 < chunk.length ∧ chunk.length ≤ BOLT_MAX_CHUNK_SIZE

lemma exists_chunks (data : Bytes) : ∃ chunks, Chunks chunks ∧ chunks.flatten = data ∧
    appendChunks data = chunks.flatMap chunkBytes := by
  induction hn : data.length using Nat.strong_induction_on generalizing data with
  | _ n ih =>
    subst hn
    rw [appendChunks]
    split
    · next hnil => exact ⟨[], by simp [Chunks], hnil.symm, rfl⟩
    · next hne =>
        have hpos := length_pos_iff.mpr hne
        have hmin : 0 < min BOLT_MAX_CHUNK_SIZE data.length := lt_min (show (0 : Nat) < 0x3FFF by omega) hpos
        have hlen : (data.take (min BOLT_MAX_CHUNK_SIZE data.length)).length =
            min BOLT_MAX_CHUNK_SIZE data.length := by
          rw [length_take]
          omega
        obtain ⟨chunks, hchunks, hflat, hrest⟩ :=
          ih (data.drop (min BOLT_MAX_CHUNK_SIZE data.length)).length
            (by rw [length_drop]; omega) _ rfl
        refine ⟨data.take (min BOLT_MAX_CHUNK_SIZE data.length) :: chunks, ?_, ?_, ?_⟩
        · refine forall_mem_cons.mpr ⟨?_, hchunks⟩
          rw [hlen]
          exact ⟨hmin, min_le_left _ _⟩
        · rw [flatten_cons, hflat, take_append_drop]
        · dsimp only
          rw [hrest, flatMap_cons, chunkBytes, hlen, append_assoc]

lemma wordBytes_two {n : Nat} (h : n < 65536) : ∃ hi lo, wordBytes 2 n = [hi, lo] ∧ wordValue [hi, lo] = n := by
  refine ⟨_, _, rfl, ?_⟩
  have hvalue : wordValue (wordBytes 2 n) = n := wordValue_wordBytes h
  exact hvalue

/-- The receiver takes whole chunks to the message under way. -/
theorem dechunk_chunks (chunks : List Bytes) (hchunks : Chunks chunks) (current : List Bytes) (rest : Bytes) :
    dechunk current (chunks.flatMap chunkBytes ++ rest) = dechunk (current ++ chunks) rest := by
  induction chunks generalizing current with
  | nil => rw [flatMap_nil, nil_append, append_nil]
  | cons chunk chunks ih =>
    obtain ⟨⟨hpos, hmax⟩, htail⟩ := forall_mem_cons.mp hchunks
    rw [BOLT_MAX_CHUNK_SIZE] at hmax
    obtain ⟨hi, lo, hword, hvalue⟩ := wordBytes_two (show chunk.length < 65536 by omega)
    rw [flatMap_cons, chunkBytes, hword]
    show dechunk current (hi :: lo :: (chunk ++ chunks.flatMap chunkBytes ++ rest)) = _
    rw [dechunk, hvalue, if_neg (by omega), if_neg (by simp), append_assoc, take_left' rfl,
      drop_left' rfl, ih htail, append_assoc]
    rfl

/-- So does the test on the bytes of a response. -/
theorem isChunkedFrom_chunks (chunks : List Bytes) (hchunks : Chunks chunks) (saw term : Bool) (rest : Bytes) :
    isChunkedFrom saw term (chunks.flatMap chunkBytes ++ rest) =
      isChunkedFrom (saw || !chunks.isEmpty) term rest := by
  induction chunks generalizing saw with
  | nil => simp
  | cons chunk chunks ih =>
    obtain ⟨⟨hpos, hmax⟩, htail⟩ := forall_mem_cons.mp hchunks
    have hmax' : chunk.length ≤ 0x3FFF := hmax
    obtain ⟨hi, lo, hword, hvalue⟩ := wordBytes_two (show chunk.length < 65536 by omega)
    have hfit : ¬ (BOLT_MAX_CHUNK_SIZE < chunk.length ∨
        (chunk ++ (chunks.flatMap chunkBytes ++ rest)).length < chunk.length) := by
      rw [length_append]
      omega
    rw [flatMap_cons, chunkBytes, hword]
    show isChunkedFrom saw term (hi :: lo :: (chunk ++ chunks.flatMap chunkBytes ++ rest)) = _
    rw [isChunkedFrom, append_assoc, hvalue, if_neg (by omega), if_neg hfit, drop_left' rfl, ih htail]
    simp

/-! ### Messages -/

/-- The chunks of a message, and its terminator. -/
theorem appendChunkedMessage_eq (out data : Bytes) : ∃ chunks, Chunks chunks ∧ chunks.flatten = data ∧
    appendChunkedMessage out data = out ++ (chunks.flatMap chunkBytes ++ [0x00, 0x00]) := by
  obtain ⟨chunks, hchunks, hflat, heq⟩ := exists_chunks data
  exact ⟨chunks, hchunks, hflat, by rw [appendChunkedMessage, heq, append_assoc]⟩

lemma dechunk_terminator (current : List Bytes) (rest : Bytes) :
    dechunk current (0x00 :: 0x00 :: rest) = (dechunk [] rest).map (current :: ·) := by
  rw [dechunk, show wordValue [0x00, 0x00] = 0 from rfl, if_pos rfl]

lemma isChunkedFrom_terminator (saw term : Bool) (rest : Bytes) :
    isChunkedFrom saw term (0x00 :: 0x00 :: rest) = isChunkedFrom saw true rest := by
  rw [isChunkedFrom, show wordValue [0x00, 0x00] = 0 from rfl, if_pos rfl]

lemma writeStructHeader_one (tag : UInt8) : writeStructHeader tag 1 = [0xB1, tag] := by
  rw [writeStructHeader, writeTinySize, if_pos (by decide)]
  rfl

/-- A struct of at most one field. -/
theorem ServerMessage.bytes_eq (message : ServerMessage) :
    ∃ marker tag rest, message.bytes = marker :: tag :: rest ∧ (marker = 0xB0 ∨ marker = 0xB1) := by
  cases message with
  | success fields =>
    refine ⟨0xB1, tags.SUCCESS, writeValues [.dict fields], ?_, Or.inr rfl⟩
    rw [ServerMessage.bytes, writeValue, length_singleton, writeStructHeader_one]
    rfl
  | failure code message =>
    refine ⟨0xB1, tags.FAILURE, writeValues [.dict [("code".toUTF8.toList, .string code),
      ("message".toUTF8.toList, .string message)]], ?_, Or.inr rfl⟩
    rw [ServerMessage.bytes, writeValue, length_singleton, writeStructHeader_one]
    rfl
  | ignored => exact ⟨0xB0, tags.IGNORED, _, rfl, Or.inl rfl⟩
  | record fields =>
    refine ⟨0xB1, tags.RECORD, writeValues [.list fields], ?_, Or.inr rfl⟩
    rw [ServerMessage.bytes, writeValue, length_singleton, writeStructHeader_one]
    rfl

/-- The marker is no chunk size. -/
theorem isChunkedResponse_message (message : ServerMessage) : isChunkedResponse message.bytes = false := by
  obtain ⟨marker, tag, rest, hbytes, hmarker⟩ := message.bytes_eq
  have hvalue : BOLT_MAX_CHUNK_SIZE < wordValue [marker, tag] := by
    rw [wordValue_cons, show wordValue [tag] = tag.toNat from Nat.zero_add _]
    have hge : 0xB0 ≤ marker.toNat := by
      rcases hmarker with rfl | rfl
      all_goals decide
    show 0x3FFF < marker.toNat * 256 ^ 1 + tag.toNat
    omega
  rw [hbytes, isChunkedResponse, isChunkedFrom, if_neg (by omega), if_pos (Or.inl hvalue)]

/-- Chunked messages, one behind the other. -/
theorem foldl_appendChunkedMessage (messages : List ServerMessage) (out : Bytes) :
    ∃ parts : List (List Bytes), parts.map flatten = messages.map ServerMessage.bytes ∧
      (∀ chunks ∈ parts, Chunks chunks) ∧
      messages.foldl (fun out message => appendChunkedMessage out message.bytes) out =
        out ++ parts.flatMap fun chunks => chunks.flatMap chunkBytes ++ [0x00, 0x00] := by
  induction messages generalizing out with
  | nil => exact ⟨[], rfl, by simp, by simp⟩
  | cons message messages ih =>
    obtain ⟨chunks, hchunks, hflat, heq⟩ := appendChunkedMessage_eq out message.bytes
    obtain ⟨parts, hparts, hall, hfold⟩ := ih (appendChunkedMessage out message.bytes)
    refine ⟨chunks :: parts, ?_, forall_mem_cons.mpr ⟨hchunks, hall⟩, ?_⟩
    · rw [map_cons, map_cons, hflat, hparts]
    · rw [foldl_cons, hfold, heq, flatMap_cons, append_assoc]

lemma dechunk_parts (parts : List (List Bytes)) (hparts : ∀ chunks ∈ parts, Chunks chunks) :
    dechunk [] (parts.flatMap fun chunks => chunks.flatMap chunkBytes ++ [0x00, 0x00]) = some parts := by
  induction parts with
  | nil =>
    rw [flatMap_nil, dechunk, if_pos rfl]
  | cons chunks parts ih =>
    obtain ⟨hchunks, hrest⟩ := forall_mem_cons.mp hparts
    rw [flatMap_cons, append_assoc, dechunk_chunks chunks hchunks]
    show dechunk _ (0x00 :: 0x00 :: parts.flatMap _) = _
    rw [dechunk_terminator, ih hrest]
    rfl

lemma isChunkedFrom_parts (parts : List (List Bytes)) (hparts : ∀ chunks ∈ parts, Chunks chunks) (saw term : Bool) :
    isChunkedFrom saw term (parts.flatMap fun chunks => chunks.flatMap chunkBytes ++ [0x00, 0x00]) =
      ((saw || parts.any fun chunks => !chunks.isEmpty) && (term || !parts.isEmpty)) := by
  induction parts generalizing saw term with
  | nil =>
    rw [flatMap_nil, isChunkedFrom]
    simp
  | cons chunks parts ih =>
    obtain ⟨hchunks, hrest⟩ := forall_mem_cons.mp hparts
    rw [flatMap_cons, append_assoc, isChunkedFrom_chunks chunks hchunks]
    show isChunkedFrom _ _ (0x00 :: 0x00 :: parts.flatMap _) = _
    rw [isChunkedFrom_terminator, ih hrest, any_cons, isEmpty_cons, Bool.or_assoc]
    simp

/-- Chunked messages are recognised. -/
theorem isChunkedResponse_chunked {messages : List ServerMessage} (hne : messages ≠ []) :
    isChunkedResponse (Response.chunked messages).bytes = true := by
  obtain ⟨parts, hparts, hall, hfold⟩ := foldl_appendChunkedMessage messages []
  have hbytes : (Response.chunked messages).bytes =
      parts.flatMap fun chunks => chunks.flatMap chunkBytes ++ [0x00, 0x00] := hfold
  obtain ⟨message, messages, rfl⟩ := exists_cons_of_ne_nil hne
  obtain ⟨chunks, rest, rfl⟩ : ∃ chunks rest, parts = chunks :: rest := by
    cases parts with
    | nil => cases hparts
    | cons chunks rest => exact ⟨chunks, rest, rfl⟩
  obtain ⟨marker, tag, bytes, hmessage, -⟩ := message.bytes_eq
  have hflat : chunks.flatten = message.bytes := (List.cons.inj hparts).1
  have hchunks : chunks ≠ [] := by
    rintro rfl
    rw [hmessage] at hflat
    cases hflat
  rw [hbytes, isChunkedResponse, isChunkedFrom_parts _ hall]
  simp [hchunks]

/-- The messages of a response and their chunks in the body. -/
theorem responseBody_eq (response : Response) (hne : response.bytes ≠ []) : ∃ parts : List (List Bytes),
      parts.map flatten = response.messages.map ServerMessage.bytes ∧
      (∀ chunks ∈ parts, Chunks chunks) ∧
      responseBody response.bytes = parts.flatMap fun chunks => chunks.flatMap chunkBytes ++ [0x00, 0x00] := by
  cases response with
  | none => exact absurd rfl hne
  | raw message =>
    -- taken for a message and chunked once
    obtain ⟨chunks, hchunks, hflat, heq⟩ := appendChunkedMessage_eq [] message.bytes
    refine ⟨[chunks], by simp [hflat, Response.messages], by simpa using hchunks, ?_⟩
    rw [responseBody, show (Response.raw message).bytes = message.bytes from rfl,
      isChunkedResponse_message, if_neg (by simp), flatMap_singleton]
    exact heq
  | chunked messages =>
    -- taken for chunks and left as it is
    obtain ⟨parts, hparts, hall, hfold⟩ := foldl_appendChunkedMessage messages []
    have hbytes : (Response.chunked messages).bytes =
        parts.flatMap fun chunks => chunks.flatMap chunkBytes ++ [0x00, 0x00] := hfold
    refine ⟨parts, hparts, hall, ?_⟩
    have hmessages : messages ≠ [] := by
      rintro rfl
      exact hne rfl
    rw [responseBody, isChunkedResponse_chunked hmessages, if_pos rfl, hbytes]

/-- Every response arrives as its messages, in order, in chunks of the allowed size; a single
message is chunked once and chunked messages are left as they are. -/
theorem receivedChunks_sentBytes (transport : Transport) (response : Response)
    (hsize : (responseBody response.bytes).length < 2 ^ 64) :
    (∃ parts, receivedChunks transport (sentBytes transport response.bytes) = some parts ∧
      parts.map flatten = response.messages.map ServerMessage.bytes ∧
      ∀ chunks ∈ parts, ∀ chunk ∈ chunks, chunk.length ≤ BOLT_MAX_CHUNK_SIZE) ∧
    (∀ message, response = .raw message → isChunkedResponse response.bytes = false) ∧
    ∀ messages, response = .chunked messages → messages ≠ [] → responseBody response.bytes = response.bytes := by
  refine ⟨?_, ?_, ?_⟩
  · by_cases hne : response.bytes = []
    · have hmessages : response.messages = [] := by
        cases response with
        | none => rfl
        | raw message =>
          obtain ⟨marker, tag, rest, hbytes, -⟩ := message.bytes_eq
          cases hbytes.symm.trans hne
        | chunked messages =>
          cases messages with
          | nil => rfl
          | cons message messages =>
            obtain ⟨parts, hparts, -, hfold⟩ := foldl_appendChunkedMessage (message :: messages) []
            have hempty : [] ++ parts.flatMap (fun chunks => chunks.flatMap chunkBytes ++
                [0x00, 0x00]) = [] := hfold.symm.trans hne
            cases parts with
            | nil => cases hparts
            | cons chunks parts => simp at hempty
      refine ⟨[], ?_, by rw [hmessages]; rfl, by simp⟩
      have hnothing : dechunk [] [] = some [] := by rw [dechunk, if_pos rfl]
      cases transport with
      | WS_FRAMED =>
        rw [sentBytes, if_pos hne]
        rfl
      | _ =>
        rw [sentBytes, if_pos hne]
        · exact hnothing
        · simp
    · obtain ⟨parts, hparts, hall, hbody⟩ := responseBody_eq response hne
      refine ⟨parts, ?_, hparts, fun chunks hchunks chunk hchunk => (hall chunks hchunks chunk hchunk).2⟩
      have hdechunk : dechunk [] (responseBody response.bytes) = some parts := by
        rw [hbody]
        exact dechunk_parts parts hall
      cases transport with
      | WS_FRAMED =>
        obtain ⟨hdr, hback, hmore, -⟩ := frame_readsBack (show (2 : UInt8) < 16 by decide) none (by simp) _ hsize
        obtain ⟨hparse, hpayload⟩ := hmore []
        rw [append_nil] at hparse hpayload
        have hsizes := hback.headerSize
        rw [← hback.payloadLen] at hsizes
        have hframe : frameOf none (responseBody response.bytes) (Opcode.ofCode 2) =
          buildFrame (responseBody response.bytes) .BINARY := rfl
        rw [hframe] at hparse hpayload hsizes
        rw [sentBytes, if_neg hne, receivedChunks, if_neg (by simp [buildFrame]), hparse]
        dsimp only
        rw [if_pos hsizes.symm, hpayload, hdechunk]
      | _ =>
        rw [sentBytes, if_neg hne]
        · exact hdechunk
        · simp
  · rintro message rfl
    exact isChunkedResponse_message message
  · rintro messages rfl hmessages
    rw [responseBody, isChunkedResponse_chunked hmessages, if_pos rfl]

/-- Two requests ignored, answered in one frame. -/
theorem receivedChunks_sentBytes_ignored :
    let response := Response.chunked [.ignored, .ignored]
    (∃ parts, receivedChunks .WS_FRAMED (sentBytes .WS_FRAMED response.bytes) = some parts ∧
        parts.map flatten = response.messages.map ServerMessage.bytes ∧
        ∀ chunks ∈ parts, ∀ chunk ∈ chunks, chunk.length ≤ BOLT_MAX_CHUNK_SIZE) ∧
      (∀ message, response = .raw message → isChunkedResponse response.bytes = false) ∧
      ∀ messages, response = .chunked messages → messages ≠ [] → responseBody response.bytes = response.bytes := by
  have hbytes : ServerMessage.ignored.bytes = [0xB0, 0x7E] := by
    rw [ServerMessage.bytes, writeValue]
    rfl
  have hchunks : appendChunks [0xB0, 0x7E] = [0x00, 0x02, 0xB0, 0x7E] := by
    rw [appendChunks, dif_neg (by simp), show min BOLT_MAX_CHUNK_SIZE ([0xB0, 0x7E] : Bytes).length = 2 from rfl]
    show wordBytes 2 2 ++ ([0xB0, 0x7E] ++ appendChunks []) = _
    rw [appendChunks, dif_pos rfl]
    rfl
  refine receivedChunks_sentBytes .WS_FRAMED (.chunked [.ignored, .ignored]) ?_
  rw [responseBody, isChunkedResponse_chunked (by simp), if_pos rfl]
  simp [Response.bytes, appendChunkedMessage, hbytes, hchunks]

end Eugraph.BoltServer
