import Eugraph.Lib.ByteString
import Eugraph.Lib.SingleServer

/-!
# A Bolt connection

`BoltConnection` of `service/bolt/bolt_server.cpp`, with the WebSocket layer it uses and the
version negotiation of its session.  The callbacks of the socket and the completions of the
message coroutines are the events; they all run on the connection's event loop, one after
the other.

The socket answers a write at once or later: `outcomes` says how it answers the writes of
the event being handled, and a callback that comes inside the write call runs inside it.
`running` holds the messages whose coroutine has not completed, `written` what the socket
took, and `trace` what happened to the messages.  The bytes a response is wrapped in and
the coroutine itself are not modelled.
-/

namespace Eugraph.BoltServer

open Lib

inductive Phase
  | HANDSHAKE
  | MESSAGES
  | CLOSED
  deriving DecidableEq

inductive Transport
  | DETECTING
  | BOLT_RAW
  | WS_HANDSHAKE
  | WS_FRAMED
  deriving DecidableEq

def BOLT_MAGIC : Nat := 0x6060B017
def BOLT_VERSION_5_1 : Nat := 0x00000501
def BOLT_VERSION_5_0 : Nat := 0x00000500
def BOLT_VERSION_4_4 : Nat := 0x00000404
def BOLT_PROPOSED_VERSIONS : List Nat := [BOLT_VERSION_5_1, BOLT_VERSION_5_0, BOLT_VERSION_4_4]
def BOLT_MAX_CHUNK_SIZE : Nat := 0x3FFF
def BOLT_MAX_MESSAGE_SIZE : Nat := 64 * 1024 * 1024
def kMaxFramePayload : Nat := 16 * 1024 * 1024

/-- How the socket answers a write: later, or by a callback inside the call. -/
inductive WriteOutcome
  | later
  | success
  | error
  deriving DecidableEq

inductive Output
  | handshake (version : Nat)
  | upgrade (key : Bytes)
  | forbidden
  | response (data : Bytes)
  | pong (payload : Bytes)
  | closeFrame
  deriving DecidableEq

structure Connection where
  transport : Transport := .DETECTING
  phase : Phase := .HANDSHAKE
  readBuf : Option Bytes := none
  closeAfterWrite : Bool := false
  accumulator : Bytes := []
  pending : List Bytes := []
  messageProcessing : Bool := false
  negotiatedVersion : Nat := 0
  cancelRequested : Bool := false
  streamAbandoned : Bool := false
  running : List Bytes := []
  outcomes : List WriteOutcome := []
  written : List Output := []
  trace : List (ServerAction Bytes Bytes) := []

/-! ### Version negotiation -/

/-- `ver == supported && ver > selected`, over the supported versions. -/
def selectSimple (selected ver : Nat) : Nat :=
  BOLT_PROPOSED_VERSIONS.foldl
    (fun selected supported => if ver = supported ∧ selected < ver then ver else selected) selected

/-- The proposal as minor version, major version and range. -/
def selectRange (selected ver : Nat) : Nat :=
  let minorLower := ver / 65536 % 65536
  let major := ver / 256 % 256
  let range := ver % 256
  BOLT_PROPOSED_VERSIONS.foldl
    (fun selected supported =>
      if supported / 256 % 256 = major ∧ minorLower ≤ supported % 256 ∧
          supported % 256 < minorLower + range + 1 ∧ selected < supported then supported
      else selected) selected

/-- One proposal: the simple format, then the range format, then the catch-all. -/
def selectProposal (selected ver : Nat) : Nat :=
  let selected := selectSimple selected ver
  let selected := if selected = 0 then selectRange selected ver else selected
  if selected = 0 ∧ ver = 0x000001FF then BOLT_VERSION_5_1 else selected

/-- The whole 32-bit words of the data; a shorter tail is not a proposal. -/
def proposals : Bytes → List Nat
  | a :: b :: c :: d :: rest => wordValue [a, b, c, d] :: proposals rest
  | _ => []

/-- `BoltSession::negotiateHandshake`: the version, or nothing when the data is too short or
has another magic.  Every word behind the magic is a proposal. -/
def negotiateHandshake (data : Bytes) : Option Nat :=
  if data.length < 8 then none
  else if wordValue (data.take 4) ≠ BOLT_MAGIC then none
  else
    let selected := (proposals (data.drop 4)).foldl selectProposal 0
    some (if selected = 0 then BOLT_VERSION_5_1 else selected)

/-! ### WebSocket frames -/

inductive Opcode
  | CONTINUATION
  | TEXT
  | BINARY
  | CLOSE
  | PING
  | PONG
  | other (code : UInt8)
  deriving DecidableEq

def Opcode.ofCode : UInt8 → Opcode
  | 0x0 => .CONTINUATION
  | 0x1 => .TEXT
  | 0x2 => .BINARY
  | 0x8 => .CLOSE
  | 0x9 => .PING
  | 0xA => .PONG
  | code => .other code

structure FrameHeader where
  fin : Bool
  mask : Bool
  opcode : Opcode
  payloadLen : Nat
  maskKey : Bytes
  headerSize : Nat

/-- The length field: its value and the position behind it. -/
def frameLength (len7 : Nat) (data : Bytes) : Option (Nat × Nat) :=
  if len7 ≤ 125 then some (len7, 2)
  else if len7 = 126 then
    if data.length < 4 then none else some (wordValue ((data.drop 2).take 2), 4)
  else if data.length < 10 then none
  else some (wordValue ((data.drop 2).take 8), 10)

/-- `tryParseFrameHeader`: nothing when more data is needed. -/
def tryParseFrameHeader (data : Bytes) : Option FrameHeader :=
  match data with
  | b0 :: b1 :: _ =>
    match frameLength (b1 &&& 0x7F).toNat data with
    | none => none
    | some (payloadLen, pos) =>
      let mask := b1 &&& 0x80 ≠ 0
      if mask ∧ data.length < pos + 4 then none
      else some {
        fin := b0 &&& 0x80 ≠ 0
        mask := mask
        opcode := Opcode.ofCode (b0 &&& 0x0F)
        payloadLen := payloadLen
        maskKey := if mask then (data.drop pos).take 4 else []
        headerSize := if mask then pos + 4 else pos }
  | _ => none

/-- `unmaskPayload`: byte `i` is combined with byte `i % 4` of the key. -/
def unmaskPayload (key : Bytes) (payload : Bytes) : Bytes :=
  payload.mapIdx fun i b => b ^^^ key.getD (i % 4) 0

/-- The payload of a complete frame at the front of the data. -/
def framePayload (hdr : FrameHeader) (data : Bytes) : Bytes :=
  let payload := (data.drop hdr.headerSize).take hdr.payloadLen
  if hdr.mask then unmaskPayload hdr.maskKey payload else payload

/-! ### The HTTP upgrade -/

/-- Offset of the first occurrence. -/
def find (pattern : Bytes) : Bytes → Option Nat
  | [] => if pattern = [] then some 0 else none
  | b :: rest =>
    if pattern.isPrefixOf (b :: rest) then some 0 else (find pattern rest).map (· + 1)

def CRLF : Bytes := [13, 10]

/-- `findHeaderEnd`, with zero for an incomplete header. -/
def findHeaderEnd (data : Bytes) : Nat :=
  match find (CRLF ++ CRLF) data with
  | some i => i + 4
  | none => 0

structure HandshakeRequest where
  path : Bytes := []
  key : Bytes := []
  origin : Option Bytes := none

def asciiLower (c : UInt8) : UInt8 := if 65 ≤ c ∧ c ≤ 90 then c + 32 else c

def equalsIgnoreCase (lhs rhs : Bytes) : Bool := lhs.map asciiLower = rhs.map asciiLower

def containsIgnoreCase (haystack needle : Bytes) : Bool :=
  (find (needle.map asciiLower) (haystack.map asciiLower)).isSome

def isBlank (c : UInt8) : Bool := c = 32 ∨ c = 9

def trimWhitespace (value : Bytes) : Bytes :=
  ((value.dropWhile isBlank).reverse.dropWhile isBlank).reverse

/-- One header line: its effect on the upgrade flag and the request. -/
def parseHeaderLine (hasUpgrade : Bool) (request : HandshakeRequest) (line : Bytes) :
    Bool × HandshakeRequest :=
  match find [58] line with
  | none => (hasUpgrade, request)
  | some colon =>
    let name := trimWhitespace (line.take colon)
    let value := trimWhitespace (line.drop (colon + 1))
    if equalsIgnoreCase name "upgrade".toUTF8.toList then
      (hasUpgrade || containsIgnoreCase value "websocket".toUTF8.toList, request)
    else if equalsIgnoreCase name "sec-websocket-key".toUTF8.toList then
      (hasUpgrade, { request with key := value })
    else if equalsIgnoreCase name "origin".toUTF8.toList then
      (hasUpgrade, { request with origin := some value })
    else (hasUpgrade, request)

/-- The header lines up to an empty one; every round takes two bytes at least. -/
def parseHeaderLines : Nat → Bytes → Bool → HandshakeRequest → Bool × HandshakeRequest
  | 0, _, hasUpgrade, request => (hasUpgrade, request)
  | fuel + 1, raw, hasUpgrade, request =>
    if raw = [] then (hasUpgrade, request)
    else
      let lineEnd := (find CRLF raw).getD raw.length
      let line := raw.take lineEnd
      if line = [] then (hasUpgrade, request)
      else
        let (hasUpgrade, request) := parseHeaderLine hasUpgrade request line
        parseHeaderLines fuel (raw.drop (lineEnd + 2)) hasUpgrade request

def parseHandshakeRequest (raw : Bytes) : Option HandshakeRequest :=
  match find CRLF raw with
  | none => none
  | some requestLineEnd =>
    let requestLine := raw.take requestLineEnd
    if ¬ "GET ".toUTF8.toList.isPrefixOf requestLine then none
    else
      match find [32] (requestLine.drop 4) with
      | none => none
      | some targetLen =>
        let (hasUpgrade, request) := parseHeaderLines raw.length
          (raw.drop (requestLineEnd + 2)) false { path := (requestLine.drop 4).take targetLen }
        if hasUpgrade ∧ request.key ≠ [] then some request else none

/-! ### Closing and writing -/

/-- What the connection is configured with: the origin policy of the server and the encoding
of a failure message by the session. -/
structure Config where
  originAllowed : Bytes → Bool
  makeFailure : String → String → Bytes

namespace Connection

def closeConnection (c : Connection) : Connection :=
  if c.phase = .CLOSED then c
  else { c with
    phase := .CLOSED
    accumulator := []
    cancelRequested := true
    -- with a message in flight its completion drops the stream instead
    streamAbandoned := c.streamAbandoned || !c.messageProcessing
    readBuf := none
    trace := c.trace ++ [.close] }

def writeSuccess (c : Connection) : Connection :=
  if c.closeAfterWrite then closeConnection c else c

def writeErr (c : Connection) : Connection := closeConnection c

/-- `socket_->writeChain`; `done` is what a write that the socket takes means to a message. -/
def writeChain (c : Connection) (out : Output) (done : List (ServerAction Bytes Bytes)) :
    Connection :=
  let taken : Connection := { c with
    outcomes := c.outcomes.tail
    written := c.written ++ [out]
    trace := c.trace ++ done }
  match c.outcomes.headD .later with
  | .later => taken
  | .success => writeSuccess taken
  | .error => writeErr { c with outcomes := c.outcomes.tail }

def sendResponse (c : Connection) (data : Bytes) (done : List (ServerAction Bytes Bytes)) :
    Connection :=
  if data = [] ∨ c.phase = .CLOSED then c else writeChain c (.response data) done

/-! ### Messages -/

/-- Hand a message to a coroutine.  On a closed connection the source dereferences the
socket that is gone here. -/
def dispatchMessage (c : Connection) (message : Bytes) : Connection :=
  { c with
    messageProcessing := true
    running := c.running ++ [message]
    trace := c.trace ++ [.start message] }

/-- `B0 0F`: a RESET. -/
def isReset (message : Bytes) : Bool :=
  match message with
  | b0 :: b1 :: _ => b0 &&& 0xF0 = 0xB0 ∧ b1 = 0x0F
  | _ => false

/-- A terminator behind a non-empty message. -/
def acceptMessage (c : Connection) (message : Bytes) : Connection :=
  let c := { c with accumulator := [], trace := c.trace ++ [ServerAction.arrive message] }
  if c.messageProcessing then
    { c with
      cancelRequested := c.cancelRequested || isReset message
      pending := c.pending ++ [message] }
  else dispatchMessage c message

section Decoding

variable (cfg : Config)

/-- A protocol error: answer, forget the message and close. -/
def refuse (c : Connection) (reason : String) : Connection :=
  closeConnection { sendResponse c (cfg.makeFailure "ProtocolError" reason) [] with
    accumulator := [] }

/-- The loop of `processMessage`; a round takes two bytes at least. -/
def processMessageLoop : Nat → Connection → Connection
  | 0, c => c
  | fuel + 1, c =>
    match c.readBuf with
    | some (hi :: lo :: rest) =>
      let chunkSize := wordValue [hi, lo]
      if chunkSize = 0 then
        let c := { c with readBuf := some rest }
        if c.accumulator = [] then processMessageLoop fuel c
        else processMessageLoop fuel (acceptMessage c c.accumulator)
      else if BOLT_MAX_CHUNK_SIZE < chunkSize then refuse cfg c "Chunk size exceeds maximum"
      else if rest.length < chunkSize then c
      else if BOLT_MAX_MESSAGE_SIZE < c.accumulator.length + chunkSize then
        refuse cfg c "Message size exceeds server limit"
      else processMessageLoop fuel { c with
        accumulator := c.accumulator ++ rest.take chunkSize
        readBuf := some (rest.drop chunkSize) }
    | _ => c

def processMessage (c : Connection) : Connection :=
  processMessageLoop cfg (c.readBuf.getD []).length c

end Decoding

/-- The completion of a coroutine. -/
def finishMessage (c : Connection) (message response : Bytes) (sessionClosed : Bool) : Connection :=
  let c := { c with running := c.running.erase message, trace := c.trace ++ [.finish message] }
  if c.phase = .CLOSED then { c with messageProcessing := false, streamAbandoned := true }
  else if sessionClosed then
    closeConnection (sendResponse c response [.reply message response])
  else
    let c := { sendResponse c response [.reply message response] with messageProcessing := false }
    match c.pending with
    | [] => c
    | next :: rest => dispatchMessage { c with pending := rest } next

/-! ### Reading -/

section Reading

variable (cfg : Config)

def processHandshake (c : Connection) (data : Bytes) : Connection :=
  match negotiateHandshake data with
  | none => closeConnection c
  | some version =>
    writeChain { c with
      negotiatedVersion := version
      phase := .MESSAGES
      readBuf := if data.drop 20 = [] then none else some (data.drop 20) }
      (.handshake version) []

/-- Drop a frame that was handled; a connection that closed on the way has no buffer. -/
def trimFrame (c : Connection) (frameTotal : Nat) : Connection :=
  match c.readBuf with
  | none => c
  | some data =>
    { c with readBuf := if data.drop frameTotal = [] then none else some (data.drop frameTotal) }

/-- A data frame: the handshake, or bytes for the chunk decoder, which sees only them. -/
def processDataFrame (c : Connection) (payload : Bytes) : Connection :=
  if c.phase = .HANDSHAKE then
    match negotiateHandshake payload with
    | none => closeConnection c
    | some version =>
      writeChain { c with negotiatedVersion := version, phase := .MESSAGES }
        (.handshake version) []
  else
    let saved := c.readBuf
    { processMessage cfg { c with readBuf := some payload } with readBuf := saved }

/-- The loop of `processWsFrame`; a frame has two bytes at least. -/
def processWsFrameLoop : Nat → Connection → Connection
  | 0, c => c
  | fuel + 1, c =>
    match c.readBuf with
    | none => c
    | some data =>
      match tryParseFrameHeader data with
      | none => c
      | some hdr =>
        let frameTotal := hdr.headerSize + hdr.payloadLen
        if kMaxFramePayload < hdr.payloadLen then closeConnection c
        else if data.length < frameTotal then c
        else
          let payload := framePayload hdr data
          let proceed := fun c => processWsFrameLoop fuel (trimFrame c frameTotal)
          match hdr.opcode with
          | .BINARY | .TEXT =>
            if hdr.fin = false then closeConnection c
            else
              let c := processDataFrame cfg c payload
              if c.phase = .CLOSED then c else proceed c
          | .PING => proceed (writeChain c (.pong payload) [])
          | .CLOSE =>
            closeConnection (writeChain { c with cancelRequested := true } .closeFrame [])
          | _ => proceed c

def processWsFrame (c : Connection) : Connection :=
  processWsFrameLoop cfg (c.readBuf.getD []).length c

def processWsHandshake (c : Connection) : Connection :=
  let data := c.readBuf.getD []
  let headerEnd := findHeaderEnd data
  if headerEnd = 0 then
    if 65536 < data.length then closeConnection c else c
  else
    match parseHandshakeRequest (data.take headerEnd) with
    | none => closeConnection c
    | some request =>
      if request.origin.any fun origin => !cfg.originAllowed origin then
        writeChain { c with closeAfterWrite := true } .forbidden []
      else
        let c := writeChain c (.upgrade request.key) []
        let c := { trimFrame c headerEnd with transport := .WS_FRAMED }
        if c.readBuf.isSome then processWsFrame cfg c else c

def detectProtocol (c : Connection) : Connection :=
  let data := c.readBuf.getD []
  if data.length < 4 then c
  else if data.take 4 = "GET ".toUTF8.toList then
    processWsHandshake cfg { c with transport := .WS_HANDSHAKE }
  else { c with transport := .BOLT_RAW }

/-- The raw branch of `readDataAvailable`. -/
def processRaw (c : Connection) : Connection :=
  let data := c.readBuf.getD []
  if c.phase = .HANDSHAKE then
    if 8 ≤ data.length then
      let c := processHandshake c data
      if c.phase = .CLOSED ∨ c.readBuf = none then c else processMessage cfg c
    else c
  else processMessage cfg c

/-- `getReadBuffer` and `readDataAvailable`. -/
def readDataAvailable (c : Connection) (bytes : Bytes) : Connection :=
  let c := { c with readBuf := some (c.readBuf.getD [] ++ bytes) }
  let c := if c.transport = .DETECTING then detectProtocol cfg c else c
  if c.phase = .CLOSED then c
  else
    match c.transport with
    | .DETECTING => c
    | .WS_HANDSHAKE => processWsHandshake cfg c
    | .WS_FRAMED => processWsFrame cfg c
    | .BOLT_RAW => processRaw cfg c

end Reading

end Connection

/-! ### Events -/

inductive Occasion
  | read (bytes : Bytes)
  | readEOF
  | readErr
  | writeSuccess
  | writeErr
  | finish (message response : Bytes) (sessionClosed : Bool)
  | stop

/-- A callback, and how the socket answers the writes made in it. -/
structure Event where
  occasion : Occasion
  outcomes : List WriteOutcome := []

/-- The effect of an event.  A closed socket delivers no data, and a completion belongs to a
running coroutine. -/
def Connection.step (cfg : Config) (c : Connection) (e : Event) : Option Connection :=
  let c := { c with outcomes := e.outcomes }
  match e.occasion with
  | .read bytes =>
    if c.phase = .CLOSED then none
    else some (c.readDataAvailable cfg bytes)
  | .readEOF | .readErr | .stop => some c.closeConnection
  | .writeSuccess => some c.writeSuccess
  | .writeErr => some c.writeErr
  | .finish message response sessionClosed =>
    if message ∈ c.running then some (c.finishMessage message response sessionClosed) else none

end Eugraph.BoltServer
