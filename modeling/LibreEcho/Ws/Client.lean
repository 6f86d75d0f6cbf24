import Mathlib

/-!
The receiving half of the WebSocket client, ws_client.c.

A call takes what the stream has until its deadline; the bytes of a frame that
is not complete by then stay in the client for the next call.
-/
namespace LibreEcho.Ws

abbrev Bytes := List UInt8

def leWsMaxPayload : Nat := 64 * 1024
def opcodeText : Nat := 1
def opcodeClose : Nat := 8
def opcodePing : Nat := 9
def opcodePong : Nat := 10

/--
What one `recv` of a call meets while the deadline has not passed: nothing yet, or
at least the given number of bytes and one more, as far as the server sent them.
-/
inductive Arrival where
  | quiet
  | ready (extra : Nat)
deriving DecidableEq, Repr

/-- What `recv` answers behind the last byte: -2, 0 or -1. -/
inductive Ending where
  | silent
  | closed
  | broken
deriving DecidableEq, Repr

/-- `sent` tells whether `send_frame` succeeds on the PONG that follows the given ones. -/
structure Peer where
  ending : Ending
  sent : List Bytes → Bytes → Bool

/-- The used bytes of both buffers, what the stream still holds, and the PONGs tried. -/
structure LeWs where
  connected : Bool
  closeReceived : Bool
  framesIn : Nat
  bytesIn : Nat
  readHeader : Bytes
  readPayload : Bytes
  incoming : Bytes
  pongs : List Bytes
deriving DecidableEq

inductive ReadCode where
  | done
  | closed
  | error
  | timeout
deriving DecidableEq, Repr

/-- The result, the arrivals that are left, and the stream and buffer afterwards. -/
structure Exact (σ : Type) where
  code : ReadCode
  left : σ
  incoming : Bytes
  buffer : Bytes

def readExactProgress (ending : Ending) (length : Nat) :
    List Arrival → Bytes → Bytes → Exact (List Arrival)
  | [], incoming, buffer =>
      if length ≤ buffer.length then ⟨.done, [], incoming, buffer⟩
      else ⟨.timeout, [], incoming, buffer⟩
  | .quiet :: arrivals, incoming, buffer =>
      if length ≤ buffer.length then ⟨.done, .quiet :: arrivals, incoming, buffer⟩
      else readExactProgress ending length arrivals incoming buffer
  | .ready extra :: arrivals, incoming, buffer =>
      if length ≤ buffer.length then ⟨.done, .ready extra :: arrivals, incoming, buffer⟩
      else if incoming = [] then
        match ending with
        | .silent => readExactProgress ending length arrivals incoming buffer
        | .closed => ⟨.closed, arrivals, incoming, buffer⟩
        | .broken => ⟨.error, arrivals, incoming, buffer⟩
      else
        let got := min (extra + 1) (length - buffer.length)
        readExactProgress ending length arrivals (incoming.drop got)
          (buffer ++ incoming.take got)

/-- The code of `read_frame`, or the frame. -/
inductive Reading where
  | stop (code : ReadCode)
  | frame (opcode : Nat) (payload : Bytes)
deriving DecidableEq, Repr

structure Frame (σ : Type) where
  reading : Reading
  left : σ
  ws : LeWs

section frame
variable {σ : Type} (exact : Nat → σ → Bytes → Bytes → Exact σ)

def headerStage (length : Nat) (left : σ) (ws : LeWs) (next : σ → LeWs → Frame σ) : Frame σ :=
  let got := exact length left ws.incoming ws.readHeader
  let ws := { ws with incoming := got.incoming, readHeader := got.buffer }
  match got.code with
  | .done => next got.left ws
  | code => ⟨.stop code, got.left, ws⟩

def payloadStage (length : Nat) (left : σ) (ws : LeWs) (next : σ → LeWs → Frame σ) : Frame σ :=
  if length = 0 then next left ws
  else
    let got := exact length left ws.incoming ws.readPayload
    let ws := { ws with incoming := got.incoming, readPayload := got.buffer }
    match got.code with
    | .done => next got.left ws
    | code => ⟨.stop code, got.left, ws⟩

def headerByte (ws : LeWs) (i : Nat) : UInt8 :=
  ws.readHeader.getD i 0

/-- The checks on a frame that is there; a control frame is short and whole. -/
def finishFrame (payloadLength : Nat) (left : σ) (ws : LeWs) : Frame σ :=
  let fin := headerByte ws 0 &&& 0x80 ≠ 0
  let opcode := (headerByte ws 0 &&& 0x0f).toNat
  if opcodeClose ≤ opcode ∧ (¬fin ∨ 125 < payloadLength) then ⟨.stop .error, left, ws⟩
  else
    let ws := { ws with framesIn := ws.framesIn + 1, bytesIn := ws.bytesIn + payloadLength }
    if ¬fin ∧ opcode ≠ opcodeClose then ⟨.stop .error, left, ws⟩
    else ⟨.frame opcode (ws.readPayload.take payloadLength), left, ws⟩

def readBody (payloadLength : Nat) (left : σ) (ws : LeWs) : Frame σ :=
  if leWsMaxPayload - 1 < payloadLength then ⟨.stop .error, left, ws⟩
  else payloadStage exact payloadLength left ws (finishFrame payloadLength)

def extendedLength (count : Nat) (ws : LeWs) : Nat :=
  (List.range count).foldl (fun v i => v * 256 + (headerByte ws (2 + i)).toNat) 0

/-- The first two bytes are there: the checks on them, and the longer lengths. -/
def readLength (left : σ) (ws : LeWs) : Frame σ :=
  if headerByte ws 0 &&& 0x70 ≠ 0 then ⟨.stop .error, left, ws⟩
  else if headerByte ws 1 &&& 0x80 ≠ 0 then ⟨.stop .error, left, ws⟩
  else if headerByte ws 1 &&& 0x7f = 126 then
    headerStage exact 4 left ws fun left ws => readBody exact (extendedLength 2 ws) left ws
  else if headerByte ws 1 &&& 0x7f = 127 then
    headerStage exact 10 left ws fun left ws => readBody exact (extendedLength 8 ws) left ws
  else readBody exact (headerByte ws 1 &&& 0x7f).toNat left ws

def readFrame (left : σ) (ws : LeWs) : Frame σ :=
  headerStage exact 2 left ws (readLength exact)

end frame

/-- What `le_ws_read_text` returns: 0, 1 with the text, 2 or -1. -/
inductive TextResult where
  | timeout
  | message (text : Bytes)
  | closed
  | error
deriving DecidableEq, Repr

def LeWs.forget (ws : LeWs) : LeWs :=
  { ws with readHeader := [], readPayload := [] }

/-- The bytes that belong to no finished frame, in the order the server sent them. -/
def LeWs.pending (ws : LeWs) : Bytes :=
  ws.readHeader ++ ws.readPayload ++ ws.incoming

section text
variable {σ : Type} (exact : Nat → σ → Bytes → Bytes → Exact σ)
  (sent : List Bytes → Bytes → Bool) (outSize : Nat)

/-- What the loop does with one frame; behind PING and PONG it reads on. -/
def handleFrame (again : σ → LeWs → TextResult × LeWs) (step : Frame σ) : TextResult × LeWs :=
  match step.reading with
  | .stop .timeout => (.timeout, step.ws)
  | .stop .closed => (.closed, { step.ws.forget with closeReceived := true })
  | .stop _ => (.error, step.ws.forget)
  | .frame opcode payload =>
      let ws := step.ws.forget
      if opcode = opcodePing then
        let tried := { ws with pongs := ws.pongs ++ [payload] }
        if sent ws.pongs payload then again step.left tried else (.error, tried)
      else if opcode = opcodePong then again step.left ws
      else if opcode = opcodeClose then (.closed, { ws with closeReceived := true })
      else if opcode ≠ opcodeText then (.error, ws)
      else if outSize ≤ payload.length then (.error, ws)
      else (.message payload, ws)

/-- Every frame takes bytes of the stream, so the loop ends before the fuel does. -/
def readTextLoop : Nat → σ → LeWs → TextResult × LeWs
  | 0, _, ws => (.timeout, ws)
  | fuel + 1, left, ws =>
      handleFrame sent outSize (readTextLoop fuel) (readFrame exact left ws)

def readText (left : σ) (ws : LeWs) : TextResult × LeWs :=
  if ws.connected = false ∨ outSize = 0 then (.error, ws)
  else readTextLoop exact sent outSize (ws.pending.length + 1) left ws

end text

def leWsReadText (peer : Peer) (outSize : Nat) (arrivals : List Arrival) (ws : LeWs) :
    TextResult × LeWs :=
  readText (readExactProgress peer.ending) peer.sent outSize arrivals ws

/-- The caller calls again; what it gets each time, and the client afterwards. -/
def leWsRun (peer : Peer) (outSize : Nat) :
    List (List Arrival) → LeWs → List TextResult × LeWs
  | [], ws => ([], ws)
  | arrivals :: calls, ws =>
      let first := leWsReadText peer outSize arrivals ws
      let later := leWsRun peer outSize calls first.2
      (first.1 :: later.1, later.2)

/-- The client `le_ws_connect` hands over, in front of what the server sends. -/
def LeWs.opened (stream : Bytes) : LeWs :=
  ⟨true, false, 0, 0, [], [], stream, []⟩

example : (leWsRun ⟨.closed, fun _ _ => true⟩ 8 [[.ready 0], [.quiet, .ready 1], [.ready 4]]
    (.opened [0x81, 2, 104, 105])).1 = [.timeout, .timeout, .message [104, 105]] := by
  decide

end LibreEcho.Ws
