import LibreEcho.Lib.Framing
import LibreEcho.Lib.LittleEndian
import LibreEcho.Live.Recording
import LibreEcho.Live.Session

/-!
The sample-indexed frames of `voice_stream.c`, as `waked` writes them and as the reader of `lived.c`
takes them off the front of its buffer.
-/
namespace LibreEcho.Live

open LittleEndian (Bytes put field putAll getAll field_append getAll_append field_skip field_put)
open Framing (Verdict Stable)

def leVoiceStreamMagic : Nat := 0x3153564C
def leVoiceStreamVersion : Nat := 1
def leVoiceStreamHeaderBytes : Nat := 24
def leVoiceStreamMaxSamples : Nat := 1280

def frameReaderBytes : Nat :=
  leVoiceStreamHeaderBytes + leVoiceStreamMaxSamples * 2

/-- A frame `le_voice_stream_write_frame` accepts. -/
structure LeVoiceStreamFrame where
  firstSample : UInt64
  flags : UInt16
  samples : List Int16
  some : samples ≠ []
  limit : samples.length ≤ leVoiceStreamMaxSamples

def leVoiceStreamWriteFrame (frame : LeVoiceStreamFrame) : Bytes :=
  put 4 leVoiceStreamMagic ++ put 2 leVoiceStreamVersion ++ put 2 frame.flags.toNat ++
    put 8 frame.firstSample.toNat ++ put 4 frame.samples.length ++ put 4 0 ++
    putAll 2 (frame.samples.map fun sample => sample.toUInt16.toNat)

def LeVoiceStreamFrame.heard (frame : LeVoiceStreamFrame) : LiveFrame :=
  ⟨frame.firstSample, frame.samples⟩

def takeFrame (packet : Bytes) : Verdict LiveFrame :=
  if packet.length < leVoiceStreamHeaderBytes then .more
  else if field 0 4 packet ≠ leVoiceStreamMagic ∨ field 4 2 packet ≠ leVoiceStreamVersion ∨
      field 20 4 packet ≠ 0 then .bad
  else
    let sampleCount := field 16 4 packet
    if sampleCount = 0 ∨ leVoiceStreamMaxSamples < sampleCount then .bad
    else
      let frameBytes := leVoiceStreamHeaderBytes + sampleCount * 2
      if packet.length < frameBytes then .more
      else
        .done frameBytes {
          firstSample := .ofNat (field 8 8 packet)
          samples := (getAll 2 sampleCount (packet.drop leVoiceStreamHeaderBytes)).map
            fun sample => (UInt16.ofNat sample).toInt16 }

/-! ### What is decided stands -/

theorem takeFrame_append {s : Bytes} (decided : takeFrame s ≠ .more) (t : Bytes) :
    takeFrame (s ++ t) = takeFrame s := by
  have header : ¬ s.length < leVoiceStreamHeaderBytes := fun short => decided (if_pos short)
  have inside : leVoiceStreamHeaderBytes ≤ s.length := Nat.not_lt.mp header
  have inside' : 24 ≤ s.length := inside
  rw [takeFrame, if_neg header] at decided
  rw [takeFrame, takeFrame, if_neg header, if_neg (by rw [List.length_append]; omega),
    field_append (by omega), field_append (by omega), field_append (by omega),
    field_append (by omega)]
  split
  case isTrue => rfl
  case isFalse valid =>
    rw [if_neg valid] at decided
    dsimp only at decided ⊢
    split
    case isTrue => rfl
    case isFalse counted =>
      rw [if_neg counted] at decided
      have whole : ¬ s.length < leVoiceStreamHeaderBytes + field 16 4 s * 2 :=
        fun short => decided (if_pos short)
      rw [if_neg whole, if_neg (by rw [List.length_append]; omega), field_append (by omega),
        List.drop_append_of_le_length inside, getAll_append (by rw [List.length_drop]; omega)]

theorem takeFrame_stable : Stable takeFrame where
  empty := rfl
  used := by
    intro s n m found
    rw [takeFrame] at found
    split at found
    · cases found
    split at found
    · cases found
    dsimp only at found
    split at found
    · cases found
    split at found
    · cases found
    · next whole =>
        cases found
        exact ⟨by rw [leVoiceStreamHeaderBytes]; omega, Nat.not_lt.mp whole⟩
  done := fun t found => (takeFrame_append (found ▸ nofun) t).trans found
  bad := fun t found => (takeFrame_append (found ▸ nofun) t).trans found

/-! ### Reading what was written -/

theorem leVoiceStreamWriteFrame_length (frame : LeVoiceStreamFrame) :
    (leVoiceStreamWriteFrame frame).length =
      leVoiceStreamHeaderBytes + frame.samples.length * 2 := by
  simp only [leVoiceStreamWriteFrame, List.length_append, LittleEndian.put_length,
    LittleEndian.putAll_length, List.length_map]
  rfl

theorem leVoiceStreamWriteFrame_fits (frame : LeVoiceStreamFrame) :
    (leVoiceStreamWriteFrame frame).length ≤ frameReaderBytes := by
  have limit := frame.limit
  rw [leVoiceStreamWriteFrame_length, frameReaderBytes]
  omega

theorem samples_read (samples : List Int16) (back : Bytes) :
    (getAll 2 samples.length
      (putAll 2 (samples.map fun sample => sample.toUInt16.toNat) ++ back)).map
        (fun sample => (UInt16.ofNat sample).toInt16) = samples := by
  have fits : ∀ n ∈ samples.map fun sample => sample.toUInt16.toNat, n < 256 ^ 2 := by
    intro n inside
    obtain ⟨sample, -, rfl⟩ := List.mem_map.mp inside
    exact sample.toUInt16.toNat_lt
  have read := LittleEndian.getAll_putAll fits back
  rw [List.length_map] at read
  rw [read, List.map_map]
  refine (List.map_congr_left fun sample _ => ?_).trans (List.map_id samples)
  rw [Function.comp_apply, UInt16.ofNat_toNat]
  rfl

theorem leVoiceStreamWriteFrame_fields (frame : LeVoiceStreamFrame) (t : Bytes) :
    field 0 4 (leVoiceStreamWriteFrame frame ++ t) = leVoiceStreamMagic ∧
    field 4 2 (leVoiceStreamWriteFrame frame ++ t) = leVoiceStreamVersion ∧
    field 8 8 (leVoiceStreamWriteFrame frame ++ t) = frame.firstSample.toNat ∧
    field 16 4 (leVoiceStreamWriteFrame frame ++ t) = frame.samples.length ∧
    field 20 4 (leVoiceStreamWriteFrame frame ++ t) = 0 := by
  have limit : frame.samples.length < 256 ^ 4 := Nat.lt_of_le_of_lt frame.limit (by decide)
  simp only [leVoiceStreamWriteFrame, List.append_assoc]
  refine ⟨field_put (by decide) _, ?_, ?_, ?_, ?_⟩
  · rw [field_skip (by decide), field_put (by decide)]
  · rw [field_skip (by decide), field_skip (by decide), field_skip (by decide),
      field_put frame.firstSample.toNat_lt]
  · rw [field_skip (by decide), field_skip (by decide), field_skip (by decide),
      field_skip (by decide), field_put limit]
  · rw [field_skip (by decide), field_skip (by decide), field_skip (by decide),
      field_skip (by decide), field_skip (by decide), field_put (by decide)]

theorem leVoiceStreamWriteFrame_payload (frame : LeVoiceStreamFrame) (t : Bytes) :
    (leVoiceStreamWriteFrame frame ++ t).drop leVoiceStreamHeaderBytes =
      putAll 2 (frame.samples.map fun sample => sample.toUInt16.toNat) ++ t := by
  rw [leVoiceStreamWriteFrame, List.append_assoc _ (putAll 2 _) t]
  refine List.drop_left' ?_
  simp only [List.length_append, LittleEndian.put_length]
  rfl

theorem takeFrame_packet (frame : LeVoiceStreamFrame) (t : Bytes) :
    takeFrame (leVoiceStreamWriteFrame frame ++ t) =
      .done (leVoiceStreamWriteFrame frame).length frame.heard := by
  obtain ⟨magic, version, first, count, reserved⟩ := leVoiceStreamWriteFrame_fields frame t
  have some := List.length_pos_iff.mpr frame.some
  have limit := frame.limit
  have size : (leVoiceStreamWriteFrame frame ++ t).length =
      leVoiceStreamHeaderBytes + frame.samples.length * 2 + t.length := by
    rw [List.length_append, leVoiceStreamWriteFrame_length]
  have valid : ¬ (leVoiceStreamMagic ≠ leVoiceStreamMagic ∨
      leVoiceStreamVersion ≠ leVoiceStreamVersion ∨ (0 : Nat) ≠ 0) := by decide
  rw [takeFrame, magic, version, first, count, reserved, size, if_neg (by omega), if_neg valid]
  dsimp only
  rw [if_neg (by omega), if_neg (by omega), leVoiceStreamWriteFrame_payload, samples_read,
    UInt64.ofNat_toNat, leVoiceStreamWriteFrame_length]
  rfl

end LibreEcho.Live

/-!
The audio subscription of `lived.c`: what `drain_audio` reads, buffers and hands on.

The socket is a script of what its reads meet; a read takes no more than the buffer has room for,
and the rest of a segment waits for the next one.
-/
namespace LibreEcho.Live

open LittleEndian (Bytes)
open Framing (Reader drain)

inductive SocketEvent where
  | data (segment : Bytes)
  | again
  | interrupted
  /-- The end of the stream, or an error. -/
  | closed
deriving DecidableEq, Repr

/-- What one read of so many bytes returns, and what the socket holds after it. -/
def readSocket (room : Nat) : List SocketEvent → SocketEvent × List SocketEvent
  | [] => (.again, [])
  | .data segment :: rest =>
      if segment = [] then (.closed, rest)
      else if segment.length ≤ room then (.data segment, rest)
      else (.data (segment.take room), .data (segment.drop room) :: rest)
  | event :: rest => (event, rest)

/-- `struct frame_reader`; `used` is the length of what is buffered. -/
structure FrameReader where
  buffer : Bytes
  fits : buffer.length ≤ frameReaderBytes

namespace FrameReader

def empty : FrameReader :=
  ⟨[], Nat.zero_le _⟩

def fill (reader : FrameReader) (got : Bytes) : FrameReader :=
  ⟨(reader.buffer ++ got).take frameReaderBytes, List.length_take_le _ _⟩

/-- The complete frames at the front; after a malformed one nothing is kept. -/
def takeFrames (reader : FrameReader) : List LiveFrame × FrameReader :=
  ((drain takeFrame reader.buffer).messages,
    ⟨(drain takeFrame reader.buffer).rest,
      Nat.le_trans (Framing.drainLoop_rest _ _) reader.fits⟩)

end FrameReader

/-- `handle_audio_frame`, and what is done when the subscription is lost. -/
structure AudioHandlers (σ : Type*) where
  handleAudioFrame : σ → LiveFrame → σ
  audioClosed : σ → σ

inductive DrainEnd where
  | again
  | closed
  /-- A full buffer without a frame in it. -/
  | full
deriving DecidableEq, Repr

structure AudioDrained (σ : Type*) where
  state : σ
  reader : FrameReader
  socket : List SocketEvent
  ending : DrainEnd

section Drain
variable {σ : Type*} (h : AudioHandlers σ)

/-- `none` when the rounds do not suffice. -/
def drainAudioLoop : Nat → σ → FrameReader → List SocketEvent → Option (AudioDrained σ)
  | 0, _, _, _ => none
  | fuel + 1, state, reader, socket =>
      let framesOf := fun (reader : FrameReader) (socket : List SocketEvent) =>
        let taken := reader.takeFrames
        let state := taken.1.foldl h.handleAudioFrame state
        if taken.1 = [] ∧ frameReaderBytes ≤ taken.2.buffer.length then
          some ⟨state, taken.2, socket, .full⟩
        else drainAudioLoop fuel state taken.2 socket
      if reader.buffer.length < frameReaderBytes then
        match readSocket (frameReaderBytes - reader.buffer.length) socket with
        | (.interrupted, socket) => drainAudioLoop fuel state reader socket
        | (.again, socket) => some ⟨state, reader, socket, .again⟩
        | (.closed, socket) => some ⟨h.audioClosed state, .empty, socket, .closed⟩
        | (.data got, socket) => framesOf (reader.fill got) socket
      else framesOf reader socket

/-- The rounds a script can take: one for each byte and each event. -/
def SocketEvent.weight : SocketEvent → Nat
  | .data segment => segment.length + 1
  | _ => 1

def socketWeight (socket : List SocketEvent) : Nat :=
  (socket.map SocketEvent.weight).sum

def drainAudio (state : σ) (reader : FrameReader) (socket : List SocketEvent) :
    Option (AudioDrained σ) :=
  drainAudioLoop h (socketWeight socket + 2) state reader socket

/-- One call after the other, each when the socket has become readable again. -/
def drainAudioCalls : Nat → AudioDrained σ → Option (AudioDrained σ)
  | 0, d => some d
  | calls + 1, d => (drainAudio h d.state d.reader d.socket).bind (drainAudioCalls calls)

end Drain

/-! ### Every call returns -/

section Returns
variable {σ : Type*} {h : AudioHandlers σ}

theorem socketWeight_cons (event : SocketEvent) (socket : List SocketEvent) :
    socketWeight (event :: socket) = event.weight + socketWeight socket := by
  rw [socketWeight, List.map_cons, List.sum_cons, socketWeight]

theorem readSocket_weight {room : Nat} (some : 0 < room) (socket : List SocketEvent) :
    (readSocket room socket).1 = .again ∨
      socketWeight (readSocket room socket).2 < socketWeight socket := by
  cases socket with
  | nil => exact .inl rfl
  | cons event rest =>
      refine .inr ?_
      rw [socketWeight_cons]
      cases event with
      | data segment =>
          rw [readSocket]
          split
          · exact Nat.lt_add_of_pos_left (Nat.succ_pos _)
          split
          · exact Nat.lt_add_of_pos_left (Nat.succ_pos _)
          · next long =>
              rw [socketWeight_cons, SocketEvent.weight, SocketEvent.weight, List.length_drop]
              omega
      | again | interrupted | closed => exact Nat.lt_add_of_pos_left Nat.one_pos

theorem takeFrames_room {reader : FrameReader} (taken : reader.takeFrames.1 ≠ []) :
    reader.takeFrames.2.buffer.length < frameReaderBytes := by
  refine Nat.lt_of_lt_of_le ?_ reader.fits
  rw [FrameReader.takeFrames] at taken ⊢
  cases found : takeFrame reader.buffer with
  | more => exact absurd (congrArg Reader.messages (Framing.drain_more found)) taken
  | bad => exact absurd (congrArg Reader.messages (takeFrame_stable.drain_bad found)) taken
  | done n frame =>
      have used := takeFrame_stable.used found
      have shorter : (drain takeFrame (reader.buffer.drop n)).rest.length ≤
          (reader.buffer.drop n).length :=
        Framing.drainLoop_rest _ _
      dsimp only
      rw [takeFrame_stable.drain_done found]
      rw [List.length_drop] at shorter
      exact Nat.lt_of_le_of_lt shorter (by omega)

def FrameReader.full (reader : FrameReader) : Nat :=
  if reader.buffer.length < frameReaderBytes then 0 else 1

theorem drainAudioLoop_returns {fuel : Nat} {state : σ} {reader : FrameReader}
    {socket : List SocketEvent} (enough : socketWeight socket + reader.full < fuel) :
    ∃ d, drainAudioLoop h fuel state reader socket = some d := by
  induction fuel generalizing state reader socket with
  | zero => exact absurd enough (Nat.not_lt_zero _)
  | succ fuel ih =>
      have framesOf (reader : FrameReader) (socket : List SocketEvent)
          (enough : socketWeight socket < fuel) :
          ∃ d, (if reader.takeFrames.1 = [] ∧
              frameReaderBytes ≤ reader.takeFrames.2.buffer.length then
            some ⟨reader.takeFrames.1.foldl h.handleAudioFrame state, reader.takeFrames.2, socket,
              .full⟩
          else drainAudioLoop h fuel (reader.takeFrames.1.foldl h.handleAudioFrame state)
            reader.takeFrames.2 socket) = some d := by
        split
        case isTrue => exact ⟨_, rfl⟩
        case isFalse going =>
          refine ih ?_
          rw [FrameReader.full, if_pos]
          · exact enough
          · by_cases taken : reader.takeFrames.1 = []
            · exact Nat.lt_of_not_le fun full => going ⟨taken, full⟩
            · exact takeFrames_room taken
      rw [FrameReader.full] at enough
      rw [drainAudioLoop]
      dsimp only
      split
      case isTrue room =>
        rw [if_pos room] at enough
        have less := readSocket_weight (Nat.sub_pos_of_lt room) socket
        rcases read : readSocket (frameReaderBytes - reader.buffer.length) socket with
          ⟨event, rest⟩
        rw [read] at less
        cases event with
        | again => exact ⟨_, rfl⟩
        | closed => exact ⟨_, rfl⟩
        | interrupted =>
            have left : socketWeight rest < socketWeight socket := less.resolve_left nofun
            refine ih ?_
            rw [FrameReader.full, if_pos room]
            omega
        | data got =>
            have left : socketWeight rest < socketWeight socket := less.resolve_left nofun
            exact framesOf _ _ (by omega)
      case isFalse room =>
        rw [if_neg room] at enough
        exact framesOf _ _ (by omega)

theorem drainAudio_returns (state : σ) (reader : FrameReader) (socket : List SocketEvent) :
    ∃ d, drainAudio h state reader socket = some d := by
  refine drainAudioLoop_returns ?_
  rw [FrameReader.full]
  split
  · omega
  · omega

end Returns

/-! ### What a script of well-formed frames leads to -/

def SocketEvent.bytes : SocketEvent → Bytes
  | .data segment => segment
  | _ => []

def unread (socket : List SocketEvent) : Bytes :=
  socket.flatMap SocketEvent.bytes

def Connected (socket : List SocketEvent) : Prop :=
  ∀ event ∈ socket, event ≠ .closed ∧ event ≠ .data []

def packets (frames : List LeVoiceStreamFrame) : Bytes :=
  frames.flatMap leVoiceStreamWriteFrame

inductive ReadCase (room : Nat) (socket : List SocketEvent) : Prop where
  | data (got : Bytes) (rest : List SocketEvent)
      (read : readSocket room socket = (.data got, rest)) (fits : got.length ≤ room)
      (bytes : got ++ unread rest = unread socket) (connected : Connected rest)
      (agains : rest.count .again = socket.count .again)
  | interrupted (rest : List SocketEvent) (read : readSocket room socket = (.interrupted, rest))
      (bytes : unread rest = unread socket) (connected : Connected rest)
      (agains : rest.count .again = socket.count .again)
  | again (rest : List SocketEvent) (read : readSocket room socket = (.again, rest))
      (bytes : unread rest = unread socket) (connected : Connected rest)
      (agains : rest = [] ∨ rest.count .again < socket.count .again)

theorem readSocket_cases (room : Nat) {socket : List SocketEvent} (connected : Connected socket) :
    ReadCase room socket := by
  cases socket with
  | nil => exact .again [] rfl rfl nofun (.inl rfl)
  | cons event rest =>
      have behind : Connected rest := fun e inside => connected e (List.mem_cons_of_mem event inside)
      have front := connected event List.mem_cons_self
      cases event with
      | data segment =>
          by_cases short : segment.length ≤ room
          · refine .data segment rest ?_ short rfl behind ?_
            · rw [readSocket, if_neg fun none => front.2 (congrArg _ none), if_pos short]
            · exact (List.count_cons_of_ne (by simp)).symm
          · refine .data (segment.take room) (.data (segment.drop room) :: rest) ?_
              (List.length_take_le _ _) ?_ ?_ ?_
            · rw [readSocket, if_neg fun none => front.2 (congrArg _ none), if_neg short]
            · rw [unread, List.flatMap_cons, ← List.append_assoc, SocketEvent.bytes,
                List.take_append_drop]
              rfl
            · refine List.forall_mem_cons.mpr ⟨⟨nofun, fun none => short ?_⟩, behind⟩
              exact List.drop_eq_nil_iff.mp (SocketEvent.data.inj none)
            · rw [List.count_cons_of_ne (by simp), List.count_cons_of_ne (by simp)]
      | again => exact .again rest rfl rfl behind (.inr (by rw [List.count_cons_self]; omega))
      | interrupted =>
          exact .interrupted rest rfl rfl behind (List.count_cons_of_ne (by simp)).symm
      | closed => exact absurd rfl front.1

theorem waiting_short {buffer t : Bytes} {frames : List LeVoiceStreamFrame}
    (waiting : takeFrame buffer = .more) (stream : buffer ++ t = packets frames) :
    buffer.length < frameReaderBytes := by
  cases frames with
  | nil =>
      rw [(List.append_eq_nil_iff.mp stream).1]
      decide
  | cons frame frames =>
      rw [packets, List.flatMap_cons] at stream
      refine Nat.lt_of_not_le fun full => ?_
      obtain ⟨rest, joined⟩ := List.prefix_of_prefix_length_le
        (stream ▸ List.prefix_append (leVoiceStreamWriteFrame frame) _) (List.prefix_append buffer t)
        (Nat.le_trans (leVoiceStreamWriteFrame_fits frame) full)
      rw [← joined, takeFrame_packet] at waiting
      cases waiting

/-- `frames` of the stream have not been handed on when the buffer holds `buffer`. -/
structure AwaitingFrames (frames : List LeVoiceStreamFrame) (later buffer : Bytes)
    (socket : List SocketEvent) : Prop where
  connected : Connected socket
  stream : buffer ++ (unread socket ++ later) = packets frames
  partial_ : takeFrame buffer = .more

section Exact
variable {σ : Type*} {h : AudioHandlers σ}

/-- What a call leads to: some frames were handed on, and it ended because nothing was left. -/
structure Served (h : AudioHandlers σ) (state : σ) (frames : List LeVoiceStreamFrame)
    (later : Bytes) (socket : List SocketEvent) (d : AudioDrained σ) : Prop where
  ending : d.ending = .again
  handled : ∃ k, d.state = ((frames.take k).map LeVoiceStreamFrame.heard).foldl
    h.handleAudioFrame state ∧ AwaitingFrames (frames.drop k) later d.reader.buffer d.socket
  agains : d.socket = [] ∨ d.socket.count .again < socket.count .again

theorem Served.after {state : σ} {frames : List LeVoiceStreamFrame} {later : Bytes}
    {socket socket' : List SocketEvent} {d : AudioDrained σ} {k : Nat}
    (served : Served h (((frames.take k).map LeVoiceStreamFrame.heard).foldl
      h.handleAudioFrame state) (frames.drop k) later socket' d)
    (fewer : socket'.count .again = socket.count .again) :
    Served h state frames later socket d := by
  obtain ⟨ending, ⟨j, same, waiting⟩, agains⟩ := served
  refine ⟨ending, ⟨k + j, ?_, ?_⟩, fewer ▸ agains⟩
  · rw [same, List.take_add, List.map_append, List.foldl_append]
  · rw [← List.drop_drop]
    exact waiting

theorem drainAudioLoop_served {fuel : Nat} {state : σ} {reader : FrameReader}
    {socket : List SocketEvent} {frames : List LeVoiceStreamFrame} {later : Bytes} {d : AudioDrained σ}
    (waiting : AwaitingFrames frames later reader.buffer socket)
    (returned : drainAudioLoop h fuel state reader socket = some d) :
    Served h state frames later socket d := by
  induction fuel generalizing state reader socket frames with
  | zero => cases returned
  | succ fuel ih =>
      have room := waiting_short waiting.partial_ waiting.stream
      rw [drainAudioLoop] at returned
      dsimp only at returned
      rw [if_pos room] at returned
      cases readSocket_cases (frameReaderBytes - reader.buffer.length) waiting.connected with
      | interrupted rest read bytes connected agains =>
          rw [read] at returned
          have served := ih ⟨connected, bytes ▸ waiting.stream, waiting.partial_⟩ returned
          exact ⟨served.ending, served.handled, agains ▸ served.agains⟩
      | again rest read bytes connected agains =>
          rw [read] at returned
          obtain rfl := Option.some.inj returned
          exact ⟨rfl, ⟨0, rfl, connected, bytes ▸ waiting.stream, waiting.partial_⟩, agains⟩
      | data got rest read fits bytes connected agains =>
          rw [read] at returned
          dsimp only at returned
          have filled : (reader.fill got).buffer = reader.buffer ++ got := by
            rw [FrameReader.fill]
            refine List.take_of_length_le ?_
            rw [List.length_append]
            omega
          have stream : (reader.fill got).buffer ++ (unread rest ++ later) = packets frames := by
            rw [filled, ← waiting.stream, ← bytes]
            simp only [List.append_assoc]
          obtain ⟨k, left, drained, after, more⟩ :=
            takeFrame_stable.drain_written takeFrame_packet stream
          have taken : (reader.fill got).takeFrames.1 =
              (frames.take k).map LeVoiceStreamFrame.heard := congrArg Reader.messages drained
          have kept : (reader.fill got).takeFrames.2.buffer = left := congrArg Reader.rest drained
          have short := waiting_short more after
          rw [taken, if_neg fun full => by rw [kept] at full; omega] at returned
          exact (ih ⟨connected, kept ▸ after, kept ▸ more⟩ returned).after agains

theorem drainAudioCalls_served {state : σ} {reader : FrameReader} {socket : List SocketEvent}
    {frames : List LeVoiceStreamFrame} {later : Bytes} (calls : Nat)
    (waiting : AwaitingFrames frames later reader.buffer socket) :
    ∃ d, drainAudioCalls h calls ⟨state, reader, socket, .again⟩ = some d ∧ d.ending = .again ∧
      (∃ k, d.state = ((frames.take k).map LeVoiceStreamFrame.heard).foldl
        h.handleAudioFrame state ∧ AwaitingFrames (frames.drop k) later d.reader.buffer d.socket) ∧
      (socket = [] ∨ socket.count .again < calls → d.socket = []) := by
  induction calls generalizing state reader socket frames with
  | zero =>
      refine ⟨_, rfl, rfl, ⟨0, rfl, waiting⟩, fun enough => ?_⟩
      exact enough.resolve_right (Nat.not_lt_zero _)
  | succ calls ih =>
      obtain ⟨first, returned⟩ := drainAudio_returns (h := h) state reader socket
      have served := drainAudioLoop_served waiting returned
      obtain ⟨k, same, left⟩ := served.handled
      obtain ⟨d, calledAgain, ending, ⟨j, same', left'⟩, all⟩ := @ih first.state _ _ _ left
      refine ⟨d, ?_, ending, ⟨k + j, ?_, ?_⟩, fun enough => ?_⟩
      · rw [drainAudioCalls, returned, Option.bind_some, ← calledAgain, ← served.ending]
      · rw [same', same, List.take_add, List.map_append, List.foldl_append]
      · rw [← List.drop_drop]
        exact left'
      · refine all (served.agains.imp_right fun fewer => ?_)
        rcases enough with rfl | enough
        · exact absurd fewer (Nat.not_lt_zero _)
        · omega

end Exact

/-- All frames of the stream that have arrived are handed on, and no more than one is buffered. -/
structure FramesHandled {σ : Type*} (h : AudioHandlers σ) (state : σ)
    (frames : List LeVoiceStreamFrame) (later : Bytes) (calls : Nat) (socket : List SocketEvent)
    (d : AudioDrained σ) : Prop where
  ending : d.ending = .again
  /-- The frames handed on, the buffer and what is to be read make up the stream. -/
  handled : ∃ k, d.state = ((frames.take k).map LeVoiceStreamFrame.heard).foldl
      h.handleAudioFrame state ∧
    packets (frames.take k) ++ d.reader.buffer ++ unread d.socket ++ later = packets frames ∧
    takeFrame d.reader.buffer = .more
  bounded : d.reader.buffer.length < frameReaderBytes
  /-- Once the socket has been read out. -/
  all : socket.count .again < calls → later = [] →
    d.state = (frames.map LeVoiceStreamFrame.heard).foldl h.handleAudioFrame state ∧
      d.reader.buffer = [] ∧ d.socket = []

/-- However the stream is cut, the same frames are handled; every call returns. -/
theorem drainAudio_exact {σ : Type*} (h : AudioHandlers σ) (state : σ)
    (frames : List LeVoiceStreamFrame) (later : Bytes) (socket : List SocketEvent) (calls : Nat)
    (connected : Connected socket) (stream : unread socket ++ later = packets frames) :
    (∃ d, drainAudioCalls h calls ⟨state, .empty, socket, .again⟩ = some d ∧
      FramesHandled h state frames later calls socket d) ∧
    ∀ (state : σ) (reader : FrameReader) (socket : List SocketEvent),
      ∃ d, drainAudio h state reader socket = some d := by
  refine ⟨?_, drainAudio_returns⟩
  obtain ⟨d, called, ending, ⟨k, same, waiting⟩, all⟩ :=
    @drainAudioCalls_served _ h state .empty _ _ _ calls
      ⟨connected, stream, rfl⟩
  refine ⟨d, called, ending, ⟨k, same, ?_, waiting.partial_⟩,
    waiting_short waiting.partial_ waiting.stream, fun enough whole => ?_⟩
  · rw [List.append_assoc, List.append_assoc, waiting.stream, packets, packets, packets,
      ← List.flatMap_append, List.take_append_drop]
  · have read := all (.inr enough)
    have rest := waiting.stream
    have nothing : unread [] ++ [] = [] := rfl
    rw [read, whole, nothing, List.append_nil] at rest
    cases left : frames.drop k with
    | nil =>
        rw [left] at rest
        rw [List.take_of_length_le (List.drop_eq_nil_iff.mp left)] at same
        exact ⟨same, rest, read⟩
    | cons frame others =>
        have more := waiting.partial_
        rw [left, packets, List.flatMap_cons] at rest
        rw [rest, takeFrame_packet] at more
        cases more

def shortFrame : LeVoiceStreamFrame :=
  ⟨5, 0, [-2], by decide, by decide⟩

def cutInTwice : List SocketEvent :=
  [.data ((packets [shortFrame]).take 7), .again, .interrupted,
    .data (((packets [shortFrame]).drop 7).take 18), .again, .data ((packets [shortFrame]).drop 25)]

def frameLog : AudioHandlers (List LiveFrame) :=
  ⟨fun log frame => log ++ [frame], id⟩

theorem drainAudio_exact_cut :
    (∃ d, drainAudioCalls frameLog 3 ⟨[], .empty, cutInTwice, .again⟩ = some d ∧
      FramesHandled frameLog [] [shortFrame] [] 3 cutInTwice d) ∧
    ∀ (state : List LiveFrame) (reader : FrameReader) (socket : List SocketEvent),
      ∃ d, drainAudio frameLog state reader socket = some d :=
  drainAudio_exact frameLog [] [shortFrame] [] cutInTwice 3
    (by rw [Connected]; decide +kernel) (by decide +kernel)

end LibreEcho.Live
