import LibreEcho.Json.Cursor
import LibreEcho.Lib.CText
import LibreEcho.Voice.History

/-!
The capture loop of `voice_pipeline.c`.

One round of `capture_worker` takes what its calls return. What the other threads left of
the shared flags is read each time the mutex is taken. The samples and the metrics are
not modelled.
-/
namespace LibreEcho.Voice
open CText

def pcmRingSamples : Nat := 32000
def transcriptMax : Nat := 4096
def sttLineSize : Nat := 8192
def recognitionTimeoutMs : UInt64 := 30000

/-! ### What the calls return -/

structure Shared where
  transcriptPending : Bool
  dispatching : Bool
  followUpPending : Bool
deriving DecidableEq, Repr

structure Frame where
  firstSample : UInt64
  sampleCount : UInt32
deriving DecidableEq, Repr

/-- `write_all` on the recogniser's socket, with the errno of a failure. -/
inductive Written where
  | all
  | again
  | pipe
  | reset
  | otherError
deriving DecidableEq, Repr

/-- What polling reports of the wake socket, and the line then read. -/
inductive WakeReady where
  | idle
  | gone
  | input (line : Option CText)
deriving DecidableEq, Repr

/-- The same of the audio socket; the frame may be written on. -/
inductive AudioReady where
  | idle
  | gone
  | input (frame : Option Frame) (written : Written)
deriving DecidableEq, Repr

inductive SttRead where
  | byte (c : Char)
  | again
  | closed
deriving DecidableEq, Repr

inductive SttReady where
  | idle
  | gone
  | input (reads : List SttRead)
deriving DecidableEq, Repr

inductive Poll where
  | interrupted
  | failed
  | ready (wake : WakeReady) (audio : AudioReady) (stt : SttReady)
deriving DecidableEq, Repr

/-- `subscribe` to the recogniser, and the audio that is there already. -/
inductive Recognizer where
  | refused
  | unwritten
  | listening
deriving DecidableEq, Repr

structure Round where
  running : Bool := true
  wakeSubscribed : Bool := true
  audioSubscribed : Bool := true
  poll : Poll
  wakeShared : Shared := ⟨false, false, false⟩
  wakeMs : UInt64 := 0
  wakeRecognizer : Recognizer := .refused
  transcriptMs : UInt64 := 0
  queueShared : Shared := ⟨false, false, false⟩
  checkedMs : UInt64 := 0
  followUpShared : Shared := ⟨false, false, false⟩
  followUpMs : UInt64 := 0
  followUpRecognizer : Recognizer := .refused
deriving DecidableEq, Repr

/-! ### What the callbacks are told -/

structure LeVoicePipelineTurn where
  detectionSample : UInt64
  transcriptReceivedMs : UInt64
  sttAudioMs : UInt64
  sttProcessingMs : UInt64
  sttTotalMs : UInt64
  endpoint : Bool
  followUp : Bool
deriving DecidableEq, Repr

structure LeVoicePipelineOutcome where
  status : Int
  followUp : Bool
  detectionSample : UInt64
  sttAudioMs : UInt64
  sttProcessingMs : UInt64
  sttTotalMs : UInt64
deriving DecidableEq, Repr

inductive Emitted where
  | turnBegin (detectionSample : UInt64)
  | transcript (text : Bytes) (turn : LeVoicePipelineTurn)
  | outcome (o : LeVoicePipelineOutcome)
deriving DecidableEq, Repr

/-! ### Lines -/

def bytesOf (s : CText) : Bytes :=
  s.map fun c => UInt8.ofNat c.toNat

def contains (line : CText) (needle : String) : Bool :=
  (ByteText.strstr needle.toList line).isSome

/-- `json_unsigned`: the number behind the colon behind the key. -/
def jsonUnsigned (line : CText) (key : String) : Option UInt64 :=
  let needle := '"' :: key.toList ++ ['"']
  match ByteText.strstr needle line with
  | none => none
  | some found =>
      match cutAt ':' (found.drop needle.length) with
      | none => none
      | some (_, number) =>
          match strtoul number with
          | none => none
          | some n => if n.outOfRange then none else some (UInt64.ofNat n.value.toNat)

/-- The sample of a wake event; other lines are passed over. -/
def detection (line : CText) : Option UInt64 :=
  if contains line "\"event\":\"wake_detected\"" then jsonUnsigned line "detection_sample"
  else none

inductive SttLine where
  | failed
  | partly (used : CText)
  | line (text : CText)
deriving DecidableEq, Repr

/-- `read_nonblocking_line` with the bytes `used` that it has kept. -/
def readNonblockingLine (used : CText) : List SttRead → SttLine
  | [] => .partly used
  | read :: rest =>
      if sttLineSize ≤ used.length + 1 then .failed
      else
        match read with
        | .again => .partly used
        | .closed => .failed
        | .byte c => if c = '\n' then .line used else readNonblockingLine (used ++ [c]) rest

/-- What `handle_stt_line` makes of a line: the return values 0, -1, 1 and 2. -/
inductive SttResult where
  | other
  | failed
  | queued (text : Bytes) (turn : LeVoicePipelineTurn)
  | dropped
deriving DecidableEq, Repr

def handleSttLine (line : CText) (detectionSample : UInt64) (followUp : Bool) (nowMs : UInt64)
    (shared : Shared) : SttResult :=
  if !contains line "\"event\":\"transcript\"" then .other
  else
    match Json.jsonGetString (bytesOf line) (bytesOf "text".toList) transcriptMax with
    | .absent | .invalid => .failed
    | .text text =>
        let audio := (jsonUnsigned line "audio_ms").getD 0
        let processing := (jsonUnsigned line "processing_ms").getD 0
        if text = [] then .failed
        else if shared.transcriptPending ∨ shared.dispatching then .dropped
        else
          .queued text
            { detectionSample := detectionSample
              transcriptReceivedMs := nowMs
              sttAudioMs := audio
              sttProcessingMs := processing
              sttTotalMs := (jsonUnsigned line "total_ms").getD (audio + processing)
              endpoint := contains line "\"endpoint\":true"
              followUp := followUp }

/-! ### The loop -/

/-- The locals of `capture_worker`; a descriptor is there or it is -1. -/
structure Capture where
  wakeFd : Bool := false
  audioFd : Bool := false
  sttFd : Bool := false
  detectionSample : UInt64 := 0
  recognitionFollowUp : Bool := false
  recognitionStartedMs : UInt64 := 0
  recognitionAudioMs : UInt64 := 0
  recognitionProcessingMs : UInt64 := 0
  recognitionTotalMs : UInt64 := 0
  recognitionActive : Bool := false
  sttLine : CText := []
  ringFirstSample : UInt64 := 0
  ringCount : Nat := 0
  emitted : List Emitted := []
  /-- The loop was left, and whether because the pipeline is being stopped. -/
  left : Option Bool := none
deriving DecidableEq, Repr

namespace Capture
variable (s : Capture)

def emit (e : Emitted) : Capture :=
  { s with emitted := s.emitted ++ [e] }

def emitOutcome (status : Int) (detectionSample : UInt64) (followUp : Bool)
    (audioMs processingMs totalMs : UInt64) : Capture :=
  s.emit (.outcome ⟨status, followUp, detectionSample, audioMs, processingMs, totalMs⟩)

def endTurn (status : Int) : Capture :=
  if s.recognitionActive then
    { s.emitOutcome status s.detectionSample s.recognitionFollowUp s.recognitionAudioMs
        s.recognitionProcessingMs s.recognitionTotalMs with recognitionActive := false }
  else s

def closeRecognition : Capture :=
  { s with sttFd := false, sttLine := [] }

def startRecognition (recognizer : Recognizer) : Capture :=
  let s := s.emit (.turnBegin s.detectionSample)
  match recognizer with
  | .refused => s
  | .unwritten => { s with sttLine := [] }
  | .listening => { s with sttLine := [], sttFd := true }

def startTurn (detectionSample : UInt64) (followUp : Bool) (nowMs : UInt64)
    (recognizer : Recognizer) : Capture :=
  let s := { s with
    detectionSample := detectionSample
    recognitionFollowUp := followUp
    recognitionStartedMs := nowMs
    recognitionAudioMs := 0
    recognitionProcessingMs := 0
    recognitionTotalMs := 0 }
  let s := s.startRecognition recognizer
  if s.sttFd then { s with recognitionActive := true }
  else
    { s.emitOutcome leVoiceTurnSttFailed detectionSample followUp 0 0 0 with
      recognitionActive := false }

def ringAppend (frame : Frame) : Capture :=
  let fresh := s.ringCount = 0 ∨ frame.firstSample ≠ s.ringFirstSample + UInt64.ofNat s.ringCount
  let first := if fresh then frame.firstSample else s.ringFirstSample
  let count := (if fresh then 0 else s.ringCount) + frame.sampleCount.toNat
  { s with
    ringFirstSample := first + UInt64.ofNat (count - pcmRingSamples)
    ringCount := min count pcmRingSamples }

def reaches (frame : Frame) : Bool :=
  s.detectionSample < frame.firstSample + frame.sampleCount.toUInt64 &&
    (if frame.firstSample < s.detectionSample then s.detectionSample - frame.firstSample else 0) <
      frame.sampleCount.toUInt64

abbrev Stage : Type :=
  Capture × Bool

def Stage.andThen (stage : Stage) (more : Capture → Capture) : Capture :=
  if stage.2 then more stage.1 else stage.1

def hearAudio : AudioReady → Stage
  | .idle | .gone => (s, true)
  | .input none _ => ({ s with audioFd := false }, false)
  | .input (some frame) written =>
      let s := s.ringAppend frame
      if s.sttFd ∧ s.reaches frame ∧ written = .otherError then (s.closeRecognition, true)
      else (s, true)

def hearWake (r : Round) : WakeReady → Stage
  | .idle | .gone => (s, true)
  | .input none => ({ s with wakeFd := false }, false)
  | .input (some line) =>
      match detection (ofBuffer line) with
      | none => (s, false)
      | some sample =>
          if r.wakeShared.dispatching ∨ r.wakeShared.transcriptPending ∨ s.sttFd then
            (s.emitOutcome leVoiceTurnCancelled sample false 0 0 0, false)
          else (s.startTurn sample false r.wakeMs r.wakeRecognizer, true)

def hearStt (r : Round) : SttReady → Stage
  | .idle | .gone => (s, true)
  | .input reads =>
      if !s.sttFd then (s, true)
      else
        match readNonblockingLine s.sttLine reads with
        | .failed => ((s.endTurn leVoiceTurnSttFailed).closeRecognition, false)
        | .partly used => ({ s with sttLine := used }, false)
        | .line text =>
            let s := { s with sttLine := [] }
            match handleSttLine (ofBuffer text) s.detectionSample s.recognitionFollowUp
                r.transcriptMs r.queueShared with
            | .other => (s, true)
            | .failed => ((s.endTurn leVoiceTurnSttFailed).closeRecognition, true)
            | .dropped => ((s.endTurn leVoiceTurnCancelled).closeRecognition, true)
            | .queued text turn =>
                ({ s.emit (.transcript text turn) with recognitionActive := false }.closeRecognition,
                  true)

def checkDeadline (timeoutMs nowMs : UInt64) : Capture :=
  if s.sttFd ∧ s.recognitionActive ∧ s.recognitionStartedMs ≠ 0 ∧
      timeoutMs ≤ nowMs - s.recognitionStartedMs then
    (s.endTurn leVoiceTurnTimedOut).closeRecognition
  else s

def followUp (r : Round) : Capture :=
  if !s.sttFd ∧ r.followUpShared.followUpPending ∧ !r.followUpShared.dispatching ∧
      !r.followUpShared.transcriptPending ∧ s.ringCount ≠ 0 then
    s.startTurn (s.ringFirstSample + UInt64.ofNat s.ringCount) true r.followUpMs
      r.followUpRecognizer
  else s

def connect (r : Round) : Capture :=
  { s with wakeFd := s.wakeFd || r.wakeSubscribed, audioFd := s.audioFd || r.audioSubscribed }

/-- The end of `capture_worker`. -/
def leave (stopping : Bool) : Capture :=
  { s.closeRecognition with wakeFd := false, audioFd := false, left := some stopping }

def polled (timeoutMs : UInt64) (r : Round) (wake : WakeReady) (audio : AudioReady)
    (stt : SttReady) : Capture :=
  -- the recogniser is polled only if it was there
  let stt := if s.sttFd then stt else .idle
  if wake = .gone then { s with wakeFd := false }
  else if audio = .gone then { s with audioFd := false }
  else if stt = .gone then (s.endTurn leVoiceTurnSttFailed).closeRecognition
  else
    (s.hearAudio audio).andThen fun s =>
      (s.hearWake r wake).andThen fun s =>
        (s.hearStt r stt).andThen fun s => (s.checkDeadline timeoutMs r.checkedMs).followUp r

def round (timeoutMs : UInt64) (r : Round) : Capture :=
  if s.left ≠ none then s
  else if !r.running then s.leave true
  else
    let s := s.connect r
    if !s.wakeFd ∨ !s.audioFd then s
    else
      match r.poll with
      | .interrupted => s
      | .failed => s.leave false
      | .ready wake audio stt => s.polled timeoutMs r wake audio stt

end Capture

end LibreEcho.Voice
