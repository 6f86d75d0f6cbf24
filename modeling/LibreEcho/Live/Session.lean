import LibreEcho.Lib.CText
import LibreEcho.Live.Ring
import Mathlib

/-!
The GPT-Live conversation lifecycle of `live_session.c`.

The transport and the daemon callbacks are an environment: what they answer
may depend on how many calls the session has made so far, so every sequence of
answers is covered. The session records its calls in order. Times are the
64-bit millisecond counter, whose differences wrap.
-/
namespace LibreEcho.Live

/-- Copy into a buffer of `size` bytes, the terminator included. -/
def copyText (size : Nat) (value : CText) : CText :=
  value.take (size - 1)

def u64Sub (a b : Nat) : Nat :=
  (a + 2 ^ 64 - b) % 2 ^ 64

def leLiveInputRate : Nat := 16000
def leLiveAudioSamples : Nat := 1280
def leLiveToolNameMax : Nat := 48
def leLiveDelegationIdMax : Nat := 64
def leLiveArgumentMax : Nat := 512
def leLiveTextMax : Nat := 512
def leLiveTranscriptTurns : Nat := 10
def leLiveDelegationCache : Nat := 16

inductive LeLiveState where
  | idle | connecting | listening | speaking | waitingForTool | closing
deriving DecidableEq, Repr

inductive LeLiveEndReason where
  | none | timeout | maxDuration | transportClosed | transportError | connectFailed
  | audioFailed | stopped
deriving DecidableEq, Repr

inductive LeLiveSpeaker where
  | user | model
deriving DecidableEq, Repr

inductive LeLiveEvent where
  | none
  | opened
  | transcript (speaker : LeLiveSpeaker) (final : Bool) (text : CText)
  | audio (rate : Nat) (samples : List Int16)
  | delegation (delegationId tool arguments : CText)
  | outputDone
  | inputStarted
  | closed
  | error (detail : CText)
deriving DecidableEq

structure LeLiveTurn where
  speaker : LeLiveSpeaker
  final : Bool
  text : CText

structure LeLiveDelegationRecord where
  id : CText
  tool : CText
  result : CText
  ok : Bool

/-- Forwarded unread to the transport's `start`. -/
structure LeLiveTransportConfig where
  model : CText
  voice : Option CText
  credentialsPath : Option CText
  url : Option CText
  caPath : Option CText
  mockScenario : Option CText

inductive LeLivePoll where
  | failed
  | timeout
  | event (e : LeLiveEvent)

/-- Answers of the transport and of the daemon callbacks. The first argument
is the number of calls made before this one; a missing transport operation is
one that always gives its default answer. -/
structure LeLiveEnvironment where
  start : Nat → LeLiveTransportConfig → Except CText Unit
  sendAudio : Nat → List Int16 → Bool
  poll : Nat → Int → LeLivePoll
  completeDelegation : Nat → CText → CText → Bool
  outputAudio : Nat → List Int16 → Nat → Bool
  dispatch : Nat → CText → CText → Bool × CText

/-- One call out of the session, with the answer it got. -/
inductive LeLiveCall where
  | transportStart (ok : Bool)
  | sendAudio (samples : List Int16) (ok : Bool)
  | poll
  | interrupt
  | completeDelegation (id result : CText) (ok : Bool)
  | transportStop
  | outputAudio (ok : Bool)
  | cancelOutput
  | dispatch (tool arguments : CText) (ok : Bool)
  | stateChanged (state : LeLiveState)

structure LeLiveSessionConfig where
  /-- The transport operations pointer is set. -/
  hasTransport : Bool
  conversationTimeoutMs : Nat
  maxSessionMs : Nat
  connectTimeoutMs : Nat
  wakePrerollMs : Nat
  bargeInRms : Nat
  bargeInFactor : Nat
  bargeInFrames : Nat
  transportConfig : LeLiveTransportConfig

structure LeLiveSession where
  config : LeLiveSessionConfig
  ring : LeLiveRing
  state : LeLiveState
  lastEnd : LeLiveEndReason
  openedMs : Nat
  lastModelSpeechMs : Nat
  lastUserSpeechMs : Nat
  firstAudioAtMs : Nat
  nextSendSample : Nat
  bargeInRun : Nat
  audioStarted : Bool
  inputPeakRms : Nat
  speechPeakRms : Nat
  inputFloorRms : Nat
  floorPrimed : Bool
  /-- The bounded transcript, oldest turn first. -/
  turns : List LeLiveTurn
  delegationCache : Fin leLiveDelegationCache → Option LeLiveDelegationRecord
  delegationNext : Fin leLiveDelegationCache
  sessionsStarted : Nat
  sessionsCompleted : Nat
  sessionsFailed : Nat
  audioInputMs : Nat
  audioOutputMs : Nat
  delegationCount : Nat
  delegationFailures : Nat
  delegationDeliveryFailures : Nat
  delegationDeduped : Nat
  bargeIns : Nat
  lastConnectionMs : Nat
  lastFirstAudioMs : Nat
  lastError : CText
  /-- Every call made so far, oldest first. -/
  calls : List LeLiveCall

namespace LeLiveSession

def call (s : LeLiveSession) (c : LeLiveCall) : LeLiveSession :=
  { s with calls := s.calls ++ [c] }

/-- The number of calls made so far, which the environment's answers follow. -/
def callCount (s : LeLiveSession) : Nat := s.calls.length

end LeLiveSession

def setState (s : LeLiveSession) (state : LeLiveState) : LeLiveSession :=
  if s.state = state then s
  else ({ s with state := state } : LeLiveSession).call (.stateChanged state)

@[simp] theorem setState_state (s : LeLiveSession) (state : LeLiveState) :
    (setState s state).state = state := by
  unfold setState
  split
  · assumption
  · rfl

/-- The configuration after the defaults for unset limits are filled in. -/
def leLiveSessionConfigDefaults (config : LeLiveSessionConfig) : LeLiveSessionConfig :=
  { config with
    conversationTimeoutMs :=
      if config.conversationTimeoutMs = 0 then 15000 else config.conversationTimeoutMs
    maxSessionMs := if config.maxSessionMs = 0 then 600000 else config.maxSessionMs
    connectTimeoutMs := if config.connectTimeoutMs = 0 then 8000 else config.connectTimeoutMs
    bargeInFrames := if config.bargeInFrames = 0 then 3 else config.bargeInFrames
    bargeInFactor := if config.bargeInFactor = 0 then 6 else config.bargeInFactor }

def leLiveSessionInit (ring : LeLiveRing) (config : LeLiveSessionConfig) : LeLiveSession where
  config := leLiveSessionConfigDefaults config
  ring := ring
  state := .idle
  lastEnd := .none
  openedMs := 0
  lastModelSpeechMs := 0
  lastUserSpeechMs := 0
  firstAudioAtMs := 0
  nextSendSample := 0
  bargeInRun := 0
  audioStarted := false
  inputPeakRms := 0
  speechPeakRms := 0
  inputFloorRms := 0
  floorPrimed := false
  turns := []
  delegationCache := fun _ => none
  delegationNext := ⟨0, by decide⟩
  sessionsStarted := 0
  sessionsCompleted := 0
  sessionsFailed := 0
  audioInputMs := 0
  audioOutputMs := 0
  delegationCount := 0
  delegationFailures := 0
  delegationDeliveryFailures := 0
  delegationDeduped := 0
  bargeIns := 0
  lastConnectionMs := 0
  lastFirstAudioMs := 0
  lastError := []
  calls := []

def leLiveSessionActive (s : LeLiveSession) : Bool :=
  s.state ≠ .idle

def LeLiveEndReason.completes : LeLiveEndReason → Bool
  | .timeout | .maxDuration | .stopped | .transportClosed => true
  | _ => false

def leLiveSessionClose (s : LeLiveSession) (reason : LeLiveEndReason) : LeLiveSession :=
  if s.state = .idle then s
  else
    let s := setState s .closing
    -- playback is cancelled before the transport stops
    let s := s.call .cancelOutput
    let s := s.call .transportStop
    let s := { s with lastEnd := reason }
    let s :=
      if reason.completes then { s with sessionsCompleted := s.sessionsCompleted + 1 }
      else { s with sessionsFailed := s.sessionsFailed + 1 }
    let s := { s with nextSendSample := 0, bargeInRun := 0 }
    setState s .idle

/-! ### Transcript -/

def transcriptAppend (s : LeLiveSession) (speaker : LeLiveSpeaker) (final : Bool)
    (text : CText) : LeLiveSession :=
  let turn : LeLiveTurn := { speaker, final, text := copyText leLiveTextMax text }
  match s.turns.getLast? with
  | some last =>
      -- an open turn of the same speaker is rewritten in place
      if last.speaker = speaker ∧ last.final = false then
        { s with turns := s.turns.dropLast ++ [turn] }
      else { s with turns := (s.turns ++ [turn]).rtake leLiveTranscriptTurns }
  | none => { s with turns := [turn] }

/-! ### Delegation cache -/

def delegationLookup (s : LeLiveSession) (id : CText) : Option LeLiveDelegationRecord :=
  if id = [] then none
  else
    (List.finRange leLiveDelegationCache).findSome? fun i =>
      (s.delegationCache i).filter fun record => record.id = id

def delegationStore (s : LeLiveSession) (id tool : CText) (ok : Bool) (result : CText) :
    LeLiveSession :=
  let record : LeLiveDelegationRecord :=
    { id := copyText leLiveDelegationIdMax id
      tool := copyText leLiveToolNameMax tool
      result := copyText leLiveArgumentMax result
      ok }
  { s with
    delegationCache := Function.update s.delegationCache s.delegationNext (some record)
    delegationNext :=
      ⟨(s.delegationNext.val + 1) % leLiveDelegationCache, Nat.mod_lt _ (by decide)⟩ }

/-- The flag is the return value: `false` after a failed delivery. -/
def completeDelegation (E : LeLiveEnvironment) (s : LeLiveSession) (id result : CText) :
    Bool × LeLiveSession :=
  let ok := E.completeDelegation s.callCount id result
  let s := s.call (.completeDelegation id result ok)
  if ok then (true, s)
  else
    let s :=
      if s.delegationDeliveryFailures < 2 ^ 64 - 1 then
        { s with delegationDeliveryFailures := s.delegationDeliveryFailures + 1 }
      else s
    let s := { s with lastError := "delegation result delivery failed".toList }
    (false, leLiveSessionClose s .transportError)

/-- The text a tool's result carries to end the conversation. -/
def endSessionMark : CText := "\"end_session\":true".toList

def handleDelegation (E : LeLiveEnvironment) (s : LeLiveSession)
    (delegationId tool arguments : CText) : LeLiveSession :=
  match delegationLookup s delegationId with
  | some replay =>
      let s := { s with delegationDeduped := s.delegationDeduped + 1 }
      (completeDelegation E s replay.id replay.result).2
  | none =>
      let s := { s with delegationCount := s.delegationCount + 1 }
      let answer := E.dispatch s.callCount tool arguments
      let s := s.call (.dispatch tool arguments answer.1)
      let result := copyText leLiveArgumentMax answer.2
      let s :=
        if answer.1 then s else { s with delegationFailures := s.delegationFailures + 1 }
      let result :=
        if answer.1 = false ∧ result = [] then "unsupported".toList else result
      let s := delegationStore s delegationId tool answer.1 result
      let done := completeDelegation E s delegationId result
      if done.1 = false then done.2
      else if endSessionMark <:+: result then leLiveSessionClose done.2 .stopped
      else setState done.2 .speaking

/-! ### Input forwarding -/

def frameRms (samples : List Int16) : Nat :=
  (samples.map fun x => x.toInt.natAbs).sum / samples.length

def chunkSent (s : LeLiveSession) (chunk : List Int16) : LeLiveSession :=
  { s with
    nextSendSample := s.nextSendSample + chunk.length
    audioInputMs := s.audioInputMs + chunk.length * 1000 / leLiveInputRate }

/-- The loop of `flush_pending`. Each round sends at least one sample, so as
many rounds as there are samples owed are enough. The flag is the return
value: `false` when the transport refused a chunk. -/
def flushLoop (E : LeLiveEnvironment) (stop : Nat) : Nat → LeLiveSession → Bool × LeLiveSession
  | 0, s => (true, s)
  | rounds + 1, s =>
      if s.nextSendSample < stop then
        let chunk := leLiveRingRead s.ring s.nextSendSample leLiveAudioSamples
        if chunk = [] then (true, s)
        else
          let ok := E.sendAudio s.callCount chunk
          let s := s.call (.sendAudio chunk ok)
          if ok then
            flushLoop E stop rounds (chunkSent s chunk)
          else (false, s)
      else (true, s)

def flushPending (E : LeLiveEnvironment) (s : LeLiveSession) : Bool × LeLiveSession :=
  if s.state = .idle then (true, s)
  else if s.state = .connecting ∨ s.state = .closing then (true, s)
  else
    let stop := leLiveRingEnd s.ring
    flushLoop E stop (stop - s.nextSendSample) s

def observeInput (s : LeLiveSession) (samples : List Int16) : LeLiveSession :=
  let rms := frameRms samples
  let s := if s.inputPeakRms < rms then { s with inputPeakRms := rms } else s
  if s.floorPrimed = false then { s with inputFloorRms := rms, floorPrimed := true }
  else if rms < s.inputFloorRms then { s with inputFloorRms := rms }
  else { s with inputFloorRms := s.inputFloorRms + (rms - s.inputFloorRms) / 64 }

def bargeInThreshold (s : LeLiveSession) : Nat :=
  if s.config.bargeInFactor = 0 then s.config.bargeInRms
  else max s.config.bargeInRms (s.inputFloorRms * s.config.bargeInFactor % 2 ^ 32)

def raiseSpeechPeak (s : LeLiveSession) (rms : Nat) : LeLiveSession :=
  if s.speechPeakRms < rms then { s with speechPeakRms := rms } else s

/-- The owner talks over the model: the model is interrupted. -/
def bargeIn (s : LeLiveSession) (nowMs : Nat) : LeLiveSession :=
  let s := { s with bargeInRun := 0, bargeIns := s.bargeIns + 1 }
  let s := s.call .interrupt
  let s := s.call .cancelOutput
  setState { s with lastUserSpeechMs := nowMs } .listening

def checkBargeIn (s : LeLiveSession) (samples : List Int16) (nowMs : Nat) : LeLiveSession :=
  let rms := frameRms samples
  if s.state ≠ .speaking then { s with bargeInRun := 0 }
  else
    let s := raiseSpeechPeak s rms
    if rms < bargeInThreshold s then { s with bargeInRun := 0 }
    else if s.bargeInRun + 1 < s.config.bargeInFrames then
      { s with bargeInRun := s.bargeInRun + 1 }
    else bargeIn s nowMs

/-- What both callers do after `flush_pending`: a refused chunk ends the session. -/
def closeUnlessFlushed (flushed : Bool × LeLiveSession) : Int × LeLiveSession :=
  if flushed.1 then (0, flushed.2)
  else
    (-1, leLiveSessionClose { flushed.2 with lastError := "audio upload failed".toList }
      .transportError)

def observeFrame (s : LeLiveSession) (samples : List Int16) (nowMs : Nat) : LeLiveSession :=
  let modelSpeaking := s.state = .speaking
  let s := if leLiveSessionActive s then checkBargeIn s samples nowMs else s
  if ¬modelSpeaking then observeInput s samples
  else if s.inputPeakRms < frameRms samples then { s with inputPeakRms := frameRms samples }
  else s

def leLiveSessionFeed (E : LeLiveEnvironment) (s : LeLiveSession) (firstSample : Nat)
    (samples : List Int16) (nowMs : Nat) : Int × LeLiveSession :=
  if samples.length = 0 then (-1, s)
  else
    match leLiveRingAppend s.ring firstSample samples with
    | none => (-1, s)
    | some ring =>
        let s := observeFrame { s with ring := ring } samples nowMs
        if leLiveSessionActive s = false then (0, s)
        else closeUnlessFlushed (flushPending E s)

/-! ### Lifecycle -/

def prerollSamples (s : LeLiveSession) : Nat :=
  s.config.wakePrerollMs * leLiveInputRate / 1000

/-- The session fields a wake sets before it starts the transport. -/
def openSession (s : LeLiveSession) (detectionSample nowMs : Nat) : LeLiveSession :=
  { s with
    delegationCache := fun _ => none
    delegationNext := ⟨0, by decide⟩
    nextSendSample := leLiveRingStartForWake s.ring detectionSample (prerollSamples s)
    openedMs := nowMs
    lastModelSpeechMs := nowMs
    lastUserSpeechMs := nowMs
    firstAudioAtMs := 0
    audioStarted := false
    bargeInRun := 0
    speechPeakRms := 0
    lastError := []
    lastEnd := .none
    sessionsStarted := s.sessionsStarted + 1 }

def connectFailed (s : LeLiveSession) (detail : CText) : LeLiveSession :=
  let s :=
    { s with
      lastError := if detail = [] then "transport unavailable".toList else detail
      sessionsFailed := s.sessionsFailed + 1 }
  let s := setState s .closing
  setState { s with lastEnd := .connectFailed } .idle

def startTransport (E : LeLiveEnvironment) (s : LeLiveSession) : Int × LeLiveSession :=
  match E.start s.callCount s.config.transportConfig with
  | .ok _ => (0, s.call (.transportStart true))
  | .error detail =>
      (-1, connectFailed (s.call (.transportStart false)) (copyText leLiveTextMax detail))

def leLiveSessionWake (E : LeLiveEnvironment) (s : LeLiveSession) (detectionSample nowMs : Nat) :
    Int × LeLiveSession :=
  if leLiveSessionActive s then (1, s)
  else if s.config.hasTransport = false then (-1, s)
  else if s.ring.primed = false ∨ s.ring.buffer.count = 0 ∨
      leLiveRingEnd s.ring < detectionSample then
    (-1, { s with lastError := "wake audio is unavailable".toList })
  else
    startTransport E (setState (openSession s detectionSample nowMs) .connecting)

def markFirstAudio (s : LeLiveSession) (nowMs : Nat) : LeLiveSession :=
  if s.audioStarted then s
  else
    { s with
      audioStarted := true
      firstAudioAtMs := nowMs
      lastFirstAudioMs := u64Sub nowMs s.openedMs }

def playAudio (s : LeLiveSession) (rate : Nat) (samples : List Int16) (nowMs : Nat) :
    LeLiveSession :=
  let s := markFirstAudio s nowMs
  let rate := if rate = 0 then leLiveInputRate else rate
  setState { s with audioOutputMs := s.audioOutputMs + samples.length * 1000 / rate } .speaking

def handleEvent (E : LeLiveEnvironment) (s : LeLiveSession) (event : LeLiveEvent)
    (nowMs : Nat) : LeLiveSession :=
  match event with
  | .opened =>
      setState { s with lastConnectionMs := u64Sub nowMs s.openedMs } .listening
  | .transcript speaker final text =>
      let s := transcriptAppend s speaker final text
      if final = false then s
      else
        match speaker with
        | .model => { s with lastModelSpeechMs := nowMs }
        | .user => { s with lastUserSpeechMs := nowMs }
  | .audio rate samples =>
      let ok := E.outputAudio s.callCount samples rate
      let s := s.call (.outputAudio ok)
      if ok = false then
        leLiveSessionClose { s with lastError := "audio output unavailable".toList } .audioFailed
      else playAudio s rate samples nowMs
  | .outputDone => setState { s with lastModelSpeechMs := nowMs } .listening
  | .inputStarted => { s with lastUserSpeechMs := nowMs }
  | .delegation id tool arguments =>
      handleDelegation E (setState s .waitingForTool) id tool arguments
  | .closed => leLiveSessionClose s .transportClosed
  | .error detail =>
      leLiveSessionClose { s with lastError := copyText leLiveTextMax detail } .transportError
  | .none => s

/-- The timeouts of a pump and its final flush, run while the session is active. -/
def pumpGuards (E : LeLiveEnvironment) (s : LeLiveSession) (nowMs : Nat) : Int × LeLiveSession :=
  if s.state = .connecting then
    if s.config.connectTimeoutMs ≤ u64Sub nowMs s.openedMs then
      (0, leLiveSessionClose { s with lastError := "GPT-Live unavailable".toList } .connectFailed)
    else (0, s)
  else if s.config.maxSessionMs ≤ u64Sub nowMs s.openedMs then
    (0, leLiveSessionClose s .maxDuration)
  else if s.config.conversationTimeoutMs ≤
      u64Sub nowMs (max s.lastModelSpeechMs s.lastUserSpeechMs) then
    (0, leLiveSessionClose s .timeout)
  else closeUnlessFlushed (flushPending E s)

def leLiveSessionPump (E : LeLiveEnvironment) (s : LeLiveSession) (timeoutMs : Int)
    (nowMs : Nat) : Int × LeLiveSession :=
  if leLiveSessionActive s = false then (0, s)
  else
    let answer := E.poll s.callCount timeoutMs
    let s := s.call .poll
    match answer with
    | .failed =>
        (-1, leLiveSessionClose { s with lastError := "transport poll failed".toList }
          .transportError)
    | .timeout => pumpGuards E s nowMs
    | .event event =>
        let s := handleEvent E s event nowMs
        if leLiveSessionActive s = false then (0, s) else pumpGuards E s nowMs

end LibreEcho.Live
