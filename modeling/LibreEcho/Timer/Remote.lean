import LibreEcho.Adapter.Wire
import LibreEcho.Json.TopLevel
import LibreEcho.Lib.Runs
import LibreEcho.Timer.PollTimeout

/-!
The remote timers of timerd.

Their expiry is the sender's: an entry rings on a FINISHED event and on nothing else, so the
table is separate from the schedule. An event is read whole before the table is touched.
-/
namespace LibreEcho.Timer
open JsonGrammar ByteText Json
open Adapter (cString)

def remoteTimerMax : Nat := 8
def remoteTimerIdMax : Nat := 64
def remoteTimerNameMax : Nat := 49
def ringPeriodMs : Int := 2000
def pollCapMs : Int := 60000
def restoreRetryMs : Int := 1000

structure RemoteTimer where
  state : LeTimerState
  externalId : Bytes
  name : Bytes
  totalSeconds : UInt32
  secondsLeft : UInt32
  isActive : Bool
  ringStartedMs : Int
deriving DecidableEq

def RemoteTimer.cleared : RemoteTimer :=
  ⟨.free, [], [], 0, 0, false, 0⟩

abbrev RemoteTable := Fin remoteTimerMax → RemoteTimer

structure RemoteContext where
  remoteTimers : RemoteTable
  nextRingMs : Int

def remoteBoot : RemoteContext :=
  ⟨fun _ => .cleared, 0⟩

/-! ### Reading an event -/

inductive RemoteEventType where
  | started | updated | cancelled | finished
deriving DecidableEq

structure RemoteEvent where
  type : RemoteEventType
  externalId : Bytes
  name : Bytes
  totalSeconds : UInt32
  secondsLeft : UInt32
  isActive : Bool
deriving DecidableEq

inductive RemoteError where
  | invalid | duplicate | unknown | full
deriving DecidableEq

def RemoteError.message : RemoteError → String
  | .invalid => "invalid remote timer event"
  | .duplicate => "duplicate remote timer field"
  | .unknown => "no such remote timer"
  | .full => "no free remote timer slots"

def eventTypeKey : Bytes := ascii "event_type"
def timerIdKey : Bytes := ascii "timer_id"
def nameKey : Bytes := ascii "name"
def totalSecondsKey : Bytes := ascii "total_seconds"
def secondsLeftKey : Bytes := ascii "seconds_left"
def isActiveKey : Bytes := ascii "is_active"

def remoteKeys : List Bytes :=
  [eventTypeKey, timerIdKey, nameKey, totalSecondsKey, secondsLeftKey, isActiveKey]

def remoteEventType (type : Int) : Option RemoteEventType :=
  if type = 0 then some .started
  else if type = 1 then some .updated
  else if type = 2 then some .cancelled
  else if type = 3 then some .finished
  else none

def withValue {α β : Type} (read : Except Fault (Got α)) (use : α → Except Fault (Option β)) :
    Except Fault (Option β) :=
  match read with
  | .error f => .error f
  | .ok (.value a) => use a
  | .ok _ => .ok none

def withText {β : Type} (read : Except Fault StringRead)
    (use : Bytes → Except Fault (Option β)) : Except Fault (Option β) :=
  match read with
  | .error f => .error f
  | .ok (.text out) => use out
  | .ok _ => .ok none

def remoteFields (args : Bytes) : Except Fault (Option RemoteEvent) :=
  let fuel := parseFuel args.length
  withValue (jsonGetInt64TopLevel args eventTypeKey) fun type =>
  match remoteEventType type with
  | none => .ok none
  | some type =>
      withText (jsonGetStringTopLevel fuel args timerIdKey remoteTimerIdMax) fun externalId =>
      if externalId = [] then .ok none
      else
        withText (jsonGetStringTopLevel fuel args nameKey remoteTimerNameMax) fun name =>
        withValue (jsonGetInt64TopLevel args totalSecondsKey) fun total =>
        if total < 0 ∨ (uintMax.toNat : Int) < total then .ok none
        else
          withValue (jsonGetInt64TopLevel args secondsLeftKey) fun left =>
          if left < 0 ∨ total < left then .ok none
          else
            withValue (jsonGetTopLevelBool args isActiveKey) fun isActive =>
            .ok (some ⟨type, externalId, name, .ofNat total.toNat, .ofNat left.toNat, isActive⟩)

def duplicateField (args : Bytes) : List Bytes → Except Fault Bool
  | [] => .ok false
  | key :: keys =>
      match jsonDuplicateKey args key with
      | .error f => .error f
      | .ok true => .ok true
      | .ok false => duplicateField args keys

abbrev RemoteRead := Except RemoteError RemoteEvent

def readRemoteText (args : Bytes) : Except Fault RemoteRead :=
  match jsonValidObject (parseFuel args.length) args with
  | .error f => .error f
  | .ok false => .ok (.error .invalid)
  | .ok true =>
      match duplicateField args remoteKeys with
      | .error f => .error f
      | .ok true => .ok (.error .duplicate)
      | .ok false =>
          (remoteFields args).map fun event =>
            match event with
            | none => .error .invalid
            | some event => .ok event

/-- The part of `remote_event` before it touches the table. -/
def readRemoteEvent (args : Option Bytes) : Except Fault RemoteRead :=
  match args with
  | none => .ok (.error .invalid)
  | some args => readRemoteText (cString args)

/-! ### The table -/

def RemoteTable.find (table : RemoteTable) (id : Bytes) : Option (Fin remoteTimerMax) :=
  (List.finRange remoteTimerMax).reverse.find? fun i =>
    (table i).state ≠ .free ∧ (table i).externalId = id

def RemoteTable.firstFree (table : RemoteTable) : Option (Fin remoteTimerMax) :=
  (List.finRange remoteTimerMax).find? fun i => (table i).state = .free

def RemoteEvent.pending (e : RemoteEvent) : RemoteTimer :=
  ⟨.pending, e.externalId, e.name, e.totalSeconds, e.secondsLeft, e.isActive, 0⟩

def RemoteEvent.ringing (e : RemoteEvent) (ringStartedMs : Int) : RemoteTimer :=
  ⟨.ringing, e.externalId, e.name, e.totalSeconds, e.secondsLeft, false, ringStartedMs⟩

def RemoteContext.put (ctx : RemoteContext) (i : Fin remoteTimerMax) (timer : RemoteTimer) :
    RemoteContext :=
  { ctx with remoteTimers := Function.update ctx.remoteTimers i timer }

def finishRemote (ctx : RemoteContext) (e : RemoteEvent) (i : Fin remoteTimerMax) (nowMs : Int) :
    RemoteContext :=
  if (ctx.remoteTimers i).state ≠ .ringing then
    { ctx.put i (e.ringing nowMs) with nextRingMs := 0 }
  else ctx.put i (e.ringing (ctx.remoteTimers i).ringStartedMs)

/-- A late update neither silences nor resets a ring; STARTED begins anew. -/
def updateRemote (ctx : RemoteContext) (e : RemoteEvent) (i : Fin remoteTimerMax) :
    RemoteContext :=
  if e.type = .updated ∧ (ctx.remoteTimers i).state = .ringing then
    ctx.put i (e.ringing (ctx.remoteTimers i).ringStartedMs)
  else ctx.put i e.pending

/-- The part of `remote_event` after the event is read. -/
def applyRemoteEvent (ctx : RemoteContext) (e : RemoteEvent) (nowMs : Int) :
    Except RemoteError RemoteContext :=
  match ctx.remoteTimers.find e.externalId, e.type with
  | some i, .cancelled => .ok (ctx.put i .cleared)
  | some i, .finished => .ok (finishRemote ctx e i nowMs)
  | some i, .started | some i, .updated => .ok (updateRemote ctx e i)
  | none, .started =>
      match ctx.remoteTimers.firstFree with
      | some i => .ok (updateRemote ctx e i)
      | none => .error .full
  | none, _ => .error .unknown

def answerRemoteEvent (ctx : RemoteContext) (read : RemoteRead) (nowMs : Int) :
    Except RemoteError Unit × RemoteContext :=
  match read with
  | .error e => (.error e, ctx)
  | .ok event =>
      match applyRemoteEvent ctx event nowMs with
      | .error e => (.error e, ctx)
      | .ok after => (.ok (), after)

def remoteEvent (ctx : RemoteContext) (args : Option Bytes) (nowMs : Int) :
    Except Fault (Except RemoteError Unit × RemoteContext) :=
  (readRemoteEvent args).map fun read => answerRemoteEvent ctx read nowMs

def RemoteTimer.overdue (timer : RemoteTimer) (nowMs : Int) : Bool :=
  timer.state = .ringing ∧ leTimerRingSeconds * 1000 ≤ nowMs - timer.ringStartedMs

def remoteRingExpire (ctx : RemoteContext) (nowMs : Int) : RemoteContext :=
  { ctx with remoteTimers := fun i =>
      if (ctx.remoteTimers i).overdue nowMs then .cleared else ctx.remoteTimers i }

def remoteRingingCount (ctx : RemoteContext) : Nat :=
  (List.finRange remoteTimerMax).countP fun i => (ctx.remoteTimers i).state = .ringing

def remoteDismissAll (ctx : RemoteContext) : Nat × RemoteContext :=
  (remoteRingingCount ctx,
    { ctx with remoteTimers := fun i =>
        if (ctx.remoteTimers i).state = .ringing then .cleared else ctx.remoteTimers i })

def remoteClear (ctx : RemoteContext) : RemoteContext :=
  { ctx with remoteTimers := fun _ => .cleared }

/-- `ring_tick`, with the local rings and the time after the cue. -/
def ringTick (ctx : RemoteContext) (localRinging : Nat) (nowMs afterCueMs : Int) :
    RemoteContext :=
  let ctx := remoteRingExpire ctx nowMs
  if localRinging + remoteRingingCount ctx = 0 then { ctx with nextRingMs := 0 }
  else if nowMs < ctx.nextRingMs then ctx
  else { ctx with nextRingMs := afterCueMs + ringPeriodMs }

def remoteRemaining (nowMs : Int) (timer : RemoteTimer) : Option Int :=
  if timer.state = .ringing then
    some (timer.ringStartedMs + leTimerRingSeconds * 1000 - nowMs)
  else none

def timerPollTimeout (set : LeTimerSet) (stateLoaded : Bool) (ctx : RemoteContext)
    (nowMs nowEpoch : Int) : Int :=
  let timeout := (List.finRange remoteTimerMax).foldl
    (fun timeout i => shorterTimeout timeout (remoteRemaining nowMs (ctx.remoteTimers i)))
    (leTimerPollTimeoutMs set nowMs nowEpoch pollCapMs)
  if stateLoaded = false ∧ restoreRetryMs < timeout then restoreRetryMs else timeout

/-! ### Runs -/

/-- What happens to the table; an event comes as `ε`. -/
inductive RemoteOp (ε : Type) where
  | event (e : ε) (nowMs : Int)
  | clear
  | dismissAll
  | tick (localRinging : Nat) (nowMs afterCueMs : Int)

def RemoteContext.perform (ctx : RemoteContext) : RemoteOp RemoteRead → RemoteContext
  | .event read nowMs => (answerRemoteEvent ctx read nowMs).2
  | .clear => remoteClear ctx
  | .dismissAll => (remoteDismissAll ctx).2
  | .tick localRinging nowMs afterCueMs => ringTick ctx localRinging nowMs afterCueMs

def RemoteContext.step (ctx : RemoteContext) :
    RemoteOp (Option Bytes) → Except Fault RemoteContext
  | .event args nowMs => (remoteEvent ctx args nowMs).map (·.2)
  | .clear => .ok (ctx.perform .clear)
  | .dismissAll => .ok (ctx.perform .dismissAll)
  | .tick localRinging nowMs afterCueMs => .ok (ctx.perform (.tick localRinging nowMs afterCueMs))

def RemoteContext.run : RemoteContext → List (RemoteOp (Option Bytes)) → Except Fault RemoteContext
  | ctx, [] => .ok ctx
  | ctx, op :: ops =>
      match ctx.step op with
      | .error f => .error f
      | .ok after => after.run ops

end LibreEcho.Timer
