import Mathlib
import LibreEcho.Lib.Runs

/-!
The gateway-liveness policy of `network_health.c`.

A tick either answers at once or finds a probe due; a due probe is answered with
PROBE, or settled by the tick itself when there is no default route. Results
come back through `le_network_health_record_probe`. Milliseconds are integers.
-/
namespace LibreEcho.Network

structure LeNetworkHealthConfig where
  probeIntervalMs : Int
  failureThreshold : Int
  reassociateGraceMs : Int
  interfaceDownMs : Int
  interfaceGraceMs : Int
deriving DecidableEq, Repr

inductive LeGatewayProbeResult where
  | unavailable | unreachable | reachable
deriving DecidableEq, Repr

inductive LeNetworkHealthAction where
  | none | probe | reassociate | interfaceDown | interfaceUp | requestReboot
deriving DecidableEq, Repr

inductive LeNetworkHealthPhase where
  | idle | reassociating | interfaceDownWait | interfaceRecovering
  | rebootPending | rebootRequested | exhausted
deriving DecidableEq, Repr

structure LeNetworkHealth where
  config : LeNetworkHealthConfig
  phase : LeNetworkHealthPhase
  nextProbeMs : Int
  transitionDeadlineMs : Int
  associated : Bool
  awaitingProbe : Bool
  /-- 1 and 0, or -1 while nothing is known. -/
  gatewayReachable : Int
  consecutiveFailures : Int
  healthySeen : Bool
deriving DecidableEq, Repr

def leNetworkHealthDefaultConfig : LeNetworkHealthConfig where
  probeIntervalMs := 15000
  failureThreshold := 3
  reassociateGraceMs := 30000
  interfaceDownMs := 1000
  interfaceGraceMs := 45000

def positiveOr (value fallback : Int) : Int :=
  if value ≤ 0 then fallback else value

/-- Values that are not positive fall back to their defaults. -/
def leNetworkHealthConfigBound (config : LeNetworkHealthConfig) : LeNetworkHealthConfig :=
  let defaults := leNetworkHealthDefaultConfig
  { probeIntervalMs := positiveOr config.probeIntervalMs defaults.probeIntervalMs
    failureThreshold := positiveOr config.failureThreshold defaults.failureThreshold
    reassociateGraceMs := positiveOr config.reassociateGraceMs defaults.reassociateGraceMs
    interfaceDownMs := positiveOr config.interfaceDownMs defaults.interfaceDownMs
    interfaceGraceMs := positiveOr config.interfaceGraceMs defaults.interfaceGraceMs }

def leNetworkHealthInit (config : Option LeNetworkHealthConfig) (nowMs : Int) :
    LeNetworkHealth where
  config := leNetworkHealthConfigBound (config.getD leNetworkHealthDefaultConfig)
  phase := .idle
  nextProbeMs := nowMs
  transitionDeadlineMs := 0
  associated := false
  awaitingProbe := false
  gatewayReachable := -1
  consecutiveFailures := 0
  healthySeen := false

def markDisconnected (h : LeNetworkHealth) (nowMs : Int) : LeNetworkHealth :=
  { h with
    phase := .idle
    nextProbeMs := nowMs + h.config.probeIntervalMs
    transitionDeadlineMs := 0
    associated := false
    awaitingProbe := false
    gatewayReachable := -1
    consecutiveFailures := 0
    healthySeen := false }

/-! ### Results of a probe -/

def recordUnavailable (h : LeNetworkHealth) (nowMs : Int) : LeNetworkHealth :=
  { h with
    awaitingProbe := false
    gatewayReachable := -1
    consecutiveFailures := 0
    nextProbeMs := nowMs + h.config.probeIntervalMs }

def recordReachable (h : LeNetworkHealth) (nowMs : Int) : LeNetworkHealth :=
  { h with
    awaitingProbe := false
    gatewayReachable := 1
    consecutiveFailures := 0
    healthySeen := true
    phase := .idle
    transitionDeadlineMs := 0
    nextProbeMs := nowMs + h.config.probeIntervalMs }

def countFailure (h : LeNetworkHealth) (nowMs : Int) : LeNetworkHealth :=
  { h with
    awaitingProbe := false
    gatewayReachable := 0
    consecutiveFailures :=
      if h.consecutiveFailures < h.config.failureThreshold then h.consecutiveFailures + 1
      else h.consecutiveFailures
    nextProbeMs := nowMs + h.config.probeIntervalMs }

/-- The failed probe is the last one the gateway is given in this phase. -/
def thresholdReached (h : LeNetworkHealth) : Prop :=
  h.phase = .idle ∧ h.healthySeen ∧ h.config.failureThreshold ≤ h.consecutiveFailures

instance (h : LeNetworkHealth) : Decidable (thresholdReached h) :=
  inferInstanceAs (Decidable (_ ∧ _))

def escalate (h : LeNetworkHealth) (nowMs : Int) : LeNetworkHealthAction × LeNetworkHealth :=
  if thresholdReached h then
    (.reassociate,
      { h with phase := .reassociating, nextProbeMs := nowMs + h.config.reassociateGraceMs })
  else if h.phase = .reassociating then
    (.interfaceDown,
      { h with
        phase := .interfaceDownWait
        transitionDeadlineMs := nowMs + h.config.interfaceDownMs })
  else if h.phase = .interfaceRecovering then
    (.requestReboot, { h with phase := .rebootPending, nextProbeMs := 0 })
  else (.none, h)

/-- Everything a counted failure can lead to. -/
inductive Escalated (h : LeNetworkHealth) (nowMs : Int) :
    LeNetworkHealthAction × LeNetworkHealth → Prop where
  | reassociates : Escalated h nowMs (.reassociate,
      { h with phase := .reassociating, nextProbeMs := nowMs + h.config.reassociateGraceMs })
  | takesDown (at_phase : h.phase = .reassociating) : Escalated h nowMs (.interfaceDown,
      { h with
        phase := .interfaceDownWait
        transitionDeadlineMs := nowMs + h.config.interfaceDownMs })
  | asksReboot (at_phase : h.phase = .interfaceRecovering) : Escalated h nowMs (.requestReboot,
      { h with phase := .rebootPending, nextProbeMs := 0 })
  | counts : Escalated h nowMs (.none, h)

theorem escalate_escalated (h : LeNetworkHealth) (nowMs : Int) :
    Escalated h nowMs (escalate h nowMs) := by
  unfold escalate
  split
  case isTrue => exact .reassociates
  case isFalse =>
    split
    case isTrue at_phase => exact .takesDown at_phase
    case isFalse =>
      split
      case isTrue at_phase => exact .asksReboot at_phase
      case isFalse => exact .counts

def leNetworkHealthRecordProbe (h : LeNetworkHealth) (nowMs : Int) :
    LeGatewayProbeResult → LeNetworkHealthAction × LeNetworkHealth
  | .unavailable => (.none, recordUnavailable h nowMs)
  | .reachable => (.none, recordReachable h nowMs)
  | .unreachable => escalate (countFailure h nowMs) nowMs

theorem recordProbe_not_probe (h : LeNetworkHealth) (nowMs : Int) (result : LeGatewayProbeResult) :
    (leNetworkHealthRecordProbe h nowMs result).1 ≠ .probe := by
  cases result with
  | unavailable | reachable => simp [leNetworkHealthRecordProbe]
  | unreachable =>
      have escalated := escalate_escalated (countFailure h nowMs) nowMs
      unfold leNetworkHealthRecordProbe
      dsimp only
      generalize escalate (countFailure h nowMs) nowMs = answer at escalated
      cases escalated <;> exact fun probe => by cases probe

/-! ### One tick -/

/-- What a tick finds: its answer, or that a probe is due. -/
inductive TickMove where
  | answers (action : LeNetworkHealthAction) (h : LeNetworkHealth)
  | due (h : LeNetworkHealth)

def noteAssociated (h : LeNetworkHealth) (nowMs : Int) (associated : Bool) : LeNetworkHealth :=
  if associated ∧ h.associated = false then { h with associated := true, nextProbeMs := nowMs }
  else h

theorem noteAssociated_phase (h : LeNetworkHealth) (nowMs : Int) (associated : Bool) :
    (noteAssociated h nowMs associated).phase = h.phase := by
  unfold noteAssociated
  split <;> rfl

def tickMove (h : LeNetworkHealth) (nowMs : Int) (associated : Bool) : TickMove :=
  if h.phase = .rebootPending ∨ h.phase = .rebootRequested then .answers .none h
  else if h.phase = .interfaceDownWait then
    if nowMs < h.transitionDeadlineMs then .answers .none h
    else
      .answers .interfaceUp
        { h with
          phase := .interfaceRecovering
          nextProbeMs := nowMs + h.config.interfaceGraceMs }
  else if h.phase ≠ .reassociating ∧ h.phase ≠ .interfaceRecovering ∧ associated = false then
    .answers .none (markDisconnected h nowMs)
  else
    let h := noteAssociated h nowMs associated
    if h.awaitingProbe ∨ nowMs < h.nextProbeMs then .answers .none h else .due h

/-- Everything a tick can find. -/
inductive TickMoved (h : LeNetworkHealth) (nowMs : Int) (associated : Bool) : TickMove → Prop where
  | rests : TickMoved h nowMs associated (.answers .none h)
  | raises (at_phase : h.phase = .interfaceDownWait) (due : h.transitionDeadlineMs ≤ nowMs) :
      TickMoved h nowMs associated
        (.answers .interfaceUp
          { h with
            phase := .interfaceRecovering
            nextProbeMs := nowMs + h.config.interfaceGraceMs })
  | forgets : TickMoved h nowMs associated (.answers .none (markDisconnected h nowMs))
  | notes (no_wait : h.phase ≠ .interfaceDownWait) :
      TickMoved h nowMs associated (.answers .none (noteAssociated h nowMs associated))
  | finds (no_wait : h.phase ≠ .interfaceDownWait)
      (linked : h.phase = .reassociating ∨ h.phase = .interfaceRecovering ∨ associated = true)
      (idle : (noteAssociated h nowMs associated).awaitingProbe = false)
      (due : (noteAssociated h nowMs associated).nextProbeMs ≤ nowMs) :
      TickMoved h nowMs associated (.due (noteAssociated h nowMs associated))

theorem tickMove_moved (h : LeNetworkHealth) (nowMs : Int) (associated : Bool) :
    TickMoved h nowMs associated (tickMove h nowMs associated) := by
  unfold tickMove
  split
  case isTrue => exact .rests
  case isFalse =>
    split
    case isTrue at_phase =>
      split
      case isTrue => exact .rests
      case isFalse later => exact .raises at_phase (Int.not_lt.mp later)
    case isFalse no_wait =>
      split
      case isTrue => exact .forgets
      case isFalse linked =>
        dsimp only
        split
        case isTrue => exact .notes no_wait
        case isFalse free =>
          obtain ⟨idle, due⟩ := not_or.mp free
          refine .finds no_wait ?_ (Bool.eq_false_iff.mpr idle) (Int.not_lt.mp due)
          by_cases first : h.phase = .reassociating
          · exact .inl first
          · by_cases second : h.phase = .interfaceRecovering
            · exact .inr (.inl second)
            · cases associated with
              | true => exact .inr (.inr rfl)
              | false => exact absurd ⟨first, second, rfl⟩ linked

def routelessResult (h : LeNetworkHealth) : LeGatewayProbeResult :=
  if h.healthySeen then .unreachable else .unavailable

def leNetworkHealthTick (h : LeNetworkHealth) (nowMs : Int)
    (associated gatewayRouteAvailable : Bool) : LeNetworkHealthAction × LeNetworkHealth :=
  match tickMove h nowMs associated with
  | .answers action h => (action, h)
  | .due h =>
      if gatewayRouteAvailable then (.probe, { h with awaitingProbe := true })
      else leNetworkHealthRecordProbe h nowMs (routelessResult h)

def leNetworkHealthFinishRebootRequest (h : LeNetworkHealth) (submitted : Bool) :
    LeNetworkHealth :=
  if h.phase ≠ .rebootPending then h
  else { h with phase := if submitted then .rebootRequested else .exhausted }

end LibreEcho.Network

/-!
The health check of networkd (adapter/networkd.c) over the gateway-liveness
policy: what the main loop, a probe's socket and a command that starts over do to
it. What the check reads of the rest of the daemon is an argument, so every order
of commands, events and completions is covered.
-/
namespace LibreEcho.Network

def leGatewayProbeTimeoutMs : Int := 2000

structure LeGatewayProbe where
  active : Bool := false
  deadlineMs : Int := 0
deriving DecidableEq, Repr

def leGatewayProbeTimedOut (probe : LeGatewayProbe) (nowMs : Int) : Bool :=
  probe.active && decide (probe.deadlineMs ≤ nowMs)

/-- The part of `struct daemon_ctx` the health check owns, with the recovery
actions carried out, newest first. -/
structure HealthLoop where
  health : LeNetworkHealth
  gatewayProbe : LeGatewayProbe
  performed : List (LeNetworkHealthAction × Int)
deriving DecidableEq, Repr

structure HealthInputs where
  /-- The state is connected, with an SSID and a link. -/
  associated : Bool
  dhcpActive : Bool
  scanActive : Bool
  hasIp : Bool
  hasGateway : Bool
  /-- A probe can be sent, if one is asked for. -/
  probeStarts : Bool
  /-- The guard is reserved and the reboot request written, if one is asked for. -/
  rebootSubmitted : Bool
deriving DecidableEq, Repr

/-- The association cannot be judged: an address is being asked for, a scan has
the radio, or there is no address. -/
def HealthInputs.unsettled (i : HealthInputs) : Bool :=
  i.associated && (i.dhcpActive || i.scanActive || !i.hasIp)

/-- What `poll` and `recv` say about the probe's socket. -/
structure ProbeEvent where
  pollIn : Bool
  /-- Positive for a matching reply, negative for an error. -/
  received : Int
  hangup : Bool
  rebootSubmitted : Bool
deriving DecidableEq, Repr

namespace HealthLoop

def closeProbe (c : HealthLoop) : HealthLoop := { c with gatewayProbe := {} }

def performHealthAction (submitted : Bool) (nowMs : Int) (action : LeNetworkHealthAction)
    (c : HealthLoop) : HealthLoop :=
  match action with
  | .none | .probe => c
  | .requestReboot =>
      { c with
        health := leNetworkHealthFinishRebootRequest c.health submitted
        performed := (action, nowMs) :: c.performed }
  | _ => { c with performed := (action, nowMs) :: c.performed }

def recordGatewayProbe (submitted : Bool) (nowMs : Int) (result : LeGatewayProbeResult)
    (c : HealthLoop) : HealthLoop :=
  let answer := leNetworkHealthRecordProbe c.health nowMs result
  performHealthAction submitted nowMs answer.1 { c with health := answer.2 }

def handleGatewayProbeEvent (event : ProbeEvent) (nowMs : Int) (c : HealthLoop) : HealthLoop :=
  if c.gatewayProbe.active = false then c
  else if event.pollIn ∧ 0 < event.received then
    recordGatewayProbe event.rebootSubmitted nowMs .reachable c.closeProbe
  else if event.pollIn ∧ event.received < 0 then
    recordGatewayProbe event.rebootSubmitted nowMs .unavailable c.closeProbe
  else if event.hangup then
    recordGatewayProbe event.rebootSubmitted nowMs .unavailable c.closeProbe
  else c

/-- A probe that is asked for is sent, or recorded as one that could not be. -/
def startProbe (i : HealthInputs) (nowMs : Int) (c : HealthLoop) : HealthLoop :=
  if i.hasGateway = false then recordGatewayProbe i.rebootSubmitted nowMs .unreachable c
  else if i.probeStarts = false then
    recordGatewayProbe i.rebootSubmitted nowMs .unavailable c.closeProbe
  else
    { c with gatewayProbe := { active := true, deadlineMs := nowMs + leGatewayProbeTimeoutMs } }

def checkNetworkHealth (i : HealthInputs) (nowMs : Int) (c : HealthLoop) : HealthLoop :=
  if i.unsettled then
    recordGatewayProbe i.rebootSubmitted nowMs .unavailable c.closeProbe
  else if leGatewayProbeTimedOut c.gatewayProbe nowMs then
    recordGatewayProbe i.rebootSubmitted nowMs .unreachable c.closeProbe
  else
    let answer := leNetworkHealthTick c.health nowMs i.associated i.hasGateway
    if answer.1 = .probe then startProbe i nowMs { c with health := answer.2 }
    else performHealthAction i.rebootSubmitted nowMs answer.1 { c with health := answer.2 }

/-- What a dispatched disconnect and a completed association do. -/
def resetNetworkHealth (nowMs : Int) (c : HealthLoop) : HealthLoop :=
  { c.closeProbe with health := leNetworkHealthInit none nowMs }

def init (nowMs : Int) : HealthLoop where
  health := leNetworkHealthInit none nowMs
  gatewayProbe := {}
  performed := []

end HealthLoop

end LibreEcho.Network
