import LibreEcho.Lib.Runs
import LibreEcho.Network.Health

/-!
Runs of the gateway-liveness policy.

The order of the recovery actions holds in every run. Their distances need more:
a result that says a probe could not be made sets the next probe one interval
ahead, also inside a grace period that has longer to run.
-/
namespace LibreEcho.Network

inductive LadderEvent where
  | result (result : LeGatewayProbeResult) (timeMs : Int)
  | action (action : LeNetworkHealthAction) (timeMs : Int)
deriving DecidableEq, Repr

/-- The policy with the history of its run, newest events first. -/
structure Ladder where
  health : LeNetworkHealth
  /-- A PROBE was answered and its result has not come back. -/
  outstanding : Bool
  log : List LadderEvent
  lastMs : Int
deriving DecidableEq, Repr

inductive LadderOp where
  | tick (nowMs : Int) (associated gatewayRouteAvailable : Bool)
  | recordProbe (nowMs : Int) (result : LeGatewayProbeResult)
  | finishRebootRequest (submitted : Bool)
deriving DecidableEq, Repr

def Ladder.init (config : Option LeNetworkHealthConfig) (nowMs : Int) : Ladder where
  health := leNetworkHealthInit config nowMs
  outstanding := false
  log := []
  lastMs := nowMs

/-- The recovery actions are logged, the answers NONE and PROBE are not. -/
def logged (log : List LadderEvent) (action : LeNetworkHealthAction) (nowMs : Int) :
    List LadderEvent :=
  if action = .none ∨ action = .probe then log else .action action nowMs :: log

def tickLog (log : List LadderEvent) (nowMs : Int) (gatewayRouteAvailable : Bool) :
    TickMove → List LadderEvent
  | .answers _ _ => log
  | .due h => if gatewayRouteAvailable then log else .result (routelessResult h) nowMs :: log

def Ladder.step (w : Ladder) : LadderOp → Ladder
  | .tick nowMs associated route =>
      let answer := leNetworkHealthTick w.health nowMs associated route
      { health := answer.2
        outstanding := w.outstanding ∨ answer.1 = .probe
        log := logged (tickLog w.log nowMs route (tickMove w.health nowMs associated)) answer.1 nowMs
        lastMs := nowMs }
  | .recordProbe nowMs result =>
      let answer := leNetworkHealthRecordProbe w.health nowMs result
      { health := answer.2
        outstanding := false
        log := logged (.result result nowMs :: w.log) answer.1 nowMs
        lastMs := nowMs }
  | .finishRebootRequest submitted =>
      { w with health := leNetworkHealthFinishRebootRequest w.health submitted }

abbrev Ladder.run : Ladder → List LadderOp → Ladder :=
  Runs.run Ladder.step

/-- Time does not run backwards, and only a probe that was asked for succeeds or fails. -/
def Asked (w : Ladder) : LadderOp → Prop
  | .tick nowMs _ _ => w.lastMs ≤ nowMs
  | .recordProbe nowMs result => w.lastMs ≤ nowMs ∧ (result ≠ .unavailable → w.outstanding)
  | .finishRebootRequest _ => True

instance (w : Ladder) : ∀ op, Decidable (Asked w op)
  | .tick _ _ _ => inferInstanceAs (Decidable (_ ≤ _))
  | .recordProbe _ _ => inferInstanceAs (Decidable (_ ∧ _))
  | .finishRebootRequest _ => inferInstanceAs (Decidable True)

/-- The grace periods in which the next probe waits for an action to take effect. -/
def Grace (h : LeNetworkHealth) : Prop :=
  h.phase = .reassociating ∨ h.phase = .interfaceRecovering

instance (h : LeNetworkHealth) : Decidable (Grace h) :=
  inferInstanceAs (Decidable (_ ∨ _))

/-- A probe that could not be made does not bring the next one forward in a grace period. -/
def Patient (w : Ladder) : LadderOp → Prop
  | .recordProbe nowMs .unavailable =>
      Grace w.health → w.health.nextProbeMs ≤ nowMs + w.health.config.probeIntervalMs
  | _ => True

instance (w : Ladder) : ∀ op, Decidable (Patient w op)
  | .recordProbe _ .unavailable => inferInstanceAs (Decidable (_ → _))
  | .recordProbe _ .unreachable => inferInstanceAs (Decidable True)
  | .recordProbe _ .reachable => inferInstanceAs (Decidable True)
  | .tick _ _ _ => inferInstanceAs (Decidable True)
  | .finishRebootRequest _ => inferInstanceAs (Decidable True)

/-! ### Reading the history -/

def LadderEvent.isReachable : LadderEvent → Bool
  | .result .reachable _ => true
  | _ => false

def LadderEvent.isFailed : LadderEvent → Bool
  | .result .unreachable _ => true
  | _ => false

def LadderEvent.action? : LadderEvent → Option (LeNetworkHealthAction × Int)
  | .action a timeMs => some (a, timeMs)
  | .result _ _ => none

/-- The actions since the most recent reachable probe, newest first. -/
def rungs (log : List LadderEvent) : List (LeNetworkHealthAction × Int) :=
  (log.takeWhile fun e => !e.isReachable).filterMap LadderEvent.action?

def streak (log : List LadderEvent) : Nat :=
  (log.takeWhile LadderEvent.isFailed).length

def SawHealthy (log : List LadderEvent) : Prop :=
  ∃ e ∈ log, e.isReachable

/-- The three actions before a reboot request, in this order and once each. -/
def InOrder (older : List LadderEvent) : Prop :=
  SawHealthy older ∧
    (rungs older).map Prod.fst = [.interfaceUp, .interfaceDown, .reassociate]

/-- Each of the three actions before a reboot request at `timeMs` had its time. -/
def Unhurried (config : LeNetworkHealthConfig) (older : List LadderEvent) (timeMs : Int) : Prop :=
  ∀ reassociateMs downMs upMs,
    rungs older = [(.interfaceUp, upMs), (.interfaceDown, downMs), (.reassociate, reassociateMs)] →
      reassociateMs + config.reassociateGraceMs ≤ downMs ∧
        downMs + config.interfaceDownMs ≤ upMs ∧ upMs + config.interfaceGraceMs ≤ timeMs

def Warranted (config : LeNetworkHealthConfig) (older : List LadderEvent) : Prop :=
  SawHealthy older ∧ config.failureThreshold ≤ streak older

/-- Every reboot request and every reassociation of the history had what it needs before it. -/
structure Climbed (config : LeNetworkHealthConfig) (log : List LadderEvent) : Prop where
  ordered : ∀ older timeMs, .action .requestReboot timeMs :: older <:+ log → InOrder older
  warranted : ∀ older timeMs, .action .reassociate timeMs :: older <:+ log →
    Warranted config older
  /-- Between two reboot requests there is a reachable probe. -/
  apart : ∀ between older laterMs earlierMs,
    .action .requestReboot laterMs :: (between ++ .action .requestReboot earlierMs :: older) <:+
      log → SawHealthy between

def Spaced (config : LeNetworkHealthConfig) (log : List LadderEvent) : Prop :=
  ∀ older timeMs, .action .requestReboot timeMs :: older <:+ log → Unhurried config older timeMs

@[simp] theorem rungs_action (a : LeNetworkHealthAction) (timeMs : Int) (log : List LadderEvent) :
    rungs (.action a timeMs :: log) = (a, timeMs) :: rungs log := rfl

@[simp] theorem rungs_reachable (timeMs : Int) (log : List LadderEvent) :
    rungs (.result .reachable timeMs :: log) = [] := rfl

@[simp] theorem rungs_unreachable (timeMs : Int) (log : List LadderEvent) :
    rungs (.result .unreachable timeMs :: log) = rungs log := rfl

@[simp] theorem rungs_unavailable (timeMs : Int) (log : List LadderEvent) :
    rungs (.result .unavailable timeMs :: log) = rungs log := rfl

@[simp] theorem streak_unreachable (timeMs : Int) (log : List LadderEvent) :
    streak (.result .unreachable timeMs :: log) = streak log + 1 := rfl

theorem SawHealthy.cons {log : List LadderEvent} (h : SawHealthy log) (e : LadderEvent) :
    SawHealthy (e :: log) := by
  obtain ⟨healthy, among, reachable⟩ := h
  exact ⟨healthy, List.mem_cons_of_mem e among, reachable⟩

theorem sawHealthy_reachable (timeMs : Int) (log : List LadderEvent) :
    SawHealthy (.result .reachable timeMs :: log) :=
  ⟨_, List.mem_cons_self, rfl⟩

theorem mem_rungs_append {between : List LadderEvent} (never : ¬SawHealthy between)
    (a : LeNetworkHealthAction) (timeMs : Int) (older : List LadderEvent) :
    (a, timeMs) ∈ rungs (between ++ .action a timeMs :: older) := by
  induction between with
  | nil => exact List.mem_cons_self
  | cons e rest ih =>
      have rest_never : ¬SawHealthy rest := fun h => never (h.cons e)
      have plain : e.isReachable = false := by
        cases found : e.isReachable with
        | false => rfl
        | true => exact absurd ⟨e, List.mem_cons_self, found⟩ never
      have among := ih rest_never
      cases e with
      | action a timeMs => exact List.mem_cons_of_mem _ among
      | result result timeMs =>
          cases result with
          | unavailable | unreachable => exact among
          | reachable => cases plain

theorem InOrder.apart {between older : List LadderEvent} {timeMs : Int}
    (h : InOrder (between ++ .action .requestReboot timeMs :: older)) : SawHealthy between := by
  by_contra never
  have among : LeNetworkHealthAction.requestReboot ∈
      (rungs (between ++ .action .requestReboot timeMs :: older)).map Prod.fst :=
    List.mem_map.mpr ⟨_, mem_rungs_append never .requestReboot timeMs older, rfl⟩
  rw [h.2] at among
  simp at among

section history
variable {config : LeNetworkHealthConfig} {log : List LadderEvent}

theorem climbed_nil (config : LeNetworkHealthConfig) : Climbed config [] where
  ordered _ _ h := by cases List.eq_nil_of_suffix_nil h
  warranted _ _ h := by cases List.eq_nil_of_suffix_nil h
  apart _ _ _ _ h := by cases List.eq_nil_of_suffix_nil h

theorem spaced_nil (config : LeNetworkHealthConfig) : Spaced config [] := by
  intro _ _ h
  cases List.eq_nil_of_suffix_nil h

theorem Climbed.cons (h : Climbed config log) (e : LadderEvent)
    (order : ∀ timeMs, e = .action .requestReboot timeMs → InOrder log)
    (warrant : ∀ timeMs, e = .action .reassociate timeMs → Warranted config log) :
    Climbed config (e :: log) where
  ordered older timeMs suffix := by
    rcases List.suffix_cons_iff.mp suffix with same | inner
    · obtain ⟨rfl, rfl⟩ := List.cons.inj same
      exact order timeMs rfl
    · exact h.ordered older timeMs inner
  warranted older timeMs suffix := by
    rcases List.suffix_cons_iff.mp suffix with same | inner
    · obtain ⟨rfl, rfl⟩ := List.cons.inj same
      exact warrant timeMs rfl
    · exact h.warranted older timeMs inner
  apart between older laterMs earlierMs suffix := by
    rcases List.suffix_cons_iff.mp suffix with same | inner
    · obtain ⟨rfl, rfl⟩ := List.cons.inj same
      exact (order laterMs rfl).apart
    · exact h.apart between older laterMs earlierMs inner

theorem Climbed.result (h : Climbed config log) (r : LeGatewayProbeResult) (timeMs : Int) :
    Climbed config (.result r timeMs :: log) :=
  h.cons _ (fun _ e => by cases e) (fun _ e => by cases e)

theorem Spaced.cons (h : Spaced config log) (e : LadderEvent)
    (unhurried : ∀ timeMs, e = .action .requestReboot timeMs → Unhurried config log timeMs) :
    Spaced config (e :: log) := by
  intro older timeMs suffix
  rcases List.suffix_cons_iff.mp suffix with same | inner
  · obtain ⟨rfl, rfl⟩ := List.cons.inj same
    exact unhurried timeMs rfl
  · exact h older timeMs inner

theorem Spaced.result (h : Spaced config log) (r : LeGatewayProbeResult) (timeMs : Int) :
    Spaced config (.result r timeMs :: log) :=
  h.cons _ fun _ e => by cases e

end history

end LibreEcho.Network

/-!
The rungs of the recovery ladder, one phase after the other.

The phase tells which actions were taken since the last reachable probe. Their
times are kept beside them under a condition `paced`, so the order and the
distances come from one invariant.
-/
namespace LibreEcho.Network

/-- What the phase says about the actions since the last reachable probe. -/
def Stage (paced : Prop) (h : LeNetworkHealth) (taken : List (LeNetworkHealthAction × Int)) :
    Prop :=
  match h.phase with
  | .idle => h.healthySeen → taken = []
  | .reassociating =>
      (h.healthySeen ∧ h.associated) ∧
        ∃ reassociateMs, taken = [(.reassociate, reassociateMs)] ∧
          (paced → reassociateMs + h.config.reassociateGraceMs ≤ h.nextProbeMs)
  | .interfaceDownWait =>
      (h.healthySeen ∧ h.associated) ∧
        ∃ reassociateMs downMs,
          taken = [(.interfaceDown, downMs), (.reassociate, reassociateMs)] ∧
            (paced → reassociateMs + h.config.reassociateGraceMs ≤ downMs ∧
              downMs + h.config.interfaceDownMs ≤ h.transitionDeadlineMs)
  | .interfaceRecovering =>
      (h.healthySeen ∧ h.associated) ∧
        ∃ reassociateMs downMs upMs,
          taken = [(.interfaceUp, upMs), (.interfaceDown, downMs),
            (.reassociate, reassociateMs)] ∧
            (paced → reassociateMs + h.config.reassociateGraceMs ≤ downMs ∧
              downMs + h.config.interfaceDownMs ≤ upMs ∧
                upMs + h.config.interfaceGraceMs ≤ h.nextProbeMs)
  | .rebootPending | .rebootRequested | .exhausted => True

structure Climbing (paced : Prop) (w : Ladder) : Prop where
  stage : Stage paced w.health (rungs w.log)
  seen : w.health.healthySeen → SawHealthy w.log
  counted : w.health.phase = .idle → w.health.consecutiveFailures ≤ streak w.log
  asked : w.outstanding → w.health.healthySeen →
    w.health.awaitingProbe ∧ w.health.associated
  ripe : w.outstanding → Grace w.health → w.health.nextProbeMs ≤ w.lastMs
  still : w.health.phase = .interfaceDownWait → w.outstanding = false
  climbed : Climbed w.health.config w.log
  spaced : paced → Spaced w.health.config w.log

section steps
variable {paced : Prop} {w : Ladder}

theorem Stage.known {h : LeNetworkHealth} {taken : List (LeNetworkHealthAction × Int)}
    (stage : Stage paced h taken) (grace : Grace h) : h.healthySeen ∧ h.associated := by
  rcases grace with at_phase | at_phase <;>
  · simp only [Stage, at_phase] at stage
    exact stage.1

theorem Climbing.init (paced : Prop) (config : Option LeNetworkHealthConfig) (nowMs : Int) :
    Climbing paced (Ladder.init config nowMs) where
  stage := fun _ => rfl
  seen h := by cases h
  counted _ := Int.le_refl 0
  asked h := by cases h
  ripe h := by cases h
  still _ := rfl
  climbed := climbed_nil _
  spaced _ := spaced_nil _

theorem Climbing.later (c : Climbing paced w) {nowMs : Int} (later : w.lastMs ≤ nowMs) :
    Climbing paced { w with lastMs := nowMs } :=
  { c with ripe := fun out grace => Int.le_trans (c.ripe out grace) later }

theorem Climbing.note (c : Climbing paced w) (associated : Bool)
    (calm : w.health.phase ≠ .interfaceDownWait) :
    Climbing paced { w with health := noteAssociated w.health w.lastMs associated } := by
  rw [noteAssociated]
  split
  case isFalse => exact c
  case isTrue fresh =>
    have no_grace : ¬Grace w.health := fun grace => by
      have known := (c.stage.known grace).2
      rw [fresh.2] at known
      cases known
    refine { c with stage := ?_, asked := ?_, ripe := ?_ }
    · have stage := c.stage
      unfold Stage at stage ⊢
      rcases phase : w.health.phase with _ | _ | _ | _ | _ | _ | _
      all_goals simp only [phase] at stage ⊢
      case idle => exact stage
      case reassociating => exact absurd (.inl phase) no_grace
      case interfaceDownWait => exact absurd phase calm
      case interfaceRecovering => exact absurd (.inr phase) no_grace
    · intro out healthy
      exact ⟨(c.asked out healthy).1, rfl⟩
    · intro _ grace
      exact absurd grace no_grace

theorem Climbing.probe (c : Climbing paced w) (due : w.health.nextProbeMs ≤ w.lastMs)
    (associated : w.health.associated) (calm : w.health.phase ≠ .interfaceDownWait) :
    Climbing paced
      { w with health := { w.health with awaitingProbe := true }, outstanding := true } :=
  { c with
    asked := fun _ _ => ⟨rfl, associated⟩
    ripe := fun _ _ => due
    still := fun at_phase => absurd at_phase calm }

theorem Climbing.disconnected (c : Climbing paced w) (nowMs : Int) :
    Climbing paced { w with health := markDisconnected w.health nowMs } :=
  { c with
    stage := fun healthy => by cases healthy
    seen := fun healthy => by cases healthy
    counted := fun _ => Int.natCast_nonneg _
    asked := fun _ healthy => by cases healthy
    ripe := fun _ grace => by rcases grace with at_phase | at_phase <;> cases at_phase
    still := fun at_phase => by cases at_phase }

theorem Climbing.raised (c : Climbing paced w) (at_phase : w.health.phase = .interfaceDownWait)
    (due : w.health.transitionDeadlineMs ≤ w.lastMs) :
    Climbing paced
      { w with
        health :=
          { w.health with
            phase := .interfaceRecovering
            nextProbeMs := w.lastMs + w.health.config.interfaceGraceMs }
        log := .action .interfaceUp w.lastMs :: w.log } := by
  have stage := c.stage
  simp only [Stage, at_phase] at stage
  obtain ⟨known, reassociateMs, downMs, taken, distances⟩ := stage
  refine { c with
    stage := ⟨known, reassociateMs, downMs, w.lastMs, ?_, ?_⟩
    seen := fun healthy => (c.seen healthy).cons _
    counted := fun idle => by cases idle
    ripe := ?_
    still := fun wait => by cases wait
    climbed := c.climbed.cons _ (fun _ e => by cases e) (fun _ e => by cases e)
    spaced := fun pace => (c.spaced pace).cons _ fun _ e => by cases e }
  · rw [rungs_action, taken]
  · intro pace
    obtain ⟨first, second⟩ := distances pace
    exact ⟨first, Int.le_trans second due, Int.le_refl _⟩
  · intro out
    rw [c.still at_phase] at out
    cases out

/-! ### Results -/

theorem Climbing.reachable (c : Climbing paced w) :
    Climbing paced
      { w with
        health := recordReachable w.health w.lastMs
        outstanding := false
        log := .result .reachable w.lastMs :: w.log } where
  stage _ := rfl
  seen _ := sawHealthy_reachable _ _
  counted _ := Int.natCast_nonneg _
  asked out := by cases out
  ripe out := by cases out
  still _ := rfl
  climbed := c.climbed.result _ _
  spaced pace := (c.spaced pace).result _ _

theorem Climbing.unavailable (c : Climbing paced w)
    (patient : paced → Grace w.health →
      w.health.nextProbeMs ≤ w.lastMs + w.health.config.probeIntervalMs) (out : Bool)
    (unseen : out → w.health.healthySeen = false) :
    Climbing paced
      { w with
        health := recordUnavailable w.health w.lastMs
        outstanding := out
        log := .result .unavailable w.lastMs :: w.log } where
  stage := by
    have stage := c.stage
    unfold Stage at stage ⊢
    simp only [recordUnavailable, rungs_unavailable]
    rcases phase : w.health.phase with _ | _ | _ | _ | _ | _ | _
    all_goals simp only [phase] at stage ⊢
    case idle => exact stage
    case reassociating =>
      obtain ⟨known, reassociateMs, taken, distance⟩ := stage
      refine ⟨known, reassociateMs, taken, fun pace => ?_⟩
      exact Int.le_trans (distance pace) (patient pace (.inl phase))
    case interfaceDownWait => exact stage
    case interfaceRecovering =>
      obtain ⟨known, reassociateMs, downMs, upMs, taken, distances⟩ := stage
      refine ⟨known, reassociateMs, downMs, upMs, taken, fun pace => ?_⟩
      obtain ⟨first, second, third⟩ := distances pace
      exact ⟨first, second, Int.le_trans third (patient pace (.inr phase))⟩
  seen healthy := (c.seen healthy).cons _
  counted _ := Int.natCast_nonneg _
  asked asked healthy := by
    have never := unseen asked
    rw [show w.health.healthySeen = true from healthy] at never
    cases never
  ripe asked grace := by
    have never := unseen asked
    rw [(c.stage.known grace).1] at never
    cases never
  still at_phase := by
    cases asked : out with
    | false => rfl
    | true =>
        have stage := c.stage
        simp only [Stage, show w.health.phase = .interfaceDownWait from at_phase] at stage
        rw [stage.1.1] at unseen
        cases unseen asked
  climbed := c.climbed.result _ _
  spaced pace := (c.spaced pace).result _ _

theorem countFailure_le (h : LeNetworkHealth) (nowMs : Int) :
    (countFailure h nowMs).consecutiveFailures ≤ h.consecutiveFailures + 1 := by
  simp only [countFailure]
  split <;> omega

theorem Climbing.failed_streak (c : Climbing paced w) (idle : w.health.phase = .idle) :
    (countFailure w.health w.lastMs).consecutiveFailures ≤
      streak (.result .unreachable w.lastMs :: w.log) := by
  have counted := c.counted idle
  have more := countFailure_le w.health w.lastMs
  rw [streak_unreachable]
  omega

theorem Climbing.counted_failure (c : Climbing paced w) (no_grace : ¬Grace w.health) :
    Climbing paced
      { w with
        health := countFailure w.health w.lastMs
        outstanding := false
        log := .result .unreachable w.lastMs :: w.log } where
  stage := by
    have stage := c.stage
    unfold Stage at stage ⊢
    simp only [countFailure, rungs_unreachable]
    rcases phase : w.health.phase with _ | _ | _ | _ | _ | _ | _
    all_goals simp only [phase] at stage ⊢
    case idle => exact stage
    case reassociating => exact absurd (.inl phase) no_grace
    case interfaceDownWait => exact stage
    case interfaceRecovering => exact absurd (.inr phase) no_grace
  seen healthy := (c.seen healthy).cons _
  counted idle := c.failed_streak idle
  asked out := by cases out
  ripe out := by cases out
  still _ := rfl
  climbed := c.climbed.result _ _
  spaced pace := (c.spaced pace).result _ _

theorem Climbing.reassociate (c : Climbing paced w)
    (known : w.health.healthySeen → w.health.associated)
    (reached : thresholdReached (countFailure w.health w.lastMs)) :
    Climbing paced
      { w with
        health :=
          { countFailure w.health w.lastMs with
            phase := .reassociating
            nextProbeMs := w.lastMs + w.health.config.reassociateGraceMs }
        outstanding := false
        log := .action .reassociate w.lastMs :: .result .unreachable w.lastMs :: w.log } := by
  obtain ⟨idle, healthy, enough⟩ := reached
  have none_taken : rungs w.log = [] := by
    have stage := c.stage
    simp only [Stage, show w.health.phase = .idle from idle] at stage
    exact stage healthy
  have saw : SawHealthy (.result .unreachable w.lastMs :: w.log) := (c.seen healthy).cons _
  constructor
  case stage =>
    refine ⟨⟨healthy, known healthy⟩, w.lastMs, ?_, fun _ => Int.le_refl _⟩
    rw [rungs_action, rungs_unreachable, none_taken]
  case seen => exact fun _ => saw.cons _
  case counted => exact fun h => by cases h
  case asked => exact fun out => by cases out
  case ripe => exact fun out => by cases out
  case still => exact fun _ => rfl
  case climbed =>
    refine (c.climbed.result _ _).cons _ (fun _ e => by cases e) fun _ _ => ⟨saw, ?_⟩
    exact Int.le_trans enough (c.failed_streak idle)
  case spaced => exact fun pace => ((c.spaced pace).result _ _).cons _ fun _ e => by cases e

theorem Climbing.lowered (c : Climbing paced w) (at_phase : w.health.phase = .reassociating)
    (due : w.health.nextProbeMs ≤ w.lastMs) :
    Climbing paced
      { w with
        health :=
          { countFailure w.health w.lastMs with
            phase := .interfaceDownWait
            transitionDeadlineMs := w.lastMs + w.health.config.interfaceDownMs }
        outstanding := false
        log := .action .interfaceDown w.lastMs :: .result .unreachable w.lastMs :: w.log } := by
  have stage := c.stage
  simp only [Stage, at_phase] at stage
  obtain ⟨known, reassociateMs, taken, distance⟩ := stage
  constructor
  case stage =>
    refine ⟨known, reassociateMs, w.lastMs, ?_, fun pace => ⟨?_, Int.le_refl _⟩⟩
    · rw [rungs_action, rungs_unreachable, taken]
    · exact Int.le_trans (distance pace) due
  case seen => exact fun healthy => ((c.seen healthy).cons _).cons _
  case counted => exact fun h => by cases h
  case asked => exact fun out => by cases out
  case ripe => exact fun out => by cases out
  case still => exact fun _ => rfl
  case climbed =>
    exact (c.climbed.result _ _).cons _ (fun _ e => by cases e) (fun _ e => by cases e)
  case spaced => exact fun pace => ((c.spaced pace).result _ _).cons _ fun _ e => by cases e

theorem Climbing.rebooted (c : Climbing paced w) (at_phase : w.health.phase = .interfaceRecovering)
    (due : w.health.nextProbeMs ≤ w.lastMs) :
    Climbing paced
      { w with
        health :=
          { countFailure w.health w.lastMs with phase := .rebootPending, nextProbeMs := 0 }
        outstanding := false
        log := .action .requestReboot w.lastMs :: .result .unreachable w.lastMs :: w.log } := by
  have stage := c.stage
  simp only [Stage, at_phase] at stage
  obtain ⟨known, reassociateMs, downMs, upMs, taken, distances⟩ := stage
  have saw : SawHealthy (.result .unreachable w.lastMs :: w.log) := (c.seen known.1).cons _
  constructor
  case stage => trivial
  case seen => exact fun _ => saw.cons _
  case counted => exact fun h => by cases h
  case asked => exact fun out => by cases out
  case ripe => exact fun out => by cases out
  case still => exact fun _ => rfl
  case climbed =>
    refine (c.climbed.result _ _).cons _ (fun _ _ => ⟨saw, ?_⟩) (fun _ e => by cases e)
    rw [rungs_unreachable, taken]
    rfl
  case spaced =>
    refine fun pace => ((c.spaced pace).result _ _).cons _ fun timeMs e => ?_
    cases e
    intro reassociateMs' downMs' upMs' same
    rw [rungs_unreachable, taken] at same
    cases same
    obtain ⟨first, second, third⟩ := distances pace
    exact ⟨first, second, Int.le_trans third due⟩

theorem Climbing.failed (c : Climbing paced w)
    (known : w.health.healthySeen → w.health.associated)
    (ripe : Grace w.health → w.health.nextProbeMs ≤ w.lastMs) :
    Climbing paced
      { w with
        health := (leNetworkHealthRecordProbe w.health w.lastMs .unreachable).2
        outstanding := false
        log := logged (.result .unreachable w.lastMs :: w.log)
          (leNetworkHealthRecordProbe w.health w.lastMs .unreachable).1 w.lastMs } := by
  simp only [leNetworkHealthRecordProbe, escalate]
  split
  case isTrue reached => exact c.reassociate known reached
  split
  case isTrue at_phase => exact c.lowered at_phase (ripe (.inl at_phase))
  case isFalse not_first =>
    split
    case isTrue at_phase => exact c.rebooted at_phase (ripe (.inr at_phase))
    case isFalse not_second =>
      refine c.counted_failure fun grace => ?_
      rcases grace with at_phase | at_phase
      · exact not_first at_phase
      · exact not_second at_phase

/-! ### One step of the run -/

theorem Climbing.roadless (c : Climbing paced w) (idle : w.health.awaitingProbe = false)
    (due : w.health.nextProbeMs ≤ w.lastMs)
    (associated : w.health.associated) :
    Climbing paced
      { w with
        health := (leNetworkHealthRecordProbe w.health w.lastMs (routelessResult w.health)).2
        log := logged (.result (routelessResult w.health) w.lastMs :: w.log)
          (leNetworkHealthRecordProbe w.health w.lastMs (routelessResult w.health)).1 w.lastMs } := by
  cases healthy : w.health.healthySeen with
  | false =>
      rw [routelessResult, if_neg (by simp [healthy])]
      refine c.unavailable (fun _ grace => ?_) w.outstanding fun _ => healthy
      have known := (c.stage.known grace).1
      rw [healthy] at known
      cases known
  | true =>
      rw [routelessResult, if_pos healthy]
      have none_out : w.outstanding = false := by
        cases out : w.outstanding with
        | false => rfl
        | true =>
            have awaiting := (c.asked out healthy).1
            rw [idle] at awaiting
            cases awaiting
      rw [none_out]
      exact c.failed (fun _ => associated) fun _ => due

theorem Climbing.linked (c : Climbing paced w) {associated : Bool}
    (link : w.health.phase = .reassociating ∨ w.health.phase = .interfaceRecovering ∨
      associated = true) :
    (noteAssociated w.health w.lastMs associated).associated = true := by
  unfold noteAssociated
  split
  case isTrue => rfl
  case isFalse kept =>
    rcases link with at_phase | at_phase | rfl
    · exact (c.stage.known (.inl at_phase)).2
    · exact (c.stage.known (.inr at_phase)).2
    · exact Bool.not_eq_false _ ▸ not_and.mp kept rfl

theorem Climbing.ticked (c : Climbing paced w) (associated route : Bool) :
    Climbing paced
      { health := (leNetworkHealthTick w.health w.lastMs associated route).2
        outstanding :=
          w.outstanding ∨ (leNetworkHealthTick w.health w.lastMs associated route).1 = .probe
        log := logged (tickLog w.log w.lastMs route (tickMove w.health w.lastMs associated))
          (leNetworkHealthTick w.health w.lastMs associated route).1 w.lastMs
        lastMs := w.lastMs } := by
  unfold leNetworkHealthTick
  have moved := tickMove_moved w.health w.lastMs associated
  generalize tickMove w.health w.lastMs associated = move at moved ⊢
  cases moved with
  | rests => simpa [tickLog, logged] using c
  | raises at_phase due => simpa [tickLog, logged] using c.raised at_phase due
  | forgets => simpa [tickLog, logged] using c.disconnected w.lastMs
  | notes no_wait => simpa [tickLog, logged] using c.note associated no_wait
  | finds no_wait link idle due =>
      have noted := c.note associated no_wait
      have up := c.linked link
      cases route with
      | true =>
          have calm := (noteAssociated_phase w.health w.lastMs associated).symm ▸ no_wait
          simpa [tickLog, logged] using noted.probe due up calm
      | false =>
          have settled := noted.roadless idle due up
          simpa [tickLog, recordProbe_not_probe] using settled

theorem Climbing.recorded (c : Climbing paced w) (result : LeGatewayProbeResult)
    (asked : result ≠ .unavailable → w.outstanding)
    (patient : paced → Patient w (.recordProbe w.lastMs result)) :
    Climbing paced
      { w with
        health := (leNetworkHealthRecordProbe w.health w.lastMs result).2
        outstanding := false
        log := logged (.result result w.lastMs :: w.log)
          (leNetworkHealthRecordProbe w.health w.lastMs result).1 w.lastMs } := by
  cases result with
  | unavailable => exact c.unavailable patient false fun out => by cases out
  | reachable => exact c.reachable
  | unreachable =>
      have out := asked (by simp)
      exact c.failed (fun healthy => (c.asked out healthy).2) (c.ripe out)

theorem Climbing.finished (c : Climbing paced w) (submitted : Bool) :
    Climbing paced
      { w with health := leNetworkHealthFinishRebootRequest w.health submitted } := by
  rw [leNetworkHealthFinishRebootRequest]
  split
  case isTrue => exact c
  case isFalse pending =>
    cases submitted with
    | true | false =>
      exact { c with
        stage := trivial
        counted := fun idle => by cases idle
        ripe := fun _ grace => by rcases grace with at_phase | at_phase <;> cases at_phase
        still := fun at_phase => by cases at_phase }

theorem Climbing.step (c : Climbing paced w) {op : LadderOp} (asked : Asked w op)
    (patient : paced → Patient w op) : Climbing paced (w.step op) := by
  cases op with
  | tick nowMs associated route => exact (c.later asked).ticked associated route
  | recordProbe nowMs result => 
      exact (c.later asked.1).recorded result asked.2 patient
  | finishRebootRequest submitted => exact c.finished submitted

end steps

/-! ### Whole runs -/

theorem recordProbe_config (h : LeNetworkHealth) (nowMs : Int) (result : LeGatewayProbeResult) :
    (leNetworkHealthRecordProbe h nowMs result).2.config = h.config := by
  cases result with
  | unavailable | reachable => rfl
  | unreachable =>
      simp only [leNetworkHealthRecordProbe, escalate]
      split <;> [rfl; split <;> [rfl; split <;> rfl]]

theorem noteAssociated_config (h : LeNetworkHealth) (nowMs : Int) (associated : Bool) :
    (noteAssociated h nowMs associated).config = h.config := by
  unfold noteAssociated
  split <;> rfl

theorem tick_config (h : LeNetworkHealth) (nowMs : Int) (associated route : Bool) :
    (leNetworkHealthTick h nowMs associated route).2.config = h.config := by
  unfold leNetworkHealthTick
  have moved := tickMove_moved h nowMs associated
  generalize tickMove h nowMs associated = move at moved ⊢
  cases moved with
  | rests | raises | forgets => rfl
  | notes => exact noteAssociated_config h nowMs associated
  | finds =>
      cases route with
      | true => exact noteAssociated_config h nowMs associated
      | false =>
          exact (recordProbe_config _ nowMs _).trans (noteAssociated_config h nowMs associated)

theorem step_config (w : Ladder) (op : LadderOp) : (w.step op).health.config = w.health.config := by
  cases op with
  | tick nowMs associated route => exact tick_config w.health nowMs associated route
  | recordProbe nowMs result => exact recordProbe_config w.health nowMs result
  | finishRebootRequest submitted =>
      simp only [Ladder.step, leNetworkHealthFinishRebootRequest]
      split <;> rfl

theorem run_config (w : Ladder) (ops : List LadderOp) :
    (w.run ops).health.config = w.health.config := by
  have kept : ∀ v op, v.health.config = w.health.config →
      (Ladder.step v op).health.config = w.health.config :=
    fun v op same => (step_config v op).trans same
  exact Runs.run_invariant_always Ladder.step kept rfl ops

theorem ladder_unhurried (config : Option LeNetworkHealthConfig) (nowMs : Int)
    (ops : List LadderOp)
    (admitted : Runs.Admits Ladder.step (fun w op => Asked w op ∧ Patient w op)
      (Ladder.init config nowMs) ops) :
    Climbed (leNetworkHealthInit config nowMs).config
        ((Ladder.init config nowMs).run ops).log ∧
      Spaced (leNetworkHealthInit config nowMs).config
        ((Ladder.init config nowMs).run ops).log := by
  have start := Climbing.init True config nowMs
  have kept : ∀ w op, Climbing True w → Asked w op ∧ Patient w op →
      Climbing True (w.step op) :=
    fun _ _ c ok => c.step ok.1 fun _ => ok.2
  have reached := Runs.run_invariant Ladder.step kept start admitted
  have climbed := reached.climbed
  have spaced := reached.spaced trivial
  rw [run_config] at climbed spaced
  exact ⟨climbed, spaced⟩

/-- The gateway answers once and then never again; `waiting` is what happens in the grace period
after the reassociation, before the probe at `probeMs`. -/
def lostGateway (waiting : List LadderOp) (probeMs : Int) : List LadderOp :=
  [.tick 0 true true, .recordProbe 0 .reachable,
    .tick 15000 true true, .recordProbe 15000 .unreachable,
    .tick 30000 true true, .recordProbe 30000 .unreachable,
    .tick 45000 true true, .recordProbe 45000 .unreachable] ++ waiting ++
  [.tick probeMs true true, .recordProbe probeMs .unreachable,
    .tick (probeMs + 1000) false false,
    .tick (probeMs + 46000) true true, .recordProbe (probeMs + 46000) .unreachable]

theorem ladder_unhurried_lostGateway :
    Runs.Admits Ladder.step (fun w op => Asked w op ∧ Patient w op) (Ladder.init none 0)
        (lostGateway [] 75000) ∧
      Climbed leNetworkHealthDefaultConfig
          ((Ladder.init none 0).run (lostGateway [] 75000)).log ∧
        Spaced leNetworkHealthDefaultConfig
          ((Ladder.init none 0).run (lostGateway [] 75000)).log :=
  have admitted : Runs.Admits Ladder.step (fun w op => Asked w op ∧ Patient w op)
      (Ladder.init none 0) (lostGateway [] 75000) := by decide
  ⟨admitted, ladder_unhurried none 0 (lostGateway [] 75000) admitted⟩

/-- A scan during the grace period: the interface goes down 15 seconds after the reassociation. -/
theorem ladder_unhurried_scan :
    ¬∀ (config : Option LeNetworkHealthConfig) (nowMs : Int) (ops : List LadderOp),
      Runs.Admits Ladder.step Asked (Ladder.init config nowMs) ops →
        Climbed (leNetworkHealthInit config nowMs).config
            ((Ladder.init config nowMs).run ops).log ∧
          Spaced (leNetworkHealthInit config nowMs).config
            ((Ladder.init config nowMs).run ops).log := by
  intro all
  let ops := lostGateway [.recordProbe 45000 .unavailable] 60000
  have spaced := (all none 0 ops (by decide)).2
  have last : ((Ladder.init none 0).run ops).log =
      .action .requestReboot 106000 :: ((Ladder.init none 0).run ops).log.tail := by decide
  have unhurried := spaced _ 106000 ⟨[], last.symm⟩
  have taken : rungs ((Ladder.init none 0).run ops).log.tail =
      [(.interfaceUp, 61000), (.interfaceDown, 60000), (.reassociate, 45000)] := by decide
  have distance := (unhurried 45000 60000 61000 taken).1
  revert distance
  decide

end LibreEcho.Network
