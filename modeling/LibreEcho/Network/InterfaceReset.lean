import LibreEcho.Network.Health

/-!
The interface taken down comes back up.

While INTERFACE_DOWN is the latest thing done to the interface, the policy waits
with a deadline. Two things break this: starting over drops the wait, and a check
that finds the association unsettled leaves a deadline that has passed alone.
-/
namespace LibreEcho.Network

namespace HealthLoop

/-- The latest of INTERFACE_DOWN and INTERFACE_UP, and when. -/
def lastInterface (c : HealthLoop) : Option (LeNetworkHealthAction × Int) :=
  c.performed.find? fun p => p.1 = .interfaceDown || p.1 = .interfaceUp

/-- The interface was taken down and the time to bring it up has come. -/
def overdue (c : HealthLoop) (nowMs : Int) : Bool :=
  c.lastInterface.any (fun p => p.1 = .interfaceDown) &&
    decide (c.health.transitionDeadlineMs ≤ nowMs)

end HealthLoop

inductive HealthOp where
  | check (inputs : HealthInputs) (nowMs : Int)
  | probeEvent (event : ProbeEvent) (nowMs : Int)
  | reset (nowMs : Int)
deriving DecidableEq, Repr

structure HealthRun where
  loop : HealthLoop
  /-- A check past the deadline did not bring the interface up. -/
  missed : Bool
deriving DecidableEq, Repr

namespace HealthRun

def step (w : HealthRun) : HealthOp → HealthRun
  | .check inputs nowMs =>
      let after := w.loop.checkNetworkHealth inputs nowMs
      { loop := after
        missed := w.missed ||
          w.loop.overdue nowMs && after.lastInterface ≠ some (.interfaceUp, nowMs) }
  | .probeEvent event nowMs => { w with loop := w.loop.handleGatewayProbeEvent event nowMs }
  | .reset nowMs => { w with loop := w.loop.resetNetworkHealth nowMs }

def init (nowMs : Int) : HealthRun where
  loop := HealthLoop.init nowMs
  missed := false

/-- While the interface is down the policy waits to bring it up in time, and no
check past the deadline has left it down. -/
def ComesBack (w : HealthRun) : Prop :=
  w.missed = false ∧ ∀ downMs, w.loop.lastInterface = some (.interfaceDown, downMs) →
    w.loop.health.phase = .interfaceDownWait ∧
      w.loop.health.transitionDeadlineMs ≤ downMs + w.loop.health.config.interfaceDownMs

/-- Nothing starts over while the interface is down, and no check past the
deadline finds the association unsettled. -/
def LeavesWait (w : HealthRun) : HealthOp → Prop
  | .check inputs nowMs =>
      w.loop.health.phase = .interfaceDownWait →
        w.loop.health.transitionDeadlineMs ≤ nowMs → inputs.unsettled = false
  | .probeEvent _ _ => True
  | .reset _ => w.loop.health.phase ≠ .interfaceDownWait

instance (w : HealthRun) : ∀ op, Decidable (w.LeavesWait op)
  | .check _ _ => inferInstanceAs (Decidable (_ → _ → _))
  | .probeEvent _ _ => inferInstanceAs (Decidable True)
  | .reset _ => inferInstanceAs (Decidable (_ ≠ _))

end HealthRun

/-! ### What one step keeps -/

/-- The wait belongs to the latest INTERFACE_DOWN, and no probe is out in it. -/
structure Waits (c : HealthLoop) : Prop where
  down : c.health.phase = .interfaceDownWait ↔
    ∃ downMs, c.lastInterface = some (.interfaceDown, downMs)
  bounded : ∀ downMs, c.lastInterface = some (.interfaceDown, downMs) →
    c.health.transitionDeadlineMs ≤ downMs + c.health.config.interfaceDownMs
  calm : c.health.phase = .interfaceDownWait → c.health.awaitingProbe = false
  asked : c.gatewayProbe.active = true → c.health.awaitingProbe = true ∨
    c.health.phase = .idle ∧ c.health.healthySeen = false

namespace Waits
variable {c : HealthLoop} {nowMs : Int}

theorem closed (waits : Waits c) : Waits c.closeProbe :=
  ⟨waits.down, waits.bounded, waits.calm, fun active => by cases active⟩

theorem quiet (waits : Waits c) (down : c.health.phase = .interfaceDownWait) :
    c.gatewayProbe.active = false := by
  rw [Bool.eq_false_iff]
  intro active
  obtain asked | ⟨idle, -⟩ := waits.asked active
  · rw [waits.calm down] at asked
    cases asked
  · rw [down] at idle
    cases idle

theorem rests {h : LeNetworkHealth} (waits : Waits c)
    (up : c.health.phase ≠ .interfaceDownWait) (still : h.phase ≠ .interfaceDownWait)
    (asked : c.gatewayProbe.active = true → h.awaitingProbe = true ∨
      h.phase = .idle ∧ h.healthySeen = false) : Waits { c with health := h } := by
  have none_down : ¬ ∃ downMs, c.lastInterface = some (.interfaceDown, downMs) :=
    fun down => up (waits.down.mpr down)
  exact ⟨⟨fun wait => absurd wait still, fun down => absurd down none_down⟩,
    fun downMs down => absurd ⟨downMs, down⟩ none_down, fun wait => absurd wait still, asked⟩

theorem performs (action : LeNetworkHealthAction) (waits : Waits c)
    (other : action ≠ .interfaceDown ∧ action ≠ .interfaceUp) :
    Waits { c with performed := (action, nowMs) :: c.performed } := by
  have same : HealthLoop.lastInterface { c with performed := (action, nowMs) :: c.performed } =
      c.lastInterface := by
    unfold HealthLoop.lastInterface
    rw [List.find?_cons_of_neg]
    simp [other.1, other.2]
  refine ⟨?_, ?_, waits.calm, waits.asked⟩
  · rw [same]; exact waits.down
  · rw [same]; exact waits.bounded

theorem unavailable (waits : Waits c) (unasked : c.gatewayProbe.active = true →
    c.health.phase = .idle ∧ c.health.healthySeen = false) :
    Waits { c with health := recordUnavailable c.health nowMs } :=
  ⟨waits.down, waits.bounded, fun _ => rfl, fun active => .inr (unasked active)⟩

theorem unreachable (waits : Waits c) (submitted : Bool) (closed : c.gatewayProbe.active = false)
    (up : c.health.phase ≠ .interfaceDownWait) :
    Waits (c.recordGatewayProbe submitted nowMs .unreachable) := by
  have none_out : ∀ P : Prop, c.gatewayProbe.active = true → P := fun P active => by
    rw [closed] at active
    cases active
  have rests : ∀ h : LeNetworkHealth, h.phase ≠ .interfaceDownWait → Waits { c with health := h } :=
    fun h still => waits.rests up still (none_out _)
  have escalated := escalate_escalated (countFailure c.health nowMs) nowMs
  unfold HealthLoop.recordGatewayProbe leNetworkHealthRecordProbe
  generalize escalate (countFailure c.health nowMs) nowMs = answer at escalated
  cases escalated with
  | reassociates =>
      exact performs .reassociate (rests _ fun wait => by cases wait) (by decide)
  | takesDown =>
      refine ⟨⟨fun _ => ⟨nowMs, rfl⟩, fun _ => rfl⟩, fun downMs down => ?_, fun _ => rfl,
        none_out _⟩
      obtain ⟨-, rfl⟩ := Prod.mk.inj (Option.some.inj down)
      exact Int.le_refl _
  | asksReboot =>
      refine performs .requestReboot (rests _ ?_) (by decide)
      cases submitted <;> exact fun wait => by cases wait
  | counts => exact rests _ up

theorem startProbe (i : HealthInputs) (waits : Waits c) (route : i.hasGateway = true)
    (up : c.health.phase ≠ .interfaceDownWait) (awaiting : c.health.awaitingProbe = true) :
    Waits (c.startProbe i nowMs) := by
  unfold HealthLoop.startProbe
  rw [if_neg (by simp [route])]
  split
  case isTrue => exact waits.closed.unavailable fun active => by cases active
  case isFalse => exact ⟨waits.down, waits.bounded, fun wait => absurd wait up,
      fun _ => .inl awaiting⟩

theorem raises (waits : Waits c) (wait : c.health.phase = .interfaceDownWait)
    (h : LeNetworkHealth) (recovering : h.phase = .interfaceRecovering) :
    Waits { c with health := h, performed := (.interfaceUp, nowMs) :: c.performed } := by
  have last : HealthLoop.lastInterface
      { c with health := h, performed := (.interfaceUp, nowMs) :: c.performed } =
        some (.interfaceUp, nowMs) := rfl
  refine ⟨⟨fun down => ?_, fun down => ?_⟩, fun downMs down => ?_, fun down => ?_,
    fun active => ?_⟩
  · rw [recovering] at down
    cases down
  · obtain ⟨downMs, down⟩ := down
    rw [last] at down
    cases down
  · rw [last] at down
    cases down
  · rw [recovering] at down
    cases down
  · rw [waits.quiet wait] at active
    cases active

def follows (i : HealthInputs) (nowMs : Int) (answer : LeNetworkHealthAction × LeNetworkHealth)
    (c : HealthLoop) : HealthLoop :=
  if answer.1 = .probe then HealthLoop.startProbe i nowMs { c with health := answer.2 }
  else HealthLoop.performHealthAction i.rebootSubmitted nowMs answer.1 { c with health := answer.2 }

theorem waiting_follows (i : HealthInputs) (waits : Waits c)
    (wait : c.health.phase = .interfaceDownWait) :
    Waits (follows i nowMs (leNetworkHealthTick c.health nowMs i.associated i.hasGateway) c) ∧
      (c.health.transitionDeadlineMs ≤ nowMs →
        (follows i nowMs (leNetworkHealthTick c.health nowMs i.associated i.hasGateway)
          c).lastInterface = some (.interfaceUp, nowMs)) := by
  unfold leNetworkHealthTick tickMove
  rw [if_neg (by rw [wait]; decide), if_pos wait]
  by_cases early : nowMs < c.health.transitionDeadlineMs
  · rw [if_pos early]
    exact ⟨waits, fun late => absurd early (Int.not_lt.mpr late)⟩
  · rw [if_neg early]
    exact ⟨waits.raises wait _ rfl, fun _ => rfl⟩

theorem up_follows (i : HealthInputs) (waits : Waits c)
    (up : c.health.phase ≠ .interfaceDownWait) :
    Waits (follows i nowMs (leNetworkHealthTick c.health nowMs i.associated i.hasGateway) c) := by
  have moved := tickMove_moved c.health nowMs i.associated
  unfold leNetworkHealthTick
  generalize tickMove c.health nowMs i.associated = move at moved
  have phase := noteAssociated_phase c.health nowMs i.associated
  have probing : (noteAssociated c.health nowMs i.associated).awaitingProbe =
        c.health.awaitingProbe ∧
      (noteAssociated c.health nowMs i.associated).healthySeen = c.health.healthySeen := by
    unfold noteAssociated
    split <;> exact ⟨rfl, rfl⟩
  obtain ⟨awaiting, seen⟩ := probing
  have still : (noteAssociated c.health nowMs i.associated).phase ≠ .interfaceDownWait :=
    phase ▸ up
  have noted : Waits { c with health := noteAssociated c.health nowMs i.associated } := by
    refine waits.rests up still fun active => ?_
    rw [phase, awaiting, seen]
    exact waits.asked active
  cases moved with
  | rests => exact waits
  | raises wait _ => exact absurd wait up
  | forgets => exact waits.rests up (fun wait => by cases wait) fun _ => .inr ⟨rfl, rfl⟩
  | notes _ => exact noted
  | finds _ _ idle _ =>
      have unasked : c.gatewayProbe.active = true →
          (noteAssociated c.health nowMs i.associated).phase = .idle ∧
            (noteAssociated c.health nowMs i.associated).healthySeen = false := by
        intro active
        obtain asked | unseen := noted.asked active
        · rw [idle] at asked
          cases asked
        · exact unseen
      generalize noteAssociated c.health nowMs i.associated = h at *
      dsimp only
      split
      case isTrue route =>
        have awaits : Waits { c with health := { h with awaitingProbe := true } } :=
          waits.rests up still fun _ => .inl rfl
        have started : Waits (HealthLoop.startProbe i nowMs _) := awaits.startProbe i route still rfl
        exact started
      case isFalse =>
        have recorded : Waits (HealthLoop.recordGatewayProbe i.rebootSubmitted nowMs
            (routelessResult h) { c with health := h }) := by
          unfold routelessResult
          split
          case isTrue healthy =>
            refine noted.unreachable _ ?_ still
            rw [Bool.eq_false_iff]
            intro active
            rw [(unasked active).2] at healthy
            cases healthy
          case isFalse => exact noted.unavailable unasked
        unfold follows
        rw [if_neg (recordProbe_not_probe h _ _)]
        exact recorded

theorem check (i : HealthInputs) (waits : Waits c) : Waits (c.checkNetworkHealth i nowMs) := by
  unfold HealthLoop.checkNetworkHealth
  split
  case isTrue => exact waits.closed.unavailable fun active => by cases active
  case isFalse =>
    split
    case isTrue timed_out =>
      refine waits.closed.unreachable _ rfl fun wait => ?_
      rw [leGatewayProbeTimedOut, waits.quiet wait] at timed_out
      cases timed_out
    case isFalse =>
      by_cases wait : c.health.phase = .interfaceDownWait
      · exact (waits.waiting_follows i wait).1
      · exact waits.up_follows i wait

theorem check_raises (i : HealthInputs) (waits : Waits c)
    (wait : c.health.phase = .interfaceDownWait) (late : c.health.transitionDeadlineMs ≤ nowMs)
    (settled : i.unsettled = false) :
    (c.checkNetworkHealth i nowMs).lastInterface = some (.interfaceUp, nowMs) := by
  unfold HealthLoop.checkNetworkHealth
  rw [settled, leGatewayProbeTimedOut, waits.quiet wait]
  exact (waits.waiting_follows i wait).2 late

theorem probeEvent (event : ProbeEvent) (waits : Waits c) :
    Waits (c.handleGatewayProbeEvent event nowMs) := by
  unfold HealthLoop.handleGatewayProbeEvent
  split
  case isTrue => exact waits
  case isFalse active =>
    have up : c.health.phase ≠ .interfaceDownWait := fun wait => active (waits.quiet wait)
    split
    case isTrue =>
      exact waits.closed.rests up (fun wait => by cases wait) fun active => by cases active
    case isFalse =>
      split
      case isTrue => exact waits.closed.unavailable fun active => by cases active
      case isFalse =>
        split
        case isTrue => exact waits.closed.unavailable fun active => by cases active
        case isFalse => exact waits

theorem reset (waits : Waits c) (up : c.health.phase ≠ .interfaceDownWait) :
    Waits (c.resetNetworkHealth nowMs) :=
  waits.closed.rests up (fun wait => by cases wait) fun active => by cases active

end Waits

/-! ### Runs -/

namespace HealthRun

def Sound (w : HealthRun) : Prop := w.missed = false ∧ Waits w.loop

theorem Sound.comesBack {w : HealthRun} (sound : w.Sound) : w.ComesBack :=
  ⟨sound.1, fun downMs down => ⟨sound.2.down.mpr ⟨downMs, down⟩, sound.2.bounded downMs down⟩⟩

theorem Sound.waits_overdue {w : HealthRun} (sound : w.Sound) {nowMs : Int}
    (overdue : w.loop.overdue nowMs = true) :
    w.loop.health.phase = .interfaceDownWait ∧ w.loop.health.transitionDeadlineMs ≤ nowMs := by
  unfold HealthLoop.overdue at overdue
  rw [Bool.and_eq_true, Option.any_eq_true] at overdue
  obtain ⟨⟨⟨action, downMs⟩, last, down⟩, late⟩ := overdue
  simp only [decide_eq_true_eq] at down late
  subst down
  exact ⟨sound.2.down.mpr ⟨downMs, last⟩, late⟩

theorem step_sound (w : HealthRun) (op : HealthOp) (sound : w.Sound) (leaves : w.LeavesWait op) :
    (w.step op).Sound := by
  cases op with
  | check i nowMs =>
      refine ⟨?_, sound.2.check i⟩
      simp only [step, sound.1, Bool.false_or, Bool.and_eq_false_iff, decide_eq_false_iff_not,
        not_not]
      by_cases overdue : w.loop.overdue nowMs = true
      · obtain ⟨wait, late⟩ := sound.waits_overdue overdue
        exact .inr (sound.2.check_raises i wait late (leaves wait late))
      · exact .inl (Bool.eq_false_iff.mpr overdue)
  | probeEvent event nowMs => exact ⟨sound.1, sound.2.probeEvent event⟩
  | reset nowMs => exact ⟨sound.1, sound.2.reset leaves⟩

theorem step_needs (w : HealthRun) (op : HealthOp) (sound : w.Sound)
    (back : (w.step op).ComesBack) : w.LeavesWait op := by
  cases op with
  | check i nowMs =>
      intro wait late
      by_contra unsettled
      rw [Bool.not_eq_false] at unsettled
      obtain ⟨downMs, down⟩ := sound.2.down.mp wait
      have overdue : w.loop.overdue nowMs = true := by
        simp [HealthLoop.overdue, down, late]
      have same : (w.loop.checkNetworkHealth i nowMs).lastInterface =
          some (.interfaceDown, downMs) := by
        unfold HealthLoop.checkNetworkHealth
        rw [if_pos unsettled]
        exact down
      have missed := back.1
      simp [step, overdue, same] at missed
  | probeEvent event nowMs => trivial
  | reset nowMs =>
      intro wait
      obtain ⟨downMs, down⟩ := sound.2.down.mp wait
      have idle := (back.2 downMs down).1
      cases idle

theorem init_sound (nowMs : Int) : (init nowMs).Sound :=
  ⟨rfl, ⟨⟨(fun wait => by cases wait), (fun down => by obtain ⟨_, down⟩ := down; cases down)⟩,
    (fun _ down => by cases down), (fun wait => by cases wait), (fun active => by cases active)⟩⟩

/-- The interface comes back in every state of a run exactly if no step of it
starts over in the wait or leaves a deadline that has passed alone. -/
theorem run_comesBack (nowMs : Int) (ops : List HealthOp) :
    (∀ front back, ops = front ++ back → (Runs.run step (init nowMs) front).ComesBack) ↔
      Runs.Admits step LeavesWait (init nowMs) ops :=
  Runs.property_iff_admits step step_sound (fun _ sound => sound.comesBack) step_needs
    (init_sound nowMs) ops

def settled : HealthInputs where
  associated := true
  dhcpActive := false
  scanActive := false
  hasIp := true
  hasGateway := true
  probeStarts := true
  rebootSubmitted := false

def unanswered (nowMs : Int) : List HealthOp :=
  [.check settled nowMs, .check settled (nowMs + leGatewayProbeTimeoutMs)]

/-- A disconnect half a second after INTERFACE_DOWN: the wait is dropped, and no
check brings the interface up. -/
theorem run_comesBack_disconnected :
    ¬ ∀ front back, [.check settled 0, .probeEvent ⟨true, 1, false, false⟩ 10] ++
        unanswered 15010 ++ unanswered 32010 ++ unanswered 49010 ++ unanswered 81010 ++
        [.reset 83510, .check { settled with associated := false } 84010] = front ++ back →
      (Runs.run step (init 0) front).ComesBack := by
  intro back
  have wait := ((back _ [] (List.append_nil _).symm).2 83010 (by decide)).1
  revert wait
  decide

end HealthRun

end LibreEcho.Network
