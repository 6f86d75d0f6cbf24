import LibreEcho.Lib.CText
import LibreEcho.Timer.Schedule

/-!
How long timerd may sleep after a step.

A step leaves every timer such that a second step at the same time does nothing. From
there the timeout is the time to the first change of the set, as far as the clock in whole
seconds can tell it.
-/
namespace LibreEcho.Timer

/-! ### The timeout -/

/-- What a timer leaves to wait; `none` where it has no say. -/
def leTimerRemaining (nowMonotonicMs nowEpoch : Int) (timer : LeTimer) : Option Int :=
  match timer.state with
  | .ringing =>
      some (LongLong.wrap
        (LongLong.wrap (timer.ringStartedMs + leTimerRingSeconds * 1000) - nowMonotonicMs))
  | .free => none
  | .pending =>
      match timer.kind with
      | .countdown => some (LongLong.wrap (timer.dueMonotonicMs - nowMonotonicMs))
      | .alarm =>
          if leTimerClockValidEpoch ≤ nowEpoch then
            some (LongLong.wrap (LongLong.wrap (timer.dueEpoch - nowEpoch) * 1000))
          else none

def shorterTimeout (timeout : Int) : Option Int → Int
  | none => timeout
  | some remaining =>
      let remaining := if remaining < 0 then 0 else remaining
      if remaining < timeout then remaining else timeout

def leTimerPollTimeoutMs (set : LeTimerSet) (nowMonotonicMs nowEpoch capMs : Int) : Int :=
  set.timers.foldl
    (fun timeout timer => shorterTimeout timeout (leTimerRemaining nowMonotonicMs nowEpoch timer))
    capMs

def PollFits (nowMonotonicMs nowEpoch : Int) (timer : LeTimer) : Prop :=
  match timer.state with
  | .ringing =>
      LongLong.Fits (timer.ringStartedMs + leTimerRingSeconds * 1000) ∧
        LongLong.Fits (timer.ringStartedMs + leTimerRingSeconds * 1000 - nowMonotonicMs)
  | .free => True
  | .pending =>
      match timer.kind with
      | .countdown => LongLong.Fits (timer.dueMonotonicMs - nowMonotonicMs)
      | .alarm =>
          leTimerClockValidEpoch ≤ nowEpoch →
            LongLong.Fits (timer.dueEpoch - nowEpoch) ∧
              LongLong.Fits ((timer.dueEpoch - nowEpoch) * 1000)

instance (nowMonotonicMs nowEpoch : Int) (timer : LeTimer) :
    Decidable (PollFits nowMonotonicMs nowEpoch timer) := by
  unfold PollFits
  cases timer.state with
  | free => exact isTrue trivial
  | ringing => exact inferInstanceAs (Decidable (_ ∧ _))
  | pending =>
      cases timer.kind with
      | countdown => exact inferInstanceAs (Decidable (LongLong.Fits _))
      | alarm => exact inferInstanceAs (Decidable (_ → _))

theorem shorterTimeout_le (timeout : Int) (remaining : Option Int) :
    shorterTimeout timeout remaining ≤ timeout := by
  cases remaining with
  | none => exact Int.le_refl _
  | some remaining =>
      simp only [shorterTimeout]
      split <;> omega

theorem shorterTimeout_some_le {timeout remaining : Int} (positive : 0 < remaining) :
    shorterTimeout timeout (some remaining) ≤ remaining := by
  simp only [shorterTimeout, if_neg (Int.not_lt.mpr (Int.le_of_lt positive))]
  split <;> omega

section Fold
variable {α : Type} {remaining : α → Option Int} {timers : List α}

theorem foldl_shorter_le (cap : Int) :
    timers.foldl (fun timeout timer => shorterTimeout timeout (remaining timer)) cap ≤ cap := by
  induction timers generalizing cap with
  | nil => exact Int.le_refl _
  | cons timer rest ih => exact Int.le_trans (ih _) (shorterTimeout_le cap (remaining timer))

theorem foldl_shorter_le_some {timer : α} (member : timer ∈ timers) {left : Int}
    (some_left : remaining timer = some left) (positive : 0 < left) (cap : Int) :
    timers.foldl (fun timeout timer => shorterTimeout timeout (remaining timer)) cap ≤ left := by
  induction timers generalizing cap with
  | nil => cases member
  | cons first rest ih =>
      rw [List.foldl_cons]
      rcases List.mem_cons.mp member with rfl | later
      · rw [some_left]
        exact Int.le_trans (foldl_shorter_le _) (shorterTimeout_some_le positive)
      · exact ih later _

theorem foldl_shorter_cases (positive : ∀ timer ∈ timers, ∀ left, remaining timer = some left →
    0 < left) (cap : Int) :
    timers.foldl (fun timeout timer => shorterTimeout timeout (remaining timer)) cap = cap ∨
      ∃ timer ∈ timers, remaining timer = some
        (timers.foldl (fun timeout timer => shorterTimeout timeout (remaining timer)) cap) := by
  induction timers generalizing cap with
  | nil => exact .inl rfl
  | cons first rest ih =>
      rw [List.foldl_cons]
      have later := ih (fun timer member => positive timer (List.mem_cons_of_mem _ member))
        (shorterTimeout cap (remaining first))
      rcases later with same | ⟨timer, member, found⟩
      · rw [same]
        cases left : remaining first with
        | none => exact .inl rfl
        | some left' =>
            have above := positive first List.mem_cons_self left' left
            simp only [shorterTimeout, if_neg (Int.not_lt.mpr (Int.le_of_lt above))]
            split
            · exact .inr ⟨first, List.mem_cons_self, left⟩
            · exact .inl rfl
      · exact .inr ⟨timer, List.mem_cons_of_mem _ member, found⟩

end Fold

/-! ### One timer -/

section One
variable {nowMs nowEpoch : Int} {timer : LeTimer}

theorem leTimerFate_aged (nowMs nowEpoch : Int) (timer : LeTimer) :
    leTimerFate nowMs nowEpoch (leTimerAged nowMs nowEpoch timer) = .kept := by
  unfold leTimerAged
  cases fate : leTimerFate nowMs nowEpoch timer with
  | kept => exact fate
  | cleared | missed => rfl
  | fired =>
      simp only [leTimerFate, Int.sub_self]
      exact if_neg (by decide)

/-- What a timer leaves to wait after a step, by what it waits for. -/
inductive Waits (nowMs nowEpoch : Int) (timer : LeTimer) : Option Int → Prop where
  | free (free : timer.state = .free) : Waits nowMs nowEpoch timer none
  | ring (ringing : timer.state = .ringing)
      (early : nowMs < timer.ringStartedMs + leTimerRingSeconds * 1000) :
      Waits nowMs nowEpoch timer
        (some (timer.ringStartedMs + leTimerRingSeconds * 1000 - nowMs))
  | countdown (pending : timer.state = .pending) (kind : timer.kind = .countdown)
      (early : nowMs < timer.dueMonotonicMs) :
      Waits nowMs nowEpoch timer (some (timer.dueMonotonicMs - nowMs))
  | alarm (pending : timer.state = .pending) (kind : timer.kind = .alarm)
      (valid : leTimerClockValidEpoch ≤ nowEpoch) (early : nowEpoch < timer.dueEpoch) :
      Waits nowMs nowEpoch timer (some ((timer.dueEpoch - nowEpoch) * 1000))
  | unset (pending : timer.state = .pending) (kind : timer.kind = .alarm)
      (invalid : nowEpoch < leTimerClockValidEpoch) : Waits nowMs nowEpoch timer none

theorem waits_remaining (kept : leTimerFate nowMs nowEpoch timer = .kept)
    (fits : PollFits nowMs nowEpoch timer) :
    Waits nowMs nowEpoch timer (leTimerRemaining nowMs nowEpoch timer) := by
  unfold leTimerRemaining
  unfold PollFits at fits
  unfold leTimerFate at kept
  cases state : timer.state with
  | free => exact .free state
  | ringing =>
      simp only [state] at kept fits ⊢
      rw [LongLong.wrap_eq fits.1, LongLong.wrap_eq fits.2]
      refine .ring state ?_
      by_contra late
      rw [if_pos (by omega)] at kept
      cases kept
  | pending =>
      have notDue : leTimerDue timer nowMs nowEpoch = false := by
        by_contra due
        simp only [state, if_neg due] at kept
        split at kept
        · cases kept
        · cases kept
      unfold leTimerDue at notDue
      cases kind : timer.kind with
      | countdown =>
          simp only [state, kind] at fits notDue ⊢
          rw [LongLong.wrap_eq fits]
          exact .countdown state kind (Int.not_le.mp (of_decide_eq_false notDue))
      | alarm =>
          simp only [state, kind] at fits notDue ⊢
          split
          case isTrue valid =>
            rw [LongLong.wrap_eq (fits valid).1, LongLong.wrap_eq (fits valid).2]
            simp only [valid, decide_true, Bool.true_and] at notDue
            exact .alarm state kind valid (Int.not_le.mp (of_decide_eq_false notDue))
          case isFalse invalid => exact .unset state kind (Int.not_le.mp invalid)

theorem Waits.positive {left : Int} (waits : Waits nowMs nowEpoch timer (some left)) :
    0 < left := by
  cases waits with
  | ring _ early => omega
  | countdown _ _ early => omega
  | alarm _ _ _ early => omega

/-- The wall clock `ms` later, when `millis` of its second were over. -/
def epochAfter (nowEpoch millis ms : Int) : Int :=
  nowEpoch + (millis + ms) / 1000

theorem Waits.changes {left : Int} (waits : Waits nowMs nowEpoch timer (some left)) {millis : Int}
    (within : 0 ≤ millis ∧ millis < 1000) :
    leTimerAged (nowMs + left) (epochAfter nowEpoch millis left) timer ≠ timer := by
  intro same
  have kept := leTimerFate_aged (nowMs + left) (epochAfter nowEpoch millis left) timer
  rw [same] at kept
  unfold leTimerFate at kept
  cases waits with
  | ring ringing early =>
      simp only [ringing] at kept
      rw [if_pos (by omega)] at kept
      cases kept
  | countdown pending kind early =>
      have due : leTimerDue timer (nowMs + (timer.dueMonotonicMs - nowMs))
          (epochAfter nowEpoch millis (timer.dueMonotonicMs - nowMs)) = true := by
        simp only [leTimerDue, kind, decide_eq_true_eq]
        omega
      simp only [pending, due, Bool.true_eq_false, if_false] at kept
      split at kept
      · cases kept
      · cases kept
  | alarm pending kind valid early =>
      have reached : epochAfter nowEpoch millis ((timer.dueEpoch - nowEpoch) * 1000) =
          timer.dueEpoch := by
        unfold epochAfter
        omega
      have due : leTimerDue timer (nowMs + (timer.dueEpoch - nowEpoch) * 1000)
          (epochAfter nowEpoch millis ((timer.dueEpoch - nowEpoch) * 1000)) = true := by
        simp only [leTimerDue, kind, reached, Bool.and_eq_true, decide_eq_true_eq]
        omega
      simp only [pending, due, Bool.true_eq_false, if_false] at kept
      split at kept
      · cases kept
      · cases kept

end One

/-! ### The set after a step -/

section Set
variable (set : LeTimerSet) (nowMs nowEpoch millis timeout : Int)

/-- Nothing on the monotonic clock ends before the timeout does. -/
def SleepsThrough : Prop :=
  ∀ ms, 0 ≤ ms → ms < timeout → ∀ timer ∈ set.timers,
    (timer.state = .pending → timer.kind = .countdown →
      leTimerDue timer (nowMs + ms) (epochAfter nowEpoch millis ms) = false) ∧
    (timer.state = .ringing → nowMs + ms - timer.ringStartedMs < leTimerRingSeconds * 1000)

/-- An alarm that becomes due does so in the last second of the timeout. -/
def AlarmsOnTime : Prop :=
  ∀ ms, 0 ≤ ms → ms < timeout → ∀ timer ∈ set.timers, timer.state = .pending →
    timer.kind = .alarm → leTimerDue timer (nowMs + ms) (epochAfter nowEpoch millis ms) = true →
      timeout - ms < 1000

def WakesForChange (cap : Int) : Prop :=
  timeout < cap → 0 < timeout ∧
    (leTimerStep set (nowMs + timeout) (epochAfter nowEpoch millis timeout)).2.timers ≠ set.timers

end Set

section Stepped
variable {set : LeTimerSet} {nowMs nowEpoch : Int}

def Waiting (set : LeTimerSet) (nowMs nowEpoch : Int) : Prop :=
  ∀ timer ∈ set.timers, Waits nowMs nowEpoch timer (leTimerRemaining nowMs nowEpoch timer)

theorem waiting_step {before : LeTimerSet}
    (fits : ∀ timer ∈ (leTimerStep before nowMs nowEpoch).2.timers, PollFits nowMs nowEpoch timer) :
    Waiting (leTimerStep before nowMs nowEpoch).2 nowMs nowEpoch := by
  intro timer member
  refine waits_remaining ?_ (fits timer member)
  obtain ⟨old, -, rfl⟩ := List.mem_map.mp member
  exact leTimerFate_aged nowMs nowEpoch old

theorem Waiting.timeout_le (waiting : Waiting set nowMs nowEpoch) {timer : LeTimer}
    (member : timer ∈ set.timers) {left : Int}
    (some_left : leTimerRemaining nowMs nowEpoch timer = some left) (cap : Int) :
    leTimerPollTimeoutMs set nowMs nowEpoch cap ≤ left := by
  have waits := waiting timer member
  rw [some_left] at waits
  exact foldl_shorter_le_some member some_left waits.positive cap

theorem Waiting.sleepsThrough (waiting : Waiting set nowMs nowEpoch) (millis cap : Int) :
    SleepsThrough set nowMs nowEpoch millis (leTimerPollTimeoutMs set nowMs nowEpoch cap) := by
  intro ms _ before timer member
  have waits := waiting timer member
  constructor
  · intro pending countdown
    cases left : leTimerRemaining nowMs nowEpoch timer with
    | none =>
        rw [left] at waits
        cases waits with
        | free free => rw [pending] at free; cases free
        | unset _ kind _ => rw [countdown] at kind; cases kind
    | some left' =>
        have shortest := waiting.timeout_le member left cap
        rw [left] at waits
        simp only [leTimerDue, countdown, decide_eq_false_iff_not, Int.not_le]
        cases waits with
        | ring ringing _ => rw [pending] at ringing; cases ringing
        | countdown _ _ _ => omega
        | alarm _ kind _ _ => rw [countdown] at kind; cases kind
  · intro ringing
    cases left : leTimerRemaining nowMs nowEpoch timer with
    | none =>
        rw [left] at waits
        cases waits with
        | free free => rw [ringing] at free; cases free
        | unset pending _ _ => rw [ringing] at pending; cases pending
    | some left' =>
        have shortest := waiting.timeout_le member left cap
        rw [left] at waits
        cases waits with
        | ring _ _ => omega
        | countdown pending _ _ | alarm pending _ _ _ => rw [ringing] at pending; cases pending

theorem Waiting.alarmsOnTime (waiting : Waiting set nowMs nowEpoch)
    (valid : leTimerClockValidEpoch ≤ nowEpoch) {millis : Int}
    (within : 0 ≤ millis ∧ millis < 1000) (cap : Int) :
    AlarmsOnTime set nowMs nowEpoch millis (leTimerPollTimeoutMs set nowMs nowEpoch cap) := by
  intro ms _ before timer member pending alarm due
  have waits := waiting timer member
  cases left : leTimerRemaining nowMs nowEpoch timer with
  | none =>
      rw [left] at waits
      cases waits with
      | free free => rw [pending] at free; cases free
      | unset _ _ invalid => omega
  | some left' =>
      have shortest := waiting.timeout_le member left cap
      rw [left] at waits
      cases waits with
      | ring ringing _ => rw [pending] at ringing; cases ringing
      | countdown _ kind _ => rw [alarm] at kind; cases kind
      | alarm _ _ _ _ =>
          simp only [leTimerDue, alarm, epochAfter, Bool.and_eq_true] at due
          have reached := of_decide_eq_true due.2
          omega

theorem Waiting.wakesForChange (waiting : Waiting set nowMs nowEpoch) {millis : Int}
    (within : 0 ≤ millis ∧ millis < 1000) (cap : Int) :
    WakesForChange set nowMs nowEpoch millis (leTimerPollTimeoutMs set nowMs nowEpoch cap) cap := by
  intro short
  have positive : ∀ timer ∈ set.timers, ∀ left,
      leTimerRemaining nowMs nowEpoch timer = some left → 0 < left := by
    intro timer member left some_left
    have waits := waiting timer member
    rw [some_left] at waits
    exact waits.positive
  rcases foldl_shorter_cases positive cap with same | ⟨timer, member, found⟩
  · exact absurd same (Int.ne_of_lt short)
  · have waits := waiting timer member
    rw [found] at waits
    refine ⟨waits.positive, fun same => waits.changes within ?_⟩
    -- a list that a map leaves as it is has no element that it changes
    exact List.map_inj_left.mp (same.trans (List.map_id _).symm) timer member

end Stepped

def oneAlarm (dueEpoch : Int) : LeTimerSet :=
  leTimerSetInit.put 0 ⟨1, .alarm, .pending, 0, dueEpoch, 0, .empty⟩

end LibreEcho.Timer
