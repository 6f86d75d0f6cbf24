import Mathlib
import LibreEcho.Lib.Runs
import LibreEcho.Lib.Window

/-!
The restart policy of `watchdog_policy.c` for one supervised service.

A restart needs two failed probes in a row and the back-off of the last one to
have passed; a window counts the restarts in it and gives up at five. The caller
issues the restart and reports it right after.
-/
namespace LibreEcho.Watchdog

def leWatchdogFailuresBeforeRestart : Nat := 2
def leWatchdogBackoffStartMs : Int := 1000
def leWatchdogBackoffMaxMs : Int := 30000
def leWatchdogStormRestarts : Nat := 5
def leWatchdogStormWindowMs : Int := 300000
def leWatchdogHealthyResetMs : Int := 600000

inductive LeWatchdogAction where
  | none | restart | giveUp
deriving DecidableEq, Repr

structure LeWatchdogService where
  failures : Nat
  restarts : Nat
  backoffMs : Int
  nextAttemptMs : Int
  windowStartedMs : Int
  /-- 0 when not currently healthy. -/
  healthySinceMs : Int
  givenUp : Bool
deriving DecidableEq, Repr

def leWatchdogServiceInit (nowMs : Int) : LeWatchdogService where
  failures := 0
  restarts := 0
  backoffMs := leWatchdogBackoffStartMs
  nextAttemptMs := 0
  windowStartedMs := nowMs
  healthySinceMs := nowMs
  givenUp := false

def forgiveIfSettled (s : LeWatchdogService) (nowMs : Int) : LeWatchdogService :=
  if s.healthySinceMs = 0 then s
  else if nowMs - s.healthySinceMs < leWatchdogHealthyResetMs then s
  else
    { s with
      restarts := 0
      backoffMs := leWatchdogBackoffStartMs
      windowStartedMs := nowMs }

def healthyProbe (s : LeWatchdogService) (nowMs : Int) : LeWatchdogService :=
  { s with
    failures := 0
    healthySinceMs := if s.healthySinceMs = 0 then nowMs else s.healthySinceMs }

def failedProbe (s : LeWatchdogService) : LeWatchdogService :=
  { s with
    healthySinceMs := 0
    failures :=
      if s.failures < leWatchdogFailuresBeforeRestart then s.failures + 1 else s.failures }

/-- The window is over: the next one starts without restarts. -/
def reopenWindow (s : LeWatchdogService) (nowMs : Int) : LeWatchdogService :=
  if leWatchdogStormWindowMs < nowMs - s.windowStartedMs then
    { s with windowStartedMs := nowMs, restarts := 0 }
  else s

def giveUp (s : LeWatchdogService) : LeWatchdogService :=
  { s with givenUp := true }

def leWatchdogStep (s : LeWatchdogService) (healthy : Bool) (nowMs : Int) :
    LeWatchdogAction × LeWatchdogService :=
  if s.givenUp then (.giveUp, s)
  else if healthy then (.none, forgiveIfSettled (healthyProbe s nowMs) nowMs)
  else
    let s := failedProbe s
    if s.failures < leWatchdogFailuresBeforeRestart then (.none, s)
    else
      let s := reopenWindow s nowMs
      if leWatchdogStormRestarts ≤ s.restarts then (.giveUp, giveUp s)
      else if nowMs < s.nextAttemptMs then (.none, s)
      else (.restart, s)

def leWatchdogRestarted (s : LeWatchdogService) (nowMs : Int) : LeWatchdogService :=
  { s with
    windowStartedMs := if s.restarts = 0 then nowMs else s.windowStartedMs
    restarts := s.restarts + 1
    failures := 0
    healthySinceMs := 0
    nextAttemptMs := nowMs + s.backoffMs
    backoffMs := min (s.backoffMs * 2) leWatchdogBackoffMaxMs }

end LibreEcho.Watchdog

/-!
Runs of the restart policy.

The pacing of restarts and the finality of giving up hold in every run. The
bound for every window needs more: the counted window is anchored at its first
restart, and reopening it forgets restarts that may still be recent.
-/
namespace LibreEcho.Watchdog

structure Restart where
  timeMs : Int
  /-- The wait chosen when this restart was reported. -/
  backoffMs : Int
  /-- Failed probes since the restart before. -/
  failed : Nat
deriving DecidableEq, Repr

/-- A supervised service with the history of its run, newest entries first. -/
structure Watch where
  service : LeWatchdogService
  restarts : List Restart
  failed : Nat
  answers : List LeWatchdogAction
  lastMs : Int
deriving DecidableEq, Repr

structure Probe where
  healthy : Bool
  nowMs : Int
  /-- When the restart is reported, if this probe leads to one. -/
  restartedMs : Int
deriving DecidableEq, Repr

def Watch.init (nowMs : Int) : Watch where
  service := leWatchdogServiceInit nowMs
  restarts := []
  failed := 0
  answers := []
  lastMs := nowMs

def Watch.times (w : Watch) : List Int :=
  w.restarts.map Restart.timeMs

def countProbe (failed : Nat) (healthy : Bool) : Nat :=
  if healthy then failed else failed + 1

def Watch.answer (w : Watch) (p : Probe) : LeWatchdogAction :=
  (leWatchdogStep w.service p.healthy p.nowMs).1

def Watch.stepped (w : Watch) (p : Probe) : LeWatchdogService :=
  (leWatchdogStep w.service p.healthy p.nowMs).2

def Watch.step (w : Watch) (p : Probe) : Watch :=
  if w.answer p = .restart then
    { service := leWatchdogRestarted (w.stepped p) p.restartedMs
      restarts :=
        ⟨p.restartedMs, (w.stepped p).backoffMs, countProbe w.failed p.healthy⟩ :: w.restarts
      failed := 0
      answers := .restart :: w.answers
      lastMs := p.restartedMs }
  else
    { w with
      service := w.stepped p
      failed := countProbe w.failed p.healthy
      answers := w.answer p :: w.answers
      lastMs := p.nowMs }

abbrev Watch.run : Watch → List Probe → Watch :=
  Runs.run Watch.step

def Timed (w : Watch) (p : Probe) : Prop :=
  w.lastMs ≤ p.nowMs ∧ p.nowMs ≤ p.restartedMs

instance (w : Watch) (p : Probe) : Decidable (Timed w p) :=
  inferInstanceAs (Decidable (_ ∧ _))

def Reopens (w : Watch) (p : Probe) : Prop :=
  ¬w.service.givenUp ∧ ¬p.healthy ∧
    leWatchdogFailuresBeforeRestart ≤ (failedProbe w.service).failures ∧
      leWatchdogStormWindowMs < p.nowMs - w.service.windowStartedMs

instance (w : Watch) (p : Probe) : Decidable (Reopens w p) :=
  inferInstanceAs (Decidable (_ ∧ _))

/-- The window starts anew only when no restart lies within its width. -/
def Calm (w : Watch) (p : Probe) : Prop :=
  Reopens w p → ∀ r ∈ w.restarts, r.timeMs + leWatchdogStormWindowMs < p.nowMs

instance (w : Watch) (p : Probe) : Decidable (Calm w p) :=
  inferInstanceAs (Decidable (_ → _))

/-- Between two restarts lie the back-off of the earlier one and enough failed probes. -/
def Spaced (restarts : List Restart) : Prop :=
  restarts.Pairwise (fun newer older => older.timeMs + older.backoffMs ≤ newer.timeMs) ∧
    ∀ r ∈ restarts, leWatchdogFailuresBeforeRestart ≤ r.failed

def GiveUpStays (answers : List LeWatchdogAction) : Prop :=
  answers.Pairwise fun newer older => older = .giveUp → newer = .giveUp

def StormBounded (restarts : List Restart) : Prop :=
  Window.Bounded leWatchdogStormWindowMs leWatchdogStormRestarts (restarts.map Restart.timeMs)

/-- What the service's counters say about the restarts of the run. -/
structure Paced (s : LeWatchdogService) (restarts : List Restart) (failed : Nat) : Prop where
  backoff : 0 ≤ s.backoffMs
  due : ∀ r ∈ restarts, r.timeMs + r.backoffMs ≤ s.nextAttemptMs
  failures : s.failures ≤ failed
  spaced : Spaced restarts

theorem Paced.forgive {s : LeWatchdogService} {restarts : List Restart} {failed : Nat}
    (h : Paced s restarts failed) (nowMs : Int) :
    Paced (forgiveIfSettled s nowMs) restarts failed := by
  by_cases never : s.healthySinceMs = 0
  · rw [forgiveIfSettled, if_pos never]
    exact h
  by_cases soon : nowMs - s.healthySinceMs < leWatchdogHealthyResetMs
  · rw [forgiveIfSettled, if_neg never, if_pos soon]
    exact h
  rw [forgiveIfSettled, if_neg never, if_neg soon]
  have start : 0 ≤ leWatchdogBackoffStartMs := by decide
  exact ⟨start, h.due, h.failures, h.spaced⟩

theorem Paced.healthy {s : LeWatchdogService} {restarts : List Restart} {failed : Nat}
    (h : Paced s restarts failed) (nowMs : Int) : Paced (healthyProbe s nowMs) restarts failed :=
  ⟨h.backoff, h.due, Nat.zero_le _, h.spaced⟩

theorem Paced.failing {s : LeWatchdogService} {restarts : List Restart} {failed : Nat}
    (h : Paced s restarts failed) : Paced (failedProbe s) restarts (failed + 1) := by
  refine ⟨h.backoff, h.due, ?_, h.spaced⟩
  have := h.failures
  simp only [failedProbe]
  split <;> omega

theorem Paced.reopen {s : LeWatchdogService} {restarts : List Restart} {failed : Nat}
    (h : Paced s restarts failed) (nowMs : Int) :
    Paced (reopenWindow s nowMs) restarts failed := by
  by_cases late : leWatchdogStormWindowMs < nowMs - s.windowStartedMs
  · rw [reopenWindow, if_pos late]
    exact ⟨h.backoff, h.due, h.failures, h.spaced⟩
  · rw [reopenWindow, if_neg late]
    exact h

theorem Paced.restarted {s : LeWatchdogService} {restarts : List Restart} {failed : Nat}
    (h : Paced s restarts failed) {restartedMs : Int} (due : s.nextAttemptMs ≤ restartedMs)
    (earned : leWatchdogFailuresBeforeRestart ≤ s.failures) :
    Paced (leWatchdogRestarted s restartedMs)
      (⟨restartedMs, s.backoffMs, failed⟩ :: restarts) 0 := by
  have wait := h.backoff
  refine ⟨?_, ?_, Nat.le_refl 0, ?_, ?_⟩
  · simp only [leWatchdogRestarted, leWatchdogBackoffMaxMs]
    omega
  · intro r member
    simp only [leWatchdogRestarted]
    cases member with
    | head => exact Int.le_refl _
    | tail _ old =>
        have := h.due r old
        omega
  · refine List.Pairwise.cons ?_ h.spaced.1
    intro r old
    exact (h.due r old).trans due
  · intro r member
    cases member with
    | head => exact earned.trans h.failures
    | tail _ old => exact h.spaced.2 r old

/-- What one step can answer to a probe, and the service it leaves. -/
inductive Answers (s : LeWatchdogService) (nowMs : Int) :
    Bool → LeWatchdogAction → LeWatchdogService → Prop where
  | gone {healthy : Bool} : s.givenUp = true → Answers s nowMs healthy .giveUp s
  | well : s.givenUp = false →
      Answers s nowMs true .none (forgiveIfSettled (healthyProbe s nowMs) nowMs)
  | doubt : s.givenUp = false →
      (failedProbe s).failures < leWatchdogFailuresBeforeRestart →
      Answers s nowMs false .none (failedProbe s)
  | storm : s.givenUp = false →
      leWatchdogFailuresBeforeRestart ≤ (failedProbe s).failures →
      leWatchdogStormRestarts ≤ (reopenWindow (failedProbe s) nowMs).restarts →
      Answers s nowMs false .giveUp (giveUp (reopenWindow (failedProbe s) nowMs))
  | waiting : s.givenUp = false →
      leWatchdogFailuresBeforeRestart ≤ (failedProbe s).failures →
      Answers s nowMs false .none (reopenWindow (failedProbe s) nowMs)
  | due : s.givenUp = false →
      leWatchdogFailuresBeforeRestart ≤ (failedProbe s).failures →
      (reopenWindow (failedProbe s) nowMs).restarts < leWatchdogStormRestarts →
      (reopenWindow (failedProbe s) nowMs).nextAttemptMs ≤ nowMs →
      Answers s nowMs false .restart (reopenWindow (failedProbe s) nowMs)

theorem leWatchdogStep_answers (s : LeWatchdogService) (healthy : Bool) (nowMs : Int) :
    Answers s nowMs healthy (leWatchdogStep s healthy nowMs).1
      (leWatchdogStep s healthy nowMs).2 := by
  cases up : s.givenUp with
  | true =>
      simp only [leWatchdogStep, up]
      exact .gone up
  | false =>
  cases healthy with
  | true =>
      simp only [leWatchdogStep, up]
      exact .well up
  | false =>
  by_cases few : (failedProbe s).failures < leWatchdogFailuresBeforeRestart
  · simp only [leWatchdogStep, up, few]
    exact .doubt up few
  have enough := Nat.le_of_not_lt few
  by_cases storm : leWatchdogStormRestarts ≤ (reopenWindow (failedProbe s) nowMs).restarts
  · simp only [leWatchdogStep, up, few, storm]
    exact .storm up enough storm
  by_cases early : nowMs < (reopenWindow (failedProbe s) nowMs).nextAttemptMs
  · simp only [leWatchdogStep, up, few, storm, early]
    exact .waiting up enough
  · simp only [leWatchdogStep, up, few, storm, early]
    exact .due up enough (Nat.lt_of_not_le storm) (Int.not_lt.mp early)

theorem Answers.of_restart {s t : LeWatchdogService} {nowMs : Int} {healthy : Bool}
    (h : Answers s nowMs healthy .restart t) :
    s.givenUp = false ∧ healthy = false ∧
      leWatchdogFailuresBeforeRestart ≤ (failedProbe s).failures ∧
      t.restarts < leWatchdogStormRestarts ∧ t.nextAttemptMs ≤ nowMs ∧
      t = reopenWindow (failedProbe s) nowMs := by
  cases h with
  | due fresh enough few due => exact ⟨fresh, rfl, enough, few, due, rfl⟩

theorem Watch.answer_spec (w : Watch) (p : Probe) :
    Answers w.service p.nowMs p.healthy (w.answer p) (w.stepped p) :=
  leWatchdogStep_answers w.service p.healthy p.nowMs

theorem Watch.step_of_restart {w : Watch} {p : Probe} (h : w.answer p = .restart) :
    w.step p =
      { service := leWatchdogRestarted (w.stepped p) p.restartedMs
        restarts :=
          ⟨p.restartedMs, (w.stepped p).backoffMs, countProbe w.failed p.healthy⟩ :: w.restarts
        failed := 0
        answers := .restart :: w.answers
        lastMs := p.restartedMs } :=
  if_pos h

theorem Watch.step_of_other {w : Watch} {p : Probe} (h : w.answer p ≠ .restart) :
    w.step p =
      { w with
        service := w.stepped p
        failed := countProbe w.failed p.healthy
        answers := w.answer p :: w.answers
        lastMs := p.nowMs } :=
  if_neg h

def Watch.Paced (w : Watch) : Prop :=
  Watchdog.Paced w.service w.restarts w.failed

theorem Watch.Paced.step {w : Watch} {p : Probe} (h : w.Paced) (timed : Timed w p) :
    (w.step p).Paced := by
  have answered := w.answer_spec p
  by_cases restart : w.answer p = .restart
  · rw [Watch.step_of_restart restart]
    rw [restart] at answered
    obtain ⟨-, failing, enough, -, due, stepped⟩ := answered.of_restart
    have earned : leWatchdogFailuresBeforeRestart ≤ (w.stepped p).failures := by
      rw [stepped, reopenWindow]
      split <;> exact enough
    have kept := Watchdog.Paced.reopen (Watchdog.Paced.failing h) p.nowMs
    rw [← stepped] at kept
    rw [failing]
    exact kept.restarted (due.trans timed.2) earned
  · rw [Watch.step_of_other restart]
    show Watchdog.Paced (w.stepped p) w.restarts (countProbe w.failed p.healthy)
    generalize w.answer p = answer at answered restart
    generalize w.stepped p = s at answered
    generalize p.healthy = healthy at answered
    cases answered with
    | gone _ =>
        refine ⟨h.backoff, h.due, h.failures.trans ?_, h.spaced⟩
        cases healthy with
        | true => exact Nat.le_refl _
        | false => exact Nat.le_succ _
    | well _ => exact (Watchdog.Paced.healthy h p.nowMs).forgive p.nowMs
    | doubt _ _ => exact Watchdog.Paced.failing h
    | storm _ _ _ =>
        have kept := Watchdog.Paced.reopen (Watchdog.Paced.failing h) p.nowMs
        exact ⟨kept.backoff, kept.due, kept.failures, kept.spaced⟩
    | waiting _ _ => exact Watchdog.Paced.reopen (Watchdog.Paced.failing h) p.nowMs
    | due _ _ _ _ => exact absurd rfl restart

structure Watch.Final (w : Watch) : Prop where
  kept : .giveUp ∈ w.answers → w.service.givenUp = true
  stays : GiveUpStays w.answers

theorem Watch.Final.step {w : Watch} (h : w.Final) (p : Probe) : (w.step p).Final := by
  have answered := w.answer_spec p
  by_cases restart : w.answer p = .restart
  · have fresh : w.service.givenUp = false := by
      rw [restart] at answered
      exact answered.of_restart.1
    have never : LeWatchdogAction.giveUp ∉ w.answers := fun gone =>
      Bool.false_ne_true (fresh.symm.trans (h.kept gone))
    rw [Watch.step_of_restart restart]
    refine ⟨?_, List.Pairwise.cons ?_ h.stays⟩
    · intro gone
      cases gone with
      | tail _ gone => exact absurd gone never
    · intro older member gone
      exact absurd (gone ▸ member) never
  · rw [Watch.step_of_other restart]
    refine ⟨?_, List.Pairwise.cons ?_ h.stays⟩
    · intro gone
      show (w.stepped p).givenUp = true
      generalize w.answer p = answer at answered gone
      generalize w.stepped p = s at answered
      generalize p.healthy = healthy at answered
      cases answered with
      | gone given => exact given
      | storm _ _ _ => rfl
      | well fresh | doubt fresh _ | waiting fresh _ | due fresh _ _ _ =>
          cases gone with
          | tail _ gone => exact absurd (fresh.symm.trans (h.kept gone)) Bool.false_ne_true
    · intro older member gone
      have given := h.kept (gone ▸ member)
      simp [Watch.answer, leWatchdogStep, given]

/--
The counted restarts are the newest ones and lie in the open window; every older
one is out of reach of it.
-/
structure Guarded (s : LeWatchdogService) (times : List Int) (lastMs : Int) : Prop where
  counted : s.restarts ≤ leWatchdogStormRestarts
  opened : s.windowStartedMs ≤ lastMs
  past : ∀ t ∈ times, t ≤ lastMs
  current : ∀ t ∈ times.take s.restarts, s.windowStartedMs ≤ t
  earlier : ∀ t ∈ times.drop s.restarts, t + leWatchdogStormWindowMs < s.windowStartedMs
  bounded :
    Window.Bounded leWatchdogStormWindowMs leWatchdogStormRestarts (times.drop s.restarts)
  settled : s.healthySinceMs ≠ 0 → ∀ t ∈ times, t ≤ s.healthySinceMs

theorem Guarded.storm {s : LeWatchdogService} {times : List Int} {lastMs : Int}
    (h : Guarded s times lastMs) :
    Window.Bounded leWatchdogStormWindowMs leWatchdogStormRestarts times := by
  rw [← List.take_append_drop s.restarts times]
  refine Window.bounded_append ?_ (Window.bounded_of_length ?_) h.bounded
  · intro t late u early
    exact Int.lt_of_lt_of_le (h.earlier u early) (h.current t late)
  · exact (List.length_take_le _ _).trans h.counted

theorem Guarded.later {s : LeWatchdogService} {times : List Int} {lastMs nowMs : Int}
    (h : Guarded s times lastMs) (timed : lastMs ≤ nowMs) : Guarded s times nowMs where
  counted := h.counted
  opened := h.opened.trans timed
  past := fun t member => (h.past t member).trans timed
  current := h.current
  earlier := h.earlier
  bounded := h.bounded
  settled := h.settled

theorem Guarded.anew {s t : LeWatchdogService} {times : List Int} {nowMs : Int}
    (h : Guarded s times nowMs) (empty : t.restarts = 0) (opened : t.windowStartedMs = nowMs)
    (healthy : t.healthySinceMs = s.healthySinceMs)
    (calm : ∀ u ∈ times, u + leWatchdogStormWindowMs < nowMs) : Guarded t times nowMs where
  counted := by
    rw [empty]
    exact Nat.zero_le _
  opened := Int.le_of_eq opened
  past := h.past
  current := by
    intro u member
    rw [empty, List.take_zero] at member
    exact absurd member List.not_mem_nil
  earlier := by
    intro u member
    rw [opened]
    exact calm u (List.mem_of_mem_drop member)
  bounded := by
    rw [empty, List.drop_zero]
    exact h.storm
  settled := by
    rw [healthy]
    exact h.settled

theorem Guarded.healthy {s : LeWatchdogService} {times : List Int} {nowMs : Int}
    (h : Guarded s times nowMs) : Guarded (healthyProbe s nowMs) times nowMs := by
  refine ⟨h.counted, h.opened, h.past, h.current, h.earlier, h.bounded, ?_⟩
  intro _ t member
  by_cases since : s.healthySinceMs = 0
  · simp only [healthyProbe, if_pos since]
    exact h.past t member
  · simp only [healthyProbe, if_neg since]
    exact h.settled since t member

theorem Guarded.forgive {s : LeWatchdogService} {times : List Int} {nowMs : Int}
    (h : Guarded s times nowMs) : Guarded (forgiveIfSettled s nowMs) times nowMs := by
  by_cases never : s.healthySinceMs = 0
  · rw [forgiveIfSettled, if_pos never]
    exact h
  by_cases soon : nowMs - s.healthySinceMs < leWatchdogHealthyResetMs
  · rw [forgiveIfSettled, if_neg never, if_pos soon]
    exact h
  rw [forgiveIfSettled, if_neg never, if_neg soon]
  refine h.anew rfl rfl rfl ?_
  intro u member
  have since := h.settled never u member
  simp only [leWatchdogHealthyResetMs] at soon
  simp only [leWatchdogStormWindowMs]
  omega

theorem Guarded.failing {s : LeWatchdogService} {times : List Int} {nowMs : Int}
    (h : Guarded s times nowMs) : Guarded (failedProbe s) times nowMs :=
  ⟨h.counted, h.opened, h.past, h.current, h.earlier, h.bounded, fun since => absurd rfl since⟩

theorem Guarded.reopen {s : LeWatchdogService} {times : List Int} {nowMs : Int}
    (h : Guarded s times nowMs)
    (calm : leWatchdogStormWindowMs < nowMs - s.windowStartedMs →
      ∀ u ∈ times, u + leWatchdogStormWindowMs < nowMs) :
    Guarded (reopenWindow s nowMs) times nowMs := by
  by_cases late : leWatchdogStormWindowMs < nowMs - s.windowStartedMs
  · rw [reopenWindow, if_pos late]
    exact h.anew rfl rfl rfl (calm late)
  · rw [reopenWindow, if_neg late]
    exact h

theorem Guarded.restarted {s : LeWatchdogService} {times : List Int} {restartedMs : Int}
    (h : Guarded s times restartedMs) (few : s.restarts < leWatchdogStormRestarts) :
    Guarded (leWatchdogRestarted s restartedMs) (restartedMs :: times) restartedMs where
  counted := few
  opened := by
    simp only [leWatchdogRestarted]
    split
    · exact Int.le_refl _
    · exact h.opened
  past := by
    intro t member
    cases member with
    | head => exact Int.le_refl _
    | tail _ old => exact h.past t old
  current := by
    intro t member
    simp only [leWatchdogRestarted, List.take_succ_cons] at member ⊢
    by_cases first : s.restarts = 0
    · rw [if_pos first]
      rw [first, List.take_zero] at member
      exact Int.le_of_eq (List.mem_singleton.mp member).symm
    · rw [if_neg first]
      cases member with
      | head => exact h.opened
      | tail _ old => exact h.current t old
  earlier := by
    intro t member
    simp only [leWatchdogRestarted, List.drop_succ_cons] at member ⊢
    have outside := h.earlier t member
    split
    · exact Int.lt_of_lt_of_le outside h.opened
    · exact outside
  bounded := h.bounded
  settled := fun since => absurd rfl since

def Watch.Guarded (w : Watch) : Prop :=
  Watchdog.Guarded w.service w.times w.lastMs

theorem Watch.Guarded.step {w : Watch} {p : Probe} (h : w.Guarded) (timed : Timed w p)
    (calm : Calm w p) : (w.step p).Guarded := by
  have now := Watchdog.Guarded.later h timed.1
  have reopened (up : w.service.givenUp = false) (failing : p.healthy = false)
      (enough : leWatchdogFailuresBeforeRestart ≤ (failedProbe w.service).failures) :
      Watchdog.Guarded (reopenWindow (failedProbe w.service) p.nowMs) w.times p.nowMs := by
    refine now.failing.reopen ?_
    intro late u member
    obtain ⟨r, issued, rfl⟩ := List.mem_map.mp member
    exact calm ⟨by simp [up], by simp [failing], enough, late⟩ r issued
  have answered := w.answer_spec p
  by_cases restart : w.answer p = .restart
  · rw [restart] at answered
    obtain ⟨up, failing, enough, few, -, stepped⟩ := answered.of_restart
    have kept := reopened up failing enough
    rw [← stepped] at kept
    rw [Watch.step_of_restart restart]
    exact (kept.later timed.2).restarted few
  · rw [Watch.step_of_other restart]
    show Watchdog.Guarded (w.stepped p) w.times p.nowMs
    generalize w.answer p = answer at answered restart
    generalize w.stepped p = s at answered
    generalize p.healthy = healthy at answered reopened
    cases answered with
    | gone _ => exact now
    | well _ => exact now.healthy.forgive
    | doubt _ _ => exact now.failing
    | storm up enough _ =>
        have kept := reopened up rfl enough
        exact ⟨kept.counted, kept.opened, kept.past, kept.current, kept.earlier, kept.bounded,
          kept.settled⟩
    | waiting up enough => exact reopened up rfl enough
    | due _ _ _ _ => exact absurd rfl restart

theorem Watch.init_guarded (nowMs : Int) : (Watch.init nowMs).Guarded where
  counted := Nat.zero_le _
  opened := Int.le_refl _
  past := fun _ member => absurd member List.not_mem_nil
  current := fun _ member => absurd member List.not_mem_nil
  earlier := fun _ member => absurd member List.not_mem_nil
  bounded := Window.bounded_nil _ _
  settled := fun _ _ member => absurd member List.not_mem_nil

theorem Watch.init_paced (nowMs : Int) : (Watch.init nowMs).Paced := by
  refine ⟨?_, fun _ member => absurd member List.not_mem_nil, Nat.le_refl 0, .nil,
    fun _ member => absurd member List.not_mem_nil⟩
  have start : 0 ≤ leWatchdogBackoffStartMs := by decide
  exact start

theorem leWatchdog_paced (nowMs : Int) (probes : List Probe)
    (timed : Runs.Admits Watch.step Timed (Watch.init nowMs) probes) :
    Spaced ((Watch.init nowMs).run probes).restarts ∧
      GiveUpStays ((Watch.init nowMs).run probes).answers := by
  have paced : ((Watch.init nowMs).run probes).Paced :=
    Runs.run_invariant Watch.step (fun _ _ h ok => Watch.Paced.step h ok)
      (Watch.init_paced nowMs) timed
  have final : ((Watch.init nowMs).run probes).Final := by
    refine Runs.run_invariant_always Watch.step (fun _ p h => h.step p) ?_ probes
    exact ⟨fun gone => absurd gone List.not_mem_nil, .nil⟩
  exact ⟨paced.spaced, final.stays⟩

/-- The storm guard of a run in which no reopened window forgets a recent restart. -/
theorem leWatchdog_stormGuard (nowMs : Int) (probes : List Probe)
    (timed : Runs.Admits Watch.step Timed (Watch.init nowMs) probes)
    (calm : Runs.Admits Watch.step Calm (Watch.init nowMs) probes) :
    StormBounded ((Watch.init nowMs).run probes).restarts ∧
      Spaced ((Watch.init nowMs).run probes).restarts ∧
      GiveUpStays ((Watch.init nowMs).run probes).answers := by
  refine ⟨?_, leWatchdog_paced nowMs probes timed⟩
  have guarded : ((Watch.init nowMs).run probes).Guarded :=
    Runs.run_invariant Watch.step (fun _ _ h ok => Watch.Guarded.step h ok.1 ok.2)
      (Watch.init_guarded nowMs) (Runs.admits_and.mpr ⟨timed, calm⟩)
  exact guarded.storm

/-- A failed probe, reported at once if it leads to a restart. -/
def failure (nowMs : Int) : Probe := ⟨false, nowMs, nowMs⟩

def burst : List Probe :=
  [1000, 2000, 294000, 295000, 296000, 298000, 300000, 302000, 304000, 310000, 312000, 326000,
    328000, 356000].map failure

theorem leWatchdog_stormGuard_burst :
    Runs.Admits Watch.step Timed (Watch.init 0) burst ∧
      Window.count leWatchdogStormWindowMs 295000 ((Watch.init 0).run burst).times = 6 ∧
      ¬∀ (nowMs : Int) (probes : List Probe),
        Runs.Admits Watch.step Timed (Watch.init nowMs) probes →
          StormBounded ((Watch.init nowMs).run probes).restarts := by
  have timed : Runs.Admits Watch.step Timed (Watch.init 0) burst := by decide +kernel
  have six : Window.count leWatchdogStormWindowMs 295000 ((Watch.init 0).run burst).times = 6 := by
    decide +kernel
  refine ⟨timed, six, fun bounded => ?_⟩
  have five : _ ≤ leWatchdogStormRestarts := bounded 0 burst timed 295000
  exact absurd (six ▸ five) (by decide)

/-- The first four restarts of the burst are calm. -/
theorem leWatchdog_stormGuard_calmBurst :
    StormBounded ((Watch.init 0).run (burst.take 8)).restarts ∧
      Spaced ((Watch.init 0).run (burst.take 8)).restarts ∧
      GiveUpStays ((Watch.init 0).run (burst.take 8)).answers :=
  leWatchdog_stormGuard 0 (burst.take 8) (by decide +kernel) (by decide +kernel)

end LibreEcho.Watchdog
