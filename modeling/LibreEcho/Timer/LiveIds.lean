import LibreEcho.Lib.Runs
import LibreEcho.Timer.Schedule
import Mathlib

/-!
Whether the ids of the used slots stay apart.

Only what takes its id from the counter can break this: the counter wraps, and
restoring the greatest id sends it back to 1. A restored id is looked up first.
-/
namespace LibreEcho.Timer

def leTimerRestoreCountdown (set : LeTimerSet) (dueEpoch : Int) (label : LeTimerLabel)
    (nowEpoch nowMonotonicMs : Int) : Except LeTimerError UInt32 × LeTimerSet :=
  restoreTimer set .countdown 0 dueEpoch label nowEpoch nowMonotonicMs

def leTimerRestoreAlarm (set : LeTimerSet) (dueEpoch : Int) (label : LeTimerLabel)
    (nowEpoch nowMonotonicMs : Int) : Except LeTimerError UInt32 × LeTimerSet :=
  restoreTimer set .alarm 0 dueEpoch label nowEpoch nowMonotonicMs

def leTimerRestoreCountdownWithId (set : LeTimerSet) (restoreId : UInt32) (dueEpoch : Int)
    (label : LeTimerLabel) (nowEpoch nowMonotonicMs : Int) :
    Except LeTimerError UInt32 × LeTimerSet :=
  restoreTimer set .countdown restoreId dueEpoch label nowEpoch nowMonotonicMs

def leTimerRestoreAlarmWithId (set : LeTimerSet) (restoreId : UInt32) (dueEpoch : Int)
    (label : LeTimerLabel) (nowEpoch nowMonotonicMs : Int) :
    Except LeTimerError UInt32 × LeTimerSet :=
  restoreTimer set .alarm restoreId dueEpoch label nowEpoch nowMonotonicMs

inductive TimerOp where
  | addCountdown (seconds : Int) (label : LeTimerLabel) (nowMonotonicMs : Int)
  | addAlarm (dueEpoch : Int) (label : LeTimerLabel) (nowEpoch : Int)
  | restoreCountdown (dueEpoch : Int) (label : LeTimerLabel) (nowEpoch nowMonotonicMs : Int)
  | restoreAlarm (dueEpoch : Int) (label : LeTimerLabel) (nowEpoch nowMonotonicMs : Int)
  | restoreCountdownWithId (restoreId : UInt32) (dueEpoch : Int) (label : LeTimerLabel)
      (nowEpoch nowMonotonicMs : Int)
  | restoreAlarmWithId (restoreId : UInt32) (dueEpoch : Int) (label : LeTimerLabel)
      (nowEpoch nowMonotonicMs : Int)
  | cancel (id : UInt32)
  | cancelAt (id : UInt32) (nowMonotonicMs nowEpoch : Int)
  | dismiss (id : UInt32)
  | dismissAll
  | step (nowMonotonicMs nowEpoch : Int)

def TimerOp.apply (set : LeTimerSet) : TimerOp → LeTimerSet
  | .addCountdown seconds label nowMs => (leTimerAddCountdown set seconds label nowMs).2
  | .addAlarm dueEpoch label nowEpoch => (leTimerAddAlarm set dueEpoch label nowEpoch).2
  | .restoreCountdown dueEpoch label nowEpoch nowMs =>
      (leTimerRestoreCountdown set dueEpoch label nowEpoch nowMs).2
  | .restoreAlarm dueEpoch label nowEpoch nowMs =>
      (leTimerRestoreAlarm set dueEpoch label nowEpoch nowMs).2
  | .restoreCountdownWithId restoreId dueEpoch label nowEpoch nowMs =>
      (leTimerRestoreCountdownWithId set restoreId dueEpoch label nowEpoch nowMs).2
  | .restoreAlarmWithId restoreId dueEpoch label nowEpoch nowMs =>
      (leTimerRestoreAlarmWithId set restoreId dueEpoch label nowEpoch nowMs).2
  | .cancel id => (leTimerCancel set id).2
  | .cancelAt id nowMs nowEpoch => (leTimerCancelAt set id nowMs nowEpoch).2
  | .dismiss id => (leTimerDismiss set id).2
  | .dismissAll => (leTimerDismissAll set).2
  | .step nowMs nowEpoch => (leTimerStep set nowMs nowEpoch).2

abbrev TimerOp.run : LeTimerSet → List TimerOp → LeTimerSet :=
  Runs.run TimerOp.apply

/-! ### Ids from the counter -/

def inRestoreWindow (kind : LeTimerKind) (dueEpoch nowEpoch : Int) : Bool :=
  leTimerClockValidEpoch ≤ nowEpoch ∧ -leTimerMissGraceSeconds ≤ dueEpoch - nowEpoch ∧
    ¬(kind = .countdown ∧ leTimerMaxSeconds < dueEpoch - nowEpoch)

def restoreCounterId (set : LeTimerSet) (kind : LeTimerKind) (restoreId : UInt32)
    (dueEpoch nowEpoch : Int) : Option UInt32 :=
  if restoreId = 0 ∧ inRestoreWindow kind dueEpoch nowEpoch ∧ (freeSlot set).isSome then
    some (if set.nextId ≠ 0 then set.nextId else set.nextId + 1)
  else none

/-- The id an operation takes from the counter, if it takes one. -/
def TimerOp.counterId (set : LeTimerSet) : TimerOp → Option UInt32
  | .addCountdown seconds _ _ =>
      if leTimerMinSeconds ≤ seconds ∧ seconds ≤ leTimerMaxSeconds ∧ (freeSlot set).isSome then
        some set.nextId
      else none
  | .addAlarm dueEpoch _ nowEpoch =>
      if leTimerClockValidEpoch ≤ nowEpoch ∧ nowEpoch < dueEpoch ∧ (freeSlot set).isSome then
        some set.nextId
      else none
  | .restoreCountdown dueEpoch _ nowEpoch _ => restoreCounterId set .countdown 0 dueEpoch nowEpoch
  | .restoreAlarm dueEpoch _ nowEpoch _ => restoreCounterId set .alarm 0 dueEpoch nowEpoch
  | .restoreCountdownWithId restoreId dueEpoch _ nowEpoch _ =>
      restoreCounterId set .countdown restoreId dueEpoch nowEpoch
  | .restoreAlarmWithId restoreId dueEpoch _ nowEpoch _ =>
      restoreCounterId set .alarm restoreId dueEpoch nowEpoch
  | .cancel _ | .cancelAt _ _ _ | .dismiss _ | .dismissAll | .step _ _ => none

def liveIds (set : LeTimerSet) : List UInt32 :=
  (liveTimers set).map LeTimer.id

def CounterFresh (set : LeTimerSet) (op : TimerOp) : Prop :=
  ∀ id, op.counterId set = some id → id ≠ 0 ∧ id ∉ liveIds set

structure IdsUnique (set : LeTimerSet) : Prop where
  named : 0 ∉ liveIds set
  distinct : (liveIds set).Nodup

def AddressesOne (set : LeTimerSet) : Prop :=
  ∀ id, (liveTimers set).countP (·.id = id) ≤ 1

theorem IdsUnique.addressesOne {set : LeTimerSet} (unique : IdsUnique set) :
    AddressesOne set := by
  intro id
  have once := List.nodup_iff_count_le_one.mp unique.distinct id
  rw [liveIds, List.count, List.countP_map] at once
  exact once

theorem IdsUnique.of_sublist {set after : LeTimerSet} (unique : IdsUnique set)
    (fewer : (liveIds after).Sublist (liveIds set)) : IdsUnique after :=
  ⟨fun zero => unique.named (fewer.subset zero), unique.distinct.sublist fewer⟩

/-! ### Operations that take no id -/

theorem idsUnique_each {set : LeTimerSet} (unique : IdsUnique set) {change : LeTimer → LeTimer}
    (keeps : ∀ t, (change t).state ≠ .free → t.state ≠ .free ∧ (change t).id = t.id) :
    IdsUnique (set.each change) :=
  unique.of_sublist (map_id_live_sublist set.timers fun t _ => keeps t)

theorem idsUnique_clear {set : LeTimerSet} (unique : IdsUnique set) (slot : Nat) :
    IdsUnique (set.put slot .cleared) :=
  unique.of_sublist (map_id_live_clear set.timers slot)

theorem leTimerAged_keeps (nowMs nowEpoch : Int) (t : LeTimer)
    (used : (leTimerAged nowMs nowEpoch t).state ≠ .free) :
    t.state ≠ .free ∧ (leTimerAged nowMs nowEpoch t).id = t.id := by
  cases fate : leTimerFate nowMs nowEpoch t with
  | kept =>
      simp only [leTimerAged, fate] at used ⊢
      exact ⟨used, trivial⟩
  | cleared | missed =>
      simp only [leTimerAged, fate] at used
      exact absurd rfl used
  | fired =>
      refine ⟨?_, by simp only [leTimerAged, fate]⟩
      intro free
      simp only [leTimerFate, free] at fate
      exact absurd fate (by decide)

theorem idsUnique_step {set : LeTimerSet} (unique : IdsUnique set) (nowMs nowEpoch : Int) :
    IdsUnique (leTimerStep set nowMs nowEpoch).2 :=
  have aged := idsUnique_each unique (leTimerAged_keeps nowMs nowEpoch)
  ⟨aged.named, aged.distinct⟩

theorem idsUnique_clearIn {set after : LeTimerSet} {state : LeTimerState} {id : UInt32}
    (unique : IdsUnique set) (cleared : leTimerClearIn state set id = some after) :
    IdsUnique after := by
  rw [leTimerClearIn] at cleared
  split at cleared
  · exact absurd cleared (by simp)
  split at cleared
  · exact absurd cleared (by simp)
  split at cleared
  · rw [← Option.some.inj cleared]
    exact idsUnique_clear unique _
  · exact absurd cleared (by simp)

theorem idsUnique_cancel {set : LeTimerSet} (unique : IdsUnique set) (id : UInt32) :
    IdsUnique (leTimerCancel set id).2 := by
  cases cleared : leTimerClearIn .pending set id with
  | none => simpa only [leTimerCancel, cleared] using unique
  | some after => simpa only [leTimerCancel, cleared] using idsUnique_clearIn unique cleared

theorem idsUnique_dismiss {set : LeTimerSet} (unique : IdsUnique set) (id : UInt32) :
    IdsUnique (leTimerDismiss set id).2 := by
  cases cleared : leTimerClearIn .ringing set id with
  | none => simpa only [leTimerDismiss, cleared] using unique
  | some after => simpa only [leTimerDismiss, cleared] using idsUnique_clearIn unique cleared

theorem idsUnique_dismissAll {set : LeTimerSet} (unique : IdsUnique set) :
    IdsUnique (leTimerDismissAll set).2 := by
  refine idsUnique_each unique ?_
  intro t used
  by_cases ringing : t.state = .ringing
  · rw [if_pos ringing] at used
    exact absurd rfl used
  · rw [if_neg ringing] at used ⊢
    exact ⟨used, rfl⟩

theorem idsUnique_init : IdsUnique leTimerSetInit := by
  have none : liveIds leTimerSetInit = [] := by
    rw [liveIds, liveTimers, leTimerSetInit, List.filter_replicate_of_neg (by decide)]
    rfl
  exact ⟨by simp [none], by simp [none]⟩

/-! ### Operations that take an id -/

theorem idsUnique_put {set : LeTimerSet} (unique : IdsUnique set) {slot : Nat}
    (found : freeSlot set = some slot) {timer : LeTimer} (pending : timer.state = .pending)
    (nextId : UInt32) :
    IdsUnique ((set.put slot timer).withNextId nextId) ↔
      timer.id ≠ 0 ∧ timer.id ∉ liveIds set := by
  have ids : (liveIds ((set.put slot timer).withNextId nextId)).Perm (timer.id :: liveIds set) :=
    (put_freeSlot found timer pending).1.map LeTimer.id
  constructor
  · intro after
    have distinct := ids.nodup_iff.mp after.distinct
    refine ⟨?_, (List.nodup_cons.mp distinct).1⟩
    intro zero
    exact after.named (ids.mem_iff.mpr (zero ▸ List.mem_cons_self))
  · intro fresh
    refine ⟨?_, ids.nodup_iff.mpr (List.nodup_cons.mpr ⟨fresh.2, unique.distinct⟩)⟩
    intro zero
    cases List.mem_cons.mp (ids.mem_iff.mp zero) with
    | inl own => exact fresh.1 own.symm
    | inr old => exact unique.named old

theorem counterFresh_none {set : LeTimerSet} {op : TimerOp} (none : op.counterId set = none) :
    CounterFresh set op := by
  intro id taken
  rw [none] at taken
  exact absurd taken (by simp)

theorem counterFresh_some {set : LeTimerSet} {op : TimerOp} {id : UInt32}
    (taken : op.counterId set = some id) :
    CounterFresh set op ↔ id ≠ 0 ∧ id ∉ liveIds set := by
  constructor
  · intro fresh
    exact fresh id taken
  · intro fresh other also
    rw [taken] at also
    exact Option.some.inj also ▸ fresh

theorem idsUnique_addCountdown {set : LeTimerSet} (unique : IdsUnique set) (seconds : Int)
    (label : LeTimerLabel) (nowMs : Int) :
    IdsUnique (leTimerAddCountdown set seconds label nowMs).2 ↔
      CounterFresh set (.addCountdown seconds label nowMs) := by
  by_cases range : seconds < leTimerMinSeconds ∨ leTimerMaxSeconds < seconds
  · rw [leTimerAddCountdown, if_pos range]
    refine iff_of_true unique (counterFresh_none ?_)
    rw [TimerOp.counterId, if_neg (by omega)]
  rw [leTimerAddCountdown, if_neg range]
  cases found : freeSlot set with
  | none =>
      refine iff_of_true unique (counterFresh_none ?_)
      simp [TimerOp.counterId, found]
  | some slot =>
      have taken : (TimerOp.addCountdown seconds label nowMs).counterId set = some set.nextId := by
        rw [TimerOp.counterId, found, if_pos ⟨by omega, by omega, rfl⟩]
      rw [counterFresh_some taken]
      exact idsUnique_put unique found rfl _

theorem idsUnique_addAlarm {set : LeTimerSet} (unique : IdsUnique set) (dueEpoch : Int)
    (label : LeTimerLabel) (nowEpoch : Int) :
    IdsUnique (leTimerAddAlarm set dueEpoch label nowEpoch).2 ↔
      CounterFresh set (.addAlarm dueEpoch label nowEpoch) := by
  by_cases unset : nowEpoch < leTimerClockValidEpoch
  · rw [leTimerAddAlarm, if_pos unset]
    refine iff_of_true unique (counterFresh_none ?_)
    rw [TimerOp.counterId, if_neg (by omega)]
  by_cases past : dueEpoch ≤ nowEpoch
  · rw [leTimerAddAlarm, if_neg unset, if_pos past]
    refine iff_of_true unique (counterFresh_none ?_)
    rw [TimerOp.counterId, if_neg (by omega)]
  rw [leTimerAddAlarm, if_neg unset, if_neg past]
  cases found : freeSlot set with
  | none =>
      refine iff_of_true unique (counterFresh_none ?_)
      simp [TimerOp.counterId, found]
  | some slot =>
      have taken : (TimerOp.addAlarm dueEpoch label nowEpoch).counterId set = some set.nextId := by
        rw [TimerOp.counterId, found, if_pos ⟨by omega, by omega, rfl⟩]
      rw [counterFresh_some taken]
      exact idsUnique_put unique found rfl _

theorem idsUnique_restoreTimer {set : LeTimerSet} (unique : IdsUnique set) (kind : LeTimerKind)
    (restoreId : UInt32) (dueEpoch : Int) (label : LeTimerLabel) (nowEpoch nowMs : Int) :
    IdsUnique (restoreTimer set kind restoreId dueEpoch label nowEpoch nowMs).2 ↔
      ∀ id, restoreCounterId set kind restoreId dueEpoch nowEpoch = some id →
        id ≠ 0 ∧ id ∉ liveIds set := by
  have refused (outside : inRestoreWindow kind dueEpoch nowEpoch = false) :
      ∀ id, restoreCounterId set kind restoreId dueEpoch nowEpoch = some id →
        id ≠ 0 ∧ id ∉ liveIds set := by
    intro id taken
    simp [restoreCounterId, outside] at taken
  by_cases unset : nowEpoch < leTimerClockValidEpoch
  · rw [restoreTimer, if_pos unset]
    refine iff_of_true unique (refused ?_)
    simp [inRestoreWindow, Int.not_le.mpr unset]
  by_cases stale : dueEpoch - nowEpoch < -leTimerMissGraceSeconds
  · simp only [restoreTimer, if_neg unset, if_pos stale]
    refine iff_of_true unique (refused ?_)
    simp only [inRestoreWindow, decide_eq_false_iff_not]
    omega
  by_cases far : kind = .countdown ∧ leTimerMaxSeconds < dueEpoch - nowEpoch
  · simp only [restoreTimer, if_neg unset, if_neg stale, if_pos far]
    refine iff_of_true unique (refused ?_)
    simp [inRestoreWindow, far]
  have inside : inRestoreWindow kind dueEpoch nowEpoch = true := by
    simp only [inRestoreWindow, decide_eq_true_eq]
    exact ⟨by omega, by omega, far⟩
  by_cases taken : restoreId ≠ 0 ∧ (leTimerFind set restoreId).isSome
  · simp only [restoreTimer, if_neg unset, if_neg stale, if_neg far, if_pos taken]
    refine iff_of_true unique ?_
    intro id counter
    simp [restoreCounterId, taken.1] at counter
  simp only [restoreTimer, if_neg unset, if_neg stale, if_neg far, if_neg taken]
  cases found : freeSlot set with
  | none =>
      refine iff_of_true unique ?_
      intro id counter
      simp [restoreCounterId, found] at counter
  | some slot =>
      rw [idsUnique_put unique found rfl]
      by_cases named : restoreId = 0
      · subst named
        have counter : restoreCounterId set kind 0 dueEpoch nowEpoch =
            some (restoredId set 0).1 := by
          rw [restoreCounterId, if_pos ⟨rfl, inside, by rw [found]; rfl⟩, restoredId]
          by_cases zero : set.nextId = 0 <;> simp [zero]
        rw [counter]
        exact ⟨fun fresh id same => Option.some.inj same ▸ fresh, fun fresh => fresh _ rfl⟩
      · have own : (restoredId set restoreId).1 = restoreId := by
          rw [restoredId, if_pos named]
        have unused : restoreId ∉ liveIds set := by
          intro live
          obtain ⟨t, member, same⟩ := List.mem_map.mp live
          exact taken ⟨named, (leTimerFind_isSome named).mpr ⟨t, member, same⟩⟩
        rw [own]
        refine iff_of_true ⟨named, unused⟩ ?_
        intro id counter
        simp [restoreCounterId, named] at counter

theorem idsUnique_apply (set : LeTimerSet) (op : TimerOp) (unique : IdsUnique set) :
    IdsUnique (op.apply set) ↔ CounterFresh set op := by
  cases op with
  | addCountdown seconds label nowMs => exact idsUnique_addCountdown unique seconds label nowMs
  | addAlarm dueEpoch label nowEpoch => exact idsUnique_addAlarm unique dueEpoch label nowEpoch
  | restoreCountdown dueEpoch label nowEpoch nowMs =>
      exact idsUnique_restoreTimer unique .countdown 0 dueEpoch label nowEpoch nowMs
  | restoreAlarm dueEpoch label nowEpoch nowMs =>
      exact idsUnique_restoreTimer unique .alarm 0 dueEpoch label nowEpoch nowMs
  | restoreCountdownWithId restoreId dueEpoch label nowEpoch nowMs =>
      exact idsUnique_restoreTimer unique .countdown restoreId dueEpoch label nowEpoch nowMs
  | restoreAlarmWithId restoreId dueEpoch label nowEpoch nowMs =>
      exact idsUnique_restoreTimer unique .alarm restoreId dueEpoch label nowEpoch nowMs
  | cancel id => exact iff_of_true (idsUnique_cancel unique id) (counterFresh_none rfl)
  | cancelAt id nowMs nowEpoch =>
      exact iff_of_true (idsUnique_cancel (idsUnique_step unique nowMs nowEpoch) id)
        (counterFresh_none rfl)
  | dismiss id => exact iff_of_true (idsUnique_dismiss unique id) (counterFresh_none rfl)
  | dismissAll => exact iff_of_true (idsUnique_dismissAll unique) (counterFresh_none rfl)
  | step nowMs nowEpoch =>
      exact iff_of_true (idsUnique_step unique nowMs nowEpoch) (counterFresh_none rfl)

/-- A timer, then the greatest id from a file, then a timer again. -/
def wrappedOps : List TimerOp :=
  [.addCountdown 600 .empty 0,
    .restoreAlarmWithId uintMax 1700000600 .empty 1700000000 0,
    .addCountdown 60 .empty 1000]

end LibreEcho.Timer
