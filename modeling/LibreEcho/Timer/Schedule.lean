import Mathlib
import LibreEcho.Lib.CText

/-!
The timer set of `timer_schedule.c`: sixteen slots, an id counter that wraps,
and the operations on them.

Countdowns run on the monotonic clock in milliseconds, alarms on the wall clock
in seconds. A slot that is free is all zero.
-/
namespace LibreEcho.Timer

def leTimerMax : Nat := 16
def leTimerLabelMax : Nat := 48
def leTimerMinSeconds : Int := 1
def leTimerMaxSeconds : Int := 7 * 24 * 3600
def leTimerRingSeconds : Int := 300
def leTimerMissGraceSeconds : Int := 60
def leTimerClockValidEpoch : Int := 1577836800

def uintMax : UInt32 := 4294967295

inductive LeTimerKind where
  | countdown | alarm
deriving DecidableEq, Repr

inductive LeTimerState where
  | free | pending | ringing
deriving DecidableEq, Repr

inductive LeTimerError where
  | full | range | notFound | clock
deriving DecidableEq, Repr

def isLabelByte (c : Char) : Bool :=
  0 < c.toNat && c.toNat < 256

structure LeTimerLabel where
  text : CText
  fits : text.length < leTimerLabelMax
  bytes : text.all isLabelByte = true
deriving DecidableEq

def LeTimerLabel.empty : LeTimerLabel :=
  ⟨[], by decide, rfl⟩

theorem LeTimerLabel.byte (label : LeTimerLabel) {c : Char} (member : c ∈ label.text) :
    0 < c.toNat ∧ c.toNat < 256 := by
  have byte := List.all_eq_true.mp label.bytes c member
  simpa [isLabelByte] using byte

structure LeTimer where
  id : UInt32
  kind : LeTimerKind
  state : LeTimerState
  dueMonotonicMs : Int
  dueEpoch : Int
  ringStartedMs : Int
  label : LeTimerLabel
deriving DecidableEq

/-- A slot after `memset`. -/
def LeTimer.cleared : LeTimer :=
  ⟨0, .countdown, .free, 0, 0, 0, .empty⟩

structure LeTimerSet where
  timers : List LeTimer
  nextId : UInt32
  missed : Nat
  size : timers.length = leTimerMax

def LeTimerSet.put (set : LeTimerSet) (slot : Nat) (timer : LeTimer) : LeTimerSet :=
  { set with timers := set.timers.set slot timer, size := by simp [set.size] }

def LeTimerSet.each (set : LeTimerSet) (change : LeTimer → LeTimer) : LeTimerSet :=
  { set with timers := set.timers.map change, size := by simp [set.size] }

def LeTimerSet.withNextId (set : LeTimerSet) (nextId : UInt32) : LeTimerSet :=
  { set with nextId := nextId }

def LeTimerSet.miss (set : LeTimerSet) (count : Nat) : LeTimerSet :=
  { set with missed := set.missed + count }

def leTimerSetInit : LeTimerSet where
  timers := List.replicate leTimerMax .cleared
  nextId := 1
  missed := 0
  size := List.length_replicate

def freeSlot (set : LeTimerSet) : Option Nat :=
  set.timers.findIdx? (·.state = .free)

def leTimerFind (set : LeTimerSet) (id : UInt32) : Option Nat :=
  if id = 0 then none else set.timers.findIdx? (fun t => t.state ≠ .free ∧ t.id = id)

/-! ### Adding -/

def leTimerAddCountdown (set : LeTimerSet) (seconds : Int) (label : LeTimerLabel)
    (nowMonotonicMs : Int) : Except LeTimerError UInt32 × LeTimerSet :=
  if seconds < leTimerMinSeconds ∨ leTimerMaxSeconds < seconds then (.error .range, set)
  else
    match freeSlot set with
    | none => (.error .full, set)
    | some slot =>
        (.ok set.nextId,
          (set.put slot
            ⟨set.nextId, .countdown, .pending, nowMonotonicMs + seconds * 1000, 0, 0, label⟩).withNextId
              (set.nextId + 1))

def leTimerAddAlarm (set : LeTimerSet) (dueEpoch : Int) (label : LeTimerLabel)
    (nowEpoch : Int) : Except LeTimerError UInt32 × LeTimerSet :=
  if nowEpoch < leTimerClockValidEpoch then (.error .clock, set)
  else if dueEpoch ≤ nowEpoch then (.error .range, set)
  else
    match freeSlot set with
    | none => (.error .full, set)
    | some slot =>
        (.ok set.nextId,
          (set.put slot ⟨set.nextId, .alarm, .pending, 0, dueEpoch, 0, label⟩).withNextId
            (set.nextId + 1))

/-- The id a restored timer gets, and the counter after it. A record without an
id takes the next one that is not zero. -/
def restoredId (set : LeTimerSet) (restoreId : UInt32) : UInt32 × UInt32 :=
  if restoreId ≠ 0 then
    (restoreId,
      if set.nextId ≤ restoreId then
        (if restoreId = uintMax then 1 else restoreId + 1)
      else set.nextId)
  else if set.nextId ≠ 0 then (set.nextId, set.nextId + 1)
  else (set.nextId + 1, set.nextId + 2)

def restoreTimer (set : LeTimerSet) (kind : LeTimerKind) (restoreId : UInt32) (dueEpoch : Int)
    (label : LeTimerLabel) (nowEpoch nowMonotonicMs : Int) :
    Except LeTimerError UInt32 × LeTimerSet :=
  if nowEpoch < leTimerClockValidEpoch then (.error .clock, set)
  else
    let delta := dueEpoch - nowEpoch
    if delta < -leTimerMissGraceSeconds then (.error .range, set)
    else if kind = .countdown ∧ leTimerMaxSeconds < delta then (.error .range, set)
    else if restoreId ≠ 0 ∧ (leTimerFind set restoreId).isSome then (.error .notFound, set)
    else
      match freeSlot set with
      | none => (.error .full, set)
      | some slot =>
          let id := restoredId set restoreId
          (.ok id.1,
            (set.put slot
              ⟨id.1, kind, .pending, nowMonotonicMs + delta * 1000, dueEpoch, 0, label⟩).withNextId
                id.2)

/-! ### Time passing -/

/-- What one step does to one slot. -/
inductive LeTimerFate where
  | kept | cleared | missed | fired
deriving DecidableEq, Repr

def leTimerDue (timer : LeTimer) (nowMonotonicMs nowEpoch : Int) : Bool :=
  match timer.kind with
  | .countdown => timer.dueMonotonicMs ≤ nowMonotonicMs
  | .alarm => leTimerClockValidEpoch ≤ nowEpoch && timer.dueEpoch ≤ nowEpoch

def tooLate (timer : LeTimer) (nowMonotonicMs nowEpoch : Int) : Bool :=
  let late := match timer.kind with
    | .countdown => (nowMonotonicMs - timer.dueMonotonicMs).tdiv 1000
    | .alarm => nowEpoch - timer.dueEpoch
  leTimerMissGraceSeconds < late

def leTimerFate (nowMonotonicMs nowEpoch : Int) (timer : LeTimer) : LeTimerFate :=
  match timer.state with
  | .free => .kept
  | .ringing =>
      if leTimerRingSeconds * 1000 ≤ nowMonotonicMs - timer.ringStartedMs then .cleared else .kept
  | .pending =>
      if leTimerDue timer nowMonotonicMs nowEpoch = false then .kept
      else if tooLate timer nowMonotonicMs nowEpoch then .missed
      else .fired

def leTimerAged (nowMonotonicMs nowEpoch : Int) (timer : LeTimer) : LeTimer :=
  match leTimerFate nowMonotonicMs nowEpoch timer with
  | .kept => timer
  | .cleared | .missed => .cleared
  | .fired => { timer with state := .ringing, ringStartedMs := nowMonotonicMs }

def leTimerStep (set : LeTimerSet) (nowMonotonicMs nowEpoch : Int) : List UInt32 × LeTimerSet :=
  let fate := leTimerFate nowMonotonicMs nowEpoch
  ((set.timers.filter (fate · = .fired)).map LeTimer.id,
    (set.each (leTimerAged nowMonotonicMs nowEpoch)).miss
      (set.timers.countP (fate · = .missed)))

/-! ### Removing -/

def leTimerClearIn (state : LeTimerState) (set : LeTimerSet) (id : UInt32) : Option LeTimerSet :=
  match leTimerFind set id with
  | none => none
  | some slot =>
      match set.timers[slot]? with
      | none => none
      | some timer => if timer.state = state then some (set.put slot .cleared) else none

def leTimerClearAllIn (state : LeTimerState) (set : LeTimerSet) : Nat × LeTimerSet :=
  (set.timers.countP (·.state = state),
    set.each fun timer => if timer.state = state then .cleared else timer)

def leTimerCancel (set : LeTimerSet) (id : UInt32) : Except LeTimerError Unit × LeTimerSet :=
  match leTimerClearIn .pending set id with
  | none => (.error .notFound, set)
  | some set => (.ok (), set)

def leTimerCancelAt (set : LeTimerSet) (id : UInt32) (nowMonotonicMs nowEpoch : Int) :
    Except LeTimerError Unit × LeTimerSet :=
  leTimerCancel (leTimerStep set nowMonotonicMs nowEpoch).2 id

def leTimerDismiss (set : LeTimerSet) (id : UInt32) : Nat × LeTimerSet :=
  match leTimerClearIn .ringing set id with
  | none => (0, set)
  | some set => (1, set)

def leTimerDismissAll (set : LeTimerSet) : Nat × LeTimerSet :=
  leTimerClearAllIn .ringing set

def leTimerRingingCount (set : LeTimerSet) : Nat :=
  set.timers.countP (·.state = .ringing)

end LibreEcho.Timer

/-!
The used slots of a timer set, and what the operations of the set do to them.
-/
namespace LibreEcho.Timer

def liveTimers (set : LeTimerSet) : List LeTimer :=
  set.timers.filter (·.state ≠ .free)

def pendingTimers (set : LeTimerSet) : List LeTimer :=
  set.timers.filter (·.state = .pending)

def freeCount (set : LeTimerSet) : Nat :=
  set.timers.countP (·.state = .free)

theorem freeSlot_none {set : LeTimerSet} (full : freeSlot set = none) : freeCount set = 0 := by
  rw [freeSlot, List.findIdx?_eq_none_iff] at full
  refine List.countP_eq_zero.mpr ?_
  intro t member
  simpa using full t member

theorem freeSlot_some {set : LeTimerSet} {slot : Nat} (found : freeSlot set = some slot) :
    ∃ before old after, set.timers = before ++ old :: after ∧ old.state = .free ∧
      ∀ timer, (set.put slot timer).timers = before ++ timer :: after := by
  rw [freeSlot, List.findIdx?_eq_some_iff_getElem] at found
  obtain ⟨bound, free, -⟩ := found
  refine ⟨set.timers.take slot, set.timers[slot], set.timers.drop (slot + 1), ?_, ?_, ?_⟩
  · rw [List.getElem_cons_drop, List.take_append_drop]
  · simpa using free
  · intro timer
    exact List.set_eq_take_append_cons_drop.trans (if_pos bound)

theorem put_freeSlot {set : LeTimerSet} {slot : Nat} (found : freeSlot set = some slot)
    (timer : LeTimer) (pending : timer.state = .pending) :
    (liveTimers (set.put slot timer)).Perm (timer :: liveTimers set) ∧
      (pendingTimers (set.put slot timer)).Perm (timer :: pendingTimers set) ∧
      freeCount set = freeCount (set.put slot timer) + 1 := by
  obtain ⟨before, old, after, timers, free, put⟩ := freeSlot_some found
  unfold liveTimers pendingTimers freeCount
  rw [put timer, timers]
  refine ⟨?_, ?_, ?_⟩
  · simp [List.filter_append, pending, free, List.perm_middle]
  · simp [List.filter_append, pending, free, List.perm_middle]
  · simp [pending, free]
    omega

theorem leTimerFind_isSome {set : LeTimerSet} {id : UInt32} (named : id ≠ 0) :
    (leTimerFind set id).isSome = true ↔ ∃ t ∈ liveTimers set, t.id = id := by
  rw [leTimerFind, if_neg named, List.findIdx?_isSome, List.any_eq_true]
  simp only [liveTimers, List.mem_filter, decide_eq_true_eq, and_assoc]

theorem map_id_live_sublist {change : LeTimer → LeTimer} (timers : List LeTimer)
    (keeps : ∀ t ∈ timers, (change t).state ≠ .free → t.state ≠ .free ∧ (change t).id = t.id) :
    (((timers.map change).filter (·.state ≠ .free)).map LeTimer.id).Sublist
      ((timers.filter (·.state ≠ .free)).map LeTimer.id) := by
  induction timers with
  | nil => exact .slnil
  | cons t rest ih =>
      have later := ih fun other member => keeps other (List.mem_cons_of_mem _ member)
      rw [List.map_cons]
      by_cases used : (change t).state = .free
      · rw [List.filter_cons_of_neg (by simpa using used)]
        by_cases before : t.state = .free
        · rw [List.filter_cons_of_neg (by simpa using before)]
          exact later
        · rw [List.filter_cons_of_pos (by simpa using before), List.map_cons]
          exact later.cons _
      · obtain ⟨before, same⟩ := keeps t List.mem_cons_self used
        rw [List.filter_cons_of_pos (by simpa using used),
          List.filter_cons_of_pos (by simpa using before), List.map_cons, List.map_cons, same]
        exact later.cons_cons _

theorem map_id_live_clear (timers : List LeTimer) (slot : Nat) :
    (((timers.set slot .cleared).filter (·.state ≠ .free)).map LeTimer.id).Sublist
      ((timers.filter (·.state ≠ .free)).map LeTimer.id) := by
  have cleared (rest : List LeTimer) :
      (LeTimer.cleared :: rest).filter (·.state ≠ .free) = rest.filter (·.state ≠ .free) :=
    List.filter_cons_of_neg (by simp [LeTimer.cleared])
  induction timers generalizing slot with
  | nil => exact .slnil
  | cons t rest ih =>
      cases slot with
      | zero =>
          rw [List.set_cons_zero, cleared]
          exact ((List.sublist_cons_self t rest).filter _).map _
      | succ slot =>
          rw [List.set_cons_succ, List.filter_cons, List.filter_cons]
          split
          · exact (ih slot).cons_cons _
          · exact ih slot

end LibreEcho.Timer
