import LibreEcho.Timer.PollTimeout
import LibreEcho.Timer.Daemon
import LibreEcho.Timer.Schedule

/-!
The signed arithmetic of a load and of what follows it.

A due time comes from the file as it is. The restore subtracts the clock from it before
it looks at it, and multiplies what it keeps; an alarm has no upper bound, so either can
leave the range of 64 bits.
-/
namespace LibreEcho.Timer

/-! ### The operations -/

section Restore
variable (nowMs nowEpoch : Int)

/-- The restore reaches the second half, where the timer is filled in. -/
def RestoreStores (set : LeTimerSet) (kind : LeTimerKind) (restoreId : UInt32)
    (dueEpoch : Int) : Prop :=
  -leTimerMissGraceSeconds ≤ dueEpoch - nowEpoch ∧
    (kind = .countdown → dueEpoch - nowEpoch ≤ leTimerMaxSeconds) ∧
    (restoreId ≠ 0 → (leTimerFind set restoreId).isSome = false) ∧ (freeSlot set).isSome = true

instance (set : LeTimerSet) (kind : LeTimerKind) (restoreId : UInt32) (dueEpoch : Int) :
    Decidable (RestoreStores nowEpoch set kind restoreId dueEpoch) :=
  inferInstanceAs (Decidable (_ ∧ _))

/-- The signed operations of `restore_timer`. -/
def RestoreFits (set : LeTimerSet) (kind : LeTimerKind) (restoreId : UInt32)
    (dueEpoch : Int) : Prop :=
  LongLong.Fits (dueEpoch - nowEpoch) ∧
    (RestoreStores nowEpoch set kind restoreId dueEpoch →
      LongLong.Fits ((dueEpoch - nowEpoch) * 1000) ∧
        LongLong.Fits (nowMs + (dueEpoch - nowEpoch) * 1000))

instance (set : LeTimerSet) (kind : LeTimerKind) (restoreId : UInt32) (dueEpoch : Int) :
    Decidable (RestoreFits nowMs nowEpoch set kind restoreId dueEpoch) :=
  inferInstanceAs (Decidable (_ ∧ _))

/-- What a line has restored, of which kind and with which id. -/
def lineRecord (line : CText) : Option (LeTimerKind × UInt32 × Int) :=
  match stateParseLine line with
  | none => none
  | some (header, _) =>
      let id := if 3 ≤ header.format then header.restoreId else 0
      if header.kind = alarmWord then some (.alarm, id, header.due)
      else if header.kind = countdownWord then some (.countdown, id, header.due)
      else none

/-- The signed operations that `state_load_at` evaluates for a line. -/
def LineFits (set : LeTimerSet) (line : CText) : Prop :=
  ∀ record ∈ lineRecord line, RestoreFits nowMs nowEpoch set record.1 record.2.1 record.2.2

instance (set : LeTimerSet) (line : CText) : Decidable (LineFits nowMs nowEpoch set line) :=
  inferInstanceAs (Decidable (∀ record ∈ lineRecord line, _))

end Restore

/-- The signed operations of `le_timer_step` on a timer. -/
def StepFits (nowMs nowEpoch : Int) (timer : LeTimer) : Prop :=
  match timer.state with
  | .free => True
  | .ringing => LongLong.Fits (nowMs - timer.ringStartedMs)
  | .pending =>
      leTimerDue timer nowMs nowEpoch = true →
        match timer.kind with
        | .countdown => LongLong.Fits (nowMs - timer.dueMonotonicMs)
        | .alarm => LongLong.Fits (nowEpoch - timer.dueEpoch)

/-- What may follow the load. -/
inductive Later where
  | step (nowMs nowEpoch : Int)
  | poll (nowMs nowEpoch : Int)

/-- The clocks leave room: for a ring that starts now, and for the seconds as milliseconds. -/
def RoomyClocks (nowMs nowEpoch : Int) : Prop :=
  0 ≤ nowMs ∧ nowMs + leTimerRingSeconds * 1000 ≤ CText.longLongMax ∧
    nowEpoch * 1000 ≤ CText.longLongMax

def Later.Roomy : Later → Prop
  | .step nowMs nowEpoch | .poll nowMs nowEpoch => RoomyClocks nowMs nowEpoch

def laterStep (set : LeTimerSet) : Later → LeTimerSet
  | .step nowMs nowEpoch => (leTimerStep set nowMs nowEpoch).2
  | .poll _ _ => set

def LaterFits (set : LeTimerSet) : Later → Prop
  | .step nowMs nowEpoch => ∀ timer ∈ set.timers, StepFits nowMs nowEpoch timer
  | .poll nowMs nowEpoch => ∀ timer ∈ set.timers, PollFits nowMs nowEpoch timer

/-! ### What a line does -/

section Line
variable {nowMs nowEpoch : Int} {set : LeTimerSet}

theorem restoreOrMiss_cases (valid : leTimerClockValidEpoch ≤ nowEpoch) (kind : LeTimerKind)
    (restoreId : UInt32) (dueEpoch : Int) (label : LeTimerLabel) :
    (¬ RestoreStores nowEpoch set kind restoreId dueEpoch ∧
        (restoreOrMiss set kind restoreId dueEpoch label nowEpoch nowMs).timers = set.timers) ∨
      (RestoreStores nowEpoch set kind restoreId dueEpoch ∧
        ∃ before old after id, set.timers = before ++ old :: after ∧ old.state = .free ∧
          (restoreOrMiss set kind restoreId dueEpoch label nowEpoch nowMs).timers =
            before ++ ⟨id, kind, .pending, nowMs + (dueEpoch - nowEpoch) * 1000, dueEpoch, 0,
              label⟩ :: after) := by
  unfold restoreOrMiss restoreTimer
  rw [if_neg (Int.not_lt.mpr valid)]
  by_cases stale : dueEpoch - nowEpoch < -leTimerMissGraceSeconds
  · rw [if_pos stale]
    exact .inl ⟨fun stores => Int.not_le.mpr stale stores.1, rfl⟩
  rw [if_neg stale]
  by_cases far : kind = .countdown ∧ leTimerMaxSeconds < dueEpoch - nowEpoch
  · rw [if_pos far]
    exact .inl ⟨fun stores => Int.not_le.mpr far.2 (stores.2.1 far.1), rfl⟩
  rw [if_neg far]
  by_cases clash : restoreId ≠ 0 ∧ (leTimerFind set restoreId).isSome = true
  · rw [if_pos clash]
    refine .inl ⟨fun stores => ?_, rfl⟩
    have absent := stores.2.2.1 clash.1
    rw [clash.2] at absent
    cases absent
  rw [if_neg clash]
  cases found : freeSlot set with
  | none =>
      refine .inl ⟨fun stores => ?_, rfl⟩
      have room := stores.2.2.2
      rw [found] at room
      cases room
  | some slot =>
      obtain ⟨before, old, after, timers, free, put⟩ := freeSlot_some found
      refine .inr ⟨⟨Int.not_lt.mp stale, ?_, ?_, ?_⟩, before, old, after,
        (restoredId set restoreId).1, timers, free, ?_⟩
      · exact fun countdown => Int.not_lt.mp fun beyond => far ⟨countdown, beyond⟩
      · exact fun named => Bool.not_eq_true _ ▸ fun there => clash ⟨named, there⟩
      · rw [found]
        rfl
      · exact put _

theorem restoreLine_none {line : CText} (nothing : lineRecord line = none) :
    restoreLine nowMs nowEpoch set line = set := by
  unfold lineRecord at nothing
  unfold restoreLine
  cases parsed : stateParseLine line with
  | none => rfl
  | some read =>
      obtain ⟨header, label⟩ := read
      simp only [parsed] at nothing ⊢
      split
      case isTrue alarm => rw [if_pos alarm] at nothing; cases nothing
      case isFalse alarm =>
        rw [if_neg alarm] at nothing
        split
        case isTrue countdown => rw [if_pos countdown] at nothing; cases nothing
        case isFalse => rfl

theorem stateParseHeader_due {line : CText} {header : StateHeader}
    (parsed : stateParseHeader line = some header) : LongLong.Fits header.due := by
  unfold stateParseHeader at parsed
  dsimp only at parsed
  split at parsed
  · cases parsed
  · split at parsed
    · cases parsed
    · split at parsed
      · cases parsed
      · next due converted =>
          split at parsed
          · cases parsed
          · next inRange =>
              obtain rfl := Option.some.inj parsed
              exact LongLong.fits_strtoll converted (Bool.not_eq_true _ ▸ fun out => inRange (.inl out))

theorem restoreLine_some {line : CText} {kind : LeTimerKind} {id : UInt32} {due : Int}
    (record : lineRecord line = some (kind, id, due)) :
    LongLong.Fits due ∧ ∃ label, restoreLine nowMs nowEpoch set line =
      restoreOrMiss set kind id due label nowEpoch nowMs := by
  unfold lineRecord at record
  unfold restoreLine
  cases parsed : stateParseLine line with
  | none =>
      rw [parsed] at record
      cases record
  | some read =>
      obtain ⟨header, label⟩ := read
      have fits : LongLong.Fits header.due := by
        unfold stateParseLine at parsed
        cases head : stateParseHeader line with
        | none =>
            rw [head] at parsed
            cases parsed
        | some header' =>
            simp only [head, Option.map_eq_some_iff, Prod.mk.injEq] at parsed
            obtain ⟨_, -, rfl, -⟩ := parsed
            exact stateParseHeader_due head
      simp only [parsed] at record ⊢
      split
      case isTrue alarm =>
        rw [if_pos alarm] at record
        cases record
        exact ⟨fits, label, rfl⟩
      case isFalse alarm =>
        rw [if_neg alarm] at record
        split
        case isTrue countdown =>
          rw [if_pos countdown] at record
          cases record
          exact ⟨fits, label, rfl⟩
        case isFalse countdown =>
          rw [if_neg countdown] at record
          cases record

theorem restoreLine_cases (valid : leTimerClockValidEpoch ≤ nowEpoch) (line : CText) :
    ((restoreLine nowMs nowEpoch set line).timers = set.timers ∧
        ∀ record ∈ lineRecord line,
          ¬ RestoreStores nowEpoch set record.1 record.2.1 record.2.2) ∨
      ∃ kind id due, lineRecord line = some (kind, id, due) ∧
        RestoreStores nowEpoch set kind id due ∧
        ∃ before old after id label, set.timers = before ++ old :: after ∧ old.state = .free ∧
          (restoreLine nowMs nowEpoch set line).timers =
            before ++ ⟨id, kind, .pending, nowMs + (due - nowEpoch) * 1000, due, 0, label⟩ ::
              after := by
  cases record : lineRecord line with
  | none =>
      rw [restoreLine_none record]
      exact .inl ⟨rfl, nofun⟩
  | some read =>
      obtain ⟨kind, id, due⟩ := read
      obtain ⟨-, label, same⟩ := @restoreLine_some nowMs nowEpoch set line kind id due record
      rw [same]
      rcases restoreOrMiss_cases valid kind id due label with ⟨refused, kept⟩ | ⟨stores, stored⟩
      · refine .inl ⟨kept, fun other member => ?_⟩
        cases member
        exact refused
      · obtain ⟨before, old, after, id', timers, free, put⟩ := stored
        exact .inr ⟨kind, id, due, rfl, stores, before, old, after, id', label, timers, free, put⟩

theorem mem_restoreLine (valid : leTimerClockValidEpoch ≤ nowEpoch) {timer : LeTimer}
    (member : timer ∈ set.timers) (used : timer.state ≠ .free) (line : CText) :
    timer ∈ (restoreLine nowMs nowEpoch set line).timers := by
  rcases @restoreLine_cases nowMs nowEpoch set valid line with ⟨same, -⟩ | stored
  · rw [same]
    exact member
  · obtain ⟨_, _, _, -, -, before, old, after, _, _, timers, free, put⟩ := stored
    rw [timers, List.mem_append, List.mem_cons] at member
    rw [put, List.mem_append, List.mem_cons]
    rcases member with front | rfl | back
    · exact .inl front
    · exact absurd free used
    · exact .inr (.inr back)

end Line

/-! ### What is kept in range -/

def Ranged (timer : LeTimer) : Prop :=
  match timer.state with
  | .free => True
  | .ringing =>
      0 ≤ timer.ringStartedMs ∧ timer.ringStartedMs + leTimerRingSeconds * 1000 ≤ CText.longLongMax
  | .pending =>
      match timer.kind with
      | .countdown =>
          -leTimerMissGraceSeconds * 1000 ≤ timer.dueMonotonicMs ∧
            timer.dueMonotonicMs ≤ CText.longLongMax
      | .alarm =>
          0 ≤ timer.dueEpoch ∧
            (timer.dueEpoch - leTimerClockValidEpoch) * 1000 ≤ CText.longLongMax

section Ranged
variable {timer : LeTimer} {nowMs nowEpoch : Int}

theorem Ranged.stepFits (ranged : Ranged timer) (roomy : RoomyClocks nowMs nowEpoch) :
    StepFits nowMs nowEpoch timer := by
  unfold Ranged at ranged
  unfold RoomyClocks at roomy
  unfold StepFits
  cases state : timer.state with
  | free => trivial
  | ringing =>
      simp only [state] at ranged ⊢
      simp only [LongLong.fits_iff, leTimerRingSeconds, CText.longLongMax] at *
      omega
  | pending =>
      intro due
      unfold leTimerDue at due
      cases kind : timer.kind with
      | countdown =>
          simp only [state, kind] at ranged ⊢
          simp only [LongLong.fits_iff, leTimerRingSeconds, leTimerMissGraceSeconds,
            CText.longLongMax] at *
          omega
      | alarm =>
          simp only [kind, Bool.and_eq_true] at due
          have reached := of_decide_eq_true due.2
          simp only [state, kind] at ranged ⊢
          simp only [LongLong.fits_iff, CText.longLongMax] at *
          omega

theorem Ranged.pollFits (ranged : Ranged timer) (roomy : RoomyClocks nowMs nowEpoch) :
    PollFits nowMs nowEpoch timer := by
  unfold Ranged at ranged
  unfold RoomyClocks at roomy
  unfold PollFits
  cases state : timer.state with
  | free => trivial
  | ringing =>
      simp only [state] at ranged ⊢
      simp only [LongLong.fits_iff, leTimerRingSeconds, CText.longLongMax] at *
      omega
  | pending =>
      cases kind : timer.kind with
      | countdown =>
          simp only [state, kind] at ranged ⊢
          simp only [LongLong.fits_iff, leTimerRingSeconds, leTimerMissGraceSeconds,
            CText.longLongMax] at *
          omega
      | alarm =>
          simp only [state, kind] at ranged ⊢
          intro valid
          simp only [LongLong.fits_iff, leTimerClockValidEpoch, CText.longLongMax] at *
          omega

theorem Ranged.aged (ranged : Ranged timer) (roomy : RoomyClocks nowMs nowEpoch) :
    Ranged (leTimerAged nowMs nowEpoch timer) := by
  unfold leTimerAged
  cases leTimerFate nowMs nowEpoch timer with
  | kept => exact ranged
  | cleared | missed => exact trivial
  | fired => exact ⟨roomy.1, roomy.2.1⟩

end Ranged
/-! ### Loading -/

section Load
variable (nowMs nowEpoch : Int)

/-- The signed operations that `state_load_at` evaluates on the lines of its file. -/
def StateLoadFits (ctx : TimerdContext) : Prop :=
  match ctx.disk.state with
  | none => True
  | some text =>
      Runs.Admits (restoreLine nowMs nowEpoch) (LineFits nowMs nowEpoch) ctx.timers
        (stateLines text)

/--
A due time that is not too far before the clock; what is stored lies near enough, and an
alarm also from the earliest time that a clock may be set back to.
-/
def LineKept (set : LeTimerSet) (line : CText) : Prop :=
  ∀ record ∈ lineRecord line,
    CText.longLongMin ≤ record.2.2 - nowEpoch ∧
      (RestoreStores nowEpoch set record.1 record.2.1 record.2.2 →
        nowMs + (record.2.2 - nowEpoch) * 1000 ≤ CText.longLongMax ∧
          (record.1 = .alarm →
            (record.2.2 - leTimerClockValidEpoch) * 1000 ≤ CText.longLongMax))

instance (set : LeTimerSet) (line : CText) : Decidable (LineKept nowMs nowEpoch set line) :=
  inferInstanceAs (Decidable (∀ record ∈ lineRecord line, _))

def StateLoadKept (ctx : TimerdContext) : Prop :=
  match ctx.disk.state with
  | none => True
  | some text =>
      Runs.Admits (restoreLine nowMs nowEpoch) (LineKept nowMs nowEpoch) ctx.timers
        (stateLines text)

instance (ctx : TimerdContext) : Decidable (StateLoadFits nowMs nowEpoch ctx) := by
  unfold StateLoadFits
  cases ctx.disk.state with
  | none => exact isTrue trivial
  | some text => exact inferInstanceAs (Decidable (Runs.Admits _ _ _ _))

instance (ctx : TimerdContext) : Decidable (StateLoadKept nowMs nowEpoch ctx) := by
  unfold StateLoadKept
  cases ctx.disk.state with
  | none => exact isTrue trivial
  | some text => exact inferInstanceAs (Decidable (Runs.Admits _ _ _ _))

end Load

def AllRanged (set : LeTimerSet) : Prop :=
  ∀ timer ∈ set.timers, Ranged timer

theorem AllRanged.later {set : LeTimerSet} (ranged : AllRanged set) {later : Later}
    (roomy : later.Roomy) : LaterFits set later ∧ AllRanged (laterStep set later) := by
  cases later with
  | step nowMs nowEpoch =>
      refine ⟨fun timer member => (ranged timer member).stepFits roomy, ?_⟩
      intro timer member
      obtain ⟨old, inside, rfl⟩ := List.mem_map.mp member
      exact (ranged old inside).aged roomy
  | poll nowMs nowEpoch =>
      exact ⟨fun timer member => (ranged timer member).pollFits roomy, ranged⟩

theorem AllRanged.laters {set : LeTimerSet} (ranged : AllRanged set) {laters : List Later}
    (roomy : ∀ later ∈ laters, later.Roomy) : Runs.Admits laterStep LaterFits set laters := by
  induction laters generalizing set with
  | nil => trivial
  | cons later rest ih =>
      have here := ranged.later (roomy later List.mem_cons_self)
      exact ⟨here.1, ih here.2 fun l member => roomy l (List.mem_cons_of_mem _ member)⟩

section Clocks
variable {nowMs nowEpoch : Int} {set : LeTimerSet}

/-- The clocks of a load: milliseconds since the boot, and seconds that count as set. -/
structure LoadClocks (nowMs nowEpoch : Int) : Prop where
  since : 0 ≤ nowMs
  valid : leTimerClockValidEpoch ≤ nowEpoch
  fits : LongLong.Fits nowEpoch

theorem LineKept.fits (clocks : LoadClocks nowMs nowEpoch) {line : CText}
    (kept : LineKept nowMs nowEpoch set line) : LineFits nowMs nowEpoch set line := by
  rintro ⟨kind, id, due⟩ record
  have range := (@restoreLine_some nowMs nowEpoch set line kind id due record).1
  obtain ⟨low, stored⟩ := kept _ record
  have since := clocks.since
  have valid := clocks.valid
  dsimp only at low stored
  simp only [RestoreFits, LongLong.fits_iff, CText.longLongMin, CText.longLongMax,
    leTimerClockValidEpoch] at *
  refine ⟨by omega, fun stores => ?_⟩
  have high := (stored stores).1
  have recent := stores.1
  simp only [leTimerMissGraceSeconds] at recent
  omega

theorem LineKept.ranged (clocks : LoadClocks nowMs nowEpoch) (ranged : AllRanged set)
    {line : CText} (kept : LineKept nowMs nowEpoch set line) :
    AllRanged (restoreLine nowMs nowEpoch set line) := by
  rcases @restoreLine_cases nowMs nowEpoch set clocks.valid line with ⟨same, -⟩ | stored
  · intro timer member
    rw [same] at member
    exact ranged timer member
  · obtain ⟨kind, id, due, record, stores, before, old, after, _, label, timers, -, put⟩ := stored
    intro timer member
    rw [put, List.mem_append, List.mem_cons] at member
    have inside (t : LeTimer) : t ∈ set.timers ↔ t ∈ before ∨ t = old ∨ t ∈ after := by
      rw [timers, List.mem_append, List.mem_cons]
    rcases member with front | rfl | back
    · exact ranged timer ((inside timer).mpr (.inl front))
    · obtain ⟨high, alarmHigh⟩ := (kept _ record).2 stores
      have since := clocks.since
      have valid := clocks.valid
      have recent := stores.1
      cases kind with
      | countdown =>
          simp only [Ranged, leTimerMissGraceSeconds] at *
          omega
      | alarm =>
          have far := alarmHigh rfl
          simp only [Ranged, leTimerMissGraceSeconds, leTimerClockValidEpoch] at *
          omega
    · exact ranged timer ((inside timer).mpr (.inr (.inr back)))

theorem mem_restoreLines (valid : leTimerClockValidEpoch ≤ nowEpoch) {timer : LeTimer}
    (used : timer.state ≠ .free) (lines : List CText) (member : timer ∈ set.timers) :
    timer ∈ (Runs.run (restoreLine nowMs nowEpoch) set lines).timers := by
  induction lines generalizing set with
  | nil => exact member
  | cons line rest ih => exact ih (mem_restoreLine valid member used line)

theorem LineFits.kept (clocks : LoadClocks nowMs nowEpoch) {line : CText}
    (fits : LineFits nowMs nowEpoch set line)
    (polled : ∀ timer ∈ (restoreLine nowMs nowEpoch set line).timers, timer.state ≠ .free →
      PollFits 0 leTimerClockValidEpoch timer) :
    LineKept nowMs nowEpoch set line := by
  rintro ⟨kind, id, due⟩ record
  obtain ⟨first, second⟩ := fits _ record
  refine ⟨first.1, fun stores => ⟨(second stores).2.2, ?_⟩⟩
  rintro rfl
  rcases @restoreLine_cases nowMs nowEpoch set clocks.valid line with ⟨-, refused⟩ | stored
  · exact absurd stores (refused _ record)
  · obtain ⟨_, _, _, record', -, before, old, after, _, label, -, -, put⟩ := stored
    obtain ⟨rfl, rfl, rfl⟩ := by simpa using record'.symm.trans record
    have poll := polled _ (put ▸ List.mem_append_right before List.mem_cons_self)
      (show LeTimerState.pending ≠ .free by decide)
    exact (poll (Int.le_refl _)).2.2

theorem admits_lineKept (clocks : LoadClocks nowMs nowEpoch) {lines : List CText}
    (fits : Runs.Admits (restoreLine nowMs nowEpoch) (LineFits nowMs nowEpoch) set lines)
    (polled : ∀ timer ∈ (Runs.run (restoreLine nowMs nowEpoch) set lines).timers,
      timer.state ≠ .free → PollFits 0 leTimerClockValidEpoch timer) :
    Runs.Admits (restoreLine nowMs nowEpoch) (LineKept nowMs nowEpoch) set lines := by
  induction lines generalizing set with
  | nil => trivial
  | cons line rest ih =>
      refine ⟨fits.1.kept clocks fun timer member used => ?_, ih fits.2 polled⟩
      exact polled timer (mem_restoreLines clocks.valid used rest member) used

end Clocks

def bootWith (text : String) : TimerdContext :=
  timerdBoot "/data/timers".toList ⟨some text.toList, none⟩

theorem allRanged_boot (text : String) : AllRanged (bootWith text).timers := by
  intro timer member
  rw [List.eq_of_mem_replicate member]
  trivial

end LibreEcho.Timer
