import LibreEcho.Timer.Restore

/-!
A schedule that is saved and restored by a later start.

The set of a start is empty, so every record within its window finds a slot. What the
file holds of a timer is its kind, id and label and a due time in seconds, from which a
countdown is placed on the new monotonic clock.
-/
namespace LibreEcho.Timer

section Load
variable (nowMs nowEpoch : Int)

theorem live_restoreRecords (valid : leTimerClockValidEpoch ≤ nowEpoch) (set : LeTimerSet)
    (records : List StateRecord) :
    (liveTimers (restoreRecords nowMs nowEpoch set records)).Perm
      ((acceptedRecords nowMs nowEpoch set records).map (restoredTimer nowMs nowEpoch) ++
        liveTimers set) := by
  induction records generalizing set with
  | nil => exact List.Perm.refl _
  | cons record rest ih =>
      have later := ih (restoreRecord nowMs nowEpoch set record)
      rcases restoreRecord_cases nowMs nowEpoch valid set record with
        ⟨accepts, live, -, -⟩ | ⟨refused, same⟩
      · rw [acceptedRecords, if_pos accepts, List.map_cons, List.cons_append]
        exact later.trans ((live.append_left _).trans List.perm_middle)
      · rw [acceptedRecords, if_neg refused]
        rwa [liveTimers, liveTimers, same] at later

theorem wantedRecords_eq (valid : leTimerClockValidEpoch ≤ nowEpoch) (set : LeTimerSet)
    (records : List StateRecord) (room : records.length ≤ freeCount set) :
    wantedRecords nowMs nowEpoch set records = records.filter (·.Restorable nowEpoch) := by
  induction records generalizing set with
  | nil => rfl
  | cons record rest ih =>
      rw [List.length_cons] at room
      have left : rest.length ≤ freeCount (restoreRecord nowMs nowEpoch set record) := by
        rcases restoreRecord_cases nowMs nowEpoch valid set record with
          ⟨-, -, -, free⟩ | ⟨-, same⟩
        · omega
        · rw [freeCount, same]
          exact Nat.le_of_succ_le room
      rw [wantedRecords, ih _ left]
      by_cases restorable : record.Restorable nowEpoch
      · rw [if_pos ⟨restorable, by omega⟩, filter_restorable nowEpoch restorable]
      · rw [if_neg fun both => restorable both.1,
          List.filter_cons_of_neg (by simpa using restorable)]

def CounterAbove (set : LeTimerSet) : Prop :=
  ∀ timer ∈ liveTimers set, timer.id < set.nextId

theorem restoreRecord_nextId (valid : leTimerClockValidEpoch ≤ nowEpoch) (set : LeTimerSet)
    (record : StateRecord) :
    (restoreRecord nowMs nowEpoch set record).nextId =
      if Accepts nowEpoch set record then (restoredId set record.id).2 else set.nextId := by
  unfold restoreRecord restoreOrMiss restoreTimer
  by_cases named : record.id = 0
  · rw [if_pos named, if_neg fun accepts => accepts.2.1 named]
  rw [if_neg named, if_neg (Int.not_lt.mpr valid)]
  by_cases stale : record.dueEpoch - nowEpoch < -leTimerMissGraceSeconds
  · rw [if_pos stale, if_neg fun accepts => Int.not_le.mpr stale accepts.1.1]
    rfl
  rw [if_neg stale]
  by_cases far : record.kind = .countdown ∧ leTimerMaxSeconds < record.dueEpoch - nowEpoch
  · rw [if_pos far, if_neg fun accepts => Int.not_le.mpr far.2 (accepts.1.2 far.1)]
    rfl
  rw [if_neg far]
  by_cases clash : record.id ≠ 0 ∧ (leTimerFind set record.id).isSome = true
  · obtain ⟨t, member, same⟩ := (leTimerFind_isSome named).mp clash.2
    rw [if_pos clash, if_neg fun accepts => accepts.2.2.1 t member same]
    rfl
  rw [if_neg clash]
  cases found : freeSlot set with
  | none =>
      rw [if_neg fun accepts => absurd (freeSlot_none found) (Nat.ne_of_gt accepts.2.2.2)]
      rfl
  | some slot =>
      obtain ⟨_, _, free⟩ := put_freeSlot found (restoredTimer nowMs nowEpoch record) rfl
      have accepts : Accepts nowEpoch set record := by
        refine ⟨⟨Int.not_lt.mp stale, ?_⟩, named, ?_, by omega⟩
        · exact fun countdown => Int.not_lt.mp fun beyond => far ⟨countdown, beyond⟩
        · exact fun t member same => clash ⟨named, (leTimerFind_isSome named).mpr ⟨t, member, same⟩⟩
      rw [if_pos accepts]
      rfl

theorem CounterAbove.restoreRecord (valid : leTimerClockValidEpoch ≤ nowEpoch) {set : LeTimerSet}
    (above : CounterAbove set) {record : StateRecord}
    (small : Accepts nowEpoch set record → record.id ≠ uintMax) :
    CounterAbove (restoreRecord nowMs nowEpoch set record) := by
  intro timer member
  rw [restoreRecord_nextId nowMs nowEpoch valid]
  rcases restoreRecord_cases nowMs nowEpoch valid set record with
    ⟨accepts, live, -, -⟩ | ⟨refused, same⟩
  · rw [if_pos accepts, restoredId, if_pos accepts.2.1, if_neg (small accepts)]
    have next : (record.id + 1).toNat = record.id.toNat + 1 := by
      have below := record.id.toNat_lt
      have apart : record.id.toNat ≠ uintMax.toNat :=
        fun same => small accepts (UInt32.toNat_inj.mp same)
      simp only [uintMax, UInt32.reduceToNat] at apart
      rw [UInt32.toNat_add]
      change (record.id.toNat + 1) % 4294967296 = _
      omega
    have before : timer = restoredTimer nowMs nowEpoch record ∨ timer ∈ liveTimers set :=
      List.mem_cons.mp (live.mem_iff.mp member)
    dsimp only
    rw [UInt32.lt_iff_toNat_lt]
    split
    case isTrue le =>
      rw [UInt32.le_iff_toNat_le] at le
      rw [next]
      rcases before with rfl | old
      · exact Nat.lt_succ_self _
      · have := UInt32.lt_iff_toNat_lt.mp (above timer old)
        omega
    case isFalse gt =>
      rcases before with rfl | old
      · rw [UInt32.le_iff_toNat_le] at gt
        exact Nat.lt_of_not_le gt
      · exact UInt32.lt_iff_toNat_lt.mp (above timer old)
  · rw [if_neg refused]
    rw [liveTimers, same] at member
    exact above timer member

theorem CounterAbove.restoreRecords (valid : leTimerClockValidEpoch ≤ nowEpoch) {set : LeTimerSet}
    (above : CounterAbove set) {records : List StateRecord}
    (small : ∀ record ∈ records, record.Restorable nowEpoch → record.id ≠ uintMax) :
    CounterAbove (restoreRecords nowMs nowEpoch set records) := by
  induction records generalizing set with
  | nil => exact above
  | cons record rest ih =>
      refine ih ?_ fun later member => small later (List.mem_cons_of_mem _ member)
      exact above.restoreRecord nowMs nowEpoch valid fun accepts =>
        small record List.mem_cons_self accepts.1

end Load
/-! ### The round trip -/

theorem tdiv_second (ms : Int) :
    ms - 1000 < ms.tdiv 1000 * 1000 ∧ ms.tdiv 1000 * 1000 < ms + 1000 := by
  have whole := Int.tmod_add_tdiv_mul ms 1000
  have low := Int.lt_tmod_of_pos ms (show (0 : Int) < 1000 by decide)
  have high := Int.tmod_lt_of_pos ms (show (0 : Int) < 1000 by decide)
  omega

section Trip
variable (savedMs savedEpoch nowMs nowEpoch : Int)

/-- What the file must keep apart and what its numbers must hold. -/
structure Savable (pending : List LeTimer) : Prop where
  named : ∀ timer ∈ pending, timer.id ≠ 0
  distinct : (pending.map LeTimer.id).Nodup
  fits : ∀ timer ∈ pending, CText.longLongMin ≤ savedDue timer savedMs savedEpoch ∧
    savedDue timer savedMs savedEpoch ≤ CText.longLongMax
  bounded : ∀ timer ∈ pending, timer.kind = .countdown →
    timer.dueMonotonicMs - savedMs ≤ leTimerMaxSeconds * 1000

/-- Not past the grace when the clock shows `nowEpoch`. -/
def WithinGrace (timer : LeTimer) : Prop :=
  -leTimerMissGraceSeconds ≤ savedDue timer savedMs savedEpoch - nowEpoch

instance (timer : LeTimer) : Decidable (WithinGrace savedMs savedEpoch nowEpoch timer) :=
  inferInstanceAs (Decidable (_ ≤ _))

/-- The remaining time of a countdown is the old one less what has passed, to a second. -/
structure RestoredAs (old new : LeTimer) : Prop where
  pending : new.state = .pending
  id : new.id = old.id
  kind : new.kind = old.kind
  label : new.label = old.label
  alarm : old.kind = .alarm → new.dueEpoch = old.dueEpoch
  countdown : old.kind = .countdown →
    let expected := old.dueMonotonicMs - savedMs - (nowEpoch - savedEpoch) * 1000
    expected - 1000 < new.dueMonotonicMs - nowMs ∧ new.dueMonotonicMs - nowMs < expected + 1000

def savedRecord (timer : LeTimer) : StateRecord :=
  ⟨timer.kind, timer.id, savedDue timer savedMs savedEpoch, timer.label⟩

def restoredOf (timer : LeTimer) : LeTimer :=
  restoredTimer nowMs nowEpoch (savedRecord savedMs savedEpoch timer)

theorem restoredAs_restoredOf (timer : LeTimer) :
    RestoredAs savedMs savedEpoch nowMs nowEpoch timer
      (restoredOf savedMs savedEpoch nowMs nowEpoch timer) := by
  refine ⟨rfl, rfl, rfl, rfl, fun alarm => ?_, fun countdown => ?_⟩
  · change savedDue timer savedMs savedEpoch = _
    rw [savedDue, alarm]
  · have due : savedDue timer savedMs savedEpoch =
        savedEpoch + (timer.dueMonotonicMs - savedMs).tdiv 1000 := by
      rw [savedDue, countdown]
    change _ < nowMs + (savedDue timer savedMs savedEpoch - nowEpoch) * 1000 - nowMs ∧
      nowMs + (savedDue timer savedMs savedEpoch - nowEpoch) * 1000 - nowMs < _
    have near := tdiv_second (timer.dueMonotonicMs - savedMs)
    rw [due]
    omega

variable {savedMs savedEpoch nowEpoch} {pending : List LeTimer}

theorem Savable.restorable_iff (savable : Savable savedMs savedEpoch pending)
    (later : savedEpoch ≤ nowEpoch) {timer : LeTimer} (member : timer ∈ pending) :
    (savedRecord savedMs savedEpoch timer).Restorable nowEpoch ↔
      WithinGrace savedMs savedEpoch nowEpoch timer := by
  refine ⟨fun restorable => restorable.1, fun within => ⟨within, fun countdown => ?_⟩⟩
  have bounded := savable.bounded timer member countdown
  have due : savedDue timer savedMs savedEpoch =
      savedEpoch + (timer.dueMonotonicMs - savedMs).tdiv 1000 := by
    rw [savedDue, show timer.kind = .countdown from countdown]
  change savedDue timer savedMs savedEpoch - nowEpoch ≤ _
  have near := tdiv_second (timer.dueMonotonicMs - savedMs)
  simp only [leTimerMaxSeconds] at bounded ⊢
  rw [due]
  omega

theorem Savable.filter_restorable (savable : Savable savedMs savedEpoch pending)
    (later : savedEpoch ≤ nowEpoch) :
    (pending.map (savedRecord savedMs savedEpoch)).filter (·.Restorable nowEpoch) =
      (pending.filter (WithinGrace savedMs savedEpoch nowEpoch ·)).map
        (savedRecord savedMs savedEpoch) := by
  rw [List.filter_map]
  refine congrArg (List.map _) (List.filter_congr fun timer member => ?_)
  exact decide_eq_decide.mpr (savable.restorable_iff later member)

theorem liveTimers_init : liveTimers leTimerSetInit = [] := by
  decide

theorem Savable.accepted (savable : Savable savedMs savedEpoch pending)
    (few : pending.length ≤ leTimerMax) (later : savedEpoch ≤ nowEpoch)
    (valid : leTimerClockValidEpoch ≤ nowEpoch) (nowMs : Int) :
    acceptedRecords nowMs nowEpoch leTimerSetInit (pending.map (savedRecord savedMs savedEpoch)) =
      (pending.filter (WithinGrace savedMs savedEpoch nowEpoch ·)).map
        (savedRecord savedMs savedEpoch) := by
  have slots : freeCount leTimerSetInit = leTimerMax := by decide
  have room : (pending.map (savedRecord savedMs savedEpoch)).length ≤ freeCount leTimerSetInit := by
    rw [List.length_map, slots]
    exact few
  have ids : IdsFree nowEpoch leTimerSetInit (pending.map (savedRecord savedMs savedEpoch)) := by
    have chosen : ((pending.map (savedRecord savedMs savedEpoch)).filter
        (·.Restorable nowEpoch)).take (freeCount leTimerSetInit) =
          (pending.filter (WithinGrace savedMs savedEpoch nowEpoch ·)).map
            (savedRecord savedMs savedEpoch) := by
      rw [savable.filter_restorable later, List.take_of_length_le]
      rw [List.length_map, slots]
      exact (List.length_filter_le _ _).trans few
    unfold IdsFree
    rw [chosen]
    constructor
    · intro record member
      obtain ⟨timer, inside, rfl⟩ := List.mem_map.mp member
      refine ⟨savable.named timer (List.mem_filter.mp inside).1, ?_⟩
      rw [liveTimers_init]
      exact nofun
    · rw [List.map_map]
      exact savable.distinct.sublist (List.filter_sublist.map _)
  rw [(accepted_eq_wanted nowMs nowEpoch valid _ _).mpr ids,
    wantedRecords_eq nowMs nowEpoch valid _ _ room, savable.filter_restorable later]

end Trip

theorem stateLoadAt_roundTrip (o : SaveOutcomes) (earlier : TimerdContext)
    (named : earlier.statePath ≠ []) (savedMs savedEpoch : Int)
    (written : (stateSaveAt o earlier savedMs savedEpoch).1 ≠ .failed)
    (savable : Savable savedMs savedEpoch
      (pendingTimers (stateSaveAt o earlier savedMs savedEpoch).2.timers))
    (nowMs nowEpoch : Int) (valid : leTimerClockValidEpoch ≤ nowEpoch)
    (later : savedEpoch ≤ nowEpoch) :
    let after := (stateSaveAt o earlier savedMs savedEpoch).2
    let kept := (pendingTimers after.timers).filter (WithinGrace savedMs savedEpoch nowEpoch ·)
    let restored :=
      (stateLoadAt (timerdBoot after.statePath after.disk) nowMs nowEpoch).2.timers
    (liveTimers restored).Perm (kept.map (restoredOf savedMs savedEpoch nowMs nowEpoch)) ∧
      (∀ timer ∈ kept, RestoredAs savedMs savedEpoch nowMs nowEpoch timer
        (restoredOf savedMs savedEpoch nowMs nowEpoch timer)) ∧
      ((∀ timer ∈ kept, timer.id ≠ uintMax) → CounterAbove restored) := by
  intro after kept restored
  obtain ⟨file, path⟩ := stateSaveAt_file named written
  let started := timerdBoot after.statePath after.disk
  have namedAfter : started.statePath ≠ [] := path ▸ named
  have read : started.disk.state = some (stateText (savedRecords after.timers savedMs savedEpoch)) :=
    file
  have few : (pendingTimers after.timers).length ≤ leTimerMax := by
    rw [← after.timers.size]
    exact List.length_filter_le _ _
  have records : savedRecords after.timers savedMs savedEpoch =
      (pendingTimers after.timers).map (savedRecord savedMs savedEpoch) := rfl
  have inRange : ∀ record ∈ savedRecords after.timers savedMs savedEpoch, record.InRange := by
    intro record member
    obtain ⟨timer, inside, rfl⟩ := List.mem_map.mp (records ▸ member)
    exact savable.fits timer inside
  have loaded : restored = restoreRecords nowMs nowEpoch leTimerSetInit
      ((pendingTimers after.timers).map (savedRecord savedMs savedEpoch)) :=
    stateLoadAt_records namedAfter inRange read valid
  refine ⟨?_, fun timer _ => restoredAs_restoredOf savedMs savedEpoch nowMs nowEpoch timer, ?_⟩
  · have live := live_restoreRecords nowMs nowEpoch valid leTimerSetInit
      ((pendingTimers after.timers).map (savedRecord savedMs savedEpoch))
    rw [savable.accepted few later valid, liveTimers_init, List.append_nil, List.map_map] at live
    rw [loaded]
    exact live
  · intro small
    rw [loaded]
    refine CounterAbove.restoreRecords nowMs nowEpoch valid ?_ ?_
    · rw [CounterAbove, liveTimers_init]
      exact nofun
    · intro record member restorable
      obtain ⟨timer, inside, rfl⟩ := List.mem_map.mp member
      have within := (savable.restorable_iff later inside).mp restorable
      exact small timer (List.mem_filter.mpr ⟨inside, decide_eq_true within⟩)

def kitchen (id : UInt32) : TimerdContext :=
  { timerdBoot timersPath ⟨none, none⟩ with
    timers := ((leTimerSetInit.put 0 ⟨1, .countdown, .pending, 67000, 0, 0, teaLabel⟩).put 1
      ⟨id, .alarm, .pending, 0, 1760030000, 0, wakeLabel⟩).put 2
        ⟨3, .countdown, .ringing, 5000, 0, 5000, .empty⟩
    stateLoaded := true }

/-- Sixty seconds are left of the countdown, and ten are over when it is restored. -/
theorem stateLoadAt_roundTrip_kitchen :
    let after := (stateSaveAt savesWell (kitchen 2) 7000 1760000000).2
    let restored := (stateLoadAt (timerdBoot after.statePath after.disk) 900 1760000010).2.timers
    (liveTimers restored).map (fun t => (t.id, t.dueMonotonicMs, t.dueEpoch)) =
        [(1, 50900, 1760000060), (2, 29990900, 1760030000)] ∧
      CounterAbove restored := by
  refine ⟨by decide +kernel, ?_⟩
  refine (stateLoadAt_roundTrip savesWell (kitchen 2) (by decide +kernel) 7000 1760000000
    (by decide +kernel) ⟨?_, ?_, ?_, ?_⟩ 900 1760000010 (by decide) (by decide)).2.2 ?_
  · decide +kernel
  · decide +kernel
  · decide +kernel
  · decide +kernel
  · decide +kernel

/-- After the greatest id the counter starts over. -/
theorem stateLoadAt_roundTrip_greatest :
    let after := (stateSaveAt savesWell (kitchen uintMax) 7000 1760000000).2
    let restored := (stateLoadAt (timerdBoot after.statePath after.disk) 900 1760000010).2.timers
    (stateSaveAt savesWell (kitchen uintMax) 7000 1760000000).1 = .ok ∧
      (liveTimers restored).map LeTimer.id = [1, uintMax] ∧ restored.nextId = 1 ∧
      ¬ CounterAbove restored := by
  refine ⟨by decide +kernel, by decide +kernel, by decide +kernel, ?_⟩
  unfold CounterAbove
  decide +kernel

end LibreEcho.Timer
