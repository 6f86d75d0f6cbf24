import LibreEcho.Timer.LiveIds
import LibreEcho.Timer.Restore

/-!
When the committed state file lists exactly the pending timers.

A change of the pending timers has to leave the schedule dirty until a save went
through. The step hidden in a cancel that then fails, a step that only drops late
timers and a load that leaves records out change them without a mark.
-/
namespace LibreEcho.Timer

abbrev TimerEntry := UInt32 × LeTimerKind × LeTimerLabel × Option Int

def alarmDue (kind : LeTimerKind) (dueEpoch : Int) : Option Int :=
  match kind with
  | .alarm => some dueEpoch
  | .countdown => none

def recordEntry (record : StateRecord) : TimerEntry :=
  (record.id, record.kind, record.label, alarmDue record.kind record.dueEpoch)

def timerEntry (timer : LeTimer) : TimerEntry :=
  (timer.id, timer.kind, timer.label, alarmDue timer.kind timer.dueEpoch)

def Describes (file : Option CText) (set : LeTimerSet) : Prop :=
  match file with
  | none => pendingTimers set = []
  | some text => ∃ records, text = stateText records ∧
      (records.map recordEntry).Perm ((pendingTimers set).map timerEntry)

def FileTracks (ctx : TimerdContext) : Prop :=
  ctx.stateLoaded = true → ctx.dirty = false → Describes ctx.disk.state ctx.timers

/-! ### What keeps the pending timers -/

theorem pending_each {set : LeTimerSet} {change : LeTimer → LeTimer}
    (keeps : ∀ t ∈ set.timers,
      t.state = .pending ∨ (change t).state = .pending → change t = t) :
    pendingTimers (set.each change) = pendingTimers set := by
  simp only [pendingTimers, LeTimerSet.each]
  generalize set.timers = timers at keeps
  induction timers with
  | nil => rfl
  | cons t rest ih =>
      have later := ih fun other member => keeps other (List.mem_cons_of_mem _ member)
      rw [List.map_cons]
      by_cases after : (change t).state = .pending
      · have same := keeps t List.mem_cons_self (.inr after)
        rw [List.filter_cons_of_pos (by simpa using after), later, same,
          List.filter_cons_of_pos (by simpa [same] using after)]
      · have before : t.state ≠ .pending := by
          intro before
          rw [keeps t List.mem_cons_self (.inl before)] at after
          exact after before
        rw [List.filter_cons_of_neg (by simpa using after), later,
          List.filter_cons_of_neg (by simpa using before)]

theorem pending_clear {set : LeTimerSet} {slot : Nat} {timer : LeTimer}
    (there : set.timers[slot]? = some timer) (other : timer.state ≠ .pending) :
    pendingTimers (set.put slot .cleared) = pendingTimers set := by
  simp only [pendingTimers, LeTimerSet.put]
  generalize set.timers = timers at there
  have cleared (rest : List LeTimer) :
      (LeTimer.cleared :: rest).filter (·.state = .pending) = rest.filter (·.state = .pending) :=
    List.filter_cons_of_neg (by simp [LeTimer.cleared])
  induction timers generalizing slot with
  | nil => rfl
  | cons t rest ih =>
      cases slot with
      | zero =>
          rw [List.getElem?_cons_zero, Option.some.injEq] at there
          subst there
          rw [List.set_cons_zero, cleared, List.filter_cons_of_neg (by simpa using other)]
      | succ slot =>
          rw [List.getElem?_cons_succ] at there
          rw [List.set_cons_succ, List.filter_cons, List.filter_cons, ih there]

def Undisturbed (set : LeTimerSet) (nowMs nowEpoch : Int) : Prop :=
  ∀ t ∈ set.timers, leTimerFate nowMs nowEpoch t ≠ .fired ∧ leTimerFate nowMs nowEpoch t ≠ .missed

theorem pending_step {set : LeTimerSet} {nowMs nowEpoch : Int}
    (undisturbed : Undisturbed set nowMs nowEpoch) :
    pendingTimers (leTimerStep set nowMs nowEpoch).2 = pendingTimers set := by
  refine pending_each ?_
  intro t member pending
  obtain ⟨fires, drops⟩ := undisturbed t member
  cases fate : leTimerFate nowMs nowEpoch t with
  | kept => simp only [leTimerAged, fate]
  | fired => exact absurd fate fires
  | missed => exact absurd fate drops
  | cleared =>
      simp only [leTimerAged, fate] at pending ⊢
      have ringing : t.state = .ringing := by
        cases state : t.state with
        | free => simp [leTimerFate, state] at fate
        | ringing => rfl
        | pending =>
            simp only [leTimerFate, state] at fate
            split at fate
            · exact absurd fate (by simp)
            · split at fate
              · exact absurd fate (by simp)
              · exact absurd fate (by simp)
      rw [ringing] at pending
      cases pending with
      | inl pending => exact absurd pending (by decide)
      | inr pending => exact absurd pending (by decide)

theorem liveIds_step (set : LeTimerSet) (nowMs nowEpoch : Int) :
    (liveIds (leTimerStep set nowMs nowEpoch).2).Sublist (liveIds set) :=
  map_id_live_sublist set.timers fun t _ => leTimerAged_keeps nowMs nowEpoch t

def PendingStays (set : LeTimerSet) (id : UInt32) (nowMs nowEpoch : Int) : Prop :=
  ∃ slot t, leTimerFind set id = some slot ∧ set.timers[slot]? = some t ∧
    t.state = .pending ∧ leTimerFate nowMs nowEpoch t = .kept

theorem leTimerCancelAt_ok {set : LeTimerSet} {id : UInt32} {nowMs nowEpoch : Int}
    (stays : PendingStays set id nowMs nowEpoch) :
    (leTimerCancelAt set id nowMs nowEpoch).1 = .ok () := by
  obtain ⟨slot, t, found, there, pending, kept⟩ := stays
  have named : id ≠ 0 := by
    intro zero
    rw [leTimerFind, if_pos zero] at found
    exact absurd found (by simp)
  rw [leTimerFind, if_neg named, List.findIdx?_eq_some_iff_getElem] at found
  obtain ⟨bound, here, before⟩ := found
  have at_slot : set.timers[slot] = t := by
    rw [List.getElem?_eq_getElem bound] at there
    exact Option.some.inj there
  have same : leTimerAged nowMs nowEpoch t = t := by simp only [leTimerAged, kept]
  have again : leTimerFind (leTimerStep set nowMs nowEpoch).2 id = some slot := by
    rw [leTimerFind, if_neg named, List.findIdx?_eq_some_iff_getElem]
    refine ⟨by simpa [leTimerStep, LeTimerSet.each, LeTimerSet.miss] using bound, ?_, ?_⟩
    · simpa [leTimerStep, LeTimerSet.each, LeTimerSet.miss, at_slot, same] using here
    · intro j earlier
      have other := before j earlier
      simp only [leTimerStep, LeTimerSet.each, LeTimerSet.miss, List.getElem_map,
        decide_eq_true_eq] at other ⊢
      rintro ⟨used, named⟩
      have keeps := leTimerAged_keeps nowMs nowEpoch _ used
      exact other ⟨keeps.1, keeps.2 ▸ named⟩
  have still : (leTimerStep set nowMs nowEpoch).2.timers[slot]? = some t := by
    simp [leTimerStep, LeTimerSet.each, LeTimerSet.miss, there, same]
  simp [leTimerCancelAt, leTimerCancel, leTimerClearIn, again, still, pending]

/-! ### Steps and requests -/

/-- What a step or a request leaves: the file and the load as they were, and
either the mark or the pending timers of before. -/
structure Marked (ctx after : TimerdContext) : Prop where
  path : after.statePath = ctx.statePath
  disk : after.disk = ctx.disk
  loaded : after.stateLoaded = ctx.stateLoaded
  kept : after.dirty = true ∨
    ctx.dirty = false ∧ pendingTimers after.timers = pendingTimers ctx.timers ∧
      (liveIds after.timers).Sublist (liveIds ctx.timers)

theorem Marked.refl (ctx : TimerdContext) : Marked ctx ctx := by
  refine ⟨rfl, rfl, rfl, ?_⟩
  cases dirty : ctx.dirty with
  | true => exact .inl rfl
  | false => exact .inr ⟨rfl, rfl, List.Sublist.refl _⟩

theorem Marked.touch (ctx : TimerdContext) (timers : LeTimerSet) :
    Marked ctx (ctx.touch timers) :=
  ⟨rfl, rfl, rfl, .inl rfl⟩

theorem Marked.withTimers {ctx : TimerdContext} {timers : LeTimerSet}
    (kept : ctx.dirty = true ∨ pendingTimers timers = pendingTimers ctx.timers)
    (fewer : (liveIds timers).Sublist (liveIds ctx.timers)) :
    Marked ctx (ctx.withTimers timers) := by
  refine ⟨rfl, rfl, rfl, ?_⟩
  cases dirty : ctx.dirty with
  | true => exact .inl dirty
  | false =>
      rw [dirty] at kept
      exact .inr ⟨rfl, kept.resolve_left (by simp), fewer⟩

/-- The hidden step of a cancel changes nothing unless the cancel goes through. -/
def CancelRecorded (ctx : TimerdContext) (id : UInt32) (nowMs nowEpoch : Int) : Prop :=
  ctx.dirty = true ∨ Undisturbed ctx.timers nowMs nowEpoch ∨
    PendingStays ctx.timers id nowMs nowEpoch

theorem marked_cancelId {ctx : TimerdContext} {id : UInt32} {nowMs nowEpoch : Int}
    (recorded : CancelRecorded ctx id nowMs nowEpoch) :
    Marked ctx (cancelId ctx id nowMs nowEpoch).2 := by
  rw [cancelId]
  cases result : leTimerCancelAt ctx.timers id nowMs nowEpoch with
  | mk answer timers =>
      cases answer with
      | ok _ => exact Marked.touch ctx timers
      | error _ =>
          have stepped : timers = (leTimerStep ctx.timers nowMs nowEpoch).2 := by
            simp only [leTimerCancelAt, leTimerCancel] at result
            split at result
            · exact (Prod.mk.inj result).2.symm
            · exact absurd (Prod.mk.inj result).1 (by simp)
          rw [stepped]
          refine Marked.withTimers ?_ (liveIds_step ctx.timers nowMs nowEpoch)
          obtain dirty | undisturbed | stays := recorded
          · exact .inl dirty
          · exact .inr (pending_step undisturbed)
          · have ok := leTimerCancelAt_ok stays
            rw [result] at ok
            exact absurd ok (by simp)

def cancelsId (ctx : TimerdContext) (r : TimerdRequest) : Option UInt32 :=
  match r.label, r.command with
  | .invalid, _ => none
  | _, .cancel (.value id) => if id = 0 then none else some id
  | label, .cancel .missing =>
      match labelled ctx.timers (requestLabel label) with
      | [timer] => if (requestLabel label).text = [] then none else some timer.id
      | _ => none
  | _, _ => none

theorem marked_add {ctx : TimerdContext} {result : Except LeTimerError UInt32 × LeTimerSet}
    (refused : ∀ error, result.1 = .error error → result.2 = ctx.timers) :
    Marked ctx (dispatchAdd ctx result).2 := by
  obtain ⟨answer, timers⟩ := result
  cases answer with
  | ok id => exact Marked.touch ctx timers
  | error error =>
      have same : timers = ctx.timers := refused error rfl
      rw [same]
      exact Marked.refl ctx

theorem addCountdown_refused (set : LeTimerSet) (seconds : Int) (label : LeTimerLabel)
    (nowMs : Int) : ∀ error, (leTimerAddCountdown set seconds label nowMs).1 = .error error →
      (leTimerAddCountdown set seconds label nowMs).2 = set := by
  intro error failed
  unfold leTimerAddCountdown at failed ⊢
  split
  · rfl
  · split
    · rfl
    · next found => simp_all

theorem addAlarm_refused (set : LeTimerSet) (dueEpoch : Int) (label : LeTimerLabel)
    (nowEpoch : Int) : ∀ error, (leTimerAddAlarm set dueEpoch label nowEpoch).1 = .error error →
      (leTimerAddAlarm set dueEpoch label nowEpoch).2 = set := by
  intro error failed
  unfold leTimerAddAlarm at failed ⊢
  split
  · rfl
  · split
    · rfl
    · split
      · rfl
      · next found => simp_all

theorem marked_dismiss {ctx : TimerdContext} (remoteStopped : Nat) {stopped : Nat × LeTimerSet}
    (pending : pendingTimers stopped.2 = pendingTimers ctx.timers)
    (fewer : (liveIds stopped.2).Sublist (liveIds ctx.timers)) :
    Marked ctx (dispatchDismiss ctx remoteStopped stopped).2 := by
  rw [dispatchDismiss]
  split
  · exact Marked.withTimers (.inr pending) fewer
  · exact Marked.touch ctx stopped.2

theorem dismiss_keeps (set : LeTimerSet) (id : UInt32) :
    pendingTimers (leTimerDismiss set id).2 = pendingTimers set ∧
      (liveIds (leTimerDismiss set id).2).Sublist (liveIds set) := by
  rw [leTimerDismiss, leTimerClearIn]
  cases leTimerFind set id with
  | none => exact ⟨rfl, List.Sublist.refl _⟩
  | some slot =>
      cases there : set.timers[slot]? with
      | none =>
          simp only [there]
          exact ⟨trivial, List.Sublist.refl _⟩
      | some timer =>
          simp only [there]
          by_cases ringing : timer.state = .ringing
          · simp only [if_pos ringing]
            refine ⟨pending_clear there ?_, map_id_live_clear set.timers slot⟩
            rw [ringing]
            decide
          · simp only [if_neg ringing]
            exact ⟨trivial, List.Sublist.refl _⟩

theorem clearAllIn_live (state : LeTimerState) (set : LeTimerSet) :
    (liveIds (leTimerClearAllIn state set).2).Sublist (liveIds set) := by
  refine map_id_live_sublist set.timers ?_
  intro t _ used
  by_cases hit : t.state = state
  · rw [if_pos hit] at used
    exact absurd rfl used
  · rw [if_neg hit] at used ⊢
    exact ⟨used, rfl⟩

theorem dismissAll_keeps (set : LeTimerSet) :
    pendingTimers (leTimerDismissAll set).2 = pendingTimers set := by
  refine pending_each ?_
  intro t _ pending
  by_cases ringing : t.state = .ringing
  · rw [if_pos ringing] at pending
    cases pending with
    | inl pending => exact absurd (ringing.symm.trans pending) (by decide)
    | inr pending => exact absurd pending (by decide)
  · rw [if_neg ringing]

theorem cancelAll_none {set : LeTimerSet} (none : (leTimerClearAllIn .pending set).1 = 0) :
    pendingTimers (leTimerClearAllIn .pending set).2 = pendingTimers set := by
  refine pending_each ?_
  intro t member _
  have other := List.countP_eq_zero.mp none t member
  rw [if_neg (by simpa using other)]

theorem marked_dispatchCommand {ctx : TimerdContext} {r : TimerdRequest}
    (valid : ∀ id, cancelsId ctx r = some id → CancelRecorded ctx id r.nowMs r.nowEpoch)
    (labelled : r.label ≠ .invalid) :
    Marked ctx (dispatchCommand ctx r).2 := by
  obtain ⟨command, label, nowMs, nowEpoch⟩ := r
  cases command with
  | status | next | unknown => exact Marked.refl ctx
  | add seconds =>
      cases seconds with
      | missing | invalid => exact Marked.refl ctx
      | value seconds => exact marked_add (addCountdown_refused ctx.timers seconds _ nowMs)
  | addAlarm epoch =>
      cases epoch with
      | missing | invalid => exact Marked.refl ctx
      | value epoch => exact marked_add (addAlarm_refused ctx.timers epoch _ nowEpoch)
  | cancelAll =>
      simp only [dispatchCommand]
      split
      · next none =>
          exact Marked.withTimers (.inr (cancelAll_none none)) (clearAllIn_live .pending ctx.timers)
      · exact Marked.touch ctx _
  | dismiss id remoteStopped =>
      cases id with
      | invalid => exact Marked.refl ctx
      | missing =>
          exact marked_dismiss remoteStopped (dismissAll_keeps ctx.timers)
            (clearAllIn_live .ringing ctx.timers)
      | value id =>
          simp only [dispatchCommand]
          split
          · exact Marked.refl ctx
          · obtain ⟨pending, fewer⟩ := dismiss_keeps ctx.timers id
            exact marked_dismiss 0 pending fewer
  | cancel id =>
      cases id with
      | invalid => exact Marked.refl ctx
      | value id =>
          simp only [dispatchCommand]
          by_cases zero : id = 0
          · rw [if_pos zero]
            exact Marked.refl ctx
          · rw [if_neg zero]
            refine marked_cancelId (valid id ?_)
            cases label with
            | invalid => exact absurd rfl labelled
            | missing | value _ => simp [cancelsId, zero]
      | missing =>
          simp only [dispatchCommand]
          by_cases empty : (requestLabel label).text = []
          · rw [if_pos empty]
            exact Marked.refl ctx
          rw [if_neg empty, cancelLabel]
          cases found : Timer.labelled ctx.timers (requestLabel label) with
          | nil => exact Marked.refl ctx
          | cons timer more =>
              cases more with
              | cons other rest => exact Marked.refl ctx
              | nil =>
                  refine marked_cancelId (valid timer.id ?_)
                  cases label with
                  | invalid => exact absurd rfl labelled
                  | missing | value _ => simp [cancelsId, found, empty]

theorem marked_dispatch {ctx : TimerdContext} {r : TimerdRequest}
    (valid : ∀ id, cancelsId ctx r = some id → CancelRecorded ctx id r.nowMs r.nowEpoch) :
    Marked ctx (dispatch ctx r).2 := by
  rw [dispatch]
  cases label : r.label with
  | invalid => exact Marked.refl ctx
  | missing | value _ => exact marked_dispatchCommand valid (by simp [label])

def StepRecorded (ctx : TimerdContext) (nowMs nowEpoch : Int) : Prop :=
  ctx.dirty = true ∨ (∃ t ∈ ctx.timers.timers, leTimerFate nowMs nowEpoch t = .fired) ∨
    ∀ t ∈ ctx.timers.timers, leTimerFate nowMs nowEpoch t ≠ .missed

theorem marked_turnStep {ctx : TimerdContext} {nowMs nowEpoch : Int}
    (recorded : StepRecorded ctx nowMs nowEpoch) : Marked ctx (turnStep ctx nowMs nowEpoch) := by
  rw [turnStep]
  cases result : leTimerStep ctx.timers nowMs nowEpoch with
  | mk fired timers =>
      cases fired with
      | cons id rest => exact Marked.touch ctx timers
      | nil =>
          have stepped : timers = (leTimerStep ctx.timers nowMs nowEpoch).2 := by rw [result]
          have silent : ∀ t ∈ ctx.timers.timers, leTimerFate nowMs nowEpoch t ≠ .fired := by
            intro t member fires
            have fired : (leTimerStep ctx.timers nowMs nowEpoch).1 = [] := by rw [result]
            have none := List.filter_eq_nil_iff.mp (List.map_eq_nil_iff.mp fired) t member
            exact none (decide_eq_true fires)
          rw [stepped]
          refine Marked.withTimers ?_ (liveIds_step ctx.timers nowMs nowEpoch)
          obtain dirty | ⟨t, member, fires⟩ | undropped := recorded
          · exact .inl dirty
          · exact absurd fires (silent t member)
          · exact .inr (pending_step fun t member => ⟨silent t member, undropped t member⟩)

/-! ### The load -/

def FileKept (file : Option CText) (nowEpoch : Int) : Prop :=
  match file with
  | none => True
  | some text => ∃ records, text = stateText records ∧
      (∀ record ∈ records, record.InRange ∧ record.Restorable nowEpoch ∧ record.id ≠ 0) ∧
      (records.map StateRecord.id).Nodup ∧ records.length ≤ leTimerMax

def LoadsFile (ctx : TimerdContext) (nowEpoch loadEpoch : Int) : Prop :=
  ctx.stateLoaded = false ∧ leTimerClockValidEpoch ≤ nowEpoch ∧ leTimerClockValidEpoch ≤ loadEpoch

theorem acceptedRecords_all {nowMs nowEpoch : Int} (valid : leTimerClockValidEpoch ≤ nowEpoch)
    {set : LeTimerSet} {records : List StateRecord}
    (good : ∀ record ∈ records, record.Restorable nowEpoch ∧ record.id ≠ 0)
    (distinct : (records.map StateRecord.id).Nodup)
    (fresh : ∀ record ∈ records, ∀ t ∈ liveTimers set, t.id ≠ record.id)
    (room : records.length ≤ freeCount set) :
    acceptedRecords nowMs nowEpoch set records = records := by
  induction records generalizing set with
  | nil => rfl
  | cons record rest ih =>
      rw [List.map_cons, List.nodup_cons] at distinct
      rw [List.length_cons] at room
      have accepts : Accepts nowEpoch set record :=
        ⟨(good record List.mem_cons_self).1, (good record List.mem_cons_self).2,
          fresh record List.mem_cons_self, by omega⟩
      obtain ⟨-, live, -, free⟩ | ⟨refused, -⟩ :=
        restoreRecord_cases nowMs nowEpoch valid set record
      · rw [acceptedRecords, if_pos accepts]
        refine congrArg (record :: ·) (ih ?_ distinct.2 ?_ (by omega))
        · exact fun other member => good other (List.mem_cons_of_mem _ member)
        · intro other member t inside
          cases List.mem_cons.mp (live.mem_iff.mp inside) with
          | inl new =>
              intro same
              rw [new] at same
              exact distinct.1 (List.mem_map.mpr ⟨other, member, same.symm⟩)
          | inr old => exact fresh other (List.mem_cons_of_mem _ member) t old
      · exact absurd accepts refused

theorem freeCount_empty {set : LeTimerSet} (empty : liveTimers set = []) :
    freeCount set = leTimerMax := by
  rw [← set.size, freeCount, List.countP_eq_length]
  intro t member
  have unused := List.filter_eq_nil_iff.mp empty t member
  simpa using unused

theorem stateLoadAt_describes {ctx : TimerdContext} (named : ctx.statePath ≠ [])
    (empty : liveTimers ctx.timers = []) {nowMs nowEpoch : Int}
    (valid : leTimerClockValidEpoch ≤ nowEpoch) (kept : FileKept ctx.disk.state nowEpoch) :
    Describes ctx.disk.state (stateLoadAt ctx nowMs nowEpoch).2.timers := by
  have nothing : pendingTimers ctx.timers = [] := by
    refine List.filter_eq_nil_iff.mpr ?_
    intro t member
    have unused := List.filter_eq_nil_iff.mp empty t member
    simp only [ne_eq, decide_not, Bool.not_eq_true, Bool.not_eq_false', decide_eq_true_eq] at unused
    simp [unused]
  cases file : ctx.disk.state with
  | none =>
      rw [stateLoadAt, if_neg named, if_neg (Int.not_lt.mpr valid), file]
      exact nothing
  | some text =>
      rw [file] at kept
      obtain ⟨records, rfl, good, distinct, room⟩ := kept
      refine ⟨records, rfl, ?_⟩
      rw [stateLoadAt_records named (fun record member => (good record member).1) file valid]
      have all : acceptedRecords nowMs nowEpoch ctx.timers records = records := by
        refine acceptedRecords_all valid (fun record member => (good record member).2) distinct
          (by simp [empty]) ?_
        rw [freeCount_empty empty]
        exact room
      have pending := (pending_restoreRecords nowMs nowEpoch valid ctx.timers records).map timerEntry
      rw [all, nothing, List.append_nil, List.map_map] at pending
      exact pending.symm

/-! ### The save -/

structure SaveFrame (ctx after : TimerdContext) : Prop where
  path : after.statePath = ctx.statePath
  dirty : after.dirty = ctx.dirty
  loaded : ctx.stateLoaded = true → after.stateLoaded = true

theorem SaveFrame.trans {a b c : TimerdContext} (first : SaveFrame a b) (second : SaveFrame b c) :
    SaveFrame a c :=
  ⟨second.path.trans first.path, second.dirty.trans first.dirty,
    fun loaded => second.loaded (first.loaded loaded)⟩

theorem SaveFrame.refl (ctx : TimerdContext) : SaveFrame ctx ctx :=
  ⟨rfl, rfl, id⟩

theorem SaveFrame.withDisk (ctx : TimerdContext) (disk : StateDisk) (commitPending : Bool) :
    SaveFrame ctx (ctx.withDisk disk commitPending) :=
  ⟨rfl, rfl, id⟩

theorem stateCommit_frame (o : SaveOutcomes) (ctx : TimerdContext) (disk : StateDisk)
    (text : CText) : SaveFrame ctx (stateCommit o ctx disk text).2 := by
  rw [stateCommit]
  split
  · exact .withDisk ctx _ _
  · split
    · exact .withDisk ctx _ _
    · exact .withDisk ctx _ _

theorem stateReplace_frame (o : SaveOutcomes) (ctx : TimerdContext) (text : CText) :
    SaveFrame ctx (stateReplace o ctx text).2 := by
  rw [stateReplace]
  split
  · split
    · exact .refl ctx
    · simp only
      split
      · exact .withDisk ctx _ _
      · exact stateCommit_frame o ctx _ text
  · exact stateCommit_frame o ctx _ text

theorem stateWrite_frame (o : SaveOutcomes) (ctx : TimerdContext) (nowMs nowEpoch : Int) :
    SaveFrame ctx (stateWrite o ctx nowMs nowEpoch).2 := by
  rw [stateWrite]
  repeat' split
  all_goals first
    | exact .refl ctx
    | exact stateReplace_frame o ctx _

theorem stateLoadAt_frame (ctx : TimerdContext) (nowMs nowEpoch : Int) :
    SaveFrame ctx (stateLoadAt ctx nowMs nowEpoch).2 := by
  rw [stateLoadAt]
  split
  · exact .refl ctx
  · split
    · exact .refl ctx
    · split
      · exact .refl ctx
      · exact ⟨rfl, rfl, id⟩

theorem stateSaveAt_frame (o : SaveOutcomes) (ctx : TimerdContext) (nowMs nowEpoch : Int) :
    SaveFrame ctx (stateSaveAt o ctx nowMs nowEpoch).2 := by
  have load := stateLoadAt_frame ctx nowMs nowEpoch
  rw [stateSaveAt]
  split
  · exact stateWrite_frame o ctx nowMs nowEpoch
  · split
    · next failed =>
        rw [failed] at load
        exact load
    · next restored read =>
        rw [read] at load
        have marked : SaveFrame restored (restored.markLoaded true) :=
          ⟨rfl, rfl, fun loaded => by simp [TimerdContext.markLoaded, loaded]⟩
        exact (load.trans marked).trans (stateWrite_frame o _ nowMs nowEpoch)

theorem stateSaveAt_loaded {o : SaveOutcomes} {ctx : TimerdContext} {nowMs nowEpoch : Int}
    (written : (stateSaveAt o ctx nowMs nowEpoch).1 ≠ .failed) :
    (stateSaveAt o ctx nowMs nowEpoch).2.stateLoaded = true := by
  by_cases loaded : ctx.stateLoaded = true
  · exact (stateSaveAt_frame o ctx nowMs nowEpoch).loaded loaded
  · rw [stateSaveAt, if_neg loaded] at written ⊢
    split at written
    · exact absurd rfl written
    · next restored read =>
        refine (stateWrite_frame o _ nowMs nowEpoch).loaded ?_
        simp [TimerdContext.markLoaded]

theorem describes_saved (set : LeTimerSet) (nowMs nowEpoch : Int) :
    Describes (some (stateText (savedRecords set nowMs nowEpoch))) set := by
  refine ⟨_, rfl, ?_⟩
  rw [savedRecords, List.map_map]
  refine List.Perm.of_eq (List.map_congr_left ?_)
  intro t _
  cases kind : t.kind with
  | alarm => simp [recordEntry, timerEntry, alarmDue, savedDue, kind]
  | countdown => simp [recordEntry, timerEntry, alarmDue, kind]

/-! ### Runs -/

structure Tracks (path : CText) (ctx : TimerdContext) : Prop where
  path : ctx.statePath = path
  file : FileTracks ctx
  fresh : ctx.stateLoaded = false → ctx.dirty = false → liveTimers ctx.timers = []

/-- What an input must not do unless the schedule is already marked. -/
def Recorded (ctx : TimerdContext) : TimerdInput → Prop
  | .load nowEpoch _ loadEpoch =>
      LoadsFile ctx nowEpoch loadEpoch → ctx.dirty = true ∨ FileKept ctx.disk.state loadEpoch
  | .step nowMs nowEpoch => StepRecorded ctx nowMs nowEpoch
  | .save _ _ _ => True
  | .request r => ∀ id, cancelsId ctx r = some id → CancelRecorded ctx id r.nowMs r.nowEpoch

theorem Marked.tracks {path : CText} {ctx after : TimerdContext} (marked : Marked ctx after)
    (tracks : Tracks path ctx) : Tracks path after := by
  refine ⟨marked.path.trans tracks.path, ?_, ?_⟩
  · intro loaded clean
    obtain dirty | ⟨clear, pending, -⟩ := marked.kept
    · exact absurd (dirty.symm.trans clean) (by simp)
    · have before := tracks.file (marked.loaded ▸ loaded) clear
      rw [marked.disk]
      cases file : ctx.disk.state with
      | none =>
          rw [file] at before
          exact pending.trans before
      | some text =>
          rw [file] at before
          obtain ⟨records, same, listed⟩ := before
          exact ⟨records, same, pending ▸ listed⟩
  · intro unread clean
    obtain dirty | ⟨clear, -, fewer⟩ := marked.kept
    · exact absurd (dirty.symm.trans clean) (by simp)
    · have before := tracks.fresh (marked.loaded ▸ unread) clear
      rw [liveIds, liveIds, before, List.map_nil] at fewer
      exact List.map_eq_nil_iff.mp (List.sublist_nil.mp fewer)

theorem tracks_load {path : CText} (named : path ≠ []) {ctx : TimerdContext}
    (tracks : Tracks path ctx) {nowEpoch loadMs loadEpoch : Int}
    (recorded : LoadsFile ctx nowEpoch loadEpoch →
      ctx.dirty = true ∨ FileKept ctx.disk.state loadEpoch) :
    Tracks path (turnLoad ctx nowEpoch loadMs loadEpoch) := by
  by_cases turn : ctx.stateLoaded = false ∧ leTimerClockValidEpoch ≤ nowEpoch
  · rw [turnLoad, if_pos turn]
    have namedHere : ctx.statePath ≠ [] := tracks.path ▸ named
    by_cases valid : leTimerClockValidEpoch ≤ loadEpoch
    · have loads : (stateLoadAt ctx loadMs loadEpoch).2.disk = ctx.disk ∧
          (stateLoadAt ctx loadMs loadEpoch).1 = true := by
        rw [stateLoadAt, if_neg namedHere, if_neg (Int.not_lt.mpr valid)]
        split
        · exact ⟨rfl, rfl⟩
        · exact ⟨rfl, rfl⟩
      have frame := stateLoadAt_frame ctx loadMs loadEpoch
      refine ⟨frame.path.trans tracks.path, ?_, ?_⟩
      · intro _ clean
        have clear : ctx.dirty = false := frame.dirty.symm.trans clean
        have kept := (recorded ⟨turn.1, turn.2, valid⟩).resolve_left (by simp [clear])
        have describes : Describes ctx.disk.state (stateLoadAt ctx loadMs loadEpoch).2.timers :=
          stateLoadAt_describes namedHere (tracks.fresh turn.1 clear) valid kept
        rw [← loads.1] at describes
        exact describes
      · intro unread
        have read : (stateLoad ctx loadMs loadEpoch).2.stateLoaded = true := by
          simp [stateLoad, TimerdContext.markLoaded, loads.2]
        exact absurd (read.symm.trans unread) (by simp)
    · have unread : stateLoadAt ctx loadMs loadEpoch = (false, ctx) := by
        rw [stateLoadAt, if_neg namedHere, if_pos (Int.not_le.mp valid)]
      have same : (stateLoad ctx loadMs loadEpoch).2 = ctx := by
        simp [stateLoad, unread, TimerdContext.markLoaded]
      rw [same]
      exact tracks
  · rw [turnLoad, if_neg turn]
    exact tracks

theorem saveIfDirty_dirty {ctx : TimerdContext} (dirty : ctx.dirty = true) (o : SaveOutcomes)
    (nowMs nowEpoch : Int) :
    saveIfDirty o ctx nowMs nowEpoch =
      (stateSaveAt o ctx nowMs nowEpoch).2.saved (stateSaveAt o ctx nowMs nowEpoch).1 := by
  rw [saveIfDirty, if_neg (by simp [dirty])]

theorem tracks_save {path : CText} (named : path ≠ []) {ctx : TimerdContext}
    (tracks : Tracks path ctx) (o : SaveOutcomes) (nowMs nowEpoch : Int) :
    Tracks path (saveIfDirty o ctx nowMs nowEpoch) := by
  cases dirty : ctx.dirty with
  | false =>
      rw [saveIfDirty, if_pos dirty]
      exact tracks
  | true =>
      have namedHere : ctx.statePath ≠ [] := tracks.path ▸ named
      have frame := stateSaveAt_frame o ctx nowMs nowEpoch
      have still : (stateSaveAt o ctx nowMs nowEpoch).2.dirty = true := frame.dirty.trans dirty
      have pathAfter := frame.path.trans tracks.path
      rw [saveIfDirty_dirty dirty]
      cases result : (stateSaveAt o ctx nowMs nowEpoch).1 with
      | failed =>
          refine ⟨pathAfter, fun _ clean => ?_, fun _ clean => ?_⟩
          · exact absurd (still.symm.trans clean) (by simp)
          · exact absurd (still.symm.trans clean) (by simp)
      | committedDurabilityFailed =>
          refine ⟨pathAfter, fun _ clean => ?_, fun _ clean => ?_⟩
          · exact absurd (still.symm.trans clean) (by simp)
          · exact absurd (still.symm.trans clean) (by simp)
      | ok =>
          have written : (stateSaveAt o ctx nowMs nowEpoch).1 ≠ .failed := by simp [result]
          have file := (stateSaveAt_file namedHere written).1
          have read := stateSaveAt_loaded written
          refine ⟨pathAfter, fun _ _ => ?_, fun unread _ => ?_⟩
          · show Describes (stateSaveAt o ctx nowMs nowEpoch).2.disk.state
              (stateSaveAt o ctx nowMs nowEpoch).2.timers
            rw [file]
            exact describes_saved _ nowMs nowEpoch
          · exact absurd (read.symm.trans unread) (by simp)

theorem tracks_step {path : CText} (named : path ≠ []) {ctx : TimerdContext}
    (tracks : Tracks path ctx) {i : TimerdInput} (recorded : Recorded ctx i) :
    Tracks path (timerdStep ctx i) := by
  cases i with
  | load nowEpoch loadMs loadEpoch => exact tracks_load named tracks recorded
  | step nowMs nowEpoch => exact (marked_turnStep recorded).tracks tracks
  | save o nowMs nowEpoch => exact tracks_save named tracks o nowMs nowEpoch
  | request r => exact (marked_dispatch recorded).tracks tracks

theorem tracks_boot (path : CText) (disk : StateDisk) : Tracks path (timerdBoot path disk) := by
  refine ⟨rfl, fun loaded => absurd loaded (by simp [timerdBoot]), fun _ _ => ?_⟩
  show leTimerSetInit.timers.filter _ = []
  rw [leTimerSetInit, List.filter_replicate_of_neg (by decide)]

/-- A step or a request that changes the pending timers leaves the mark. -/
def ChangeMarked (ctx : TimerdContext) : TimerdInput → Prop
  | .load _ _ _ | .save _ _ _ => True
  | .step nowMs nowEpoch =>
      pendingTimers (turnStep ctx nowMs nowEpoch).timers ≠ pendingTimers ctx.timers →
        (turnStep ctx nowMs nowEpoch).dirty = true
  | .request r =>
      pendingTimers (dispatch ctx r).2.timers ≠ pendingTimers ctx.timers →
        (dispatch ctx r).2.dirty = true

theorem Marked.change {ctx after : TimerdContext} (marked : Marked ctx after)
    (changed : pendingTimers after.timers ≠ pendingTimers ctx.timers) : after.dirty = true := by
  obtain dirty | ⟨-, same, -⟩ := marked.kept
  · exact dirty
  · exact absurd same changed

theorem changeMarked_of_recorded (ctx : TimerdContext) (i : TimerdInput)
    (recorded : Recorded ctx i) : ChangeMarked ctx i := by
  cases i with
  | load _ _ _ | save _ _ _ => trivial
  | step nowMs nowEpoch => exact (marked_turnStep recorded).change
  | request r => exact (marked_dispatch recorded).change

def savedCountdown : List TimerdInput :=
  [.load 1760000000 5000 1760000000, .step 5000 1760000000, .save savesWell 5001 1760000000,
    .request ⟨.add (.value 600), .value teaLabel, 6000, 1760000001⟩,
    .step 6001 1760000001, .save savesWell 6002 1760000001]

/-- The countdown rings in the step hidden in a cancel of another id. -/
def strayCancel : List TimerdInput :=
  savedCountdown ++ [.request ⟨.cancel (.value 99), .missing, 606000, 1760000601⟩]

theorem savedCountdown_recorded :
    Runs.Admits timerdStep Recorded (timerdBoot timersPath ⟨none, none⟩) savedCountdown := by
  refine ⟨fun _ => .inr trivial, .inr (.inr ?_), trivial, ?_, .inr (.inr ?_), trivial, trivial⟩
  · decide +kernel
  · intro id none
    exact absurd none (by simp [cancelsId])
  · decide +kernel

end LibreEcho.Timer
