import LibreEcho.Timer.Daemon
import LibreEcho.Timer.Schedule

/-!
What the deferred restore does to a set that already took commands.

Before the clock is credible only countdowns can be added, and the state file
is neither read nor replaced. When it is read, a record within its time window
that finds a free slot is restored unless its id is 0 or already in the set:
the ids of the file meet ids that restarted at 1.
-/
namespace LibreEcho.Timer

/-! ### Before the clock is set -/

def OnlyCountdowns (set : LeTimerSet) : Prop :=
  ∀ timer ∈ set.timers, timer.state ≠ .free → timer.kind = .countdown ∧ timer.dueEpoch = 0

theorem onlyCountdowns_put {set : LeTimerSet} (only : OnlyCountdowns set) (slot : Nat)
    {timer : LeTimer}
    (new : timer.state ≠ .free → timer.kind = .countdown ∧ timer.dueEpoch = 0) :
    OnlyCountdowns (set.put slot timer) := by
  intro t member used
  rcases List.mem_or_eq_of_mem_set member with old | rfl
  · exact only t old used
  · exact new used

theorem onlyCountdowns_each {set : LeTimerSet} (only : OnlyCountdowns set)
    {change : LeTimer → LeTimer}
    (changed : ∀ t, (t.state ≠ .free → t.kind = .countdown ∧ t.dueEpoch = 0) →
      (change t).state ≠ .free → (change t).kind = .countdown ∧ (change t).dueEpoch = 0) :
    OnlyCountdowns (set.each change) := by
  intro t member used
  obtain ⟨old, inside, rfl⟩ := List.mem_map.mp member
  exact changed old (only old inside) used

theorem onlyCountdowns_init : OnlyCountdowns leTimerSetInit := by
  intro t member used
  rw [List.eq_of_mem_replicate member] at used
  exact absurd rfl used

theorem onlyCountdowns_addCountdown {set : LeTimerSet} (only : OnlyCountdowns set)
    (seconds : Int) (label : LeTimerLabel) (nowMs : Int) :
    OnlyCountdowns (leTimerAddCountdown set seconds label nowMs).2 := by
  unfold leTimerAddCountdown
  split
  · exact only
  · split
    · exact only
    · exact onlyCountdowns_put only _ (fun _ => ⟨rfl, rfl⟩)

theorem addAlarm_clock {nowEpoch : Int} (unset : nowEpoch < leTimerClockValidEpoch)
    (set : LeTimerSet) (dueEpoch : Int) (label : LeTimerLabel) :
    leTimerAddAlarm set dueEpoch label nowEpoch = (.error .clock, set) := by
  rw [leTimerAddAlarm, if_pos unset]

theorem onlyCountdowns_step {set : LeTimerSet} (only : OnlyCountdowns set)
    (nowMs nowEpoch : Int) : OnlyCountdowns (leTimerStep set nowMs nowEpoch).2 := by
  refine onlyCountdowns_each only ?_
  intro t old used
  unfold leTimerAged at used ⊢
  cases fate : leTimerFate nowMs nowEpoch t with
  | kept =>
      rw [fate] at used
      exact old used
  | cleared | missed =>
      rw [fate] at used
      exact absurd rfl used
  | fired =>
      refine old ?_
      intro free
      simp [leTimerFate, free] at fate

theorem onlyCountdowns_clearIn {set after : LeTimerSet} {state : LeTimerState} {id : UInt32}
    (only : OnlyCountdowns set) (cleared : leTimerClearIn state set id = some after) :
    OnlyCountdowns after := by
  unfold leTimerClearIn at cleared
  split at cleared
  · contradiction
  · split at cleared
    · contradiction
    · split at cleared
      · obtain rfl := Option.some.inj cleared
        exact onlyCountdowns_put only _ (fun used => absurd rfl used)
      · contradiction

theorem onlyCountdowns_clearAllIn {set : LeTimerSet} (only : OnlyCountdowns set)
    (state : LeTimerState) : OnlyCountdowns (leTimerClearAllIn state set).2 := by
  refine onlyCountdowns_each only ?_
  intro t old used
  by_cases hit : t.state = state
  · rw [if_pos hit] at used
    exact absurd rfl used
  · rw [if_neg hit] at used ⊢
    exact old used

theorem onlyCountdowns_cancelAt {set : LeTimerSet} (only : OnlyCountdowns set) (id : UInt32)
    (nowMs nowEpoch : Int) : OnlyCountdowns (leTimerCancelAt set id nowMs nowEpoch).2 := by
  have stepped := onlyCountdowns_step only nowMs nowEpoch
  unfold leTimerCancelAt leTimerCancel
  split
  · exact stepped
  · exact onlyCountdowns_clearIn stepped ‹_›

theorem onlyCountdowns_dismiss {set : LeTimerSet} (only : OnlyCountdowns set) (id : UInt32) :
    OnlyCountdowns (leTimerDismiss set id).2 := by
  unfold leTimerDismiss
  split
  · exact only
  · exact onlyCountdowns_clearIn only ‹_›

/-- Nothing was read or written yet: the disk and the path are those of the boot. -/
structure Deferred (path : CText) (disk : StateDisk) (ctx : TimerdContext) : Prop where
  path : ctx.statePath = path
  disk : ctx.disk = disk
  unloaded : ctx.stateLoaded = false
  only : OnlyCountdowns ctx.timers

theorem Deferred.withTimers {path : CText} {disk : StateDisk} {ctx : TimerdContext}
    (deferred : Deferred path disk ctx) {timers : LeTimerSet} (only : OnlyCountdowns timers) :
    Deferred path disk (ctx.withTimers timers) :=
  ⟨deferred.path, deferred.disk, deferred.unloaded, only⟩

theorem Deferred.touch {path : CText} {disk : StateDisk} {ctx : TimerdContext}
    (deferred : Deferred path disk ctx) {timers : LeTimerSet} (only : OnlyCountdowns timers) :
    Deferred path disk (ctx.touch timers) :=
  ⟨deferred.path, deferred.disk, deferred.unloaded, only⟩

/-- Every clock reading of the input is before `LE_TIMER_CLOCK_VALID_EPOCH`. -/
def TimerdInput.ClockUnset : TimerdInput → Prop
  | .load nowEpoch _ _ => nowEpoch < leTimerClockValidEpoch
  | .step _ nowEpoch => nowEpoch < leTimerClockValidEpoch
  | .save _ _ nowEpoch => nowEpoch < leTimerClockValidEpoch
  | .request r => r.nowEpoch < leTimerClockValidEpoch

section Deferred
variable {path : CText} {disk : StateDisk} {ctx : TimerdContext}

theorem deferred_cancelId (deferred : Deferred path disk ctx) (id : UInt32)
    (nowMs nowEpoch : Int) : Deferred path disk (cancelId ctx id nowMs nowEpoch).2 := by
  have cancelled := onlyCountdowns_cancelAt deferred.only id nowMs nowEpoch
  unfold cancelId
  split
  · next same => rw [same] at cancelled; exact deferred.withTimers cancelled
  · next same => rw [same] at cancelled; exact deferred.touch cancelled

theorem deferred_cancelLabel (deferred : Deferred path disk ctx) (label : LeTimerLabel)
    (nowMs nowEpoch : Int) : Deferred path disk (cancelLabel ctx label nowMs nowEpoch).2 := by
  unfold cancelLabel
  split
  · exact deferred
  · exact deferred_cancelId deferred _ nowMs nowEpoch
  · exact deferred

theorem deferred_add (deferred : Deferred path disk ctx)
    {result : Except LeTimerError UInt32 × LeTimerSet} (only : OnlyCountdowns result.2) :
    Deferred path disk (dispatchAdd ctx result).2 := by
  unfold dispatchAdd
  split
  · exact deferred.withTimers only
  · exact deferred.touch only

theorem deferred_dismiss (deferred : Deferred path disk ctx) (remoteStopped : Nat)
    {stopped : Nat × LeTimerSet} (only : OnlyCountdowns stopped.2) :
    Deferred path disk (dispatchDismiss ctx remoteStopped stopped).2 := by
  simp only [dispatchDismiss]
  split
  · exact deferred.withTimers only
  · exact deferred.touch only

theorem deferred_dispatchCommand (deferred : Deferred path disk ctx) {r : TimerdRequest}
    (unset : r.nowEpoch < leTimerClockValidEpoch) :
    Deferred path disk (dispatchCommand ctx r).2 := by
  unfold dispatchCommand
  cases r.command with
  | status | next | unknown => exact deferred
  | add seconds =>
      cases seconds with
      | missing | invalid => exact deferred
      | value seconds =>
          exact deferred_add deferred (onlyCountdowns_addCountdown deferred.only _ _ _)
  | addAlarm epoch =>
      cases epoch with
      | missing | invalid => exact deferred
      | value epoch =>
          simp only [addAlarm_clock unset]
          exact deferred_add deferred deferred.only
  | cancelAll =>
      have cleared := onlyCountdowns_clearAllIn deferred.only .pending
      simp only
      split
      · exact deferred.withTimers cleared
      · exact deferred.touch cleared
  | cancel id =>
      cases id with
      | invalid => exact deferred
      | missing =>
          simp only
          split
          · exact deferred
          · exact deferred_cancelLabel deferred _ _ _
      | value id =>
          simp only
          split
          · exact deferred
          · exact deferred_cancelId deferred _ _ _
  | dismiss id remoteStopped =>
      cases id with
      | invalid => exact deferred
      | missing =>
          exact deferred_dismiss deferred remoteStopped
            (onlyCountdowns_clearAllIn deferred.only .ringing)
      | value id =>
          simp only
          split
          · exact deferred
          · exact deferred_dismiss deferred 0 (onlyCountdowns_dismiss deferred.only id)

theorem deferred_dispatch (deferred : Deferred path disk ctx) {r : TimerdRequest}
    (unset : r.nowEpoch < leTimerClockValidEpoch) : Deferred path disk (dispatch ctx r).2 := by
  unfold dispatch
  cases r.label with
  | invalid => exact deferred
  | missing | value => exact deferred_dispatchCommand deferred unset

theorem deferred_turnStep (deferred : Deferred path disk ctx) (nowMs nowEpoch : Int) :
    Deferred path disk (turnStep ctx nowMs nowEpoch) := by
  have stepped := onlyCountdowns_step deferred.only nowMs nowEpoch
  unfold turnStep
  split
  · next same => rw [same] at stepped; exact deferred.withTimers stepped
  · next same => rw [same] at stepped; exact deferred.touch stepped

theorem stateLoadAt_clock (named : ctx.statePath ≠ []) {nowEpoch : Int}
    (unset : nowEpoch < leTimerClockValidEpoch) (nowMs : Int) :
    stateLoadAt ctx nowMs nowEpoch = (false, ctx) := by
  rw [stateLoadAt, if_neg named, if_pos unset]

theorem deferred_saveIfDirty (deferred : Deferred path disk ctx) (named : path ≠ [])
    (o : SaveOutcomes) {nowEpoch : Int} (unset : nowEpoch < leTimerClockValidEpoch)
    (nowMs : Int) : Deferred path disk (saveIfDirty o ctx nowMs nowEpoch) := by
  have namedHere : ctx.statePath ≠ [] := deferred.path ▸ named
  have loaded := stateLoadAt_clock namedHere unset nowMs
  unfold saveIfDirty
  split
  · exact deferred
  · simp only [stateSaveAt, deferred.unloaded, Bool.false_eq_true, if_false, loaded]
    exact deferred

theorem deferred_timerdStep (named : path ≠ []) (deferred : Deferred path disk ctx)
    {i : TimerdInput} (unset : i.ClockUnset) : Deferred path disk (timerdStep ctx i) := by
  cases i with
  | load nowEpoch loadMs loadEpoch =>
      have early : ¬ leTimerClockValidEpoch ≤ nowEpoch := Int.not_le.mpr unset
      rw [timerdStep, turnLoad, if_neg (fun both => early both.2)]
      exact deferred
  | step nowMs nowEpoch => exact deferred_turnStep deferred nowMs nowEpoch
  | save o nowMs nowEpoch => exact deferred_saveIfDirty deferred named o unset nowMs
  | request r => exact deferred_dispatch deferred unset

end Deferred

theorem deferred_run {path : CText} (named : path ≠ []) (disk : StateDisk)
    {inputs : List TimerdInput} (unset : ∀ i ∈ inputs, i.ClockUnset) :
    Deferred path disk (Runs.run timerdStep (timerdBoot path disk) inputs) := by
  have start : Deferred path disk (timerdBoot path disk) := ⟨rfl, rfl, rfl, onlyCountdowns_init⟩
  generalize timerdBoot path disk = ctx at start
  induction inputs generalizing ctx with
  | nil => exact start
  | cons i rest ih =>
      rw [Runs.run_cons]
      exact ih (fun j member => unset j (List.mem_cons_of_mem _ member)) _
        (deferred_timerdStep named start (unset i List.mem_cons_self))

/-! ### One record -/

/-- A record the restore may take: not older than the grace, a countdown not
beyond the longest one. -/
def StateRecord.Restorable (nowEpoch : Int) (record : StateRecord) : Prop :=
  -leTimerMissGraceSeconds ≤ record.dueEpoch - nowEpoch ∧
    (record.kind = .countdown → record.dueEpoch - nowEpoch ≤ leTimerMaxSeconds)

instance (nowEpoch : Int) (record : StateRecord) : Decidable (record.Restorable nowEpoch) :=
  inferInstanceAs (Decidable (_ ∧ _))

section Load
variable (nowMs nowEpoch : Int)

def restoredTimer (record : StateRecord) : LeTimer :=
  ⟨record.id, record.kind, .pending, nowMs + (record.dueEpoch - nowEpoch) * 1000,
    record.dueEpoch, 0, record.label⟩

def restoreRecord (set : LeTimerSet) (record : StateRecord) : LeTimerSet :=
  if record.id = 0 then set
  else restoreOrMiss set record.kind record.id record.dueEpoch record.label nowEpoch nowMs

theorem restoreLine_stateLine {record : StateRecord} (inRange : record.InRange)
    (set : LeTimerSet) :
    restoreLine nowMs nowEpoch set (stateLine record ++ ['\n']) =
      restoreRecord nowMs nowEpoch set record := by
  rw [restoreLine, stateParseLine_stateLine inRange, restoreRecord]
  by_cases none : record.id = 0
  · simp only [if_pos none]
  · have words : countdownWord ≠ alarmWord := by decide
    simp only [if_neg none, le_refl, if_true]
    cases record.kind with
    | alarm => rw [kindText, if_pos rfl]
    | countdown => rw [kindText, if_neg words, if_pos rfl]

def Accepts (set : LeTimerSet) (record : StateRecord) : Prop :=
  record.Restorable nowEpoch ∧ record.id ≠ 0 ∧ (∀ t ∈ liveTimers set, t.id ≠ record.id) ∧
    0 < freeCount set

theorem restoreRecord_cases (valid : leTimerClockValidEpoch ≤ nowEpoch) (set : LeTimerSet)
    (record : StateRecord) :
    (Accepts nowEpoch set record ∧
        (liveTimers (restoreRecord nowMs nowEpoch set record)).Perm
          (restoredTimer nowMs nowEpoch record :: liveTimers set) ∧
        (pendingTimers (restoreRecord nowMs nowEpoch set record)).Perm
          (restoredTimer nowMs nowEpoch record :: pendingTimers set) ∧
        freeCount set = freeCount (restoreRecord nowMs nowEpoch set record) + 1) ∨
      (¬ Accepts nowEpoch set record ∧
        (restoreRecord nowMs nowEpoch set record).timers = set.timers) := by
  unfold restoreRecord restoreOrMiss restoreTimer
  by_cases named : record.id = 0
  · rw [if_pos named]
    exact .inr ⟨fun accepts => accepts.2.1 named, rfl⟩
  rw [if_neg named, if_neg (Int.not_lt.mpr valid)]
  simp only
  by_cases stale : record.dueEpoch - nowEpoch < -leTimerMissGraceSeconds
  · rw [if_pos stale]
    exact .inr ⟨fun accepts => Int.not_le.mpr stale accepts.1.1, rfl⟩
  rw [if_neg stale]
  by_cases far : record.kind = .countdown ∧ leTimerMaxSeconds < record.dueEpoch - nowEpoch
  · rw [if_pos far]
    exact .inr ⟨fun accepts => Int.not_le.mpr far.2 (accepts.1.2 far.1), rfl⟩
  rw [if_neg far]
  by_cases clash : record.id ≠ 0 ∧ (leTimerFind set record.id).isSome = true
  · rw [if_pos clash]
    obtain ⟨t, member, same⟩ := (leTimerFind_isSome named).mp clash.2
    exact .inr ⟨fun accepts => accepts.2.2.1 t member same, rfl⟩
  rw [if_neg clash]
  cases found : freeSlot set with
  | none =>
      refine .inr ⟨fun accepts => ?_, rfl⟩
      exact absurd (freeSlot_none found) (Nat.ne_of_gt accepts.2.2.2)
  | some slot =>
      have new : restoredId set record.id = (record.id, (restoredId set record.id).2) := by
        rw [restoredId, if_pos named]
      obtain ⟨live, pending, free⟩ := put_freeSlot found (restoredTimer nowMs nowEpoch record) rfl
      refine .inl ⟨⟨⟨Int.not_lt.mp stale, ?_⟩, named, ?_, by omega⟩, ?_⟩
      · intro countdown
        exact Int.not_lt.mp fun beyond => far ⟨countdown, beyond⟩
      · intro t member same
        exact clash ⟨named, (leTimerFind_isSome named).mpr ⟨t, member, same⟩⟩
      · rw [new]
        exact ⟨live, pending, free⟩

/-! ### The whole file -/

def restoreRecords (set : LeTimerSet) (records : List StateRecord) : LeTimerSet :=
  records.foldl (restoreRecord nowMs nowEpoch) set

/-- The records within their window that find a free slot when the load comes to
them. -/
def wantedRecords : LeTimerSet → List StateRecord → List StateRecord
  | _, [] => []
  | set, record :: rest =>
      let later := wantedRecords (restoreRecord nowMs nowEpoch set record) rest
      if record.Restorable nowEpoch ∧ 0 < freeCount set then record :: later else later

theorem filter_restorable {record : StateRecord} (restorable : record.Restorable nowEpoch)
    (rest : List StateRecord) :
    (record :: rest).filter (fun r => decide (r.Restorable nowEpoch)) =
      record :: rest.filter (fun r => decide (r.Restorable nowEpoch)) :=
  List.filter_cons_of_pos (decide_eq_true restorable)

/-- The free slots go to the first records within their window. Each of these
has an id other than 0, and no two of them nor one of them and a timer of the set
have the same id. -/
def IdsFree (set : LeTimerSet) (records : List StateRecord) : Prop :=
  let first := (records.filter (·.Restorable nowEpoch)).take (freeCount set)
  (∀ record ∈ first, record.id ≠ 0 ∧ ∀ t ∈ liveTimers set, t.id ≠ record.id) ∧
    (first.map StateRecord.id).Nodup

instance (set : LeTimerSet) (record : StateRecord) : Decidable (Accepts nowEpoch set record) :=
  inferInstanceAs (Decidable (_ ∧ _ ∧ _ ∧ _))

def acceptedRecords : LeTimerSet → List StateRecord → List StateRecord
  | _, [] => []
  | set, record :: rest =>
      let later := acceptedRecords (restoreRecord nowMs nowEpoch set record) rest
      if Accepts nowEpoch set record then record :: later else later

theorem pending_restoreRecords (valid : leTimerClockValidEpoch ≤ nowEpoch) (set : LeTimerSet)
    (records : List StateRecord) :
    (pendingTimers (restoreRecords nowMs nowEpoch set records)).Perm
      ((acceptedRecords nowMs nowEpoch set records).map (restoredTimer nowMs nowEpoch) ++
        pendingTimers set) := by
  induction records generalizing set with
  | nil => exact List.Perm.refl _
  | cons record rest ih =>
      have later := ih (restoreRecord nowMs nowEpoch set record)
      rcases restoreRecord_cases nowMs nowEpoch valid set record with
        ⟨accepts, -, pending, -⟩ | ⟨refused, same⟩
      · rw [acceptedRecords, if_pos accepts, List.map_cons, List.cons_append]
        exact later.trans ((pending.append_left _).trans List.perm_middle)
      · rw [acceptedRecords, if_neg refused]
        rwa [pendingTimers, pendingTimers, same] at later

theorem accepted_sublist_wanted (set : LeTimerSet) (records : List StateRecord) :
    (acceptedRecords nowMs nowEpoch set records).Sublist
      (wantedRecords nowMs nowEpoch set records) := by
  induction records generalizing set with
  | nil => exact List.Sublist.refl _
  | cons record rest ih =>
      have later := ih (restoreRecord nowMs nowEpoch set record)
      rw [acceptedRecords, wantedRecords]
      by_cases accepts : Accepts nowEpoch set record
      · rw [if_pos accepts, if_pos ⟨accepts.1, accepts.2.2.2⟩]
        exact later.cons_cons record
      · rw [if_neg accepts]
        split
        · exact later.cons record
        · exact later

theorem wanted_restorable (set : LeTimerSet) (records : List StateRecord) :
    ∀ record ∈ wantedRecords nowMs nowEpoch set records, record.Restorable nowEpoch := by
  induction records generalizing set with
  | nil => exact fun _ member => absurd member List.not_mem_nil
  | cons record rest ih =>
      have later := ih (restoreRecord nowMs nowEpoch set record)
      rw [wantedRecords]
      split
      · next wanted => exact List.forall_mem_cons.mpr ⟨wanted.1, later⟩
      · exact later

theorem accepted_eq_wanted (valid : leTimerClockValidEpoch ≤ nowEpoch) (set : LeTimerSet)
    (records : List StateRecord) :
    acceptedRecords nowMs nowEpoch set records = wantedRecords nowMs nowEpoch set records ↔
      IdsFree nowEpoch set records := by
  induction records generalizing set with
  | nil => exact iff_of_true rfl ⟨by simp, by simp⟩
  | cons record rest ih =>
      have later := ih (restoreRecord nowMs nowEpoch set record)
      rcases restoreRecord_cases nowMs nowEpoch valid set record with
        ⟨accepts, live, -, free⟩ | ⟨refused, same⟩
      · rw [acceptedRecords, wantedRecords, if_pos accepts,
          if_pos ⟨accepts.1, accepts.2.2.2⟩, List.cons_inj_right, later]
        obtain ⟨restorable, named, fresh, -⟩ := accepts
        unfold IdsFree
        rw [free, filter_restorable nowEpoch restorable, List.take_succ_cons]
        simp only [live.mem_iff, List.forall_mem_cons, List.map_cons, List.nodup_cons]
        have head : (restoredTimer nowMs nowEpoch record).id = record.id := rfl
        rw [head]
        constructor
        · intro kept
          refine ⟨⟨⟨named, fresh⟩, fun r member => ?_⟩, ?_, kept.2⟩
          · exact ⟨(kept.1 r member).1, (kept.1 r member).2.2⟩
          · intro again
            obtain ⟨r, member, same⟩ := List.mem_map.mp again
            exact (kept.1 r member).2.1 same.symm
        · intro kept
          refine ⟨fun r member => ?_, kept.2.2⟩
          refine ⟨(kept.1.2 r member).1, fun same => ?_, (kept.1.2 r member).2⟩
          exact kept.2.1 (List.mem_map.mpr ⟨r, member, same.symm⟩)
      · have liveSame : liveTimers (restoreRecord nowMs nowEpoch set record) = liveTimers set := by
          rw [liveTimers, liveTimers, same]
        have freeSame : freeCount (restoreRecord nowMs nowEpoch set record) = freeCount set := by
          rw [freeCount, freeCount, same]
        rw [acceptedRecords, wantedRecords, if_neg refused]
        by_cases wanted : record.Restorable nowEpoch ∧ 0 < freeCount set
        · -- a wanted record was refused: the lengths differ from here on
          rw [if_pos wanted]
          refine iff_of_false ?_ ?_
          · intro equal
            have shorter := (accepted_sublist_wanted nowMs nowEpoch
              (restoreRecord nowMs nowEpoch set record) rest).length_le
            rw [equal, List.length_cons] at shorter
            omega
          · intro free
            obtain ⟨n, count⟩ := Nat.exists_eq_succ_of_ne_zero (Nat.ne_of_gt wanted.2)
            have ids := free.1 record (by
              rw [filter_restorable nowEpoch wanted.1, count, List.take_succ_cons]
              exact List.mem_cons_self)
            exact refused ⟨wanted.1, ids.1, ids.2, wanted.2⟩
        · rw [if_neg wanted, later]
          unfold IdsFree
          rw [liveSame, freeSame]
          by_cases restorable : record.Restorable nowEpoch
          · have none : freeCount set = 0 := by
              by_contra some
              exact wanted ⟨restorable, Nat.pos_of_ne_zero some⟩
            simp [none]
          · rw [List.filter_cons_of_neg (by simpa using restorable)]

end Load

/-- What the owner set: kind, label and due time, on both clocks. -/
def dueKey (timer : LeTimer) : LeTimerKind × LeTimerLabel × Int × Int :=
  (timer.kind, timer.label, timer.dueEpoch, timer.dueMonotonicMs)

/-- Each record within its window that found a free slot has a pending timer of
its own after the load, with its kind, label and due time. -/
def EachRestored (nowMs nowEpoch : Int) (records : List StateRecord)
    (before after : LeTimerSet) : Prop :=
  ((wantedRecords nowMs nowEpoch before records).map fun record =>
      dueKey (restoredTimer nowMs nowEpoch record)).Subperm ((pendingTimers after).map dueKey)

theorem eachRestored_iff {nowMs nowEpoch : Int} (valid : leTimerClockValidEpoch ≤ nowEpoch)
    {before : LeTimerSet} (only : OnlyCountdowns before) (records : List StateRecord) :
    EachRestored nowMs nowEpoch records before
        (restoreRecords nowMs nowEpoch before records) ↔
      IdsFree nowEpoch before records := by
  have pending := (pending_restoreRecords nowMs nowEpoch valid before records).map dueKey
  rw [List.map_append, List.map_map] at pending
  rw [← accepted_eq_wanted nowMs nowEpoch valid, EachRestored, pending.subperm_left]
  constructor
  · intro each
    have dated := each.filter (fun key => key.2.2.1 ≠ 0)
    have wanted : ((wantedRecords nowMs nowEpoch before records).map fun record =>
        dueKey (restoredTimer nowMs nowEpoch record)).filter (fun key => key.2.2.1 ≠ 0) =
          (wantedRecords nowMs nowEpoch before records).map fun record =>
            dueKey (restoredTimer nowMs nowEpoch record) := by
      refine List.filter_eq_self.mpr ?_
      intro key member
      obtain ⟨record, inside, rfl⟩ := List.mem_map.mp member
      have window := (wanted_restorable nowMs nowEpoch before records record inside).1
      simp only [leTimerMissGraceSeconds, leTimerClockValidEpoch] at window valid
      refine decide_eq_true ?_
      change record.dueEpoch ≠ 0
      omega
    have undated : ((pendingTimers before).map dueKey).filter (fun key => key.2.2.1 ≠ 0) = [] := by
      refine List.filter_eq_nil_iff.mpr ?_
      intro key member
      obtain ⟨t, inside, rfl⟩ := List.mem_map.mp member
      obtain ⟨present, pends⟩ := List.mem_filter.mp inside
      have used : t.state ≠ .free := by
        rw [of_decide_eq_true pends]
        decide
      have undated := (only t present used).2
      simp [dueKey, undated]
    rw [wanted, List.filter_append, undated, List.append_nil] at dated
    have longer := dated.length_le.trans (List.length_filter_le _ _)
    rw [List.length_map, List.length_map] at longer
    exact (accepted_sublist_wanted nowMs nowEpoch before records).eq_of_length_le longer
  · intro equal
    rw [← equal]
    exact (List.sublist_append_left _ _).subperm

/-! ### The deferred load -/

theorem stateLoadAt_records {ctx : TimerdContext} (named : ctx.statePath ≠ [])
    {records : List StateRecord} (inRange : ∀ record ∈ records, record.InRange)
    (file : ctx.disk.state = some (stateText records)) {nowMs nowEpoch : Int}
    (valid : leTimerClockValidEpoch ≤ nowEpoch) :
    (stateLoadAt ctx nowMs nowEpoch).2.timers =
      restoreRecords nowMs nowEpoch ctx.timers records := by
  rw [stateLoadAt, if_neg named, if_neg (Int.not_lt.mpr valid), file]
  simp only [stateLines_stateText inRange, TimerdContext.withTimers, restoreRecords,
    List.foldl_map]
  generalize ctx.timers = set
  clear file
  induction records generalizing set with
  | nil => rfl
  | cons record rest ih =>
      rw [List.foldl_cons, List.foldl_cons,
        restoreLine_stateLine nowMs nowEpoch (inRange record List.mem_cons_self)]
      exact ih (fun later member => inRange later (List.mem_cons_of_mem _ member)) _

/-! ### The file of a save -/

theorem stateCommit_file {o : SaveOutcomes} {ctx : TimerdContext} {disk : StateDisk}
    {text : CText} (written : (stateCommit o ctx disk text).1 ≠ .failed) :
    let after := (stateCommit o ctx disk text).2
    after.disk.state = some text ∧ after.timers = ctx.timers ∧ after.statePath = ctx.statePath := by
  unfold stateCommit at written ⊢
  by_cases renamed : o.rename = false
  · rw [if_pos renamed] at written
    exact absurd rfl written
  · rw [if_neg renamed]
    split
    · exact ⟨rfl, rfl, rfl⟩
    · exact ⟨rfl, rfl, rfl⟩

theorem stateReplace_file {o : SaveOutcomes} {ctx : TimerdContext} {text : CText}
    (written : (stateReplace o ctx text).1 ≠ .failed) :
    let after := (stateReplace o ctx text).2
    after.disk.state = some text ∧ after.timers = ctx.timers ∧ after.statePath = ctx.statePath := by
  unfold stateReplace at written ⊢
  by_cases fresh : ctx.stateCommitPending = false ∧ ctx.disk.state.isSome = true
  · rw [if_pos fresh] at written ⊢
    by_cases preserved : o.preserve = false
    · rw [if_pos preserved] at written
      exact absurd rfl written
    · rw [if_neg preserved] at written ⊢
      by_cases synced : o.syncBackup = false
      · simp only [if_pos synced] at written
        exact absurd rfl written
      · simp only [if_neg synced] at written ⊢
        exact stateCommit_file written
  · rw [if_neg fresh] at written ⊢
    exact stateCommit_file written

theorem stateWrite_file {o : SaveOutcomes} {ctx : TimerdContext} (named : ctx.statePath ≠ [])
    {nowMs nowEpoch : Int} (written : (stateWrite o ctx nowMs nowEpoch).1 ≠ .failed) :
    let after := (stateWrite o ctx nowMs nowEpoch).2
    after.disk.state = some (stateText (savedRecords after.timers nowMs nowEpoch)) ∧
      after.statePath = ctx.statePath := by
  unfold stateWrite at written ⊢
  rw [if_neg named] at written ⊢
  split at written
  · exact absurd rfl written
  · next valid =>
      split at written
      · exact absurd rfl written
      · next fits =>
          split at written
          · exact absurd rfl written
          · next stages =>
              rw [if_neg valid, if_neg fits, if_neg stages]
              obtain ⟨state, timers, path⟩ := stateReplace_file written
              exact ⟨state.trans (by rw [timers]), path⟩

theorem stateLoadAt_path (ctx : TimerdContext) (nowMs nowEpoch : Int) :
    (stateLoadAt ctx nowMs nowEpoch).2.statePath = ctx.statePath := by
  unfold stateLoadAt
  split
  · rfl
  · split
    · rfl
    · split
      · rfl
      · rfl

theorem stateSaveAt_file {o : SaveOutcomes} {ctx : TimerdContext} (named : ctx.statePath ≠ [])
    {nowMs nowEpoch : Int} (written : (stateSaveAt o ctx nowMs nowEpoch).1 ≠ .failed) :
    let after := (stateSaveAt o ctx nowMs nowEpoch).2
    after.disk.state = some (stateText (savedRecords after.timers nowMs nowEpoch)) ∧
      after.statePath = ctx.statePath := by
  have path := stateLoadAt_path ctx nowMs nowEpoch
  unfold stateSaveAt at written ⊢
  by_cases loaded : ctx.stateLoaded = true
  · rw [if_pos loaded] at written ⊢
    exact stateWrite_file named written
  · rw [if_neg loaded] at written ⊢
    split at written
    · exact absurd rfl written
    · next restored same =>
        rw [same] at path
        have kept : (restored.markLoaded true).statePath = ctx.statePath := path
        obtain ⟨state, file⟩ := stateWrite_file (kept ▸ named) written
        exact ⟨state, file.trans kept⟩

/-! ### The restore -/

def timersPath : CText := "/data/libreecho/config/timers".toList

def savesWell : SaveOutcomes := ⟨true, true, true, true, true, true, true, true⟩

def wakeLabel : LeTimerLabel := ⟨['w', 'a', 'k', 'e'], by decide, rfl⟩
def teaLabel : LeTimerLabel := ⟨['t', 'e', 'a'], by decide, rfl⟩

/-- An evening with a synchronised clock: the alarms of the given times. -/
def alarmsEvening (dues : List Int) : TimerdContext :=
  Runs.run timerdStep (timerdBoot timersPath ⟨none, none⟩)
    (.load 1760000000 5000 1760000000 ::
      dues.map fun due => .request ⟨.addAlarm (.value due), .value wakeLabel, 6000, 1760000001⟩)

/-- After the reboot, before NTP: a ten minute countdown, cancelled or not. -/
def teaBeforeSync (cancelled : Bool) : List TimerdInput :=
  .step 2000 100 :: .request ⟨.add (.value 600), .value teaLabel, 3000, 101⟩ ::
    (if cancelled then [.request ⟨.cancel (.value 1), .missing, 4000, 102⟩] else [])

theorem teaBeforeSync_unset (cancelled : Bool) :
    ∀ i ∈ teaBeforeSync cancelled, i.ClockUnset := by
  cases cancelled with
  | false => simp [teaBeforeSync, TimerdInput.ClockUnset, leTimerClockValidEpoch]
  | true => simp [teaBeforeSync, TimerdInput.ClockUnset, leTimerClockValidEpoch]

instance (record : StateRecord) : Decidable record.InRange :=
  inferInstanceAs (Decidable (_ ∧ _))

end LibreEcho.Timer
