import LibreEcho.Timer.Remote

/-!
What a run of remote events and expiries leaves of the table.

One event changes one entry at most, and in seven ways only; everything else follows from
these.
-/
namespace LibreEcho.Timer
open JsonGrammar ByteText Json
open Adapter (cString)

/-! ### Every text is read to the end -/

theorem withValue_returns {α β : Type} {read : Except Fault (Got α)}
    {use : α → Except Fault (Option β)} (returns : Returns read) (go : ∀ a, Returns (use a)) :
    Returns (withValue read use) := by
  obtain ⟨got, rfl⟩ := returns
  cases got with
  | value a => exact go a
  | absent => exact returns_ok none
  | invalid => exact returns_ok none

theorem withText_returns {β : Type} {read : Except Fault StringRead}
    {use : Bytes → Except Fault (Option β)} (returns : Returns read) (go : ∀ out, Returns (use out)) :
    Returns (withText read use) := by
  obtain ⟨got, rfl⟩ := returns
  cases got with
  | text out => exact go out
  | absent => exact returns_ok none
  | invalid => exact returns_ok none

theorem remoteFields_returns (args : Bytes) : Returns (remoteFields args) := by
  refine withValue_returns (jsonGetInt64TopLevel_returns args _) fun type => ?_
  split
  · exact returns_ok none
  refine withText_returns (jsonGetStringTopLevel_returns args _ _) fun externalId => ?_
  split
  · exact returns_ok none
  refine withText_returns (jsonGetStringTopLevel_returns args _ _) fun name => ?_
  refine withValue_returns (jsonGetInt64TopLevel_returns args _) fun total => ?_
  split
  · exact returns_ok none
  refine withValue_returns (jsonGetInt64TopLevel_returns args _) fun left => ?_
  split
  · exact returns_ok none
  · exact withValue_returns (jsonGetTopLevelBool_returns args _) fun isActive => returns_ok _

theorem duplicateField_returns (args : Bytes) (keys : List Bytes) :
    Returns (duplicateField args keys) := by
  induction keys with
  | nil => exact returns_ok false
  | cons key keys ih =>
      obtain ⟨twice, same⟩ := jsonDuplicateKey_returns args key
      rw [duplicateField, same]
      cases twice with
      | true => exact returns_ok true
      | false => exact ih

theorem readRemoteText_returns (args : Bytes) : Returns (readRemoteText args) := by
  obtain ⟨valid, whole, -⟩ := jsonValidObject_iff args 0
  rw [Nat.add_zero] at whole
  obtain ⟨twice, members⟩ := duplicateField_returns args remoteKeys
  obtain ⟨event, fields⟩ := remoteFields_returns args
  rw [readRemoteText, whole, members, fields]
  cases valid with
  | false => exact returns_ok _
  | true =>
      cases twice with
      | true => exact returns_ok _
      | false => exact returns_ok _

theorem readRemoteEvent_returns (args : Option Bytes) : Returns (readRemoteEvent args) := by
  cases args with
  | none => exact returns_ok _
  | some args => exact readRemoteText_returns (cString args)

/-! ### What an event changes -/

section Table
variable (table : RemoteTable)

def RemoteTable.Occupied (i : Fin remoteTimerMax) : Prop :=
  (table i).state ≠ .free

def RemoteTable.Holds (i : Fin remoteTimerMax) (id : Bytes) : Prop :=
  (table i).state ≠ .free ∧ (table i).externalId = id

def RemoteTable.Absent (id : Bytes) : Prop :=
  ∀ i, ¬ table.Holds i id

def RemoteTable.Distinct : Prop :=
  ∀ i j, table.Occupied i → table.Occupied j → (table i).externalId = (table j).externalId → i = j

def RemoteTable.Rings (i : Fin remoteTimerMax) (id : Bytes) (since : Int) : Prop :=
  (table i).state = .ringing ∧ (table i).externalId = id ∧ (table i).ringStartedMs = since

def RemoteTable.OnlyRings (id : Bytes) (since : Int) : Prop :=
  ∀ i, table.Holds i id → table.Rings i id since

instance (i : Fin remoteTimerMax) (id : Bytes) : Decidable (table.Holds i id) :=
  inferInstanceAs (Decidable (_ ∧ _))

variable {table} {id : Bytes} {i : Fin remoteTimerMax} {since : Int}

theorem find_some (found : table.find id = some i) : table.Holds i id := by
  have holds := List.find?_some (show List.find? _ _ = some i from found)
  exact of_decide_eq_true holds

theorem find_none (found : table.find id = none) : table.Absent id := by
  intro i holds
  refine List.find?_eq_none.mp found i ?_ (decide_eq_true holds)
  exact List.mem_reverse.mpr (List.mem_finRange i)

theorem firstFree_some (found : table.firstFree = some i) : (table i).state = .free := by
  have free := List.find?_some (show List.find? _ _ = some i from found)
  exact of_decide_eq_true free

end Table

/-- What an event may put into an entry. -/
inductive RemoteChange (table : RemoteTable) (e : RemoteEvent) (nowMs : Int)
    (i : Fin remoteTimerMax) : RemoteTimer → Prop where
  | claim : table.Absent e.externalId → (table i).state = .free → e.type = .started →
      RemoteChange table e nowMs i e.pending
  | restart : table.Holds i e.externalId → e.type = .started →
      RemoteChange table e nowMs i e.pending
  | refresh : table.Holds i e.externalId → e.type = .updated → (table i).state ≠ .ringing →
      RemoteChange table e nowMs i e.pending
  | late : table.Holds i e.externalId → e.type = .updated → (table i).state = .ringing →
      RemoteChange table e nowMs i (e.ringing (table i).ringStartedMs)
  | cancel : table.Holds i e.externalId → e.type = .cancelled →
      RemoteChange table e nowMs i .cleared
  | finish : table.Holds i e.externalId → e.type = .finished → (table i).state ≠ .ringing →
      RemoteChange table e nowMs i (e.ringing nowMs)
  | again : table.Holds i e.externalId → e.type = .finished → (table i).state = .ringing →
      RemoteChange table e nowMs i (e.ringing (table i).ringStartedMs)

theorem updateRemote_started (ctx : RemoteContext) {e : RemoteEvent} (type : e.type = .started)
    (i : Fin remoteTimerMax) : updateRemote ctx e i = ctx.put i e.pending :=
  if_neg fun both => by rw [type] at both; exact nomatch both.1

theorem applyRemoteEvent_change {ctx after : RemoteContext} {e : RemoteEvent} {nowMs : Int}
    (applied : applyRemoteEvent ctx e nowMs = .ok after) :
    ∃ i timer, RemoteChange ctx.remoteTimers e nowMs i timer ∧
      after.remoteTimers = Function.update ctx.remoteTimers i timer := by
  unfold applyRemoteEvent at applied
  cases found : ctx.remoteTimers.find e.externalId with
  | none =>
      have absent := find_none found
      rw [found] at applied
      cases type : e.type with
      | started =>
          rw [type] at applied
          cases free : ctx.remoteTimers.firstFree with
          | none =>
              rw [free] at applied
              exact nomatch applied
          | some i =>
              rw [free] at applied
              cases applied
              rw [updateRemote_started ctx type i]
              exact ⟨i, _, .claim absent (firstFree_some free) type, rfl⟩
      | updated | cancelled | finished =>
          rw [type] at applied
          exact nomatch applied
  | some i =>
      have holds := find_some found
      rw [found] at applied
      cases type : e.type with
      | started =>
          rw [type] at applied
          cases applied
          rw [updateRemote_started ctx type i]
          exact ⟨i, _, .restart holds type, rfl⟩
      | updated =>
          rw [type] at applied
          cases applied
          unfold updateRemote
          split
          case isTrue rings => exact ⟨i, _, .late holds type rings.2, rfl⟩
          case isFalse quiet =>
              exact ⟨i, _, .refresh holds type fun rings => quiet ⟨type, rings⟩, rfl⟩
      | cancelled =>
          rw [type] at applied
          cases applied
          exact ⟨i, _, .cancel holds type, rfl⟩
      | finished =>
          rw [type] at applied
          cases applied
          unfold finishRemote
          split
          case isTrue quiet => exact ⟨i, _, .finish holds type quiet, rfl⟩
          case isFalse rings => exact ⟨i, _, .again holds type (not_not.mp rings), rfl⟩

section Answer
variable {ctx after : RemoteContext} {e : RemoteEvent} {nowMs : Int}

theorem answerRemoteEvent_refused {error : RemoteError}
    (refused : applyRemoteEvent ctx e nowMs = .error error) :
    answerRemoteEvent ctx (.ok e) nowMs = (.error error, ctx) := by
  rw [answerRemoteEvent]
  simp only [refused]

theorem answerRemoteEvent_applied (applied : applyRemoteEvent ctx e nowMs = .ok after) :
    answerRemoteEvent ctx (.ok e) nowMs = (.ok (), after) := by
  rw [answerRemoteEvent]
  simp only [applied]

theorem answerRemoteEvent_change (ctx : RemoteContext) (read : RemoteRead) (nowMs : Int) :
    (∃ error, answerRemoteEvent ctx read nowMs = (.error error, ctx)) ∨
      ∃ e i timer after, read = .ok e ∧ answerRemoteEvent ctx read nowMs = (.ok (), after) ∧
        RemoteChange ctx.remoteTimers e nowMs i timer ∧
        after.remoteTimers = Function.update ctx.remoteTimers i timer := by
  cases read with
  | error error => exact .inl ⟨error, rfl⟩
  | ok e =>
      cases applied : applyRemoteEvent ctx e nowMs with
      | error error => exact .inl ⟨error, answerRemoteEvent_refused applied⟩
      | ok after =>
          obtain ⟨i, timer, change, timers⟩ := applyRemoteEvent_change applied
          exact .inr ⟨e, i, timer, after, rfl, answerRemoteEvent_applied applied, change, timers⟩

end Answer

/-! ### What a change leaves -/

section Change
variable {table : RemoteTable} {e : RemoteEvent} {nowMs : Int} {i : Fin remoteTimerMax}
  {timer : RemoteTimer}

theorem RemoteChange.own (change : RemoteChange table e nowMs i timer) :
    table.Holds i e.externalId ∨
      table.Absent e.externalId ∧ (table i).state = .free ∧ e.type = .started := by
  cases change with
  | claim absent free type => exact .inr ⟨absent, free, type⟩
  | restart holds _ | refresh holds _ _ | late holds _ _ | cancel holds _ | finish holds _ _
  | again holds _ _ => exact .inl holds

theorem RemoteChange.named (change : RemoteChange table e nowMs i timer)
    (used : timer.state ≠ .free) : timer.externalId = e.externalId := by
  cases change with
  | cancel _ _ => exact absurd rfl used
  | claim _ _ _ | restart _ _ | refresh _ _ _ | late _ _ _ | finish _ _ _ | again _ _ _ => rfl

theorem update_holds {j : Fin remoteTimerMax} {id : Bytes}
    (holds : RemoteTable.Holds (Function.update table i timer) j id) :
    (j = i ∧ timer.state ≠ .free ∧ timer.externalId = id) ∨ (j ≠ i ∧ table.Holds j id) := by
  by_cases same : j = i
  · subst same
    rw [RemoteTable.Holds, Function.update_self] at holds
    exact .inl ⟨rfl, holds⟩
  · rw [RemoteTable.Holds, Function.update_of_ne same] at holds
    exact .inr ⟨same, holds⟩

theorem RemoteTable.Distinct.holds {j : Fin remoteTimerMax} {id : Bytes}
    (distinct : table.Distinct) (first : table.Holds i id) (second : table.Holds j id) : i = j :=
  distinct i j first.1 second.1 (first.2.trans second.2.symm)

theorem RemoteChange.alone (change : RemoteChange table e nowMs i timer)
    (distinct : table.Distinct) {j : Fin remoteTimerMax} (holds : table.Holds j e.externalId) :
    j = i := by
  rcases change.own with own | ⟨absent, -, -⟩
  · exact distinct.holds holds own
  · exact absurd holds (absent j)

theorem RemoteChange.distinct (change : RemoteChange table e nowMs i timer)
    (distinct : table.Distinct) : RemoteTable.Distinct (Function.update table i timer) := by
  intro j k first second same
  have held (l : Fin remoteTimerMax) (used : RemoteTable.Occupied (Function.update table i timer) l) :
      RemoteTable.Holds (Function.update table i timer) l
        (Function.update table i timer l).externalId := ⟨used, rfl⟩
  rcases update_holds (held j first) with ⟨rfl, used, named⟩ | ⟨other, holds⟩
  · rcases update_holds (held k second) with ⟨rfl, -, -⟩ | ⟨other, holds⟩
    · rfl
    · rw [← same, ← named, change.named used] at holds
      exact absurd (change.alone distinct holds) other
  · rcases update_holds (held k second) with ⟨rfl, used, named⟩ | ⟨-, holds'⟩
    · rw [same, ← named, change.named used] at holds
      exact absurd (change.alone distinct holds) other
    · rw [← same] at holds'
      exact distinct.holds holds holds'

theorem RemoteChange.occupied (change : RemoteChange table e nowMs i timer)
    (type : e.type = .started ∨ e.type = .updated) {k : Fin remoteTimerMax}
    (known : table.Holds k e.externalId) (j : Fin remoteTimerMax) :
    RemoteTable.Occupied (Function.update table i timer) j ↔ table.Occupied j := by
  by_cases other : j = i
  · subst other
    rw [RemoteTable.Occupied, Function.update_self]
    have used : timer.state ≠ .free := by
      cases change with
      | cancel _ cancelled =>
          rw [cancelled] at type
          exact absurd type (by decide)
      | claim _ _ _ | restart _ _ | refresh _ _ _ | late _ _ _ | finish _ _ _ | again _ _ _ =>
          exact nofun
    rcases change.own with own | ⟨absent, -, -⟩
    · exact ⟨fun _ => own.1, fun _ => used⟩
    · exact absurd known (absent k)
  · rw [RemoteTable.Occupied, Function.update_of_ne other]
    exact .rfl

theorem RemoteChange.ring (change : RemoteChange table e nowMs i timer) {j : Fin remoteTimerMax}
    {id : Bytes} {since : Int} (rings : table.Rings j id since)
    (late : e.externalId = id → e.type = .updated ∨ e.type = .finished) :
    RemoteTable.Rings (Function.update table i timer) j id since := by
  by_cases other : j = i
  · subst other
    obtain ⟨ringing, named, began⟩ := rings
    have own : table.Holds j e.externalId := by
      rcases change.own with own | ⟨-, free, -⟩
      · exact own
      · rw [ringing] at free
        exact nomatch free
    have type := late (own.2.symm.trans named)
    rw [RemoteTable.Rings, Function.update_self]
    have kept (began' : (table j).ringStartedMs = since) :
        (e.ringing (table j).ringStartedMs).state = .ringing ∧
          (e.ringing (table j).ringStartedMs).externalId = id ∧
          (e.ringing (table j).ringStartedMs).ringStartedMs = since :=
      ⟨rfl, own.2.symm.trans named, began'⟩
    cases change with
    | claim _ free _ =>
        rw [ringing] at free
        exact nomatch free
    | restart _ started =>
        rw [started] at type
        exact absurd type (by decide)
    | cancel _ cancelled =>
        rw [cancelled] at type
        exact absurd type (by decide)
    | refresh _ _ quiet | finish _ _ quiet => exact absurd ringing quiet
    | late _ _ _ | again _ _ _ => exact kept began
  · rw [RemoteTable.Rings, Function.update_of_ne other]
    exact rings

theorem RemoteChange.absent (change : RemoteChange table e nowMs i timer) {id : Bytes}
    (absent : table.Absent id) (startless : e.externalId = id → e.type ≠ .started) :
    RemoteTable.Absent (Function.update table i timer) id := by
  intro j holds
  rcases update_holds holds with ⟨rfl, used, named⟩ | ⟨-, holds⟩
  · have same : e.externalId = id := (change.named used).symm.trans named
    rcases change.own with own | ⟨-, -, started⟩
    · rw [same] at own
      exact absent j own
    · exact startless same started
  · exact absent j holds

theorem RemoteChange.onlyRings (change : RemoteChange table e nowMs i timer) {id : Bytes}
    {since : Int} (only : table.OnlyRings id since)
    (startless : e.externalId = id → e.type ≠ .started) :
    RemoteTable.OnlyRings (Function.update table i timer) id since := by
  intro j holds
  rcases update_holds holds with ⟨rfl, used, named⟩ | ⟨other, held⟩
  · have same : e.externalId = id := (change.named used).symm.trans named
    have type := startless same
    have rings : table.Rings j id since := by
      rcases change.own with own | ⟨-, -, started⟩
      · rw [same] at own
        exact only j own
      · exact absurd started type
    refine change.ring rings fun _ => ?_
    cases kind : e.type with
    | started => exact absurd kind type
    | updated => exact .inl rfl
    | finished => exact .inr rfl
    | cancelled =>
        cases change with
        | cancel _ _ => exact absurd rfl used
        | claim _ _ h | restart _ h | refresh _ h _ | late _ h _ | finish _ h _ | again _ h _ =>
            rw [kind] at h
            exact nomatch h
  · rw [RemoteTable.Rings, Function.update_of_ne other]
    exact only j held

end Change

/-! ### What the other operations leave -/

def RemoteTable.Thins (before after : RemoteTable) : Prop :=
  ∀ i, after i = before i ∨ after i = .cleared

section Thins
variable {before after : RemoteTable} {id : Bytes} {since : Int}

theorem RemoteTable.Thins.holds (thins : before.Thins after) {i : Fin remoteTimerMax}
    (holds : after.Holds i id) : after i = before i ∧ before.Holds i id := by
  rcases thins i with same | cleared
  · refine ⟨same, ?_⟩
    rw [RemoteTable.Holds, ← same]
    exact holds
  · have used := holds.1
    rw [cleared] at used
    exact absurd rfl used

theorem RemoteTable.Thins.distinct (thins : before.Thins after) (distinct : before.Distinct) :
    after.Distinct := by
  intro i j first second same
  have first := (thins.holds ⟨first, rfl⟩).2
  have second := (thins.holds ⟨second, rfl⟩).2
  rw [← same] at second
  exact distinct.holds first second

theorem RemoteTable.Thins.absent (thins : before.Thins after) (absent : before.Absent id) :
    after.Absent id :=
  fun i holds => absent i (thins.holds holds).2

theorem RemoteTable.Thins.onlyRings (thins : before.Thins after)
    (only : before.OnlyRings id since) : after.OnlyRings id since := by
  intro i holds
  obtain ⟨same, held⟩ := thins.holds holds
  rw [RemoteTable.Rings, same]
  exact only i held

end Thins

theorem thins_clear (before : RemoteTable) (gone : RemoteTimer → Bool) :
    before.Thins fun i => if gone (before i) then .cleared else before i := by
  intro i
  dsimp only
  split
  · exact .inr rfl
  · exact .inl rfl

theorem ringTick_timers (ctx : RemoteContext) (localRinging : Nat) (nowMs afterCueMs : Int) :
    (ringTick ctx localRinging nowMs afterCueMs).remoteTimers =
      (remoteRingExpire ctx nowMs).remoteTimers := by
  unfold ringTick
  dsimp only
  split
  · rfl
  split
  · rfl
  · rfl

theorem ringTick_thins (ctx : RemoteContext) (localRinging : Nat) (nowMs afterCueMs : Int) :
    ctx.remoteTimers.Thins (ringTick ctx localRinging nowMs afterCueMs).remoteTimers := by
  rw [ringTick_timers]
  exact thins_clear ctx.remoteTimers fun timer => timer.overdue nowMs

theorem remoteDismissAll_thins (ctx : RemoteContext) :
    ctx.remoteTimers.Thins (remoteDismissAll ctx).2.remoteTimers := by
  intro i
  by_cases rings : (ctx.remoteTimers i).state = .ringing
  · exact .inr (if_pos rings)
  · exact .inl (if_neg rings)

theorem remoteClear_thins (ctx : RemoteContext) :
    ctx.remoteTimers.Thins (remoteClear ctx).remoteTimers :=
  fun _ => .inr rfl

def ringEndMs (since : Int) : Int :=
  since + leTimerRingSeconds * 1000

section Expire
variable {ctx : RemoteContext} {id : Bytes} {since nowMs : Int} {i : Fin remoteTimerMax}

theorem overdue_iff (rings : ctx.remoteTimers.Rings i id since) :
    (ctx.remoteTimers i).overdue nowMs = true ↔ ringEndMs since ≤ nowMs := by
  rw [RemoteTimer.overdue, decide_eq_true_iff, rings.1, rings.2.2, ringEndMs]
  constructor
  · intro ⟨_, ended⟩
    omega
  · intro ended
    exact ⟨rfl, by omega⟩

theorem remoteRingExpire_over (only : ctx.remoteTimers.OnlyRings id since)
    (ended : ringEndMs since ≤ nowMs) : (remoteRingExpire ctx nowMs).remoteTimers.Absent id := by
  intro i holds
  obtain ⟨-, held⟩ :=
    (thins_clear ctx.remoteTimers fun timer => timer.overdue nowMs).holds holds
  have overdue := (overdue_iff (only i held)).mpr ended
  have cleared : (remoteRingExpire ctx nowMs).remoteTimers i = .cleared := if_pos overdue
  have used := holds.1
  rw [cleared] at used
  exact used rfl

theorem remoteRingExpire_early (rings : ctx.remoteTimers.Rings i id since)
    (early : nowMs < ringEndMs since) :
    (remoteRingExpire ctx nowMs).remoteTimers.Rings i id since := by
  have kept : (remoteRingExpire ctx nowMs).remoteTimers i = ctx.remoteTimers i :=
    if_neg fun overdue => absurd ((overdue_iff rings).mp overdue) (Int.not_le.mpr early)
  rw [RemoteTable.Rings, kept]
  exact rings

end Expire

/-! ### Operations and runs -/

def RemoteOp.Starts (id : Bytes) : RemoteOp RemoteRead → Prop
  | .event (.ok e) _ => e.externalId = id ∧ e.type = .started
  | _ => False

def RemoteOp.Stops (id : Bytes) : RemoteOp RemoteRead → Prop
  | .event (.ok e) _ => e.externalId = id ∧ e.type = .cancelled
  | .clear | .dismissAll => True
  | _ => False

def RemoteOp.TicksFrom (ms : Int) : RemoteOp RemoteRead → Prop
  | .tick _ nowMs _ => ms ≤ nowMs
  | _ => False

def RemoteOp.Reports : RemoteOp RemoteRead → Prop
  | .event (.ok e) _ => e.type = .updated ∨ e.type = .finished
  | .event (.error _) _ => True
  | _ => False

section Perform
variable {ctx : RemoteContext} {id : Bytes} {since : Int} {i : Fin remoteTimerMax}

theorem perform_event (ctx : RemoteContext) (read : RemoteRead) (nowMs : Int) :
    ctx.perform (.event read nowMs) = ctx ∨
      ∃ e i timer, read = .ok e ∧ RemoteChange ctx.remoteTimers e nowMs i timer ∧
        (ctx.perform (.event read nowMs)).remoteTimers =
          Function.update ctx.remoteTimers i timer := by
  rcases answerRemoteEvent_change ctx read nowMs with ⟨e, refused⟩ | changed
  · exact .inl (congrArg Prod.snd refused)
  · obtain ⟨e, i, timer, after, told, answered, change, timers⟩ := changed
    refine .inr ⟨e, i, timer, told, change, ?_⟩
    rw [RemoteContext.perform, answered]
    exact timers

theorem perform_distinct (op : RemoteOp RemoteRead) (distinct : ctx.remoteTimers.Distinct) :
    (ctx.perform op).remoteTimers.Distinct := by
  cases op with
  | clear => exact (remoteClear_thins ctx).distinct distinct
  | dismissAll => exact (remoteDismissAll_thins ctx).distinct distinct
  | tick localRinging nowMs afterCueMs =>
      exact (ringTick_thins ctx localRinging nowMs afterCueMs).distinct distinct
  | event read nowMs =>
      rcases perform_event ctx read nowMs with same | ⟨e, j, timer, -, change, timers⟩
      · rw [same]
        exact distinct
      · rw [timers]
        exact change.distinct distinct

theorem perform_absent {op : RemoteOp RemoteRead} (startless : ¬ op.Starts id)
    (absent : ctx.remoteTimers.Absent id) : (ctx.perform op).remoteTimers.Absent id := by
  cases op with
  | clear => exact (remoteClear_thins ctx).absent absent
  | dismissAll => exact (remoteDismissAll_thins ctx).absent absent
  | tick localRinging nowMs afterCueMs =>
      exact (ringTick_thins ctx localRinging nowMs afterCueMs).absent absent
  | event read nowMs =>
      rcases perform_event ctx read nowMs with same | ⟨e, j, timer, told, change, timers⟩
      · rw [same]
        exact absent
      · subst told
        rw [timers]
        exact change.absent absent fun own started => startless ⟨own, started⟩

theorem perform_onlyRings {op : RemoteOp RemoteRead} (startless : ¬ op.Starts id)
    (only : ctx.remoteTimers.OnlyRings id since) :
    (ctx.perform op).remoteTimers.OnlyRings id since := by
  cases op with
  | clear => exact (remoteClear_thins ctx).onlyRings only
  | dismissAll => exact (remoteDismissAll_thins ctx).onlyRings only
  | tick localRinging nowMs afterCueMs =>
      exact (ringTick_thins ctx localRinging nowMs afterCueMs).onlyRings only
  | event read nowMs =>
      rcases perform_event ctx read nowMs with same | ⟨e, j, timer, told, change, timers⟩
      · rw [same]
        exact only
      · subst told
        rw [timers]
        exact change.onlyRings only fun own started => startless ⟨own, started⟩

theorem perform_over {op : RemoteOp RemoteRead} (ticks : op.TicksFrom (ringEndMs since))
    (only : ctx.remoteTimers.OnlyRings id since) : (ctx.perform op).remoteTimers.Absent id := by
  cases op with
  | clear | dismissAll | event _ _ => exact ticks.elim
  | tick localRinging nowMs afterCueMs =>
      rw [RemoteContext.perform, ringTick_timers]
      exact remoteRingExpire_over only ticks

theorem perform_rings {op : RemoteOp RemoteRead} (startless : ¬ op.Starts id)
    (stopless : ¬ op.Stops id) (early : ¬ op.TicksFrom (ringEndMs since))
    (rings : ctx.remoteTimers.Rings i id since) :
    (ctx.perform op).remoteTimers.Rings i id since := by
  cases op with
  | clear | dismissAll => exact absurd trivial stopless
  | tick localRinging nowMs afterCueMs =>
      rw [RemoteContext.perform, ringTick_timers]
      exact remoteRingExpire_early rings (Int.not_le.mp early)
  | event read nowMs =>
      rcases perform_event ctx read nowMs with same | ⟨e, j, timer, told, change, timers⟩
      · rw [same]
        exact rings
      · subst told
        rw [timers]
        refine change.ring rings fun own => ?_
        cases type : e.type with
        | started => exact absurd ⟨own, type⟩ startless
        | cancelled => exact absurd ⟨own, type⟩ stopless
        | updated => exact .inl rfl
        | finished => exact .inr rfl

theorem perform_reports {op : RemoteOp RemoteRead} (reports : op.Reports)
    (rings : ctx.remoteTimers.Rings i id since) :
    (ctx.perform op).remoteTimers.Rings i id since := by
  cases op with
  | clear | dismissAll | tick _ _ _ => exact reports.elim
  | event read nowMs =>
      rcases perform_event ctx read nowMs with same | ⟨e, j, timer, told, change, timers⟩
      · rw [same]
        exact rings
      · subst told
        rw [timers]
        exact change.ring rings fun _ => reports

end Perform

/-- What an operation reads as. -/
inductive RemoteOp.Reads : RemoteOp (Option Bytes) → RemoteOp RemoteRead → Prop where
  | event {args : Option Bytes} {read : RemoteRead} (nowMs : Int) :
      readRemoteEvent args = .ok read → Reads (.event args nowMs) (.event read nowMs)
  | clear : Reads .clear .clear
  | dismissAll : Reads .dismissAll .dismissAll
  | tick (localRinging : Nat) (nowMs afterCueMs : Int) :
      Reads (.tick localRinging nowMs afterCueMs) (.tick localRinging nowMs afterCueMs)

theorem step_reads (op : RemoteOp (Option Bytes)) :
    ∃ act, op.Reads act ∧ ∀ ctx : RemoteContext, ctx.step op = .ok (ctx.perform act) := by
  cases op with
  | clear => exact ⟨_, .clear, fun _ => rfl⟩
  | dismissAll => exact ⟨_, .dismissAll, fun _ => rfl⟩
  | tick localRinging nowMs afterCueMs => exact ⟨_, .tick _ _ _, fun _ => rfl⟩
  | event args nowMs =>
      obtain ⟨read, same⟩ := readRemoteEvent_returns args
      refine ⟨_, .event nowMs same, fun ctx => ?_⟩
      rw [RemoteContext.step, remoteEvent, same]
      rfl

theorem run_reads (ops : List (RemoteOp (Option Bytes))) :
    ∃ acts, List.Forall₂ RemoteOp.Reads ops acts ∧
      ∀ ctx : RemoteContext, ctx.run ops = .ok (Runs.run RemoteContext.perform ctx acts) := by
  induction ops with
  | nil => exact ⟨[], .nil, fun _ => rfl⟩
  | cons op ops ih =>
      obtain ⟨act, reads, stepped⟩ := step_reads op
      obtain ⟨acts, all, ran⟩ := ih
      refine ⟨act :: acts, .cons reads all, fun ctx => ?_⟩
      rw [RemoteContext.run, stepped]
      exact ran _

section Run
variable {ctx : RemoteContext} {id : Bytes} {since : Int} {acts : List (RemoteOp RemoteRead)}

theorem run_distinct (acts : List (RemoteOp RemoteRead)) :
    (Runs.run RemoteContext.perform remoteBoot acts).remoteTimers.Distinct := by
  refine @Runs.run_invariant_always _ _ RemoteContext.perform
    (fun ctx => ctx.remoteTimers.Distinct) (fun ctx op => perform_distinct op) _ ?_ acts
  intro i j used
  exact absurd rfl used

theorem run_absent (startless : ∀ op ∈ acts, ¬ op.Starts id)
    (absent : ctx.remoteTimers.Absent id) :
    (Runs.run RemoteContext.perform ctx acts).remoteTimers.Absent id :=
  @Runs.run_invariant _ _ RemoteContext.perform (fun ctx => ctx.remoteTimers.Absent id) _
    (fun _ _ here starts => perform_absent starts here) _ _ absent
    (Runs.admits_of_forall startless ctx)

theorem run_onlyRings (startless : ∀ op ∈ acts, ¬ op.Starts id)
    (only : ctx.remoteTimers.OnlyRings id since) :
    (Runs.run RemoteContext.perform ctx acts).remoteTimers.OnlyRings id since :=
  @Runs.run_invariant _ _ RemoteContext.perform (fun ctx => ctx.remoteTimers.OnlyRings id since) _
    (fun _ _ here starts => perform_onlyRings starts here) _ _ only
    (Runs.admits_of_forall startless ctx)

theorem run_over (startless : ∀ op ∈ acts, ¬ op.Starts id)
    (only : ctx.remoteTimers.OnlyRings id since)
    (ended : ∃ op ∈ acts, op.TicksFrom (ringEndMs since)) :
    (Runs.run RemoteContext.perform ctx acts).remoteTimers.Absent id := by
  obtain ⟨op, member, ticks⟩ := ended
  obtain ⟨front, back, rfl⟩ := List.append_of_mem member
  rw [Runs.run_append, Runs.run_cons]
  have before := run_onlyRings (fun op here => startless op (List.mem_append_left _ here)) only
  refine run_absent (fun op here => startless op ?_) (perform_over ticks before)
  exact List.mem_append_right _ (List.mem_cons_of_mem _ here)

theorem run_rings {i : Fin remoteTimerMax}
    (spares : ∀ op ∈ acts, ¬ op.Starts id ∧ ¬ op.Stops id ∧ ¬ op.TicksFrom (ringEndMs since))
    (rings : ctx.remoteTimers.Rings i id since) :
    (Runs.run RemoteContext.perform ctx acts).remoteTimers.Rings i id since :=
  @Runs.run_invariant _ _ RemoteContext.perform (fun ctx => ctx.remoteTimers.Rings i id since) _
    (fun _ _ here spared => perform_rings spared.1 spared.2.1 spared.2.2 here) _ _ rings
    (Runs.admits_of_forall spares ctx)

theorem run_reports {i : Fin remoteTimerMax} (reports : ∀ op ∈ acts, op.Reports)
    (rings : ctx.remoteTimers.Rings i id since) :
    (Runs.run RemoteContext.perform ctx acts).remoteTimers.Rings i id since :=
  @Runs.run_invariant _ _ RemoteContext.perform (fun ctx => ctx.remoteTimers.Rings i id since) _
    (fun _ _ here report => perform_reports report here) _ _ rings
    (Runs.admits_of_forall reports ctx)

end Run

/-! ### The events of a table -/

section Events
variable {ctx after : RemoteContext} {read : RemoteRead} {e : RemoteEvent} {nowMs : Int}

theorem answerRemoteEvent_error {error : RemoteError}
    (refused : (answerRemoteEvent ctx read nowMs).1 = .error error) :
    (answerRemoteEvent ctx read nowMs).2 = ctx := by
  rcases answerRemoteEvent_change ctx read nowMs with ⟨_, same⟩ | ⟨_, _, _, _, _, same, -, -⟩
  · rw [same]
  · rw [same] at refused
    exact nomatch refused

theorem answerRemoteEvent_occupied (type : e.type = .started ∨ e.type = .updated)
    {k : Fin remoteTimerMax} (known : ctx.remoteTimers.Holds k e.externalId)
    (i : Fin remoteTimerMax) :
    (answerRemoteEvent ctx (.ok e) nowMs).2.remoteTimers.Occupied i ↔
      ctx.remoteTimers.Occupied i := by
  rcases answerRemoteEvent_change ctx (.ok e) nowMs with ⟨_, same⟩ | changed
  · rw [same]
  · obtain ⟨_, j, timer, after, told, same, change, timers⟩ := changed
    cases told
    rw [same, timers]
    exact change.occupied type known i

theorem answerRemoteEvent_finished (distinct : ctx.remoteTimers.Distinct)
    (type : e.type = .finished)
    (quiet : ∀ i since, ¬ ctx.remoteTimers.Rings i e.externalId since)
    (answered : answerRemoteEvent ctx (.ok e) nowMs = (.ok (), after)) :
    (∃ i, after.remoteTimers.Rings i e.externalId nowMs) ∧
      after.remoteTimers.OnlyRings e.externalId nowMs := by
  rcases answerRemoteEvent_change ctx (.ok e) nowMs with ⟨_, same⟩ | changed
  · rw [same] at answered
    exact nomatch answered
  · obtain ⟨_, i, timer, _, told, same, change, timers⟩ := changed
    cases told
    rw [same] at answered
    cases answered
    have rings (begun : timer = e.ringing nowMs) :
        after.remoteTimers.Rings i e.externalId nowMs := by
      rw [timers, RemoteTable.Rings, Function.update_self, begun]
      exact ⟨rfl, rfl, rfl⟩
    have begun : timer = e.ringing nowMs := by
      cases change with
      | finish _ _ _ => rfl
      | again holds _ ringing => exact absurd ⟨ringing, holds.2, rfl⟩ (quiet i _)
      | claim _ _ h | restart _ h | refresh _ h _ | late _ h _ | cancel _ h =>
          rw [type] at h
          exact nomatch h
    refine ⟨⟨i, rings begun⟩, fun j holds => ?_⟩
    rw [timers] at holds
    rcases update_holds holds with ⟨rfl, -, -⟩ | ⟨other, held⟩
    · exact rings begun
    · exact absurd (change.alone distinct held) other

end Events

theorem timerPollTimeout_ring (set : LeTimerSet) (stateLoaded : Bool) {ctx : RemoteContext}
    {nowMs : Int} (nowEpoch : Int) {i : Fin remoteTimerMax} {id : Bytes} {since : Int}
    (rings : ctx.remoteTimers.Rings i id since) (early : nowMs < ringEndMs since) :
    timerPollTimeout set stateLoaded ctx nowMs nowEpoch ≤ ringEndMs since - nowMs := by
  have remaining : remoteRemaining nowMs (ctx.remoteTimers i) = some (ringEndMs since - nowMs) := by
    rw [remoteRemaining, if_pos rings.1, rings.2.2, ringEndMs]
  have bound := @foldl_shorter_le_some _ (fun i => remoteRemaining nowMs (ctx.remoteTimers i)) _ _
    (List.mem_finRange i) _ remaining (Int.sub_pos.mpr early)
    (leTimerPollTimeoutMs set nowMs nowEpoch pollCapMs)
  unfold timerPollTimeout
  dsimp only
  split
  case isTrue retry => exact Int.le_trans (Int.le_of_lt retry.2) bound
  case isFalse => exact bound

/-! ### Every reachable table -/

/-- Every event of this table is answered, and an error leaves the table alone. -/
def RemoteContext.AnswersWhole (ctx : RemoteContext) : Prop :=
  ∀ args nowMs, ∃ read,
    readRemoteEvent args = .ok read ∧
    remoteEvent ctx args nowMs = .ok (answerRemoteEvent ctx read nowMs) ∧
    (∀ error, (answerRemoteEvent ctx read nowMs).1 = .error error →
      (answerRemoteEvent ctx read nowMs).2 = ctx) ∧
    ∀ e k, read = .ok e → e.type = .started ∨ e.type = .updated →
      ctx.remoteTimers.Holds k e.externalId →
      ∀ i, (answerRemoteEvent ctx read nowMs).2.remoteTimers.Occupied i ↔
        ctx.remoteTimers.Occupied i

/-- UPDATED and FINISHED events leave a ring where and when it began. -/
def RemoteContext.RingsOn (ctx : RemoteContext) : Prop :=
  ∀ later, ∃ acts last, List.Forall₂ RemoteOp.Reads later acts ∧ ctx.run later = .ok last ∧
    ((∀ op ∈ acts, op.Reports) →
      ∀ i id since, ctx.remoteTimers.Rings i id since → last.remoteTimers.Rings i id since)

/--
From the FINISHED of an id that does not ring: a turn of the loop once the time is up ends the
ring, unless the id was started again; until then it rings, unless it was stopped; and the loop
does not sleep past the end.
-/
def RemoteContext.RingEnds (ctx : RemoteContext) : Prop :=
  ∀ args nowMs e after, readRemoteEvent args = .ok (.ok e) → e.type = .finished →
    (∀ i since, ¬ ctx.remoteTimers.Rings i e.externalId since) →
    remoteEvent ctx args nowMs = .ok (.ok (), after) →
    ∀ later, ∃ acts last, List.Forall₂ RemoteOp.Reads later acts ∧ after.run later = .ok last ∧
      ((∀ op ∈ acts, ¬ op.Starts e.externalId) →
        (∃ op ∈ acts, op.TicksFrom (ringEndMs nowMs)) → last.remoteTimers.Absent e.externalId) ∧
      ((∀ op ∈ acts, ¬ op.Starts e.externalId ∧ ¬ op.Stops e.externalId ∧
          ¬ op.TicksFrom (ringEndMs nowMs)) →
        ∃ i, last.remoteTimers.Rings i e.externalId nowMs ∧
          ∀ set loaded laterMs nowEpoch, laterMs < ringEndMs nowMs →
            timerPollTimeout set loaded last laterMs nowEpoch ≤ ringEndMs nowMs - laterMs)

theorem answersWhole (ctx : RemoteContext) : ctx.AnswersWhole := by
  intro args nowMs
  obtain ⟨read, same⟩ := readRemoteEvent_returns args
  refine ⟨read, same, by rw [remoteEvent, same]; rfl, fun _ => answerRemoteEvent_error, ?_⟩
  intro e k told type known
  subst told
  exact answerRemoteEvent_occupied type known

theorem ringsOn (ctx : RemoteContext) : ctx.RingsOn := by
  intro later
  obtain ⟨acts, reads, ran⟩ := run_reads later
  exact ⟨acts, _, reads, ran ctx, fun reports _ _ _ rings => run_reports reports rings⟩

theorem ringEnds {ctx : RemoteContext} (distinct : ctx.remoteTimers.Distinct) : ctx.RingEnds := by
  intro args nowMs e after told type quiet answered later
  rw [remoteEvent, told] at answered
  obtain ⟨⟨i, rings⟩, only⟩ :=
    answerRemoteEvent_finished distinct type quiet (Except.ok.inj answered)
  obtain ⟨acts, reads, ran⟩ := run_reads later
  refine ⟨acts, _, reads, ran after, fun startless ended => run_over startless only ended, ?_⟩
  intro spares
  have still := run_rings spares rings
  exact ⟨i, still, fun set loaded laterMs nowEpoch early =>
    timerPollTimeout_ring set loaded nowEpoch still early⟩

/--
Remote timer events are atomic: after every run of events, clears, dismissals and turns of the
loop the ids of the table are distinct, the next event is answered and changes nothing if it is
answered with an error, and a ring ends at its time and not by more reports.
-/
theorem remoteEvent_atomic (ops : List (RemoteOp (Option Bytes))) :
    ∃ ctx, remoteBoot.run ops = .ok ctx ∧ ctx.remoteTimers.Distinct ∧ ctx.AnswersWhole ∧
      ctx.RingsOn ∧ ctx.RingEnds := by
  obtain ⟨acts, -, ran⟩ := run_reads ops
  have distinct := run_distinct acts
  exact ⟨_, ran remoteBoot, distinct, answersWhole _, ringsOn _, ringEnds distinct⟩

end LibreEcho.Timer
