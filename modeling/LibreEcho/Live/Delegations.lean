import LibreEcho.Lib.RecentTable
import LibreEcho.Live.Moves
import LibreEcho.Live.SessionRun

/-!
Delegations run at most once while they are remembered.

A conversation keeps the id and the result of every dispatch since the wake that
opened it. The cache is a table of the newest of them, so a lookup decides
between a dispatch and the recorded answer.
-/
namespace LibreEcho.Live
open RecentTable

def LeLiveCall.dispatches : LeLiveCall → Bool
  | .dispatch _ _ _ => true
  | _ => false

def LeLiveCall.answer : LeLiveCall → Option (CText × CText)
  | .completeDelegation id result _ => some (id, result)
  | _ => none

def dispatchCount (calls : List LeLiveCall) : Nat :=
  calls.countP LeLiveCall.dispatches

def answers (calls : List LeLiveCall) : List (CText × CText) :=
  calls.filterMap LeLiveCall.answer

def newCalls (before after : LeLiveSession) : List LeLiveCall :=
  after.calls.drop before.calls.length

structure Conversation where
  session : LeLiveSession
  /-- Id and answer of every dispatch since the conversation was opened, newest first. -/
  dispatches : List (CText × CText)

def Conversation.start (ring : LeLiveRing) (config : LeLiveSessionConfig) : Conversation where
  session := leLiveSessionInit ring config
  dispatches := []

def Conversation.step (E : LeLiveEnvironment) (r : Conversation) (op : SessionOp) : Conversation :=
  let session := sessionStep E r.session op
  let calls := newCalls r.session session
  { session := session
    dispatches :=
      if session.sessionsStarted ≠ r.session.sessionsStarted then []
      else if dispatchCount calls = 0 then r.dispatches
      else answers calls ++ r.dispatches }

def Conversation.remembered (r : Conversation) : List (CText × CText) :=
  r.dispatches.take leLiveDelegationCache

def delegationOf (E : LeLiveEnvironment) (s : LeLiveSession) : SessionOp → Option CText
  | .pump timeoutMs _ =>
      if leLiveSessionActive s = false then none
      else
        match E.poll s.callCount timeoutMs with
        | .event (.delegation id _ _) => some id
        | _ => none
  | _ => none

/-- A dispatch happens exactly for an id that is not remembered; a remembered one
is answered as recorded. -/
def DelegationExact (E : LeLiveEnvironment) (r : Conversation) (op : SessionOp) : Prop :=
  let after := sessionStep E r.session op
  let calls := newCalls r.session after
  match delegationOf E r.session op with
  | none => dispatchCount calls = 0
  | some id =>
      dispatchCount calls = (if id ∈ r.remembered.map Prod.fst then 0 else 1) ∧
        ∀ result, (id, result) ∈ r.remembered →
          answers calls = [(id, result)] ∧
            after.delegationCount = r.session.delegationCount ∧
            after.delegationFailures = r.session.delegationFailures

def CacheDistinct (s : LeLiveSession) : Prop :=
  ∀ i j first second, s.delegationCache i = some first → s.delegationCache j = some second →
    first.id = second.id → i = j

/-- Delegation ids are not empty and fit the event's buffer. -/
def NamesDelegations (E : LeLiveEnvironment) : Prop :=
  ∀ n timeoutMs id tool arguments, E.poll n timeoutMs = .event (.delegation id tool arguments) →
    id ≠ [] ∧ id.length < leLiveDelegationIdMax

/-! ### Moves leave delegations alone -/

/-- The log grows by calls of the given kind; counters and cache stay. -/
structure Quiet (s t : LeLiveSession) : Prop where
  calls : ∃ more, t.calls = s.calls ++ more ∧ ∀ c ∈ more, c.delegates = false
  started : t.sessionsStarted = s.sessionsStarted
  cache : t.delegationCache = s.delegationCache
  next : t.delegationNext = s.delegationNext
  count : t.delegationCount = s.delegationCount
  failures : t.delegationFailures = s.delegationFailures

theorem Quiet.refl (s : LeLiveSession) : Quiet s s :=
  ⟨⟨[], (List.append_nil _).symm, fun _ member => absurd member List.not_mem_nil⟩,
    rfl, rfl, rfl, rfl, rfl⟩

theorem Quiet.trans {s t u : LeLiveSession} (first : Quiet s t) (second : Quiet t u) :
    Quiet s u := by
  obtain ⟨one, calls, plain⟩ := first.calls
  obtain ⟨two, later, also⟩ := second.calls
  refine ⟨⟨one ++ two, by rw [later, calls, List.append_assoc], ?_⟩, ?_, ?_, ?_, ?_, ?_⟩
  · intro c member
    cases List.mem_append.mp member with
    | inl member => exact plain c member
    | inr member => exact also c member
  · exact second.started.trans first.started
  · exact second.cache.trans first.cache
  · exact second.next.trans first.next
  · exact second.count.trans first.count
  · exact second.failures.trans first.failures

theorem Quiet.call (s : LeLiveSession) {c : LeLiveCall} (plain : c.delegates = false) :
    Quiet s (s.call c) := by
  refine ⟨⟨[c], rfl, ?_⟩, rfl, rfl, rfl, rfl, rfl⟩
  intro other member
  rw [List.mem_singleton.mp member]
  exact plain

theorem Quiet.setState (s : LeLiveSession) (state : LeLiveState) :
    Quiet s (Live.setState s state) := by
  rw [Live.setState]
  split
  · exact .refl s
  · exact Quiet.trans (t := { s with state := state })
      ⟨(Quiet.refl s).calls, rfl, rfl, rfl, rfl, rfl⟩ (.call _ rfl)

theorem Quiet.same {s t : LeLiveSession} (same : t.books = s.books) : Quiet s t := by
  have calls : t.calls = s.calls := congrArg Books.calls same
  refine ⟨⟨[], by rw [calls, List.append_nil], fun _ member => absurd member List.not_mem_nil⟩,
    ?_, ?_, ?_, ?_, ?_⟩
  · exact congrArg Books.started same
  · exact congrArg Books.cache same
  · exact congrArg Books.next same
  · exact congrArg Books.delegations same
  · exact congrArg Books.delegationFailures same

theorem Quiet.close (s : LeLiveSession) (reason : LeLiveEndReason) :
    Quiet s (leLiveSessionClose s reason) := by
  rw [leLiveSessionClose]
  split
  · exact .refl s
  · have stopped : Quiet s (((Live.setState s .closing).call .cancelOutput).call .transportStop) :=
      ((Quiet.setState s .closing).trans (.call _ rfl)).trans (.call _ rfl)
    obtain ⟨calls, started, cache, next, count, failures⟩ := stopped
    simp only
    refine Quiet.trans ?_ (Quiet.setState _ .idle)
    split
    · exact ⟨calls, started, cache, next, count, failures⟩
    · exact ⟨calls, started, cache, next, count, failures⟩

theorem Moves.quiet {s t : LeLiveSession} (moves : Moves s t) : Quiet s t := by
  induction moves with
  | refl => exact .refl s
  | same _ same ih => exact ih.trans (.same same)
  | call _ _ _ plain ih => exact ih.trans (.call _ plain)
  | setState _ _ _ ih => exact ih.trans (.setState _ _)
  | close reason _ ih => exact ih.trans (.close _ reason)

theorem dispatchCount_append (a b : List LeLiveCall) :
    dispatchCount (a ++ b) = dispatchCount a + dispatchCount b :=
  List.countP_append

theorem answers_append (a b : List LeLiveCall) : answers (a ++ b) = answers a ++ answers b :=
  List.filterMap_append

theorem plain_calls {calls : List LeLiveCall} (plain : ∀ c ∈ calls, c.delegates = false) :
    dispatchCount calls = 0 ∧ answers calls = [] := by
  refine ⟨List.countP_eq_zero.mpr ?_, List.filterMap_eq_nil_iff.mpr ?_⟩
  · intro c member
    have other := plain c member
    cases c with
    | dispatch _ _ _ => exact absurd other (by simp [LeLiveCall.delegates])
    | _ => simp [LeLiveCall.dispatches]
  · intro c member
    have other := plain c member
    cases c with
    | completeDelegation _ _ _ => exact absurd other (by simp [LeLiveCall.delegates])
    | _ => rfl

theorem newCalls_of_append {s t : LeLiveSession} {more : List LeLiveCall}
    (calls : t.calls = s.calls ++ more) : newCalls s t = more := by
  rw [newCalls, calls, List.drop_left]

theorem Quiet.newCalls {s t : LeLiveSession} (quiet : Quiet s t) :
    dispatchCount (newCalls s t) = 0 ∧ answers (Live.newCalls s t) = [] := by
  obtain ⟨more, calls, plain⟩ := quiet.calls
  rw [newCalls_of_append calls]
  exact plain_calls plain

/-! ### The cache as the newest dispatches -/

def LeLiveDelegationRecord.entry (record : LeLiveDelegationRecord) : CText × CText :=
  (record.id, record.result)

def cachedEntries (s : LeLiveSession) (i : Fin leLiveDelegationCache) : Option (CText × CText) :=
  (s.delegationCache i).map LeLiveDelegationRecord.entry

/-- The cache holds the newest of these dispatches, with distinct ids. -/
structure Remembers (s : LeLiveSession) (dispatches : List (CText × CText)) : Prop where
  holds : RecentTable.Holds (cachedEntries s) s.delegationNext dispatches
  distinct : ((dispatches.take leLiveDelegationCache).map Prod.fst).Nodup

variable {s t : LeLiveSession} {dispatches : List (CText × CText)}

theorem Remembers.quiet (h : Remembers s dispatches) (quiet : Quiet s t) :
    Remembers t dispatches := by
  refine ⟨?_, h.distinct⟩
  have same : cachedEntries t = cachedEntries s := by
    funext i
    rw [cachedEntries, cachedEntries, quiet.cache]
  rw [same, quiet.next]
  exact h.holds

theorem delegationLookup_some {id : CText} {record : LeLiveDelegationRecord}
    (h : Remembers s dispatches) (found : delegationLookup s id = some record) :
    record.id = id ∧ (id, record.result) ∈ dispatches.take leLiveDelegationCache := by
  rw [delegationLookup] at found
  split at found
  · exact absurd found (by simp)
  · obtain ⟨i, -, here⟩ := List.exists_of_findSome?_eq_some found
    obtain ⟨cached, same⟩ := Option.filter_eq_some_iff.mp here
    have named : record.id = id := of_decide_eq_true same
    refine ⟨named, (h.holds.mem_iff _).mp ⟨i, ?_⟩⟩
    rw [cachedEntries, cached, Option.map_some, LeLiveDelegationRecord.entry, named]

theorem delegationLookup_none {id : CText} (h : Remembers s dispatches) (named : id ≠ [])
    (fresh : delegationLookup s id = none) :
    id ∉ (dispatches.take leLiveDelegationCache).map Prod.fst := by
  intro member
  obtain ⟨entry, inside, same⟩ := List.mem_map.mp member
  obtain ⟨i, here⟩ := (h.holds.mem_iff entry).mpr inside
  obtain ⟨record, cached, stored⟩ := Option.map_eq_some_iff.mp here
  rw [delegationLookup, if_neg named, List.findSome?_eq_none_iff] at fresh
  have missed := fresh i (List.mem_finRange i)
  rw [cached, Option.filter_eq_none_iff] at missed
  refine missed record rfl ?_
  rw [← stored] at same
  exact decide_eq_true same

theorem copyText_fits {size : Nat} {value : CText} (fits : value.length < size) :
    copyText size value = value :=
  List.take_of_length_le (by omega)

theorem dispatchResult_fits (answer : Bool × CText) :
    (dispatchResult answer).length < leLiveArgumentMax := by
  rw [dispatchResult]
  split
  · decide
  · rw [copyText, List.length_take]
    simp only [leLiveArgumentMax]
    omega

theorem Remembers.dispatched (h : Remembers s dispatches) {id : CText}
    (fits : id.length < leLiveDelegationIdMax)
    (fresh : id ∉ (dispatches.take leLiveDelegationCache).map Prod.fst) (tool arguments : CText)
    (answer : Bool × CText) :
    Remembers (dispatched s id tool arguments answer) ((id, dispatchResult answer) :: dispatches) := by
  have stored := h.holds.store (id, dispatchResult answer)
  have entries : cachedEntries (Live.dispatched s id tool arguments answer) =
      Function.update (cachedEntries s) s.delegationNext (some (id, dispatchResult answer)) := by
    funext i
    have kept := copyText_fits fits
    have whole := copyText_fits (dispatchResult_fits answer)
    by_cases here : i = s.delegationNext
    · subst here
      rw [Function.update_self]
      cases ok : answer.1 with
      | true | false =>
          simp [cachedEntries, Live.dispatched, delegationStore, LeLiveSession.call, ok,
            LeLiveDelegationRecord.entry, kept, whole]
    · rw [Function.update_of_ne here]
      cases ok : answer.1 with
      | true | false =>
          simp [cachedEntries, Live.dispatched, delegationStore, LeLiveSession.call, ok, here]
  have next : (Live.dispatched s id tool arguments answer).delegationNext =
      advance s.delegationNext := by
    cases ok : answer.1 with
    | true | false =>
        simp only [Live.dispatched, delegationStore, LeLiveSession.call, ok]
        rfl
  refine ⟨?_, ?_⟩
  · rw [entries, next]
    exact stored
  · have older : (dispatches.take 15).Sublist (dispatches.take leLiveDelegationCache) :=
      (List.take_prefix_take_left (by decide)).sublist
    show (((id, dispatchResult answer) :: dispatches.take 15).map Prod.fst).Nodup
    rw [List.map_cons, List.nodup_cons]
    exact ⟨fun member => fresh ((older.map _).subset member), h.distinct.sublist (older.map _)⟩

theorem Remembers.cacheDistinct (h : Remembers s dispatches) : CacheDistinct s := by
  intro i j first second one two same
  refine h.holds.place_unique h.distinct (x := first.entry) (y := second.entry) ?_ ?_ same
  · rw [cachedEntries, one]
    rfl
  · rw [cachedEntries, two]
    rfl

theorem remembered_unique (h : Remembers s dispatches) {id a b : CText}
    (first : (id, a) ∈ dispatches.take leLiveDelegationCache)
    (second : (id, b) ∈ dispatches.take leLiveDelegationCache) : a = b := by
  have same := List.inj_on_of_nodup_map h.distinct first second rfl
  exact congrArg Prod.snd same

/-! ### One operation -/

/-- From `s` to `t` a delegation was handled: answered from the cache, or
dispatched and recorded. -/
inductive Handled (s t : LeLiveSession) (dispatches : List (CText × CText)) (id : CText) : Prop where
  | replayed (result : CText) (more : List LeLiveCall) :
      t.calls = s.calls ++ more → t.sessionsStarted = s.sessionsStarted →
      (id, result) ∈ dispatches.take leLiveDelegationCache →
      dispatchCount more = 0 → answers more = [(id, result)] →
      t.delegationCount = s.delegationCount → t.delegationFailures = s.delegationFailures →
      Remembers t dispatches → Handled s t dispatches id
  | dispatched (result : CText) (more : List LeLiveCall) :
      t.calls = s.calls ++ more → t.sessionsStarted = s.sessionsStarted →
      id ∉ (dispatches.take leLiveDelegationCache).map Prod.fst →
      dispatchCount more = 1 → answers more = [(id, result)] →
      Remembers t ((id, result) :: dispatches) → Handled s t dispatches id

theorem Handled.after {id : CText} (handled : Handled s t dispatches id) {u : LeLiveSession}
    (quiet : Quiet t u) : Handled s u dispatches id := by
  obtain ⟨rest, later, plain⟩ := quiet.calls
  obtain ⟨none, silent⟩ := plain_calls plain
  cases handled with
  | replayed result more calls started member count answered counted failures kept =>
      refine .replayed result (more ++ rest) ?_ (quiet.started.trans started) member ?_ ?_
        (quiet.count.trans counted) (quiet.failures.trans failures) (kept.quiet quiet)
      · rw [later, calls, List.append_assoc]
      · rw [dispatchCount_append, count, none]
      · rw [answers_append, answered, silent, List.append_nil]
  | dispatched result more calls started fresh count answered kept =>
      refine .dispatched result (more ++ rest) ?_ (quiet.started.trans started) fresh ?_ ?_
        (kept.quiet quiet)
      · rw [later, calls, List.append_assoc]
      · rw [dispatchCount_append, count, none]
      · rw [answers_append, answered, silent, List.append_nil]

theorem Handled.before {id : CText} {r : LeLiveSession} (quiet : Quiet r s)
    (handled : Handled s t dispatches id) : Handled r t dispatches id := by
  obtain ⟨rest, earlier, plain⟩ := quiet.calls
  obtain ⟨none, silent⟩ := plain_calls plain
  cases handled with
  | replayed result more calls started member count answered counted failures kept =>
      refine .replayed result (rest ++ more) ?_ (started.trans quiet.started) member ?_ ?_
        (counted.trans quiet.count) (failures.trans quiet.failures) kept
      · rw [calls, earlier, List.append_assoc]
      · rw [dispatchCount_append, count, none]
      · rw [answers_append, answered, silent, List.nil_append]
  | dispatched result more calls started fresh count answered kept =>
      refine .dispatched result (rest ++ more) ?_ (started.trans quiet.started) fresh ?_ ?_ kept
      · rw [calls, earlier, List.append_assoc]
      · rw [dispatchCount_append, count, none]
      · rw [answers_append, answered, silent, List.nil_append]

theorem handleDelegation_handled (E : LeLiveEnvironment) (h : Remembers s dispatches)
    (active : s.state ≠ .idle) {id : CText} (named : id ≠ [])
    (fits : id.length < leLiveDelegationIdMax) (tool arguments : CText) :
    Handled s (handleDelegation E s id tool arguments) dispatches id := by
  cases found : delegationLookup s id with
  | some replay =>
      obtain ⟨same, member⟩ := delegationLookup_some h found
      have quiet := (handleDelegation_replay E found tool arguments).quiet
      refine Handled.after ?_ quiet
      refine .replayed replay.result _ rfl rfl member rfl ?_ rfl rfl ⟨h.holds, h.distinct⟩
      rw [← same]
      rfl
  | none =>
      have fresh := delegationLookup_none h named found
      have quiet := (handleDelegation_fresh E active found tool arguments).quiet
      have stored := h.dispatched fits fresh tool arguments (E.dispatch s.callCount tool arguments)
      have log : (dispatched s id tool arguments (E.dispatch s.callCount tool arguments)).calls =
            s.calls ++ [.dispatch tool arguments (E.dispatch s.callCount tool arguments).1] ∧
          (dispatched s id tool arguments
            (E.dispatch s.callCount tool arguments)).sessionsStarted = s.sessionsStarted := by
        cases ok : (E.dispatch s.callCount tool arguments).1 with
        | true | false => simp [dispatched, delegationStore, LeLiveSession.call, ok]
      generalize dispatched s id tool arguments (E.dispatch s.callCount tool arguments) = t
        at quiet stored log
      generalize dispatchResult (E.dispatch s.callCount tool arguments) = result at quiet stored
      generalize E.completeDelegation t.callCount id result = ok at quiet
      refine Handled.after ?_ quiet
      refine .dispatched result
        [.dispatch tool arguments (E.dispatch s.callCount tool arguments).1,
          .completeDelegation id result ok] ?_ log.2 fresh rfl rfl ⟨stored.holds, stored.distinct⟩
      rw [LeLiveSession.call, log.1, List.append_assoc]
      rfl

theorem pump_event (E : LeLiveEnvironment) (active : s.state ≠ .idle) {timeoutMs : Int}
    {event : LeLiveEvent} (poll : E.poll s.callCount timeoutMs = .event event) (nowMs : Nat) :
    (leLiveSessionPump E s timeoutMs nowMs).2 =
      let t := handleEvent E (s.call .poll) event nowMs
      if leLiveSessionActive t = false then t else (pumpGuards E t nowMs).2 := by
  have awake : ¬leLiveSessionActive s = false := by simpa using active_iff.mpr active
  rw [leLiveSessionPump, if_neg awake]
  simp only [poll]
  exact apply_ite Prod.snd _ _ _

theorem pump_handled (E : LeLiveEnvironment) (h : Remembers s dispatches)
    (active : s.state ≠ .idle) {timeoutMs : Int} {id tool arguments : CText}
    (poll : E.poll s.callCount timeoutMs = .event (.delegation id tool arguments))
    (named : id ≠ []) (fits : id.length < leLiveDelegationIdMax) (nowMs : Nat) :
    Handled s (leLiveSessionPump E s timeoutMs nowMs).2 dispatches id := by
  have waiting : LeLiveState.waitingForTool ≠ .idle := by decide
  have moved : Moves s (setState (s.call .poll) .waitingForTool) :=
    Moves.setState (Moves.refl.call active rfl rfl) active waiting
  have here : (setState (s.call .poll) .waitingForTool).state ≠ .idle := by
    rw [setState_state]
    exact waiting
  have handled := handleDelegation_handled E (h.quiet moved.quiet) here named fits tool arguments
  have whole := Handled.before moved.quiet handled
  rw [pump_event E active poll nowMs]
  simp only
  split
  · exact whole
  · exact whole.after (pumpGuards_moves E nowMs).quiet

theorem pump_quiet (E : LeLiveEnvironment) {timeoutMs : Int} {nowMs : Nat}
    (none : delegationOf E s (.pump timeoutMs nowMs) = none) :
    Quiet s (leLiveSessionPump E s timeoutMs nowMs).2 := by
  rw [leLiveSessionPump]
  by_cases idle : leLiveSessionActive s = false
  · rw [if_pos idle]
    exact .refl s
  rw [if_neg idle]
  rw [delegationOf, if_neg idle] at none
  have active : s.state ≠ .idle := active_iff.mp (by simpa using idle)
  have polled : Moves s (s.call .poll) := Moves.refl.call active rfl rfl
  simp only
  cases answer : E.poll s.callCount timeoutMs with
  | failed =>
      refine Moves.quiet (Moves.close .transportError ?_)
      exact polled.same rfl
  | timeout => exact (polled.trans (pumpGuards_moves E nowMs)).quiet
  | event event =>
      have plain : event.plain = true := by
        cases event with
        | delegation id _ _ =>
            rw [answer] at none
            exact absurd none (by simp)
        | _ => rfl
      have handled : Moves s (handleEvent E (s.call .poll) event nowMs) :=
        polled.trans (handleEvent_moves E (s := s.call .poll) active plain nowMs)
      simp only
      split
      · exact handled.quiet
      · exact (handled.trans (pumpGuards_moves E nowMs)).quiet

theorem wake_cases (E : LeLiveEnvironment) (s : LeLiveSession) (detectionSample nowMs : Nat) :
    Quiet s (leLiveSessionWake E s detectionSample nowMs).2 ∨
      ((leLiveSessionWake E s detectionSample nowMs).2.sessionsStarted = s.sessionsStarted + 1 ∧
        (leLiveSessionWake E s detectionSample nowMs).2.delegationCache = (fun _ => none) ∧
        dispatchCount (newCalls s (leLiveSessionWake E s detectionSample nowMs).2) = 0) := by
  rw [leLiveSessionWake]
  split
  · exact .inl (.refl s)
  split
  · exact .inl (.refl s)
  split
  · exact .inl (Quiet.same rfl)
  refine .inr ?_
  have connecting := Quiet.setState (openSession s detectionSample nowMs) .connecting
  generalize setState (openSession s detectionSample nowMs) .connecting = t at connecting
  have started : Quiet t (startTransport E t).2 := by
    rw [startTransport]
    cases E.start t.callCount t.config.transportConfig with
    | ok _ => exact .call t rfl
    | error detail =>
        have failed := Quiet.call t (c := .transportStart false) rfl
        refine failed.trans ?_
        generalize t.call (.transportStart false) = u
        have marked : Quiet u { u with
            lastError := if copyText leLiveTextMax detail = [] then "transport unavailable".toList
              else copyText leLiveTextMax detail
            sessionsFailed := u.sessionsFailed + 1 } :=
          ⟨(Quiet.refl u).calls, rfl, rfl, rfl, rfl, rfl⟩
        have closing := marked.trans (Quiet.setState _ .closing)
        refine (closing.trans ?_).trans (Quiet.setState _ .idle)
        exact ⟨(Quiet.refl _).calls, rfl, rfl, rfl, rfl, rfl⟩
  have whole := connecting.trans started
  refine ⟨whole.started, whole.cache, ?_⟩
  obtain ⟨more, calls, plain⟩ := whole.calls
  rw [newCalls_of_append (s := s) calls]
  exact (plain_calls plain).1

/-! ### A whole conversation -/

def Conversation.Sound (r : Conversation) : Prop :=
  Remembers r.session r.dispatches

theorem Conversation.start_sound (ring : LeLiveRing) (config : LeLiveSessionConfig) :
    (Conversation.start ring config).Sound := by
  refine ⟨?_, List.nodup_nil⟩
  have empty : cachedEntries (Conversation.start ring config).session = fun _ => none := rfl
  rw [empty]
  exact holds_nil _

theorem Conversation.step_quiet {E : LeLiveEnvironment} {r : Conversation} {op : SessionOp}
    (sound : r.Sound) (quiet : Quiet r.session (sessionStep E r.session op)) :
    (r.step E op).Sound := by
  have same : (r.step E op).dispatches = r.dispatches := by
    rw [Conversation.step]
    simp only
    rw [if_neg (not_not_intro quiet.started), if_pos quiet.newCalls.1]
  rw [Conversation.Sound, same]
  exact sound.quiet quiet

theorem Conversation.step_handled {E : LeLiveEnvironment} {r : Conversation} {op : SessionOp}
    {id : CText} (handled : Handled r.session (sessionStep E r.session op) r.dispatches id) :
    (r.step E op).Sound := by
  rw [Conversation.Sound, Conversation.step]
  cases handled with
  | replayed result more calls started member count answered counted failures kept =>
      rw [newCalls_of_append calls]
      simp only [started, count, ne_eq, not_true, if_false, if_true]
      exact kept
  | dispatched result more calls started fresh count answered kept =>
      rw [newCalls_of_append calls]
      simp only [started, count, answered, ne_eq, not_true, if_false, Nat.one_ne_zero]
      exact kept

theorem Conversation.step_wake (E : LeLiveEnvironment) {r : Conversation} (sound : r.Sound)
    (detectionSample nowMs : Nat) : (r.step E (.wake detectionSample nowMs)).Sound := by
  cases wake_cases E r.session detectionSample nowMs with
  | inl quiet => exact Conversation.step_quiet sound quiet
  | inr opened =>
      obtain ⟨started, cache, -⟩ := opened
      have moved : (sessionStep E r.session (.wake detectionSample nowMs)).sessionsStarted ≠
          r.session.sessionsStarted := started.trans_ne (Nat.succ_ne_self _)
      have forgotten : (r.step E (.wake detectionSample nowMs)).dispatches = [] := if_pos moved
      rw [Conversation.Sound, forgotten]
      refine ⟨?_, List.nodup_nil⟩
      have empty : cachedEntries (r.step E (.wake detectionSample nowMs)).session =
          fun _ => none := by
        funext i
        show ((leLiveSessionWake E r.session detectionSample nowMs).2.delegationCache i).map _ =
          none
        rw [cache]
        rfl
      rw [empty]
      exact holds_nil _

theorem pump_delegation {E : LeLiveEnvironment} (named : NamesDelegations E) {timeoutMs : Int}
    {nowMs : Nat} {id : CText} (h : Remembers s dispatches)
    (event : delegationOf E s (.pump timeoutMs nowMs) = some id) :
    Handled s (leLiveSessionPump E s timeoutMs nowMs).2 dispatches id := by
  rw [delegationOf] at event
  split at event
  · exact absurd event (by simp)
  · rename_i awake
    split at event
    · rename_i polled tool arguments answer
      obtain ⟨nonempty, fits⟩ := named _ _ _ _ _ answer
      cases Option.some.inj event
      exact pump_handled E h (active_iff.mp (by simpa using awake)) answer nonempty fits nowMs
    · exact absurd event (by simp)

theorem Conversation.step_sound {E : LeLiveEnvironment} (named : NamesDelegations E)
    (r : Conversation) (op : SessionOp) (sound : r.Sound) : (r.step E op).Sound := by
  cases op with
  | wake detectionSample nowMs => exact Conversation.step_wake E sound detectionSample nowMs
  | feed firstSample samples nowMs =>
      exact Conversation.step_quiet sound (leLiveSessionFeed_moves E firstSample samples nowMs).quiet
  | close reason => exact Conversation.step_quiet sound (.close _ reason)
  | pump timeoutMs nowMs =>
      cases event : delegationOf E r.session (.pump timeoutMs nowMs) with
      | none => exact Conversation.step_quiet sound (pump_quiet E event)
      | some id => exact Conversation.step_handled (pump_delegation named sound event)

theorem Conversation.Sound.exact {E : LeLiveEnvironment} (named : NamesDelegations E)
    (r : Conversation) (op : SessionOp) (sound : r.Sound) : DelegationExact E r op := by
  rw [DelegationExact]
  cases op with
  | wake detectionSample nowMs =>
      show dispatchCount _ = 0
      cases wake_cases E r.session detectionSample nowMs with
      | inl quiet => exact quiet.newCalls.1
      | inr opened => exact opened.2.2
  | feed firstSample samples nowMs =>
      exact (leLiveSessionFeed_moves E firstSample samples nowMs).quiet.newCalls.1
  | close reason => exact (Quiet.close r.session reason).newCalls.1
  | pump timeoutMs nowMs =>
      cases event : delegationOf E r.session (.pump timeoutMs nowMs) with
      | none => exact (pump_quiet E event).newCalls.1
      | some id =>
          have handled := pump_delegation named sound event
          cases handled with
          | replayed result more calls _ member count answered counted failures _ =>
              simp only [sessionStep]
              rw [newCalls_of_append calls]
              refine ⟨?_, fun other recorded => ?_⟩
              · exact count.trans (if_pos (List.mem_map.mpr ⟨_, member, rfl⟩)).symm
              · rw [remembered_unique sound recorded member]
                exact ⟨answered, counted, failures⟩
          | dispatched result more calls _ fresh count answered _ =>
              simp only [sessionStep]
              rw [newCalls_of_append calls]
              refine ⟨?_, fun other recorded => ?_⟩
              · exact count.trans (if_neg fresh).symm
              · exact absurd (List.mem_map.mpr ⟨_, recorded, rfl⟩) fresh

theorem delegations_onceWhileRemembered (E : LeLiveEnvironment) (named : NamesDelegations E)
    (ring : LeLiveRing) (config : LeLiveSessionConfig) (ops : List SessionOp) :
    Runs.Admits (Conversation.step E) (DelegationExact E) (Conversation.start ring config) ops ∧
      CacheDistinct (Runs.run (Conversation.step E) (Conversation.start ring config) ops).session := by
  have start := Conversation.start_sound ring config
  refine ⟨?_, ?_⟩
  · exact Runs.admits_of_invariant _ (Conversation.step_sound named)
      (Conversation.Sound.exact named) start ops
  · exact (Runs.run_invariant_always _ (Conversation.step_sound named) start ops).cacheDistinct

def repeatingTransport : LeLiveEnvironment where
  start _ _ := .ok ()
  sendAudio _ _ := true
  poll _ _ := .event (.delegation "d1".toList "timer".toList "{}".toList)
  completeDelegation _ _ _ := true
  outputAudio _ _ _ := true
  dispatch _ _ _ := (true, "{}".toList)

/-- One delegation delivered twice: dispatched once, answered twice. -/
theorem delegations_onceWhileRemembered_repeated :
    let ops : List SessionOp := [.feed 0 [0] 0, .wake 1 10, .pump 0 20, .pump 0 30]
    let r := Runs.run (Conversation.step repeatingTransport)
      (Conversation.start leLiveRingZero daemonConfig) ops
    CacheDistinct r.session ∧ dispatchCount r.session.calls = 1 ∧
      answers r.session.calls = [("d1".toList, "{}".toList), ("d1".toList, "{}".toList)] := by
  have named : NamesDelegations repeatingTransport := by
    intro n timeoutMs id tool arguments polled
    have ids : "d1".toList = id := by
      injection polled with event
      injection event
    rw [← ids]
    decide
  have once := delegations_onceWhileRemembered repeatingTransport named leLiveRingZero daemonConfig
    [.feed 0 [0] 0, .wake 1 10, .pump 0 20, .pump 0 30]
  exact ⟨once.2, by decide +kernel, by decide +kernel⟩

end LibreEcho.Live
