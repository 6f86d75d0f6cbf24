import Mathlib
import LibreEcho.Lib.Runs
import LibreEcho.Live.Session

/-!
The plain moves of a live session.

Everything the session does outside a wake and a delegation is built from calls
that fit an open transport, changes of state and closing. What those three keep,
every operation keeps.
-/
namespace LibreEcho.Live

inductive SessionOp where
  | wake (detectionSample nowMs : Nat)
  | feed (firstSample : Nat) (samples : List Int16) (nowMs : Nat)
  | pump (timeoutMs : Int) (nowMs : Nat)
  | close (reason : LeLiveEndReason)

def sessionStep (E : LeLiveEnvironment) (s : LeLiveSession) : SessionOp → LeLiveSession
  | .wake detectionSample nowMs => (leLiveSessionWake E s detectionSample nowMs).2
  | .feed firstSample samples nowMs => (leLiveSessionFeed E s firstSample samples nowMs).2
  | .pump timeoutMs nowMs => (leLiveSessionPump E s timeoutMs nowMs).2
  | .close reason => leLiveSessionClose s reason

abbrev sessionRun (E : LeLiveEnvironment) : LeLiveSession → List SessionOp → LeLiveSession :=
  Runs.run (sessionStep E)

/-- Calls that change neither the transport nor the announced state. -/
def LeLiveCall.within : LeLiveCall → Bool
  | .transportStart _ | .transportStop | .stateChanged _ => false
  | _ => true

def LeLiveCall.delegates : LeLiveCall → Bool
  | .dispatch _ _ _ | .completeDelegation _ _ _ => true
  | _ => false

/-- The log, the state, the session counters and the delegation records. -/
structure Books where
  calls : List LeLiveCall
  state : LeLiveState
  started : Nat
  completed : Nat
  failed : Nat
  cache : Fin leLiveDelegationCache → Option LeLiveDelegationRecord
  next : Fin leLiveDelegationCache
  delegations : Nat
  delegationFailures : Nat

abbrev LeLiveSession.books (s : LeLiveSession) : Books where
  calls := s.calls
  state := s.state
  started := s.sessionsStarted
  completed := s.sessionsCompleted
  failed := s.sessionsFailed
  cache := s.delegationCache
  next := s.delegationNext
  delegations := s.delegationCount
  delegationFailures := s.delegationFailures

/-- What a session becomes without a wake and without a delegation. -/
inductive Moves (s : LeLiveSession) : LeLiveSession → Prop where
  | refl : Moves s s
  | same {t u : LeLiveSession} : Moves s t → u.books = t.books → Moves s u
  | call {t : LeLiveSession} {c : LeLiveCall} : Moves s t → t.state ≠ .idle →
      c.within = true → c.delegates = false → Moves s (t.call c)
  | setState {t : LeLiveSession} {state : LeLiveState} : Moves s t → t.state ≠ .idle →
      state ≠ .idle → Moves s (setState t state)
  | close {t : LeLiveSession} (reason : LeLiveEndReason) : Moves s t →
      Moves s (leLiveSessionClose t reason)

theorem Moves.trans {s t u : LeLiveSession} (first : Moves s t) (second : Moves t u) :
    Moves s u := by
  induction second with
  | refl => exact first
  | same _ same ih => exact ih.same same
  | call _ active within plain ih => exact ih.call active within plain
  | setState _ active other ih => exact ih.setState active other
  | close reason _ ih => exact ih.close reason

theorem active_iff {s : LeLiveSession} : leLiveSessionActive s = true ↔ s.state ≠ .idle := by
  simp [leLiveSessionActive]

theorem state_of_books {s t : LeLiveSession} (same : t.books = s.books) : t.state = s.state :=
  congrArg Books.state same

section Operations
variable (E : LeLiveEnvironment) {s : LeLiveSession}

theorem flushLoop_moves (stop rounds : Nat) (active : s.state ≠ .idle) :
    Moves s (flushLoop E stop rounds s).2 := by
  induction rounds generalizing s with
  | zero => exact .refl
  | succ rounds ih =>
      rw [flushLoop]
      split
      · simp only
        generalize leLiveRingRead s.ring s.nextSendSample leLiveAudioSamples = chunk
        split
        · exact .refl
        · have called : Moves s (s.call (.sendAudio chunk (E.sendAudio s.callCount chunk))) :=
            Moves.refl.call active rfl rfl
          split
          · refine Moves.trans ?_ (ih ?_)
            · exact called.same rfl
            · exact active
          · exact called
      · exact .refl

theorem flushPending_moves : Moves s (flushPending E s).2 := by
  rw [flushPending]
  split
  · exact .refl
  · next active =>
      split
      · exact .refl
      · exact flushLoop_moves E _ _ active

theorem closeUnlessFlushed_moves {flushed : Bool × LeLiveSession} (moved : Moves s flushed.2) :
    Moves s (closeUnlessFlushed flushed).2 := by
  rw [closeUnlessFlushed]
  split
  · exact moved
  · refine Moves.close .transportError ?_
    exact moved.same rfl

theorem bargeIn_moves (active : s.state ≠ .idle) (nowMs : Nat) : Moves s (bargeIn s nowMs) := by
  have listening : LeLiveState.listening ≠ .idle := by decide
  have counted : Moves s { s with bargeInRun := 0, bargeIns := s.bargeIns + 1 } :=
    Moves.refl.same rfl
  have interrupted := counted.call (c := .interrupt) active rfl rfl
  have cancelled := interrupted.call (c := .cancelOutput) active rfl rfl
  rw [bargeIn]
  refine Moves.setState ?_ ?_ listening
  · exact cancelled.same rfl
  · exact active

theorem checkBargeIn_moves (samples : List Int16) (nowMs : Nat) :
    Moves s (checkBargeIn s samples nowMs) := by
  rw [checkBargeIn]
  split
  · exact Moves.refl.same rfl
  · next speaking =>
      have active : s.state ≠ .idle := by
        rw [Decidable.not_not.mp speaking]
        decide
      have raised : (raiseSpeechPeak s (frameRms samples)).books = s.books := by
        rw [raiseSpeechPeak]
        split <;> rfl
      have moved : Moves s (raiseSpeechPeak s (frameRms samples)) := Moves.refl.same raised
      have still : (raiseSpeechPeak s (frameRms samples)).state ≠ .idle := by
        rw [state_of_books raised]
        exact active
      simp only
      split
      · exact moved.same rfl
      · split
        · exact moved.same rfl
        · exact moved.trans (bargeIn_moves still nowMs)

theorem observeInput_books (s : LeLiveSession) (samples : List Int16) :
    (observeInput s samples).books = s.books := by
  simp only [observeInput]
  repeat' split
  all_goals rfl

theorem observeFrame_moves (samples : List Int16) (nowMs : Nat) :
    Moves s (observeFrame s samples nowMs) := by
  have checked : Moves s (if leLiveSessionActive s then checkBargeIn s samples nowMs else s) := by
    split
    · exact checkBargeIn_moves samples nowMs
    · exact .refl
  rw [observeFrame]
  generalize (if leLiveSessionActive s then checkBargeIn s samples nowMs else s) = t at checked
  split
  · exact checked.same (observeInput_books t samples)
  · split
    · exact checked.same rfl
    · exact checked

theorem leLiveSessionFeed_moves (firstSample : Nat) (samples : List Int16) (nowMs : Nat) :
    Moves s (leLiveSessionFeed E s firstSample samples nowMs).2 := by
  rw [leLiveSessionFeed]
  split
  · exact .refl
  · split
    · exact .refl
    · next ring _ =>
        have stored : Moves s { s with ring := ring } := Moves.refl.same rfl
        have observed := stored.trans (observeFrame_moves samples nowMs)
        simp only
        split
        · exact observed
        · exact closeUnlessFlushed_moves (observed.trans (flushPending_moves E))

theorem playAudio_moves (active : s.state ≠ .idle) (rate : Nat) (samples : List Int16)
    (nowMs : Nat) : Moves s (playAudio s rate samples nowMs) := by
  have speaking : LeLiveState.speaking ≠ .idle := by decide
  have marked : (markFirstAudio s nowMs).books = s.books := by
    rw [markFirstAudio]
    split <;> rfl
  have moved : Moves s (markFirstAudio s nowMs) := Moves.refl.same marked
  have still : (markFirstAudio s nowMs).state ≠ .idle := by
    rw [state_of_books marked]
    exact active
  rw [playAudio]
  refine Moves.setState ?_ ?_ speaking
  · exact moved.same rfl
  · exact still

theorem transcriptAppend_turns (s : LeLiveSession) (speaker : LeLiveSpeaker) (final : Bool)
    (text : CText) :
    ∃ turns, transcriptAppend s speaker final text = { s with turns := turns } := by
  unfold transcriptAppend
  cases s.turns.getLast? with
  | none => exact ⟨_, rfl⟩
  | some last =>
      simp only
      split
      · exact ⟨_, rfl⟩
      · exact ⟨_, rfl⟩

theorem transcriptAppend_books (s : LeLiveSession) (speaker : LeLiveSpeaker) (final : Bool)
    (text : CText) : (transcriptAppend s speaker final text).books = s.books := by
  obtain ⟨turns, same⟩ := transcriptAppend_turns s speaker final text
  rw [same]

def LeLiveEvent.plain : LeLiveEvent → Bool
  | .delegation _ _ _ => false
  | _ => true

theorem handleEvent_moves (active : s.state ≠ .idle) {event : LeLiveEvent}
    (plain : event.plain = true) (nowMs : Nat) : Moves s (handleEvent E s event nowMs) := by
  have listening : LeLiveState.listening ≠ .idle := by decide
  cases event with
  | delegation _ _ _ => exact absurd plain Bool.false_ne_true
  | none => exact .refl
  | inputStarted => exact Moves.refl.same rfl
  | opened =>
      refine Moves.setState ?_ ?_ listening
      · exact Moves.refl.same rfl
      · exact active
  | outputDone =>
      refine Moves.setState ?_ ?_ listening
      · exact Moves.refl.same rfl
      · exact active
  | transcript speaker final text =>
      have appended : Moves s (transcriptAppend s speaker final text) :=
        Moves.refl.same (transcriptAppend_books s speaker final text)
      simp only [handleEvent]
      generalize transcriptAppend s speaker final text = t at appended
      cases final with
      | false => exact appended
      | true =>
          cases speaker with
          | model | user => exact appended.same rfl
  | audio rate samples =>
      have played : Moves s (s.call (.outputAudio (E.outputAudio s.callCount samples rate))) :=
        Moves.refl.call active rfl rfl
      rw [handleEvent]
      cases ok : E.outputAudio s.callCount samples rate with
      | false =>
          rw [ok] at played
          simp only [if_true]
          refine Moves.close .audioFailed ?_
          exact played.same rfl
      | true =>
          rw [ok] at played
          rw [if_neg (by simp)]
          refine played.trans (playAudio_moves ?_ rate samples nowMs)
          exact active
  | closed => exact Moves.refl.close .transportClosed
  | error detail =>
      refine Moves.close .transportError ?_
      exact Moves.refl.same rfl

theorem pumpGuards_moves (nowMs : Nat) : Moves s (pumpGuards E s nowMs).2 := by
  rw [pumpGuards]
  split
  · split
    · refine Moves.close .connectFailed ?_
      exact Moves.refl.same rfl
    · exact .refl
  · split
    · exact Moves.refl.close .maxDuration
    · split
      · exact Moves.refl.close .timeout
      · exact closeUnlessFlushed_moves (flushPending_moves E)

/-! ### Delegations -/

theorem completeDelegation_moves (id result : CText) :
    Moves (s.call (.completeDelegation id result (E.completeDelegation s.callCount id result)))
        (completeDelegation E s id result).2 ∧
      ((completeDelegation E s id result).1 = true →
        (completeDelegation E s id result).2.state = s.state) := by
  cases ok : E.completeDelegation s.callCount id result with
  | true =>
      simp only [completeDelegation, ok, if_true]
      exact ⟨.refl, fun _ => rfl⟩
  | false =>
      simp only [completeDelegation, ok, Bool.false_eq_true, if_false]
      refine ⟨Moves.close .transportError ?_, nofun⟩
      split <;> exact Moves.refl.same rfl

def dispatchResult (answer : Bool × CText) : CText :=
  if answer.1 = false ∧ copyText leLiveArgumentMax answer.2 = [] then "unsupported".toList
  else copyText leLiveArgumentMax answer.2

/-- The session after a dispatch was made and its record stored. -/
def dispatched (s : LeLiveSession) (id tool arguments : CText) (answer : Bool × CText) :
    LeLiveSession :=
  let s := { s with delegationCount := s.delegationCount + 1 }
  let s := s.call (.dispatch tool arguments answer.1)
  let s := if answer.1 then s else { s with delegationFailures := s.delegationFailures + 1 }
  delegationStore s id tool answer.1 (dispatchResult answer)

theorem dispatched_state (s : LeLiveSession) (id tool arguments : CText)
    (answer : Bool × CText) : (dispatched s id tool arguments answer).state = s.state := by
  cases ok : answer.1 with
  | true | false => simp [dispatched, delegationStore, LeLiveSession.call, ok]

theorem handleDelegation_replay {delegationId : CText} {replay : LeLiveDelegationRecord}
    (found : delegationLookup s delegationId = some replay) (tool arguments : CText) :
    Moves (s.call (.completeDelegation replay.id replay.result
        (E.completeDelegation s.callCount replay.id replay.result)))
      (handleDelegation E s delegationId tool arguments) := by
  rw [handleDelegation, found]
  refine Moves.trans ?_ (completeDelegation_moves E replay.id replay.result).1
  exact Moves.refl.same rfl

theorem handleDelegation_fresh (active : s.state ≠ .idle) {delegationId : CText}
    (fresh : delegationLookup s delegationId = none) (tool arguments : CText) :
    let answer := E.dispatch s.callCount tool arguments
    let t := dispatched s delegationId tool arguments answer
    Moves (t.call (.completeDelegation delegationId (dispatchResult answer)
        (E.completeDelegation t.callCount delegationId (dispatchResult answer))))
      (handleDelegation E s delegationId tool arguments) := by
  intro answer t
  have speaking : LeLiveState.speaking ≠ .idle := by decide
  obtain ⟨moved, same⟩ := completeDelegation_moves E (s := t) delegationId (dispatchResult answer)
  have activeAfter : t.state ≠ .idle := by
    rw [dispatched_state]
    exact active
  have run : handleDelegation E s delegationId tool arguments =
      let done := completeDelegation E t delegationId (dispatchResult answer)
      if done.1 = false then done.2
      else if endSessionMark <:+: dispatchResult answer then leLiveSessionClose done.2 .stopped
      else setState done.2 .speaking := by
    rw [handleDelegation, fresh]
    rfl
  rw [run]
  simp only
  cases delivered : (completeDelegation E t delegationId (dispatchResult answer)).1 with
  | false =>
      rw [if_pos rfl]
      exact moved
  | true =>
      rw [if_neg (by simp)]
      split
      · exact moved.close .stopped
      · refine moved.setState ?_ speaking
        rw [same delivered]
        exact activeAfter

end Operations

end LibreEcho.Live

/-!
Accounting and transport bracketing of a live session.

A reader of the call log knows whether a transport is open and which state was
announced last. It accepts a log when every transport call stands between a
start and its stop; every operation of the session extends an accepted log.
-/
namespace LibreEcho.Live

structure Bracket where
  /-- Started and not stopped. -/
  opened : Bool
  /-- The state announced last. -/
  state : LeLiveState
  /-- The latest call cancelled the output. -/
  cancelled : Bool
deriving DecidableEq

def Bracket.shut : Bracket := ⟨false, .idle, false⟩

def Bracket.admits (b : Bracket) : LeLiveCall → Bool
  | .transportStart _ => b.opened = false ∧ b.state = .connecting
  | .transportStop => b.opened ∧ b.cancelled ∧ b.state ≠ .idle
  | .sendAudio _ _ | .poll | .interrupt | .completeDelegation _ _ _ => b.opened ∧ b.state ≠ .idle
  | .stateChanged state => ¬(state = .idle ∧ b.opened)
  | .cancelOutput | .outputAudio _ | .dispatch _ _ _ => true

def Bracket.after (b : Bracket) : LeLiveCall → Bracket
  | .transportStart ok => ⟨ok, b.state, false⟩
  | .transportStop => ⟨false, b.state, false⟩
  | .stateChanged state => ⟨b.opened, state, false⟩
  | .cancelOutput => ⟨b.opened, b.state, true⟩
  | _ => ⟨b.opened, b.state, false⟩

def Bracket.read (b : Bracket) (c : LeLiveCall) : Option Bracket :=
  if b.admits c then some (b.after c) else none

theorem Bracket.of_read {b next : Bracket} {c : LeLiveCall} (read : b.read c = some next) :
    b.admits c = true ∧ next = b.after c := by
  rw [Bracket.read] at read
  split at read
  · next admits => exact ⟨admits, (Option.some.inj read).symm⟩
  · exact absurd read (by simp)

def Bracket.readAll (b : Bracket) (calls : List LeLiveCall) : Option Bracket :=
  calls.foldlM Bracket.read b

theorem Bracket.readAll_append (b : Bracket) (front back : List LeLiveCall) :
    b.readAll (front ++ back) = (b.readAll front).bind fun c => c.readAll back :=
  List.foldlM_append

structure Balanced (s : LeLiveSession) : Prop where
  log : ∃ cancelled, Bracket.shut.readAll s.calls =
    some ⟨leLiveSessionActive s, s.state, cancelled⟩
  account : s.sessionsStarted =
    s.sessionsCompleted + s.sessionsFailed + (if leLiveSessionActive s then 1 else 0)

theorem Balanced.same {s t : LeLiveSession} (h : Balanced s) (same : t.books = s.books) :
    Balanced t := by
  have calls : t.calls = s.calls := congrArg Books.calls same
  have state : t.state = s.state := state_of_books same
  have started : t.sessionsStarted = s.sessionsStarted := congrArg Books.started same
  have completed : t.sessionsCompleted = s.sessionsCompleted := congrArg Books.completed same
  have failed : t.sessionsFailed = s.sessionsFailed := congrArg Books.failed same
  have active : leLiveSessionActive t = leLiveSessionActive s := by
    rw [leLiveSessionActive, leLiveSessionActive, state]
  refine ⟨?_, ?_⟩
  · rw [calls, state, active]
    exact h.log
  · rw [started, completed, failed, active]
    exact h.account

theorem Bracket.read_within {state : LeLiveState} (active : state ≠ .idle) (cancelled : Bool)
    {c : LeLiveCall} (within : c.within = true) :
    ∃ after, Bracket.read ⟨true, state, cancelled⟩ c = some ⟨true, state, after⟩ := by
  cases c with
  | transportStart _ | transportStop | stateChanged _ => exact absurd within Bool.false_ne_true
  | cancelOutput => exact ⟨true, rfl⟩
  | outputAudio _ | dispatch _ _ _ => exact ⟨false, rfl⟩
  | sendAudio _ _ | poll | interrupt | completeDelegation _ _ _ =>
      exact ⟨false, by simp [Bracket.read, Bracket.admits, Bracket.after, active]⟩

theorem readAll_call {calls : List LeLiveCall} {b : Bracket}
    (read : Bracket.shut.readAll calls = some b) (c : LeLiveCall) :
    Bracket.shut.readAll (calls ++ [c]) = b.read c := by
  rw [Bracket.readAll_append, read]
  simp [Bracket.readAll]

section Steps
variable {s : LeLiveSession}

theorem Balanced.call (h : Balanced s) (active : s.state ≠ .idle) {c : LeLiveCall}
    (within : c.within = true) : Balanced (s.call c) := by
  obtain ⟨cancelled, log⟩ := h.log
  rw [active_iff.mpr active] at log
  obtain ⟨after, read⟩ := Bracket.read_within active cancelled within
  refine ⟨⟨after, ?_⟩, h.account⟩
  show Bracket.shut.readAll (s.calls ++ [c]) = some ⟨leLiveSessionActive s, s.state, after⟩
  rw [readAll_call log, read, active_iff.mpr active]

theorem Balanced.setState (h : Balanced s) (active : s.state ≠ .idle) {state : LeLiveState}
    (other : state ≠ .idle) : Balanced (setState s state) := by
  by_cases same : s.state = state
  · rw [Live.setState, if_pos same]
    exact h
  · obtain ⟨cancelled, log⟩ := h.log
    have account := h.account
    rw [active_iff.mpr active] at log account
    rw [Live.setState, if_neg same]
    have still : leLiveSessionActive
        (({ s with state := state } : LeLiveSession).call (.stateChanged state)) = true :=
      active_iff.mpr other
    refine ⟨⟨false, ?_⟩, by rw [still]; exact account⟩
    rw [still]
    refine (readAll_call log (.stateChanged state)).trans ?_
    rw [Bracket.read, if_pos (by simp [Bracket.admits, other])]
    rfl

theorem Balanced.close (h : Balanced s) (reason : LeLiveEndReason) :
    Balanced (leLiveSessionClose s reason) := by
  by_cases idle : s.state = .idle
  · rw [leLiveSessionClose, if_pos idle]
    exact h
  rw [leLiveSessionClose, if_neg idle]
  have closing : LeLiveState.closing ≠ .idle := by decide
  have kept := h.setState idle closing
  have state : (Live.setState s .closing).state = .closing := setState_state s .closing
  generalize Live.setState s .closing = t at kept state
  have active : t.state ≠ .idle := state ▸ closing
  obtain ⟨cancelled, log⟩ := kept.log
  have account := kept.account
  rw [active_iff.mpr active] at log account
  rw [state] at log
  have log := readAll_call log .cancelOutput
  have log := readAll_call log .transportStop
  have log := readAll_call log (.stateChanged .idle)
  cases completes : reason.completes with
  | true =>
      simp only [if_true, Live.setState, LeLiveSession.call, state, if_neg closing]
      refine ⟨⟨false, log⟩, ?_⟩
      simp only [leLiveSessionActive]
      simp only [if_true] at account
      show t.sessionsStarted = t.sessionsCompleted + 1 + t.sessionsFailed + 0
      omega
  | false =>
      simp only [Bool.false_eq_true, if_false, Live.setState, LeLiveSession.call, state,
        if_neg closing]
      refine ⟨⟨false, log⟩, ?_⟩
      simp only [leLiveSessionActive]
      simp only [if_true] at account
      show t.sessionsStarted = t.sessionsCompleted + (t.sessionsFailed + 1) + 0
      omega

theorem Moves.balanced {t : LeLiveSession} (moves : Moves s t) (h : Balanced s) : Balanced t := by
  induction moves with
  | refl => exact h
  | same _ same ih => exact ih.same same
  | call _ active within _ ih => exact ih.call active within
  | setState _ active other ih => exact ih.setState active other
  | close reason _ ih => exact ih.close reason

theorem dispatched_balanced (h : Balanced s) (active : s.state ≠ .idle) (id tool arguments : CText)
    (answer : Bool × CText) : Balanced (dispatched s id tool arguments answer) := by
  obtain ⟨cancelled, log⟩ := (h.call active (c := .dispatch tool arguments answer.1) rfl).log
  cases ok : answer.1 with
  | true | false =>
      simp only [ok] at log
      simp only [dispatched, delegationStore, ok]
      exact ⟨⟨cancelled, log⟩, h.account⟩

theorem handleDelegation_balanced (E : LeLiveEnvironment) (h : Balanced s)
    (active : s.state ≠ .idle) (delegationId tool arguments : CText) :
    Balanced (handleDelegation E s delegationId tool arguments) := by
  cases found : delegationLookup s delegationId with
  | some replay => exact (handleDelegation_replay E found tool arguments).balanced (h.call active rfl)
  | none =>
      refine (handleDelegation_fresh E active found tool arguments).balanced ?_
      refine (dispatched_balanced h active delegationId tool arguments _).call ?_ rfl
      rw [dispatched_state]
      exact active

theorem handleEvent_balanced (E : LeLiveEnvironment) (h : Balanced s) (active : s.state ≠ .idle)
    (event : LeLiveEvent) (nowMs : Nat) : Balanced (handleEvent E s event nowMs) := by
  have waiting : LeLiveState.waitingForTool ≠ .idle := by decide
  by_cases plain : event.plain = true
  · exact (handleEvent_moves E active plain nowMs).balanced h
  · cases event with
    | delegation id tool arguments =>
        have moved := h.setState active waiting
        refine handleDelegation_balanced E moved ?_ id tool arguments
        rw [setState_state]
        exact waiting
    | _ => exact absurd rfl plain

theorem leLiveSessionPump_balanced (E : LeLiveEnvironment) (h : Balanced s) (timeoutMs : Int)
    (nowMs : Nat) : Balanced (leLiveSessionPump E s timeoutMs nowMs).2 := by
  rw [leLiveSessionPump]
  by_cases idle : leLiveSessionActive s = false
  · rw [if_pos idle]
    exact h
  have active : s.state ≠ .idle := active_iff.mp (by simpa using idle)
  have polled := h.call active (c := .poll) rfl
  rw [if_neg idle]
  simp only
  cases E.poll s.callCount timeoutMs with
  | failed =>
      refine Balanced.close ?_ .transportError
      exact polled.same rfl
  | timeout => exact (pumpGuards_moves E nowMs).balanced polled
  | event event =>
      have handled := handleEvent_balanced E polled active event nowMs
      simp only
      split
      · exact handled
      · exact (pumpGuards_moves E nowMs).balanced handled

/-! ### The wake -/

theorem startTransport_balanced (E : LeLiveEnvironment) {t : LeLiveSession}
    (log : Bracket.shut.readAll t.calls = some ⟨false, .connecting, false⟩)
    (connecting : t.state = .connecting)
    (account : t.sessionsStarted = t.sessionsCompleted + t.sessionsFailed + 1) :
    Balanced (startTransport E t).2 := by
  have closing : LeLiveState.closing ≠ .idle := by decide
  have other : LeLiveState.connecting ≠ .closing := by decide
  rw [startTransport]
  cases E.start t.callCount t.config.transportConfig with
  | ok _ =>
      have active : leLiveSessionActive (t.call (.transportStart true)) = true :=
        active_iff.mpr (by
          show t.state ≠ .idle
          rw [connecting]
          decide)
      refine ⟨⟨false, ?_⟩, by rw [active]; exact account⟩
      rw [active]
      show Bracket.shut.readAll (t.calls ++ [_]) = some ⟨true, t.state, false⟩
      rw [readAll_call log, connecting]
      rfl
  | error detail =>
      have log := readAll_call log (.transportStart false)
      have log := readAll_call log (.stateChanged .closing)
      have log := readAll_call log (.stateChanged .idle)
      simp only [connectFailed, setState, LeLiveSession.call, connecting, if_neg other,
        if_neg closing]
      refine ⟨⟨false, log⟩, ?_⟩
      simp only [leLiveSessionActive]
      show t.sessionsStarted = t.sessionsCompleted + (t.sessionsFailed + 1) + 0
      omega

theorem leLiveSessionWake_balanced (E : LeLiveEnvironment) (h : Balanced s)
    (detectionSample nowMs : Nat) :
    Balanced (leLiveSessionWake E s detectionSample nowMs).2 := by
  rw [leLiveSessionWake]
  split
  · exact h
  · next idle =>
      split
      · exact h
      · split
        · exact h.same rfl
        · have state : s.state = .idle := by
            simpa [leLiveSessionActive] using idle
          obtain ⟨cancelled, log⟩ := h.log
          have account := h.account
          have inactive : leLiveSessionActive s = false := by simpa using idle
          rw [inactive] at log account
          have log := readAll_call log (.stateChanged .connecting)
          have other : (openSession s detectionSample nowMs).state ≠ .connecting := by
            show s.state ≠ .connecting
            rw [state]
            decide
          simp only [Bool.false_eq_true, if_false] at account
          refine startTransport_balanced E ?_ (setState_state _ _) ?_
          · rw [setState, if_neg other]
            exact log
          · rw [setState, if_neg other]
            show s.sessionsStarted + 1 = s.sessionsCompleted + s.sessionsFailed + 1
            omega

end Steps

theorem sessionStep_balanced (E : LeLiveEnvironment) (s : LeLiveSession) (op : SessionOp)
    (h : Balanced s) : Balanced (sessionStep E s op) := by
  cases op with
  | wake detectionSample nowMs => exact leLiveSessionWake_balanced E h detectionSample nowMs
  | feed firstSample samples nowMs =>
      exact (leLiveSessionFeed_moves E firstSample samples nowMs).balanced h
  | pump timeoutMs nowMs => exact leLiveSessionPump_balanced E h timeoutMs nowMs
  | close reason => exact h.close reason

theorem leLiveSessionInit_balanced (ring : LeLiveRing) (config : LeLiveSessionConfig) :
    Balanced (leLiveSessionInit ring config) :=
  ⟨⟨false, rfl⟩, rfl⟩

/-! ### What an accepted log looks like -/

def LeLiveCall.isStart : LeLiveCall → Bool
  | .transportStart _ => true
  | _ => false

def LeLiveCall.isStop : LeLiveCall → Bool
  | .transportStop => true
  | _ => false

def LeLiveCall.isTransport : LeLiveCall → Bool
  | .transportStart _ | .transportStop | .sendAudio _ _ | .poll | .interrupt
  | .completeDelegation _ _ _ => true
  | _ => false

theorem readAll_split {b after : Bracket} {front back : List LeLiveCall} {c : LeLiveCall}
    (read : b.readAll (front ++ c :: back) = some after) :
    ∃ before next, b.readAll front = some before ∧ before.read c = some next ∧
      next.readAll back = some after := by
  rw [Bracket.readAll_append] at read
  obtain ⟨before, first, rest⟩ := Option.bind_eq_some_iff.mp read
  rw [Bracket.readAll, List.foldlM_cons] at rest
  obtain ⟨next, here, last⟩ := Option.bind_eq_some_iff.mp rest
  exact ⟨before, next, first, here, last⟩

theorem after_opened {b : Bracket} {c : LeLiveCall} (admits : b.admits c = true)
    (other : c.isStart = false) :
    b.opened.toNat = (b.after c).opened.toNat + c.isStop.toNat := by
  cases c with
  | transportStart _ => exact absurd other (by simp [LeLiveCall.isStart])
  | transportStop =>
      have opened : b.opened = true := (of_decide_eq_true admits).1
      rw [opened]
      rfl
  | _ => rfl

theorem readAll_stops {b after : Bracket} {calls : List LeLiveCall}
    (read : b.readAll calls = some after) (others : ∀ c ∈ calls, c.isStart = false) :
    b.opened.toNat = after.opened.toNat + calls.countP LeLiveCall.isStop := by
  induction calls generalizing b with
  | nil =>
      rw [← Option.some.inj read]
      rfl
  | cons c rest ih =>
      obtain ⟨before, next, first, here, last⟩ := @readAll_split b after [] rest c read
      have same : b = before := Option.some.inj first
      have later := ih last fun other member => others other (List.mem_cons_of_mem _ member)
      obtain ⟨admits, rfl⟩ := Bracket.of_read here
      have step := after_opened admits (others c List.mem_cons_self)
      rw [same, step, later, List.countP_cons]
      cases c.isStop with
      | true | false => simp [Nat.add_assoc]

theorem after_cancelled {b : Bracket} {c : LeLiveCall} (cancelled : (b.after c).cancelled = true) :
    c = .cancelOutput := by
  cases c with
  | cancelOutput => rfl
  | _ => exact absurd cancelled Bool.false_ne_true

theorem readAll_cancelled {b : Bracket} {calls : List LeLiveCall}
    (read : Bracket.shut.readAll calls = some b) (cancelled : b.cancelled = true) :
    calls.getLast? = some .cancelOutput := by
  rcases List.eq_nil_or_concat calls with rfl | ⟨front, c, rfl⟩
  · rw [← Option.some.inj read] at cancelled
    exact absurd cancelled Bool.false_ne_true
  rw [List.concat_eq_append] at read ⊢
  obtain ⟨before, next, -, here, last⟩ := readAll_split read
  obtain ⟨-, rfl⟩ := Bracket.of_read here
  rw [← Option.some.inj last] at cancelled
  rw [List.getLast?_append, List.getLast?_singleton, after_cancelled cancelled]
  rfl

theorem after_quiet {b : Bracket} {c : LeLiveCall} (admits : b.admits c = true)
    (shut : b.opened = false ∧ b.state ≠ .connecting) (silent : c ≠ .stateChanged .connecting) :
    c.isTransport = false ∧ (b.after c).opened = false ∧ (b.after c).state ≠ .connecting := by
  obtain ⟨closed, state⟩ := shut
  cases c with
  | transportStart _ | transportStop | sendAudio _ _ | poll | interrupt
  | completeDelegation _ _ _ => simp [Bracket.admits, closed, state] at admits
  | cancelOutput | outputAudio _ | dispatch _ _ _ => exact ⟨rfl, closed, state⟩
  | stateChanged other =>
      refine ⟨rfl, closed, fun connecting => silent ?_⟩
      rw [show other = .connecting from connecting]

theorem readAll_quiet {b after : Bracket} {calls : List LeLiveCall}
    (read : b.readAll calls = some after) (shut : b.opened = false ∧ b.state ≠ .connecting)
    (silent : LeLiveCall.stateChanged .connecting ∉ calls) :
    after.opened = false ∧ after.state ≠ .connecting := by
  induction calls generalizing b with
  | nil =>
      rw [← Option.some.inj read]
      exact shut
  | cons c rest ih =>
      obtain ⟨before, next, first, here, last⟩ := @readAll_split b after [] rest c read
      have same : b = before := Option.some.inj first
      obtain ⟨admits, rfl⟩ := Bracket.of_read here
      rw [same] at shut
      refine ih last ?_ fun member => silent (List.mem_cons_of_mem _ member)
      exact (after_quiet admits shut fun here => silent (here ▸ List.mem_cons_self)).2

structure WellBracketed (calls : List LeLiveCall) : Prop where
  /-- One stop between a start that succeeded and the next start. -/
  stopped : ∀ front inner back ok,
    calls = front ++ .transportStart true :: (inner ++ .transportStart ok :: back) →
      (∀ c ∈ inner, c.isStart = false) → inner.countP LeLiveCall.isStop = 1
  cancelled : ∀ front back, calls = front ++ .transportStop :: back →
    front.getLast? = some .cancelOutput
  /-- After idle the transport is left alone until a connection is announced. -/
  quiet : ∀ front inner back c,
    calls = front ++ .stateChanged .idle :: (inner ++ c :: back) → c.isTransport = true →
      .stateChanged .connecting ∈ inner

theorem wellBracketed_of_read {calls : List LeLiveCall} {b : Bracket}
    (read : Bracket.shut.readAll calls = some b) : WellBracketed calls where
  stopped := by
    intro front inner back ok split others
    rw [split] at read
    obtain ⟨before, opened, -, starts, read⟩ := readAll_split read
    obtain ⟨ended, next, between, again, -⟩ := readAll_split read
    obtain ⟨-, rfl⟩ := Bracket.of_read starts
    have isShut : ended.opened = false := (of_decide_eq_true (Bracket.of_read again).1).1
    have once := readAll_stops between others
    rw [isShut] at once
    simpa [Bracket.after] using once.symm
  cancelled := by
    intro front back split
    rw [split] at read
    obtain ⟨before, next, first, stops, -⟩ := readAll_split read
    exact readAll_cancelled first (of_decide_eq_true (Bracket.of_read stops).1).2.1
  quiet := by
    intro front inner back c split transport
    rw [split] at read
    obtain ⟨before, idle, -, announced, read⟩ := readAll_split read
    obtain ⟨ended, next, between, called, -⟩ := readAll_split read
    obtain ⟨closed, rfl⟩ := Bracket.of_read announced
    have shut : before.opened = false := by simpa [Bracket.admits] using closed
    have other : LeLiveState.idle ≠ .connecting := by decide
    by_contra silent
    have still := readAll_quiet between ⟨shut, other⟩ silent
    by_cases connects : c = .stateChanged .connecting
    · rw [connects] at transport
      exact absurd transport Bool.false_ne_true
    · have refused := (after_quiet (Bracket.of_read called).1 still connects).1
      exact absurd (transport.symm.trans refused) (by simp)

/--
After every call the sessions add up, the transport calls are bracketed, and the
transport is open exactly while the session is not idle.
-/
theorem liveSession_bracketed (E : LeLiveEnvironment) (ring : LeLiveRing)
    (config : LeLiveSessionConfig) (ops : List SessionOp) :
    let s := sessionRun E (leLiveSessionInit ring config) ops
    s.sessionsStarted =
        s.sessionsCompleted + s.sessionsFailed + (if s.state ≠ .idle then 1 else 0) ∧
      WellBracketed s.calls ∧
      (∀ front back, s.calls = front ++ .transportStart true :: back →
        (∀ c ∈ back, c.isStart = false) →
          back.countP LeLiveCall.isStop = if s.state ≠ .idle then 0 else 1) := by
  intro s
  have balanced : Balanced s :=
    Runs.run_invariant_always (sessionStep E) (sessionStep_balanced E)
      (leLiveSessionInit_balanced ring config) ops
  obtain ⟨cancelled, log⟩ := balanced.log
  refine ⟨?_, wellBracketed_of_read log, ?_⟩
  · rw [balanced.account]
    by_cases idle : s.state = .idle <;> simp [leLiveSessionActive, idle]
  · intro front back split others
    rw [split] at log
    obtain ⟨before, opened, -, starts, last⟩ := readAll_split log
    obtain ⟨-, rfl⟩ := Bracket.of_read starts
    have once := readAll_stops last others
    by_cases idle : s.state = .idle
    · simpa [leLiveSessionActive, idle, Bracket.after] using once.symm
    · simpa [leLiveSessionActive, idle, Bracket.after] using once

end LibreEcho.Live
