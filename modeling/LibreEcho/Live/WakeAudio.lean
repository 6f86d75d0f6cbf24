import LibreEcho.Live.Audio

/-!
Wake audio over whole runs of a session.

A run keeps the history of fed samples and the sample its latest wake starts
from. The cursor invariant says that what was sent is the history from there up
to the cursor; it is carried as long as the ring holds the cursor when the
transport opens.
-/
namespace LibreEcho.Live
open RingBuffer Runs

/-- What was sent is the history from `wakeStart` up to the cursor, and the ring
still holds everything that is owed. -/
structure Cursor (s : LeLiveSession) (base : Nat) (history : List Int16) (wakeStart : Nat) :
    Prop where
  primed : s.ring.primed = true
  retains : Retains s.ring.buffer base history
  nonempty : s.ring.buffer.count ≠ 0
  held : s.ring.buffer.first ≤ s.nextSendSample
  owed : s.nextSendSample ≤ s.ring.buffer.stop
  lower : base ≤ wakeStart
  started : wakeStart ≤ s.nextSendSample
  sent : s.sent = (history.drop (wakeStart - base)).take (s.nextSendSample - wakeStart)

namespace Cursor
variable {s t : LeLiveSession} {base wakeStart : Nat} {history : List Int16}

theorem same (h : Cursor s base history wakeStart) (k : SameAudio s t) :
    Cursor t base history wakeStart := by
  obtain ⟨hring, hnext, hsent⟩ := k
  refine ⟨?_, ?_, ?_, ?_, ?_, h.lower, ?_, ?_⟩
  · rw [hring]
    exact h.primed
  · rw [hring]
    exact h.retains
  · rw [hring]
    exact h.nonempty
  · rw [hring, hnext]
    exact h.held
  · rw [hring, hnext]
    exact h.owed
  · rw [hnext]
    exact h.started
  · rw [hsent, hnext]
    exact h.sent

theorem sent_all (h : Cursor s base history wakeStart)
    (caughtUp : s.nextSendSample = s.ring.buffer.stop) :
    s.sent = history.drop (wakeStart - base) := by
  have hstop := h.retains.stop
  have hlower := h.lower
  rw [h.sent, List.take_of_length_le]
  rw [List.length_drop]
  omega

theorem sent_isPrefix (h : Cursor s base history wakeStart) :
    s.sent <+: history.drop (wakeStart - base) := by
  rw [h.sent]
  exact List.take_prefix _ _

end Cursor

theorem cursor_sendChunk {s : LeLiveSession} {base wakeStart : Nat} {history : List Int16}
    (h : Cursor s base history wakeStart) (behind : s.nextSendSample < s.ring.buffer.stop) :
    let chunk := leLiveRingRead s.ring s.nextSendSample leLiveAudioSamples
    chunk ≠ [] ∧
      chunk.length = min leLiveAudioSamples (s.ring.buffer.stop - s.nextSendSample) ∧
      Cursor (chunkSent (s.call (.sendAudio chunk true)) chunk) base history wakeStart := by
  have hstop := h.retains.stop
  have hlower := h.lower
  have hstarted := h.started
  have hread := @leLiveRingRead_eq _ _ leLiveAudioSamples (by decide) h.held behind
  have hinside : s.nextSendSample +
      min leLiveAudioSamples (s.ring.buffer.stop - s.nextSendSample) ≤ s.ring.buffer.stop := by
    omega
  have hslice := h.retains.slice h.held hinside
  have hlen : (leLiveRingRead s.ring s.nextSendSample leLiveAudioSamples).length =
      min leLiveAudioSamples (s.ring.buffer.stop - s.nextSendSample) := by
    rw [hread, Ring.slice, List.length_map, List.length_range]
  have hpos : 0 < leLiveAudioSamples := by decide
  rw [hslice] at hread
  simp only
  generalize leLiveRingRead s.ring s.nextSendSample leLiveAudioSamples = chunk at hread hlen ⊢
  refine ⟨?_, hlen, ?_⟩
  · intro hnil
    rw [hnil, List.length_nil] at hlen
    omega
  · refine ⟨h.primed, h.retains, h.nonempty, ?_, ?_, hlower, ?_, ?_⟩
    · exact Nat.le_trans h.held (Nat.le_add_right _ _)
    · show s.nextSendSample + chunk.length ≤ s.ring.buffer.stop
      omega
    · exact Nat.le_trans hstarted (Nat.le_add_right _ _)
    · have hsent := sent_sendAudio s chunk true
      have hdrop : history.drop (s.nextSendSample - base) =
          (history.drop (wakeStart - base)).drop (s.nextSendSample - wakeStart) := by
        rw [List.drop_drop]
        congr 1
        omega
      have hcount : s.nextSendSample + chunk.length - wakeStart =
          s.nextSendSample - wakeStart + chunk.length := by omega
      refine hsent.trans ?_
      rw [h.sent]
      show _ = (history.drop (wakeStart - base)).take (s.nextSendSample + chunk.length - wakeStart)
      rw [hcount, List.take_add, ← hdrop]
      conv_lhs => rw [hread]
      rw [hlen]

section Flush
variable {E : LeLiveEnvironment} (accepts : ∀ n samples, E.sendAudio n samples = true)
include accepts

theorem flushLoop_drains (rounds : Nat) {s : LeLiveSession} {base wakeStart : Nat}
    {history : List Int16} (h : Cursor s base history wakeStart)
    (enough : s.ring.buffer.stop - s.nextSendSample ≤ rounds) :
    ∃ t, flushLoop E s.ring.buffer.stop rounds s = (true, t) ∧
      Cursor t base history wakeStart ∧ t.nextSendSample = t.ring.buffer.stop ∧
      t.state = s.state := by
  induction rounds generalizing s with
  | zero =>
      have howed := h.owed
      exact ⟨s, rfl, h, by omega, rfl⟩
  | succ rounds ih =>
      by_cases hbehind : s.nextSendSample < s.ring.buffer.stop
      · obtain ⟨hsome, hlen, hcursor⟩ := cursor_sendChunk h hbehind
        have hpos : 0 < leLiveAudioSamples := by decide
        have hround : flushLoop E s.ring.buffer.stop (rounds + 1) s =
            flushLoop E s.ring.buffer.stop rounds (chunkSent (s.call (.sendAudio
              (leLiveRingRead s.ring s.nextSendSample leLiveAudioSamples) true))
              (leLiveRingRead s.ring s.nextSendSample leLiveAudioSamples)) := by
          rw [flushLoop, if_pos hbehind, if_neg hsome, accepts, if_pos rfl]
        rw [hround]
        apply ih hcursor
        show s.ring.buffer.stop - (s.nextSendSample + List.length _) ≤ rounds
        omega
      · have howed := h.owed
        rw [flushLoop, if_neg hbehind]
        exact ⟨s, rfl, h, by omega, rfl⟩

theorem flushPending_serving {s : LeLiveSession} {base wakeStart : Nat}
    {history : List Int16} (h : Cursor s base history wakeStart)
    (serving : s.state.serving = true) :
    ∃ t, closeUnlessFlushed (flushPending E s) = (0, t) ∧ Cursor t base history wakeStart ∧
      t.nextSendSample = t.ring.buffer.stop ∧ t.state = s.state := by
  have hidle := active_of_serving serving
  have hquiet : ¬(s.state = .connecting ∨ s.state = .closing) := by
    rintro (hs | hs) <;> rw [hs] at serving <;> exact absurd serving Bool.false_ne_true
  obtain ⟨t, hflush, hrest⟩ := flushLoop_drains accepts
    (s.ring.buffer.stop - s.nextSendSample) h (Nat.le_refl _)
  refine ⟨t, ?_, hrest⟩
  rw [flushPending, if_neg hidle, if_neg hquiet, leLiveRingEnd_eq_stop h.nonempty, hflush]
  rfl

end Flush

theorem flushPending_connecting (E : LeLiveEnvironment) {s : LeLiveSession}
    (connecting : s.state = .connecting) :
    closeUnlessFlushed (flushPending E s) = (0, s) := by
  rw [flushPending, if_neg (by rw [connecting]; decide), if_pos (Or.inl connecting)]
  rfl

/-- The ring holds the newest samples of the history, or nothing was fed yet. -/
def RingTracks (ring : LeLiveRing) (base : Nat) (history : List Int16) : Prop :=
  ring.primed = false ∧ history = [] ∨
    ring.primed = true ∧ ring.buffer.count ≠ 0 ∧ Retains ring.buffer base history

structure Tracks (s : LeLiveSession) (base : Nat) (history : List Int16) (wakeStart : Nat) :
    Prop where
  ring : RingTracks s.ring base history
  sent : s.sent <+: history.drop (wakeStart - base)
  origin : s.sent ≠ [] → base ≤ wakeStart
  cursor : s.state ≠ .idle → Cursor s base history wakeStart
  caughtUp : s.state.serving = true → s.nextSendSample = s.ring.buffer.stop
  notClosing : s.state ≠ .closing

namespace Tracks
variable {s t : LeLiveSession} {base wakeStart : Nat} {history : List Int16}

theorem of_cursor (h : Cursor s base history wakeStart)
    (caughtUp : s.state.serving = true → s.nextSendSample = s.ring.buffer.stop)
    (notClosing : s.state ≠ .closing) : Tracks s base history wakeStart :=
  ⟨Or.inr ⟨h.primed, h.nonempty, h.retains⟩, h.sent_isPrefix, fun _ => h.lower,
    fun _ => h, caughtUp, notClosing⟩

theorem of_ended (h : Cursor s base history wakeStart) (k : Ended s t) :
    Tracks t base history wakeStart := by
  obtain ⟨hidle, hring, hsent⟩ := k
  refine ⟨?_, ?_, fun _ => h.lower, fun hactive => absurd hidle hactive, ?_, ?_⟩
  · rw [hring]
    exact Or.inr ⟨h.primed, h.nonempty, h.retains⟩
  · rw [hsent]
    exact h.sent_isPrefix
  · intro hserving
    exact absurd hidle (active_of_serving hserving)
  · rw [hidle]
    exact nofun

theorem same (h : Tracks s base history wakeStart) (k : SameAudio s t)
    (state : t.state = s.state) : Tracks t base history wakeStart := by
  refine ⟨?_, ?_, ?_, ?_, ?_, ?_⟩
  · rw [k.ring]
    exact h.ring
  · rw [k.sent]
    exact h.sent
  · rw [k.sent]
    exact h.origin
  · rw [state]
    exact fun active => (h.cursor active).same k
  · rw [state, k.next, k.ring]
    exact h.caughtUp
  · rw [state]
    exact h.notClosing

end Tracks

theorem serving_or_connecting {state : LeLiveState} (active : state ≠ .idle)
    (notClosing : state ≠ .closing) : state = .connecting ∨ state.serving = true := by
  cases state with
  | idle => exact absurd rfl active
  | closing => exact absurd rfl notClosing
  | connecting => exact Or.inl rfl
  | listening | speaking | waitingForTool => exact Or.inr rfl

section Steps
variable {E : LeLiveEnvironment} (accepts : ∀ n samples, E.sendAudio n samples = true)
variable {s : LeLiveSession} {base wakeStart : Nat} {history : List Int16}
include accepts

theorem flushed_tracks (h : Cursor s base history wakeStart)
    (state : s.state = .connecting ∨ s.state.serving = true) :
    Tracks (closeUnlessFlushed (flushPending E s)).2 base history wakeStart := by
  obtain hconnecting | hserving := state
  · rw [flushPending_connecting E hconnecting]
    refine Tracks.of_cursor h ?_ ?_
    · rw [hconnecting]
      exact nofun
    · rw [hconnecting]
      exact nofun
  · obtain ⟨t, hflush, hcursor, hcaught, hstate⟩ := flushPending_serving accepts h hserving
    rw [hflush]
    refine Tracks.of_cursor hcursor (fun _ => hcaught) ?_
    rw [hstate]
    rintro hclosing
    rw [hclosing] at hserving
    exact absurd hserving Bool.false_ne_true

theorem pumpGuards_tracks (h : Cursor s base history wakeStart)
    (state : s.state = .connecting ∨ s.state.serving = true) (nowMs : Nat) :
    Tracks (pumpGuards E s nowMs).2 base history wakeStart := by
  have active : s.state ≠ .idle := by
    obtain hs | hs := state
    · rw [hs]
      exact nofun
    · exact active_of_serving hs
  rw [pumpGuards]
  split
  next hconnecting =>
    split
    · exact Tracks.of_ended h (close_error_ended s _ _ active)
    · refine Tracks.of_cursor h ?_ ?_
      · rw [hconnecting]
        exact nofun
      · rw [hconnecting]
        exact nofun
  · split
    · exact Tracks.of_ended h (close_ended s _ active)
    · split
      · exact Tracks.of_ended h (close_ended s _ active)
      · exact flushed_tracks accepts h state

theorem leLiveSessionPump_tracks (h : Tracks s base history wakeStart) (timeoutMs : Int)
    (nowMs : Nat) : Tracks (leLiveSessionPump E s timeoutMs nowMs).2 base history wakeStart := by
  rw [leLiveSessionPump]
  split
  · exact h
  next hactive =>
    have active : s.state ≠ .idle := by
      intro hidle
      exact hactive (by simp [leLiveSessionActive, hidle])
    have hpolled := SameAudio.call s (c := .poll) rfl
    have hcursor := (h.cursor active).same hpolled
    simp only
    generalize E.poll s.callCount timeoutMs = answer
    cases answer with
    | failed => exact Tracks.of_ended hcursor (close_error_ended _ _ _ active)
    | timeout =>
        exact pumpGuards_tracks accepts hcursor
          (serving_or_connecting active h.notClosing) nowMs
    | event event =>
        simp only
        obtain hended | ⟨hsame, hstate⟩ := handleEvent_outcome E (s.call .poll) event nowMs active
        · rw [if_pos (by simp [leLiveSessionActive, hended.idle])]
          exact Tracks.of_ended hcursor hended
        · have hserving : (handleEvent E (s.call .poll) event nowMs).state = .connecting ∨
              (handleEvent E (s.call .poll) event nowMs).state.serving = true := by
            obtain hkept | hserving := hstate
            · rw [hkept]
              exact serving_or_connecting active h.notClosing
            · exact Or.inr hserving
          split
          next hidle =>
            have hcursor' := hcursor.same hsame
            exact absurd hidle (by
              obtain hs | hs := hserving
              · simp [leLiveSessionActive, hs]
              · simp [leLiveSessionActive, active_of_serving hs])
          · exact pumpGuards_tracks accepts (hcursor.same hsame) hserving nowMs

end Steps

section Feed
variable {s : LeLiveSession} {ring : LeLiveRing} {base wakeStart firstSample : Nat}
  {history samples : List Int16}

theorem RingTracks.append (h : RingTracks s.ring base history)
    (accepted : leLiveRingAppend s.ring firstSample samples = some ring)
    (contiguous : history ≠ [] → firstSample = base + history.length) :
    RingTracks ring (if history = [] then firstSample else base) (history ++ samples) := by
  obtain ⟨hnonempty, hshort⟩ := leLiveRingAppend_some accepted
  obtain ⟨hfresh, rfl⟩ | ⟨hprimed, hcount, hretains⟩ := h
  · rw [leLiveRingAppend_eq hnonempty hshort (by rw [hfresh]; rintro ⟨⟩)] at accepted
    cases accepted
    refine Or.inr ⟨rfl, ?_, ?_⟩
    · simp only [Ring.append_count]
      omega
    · rw [if_neg (by rw [hfresh]; exact Bool.false_ne_true), if_pos rfl]
      exact (Retains.primeAt s.ring.buffer firstSample).append samples
  · have hstop := hretains.stop
    have hstart := hretains.start
    have hsum : s.ring.buffer.stop = s.ring.buffer.first + s.ring.buffer.count := rfl
    have hhistory : history ≠ [] := by
      rintro rfl
      simp only [List.length_nil] at hstop
      omega
    have hcontinues := contiguous hhistory
    rw [leLiveRingAppend_eq hnonempty hshort (fun _ => by omega)] at accepted
    cases accepted
    refine Or.inr ⟨rfl, ?_, ?_⟩
    · simp only [Ring.append_count]
      omega
    · rw [if_pos hprimed, if_neg hhistory]
      exact hretains.append samples

theorem Cursor.append (h : Cursor s base history wakeStart)
    (accepted : leLiveRingAppend s.ring firstSample samples = some ring)
    (contiguous : history ≠ [] → firstSample = base + history.length)
    (kept : s.ring.buffer.stop + samples.length ≤ s.nextSendSample + leLiveRingCapacity) :
    Cursor { s with ring := ring } base (history ++ samples) wakeStart ∧ history ≠ [] := by
  obtain ⟨hnonempty, hshort⟩ := leLiveRingAppend_some accepted
  have hstop := h.retains.stop
  have hstart := h.retains.start
  have hfilled := h.nonempty
  have hsum : s.ring.buffer.stop = s.ring.buffer.first + s.ring.buffer.count := rfl
  have hhistory : history ≠ [] := by
    rintro rfl
    simp only [List.length_nil] at hstop
    omega
  have hcontinues := contiguous hhistory
  rw [leLiveRingAppend_eq hnonempty hshort (fun _ => by omega), if_pos h.primed] at accepted
  cases accepted
  have hstop' := Ring.append_stop s.ring.buffer samples
  have hcount' := Ring.append_count s.ring.buffer samples
  have hsum' : (s.ring.buffer.append samples).stop = (s.ring.buffer.append samples).first +
      (s.ring.buffer.append samples).count := rfl
  have hheld := h.held
  have howed := h.owed
  have hstarted := h.started
  have hlower := h.lower
  refine ⟨⟨rfl, h.retains.append samples, ?_, ?_, ?_, hlower, hstarted, ?_⟩, hhistory⟩
  · show (s.ring.buffer.append samples).count ≠ 0
    omega
  · show (s.ring.buffer.append samples).first ≤ s.nextSendSample
    omega
  · show s.nextSendSample ≤ (s.ring.buffer.append samples).stop
    omega
  · have hprefix : s.nextSendSample - wakeStart ≤ (history.drop (wakeStart - base)).length := by
      rw [List.length_drop]
      omega
    rw [List.drop_append_of_le_length (by omega), List.take_append_of_le_length hprefix]
    exact h.sent

theorem history_of_sent {sent : List Int16} {n : Nat} (h : sent <+: history.drop n)
    (some : sent ≠ []) : history ≠ [] := by
  rintro rfl
  rw [List.drop_nil, List.prefix_nil] at h
  exact some h

theorem sent_fed {sent : List Int16} (h : sent <+: history.drop (wakeStart - base)) :
    sent <+: (history ++ samples).drop
      (wakeStart - if history = [] then firstSample else base) := by
  by_cases hhistory : history = []
  · rw [hhistory, List.drop_nil, List.prefix_nil] at h
    rw [h]
    exact List.nil_prefix
  · rw [if_neg hhistory, List.drop_append]
    exact h.trans (List.prefix_append _ _)

theorem leLiveSessionFeed_rejected (E : LeLiveEnvironment) (nowMs : Nat)
    (rejected : leLiveRingAppend s.ring firstSample samples = none) :
    (leLiveSessionFeed E s firstSample samples nowMs).2 = s := by
  rw [leLiveSessionFeed]
  split
  · rfl
  · rw [rejected]

theorem leLiveSessionFeed_tracks {E : LeLiveEnvironment}
    (accepts : ∀ n samples, E.sendAudio n samples = true)
    (h : Tracks s base history wakeStart)
    (accepted : leLiveRingAppend s.ring firstSample samples = some ring)
    (contiguous : history ≠ [] → firstSample = base + history.length)
    (kept : s.state = .connecting →
      leLiveRingEnd s.ring + samples.length ≤ s.nextSendSample + leLiveRingCapacity)
    (nowMs : Nat) :
    Tracks (leLiveSessionFeed E s firstSample samples nowMs).2
      (if history = [] then firstSample else base) (history ++ samples) wakeStart := by
  obtain ⟨hnonempty, hshort⟩ := leLiveRingAppend_some accepted
  have hring := h.ring.append accepted contiguous
  rw [leLiveSessionFeed, if_neg hnonempty, accepted]
  simp only
  obtain ⟨hsame, hstate⟩ := observeFrame_same { s with ring := ring } samples nowMs
  generalize observeFrame { s with ring := ring } samples nowMs = t at hsame hstate ⊢
  by_cases hidle : s.state = .idle
  · have htidle : t.state = .idle := by
      obtain hs | ⟨hs, _⟩ := hstate
      · exact hs.trans hidle
      · exact absurd (hidle.symm.trans hs) nofun
    rw [if_pos (by simp [leLiveSessionActive, htidle])]
    refine ⟨?_, ?_, ?_, fun hactive => absurd htidle hactive, ?_, ?_⟩
    · show RingTracks t.ring _ _
      rw [hsame.ring]
      exact hring
    · show t.sent <+: _
      have hsent : t.sent = s.sent := hsame.sent
      rw [hsent]
      exact sent_fed h.sent
    · show t.sent ≠ [] → _
      have hsent : t.sent = s.sent := hsame.sent
      rw [hsent]
      intro hsome
      rw [if_neg (history_of_sent h.sent hsome)]
      exact h.origin hsome
    · exact fun hserving => absurd htidle (active_of_serving hserving)
    · exact fun hclosing => absurd (htidle.symm.trans hclosing) nofun
  · have hcursor := h.cursor hidle
    have hkept : s.ring.buffer.stop + samples.length ≤
        s.nextSendSample + leLiveRingCapacity := by
      obtain hconnecting | hserving := serving_or_connecting hidle h.notClosing
      · have := kept hconnecting
        rwa [leLiveRingEnd_eq_stop hcursor.nonempty] at this
      · have := h.caughtUp hserving
        omega
    obtain ⟨hcursor', hhistory⟩ := hcursor.append accepted contiguous hkept
    have hserving : t.state = .connecting ∨ t.state.serving = true := by
      obtain hs | ⟨_, hs⟩ := hstate
      · rw [hs]
        exact serving_or_connecting hidle h.notClosing
      · rw [hs]
        exact Or.inr rfl
    rw [if_neg hhistory, if_neg (by
      obtain hs | hs := hserving
      · simp [leLiveSessionActive, hs]
      · simp [leLiveSessionActive, active_of_serving hs])]
    exact flushed_tracks accepts (hcursor'.same hsame) hserving

end Feed

theorem openSession_keeps (s : LeLiveSession) (detectionSample nowMs : Nat) :
    (openSession s detectionSample nowMs).ring = s.ring ∧
      (openSession s detectionSample nowMs).state = s.state ∧
      (openSession s detectionSample nowMs).sessionsStarted = s.sessionsStarted + 1 ∧
      (openSession s detectionSample nowMs).nextSendSample =
        leLiveRingStartForWake s.ring detectionSample (prerollSamples s) :=
  ⟨rfl, rfl, rfl, rfl⟩

@[simp] theorem setState_sessionsStarted (s : LeLiveSession) (state : LeLiveState) :
    (setState s state).sessionsStarted = s.sessionsStarted := by
  rw [setState]
  split
  · rfl
  · rfl

theorem cursor_start {s t : LeLiveSession} {base start : Nat} {history : List Int16}
    (ring : t.ring = s.ring) (next : t.nextSendSample = start) (sent : t.sent = [])
    (primed : s.ring.primed = true) (nonempty : s.ring.buffer.count ≠ 0)
    (retains : Retains s.ring.buffer base history)
    (held : s.ring.buffer.first ≤ start) (owed : start ≤ s.ring.buffer.stop) :
    Cursor t base history start := by
  have hstart := retains.start
  refine ⟨?_, ?_, ?_, ?_, ?_, ?_, ?_, ?_⟩
  · rw [ring]
    exact primed
  · rw [ring]
    exact retains
  · rw [ring]
    exact nonempty
  · rw [ring, next]
    exact held
  · rw [ring, next]
    exact owed
  · omega
  · omega
  · rw [sent, next, Nat.sub_self, List.take_zero]

theorem connectFailed_ended (s : LeLiveSession) (detail : CText) :
    Ended s (connectFailed s detail) ∧
      (connectFailed s detail).sessionsStarted = s.sessionsStarted := by
  have hclosing := SameAudio.setState
    { s with
      lastError := if detail = [] then "transport unavailable".toList else detail
      sessionsFailed := s.sessionsFailed + 1 } .closing
  have hstarted := setState_sessionsStarted
    { s with
      lastError := if detail = [] then "transport unavailable".toList else detail
      sessionsFailed := s.sessionsFailed + 1 } .closing
  rw [connectFailed]
  generalize setState _ .closing = t at hclosing hstarted ⊢
  have hidle := SameAudio.setState { t with lastEnd := .connectFailed } .idle
  refine ⟨⟨setState_state _ _, hidle.ring.trans hclosing.ring, hidle.sent.trans hclosing.sent⟩, ?_⟩
  exact (setState_sessionsStarted _ _).trans hstarted

theorem startTransport_tracks (E : LeLiveEnvironment) {s : LeLiveSession} {base : Nat}
    {history : List Int16} (connecting : s.state = .connecting) (primed : s.ring.primed = true)
    (nonempty : s.ring.buffer.count ≠ 0) (retains : Retains s.ring.buffer base history)
    (held : s.ring.buffer.first ≤ s.nextSendSample)
    (owed : s.nextSendSample ≤ s.ring.buffer.stop) :
    (startTransport E s).2.sessionsStarted = s.sessionsStarted ∧
      Tracks (startTransport E s).2 base history s.nextSendSample := by
  have hcursor : ∀ ok, Cursor (s.call (.transportStart ok)) base history s.nextSendSample :=
    fun ok => cursor_start (s := s) rfl rfl (sent_transportStart s ok) primed nonempty retains
      held owed
  rw [startTransport]
  split
  · refine ⟨rfl, Tracks.of_cursor (hcursor true) ?_ ?_⟩
    · show s.state.serving = true → _
      rw [connecting]
      exact nofun
    · show s.state ≠ .closing
      rw [connecting]
      exact nofun
  next detail _ =>
    obtain ⟨hended, hstarted⟩ := connectFailed_ended (s.call (.transportStart false))
      (copyText leLiveTextMax detail)
    exact ⟨hstarted, Tracks.of_ended (hcursor false) hended⟩

/-- The oldest retained sample not before the detection less the preroll. -/
def wakePoint (s : LeLiveSession) (detectionSample : Nat) : Nat :=
  max (leLiveRingBegin s.ring) (detectionSample - prerollSamples s)

theorem leLiveSessionWake_tracks (E : LeLiveEnvironment) {s : LeLiveSession}
    {base wakeStart : Nat} {history : List Int16} (h : Tracks s base history wakeStart)
    (detectionSample nowMs : Nat)
    (inside : s.state = .idle → s.ring.buffer.count ≠ 0 →
      detectionSample ≠ leLiveRingEnd s.ring ∨ 0 < prerollSamples s) :
    let t := (leLiveSessionWake E s detectionSample nowMs).2
    t.sessionsStarted = s.sessionsStarted ∧ Tracks t base history wakeStart ∨
      t.sessionsStarted = s.sessionsStarted + 1 ∧
        Tracks t base history (wakePoint s detectionSample) := by
  simp only
  rw [leLiveSessionWake]
  split
  · exact Or.inl ⟨rfl, h⟩
  split
  · exact Or.inl ⟨rfl, h⟩
  split
  · exact Or.inl ⟨rfl, h.same ⟨rfl, rfl, rfl⟩ rfl⟩
  next hactive _ havailable =>
    have hidle : s.state = .idle := by
      simpa [leLiveSessionActive] using hactive
    obtain ⟨hfresh, _⟩ | ⟨hprimed, hcount, hretains⟩ := h.ring
    · exact absurd (Or.inl hfresh) havailable
    · have hend := leLiveRingEnd_eq_stop hcount
      have hsum : s.ring.buffer.stop = s.ring.buffer.first + s.ring.buffer.count := rfl
      have hdetected : detectionSample ≤ s.ring.buffer.stop := by
        rw [← hend]
        exact Nat.le_of_not_lt fun hlt => havailable (Or.inr (Or.inr hlt))
      have hinside : detectionSample - prerollSamples s < s.ring.buffer.stop := by
        have := inside hidle hcount
        rw [hend] at this
        omega
      have hpoint : wakePoint s detectionSample =
          max s.ring.buffer.first (detectionSample - prerollSamples s) := by
        rw [wakePoint, leLiveRingBegin, if_pos hcount]
      obtain ⟨hring, _, hstarted, hnext⟩ := openSession_keeps s detectionSample nowMs
      rw [leLiveRingStartForWake_eq hcount hinside, ← hpoint] at hnext
      generalize openSession s detectionSample nowMs = opening at hring hstarted hnext ⊢
      obtain ⟨hring', hnext', _⟩ := SameAudio.setState opening .connecting
      have hconnecting := setState_state opening .connecting
      have hstarted' := setState_sessionsStarted opening .connecting
      generalize setState opening .connecting = w at hring' hnext' hconnecting hstarted' ⊢
      rw [hring] at hring'
      rw [hnext] at hnext'
      rw [hstarted] at hstarted'
      have hretains' : Retains w.ring.buffer base history := by
        rw [hring']
        exact hretains
      have htracks := startTransport_tracks E hconnecting (by rw [hring']; exact hprimed)
        (by rw [hring']; exact hcount) hretains' (by rw [hring', hnext']; omega)
        (by rw [hring', hnext']; omega)
      rw [hstarted', hnext'] at htracks
      exact Or.inr htracks

end LibreEcho.Live
