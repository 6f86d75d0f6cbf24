import LibreEcho.Live.WakeAudio

/-!
Runs of one live session.

The operations are those of the audio daemon: feed a numbered frame, wake, pump
the transport. The run keeps the history of accepted samples, the number of the
first of them and the sample the latest started conversation begins at.
-/
namespace LibreEcho.Live
open RingBuffer Runs

structure LiveRun where
  session : LeLiveSession
  base : Nat
  history : List Int16
  wakeStart : Nat

inductive LiveOp where
  | feed (firstSample : Nat) (samples : List Int16) (nowMs : Nat)
  | wake (detectionSample nowMs : Nat)
  | pump (timeoutMs : Int) (nowMs : Nat)

def LiveRun.start (config : LeLiveSessionConfig) : LiveRun where
  session := leLiveSessionInit leLiveRingZero config
  base := 0
  history := []
  wakeStart := 0

def liveStep (E : LeLiveEnvironment) (r : LiveRun) : LiveOp → LiveRun
  | .feed firstSample samples nowMs =>
      let session := (leLiveSessionFeed E r.session firstSample samples nowMs).2
      if (leLiveRingAppend r.session.ring firstSample samples).isSome then
        { r with
          session := session
          base := if r.history = [] then firstSample else r.base
          history := r.history ++ samples }
      else { r with session := session }
  | .wake detectionSample nowMs =>
      let session := (leLiveSessionWake E r.session detectionSample nowMs).2
      { r with
        session := session
        wakeStart :=
          if session.sessionsStarted = r.session.sessionsStarted then r.wakeStart
          else wakePoint r.session detectionSample }
  | .pump timeoutMs nowMs =>
      { r with session := (leLiveSessionPump E r.session timeoutMs nowMs).2 }

def Contiguous (r : LiveRun) : LiveOp → Prop
  | .feed firstSample _ _ => r.history ≠ [] → firstSample = r.base + r.history.length
  | _ => True

/-- A frame fed while the session connects leaves the cursor in the ring, and a
wake that opens a session has a sample to start from. -/
def CursorHeld (r : LiveRun) : LiveOp → Prop
  | .feed _ samples _ =>
      r.session.state = .connecting → samples.length ≤ leLiveRingCapacity →
        leLiveRingEnd r.session.ring + samples.length ≤
          r.session.nextSendSample + leLiveRingCapacity
  | .wake detectionSample _ =>
      r.session.state = .idle → r.session.ring.buffer.count ≠ 0 →
        detectionSample ≠ leLiveRingEnd r.session.ring ∨ 0 < prerollSamples r.session
  | .pump _ _ => True

def LiveRun.Tracks (r : LiveRun) : Prop :=
  Live.Tracks r.session r.base r.history r.wakeStart

theorem start_tracks (config : LeLiveSessionConfig) : (LiveRun.start config).Tracks where
  ring := Or.inl ⟨rfl, rfl⟩
  sent := List.nil_prefix
  origin := fun h => absurd rfl h
  cursor := fun h => absurd rfl h
  caughtUp := nofun
  notClosing := nofun

theorem liveStep_tracks {E : LeLiveEnvironment}
    (accepts : ∀ n samples, E.sendAudio n samples = true) (r : LiveRun) (op : LiveOp)
    (h : r.Tracks) (ok : Contiguous r op ∧ CursorHeld r op) : (liveStep E r op).Tracks := by
  obtain ⟨hcontiguous, hheld⟩ := ok
  cases op with
  | feed firstSample samples nowMs =>
      rw [liveStep]
      cases haccepted : leLiveRingAppend r.session.ring firstSample samples with
      | none =>
          rw [leLiveSessionFeed_rejected E nowMs haccepted]
          exact h
      | some ring =>
          have hkept : r.session.state = .connecting →
              leLiveRingEnd r.session.ring + samples.length ≤
                r.session.nextSendSample + leLiveRingCapacity :=
            fun hs => hheld hs (leLiveRingAppend_some haccepted).2
          exact leLiveSessionFeed_tracks accepts h haccepted hcontiguous hkept nowMs
  | wake detectionSample nowMs =>
      rw [liveStep]
      obtain ⟨hsame, htracks⟩ | ⟨hnew, htracks⟩ :=
        leLiveSessionWake_tracks E h detectionSample nowMs hheld
      · simp only [hsame, if_true]
        exact htracks
      · simp only [hnew, Nat.succ_ne_self, if_false]
        exact htracks
  | pump timeoutMs nowMs => exact leLiveSessionPump_tracks accepts h timeoutMs nowMs

/-- In an admitted run the audio sent is the history from the wake point, and a
session that forwards audio is caught up with the ring. -/
theorem wakeAudio_contiguous (E : LeLiveEnvironment)
    (accepts : ∀ n samples, E.sendAudio n samples = true) (config : LeLiveSessionConfig)
    (ops : List LiveOp)
    (contiguous : Admits (liveStep E) Contiguous (LiveRun.start config) ops)
    (held : Admits (liveStep E) CursorHeld (LiveRun.start config) ops) :
    let r := run (liveStep E) (LiveRun.start config) ops
    (r.session.state.serving = true →
      r.session.nextSendSample = leLiveRingEnd r.session.ring ∧
        r.session.sent = r.history.drop (r.wakeStart - r.base)) ∧
    (r.session.sent ≠ [] → r.base ≤ r.wakeStart) ∧
    r.session.sent <+: r.history.drop (r.wakeStart - r.base) := by
  have h := run_invariant (liveStep E) (liveStep_tracks accepts) (start_tracks config)
    (admits_and.mpr ⟨contiguous, held⟩)
  refine ⟨fun hserving => ?_, h.origin, h.sent⟩
  have hcursor := h.cursor (active_of_serving hserving)
  have hcaught := h.caughtUp hserving
  refine ⟨?_, hcursor.sent_all hcaught⟩
  rw [leLiveRingEnd_eq_stop hcursor.nonempty]
  exact hcaught

/-! ### A slow connection -/

/-- A transport that takes everything and opens at its first poll. -/
def openingTransport : LeLiveEnvironment where
  start _ _ := .ok ()
  sendAudio _ _ := true
  poll _ _ := .event .opened
  completeDelegation _ _ _ := true
  outputAudio _ _ _ := true
  dispatch _ _ _ := (true, [])

def daemonConfig : LeLiveSessionConfig where
  hasTransport := true
  conversationTimeoutMs := 15000
  maxSessionMs := 600000
  connectTimeoutMs := 8000
  wakePrerollMs := 150
  bargeInRms := 900
  bargeInFactor := 6
  bargeInFrames := 3
  transportConfig :=
    { model := "gpt-live-1-codex".toList
      voice := some "cove".toList
      credentialsPath := none
      url := none
      caPath := none
      mockScenario := none }

@[irreducible] def silence : List Int16 := List.replicate leLiveAudioSamples 0

theorem silence_length : silence.length = 1280 := by
  rw [silence, List.length_replicate]
  rfl

/-- The `k`-th frame of an idle room. -/
def silentFrame (k : Nat) : LiveOp :=
  .feed (1280 * k) silence (80 * k)

def wokenOps : List LiveOp := [silentFrame 0, .wake 1280 80]

theorem wakeAudio_contiguous_woken :
    let r := run (liveStep openingTransport) (LiveRun.start daemonConfig)
      (wokenOps ++ [.pump 0 100])
    r.session.nextSendSample = leLiveRingEnd r.session.ring ∧
      r.session.sent = r.history.drop (r.wakeStart - r.base) := by
  have contiguous : Admits (liveStep openingTransport) Contiguous (LiveRun.start daemonConfig)
      (wokenOps ++ [.pump 0 100]) := by
    refine ⟨?_, ?_, ?_, ?_⟩
    · exact fun h => absurd rfl h
    · exact True.intro
    · exact True.intro
    · exact True.intro
  have held : Admits (liveStep openingTransport) CursorHeld (LiveRun.start daemonConfig)
      (wokenOps ++ [.pump 0 100]) := by
    refine ⟨?_, ?_, ?_, ?_⟩
    · exact nofun
    · exact fun _ _ => Or.inr (by decide +kernel)
    · exact True.intro
    · exact True.intro
  have h := wakeAudio_contiguous openingTransport (fun _ _ => rfl) daemonConfig _ contiguous held
  exact h.1 (by decide +kernel)

structure SameClock (s t : LeLiveSession) : Prop where
  config : t.config = s.config
  opened : t.openedMs = s.openedMs
  modelSpeech : t.lastModelSpeechMs = s.lastModelSpeechMs
  userSpeech : t.lastUserSpeechMs = s.lastUserSpeechMs

theorem observeInput_sameClock (s : LeLiveSession) (samples : List Int16) :
    SameClock s (observeInput s samples) := by
  simp only [observeInput]
  generalize frameRms samples = rms
  split <;> split <;> (try split) <;> exact ⟨rfl, rfl, rfl, rfl⟩

theorem observeFrame_sameClock {s : LeLiveSession} (samples : List Int16) (nowMs : Nat)
    (connecting : s.state = .connecting) : SameClock s (observeFrame s samples nowMs) := by
  have hbarge : checkBargeIn s samples nowMs = { s with bargeInRun := 0 } := by
    simp [checkBargeIn, connecting]
  have hactive : leLiveSessionActive s = true := by
    simp [leLiveSessionActive, connecting]
  have hobserve := observeInput_sameClock { s with bargeInRun := 0 } samples
  have hframe : observeFrame s samples nowMs = observeInput { s with bargeInRun := 0 } samples := by
    simp [observeFrame, hbarge, hactive, connecting]
  rw [hframe]
  exact ⟨hobserve.config, hobserve.opened, hobserve.modelSpeech, hobserve.userSpeech⟩

theorem leLiveSessionFeed_connecting (E : LeLiveEnvironment) {s : LeLiveSession}
    {samples : List Int16} (connecting : s.state = .connecting) (primed : s.ring.primed = true)
    (nonempty : samples.length ≠ 0) (short : samples.length ≤ leLiveRingCapacity) (nowMs : Nat) :
    let t := (leLiveSessionFeed E s s.ring.buffer.stop samples nowMs).2
    t.state = .connecting ∧ t.nextSendSample = s.nextSendSample ∧ SameClock s t ∧
      t.ring = { buffer := s.ring.buffer.append samples, primed := true } := by
  simp only
  rw [leLiveSessionFeed, if_neg nonempty,
    leLiveRingAppend_eq nonempty short (fun _ => rfl), if_pos primed]
  simp only
  obtain ⟨hring, hnext, _⟩ := (observeFrame_same
    { s with ring := { buffer := s.ring.buffer.append samples, primed := true } } samples nowMs).1
  have hstate := (observeFrame_same
    { s with ring := { buffer := s.ring.buffer.append samples, primed := true } } samples nowMs).2
  obtain ⟨hconfig, hopened, hmodel, huser⟩ := observeFrame_sameClock
    (s := { s with ring := { buffer := s.ring.buffer.append samples, primed := true } })
    samples nowMs connecting
  generalize observeFrame _ samples nowMs = t at hring hnext hstate hconfig hopened hmodel huser ⊢
  have htstate : t.state = .connecting := by
    obtain hs | ⟨hs, _⟩ := hstate
    · exact hs.trans connecting
    · exact absurd (connecting.symm.trans hs) (by rintro ⟨⟩)
  rw [if_neg (by simp [leLiveSessionActive, htstate]), flushPending_connecting E htstate]
  exact ⟨htstate, hnext, ⟨hconfig, hopened, hmodel, huser⟩, hring⟩

theorem flushPending_stranded (E : LeLiveEnvironment) {s : LeLiveSession}
    (gone : s.nextSendSample < s.ring.buffer.first) (serving : s.state.serving = true) :
    flushPending E s = (true, s) := by
  have hidle := active_of_serving serving
  have hquiet : ¬(s.state = .connecting ∨ s.state = .closing) := by
    rintro (hs | hs) <;> rw [hs] at serving <;> exact absurd serving Bool.false_ne_true
  rw [flushPending, if_neg hidle, if_neg hquiet]
  simp only
  cases leLiveRingEnd s.ring - s.nextSendSample with
  | zero => rfl
  | succ rounds => rw [flushLoop, leLiveRingRead_gone gone, if_pos rfl, ite_self]

/-- The session waits for its transport after `n` frames, its cursor still at the first. -/
structure Waiting (r : LiveRun) (n : Nat) : Prop where
  state : r.session.state = .connecting
  next : r.session.nextSendSample = 0
  clock : SameClock (run (liveStep openingTransport) (LiveRun.start daemonConfig) wokenOps).session
    r.session
  primed : r.session.ring.primed = true
  stop : r.session.ring.buffer.stop = 1280 * n
  count : r.session.ring.buffer.count = min leLiveRingCapacity (1280 * n)
  base : r.base = 0
  history : r.history.length = 1280 * n

theorem woken_waiting :
    Waiting (run (liveStep openingTransport) (LiveRun.start daemonConfig) wokenOps) 1 where
  state := by decide +kernel
  next := by decide +kernel
  clock := ⟨rfl, rfl, rfl, rfl⟩
  primed := by decide +kernel
  stop := by decide +kernel
  count := by decide +kernel
  base := by decide +kernel
  history := by decide +kernel

theorem silentFrame_waiting {r : LiveRun} {n : Nat} (h : Waiting r n) (some : n ≠ 0) :
    Contiguous r (silentFrame n) ∧
      Waiting (liveStep openingTransport r (silentFrame n)) (n + 1) := by
  have hlen := silence_length
  have hshort : silence.length ≤ leLiveRingCapacity := by
    rw [hlen]
    decide
  have hnonempty : silence.length ≠ 0 := by
    rw [hlen]
    decide
  refine ⟨fun _ => ?_, ?_⟩
  · rw [h.base, h.history]
    omega
  · obtain ⟨hstate, hnext, hclock, hring⟩ := leLiveSessionFeed_connecting openingTransport
      h.state h.primed hnonempty hshort (80 * n)
    have haccepted := @leLiveRingAppend_eq r.session.ring (1280 * n) silence hnonempty hshort
      (fun _ => h.stop.symm)
    have hhistory : r.history ≠ [] := by
      intro hnil
      have := h.history
      rw [hnil, List.length_nil] at this
      omega
    rw [h.stop] at hstate hnext hclock hring
    rw [silentFrame, liveStep, haccepted]
    simp only [Option.isSome_some, if_true]
    refine ⟨hstate, hnext.trans h.next, ?_, ?_, ?_, ?_, ?_, ?_⟩
    · exact ⟨hclock.config.trans h.clock.config, hclock.opened.trans h.clock.opened,
        hclock.modelSpeech.trans h.clock.modelSpeech, hclock.userSpeech.trans h.clock.userSpeech⟩
    · rw [hring]
    · rw [hring]
      simp only [Ring.append_stop, h.stop, hlen]
      omega
    · rw [hring]
      simp only [Ring.append_count, h.count, hlen]
      omega
    · rw [if_neg hhistory]
      exact h.base
    · rw [List.length_append, h.history, hlen]
      omega

theorem silentFrames_waiting (k : Nat) {r : LiveRun} {n : Nat} (h : Waiting r n) (some : n ≠ 0) :
    Admits (liveStep openingTransport) Contiguous r ((List.range' n k).map silentFrame) ∧
      Waiting (run (liveStep openingTransport) r ((List.range' n k).map silentFrame)) (n + k) := by
  induction k generalizing r n with
  | zero => exact ⟨True.intro, h⟩
  | succ k ih =>
      obtain ⟨hcontiguous, hnext⟩ := silentFrame_waiting h some
      obtain ⟨hadmits, hwaiting⟩ := ih hnext (Nat.succ_ne_zero n)
      refine ⟨⟨hcontiguous, hadmits⟩, ?_⟩
      have hsum : n + (k + 1) = n + 1 + k := by omega
      rw [hsum]
      exact hwaiting

theorem setState_sameClock (s : LeLiveSession) (state : LeLiveState) :
    SameClock s (setState s state) := by
  rw [setState]
  split
  · exact ⟨rfl, rfl, rfl, rfl⟩
  · exact ⟨rfl, rfl, rfl, rfl⟩

theorem opened_sameClock (s : LeLiveSession) (nowMs : Nat) :
    SameClock s (handleEvent openingTransport s .opened nowMs) := by
  have hconnected : ∀ ms, SameClock s (setState { s with lastConnectionMs := ms } .listening) := by
    intro ms
    have h := setState_sameClock { s with lastConnectionMs := ms } .listening
    exact ⟨h.config, h.opened, h.modelSpeech, h.userSpeech⟩
  exact hconnected _

theorem pump_opened_stranded {s : LeLiveSession} {nowMs : Nat} (connecting : s.state = .connecting)
    (gone : s.nextSendSample < s.ring.buffer.first)
    (young : u64Sub nowMs s.openedMs < s.config.maxSessionMs)
    (heard : u64Sub nowMs (max s.lastModelSpeechMs s.lastUserSpeechMs) <
      s.config.conversationTimeoutMs) (timeoutMs : Int) :
    let t := (leLiveSessionPump openingTransport s timeoutMs nowMs).2
    t.state = .listening ∧ t.ring = s.ring ∧ t.nextSendSample = s.nextSendSample := by
  have hactive : ¬leLiveSessionActive s = false := by simp [leLiveSessionActive, connecting]
  have hsame := (SameAudio.call s (c := .poll) rfl).trans
    ((connectionMs_same (s.call .poll) (u64Sub nowMs s.openedMs)).thenSetState .listening)
  have hclock := opened_sameClock (s.call .poll) nowMs
  have hstate : (handleEvent openingTransport (s.call .poll) .opened nowMs).state = .listening := by
    rw [handleEvent, setState_state]
  have hopen : (leLiveSessionPump openingTransport s timeoutMs nowMs).2 =
      (if leLiveSessionActive (handleEvent openingTransport (s.call .poll) .opened nowMs) = false
        then (0, handleEvent openingTransport (s.call .poll) .opened nowMs)
        else pumpGuards openingTransport
          (handleEvent openingTransport (s.call .poll) .opened nowMs) nowMs).2 := by
    rw [leLiveSessionPump, if_neg hactive]
    rfl
  simp only [hopen]
  change SameAudio s (handleEvent openingTransport (s.call .poll) .opened nowMs) at hsame
  generalize handleEvent openingTransport (s.call .poll) .opened nowMs = t at hsame hclock hstate ⊢
  have hgone : t.nextSendSample < t.ring.buffer.first := by
    rw [hsame.next, hsame.ring]
    exact gone
  have hyoung : ¬t.config.maxSessionMs ≤ u64Sub nowMs t.openedMs := by
    rw [hclock.config, hclock.opened]
    exact Nat.not_le_of_lt young
  have hheard : ¬t.config.conversationTimeoutMs ≤
      u64Sub nowMs (max t.lastModelSpeechMs t.lastUserSpeechMs) := by
    rw [hclock.config, hclock.modelSpeech, hclock.userSpeech]
    exact Nat.not_le_of_lt heard
  rw [if_neg (by simp [leLiveSessionActive, hstate]), pumpGuards,
    if_neg (by rw [hstate]; rintro ⟨⟩), if_neg hyoung, if_neg hheard,
    flushPending_stranded openingTransport hgone (by rw [hstate]; rfl)]
  exact ⟨hstate, hsame.ring, hsame.next⟩

theorem woken_clock :
    let s := (run (liveStep openingTransport) (LiveRun.start daemonConfig) wokenOps).session
    s.openedMs = 80 ∧ s.lastModelSpeechMs = 80 ∧ s.lastUserSpeechMs = 80 ∧
      s.config.maxSessionMs = 600000 ∧ s.config.conversationTimeoutMs = 15000 := by
  decide +kernel

theorem waiting_stranded {r : LiveRun} (h : Waiting r 39) :
    let t := liveStep openingTransport r (.pump 0 3120)
    t.session.state = .listening ∧ t.session.nextSendSample ≠ leLiveRingEnd t.session.ring := by
  obtain ⟨hstate, hnext, hclock, hprimed, hstop, hcount, _, _⟩ := h
  obtain ⟨hopened, hmodel, huser, hmax, htimeout⟩ := woken_clock
  have hsum : r.session.ring.buffer.stop =
    r.session.ring.buffer.first + r.session.ring.buffer.count := rfl
  have hcapacity : leLiveRingCapacity = 48000 := by decide
  have hgone : r.session.nextSendSample < r.session.ring.buffer.first := by omega
  have hyoung : u64Sub 3120 r.session.openedMs < r.session.config.maxSessionMs := by
    rw [hclock.opened, hclock.config, hopened, hmax]
    decide
  have hheard : u64Sub 3120 (max r.session.lastModelSpeechMs r.session.lastUserSpeechMs) <
      r.session.config.conversationTimeoutMs := by
    rw [hclock.modelSpeech, hclock.userSpeech, hclock.config, hmodel, huser, htimeout]
    decide
  obtain ⟨hlistening, hring, hkept⟩ := pump_opened_stranded hstate hgone hyoung hheard 0
  refine ⟨hlistening, ?_⟩
  rw [liveStep]
  simp only
  rw [hkept, hring, hnext, leLiveRingEnd_eq_stop (by omega)]
  omega

def slowConnectOps : List LiveOp :=
  wokenOps ++ ((List.range' 1 38).map silentFrame ++ [.pump 0 3120])

/-- The ring has overwritten the cursor when the transport opens: nothing is sent. -/
theorem wakeAudio_stranded :
    (∀ n samples, openingTransport.sendAudio n samples = true) ∧
      Admits (liveStep openingTransport) Contiguous (LiveRun.start daemonConfig) slowConnectOps ∧
      let r := run (liveStep openingTransport) (LiveRun.start daemonConfig) slowConnectOps
      r.session.state = .listening ∧
        r.session.nextSendSample ≠ leLiveRingEnd r.session.ring := by
  obtain ⟨hadmits, hwaiting⟩ := silentFrames_waiting 38 woken_waiting (by decide)
  have hwoken : Admits (liveStep openingTransport) Contiguous (LiveRun.start daemonConfig)
      wokenOps := by
    refine ⟨?_, ?_, ?_⟩
    · exact fun h => absurd rfl h
    · exact True.intro
    · exact True.intro
  refine ⟨fun _ _ => rfl, ?_, ?_⟩
  · rw [slowConnectOps, admits_append, admits_append]
    exact ⟨hwoken, hadmits, True.intro, True.intro⟩
  · rw [slowConnectOps, run_append, run_append]
    exact waiting_stranded hwaiting

end LibreEcho.Live
