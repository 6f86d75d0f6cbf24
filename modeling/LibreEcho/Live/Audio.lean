import LibreEcho.Lib.Runs
import LibreEcho.Live.Session

/-!
The audio a conversation sends upstream.

A run feeds numbered frames, wakes and pumps one session. While the ring still
holds the cursor when the transport opens, everything fed since the wake point
reaches the transport once and in order. The cursor is fixed at the wake and
the ring keeps overwriting while the session connects: when it passes the
cursor the flush stops for good.
-/
namespace LibreEcho.Live
open RingBuffer Runs

/-- The samples handed to `send_audio` since the transport was last started. -/
def sentSamples (calls : List LeLiveCall) : List Int16 :=
  calls.foldl
    (fun sent c =>
      match c with
      | .transportStart _ => []
      | .sendAudio samples _ => sent ++ samples
      | _ => sent) []

def LeLiveSession.sent (s : LeLiveSession) : List Int16 := sentSamples s.calls

/-- The states in which `flush_pending` forwards audio. -/
def LeLiveState.serving : LeLiveState → Bool
  | .listening | .speaking | .waitingForTool => true
  | _ => false

theorem active_of_serving {state : LeLiveState} (h : state.serving = true) : state ≠ .idle := by
  rintro rfl
  exact absurd h Bool.false_ne_true

def LeLiveCall.silent : LeLiveCall → Bool
  | .transportStart _ | .sendAudio _ _ => false
  | _ => true

theorem sent_silent (s : LeLiveSession) {c : LeLiveCall} (h : c.silent = true) :
    (s.call c).sent = s.sent := by
  cases c with
  | transportStart _ | sendAudio _ _ => exact absurd h Bool.false_ne_true
  | _ => simp [LeLiveSession.sent, LeLiveSession.call, sentSamples]

theorem sent_sendAudio (s : LeLiveSession) (samples : List Int16) (ok : Bool) :
    (s.call (.sendAudio samples ok)).sent = s.sent ++ samples := by
  simp [LeLiveSession.sent, LeLiveSession.call, sentSamples]

theorem sent_transportStart (s : LeLiveSession) (ok : Bool) :
    (s.call (.transportStart ok)).sent = [] := by
  simp [LeLiveSession.sent, LeLiveSession.call, sentSamples]

/-- Ring, cursor and audio are those of `s`. -/
structure SameAudio (s t : LeLiveSession) : Prop where
  ring : t.ring = s.ring
  next : t.nextSendSample = s.nextSendSample
  sent : t.sent = s.sent

/-- The conversation of `s` is over in `t`, with no more audio sent. -/
structure Ended (s t : LeLiveSession) : Prop where
  idle : t.state = .idle
  ring : t.ring = s.ring
  sent : t.sent = s.sent

namespace SameAudio

theorem trans {s t w : LeLiveSession} (h : SameAudio s t) (k : SameAudio t w) :
    SameAudio s w :=
  ⟨k.ring.trans h.ring, k.next.trans h.next, k.sent.trans h.sent⟩

theorem ended {s t w : LeLiveSession} (h : SameAudio s t) (k : Ended t w) : Ended s w :=
  ⟨k.idle, k.ring.trans h.ring, k.sent.trans h.sent⟩

theorem call (s : LeLiveSession) {c : LeLiveCall} (h : c.silent = true) :
    SameAudio s (s.call c) :=
  ⟨rfl, rfl, sent_silent s h⟩

theorem setState (s : LeLiveSession) (state : LeLiveState) :
    SameAudio s (setState s state) := by
  unfold Live.setState
  split
  · exact ⟨rfl, rfl, rfl⟩
  · exact ⟨rfl, rfl, sent_silent _ rfl⟩

theorem thenSetState {s t : LeLiveSession} (h : SameAudio s t) (state : LeLiveState) :
    SameAudio s (Live.setState t state) :=
  h.trans (setState t state)

end SameAudio

theorem close_ended (s : LeLiveSession) (reason : LeLiveEndReason) (active : s.state ≠ .idle) :
    Ended s (leLiveSessionClose s reason) := by
  have hclosing := SameAudio.setState s .closing
  have hstopped : (((setState s .closing).call .cancelOutput).call .transportStop).sent =
      s.sent := by
    rw [sent_silent _ rfl, sent_silent _ rfl, hclosing.sent]
  unfold leLiveSessionClose
  rw [if_neg active]
  cases reason.completes with
  | true =>
      refine ⟨setState_state _ _, ?_, ?_⟩
      · exact (SameAudio.setState _ .idle).ring.trans hclosing.ring
      · exact (SameAudio.setState _ .idle).sent.trans hstopped
  | false =>
      refine ⟨setState_state _ _, ?_, ?_⟩
      · exact (SameAudio.setState _ .idle).ring.trans hclosing.ring
      · exact (SameAudio.setState _ .idle).sent.trans hstopped

theorem ended_of_same {s t : LeLiveSession} (h : SameAudio s t) (active : t.state ≠ .idle)
    (reason : LeLiveEndReason) : Ended s (leLiveSessionClose t reason) :=
  h.ended (close_ended t reason active)

theorem close_error_ended (s : LeLiveSession) (text : CText) (reason : LeLiveEndReason)
    (active : s.state ≠ .idle) :
    Ended s (leLiveSessionClose { s with lastError := text } reason) := by
  have h := close_ended { s with lastError := text } reason active
  exact ⟨h.idle, h.ring, h.sent⟩

theorem transcriptAppend_same (s : LeLiveSession) (speaker : LeLiveSpeaker) (final : Bool)
    (text : CText) :
    SameAudio s (transcriptAppend s speaker final text) ∧
      (transcriptAppend s speaker final text).state = s.state := by
  unfold transcriptAppend
  cases s.turns.getLast? with
  | none => exact ⟨⟨rfl, rfl, rfl⟩, rfl⟩
  | some last =>
      simp only
      split
      · exact ⟨⟨rfl, rfl, rfl⟩, rfl⟩
      · exact ⟨⟨rfl, rfl, rfl⟩, rfl⟩

theorem completeDelegation_outcome (E : LeLiveEnvironment) (s : LeLiveSession)
    (id result : CText) (active : s.state ≠ .idle) :
    ((completeDelegation E s id result).1 = true ∧
        SameAudio s (completeDelegation E s id result).2 ∧
        (completeDelegation E s id result).2.state = s.state) ∨
      ((completeDelegation E s id result).1 = false ∧
        Ended s (completeDelegation E s id result).2) := by
  have hcall : ∀ ok, SameAudio s (s.call (.completeDelegation id result ok)) :=
    fun _ => SameAudio.call s rfl
  simp only [completeDelegation]
  generalize E.completeDelegation s.callCount id result = ok
  cases ok with
  | true => exact Or.inl ⟨rfl, hcall true, rfl⟩
  | false =>
      have h := hcall false
      refine Or.inr ⟨rfl, ?_⟩
      apply ended_of_same
      · split
        · exact ⟨h.ring, h.next, h.sent⟩
        · exact ⟨h.ring, h.next, h.sent⟩
      · split
        · exact active
        · exact active

theorem dispatched_same (s : LeLiveSession) (tool arguments id result : CText) (ok : Bool) :
    let called := ({ s with delegationCount := s.delegationCount + 1 } : LeLiveSession).call
      (.dispatch tool arguments ok)
    let w := delegationStore
      (if ok = true then called
        else { called with delegationFailures := called.delegationFailures + 1 })
      id tool ok result
    SameAudio s w ∧ w.state = s.state := by
  have hcall := SameAudio.call { s with delegationCount := s.delegationCount + 1 }
    (c := .dispatch tool arguments ok) rfl
  cases ok with
  | true => exact ⟨⟨hcall.ring, hcall.next, hcall.sent⟩, rfl⟩
  | false => exact ⟨⟨hcall.ring, hcall.next, hcall.sent⟩, rfl⟩

theorem delivered_outcome (E : LeLiveEnvironment) {s w : LeLiveSession}
    (serving : s.state.serving = true) (h : SameAudio s w ∧ w.state = s.state)
    (id result : CText) :
    let done := completeDelegation E w id result
    let t := if done.1 = false then done.2
      else if endSessionMark <:+: result then leLiveSessionClose done.2 .stopped
      else setState done.2 .speaking
    Ended s t ∨ (SameAudio s t ∧ t.state.serving = true) := by
  have active := active_of_serving serving
  obtain ⟨hs, hw⟩ := h
  simp only
  obtain ⟨hdone, hsame, hstate⟩ | ⟨hdone, hended⟩ :=
    completeDelegation_outcome E w id result (by rw [hw]; exact active)
  · rw [if_neg (by simp [hdone])]
    split
    · exact Or.inl (hs.ended (ended_of_same hsame (by rw [hstate, hw]; exact active) _))
    · refine Or.inr ⟨(hs.trans hsame).trans (SameAudio.setState _ _), ?_⟩
      rw [setState_state]
      rfl
  · rw [if_pos hdone]
    exact Or.inl (hs.ended hended)

theorem handleDelegation_outcome (E : LeLiveEnvironment) (s : LeLiveSession)
    (id tool arguments : CText) (serving : s.state.serving = true) :
    Ended s (handleDelegation E s id tool arguments) ∨
      (SameAudio s (handleDelegation E s id tool arguments) ∧
        (handleDelegation E s id tool arguments).state.serving = true) := by
  have active := active_of_serving serving
  unfold handleDelegation
  cases delegationLookup s id with
  | some replay =>
      simp only
      obtain ⟨_, hsame, hstate⟩ | ⟨_, hended⟩ := completeDelegation_outcome E
        { s with delegationDeduped := s.delegationDeduped + 1 } replay.id replay.result active
      · exact Or.inr ⟨⟨hsame.ring, hsame.next, hsame.sent⟩, by rw [hstate]; exact serving⟩
      · exact Or.inl ⟨hended.idle, hended.ring, hended.sent⟩
  | none =>
      simp only
      generalize E.dispatch _ tool arguments = answer
      generalize (if answer.1 = false ∧ copyText leLiveArgumentMax answer.2 = [] then
        "unsupported".toList else copyText leLiveArgumentMax answer.2) = result
      exact delivered_outcome E serving (dispatched_same s tool arguments id result answer.1) id
        result

theorem connectionMs_same (s : LeLiveSession) (ms : Nat) :
    SameAudio s { s with lastConnectionMs := ms } :=
  ⟨rfl, rfl, rfl⟩

theorem markFirstAudio_same (s : LeLiveSession) (nowMs : Nat) :
    SameAudio s (markFirstAudio s nowMs) := by
  simp only [markFirstAudio]
  split
  · exact ⟨rfl, rfl, rfl⟩
  · exact ⟨rfl, rfl, rfl⟩

theorem playAudio_same (s : LeLiveSession) (rate : Nat) (samples : List Int16) (nowMs : Nat) :
    SameAudio s (playAudio s rate samples nowMs) ∧
      (playAudio s rate samples nowMs).state = .speaking := by
  have hfirst := markFirstAudio_same s nowMs
  simp only [playAudio]
  generalize markFirstAudio s nowMs = t at hfirst ⊢
  refine ⟨SameAudio.thenSetState ?_ _, setState_state _ _⟩
  exact ⟨hfirst.ring, hfirst.next, hfirst.sent⟩

theorem handleEvent_outcome (E : LeLiveEnvironment) (s : LeLiveSession) (event : LeLiveEvent)
    (nowMs : Nat) (active : s.state ≠ .idle) :
    Ended s (handleEvent E s event nowMs) ∨
      (SameAudio s (handleEvent E s event nowMs) ∧
        ((handleEvent E s event nowMs).state = s.state ∨
          (handleEvent E s event nowMs).state.serving = true)) := by
  cases event with
  | none => exact Or.inr ⟨⟨rfl, rfl, rfl⟩, Or.inl rfl⟩
  | opened =>
      have hconnected := connectionMs_same s (u64Sub nowMs s.openedMs)
      exact Or.inr ⟨hconnected.thenSetState _, Or.inr (by rw [handleEvent, setState_state]; rfl)⟩
  | transcript speaker final text =>
      obtain ⟨hsame, hstate⟩ := transcriptAppend_same s speaker final text
      right
      simp only [handleEvent]
      split
      · exact ⟨hsame, Or.inl hstate⟩
      · cases speaker <;> exact ⟨⟨hsame.ring, hsame.next, hsame.sent⟩, Or.inl hstate⟩
  | audio rate samples =>
      simp only [handleEvent]
      generalize E.outputAudio s.callCount samples rate = ok
      have hcall : SameAudio s (s.call (.outputAudio ok)) := SameAudio.call s rfl
      cases ok with
      | false =>
          left
          rw [if_pos rfl]
          apply ended_of_same
          · exact ⟨hcall.ring, hcall.next, hcall.sent⟩
          · exact active
      | true =>
          rw [if_neg (show ¬(true = false) from (by rintro ⟨⟩))]
          obtain ⟨hsame, hstate⟩ := playAudio_same (s.call (.outputAudio true)) rate samples nowMs
          exact Or.inr ⟨hcall.trans hsame, Or.inr (by rw [hstate]; rfl)⟩
  | delegation id tool arguments =>
      have h := SameAudio.setState s .waitingForTool
      have hserving : (setState s .waitingForTool).state.serving = true := by
        rw [setState_state]
        rfl
      obtain hended | ⟨hsame, hstate⟩ := handleDelegation_outcome E _ id tool arguments hserving
      · exact Or.inl (h.ended hended)
      · exact Or.inr ⟨h.trans hsame, Or.inr hstate⟩
  | outputDone =>
      have h := SameAudio.setState { s with lastModelSpeechMs := nowMs } .listening
      exact Or.inr ⟨⟨h.ring, h.next, h.sent⟩, Or.inr (by rw [handleEvent, setState_state]; rfl)⟩
  | inputStarted => exact Or.inr ⟨⟨rfl, rfl, rfl⟩, Or.inl rfl⟩
  | closed => exact Or.inl (close_ended s _ active)
  | error detail => exact Or.inl (close_error_ended s _ _ active)

theorem observeInput_same (s : LeLiveSession) (samples : List Int16) :
    SameAudio s (observeInput s samples) ∧ (observeInput s samples).state = s.state := by
  simp only [observeInput]
  generalize frameRms samples = rms
  split <;> split <;> (try split) <;> exact ⟨⟨rfl, rfl, rfl⟩, rfl⟩

theorem raiseSpeechPeak_same (s : LeLiveSession) (rms : Nat) :
    SameAudio s (raiseSpeechPeak s rms) ∧ (raiseSpeechPeak s rms).state = s.state := by
  simp only [raiseSpeechPeak]
  split
  · exact ⟨⟨rfl, rfl, rfl⟩, rfl⟩
  · exact ⟨⟨rfl, rfl, rfl⟩, rfl⟩

theorem bargeIn_same (s : LeLiveSession) (nowMs : Nat) : SameAudio s (bargeIn s nowMs) := by
  apply SameAudio.thenSetState
  refine ⟨rfl, rfl, ?_⟩
  exact (sent_silent _ rfl).trans (sent_silent _ rfl)

theorem checkBargeIn_same (s : LeLiveSession) (samples : List Int16) (nowMs : Nat) :
    SameAudio s (checkBargeIn s samples nowMs) ∧
      ((checkBargeIn s samples nowMs).state = s.state ∨
        s.state = .speaking ∧ (checkBargeIn s samples nowMs).state = .listening) := by
  simp only [checkBargeIn]
  split
  · exact ⟨⟨rfl, rfl, rfl⟩, Or.inl rfl⟩
  next hspeaking =>
    obtain ⟨hsame, hstate⟩ := raiseSpeechPeak_same s (frameRms samples)
    generalize raiseSpeechPeak s (frameRms samples) = t at hsame hstate ⊢
    split
    · exact ⟨⟨hsame.ring, hsame.next, hsame.sent⟩, Or.inl hstate⟩
    · split
      · exact ⟨⟨hsame.ring, hsame.next, hsame.sent⟩, Or.inl hstate⟩
      · exact ⟨hsame.trans (bargeIn_same t nowMs),
          Or.inr ⟨not_not.mp hspeaking, setState_state _ _⟩⟩

theorem observeFrame_same (s : LeLiveSession) (samples : List Int16) (nowMs : Nat) :
    SameAudio s (observeFrame s samples nowMs) ∧
      ((observeFrame s samples nowMs).state = s.state ∨
        s.state = .speaking ∧ (observeFrame s samples nowMs).state = .listening) := by
  have hbarge : ∀ t, t = (if leLiveSessionActive s then checkBargeIn s samples nowMs else s) →
      SameAudio s t ∧ (t.state = s.state ∨ s.state = .speaking ∧ t.state = .listening) := by
    rintro t rfl
    split
    · exact checkBargeIn_same s samples nowMs
    · exact ⟨⟨rfl, rfl, rfl⟩, Or.inl rfl⟩
  simp only [observeFrame]
  generalize (if leLiveSessionActive s then checkBargeIn s samples nowMs else s) = t at hbarge ⊢
  obtain ⟨hsame, hstate⟩ := hbarge t rfl
  split
  · obtain ⟨hobserve, hkept⟩ := observeInput_same t samples
    rw [hkept]
    exact ⟨hsame.trans hobserve, hstate⟩
  · split
    · exact ⟨⟨hsame.ring, hsame.next, hsame.sent⟩, hstate⟩
    · exact ⟨hsame, hstate⟩

end LibreEcho.Live
