import LibreEcho.Sleep.Generator
import LibreEcho.Lib.Runs
import Mathlib

/-!
The gain of a sleep sound over its frames.

An envelope is the least of three: the fade-in rises, the scheduled fade-out falls, and after a stop
a ramp falls from the gain in force. The least of the first two rises and then falls, and where it
rises after a stop the ramp is below it.
-/
namespace LibreEcho.Sleep

structure Envelope where
  totalFrames : Int
  fadeOutFrames : Int
  framesDone : Int
  stopping : Bool
  stopLeft : Int
  stopStartGain : ℚ

namespace Envelope

def rise (pos : Int) : ℚ :=
  min 1 (pos / fadeInFrames)

def programme (e : Envelope) (pos : Int) : ℚ :=
  if 0 < e.fadeOutFrames ∧ 0 < e.totalFrames then
    min (rise pos) ((e.totalFrames - pos) / e.fadeOutFrames)
  else rise pos

def ramp (e : Envelope) : ℚ :=
  if e.stopping then e.stopStartGain * e.stopLeft / fadeOutFramesMax else 1

def gain (e : Envelope) : ℚ :=
  max 0 (min (e.programme e.framesDone) e.ramp)

def ended (e : Envelope) : Prop :=
  (e.stopping = true ∧ e.stopLeft ≤ 0) ∨ (0 < e.totalFrames ∧ e.totalFrames ≤ e.framesDone)

instance (e : Envelope) : Decidable e.ended :=
  inferInstanceAs (Decidable (_ ∨ _))

def next (e : Envelope) : Envelope :=
  if e.ended then e
  else
    { e with
      framesDone := e.framesDone + 1
      stopLeft := if e.stopping then e.stopLeft - 1 else e.stopLeft }

def stop (e : Envelope) : Envelope :=
  if e.stopping then e
  else { e with stopStartGain := e.gain, stopping := true, stopLeft := fadeOutFramesMax }

/-- `frames` frames on, with none of them past the end. -/
def advance (e : Envelope) (frames : Nat) : Envelope :=
  { e with
    framesDone := e.framesDone + frames
    stopLeft := if e.stopping then e.stopLeft - frames else e.stopLeft }

end Envelope

def SleepGen.envelope (g : SleepGen) : Envelope :=
  ⟨g.totalFrames, g.fadeOutFrames, g.framesDone, g.stopping, g.stopLeft, g.stopStartGain⟩

/-! ### The programme rises and then falls -/

section Programme
variable (e : Envelope)

theorem rise_le_one (pos : Int) : Envelope.rise pos ≤ 1 :=
  min_le_left _ _

theorem rise_mono {pos pos' : Int} (later : pos ≤ pos') : Envelope.rise pos ≤ Envelope.rise pos' := by
  have numbers : (pos : ℚ) ≤ pos' := Int.cast_le.mpr later
  refine min_le_min_left 1 ?_
  simp only [fadeInFrames]
  linarith

theorem rise_nonneg {pos : Int} (started : 0 ≤ pos) : 0 ≤ Envelope.rise pos := by
  have number : (0 : ℚ) ≤ pos := Int.cast_nonneg started
  refine le_min zero_le_one ?_
  simp only [fadeInFrames]
  linarith

theorem rise_pos {pos : Int} (started : 0 < pos) : 0 < Envelope.rise pos := by
  have number : (0 : ℚ) < pos := Int.cast_pos.mpr started
  refine lt_min zero_lt_one ?_
  simp only [fadeInFrames]
  linarith

theorem programme_le_rise (pos : Int) : e.programme pos ≤ Envelope.rise pos := by
  rw [Envelope.programme]
  split
  · exact min_le_left _ _
  · exact le_refl _

theorem programme_falls {pos : Int} (below : e.programme pos ≠ Envelope.rise pos) :
    e.programme (pos + 1) ≤ e.programme pos := by
  rw [Envelope.programme] at below ⊢
  rw [Envelope.programme]
  split
  case isTrue fades =>
    rw [if_pos fades] at below
    have positive : (0 : ℚ) < e.fadeOutFrames := Int.cast_pos.mpr fades.1
    have here : min (Envelope.rise pos) ((e.totalFrames - pos) / e.fadeOutFrames) =
        (e.totalFrames - pos) / e.fadeOutFrames := by
      refine min_eq_right (le_of_not_ge fun above => below (min_eq_left above))
    rw [here]
    refine (min_le_right _ _).trans ?_
    rw [div_le_div_iff_of_pos_right positive]
    push_cast
    linarith
  case isFalse fades => exact absurd (if_neg fades) below

end Programme

/-! ### Sound envelopes -/

/-- What every run of the generator keeps: a ramp starts from the gain of the programme where the
stop was. -/
structure Envelope.Sound (e : Envelope) : Prop where
  started : 0 ≤ e.framesDone
  fade : 0 < e.totalFrames → e.fadeOutFrames ≤ e.totalFrames
  inside : 0 < e.totalFrames → e.framesDone ≤ e.totalFrames
  left : e.stopping = true → 0 ≤ e.stopLeft ∧ e.stopLeft ≤ fadeOutFramesMax
  origin : e.stopping = true → 0 ≤ e.framesDone - (fadeOutFramesMax - e.stopLeft) ∧
    e.stopStartGain = max 0 (e.programme (e.framesDone - (fadeOutFramesMax - e.stopLeft)))

section Sound
variable {e : Envelope}

theorem Envelope.Sound.next (sound : e.Sound) : e.next.Sound := by
  rw [Envelope.next]
  split
  · exact sound
  case isFalse going =>
    rw [Envelope.ended, not_or, not_and, not_and] at going
    refine ⟨?_, sound.fade, fun timed => ?_, fun stopping => ?_, fun stopping => ?_⟩
    · have := sound.started
      simp only
      omega
    · have := going.2 timed
      simp only
      omega
    · have := sound.left stopping
      have := going.1 stopping
      simp only at stopping ⊢
      rw [if_pos stopping]
      omega
    · have origin := sound.origin stopping
      simp only at stopping ⊢
      rw [if_pos stopping]
      have same : e.framesDone + 1 - (fadeOutFramesMax - (e.stopLeft - 1)) =
          e.framesDone - (fadeOutFramesMax - e.stopLeft) := by omega
      rw [same]
      exact origin

theorem gain_going (idle : ¬e.stopping = true) : e.gain = max 0 (e.programme e.framesDone) := by
  have below : e.programme e.framesDone ≤ 1 := (programme_le_rise e _).trans (rise_le_one _)
  rw [Envelope.gain, Envelope.ramp, if_neg idle, min_eq_left below]

theorem Envelope.Sound.stop (sound : e.Sound) : e.stop.Sound := by
  rw [Envelope.stop]
  split
  · exact sound
  case isFalse idle =>
    refine ⟨sound.started, sound.fade, sound.inside, fun _ => ?_, fun _ => ?_⟩
    · simp [fadeOutFramesMax]
    · simp only [sub_self, sub_zero]
      exact ⟨sound.started, gain_going idle⟩

theorem Envelope.Sound.startGain (sound : e.Sound) (stopping : e.stopping = true) :
    0 ≤ e.stopStartGain ∧ e.stopStartGain ≤ 1 := by
  obtain ⟨started, origin⟩ := sound.origin stopping
  rw [origin]
  refine ⟨le_max_left _ _, max_le zero_le_one ?_⟩
  exact (programme_le_rise e _).trans (rise_le_one _)

/-! ### After a stop -/

theorem gain_nonneg (e : Envelope) : 0 ≤ e.gain :=
  le_max_left _ _

theorem stop_gain (e : Envelope) : e.stop.gain = e.gain := by
  rw [Envelope.stop]
  split
  · rfl
  case isFalse idle =>
    have full : e.gain * (fadeOutFramesMax : Int) / (fadeOutFramesMax : Int) = e.gain :=
      mul_div_cancel_right₀ _ (by norm_num [fadeOutFramesMax])
    have going := gain_going idle
    rw [Envelope.gain, Envelope.ramp, if_pos rfl]
    simp only
    rw [full]
    change max 0 (min (e.programme e.framesDone) e.gain) = e.gain
    rw [going, max_min_distrib_left, max_eq_right (le_max_left 0 _), min_self]

theorem next_gain (sound : e.Sound) (stopping : e.stopping = true) : e.next.gain ≤ e.gain := by
  rw [Envelope.next]
  split
  · exact le_refl _
  obtain ⟨low, high⟩ := sound.startGain stopping
  obtain ⟨started, origin⟩ := sound.origin stopping
  obtain ⟨some, few⟩ := sound.left stopping
  simp only [Envelope.gain, Envelope.ramp, stopping, if_true, fadeOutFramesMax] at few origin ⊢
  have left : (e.stopLeft : ℚ) ≤ 14400 := by exact_mod_cast few
  -- The ramp only falls, and it stays below the gain it started from.
  have falls : e.stopStartGain * (e.stopLeft - 1 : Int) / (14400 : Int) ≤
      e.stopStartGain * e.stopLeft / (14400 : Int) := by
    push_cast
    linarith
  have below : e.stopStartGain * (e.stopLeft - 1 : Int) / (14400 : Int) ≤ e.stopStartGain := by
    push_cast
    nlinarith
  refine max_le_max (le_refl 0) (le_min ?_ ((min_le_right _ _).trans falls))
  by_cases rising : e.programme e.framesDone = Envelope.rise e.framesDone
  · -- Still in the fade-in, which is above the gain the ramp started from.
    have above : e.stopStartGain ≤ Envelope.rise e.framesDone := by
      rw [origin]
      refine max_le (rise_nonneg sound.started) ((programme_le_rise e _).trans (rise_mono ?_))
      omega
    rw [rising]
    exact (min_le_right _ _).trans (below.trans above)
  · exact (min_le_left _ _).trans (programme_falls e rising)

/-! ### Any number of frames -/

theorem next_stopping (e : Envelope) : e.next.stopping = e.stopping := by
  rw [Envelope.next]
  split <;> rfl

theorem iterate_sound (sound : e.Sound) (frames : Nat) : (Envelope.next^[frames] e).Sound := by
  induction frames with
  | zero => exact sound
  | succ frames ih =>
      rw [Function.iterate_succ_apply']
      exact ih.next

theorem iterate_stopping (e : Envelope) (frames : Nat) :
    (Envelope.next^[frames] e).stopping = e.stopping := by
  induction frames with
  | zero => rfl
  | succ frames ih => rw [Function.iterate_succ_apply', next_stopping, ih]

theorem iterate_gain (sound : e.Sound) (stopping : e.stopping = true) (frames : Nat) :
    (Envelope.next^[frames] e).gain ≤ e.gain := by
  induction frames with
  | zero => exact le_refl _
  | succ frames ih =>
      rw [Function.iterate_succ_apply']
      refine (next_gain (iterate_sound sound frames) ?_).trans ih
      rw [iterate_stopping, stopping]

theorem iterate_ended (ended : e.ended) (frames : Nat) : Envelope.next^[frames] e = e := by
  refine Function.iterate_fixed ?_ frames
  rw [Envelope.next, if_pos ended]

theorem iterate_advance {frames : Nat} (ramp : e.stopping = true → frames ≤ e.stopLeft)
    (timer : 0 < e.totalFrames → e.framesDone + frames ≤ e.totalFrames) :
    Envelope.next^[frames] e = e.advance frames := by
  induction frames with
  | zero =>
      cases e
      simp [Envelope.advance]
  | succ frames ih =>
      push_cast at ramp timer
      rw [Function.iterate_succ_apply',
        ih (fun stopping => by have := ramp stopping; omega)
          (fun timed => by have := timer timed; omega)]
      have going : ¬(e.advance frames).ended := by
        rw [Envelope.ended, Envelope.advance]
        rintro (⟨stopping, beyond⟩ | ⟨timed, beyond⟩)
        · have := ramp stopping
          simp only at stopping beyond
          rw [if_pos stopping] at beyond
          omega
        · have := timer timed
          simp only at beyond
          omega
      rw [Envelope.next, if_neg going]
      cases stopping : e.stopping
      · simp [Envelope.advance, stopping, add_assoc]
      · simp [Envelope.advance, stopping, add_assoc, sub_sub]

theorem iterate_past {last frames : Nat} (reach : Envelope.next^[last] e = e.advance last)
    (ended : (e.advance last).ended) (past : last ≤ frames) :
    Envelope.next^[frames] e = e.advance last := by
  obtain ⟨more, rfl⟩ := Nat.exists_eq_add_of_le' past
  rw [Function.iterate_add_apply, reach, iterate_ended ended]

theorem Envelope.Sound.spent (sound : e.Sound) (stopping : e.stopping = true) {frames : Nat}
    (enough : e.stopLeft ≤ frames) : ∃ last : Nat,
      Envelope.next^[frames] e = e.advance last ∧ (e.advance last).ended ∧
        ((last = e.stopLeft ∧ (0 < e.totalFrames → e.framesDone + e.stopLeft ≤ e.totalFrames)) ∨
          (last < e.stopLeft ∧ 0 < e.totalFrames ∧ e.framesDone + last = e.totalFrames)) := by
  have some := (sound.left stopping).1
  by_cases timed : 0 < e.totalFrames ∧ e.totalFrames < e.framesDone + e.stopLeft
  · have inside := sound.inside timed.1
    let last := (e.totalFrames - e.framesDone).toNat
    have size : (last : Int) = e.totalFrames - e.framesDone := Int.toNat_of_nonneg (by omega)
    have ended : (e.advance last).ended := by
      refine .inr ⟨timed.1, ?_⟩
      simp only [Envelope.advance]
      omega
    have reach : Envelope.next^[last] e = e.advance last :=
      iterate_advance (fun _ => by omega) (fun _ => by omega)
    exact ⟨last, iterate_past reach ended (by omega), ended,
      .inr ⟨by omega, timed.1, by omega⟩⟩
  · rw [not_and, not_lt] at timed
    let last := e.stopLeft.toNat
    have size : (last : Int) = e.stopLeft := Int.toNat_of_nonneg some
    have ended : (e.advance last).ended := by
      refine .inl ⟨stopping, ?_⟩
      simp only [Envelope.advance, stopping, if_true]
      omega
    have reach : Envelope.next^[last] e = e.advance last :=
      iterate_advance (fun _ => by omega) (fun running => by have := timed running; omega)
    exact ⟨last, iterate_past reach ended (by omega), ended, .inl ⟨size, timed⟩⟩

theorem gain_zero_of_ramp (silent : e.ramp ≤ 0) : e.gain = 0 :=
  max_eq_left ((min_le_right _ _).trans silent)

theorem gain_zero_of_programme (silent : e.programme e.framesDone ≤ 0) : e.gain = 0 :=
  max_eq_left ((min_le_left _ _).trans silent)

theorem start_pos (sound : e.Sound) (stopping : e.stopping = true) (loud : ¬e.gain = 0) :
    0 < e.stopStartGain := by
  refine lt_of_le_of_ne (sound.startGain stopping).1 fun none => loud ?_
  refine gain_zero_of_ramp ?_
  rw [Envelope.ramp, if_pos stopping, ← none, zero_mul, zero_div]

theorem Envelope.Sound.silent_iff (sound : e.Sound) (stopping : e.stopping = true) {frames : Nat}
    (enough : e.stopLeft ≤ frames) :
    (Envelope.next^[frames] e).gain = 0 ↔ 0 < e.fadeOutFrames ∨ e.totalFrames ≤ 0 ∨
      e.framesDone + e.stopLeft ≤ e.totalFrames ∨ e.gain = 0 := by
  obtain ⟨last, same, -, ⟨ramp, whole⟩ | ⟨short, timed, timer⟩⟩ := sound.spent stopping enough
  · have silent : (e.advance last).gain = 0 := by
      refine gain_zero_of_ramp ?_
      simp [Envelope.ramp, Envelope.advance, stopping, ramp]
    rw [same]
    refine iff_of_true silent ?_
    rcases lt_or_ge 0 e.totalFrames with timed | untimed
    · exact .inr (.inr (.inl (whole timed)))
    · exact .inr (.inl untimed)
  · rw [same]
    constructor
    · intro silent
      by_contra cut
      rw [not_or, not_or, not_or] at cut
      obtain ⟨unfaded, -, -, loud⟩ := cut
      have start := start_pos sound stopping loud
      have left : (0 : ℚ) < e.stopLeft - last := by
        have : (last : ℚ) < e.stopLeft := by exact_mod_cast short
        linarith
      have risen : 0 < Envelope.rise (e.framesDone + last) := by
        rw [timer]
        exact rise_pos timed
      have loudEnd : 0 < (e.advance last).gain := by
        refine lt_max_of_lt_right (lt_min ?_ ?_)
        · rw [Envelope.programme, if_neg fun fades => unfaded fades.1]
          exact risen
        · simp only [Envelope.ramp, Envelope.advance, stopping, if_true, fadeOutFramesMax]
          push_cast
          exact div_pos (mul_pos start left) (by norm_num)
      exact absurd silent loudEnd.ne'
    · rintro (fades | untimed | whole | silent)
      · refine gain_zero_of_programme ?_
        simp only [Envelope.programme, Envelope.advance, timer]
        rw [if_pos ⟨fades, timed⟩]
        refine (min_le_right _ _).trans ?_
        rw [sub_self, zero_div]
      · omega
      · omega
      · have falls := iterate_gain sound stopping frames
        rw [same, silent] at falls
        exact le_antisymm falls (gain_nonneg _)

end Sound

end LibreEcho.Sleep
