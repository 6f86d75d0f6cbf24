import LibreEcho.Sleep.Envelope
import Mathlib

/-!
Stopping a sleep sound, and playing one to its end.

The frames of a generator walk its envelope, so what the gain does after a stop is what the envelope
does, and a fill of any size is that many frames.
-/
namespace LibreEcho.Sleep

def gainNow (g : SleepGen) : ℚ :=
  leSleepGain g g.framesDone

/-! ### Frames walk the envelope -/

section Frames
variable (m : Libm) (g : SleepGen)

theorem leSleepNoise_kept (colour : Int) :
    (leSleepNoise g colour).2.envelope = g.envelope ∧
      (leSleepNoise g colour).2.active = g.active := by
  rw [leSleepNoise]
  split
  · exact ⟨rfl, rfl⟩
  · split <;> exact ⟨rfl, rfl⟩

theorem leSleepBedNoise_kept : (leSleepBedNoise g).2.envelope = g.envelope ∧
    (leSleepBedNoise g).2.active = g.active := by
  rw [leSleepBedNoise]
  split <;> exact ⟨rfl, rfl⟩

theorem sourceValue_kept : (sourceValue m g).2.envelope = g.envelope ∧
    (sourceValue m g).2.active = g.active := by
  rw [sourceValue]
  split
  · split
    · exact leSleepBedNoise_kept g
    · exact ⟨rfl, rfl⟩
  · exact leSleepNoise_kept g _

theorem fadeIn_rise (pos : Int) :
    (if pos < fadeInFrames then (pos : ℚ) / fadeInFrames else 1) = Envelope.rise pos := by
  rw [Envelope.rise]
  by_cases early : pos < fadeInFrames
  · have number : (pos : ℚ) < fadeInFrames := by exact_mod_cast early
    simp only [fadeInFrames] at number
    rw [if_pos early]
    simp only [fadeInFrames]
    exact (min_eq_right (by push_cast at number ⊢; linarith)).symm
  · have number : (fadeInFrames : ℚ) ≤ pos := by exact_mod_cast not_lt.mp early
    simp only [fadeInFrames] at number
    rw [if_neg early]
    simp only [fadeInFrames]
    exact (min_eq_left (by push_cast at number ⊢; linarith)).symm

theorem fadeOut_programme (pos : Int) :
    (if 0 < g.fadeOutFrames ∧ 0 < g.totalFrames then
      if g.totalFrames - pos < g.fadeOutFrames then
        if ((g.totalFrames - pos : Int) : ℚ) / g.fadeOutFrames < Envelope.rise pos
        then ((g.totalFrames - pos : Int) : ℚ) / g.fadeOutFrames else Envelope.rise pos
      else Envelope.rise pos
    else Envelope.rise pos) = g.envelope.programme pos := by
  by_cases fades : 0 < g.fadeOutFrames ∧ 0 < g.totalFrames
  · have positive : (0 : ℚ) < g.fadeOutFrames := Int.cast_pos.mpr fades.1
    have programme : g.envelope.programme pos =
        min (Envelope.rise pos) ((g.totalFrames - pos) / g.fadeOutFrames) := if_pos fades
    rw [programme, if_pos fades]
    split
    · rw [← min_def_lt, min_comm]
      push_cast
      rfl
    case isFalse early =>
      refine (min_eq_left ((rise_le_one pos).trans ?_)).symm
      rw [one_le_div positive]
      exact_mod_cast not_lt.mp early
  · rw [if_neg fades]
    exact (if_neg fades).symm

theorem ramp_envelope (gain : ℚ) (low : gain ≤ 1) (left : g.stopping = true → 0 ≤ g.stopLeft) :
    (if g.stopping then
      if (if g.stopLeft ≤ 0 then 0 else g.stopStartGain * g.stopLeft / fadeOutFramesMax) < gain
      then (if g.stopLeft ≤ 0 then 0 else g.stopStartGain * g.stopLeft / fadeOutFramesMax) else gain
    else gain) = min gain g.envelope.ramp := by
  by_cases stopping : g.stopping = true
  · have ramp : (if g.stopLeft ≤ 0 then 0 else g.stopStartGain * g.stopLeft / fadeOutFramesMax) =
        g.envelope.ramp := by
      have fall : g.envelope.ramp = g.stopStartGain * g.stopLeft / fadeOutFramesMax :=
        if_pos stopping
      rw [fall]
      split
      case isTrue beyond =>
        rw [le_antisymm beyond (left stopping), Int.cast_zero, mul_zero, zero_div]
      · rfl
    rw [if_pos stopping, ramp, ← min_def_lt, min_comm]
  · have full : g.envelope.ramp = 1 := if_neg stopping
    rw [if_neg stopping, full, min_eq_left low]

theorem leSleepGain_envelope (sound : g.envelope.Sound) : gainNow g = g.envelope.gain := by
  have low : g.envelope.programme g.framesDone ≤ 1 :=
    (programme_le_rise _ _).trans (rise_le_one _)
  have ramp := ramp_envelope g _ low fun stopping => (sound.left stopping).1
  rw [gainNow, leSleepGain, Envelope.gain]
  simp only [fadeIn_rise, fadeOut_programme]
  rw [ramp]
  have capped : min (g.envelope.programme g.framesDone) g.envelope.ramp ≤ 1 :=
    (min_le_left _ _).trans low
  have floor : (if min (g.envelope.programme g.framesDone) g.envelope.ramp < 0 then 0
      else min (g.envelope.programme g.framesDone) g.envelope.ramp) =
      max 0 (min (g.envelope.programme g.framesDone) g.envelope.ramp) := by
    rw [max_comm, max_def_lt]
  rw [floor, if_neg (not_lt.mpr (max_le zero_le_one capped))]
  rfl

theorem requestStop_envelope (sound : g.envelope.Sound) :
    (leSleepGenRequestStop g).envelope = g.envelope.stop := by
  have gain := leSleepGain_envelope g sound
  rw [gainNow] at gain
  rw [leSleepGenRequestStop, Envelope.stop]
  split
  case isTrue stopping => exact (if_pos stopping).symm
  case isFalse idle =>
    rw [gain]
    exact (if_neg idle).symm

theorem renderFrame_none : renderFrame m g = none ↔ g.envelope.ended := by
  rw [renderFrame, Envelope.ended]
  simp only [SleepGen.envelope]
  split
  case isTrue beyond => exact iff_of_true rfl (.inl beyond)
  case isFalse going =>
    split
    case isTrue beyond => exact iff_of_true rfl (.inr beyond)
    case isFalse running => exact iff_of_false (by simp) (by simp only [going, running, or_self]; exact id)

theorem renderFrame_some {frame : Int × Int} {g' : SleepGen}
    (rendered : renderFrame m g = some (frame, g')) :
    g'.envelope = g.envelope.next ∧ g'.active = g.active := by
  have going : ¬g.envelope.ended := by
    rw [← renderFrame_none m, rendered]
    exact Option.some_ne_none _
  obtain ⟨ramp, timer⟩ : ¬(g.stopping = true ∧ g.stopLeft ≤ 0) ∧
      ¬(0 < g.totalFrames ∧ g.totalFrames ≤ g.framesDone) := not_or.mp going
  obtain ⟨kept, active⟩ := sourceValue_kept m g
  rw [renderFrame, if_neg ramp, if_neg timer] at rendered
  obtain ⟨-, rfl⟩ := Prod.mk.inj (Option.some.inj rendered)
  rw [Envelope.next, if_neg going]
  simp only [SleepGen.envelope, Envelope.mk.injEq] at kept ⊢
  exact ⟨⟨kept.1, kept.2.1, trivial, kept.2.2.2.1, rfl, kept.2.2.2.2.2⟩, active⟩

theorem fillLoop_envelope (frames : Nat) :
    (fillLoop m frames g).2.envelope = Envelope.next^[frames] g.envelope ∧
      (fillLoop m frames g).2.active = g.active := by
  induction frames generalizing g with
  | zero => exact ⟨rfl, rfl⟩
  | succ frames ih =>
      rw [fillLoop, Function.iterate_succ_apply]
      cases rendered : renderFrame m g with
      | none =>
          have ended := (renderFrame_none m g).mp rendered
          have still : g.envelope.next = g.envelope := if_pos ended
          rw [still, iterate_ended ended]
          exact ⟨rfl, rfl⟩
      | some rendering =>
          obtain ⟨frame, g'⟩ := rendering
          obtain ⟨walk, active⟩ := renderFrame_some m g rendered
          rw [← walk, ← active]
          exact ih g'

theorem fillLoop_empty (frames : Nat) :
    (fillLoop m frames g).1 = [] ↔ frames = 0 ∨ g.envelope.ended := by
  cases frames with
  | zero => exact iff_of_true rfl (.inl rfl)
  | succ frames =>
      rw [← renderFrame_none m, fillLoop]
      cases renderFrame m g with
      | none => exact iff_of_true rfl (.inr rfl)
      | some rendering => exact iff_of_false (List.cons_ne_nil _ _) (by simp)

theorem fillLoop_add (front back : Nat) :
    fillLoop m (front + back) g =
      ((fillLoop m front g).1 ++ (fillLoop m back (fillLoop m front g).2).1,
        (fillLoop m back (fillLoop m front g).2).2) := by
  induction front generalizing g with
  | zero => rw [Nat.zero_add, fillLoop]; rfl
  | succ front ih =>
      rw [Nat.succ_add, fillLoop, fillLoop]
      cases rendered : renderFrame m g with
      | none =>
          cases back with
          | zero => rfl
          | succ back =>
              simp only [fillLoop]
              rw [rendered]
              rfl
      | some rendering =>
          obtain ⟨frame, g'⟩ := rendering
          simp only
          rw [ih g']
          rfl

theorem fillLoop_length (sound : g.envelope.Sound) (playing : g.stopping = false)
    (timed : 0 < g.totalFrames) (frames : Nat) :
    ((fillLoop m frames g).1.length : Int) = min (frames : Int) (g.totalFrames - g.framesDone) := by
  induction frames generalizing g with
  | zero =>
      have inside : g.framesDone ≤ g.totalFrames := sound.inside timed
      simp only [fillLoop, List.length_nil, Nat.cast_zero]
      omega
  | succ frames ih =>
      rw [fillLoop]
      cases rendered : renderFrame m g with
      | none =>
          have inside : g.framesDone ≤ g.totalFrames := sound.inside timed
          have ended := (renderFrame_none m g).mp rendered
          have beyond : g.totalFrames ≤ g.framesDone := by
            obtain ⟨stopping, -⟩ | ⟨-, beyond⟩ := ended
            · exact absurd stopping (by simp [SleepGen.envelope, playing])
            · exact beyond
          simp only [List.length_nil, Nat.cast_zero]
          omega
      | some rendering =>
          obtain ⟨frame, g'⟩ := rendering
          have walk := (renderFrame_some m g rendered).1
          have going : ¬g.envelope.ended := by
            rw [← renderFrame_none m, rendered]
            exact Option.some_ne_none _
          have sound' : g'.envelope.Sound := walk ▸ sound.next
          rw [Envelope.next, if_neg going] at walk
          simp only [SleepGen.envelope, Envelope.mk.injEq] at walk
          obtain ⟨total, -, done, stopping, -, -⟩ := walk
          have rest := ih g' sound' (stopping.trans playing) (total ▸ timed)
          simp only [List.length_cons]
          push_cast
          omega

end Frames

/-! ### Runs -/

inductive SleepCall where
  | fill (frames : Nat)
  | requestStop

def framesAsked : List SleepCall → Nat
  | [] => 0
  | .fill frames :: calls => frames + framesAsked calls
  | .requestStop :: calls => framesAsked calls

def sleepStep (m : Libm) (g : SleepGen) : SleepCall → SleepGen
  | .fill frames => (leSleepGenFill m g frames).2
  | .requestStop => leSleepGenRequestStop g

def leSleepFills (m : Libm) : List Nat → SleepGen → List (Int × Int) × SleepGen
  | [], g => ([], g)
  | frames :: fills, g =>
      let (out, g) := leSleepGenFill m g frames
      (out ++ (leSleepFills m fills g).1, (leSleepFills m fills g).2)

structure SleepGen.Armed (g : SleepGen) : Prop where
  active : g.active = true
  sound : g.envelope.Sound

theorem fade_inside (total fade : Int) (timed : 0 < total) :
    (if 0 < total ∧ total < fade then total else fade) ≤ total := by
  split <;> omega

theorem leSleepGenInit_fresh {source bed tempoBpm level seconds fadeSeconds : Int} {seed : UInt32}
    {g : SleepGen}
    (accepted : leSleepGenInit source bed tempoBpm level seconds fadeSeconds seed = some g) :
    g.Armed ∧ g.stopping = false ∧ g.framesDone = 0 := by
  rw [leSleepGenInit] at accepted
  split at accepted
  · exact absurd accepted.symm (Option.some_ne_none g)
  · obtain rfl := Option.some.inj accepted
    refine ⟨⟨rfl, ⟨le_refl _, fun timed => ?_, fun timed => ?_, fun stopping => ?_,
      fun stopping => ?_⟩⟩, rfl, rfl⟩
    · exact fade_inside _ _ timed
    · exact le_of_lt timed
    · exact absurd stopping Bool.false_ne_true
    · exact absurd stopping Bool.false_ne_true

section Runs
variable (m : Libm) {g : SleepGen}

theorem SleepGen.Armed.stop (armed : g.Armed) : (leSleepGenRequestStop g).Armed := by
  refine ⟨?_, ?_⟩
  · rw [leSleepGenRequestStop]
    split <;> exact armed.active
  · rw [requestStop_envelope g armed.sound]
    exact armed.sound.stop

theorem SleepGen.Armed.step (armed : g.Armed) (call : SleepCall) : (sleepStep m g call).Armed := by
  cases call with
  | fill frames =>
      obtain ⟨walk, active⟩ := fillLoop_envelope m g frames
      rw [sleepStep, leSleepGenFill, if_pos armed.active]
      exact ⟨active.trans armed.active, walk ▸ iterate_sound armed.sound frames⟩
  | requestStop => exact armed.stop

theorem SleepGen.Armed.run (armed : g.Armed) (calls : List SleepCall) :
    (Runs.run (sleepStep m) g calls).Armed := by
  induction calls generalizing g with
  | nil => exact armed
  | cons call calls ih => exact ih (armed.step m call)

theorem run_envelope (armed : g.Armed) (stopping : g.stopping = true) (calls : List SleepCall) :
    (Runs.run (sleepStep m) g calls).envelope =
      Envelope.next^[framesAsked calls] g.envelope := by
  induction calls generalizing g with
  | nil => rfl
  | cons call calls ih =>
      rw [Runs.run_cons]
      cases call with
      | fill frames =>
          have walk : (sleepStep m g (.fill frames)).envelope =
              Envelope.next^[frames] g.envelope := by
            rw [sleepStep, leSleepGenFill, if_pos armed.active]
            exact (fillLoop_envelope m g frames).1
          have still : (sleepStep m g (.fill frames)).stopping = true := by
            change (sleepStep m g (.fill frames)).envelope.stopping = true
            rw [walk, iterate_stopping]
            exact stopping
          rw [ih (armed.step m _) still, walk, framesAsked, ← Function.iterate_add_apply,
            Nat.add_comm]
      | requestStop =>
          have same : sleepStep m g .requestStop = g := if_pos stopping
          rw [same, framesAsked]
          exact ih armed stopping

/-! ### Every stop -/

def Finished (g : SleepGen) : Prop :=
  ∀ frames, (leSleepGenFill m g frames).1 = []

structure FadesOut (g : SleepGen) : Prop where
  starts : gainNow (leSleepGenRequestStop g) ≤ gainNow g
  falls : ∀ calls later : List SleepCall,
    gainNow (Runs.run (sleepStep m) (leSleepGenRequestStop g) (calls ++ later)) ≤
      gainNow (Runs.run (sleepStep m) (leSleepGenRequestStop g) calls)
  /-- A sound that is over has nothing to fade. -/
  silent : Finished m g ∨ ∀ calls : List SleepCall, fadeOutFramesMax ≤ framesAsked calls →
    gainNow (Runs.run (sleepStep m) (leSleepGenRequestStop g) calls) = 0
  finished : ∀ calls : List SleepCall, fadeOutFramesMax ≤ framesAsked calls →
    Finished m (Runs.run (sleepStep m) (leSleepGenRequestStop g) calls)

/-- A timer without a fade of its own leaves the ramp the frames it needs. -/
def RoomToFade (g : SleepGen) : Prop :=
  0 < g.fadeOutFrames ∨ g.totalFrames ≤ g.framesDone ∨
    g.framesDone + (if g.stopping then g.stopLeft else fadeOutFramesMax) ≤ g.totalFrames ∨
    gainNow g = 0

theorem roomToFade_envelope (sound : g.envelope.Sound) :
    RoomToFade g ↔ 0 < g.envelope.fadeOutFrames ∨
      g.envelope.totalFrames ≤ g.envelope.framesDone ∨
      g.envelope.framesDone +
          (if g.envelope.stopping then g.envelope.stopLeft else fadeOutFramesMax) ≤
        g.envelope.totalFrames ∨
      g.envelope.gain = 0 := by
  rw [RoomToFade, leSleepGain_envelope g sound]
  exact Iff.rfl

theorem SleepGen.Armed.finished_iff (armed : g.Armed) : Finished m g ↔ g.envelope.ended := by
  constructor
  · intro finished
    have empty := finished 1
    rw [leSleepGenFill, if_pos armed.active, fillLoop_empty] at empty
    exact empty.resolve_left one_ne_zero
  · intro ended frames
    rw [leSleepGenFill, if_pos armed.active, fillLoop_empty]
    exact .inr ended

theorem requestStop_stopping (g : SleepGen) : (leSleepGenRequestStop g).stopping = true := by
  rw [leSleepGenRequestStop]
  split
  case isTrue stopping => exact stopping
  case isFalse => rfl

theorem stop_left (e : Envelope) :
    e.stop.stopLeft = (if e.stopping then e.stopLeft else fadeOutFramesMax) ∧
      e.stop.framesDone = e.framesDone ∧ e.stop.totalFrames = e.totalFrames ∧
      e.stop.fadeOutFrames = e.fadeOutFrames := by
  rw [Envelope.stop]
  split <;> exact ⟨rfl, rfl, rfl, rfl⟩

theorem SleepGen.Armed.silent_iff (armed : g.Armed) {calls : List SleepCall}
    (enough : fadeOutFramesMax ≤ framesAsked calls) :
    gainNow (Runs.run (sleepStep m) (leSleepGenRequestStop g) calls) = 0 ↔
      0 < g.fadeOutFrames ∨ g.totalFrames ≤ 0 ∨
        g.framesDone + (if g.stopping then g.stopLeft else fadeOutFramesMax) ≤ g.totalFrames ∨
        gainNow g = 0 := by
  have stopped := armed.stop
  have stopping := requestStop_stopping g
  obtain ⟨left, done, total, fade⟩ := stop_left g.envelope
  rw [leSleepGain_envelope _ (stopped.run m calls).sound, run_envelope m stopped stopping,
    stopped.sound.silent_iff stopping ((stopped.sound.left stopping).2.trans enough),
    requestStop_envelope g armed.sound, stop_gain, ← leSleepGain_envelope g armed.sound,
    left, done, total, fade]
  rfl

theorem SleepGen.Armed.over (armed : g.Armed) (ended : g.envelope.ended) :
    gainNow g = 0 ∨ 0 < g.totalFrames ∧ g.totalFrames ≤ g.framesDone := by
  obtain ⟨stopping, beyond⟩ | timer := ended
  · have left : g.envelope.stopLeft = 0 := le_antisymm beyond (armed.sound.left stopping).1
    refine .inl ?_
    rw [leSleepGain_envelope g armed.sound]
    refine gain_zero_of_ramp ?_
    rw [Envelope.ramp, if_pos stopping, left, Int.cast_zero, mul_zero, zero_div]
  · exact .inr timer

theorem SleepGen.Armed.fadesOut_iff (armed : g.Armed) : FadesOut m g ↔ RoomToFade g := by
  have stopped := armed.stop
  have stopping := requestStop_stopping g
  constructor
  · rintro ⟨-, -, finished | silent, -⟩
    · obtain silent | timer := armed.over ((armed.finished_iff m).mp finished)
      · exact .inr (.inr (.inr silent))
      · exact .inr (.inl timer.2)
    · have fades := silent [.fill 14400] (le_refl _)
      rw [armed.silent_iff m (le_refl _)] at fades
      obtain fade | untimed | room := fades
      · exact .inl fade
      · exact .inr (.inl (untimed.trans armed.sound.started))
      · exact .inr (.inr room)
  · intro room
    refine ⟨?_, fun calls later => ?_, ?_, fun calls enough => ?_⟩
    · rw [leSleepGain_envelope _ stopped.sound, leSleepGain_envelope g armed.sound,
        requestStop_envelope g armed.sound, stop_gain]
    · have before := stopped.run m calls
      have still : (Runs.run (sleepStep m) (leSleepGenRequestStop g) calls).stopping = true := by
        change (Runs.run (sleepStep m) (leSleepGenRequestStop g) calls).envelope.stopping = true
        rw [run_envelope m stopped stopping, iterate_stopping]
        exact stopping
      rw [Runs.run_append, leSleepGain_envelope _ (before.run m later).sound,
        leSleepGain_envelope _ before.sound, run_envelope m before still]
      exact iterate_gain before.sound still _
    · by_cases beyond : g.totalFrames ≤ g.framesDone ∧ 0 < g.totalFrames
      · exact .inl ((armed.finished_iff m).mpr (.inr beyond.symm))
      · refine .inr fun calls enough => (armed.silent_iff m enough).mpr ?_
        obtain fade | past | room := room
        · exact .inl fade
        · exact .inr (.inl (not_lt.mp fun timed => beyond ⟨past, timed⟩))
        · exact .inr (.inr room)
    · have after := stopped.run m calls
      obtain ⟨last, same, ended, -⟩ := stopped.sound.spent stopping
        ((stopped.sound.left stopping).2.trans enough)
      rw [after.finished_iff m, run_envelope m stopped stopping, same]
      exact ended

/-! ### The whole sound -/

theorem leSleepFills_sum (active : g.active = true) (fills : List Nat) :
    leSleepFills m fills g = fillLoop m fills.sum g := by
  induction fills generalizing g with
  | nil => rfl
  | cons frames fills ih =>
      have kept := (fillLoop_envelope m g frames).2.trans active
      rw [leSleepFills, leSleepGenFill, if_pos active, List.sum_cons, fillLoop_add]
      simp only
      rw [ih kept]

theorem fillLoop_take (sound : g.envelope.Sound) (playing : g.stopping = false)
    (timed : 0 < g.totalFrames) (first : g.framesDone = 0) (frames : Nat) :
    (fillLoop m frames g).1 = (fillLoop m g.totalFrames.toNat g).1.take frames := by
  have length := fillLoop_length m g sound playing timed
  rcases le_total frames g.totalFrames.toNat with short | past
  · obtain ⟨rest, whole⟩ := Nat.exists_eq_add_of_le short
    have size : (fillLoop m frames g).1.length = frames := by
      have := length frames
      omega
    rw [whole, fillLoop_add]
    simp only
    rw [List.take_append_of_le_length size.ge, List.take_of_length_le size.le]
  · obtain ⟨more, rfl⟩ := Nat.exists_eq_add_of_le past
    have size := length g.totalFrames.toNat
    have beyond : (fillLoop m more (fillLoop m g.totalFrames.toNat g).2).1 = [] := by
      rw [fillLoop_empty, (fillLoop_envelope m g _).1, iterate_advance]
      · refine .inr (.inr ⟨timed, ?_⟩)
        simp only [Envelope.advance, SleepGen.envelope]
        omega
      · intro stopping
        exact absurd stopping (by simp [SleepGen.envelope, playing])
      · intro _
        simp only [SleepGen.envelope]
        omega
    rw [fillLoop_add, beyond, List.append_nil, List.take_of_length_le]
    omega

/-- Every stop of a run fades out exactly where the timer leaves room for it; a sound that is not
stopped plays its frames, however they are asked for. -/
theorem stopping_law {source bed tempoBpm level seconds fadeSeconds : Int} {seed : UInt32}
    (accepted : leSleepGenInit source bed tempoBpm level seconds fadeSeconds seed = some g) :
    (∀ calls : List SleepCall, FadesOut m (Runs.run (sleepStep m) g calls) ↔
      RoomToFade (Runs.run (sleepStep m) g calls)) ∧
    (0 < g.totalFrames → ∃ sound : List (Int × Int), (sound.length : Int) = g.totalFrames ∧
      ∀ fills : List Nat, (leSleepFills m fills g).1 = sound.take fills.sum) := by
  obtain ⟨armed, playing, first⟩ := leSleepGenInit_fresh accepted
  refine ⟨fun calls => (armed.run m calls).fadesOut_iff m, fun timed => ?_⟩
  refine ⟨(fillLoop m g.totalFrames.toNat g).1, ?_, fun fills => ?_⟩
  · rw [fillLoop_length m g armed.sound playing timed, first]
    omega
  · rw [leSleepFills_sum m armed.active]
    exact fillLoop_take m armed.sound playing timed first _

end Runs

/-! ### A second of white noise without a fade -/

def secondOfNoise : SleepGen :=
  (leSleepGenInit 1 0 60 100 1 0 1).get rfl

theorem secondOfNoise_accepted : leSleepGenInit 1 0 60 100 1 0 1 = some secondOfNoise :=
  (Option.some_get rfl).symm

theorem secondOfNoise_envelope : secondOfNoise.envelope = ⟨48000, 0, 0, false, 0, 0⟩ := rfl

theorem stopping_law_second : ∃ g : SleepGen, leSleepGenInit 1 0 60 100 1 0 1 = some g ∧
    ∀ m : Libm, (∀ calls : List SleepCall, FadesOut m (Runs.run (sleepStep m) g calls) ↔
      RoomToFade (Runs.run (sleepStep m) g calls)) ∧
    ∃ sound : List (Int × Int), (sound.length : Int) = 48000 ∧
      ∀ fills : List Nat, (leSleepFills m fills g).1 = sound.take fills.sum := by
  refine ⟨secondOfNoise, secondOfNoise_accepted, fun m => ?_⟩
  obtain ⟨stops, plays⟩ := stopping_law m secondOfNoise_accepted
  exact ⟨stops, plays (by decide)⟩

/-- Stopped ten frames before its end it breaks off near full scale. -/
theorem stopping_law_cut : ∃ g : SleepGen, leSleepGenInit 1 0 60 100 1 0 1 = some g ∧
    ∀ m : Libm, ¬FadesOut m (Runs.run (sleepStep m) g [.fill 47990]) := by
  refine ⟨secondOfNoise, secondOfNoise_accepted, fun m fades => ?_⟩
  have armed := (leSleepGenInit_fresh secondOfNoise_accepted).1
  have late := armed.run m [.fill 47990]
  have walk : (Runs.run (sleepStep m) secondOfNoise [.fill 47990]).envelope =
      ⟨48000, 0, 47990, false, 0, 0⟩ := by
    rw [Runs.run_cons, Runs.run_nil, sleepStep, leSleepGenFill, if_pos armed.active,
      (fillLoop_envelope m secondOfNoise 47990).1, secondOfNoise_envelope, iterate_advance]
    · rfl
    · exact fun stopping => absurd stopping Bool.false_ne_true
    · exact fun _ => by decide
  rw [late.fadesOut_iff m, roomToFade_envelope late.sound, walk] at fades
  obtain fade | past | room | silent := fades
  · exact absurd fade (by decide)
  · exact absurd past (by decide)
  · exact absurd room (by decide)
  · have loud : (0 : ℚ) < Envelope.rise 47990 := rise_pos (by decide)
    rw [gain_going Bool.false_ne_true] at silent
    exact absurd silent (lt_max_of_lt_right loud).ne'

end LibreEcho.Sleep
