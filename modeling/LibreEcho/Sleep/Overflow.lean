import LibreEcho.Sleep.Stopping

/-!
The signed arithmetic of the sleep sounds where a `long` has 32 bits.

Each function lists the results of its signed operations beside the exact model of what it computes.
Until one of them leaves its type the exact model is the program's; from there the program has no
meaning, so a run is good as long as all of them fit.
-/
namespace LibreEcho.Sleep
open Truncation

structure SignedResult where
  bits : Nat
  value : Int

def SignedResult.Fits (result : SignedResult) : Prop :=
  -2 ^ (result.bits - 1) ≤ result.value ∧ result.value < 2 ^ (result.bits - 1)

def long (value : Int) : SignedResult := ⟨32, value⟩
def int16 (value : Int) : SignedResult := ⟨16, value⟩

def longMax : Int := 2147483647

def AllFit (results : List SignedResult) : Prop :=
  ∀ result ∈ results, result.Fits

/-! ### The signed operations -/

def initResults (seconds fadeSeconds : Int) : List SignedResult :=
  let seconds := if seconds < 0 then 0 else seconds
  let fadeSeconds := clampInt 0 maxFadeSeconds fadeSeconds
  (if 0 < seconds then [long (seconds * sleepRate)] else []) ++ [long (fadeSeconds * sleepRate)]

def gainResults (g : SleepGen) (pos : Int) : List SignedResult :=
  if 0 < g.fadeOutFrames ∧ 0 < g.totalFrames then [long (g.totalFrames - pos)] else []

def beatTimeResults (g : SleepGen) : List SignedResult :=
  [long (beatLength g), long (g.framesDone.tmod (beatLength g))]

/-- The cast of a random word to `int32_t` wraps, so it is not among them. -/
def sourceResults (g : SleepGen) : List SignedResult :=
  if g.source = sourceHeartbeat then
    beatTimeResults g ++ (if g.bed ≠ bedNone then beatTimeResults g else [])
  else []

def remainingResults (g : SleepGen) : List SignedResult :=
  if g.totalFrames < 0 then []
  else if g.framesDone < g.totalFrames then [long (g.totalFrames - g.framesDone)]
  else []

def requestStopResults (g : SleepGen) : List SignedResult :=
  if g.stopping then [] else gainResults g g.framesDone

section Results
variable (m : Libm)

def frameResults (g : SleepGen) : List SignedResult :=
  match renderFrame m g with
  | none => []
  | some ((left, right), _) =>
      sourceResults g ++ gainResults g g.framesDone ++ [int16 left, int16 right] ++
        [long (g.framesDone + 1)] ++ (if g.stopping then [long (g.stopLeft - 1)] else [])

def fillResults : Nat → SleepGen → List SignedResult
  | 0, _ => []
  | frames + 1, g =>
      frameResults m g ++
        match renderFrame m g with
        | none => []
        | some (_, g) => fillResults frames g

def callResults (g : SleepGen) : SleepCall → List SignedResult
  | .fill frames => if g.active then fillResults m frames g else []
  | .requestStop => requestStopResults g

def runResults : SleepGen → List SleepCall → List SignedResult
  | _, [] => []
  | g, call :: calls => callResults m g call ++ runResults (sleepStep m g call) calls

end Results

/-- The frames an unlimited sound plays: all it is asked for, after a stop as far as the ramp
goes. -/
def playedFrames : List SleepCall → Nat
  | [] => 0
  | .fill frames :: calls => frames + playedFrames calls
  | .requestStop :: calls => min (framesAsked calls) 14400

/-! ### What fits -/

theorem allFit_nil : AllFit [] :=
  fun _ none => absurd none List.not_mem_nil

theorem allFit_append {front back : List SignedResult} :
    AllFit (front ++ back) ↔ AllFit front ∧ AllFit back :=
  List.forall_mem_append

theorem allFit_singleton {result : SignedResult} : AllFit [result] ↔ result.Fits :=
  List.forall_mem_singleton

theorem long_fits {value : Int} : (long value).Fits ↔ -2147483648 ≤ value ∧ value ≤ longMax := by
  simp only [SignedResult.Fits, long, longMax]
  omega

theorem int16_fits {value : Int} : (int16 value).Fits ↔ -32768 ≤ value ∧ value ≤ 32767 := by
  simp only [SignedResult.Fits, int16]
  omega

theorem clampUnit_abs (value : ℚ) : |clampUnit value| ≤ 1 := by
  rw [abs_le, clampUnit]
  split <;> split <;> constructor <;> linarith

theorem clampGain_bounds (gain : ℚ) :
    0 ≤ (let gain := if gain < 0 then 0 else gain; if 1 < gain then 1 else gain) ∧
      (let gain := if gain < 0 then 0 else gain; if 1 < gain then 1 else gain) ≤ 1 := by
  simp only
  split <;> split <;> constructor <;> linarith

theorem leSleepGain_bounds (g : SleepGen) (pos : Int) :
    0 ≤ leSleepGain g pos ∧ leSleepGain g pos ≤ 1 :=
  clampGain_bounds _

/-! ### Bounded generators -/

structure SleepGen.Bounded (g : SleepGen) : Prop where
  armed : g.Armed
  timer : 0 < g.totalFrames → g.totalFrames ≤ longMax
  amplitude : 0 ≤ g.amplitude ∧ g.amplitude ≤ 8000
  beat : 28800 ≤ g.beatFrames ∧ g.beatFrames ≤ 72000

def SleepGen.settings (g : SleepGen) : Int × ℚ × ℚ :=
  (g.totalFrames, g.amplitude, g.beatFrames)

theorem SleepGen.Bounded.of_settings {g g' : SleepGen} (bounded : g.Bounded) (armed : g'.Armed)
    (same : g'.settings = g.settings) : g'.Bounded := by
  simp only [SleepGen.settings, Prod.mk.injEq] at same
  obtain ⟨total, amplitude, beat⟩ := same
  exact ⟨armed, total ▸ bounded.timer, amplitude ▸ bounded.amplitude, beat ▸ bounded.beat⟩

theorem leSleepNoise_settings (g : SleepGen) (colour : Int) :
    (leSleepNoise g colour).2.settings = g.settings := by
  rw [leSleepNoise]
  split
  · rfl
  · split <;> rfl

theorem leSleepBedNoise_settings (g : SleepGen) : (leSleepBedNoise g).2.settings = g.settings := by
  rw [leSleepBedNoise]
  split <;> rfl

theorem requestStop_settings (g : SleepGen) : (leSleepGenRequestStop g).settings = g.settings := by
  rw [leSleepGenRequestStop]
  split <;> rfl

section Bounded
variable (m : Libm) {g : SleepGen}

theorem sourceValue_settings (g : SleepGen) : (sourceValue m g).2.settings = g.settings := by
  rw [sourceValue]
  split
  · split
    · exact leSleepBedNoise_settings g
    · rfl
  · exact leSleepNoise_settings g _

theorem renderFrame_written {frame : Int × Int} {g' : SleepGen}
    (rendered : renderFrame m g = some (frame, g')) :
    frame.1 = truncate (clampUnit (sourceValue m g).1 * leSleepGain g g.framesDone * g.amplitude) ∧
      frame.2 = frame.1 ∧ g'.settings = g.settings ∧ g'.framesDone = g.framesDone + 1 := by
  have going : ¬g.envelope.ended := by
    rw [← renderFrame_none m, rendered]
    exact Option.some_ne_none _
  obtain ⟨ramp, timer⟩ : ¬(g.stopping = true ∧ g.stopLeft ≤ 0) ∧
      ¬(0 < g.totalFrames ∧ g.totalFrames ≤ g.framesDone) := not_or.mp going
  rw [renderFrame, if_neg ramp, if_neg timer] at rendered
  obtain ⟨rfl, rfl⟩ := Prod.mk.inj (Option.some.inj rendered)
  exact ⟨rfl, rfl, sourceValue_settings m g, rfl⟩

theorem SleepGen.Bounded.frame {frame : Int × Int} {g' : SleepGen} (bounded : g.Bounded)
    (rendered : renderFrame m g = some (frame, g')) : g'.Bounded := by
  obtain ⟨walk, active⟩ := renderFrame_some m g rendered
  have armed : g'.Armed := ⟨active.trans bounded.armed.active, walk ▸ bounded.armed.sound.next⟩
  exact bounded.of_settings armed (renderFrame_written m rendered).2.2.1

/-! ### The operations of one frame -/

theorem SleepGen.Bounded.sample_fits (bounded : g.Bounded) {value : ℚ} (unit : |value| ≤ 1) :
    (int16 (truncate (value * leSleepGain g g.framesDone * g.amplitude))).Fits := by
  obtain ⟨silent, full⟩ := leSleepGain_bounds g g.framesDone
  obtain ⟨quiet, loud⟩ := bounded.amplitude
  have size : |value * leSleepGain g g.framesDone * g.amplitude| ≤ 1 * 1 * 8000 := by
    rw [abs_mul, abs_mul, abs_of_nonneg silent, abs_of_nonneg quiet]
    gcongr
  obtain ⟨above, below⟩ := abs_le.mp size
  rw [int16_fits]
  constructor
  · refine le_truncate (le_trans ?_ above)
    norm_num
  · refine truncate_le (below.trans ?_)
    norm_num

theorem SleepGen.Bounded.beatTime_fits (bounded : g.Bounded) : AllFit (beatTimeResults g) := by
  obtain ⟨slow, fast⟩ := bounded.beat
  have beat : (if 1 < g.beatFrames then g.beatFrames else 1) = g.beatFrames :=
    if_pos (by linarith)
  have low : 28800 ≤ beatLength g := by
    rw [beatLength, beat]
    exact le_truncate (by exact_mod_cast slow)
  have high : beatLength g ≤ 72000 := by
    rw [beatLength, beat]
    exact truncate_le (by exact_mod_cast fast)
  have started : 0 ≤ g.framesDone := bounded.armed.sound.started
  have rest := Int.tmod_nonneg (beatLength g) started
  have short := Int.tmod_lt_of_pos g.framesDone (by omega : 0 < beatLength g)
  rw [beatTimeResults, ← List.singleton_append, allFit_append, allFit_singleton, allFit_singleton,
    long_fits, long_fits, longMax]
  omega

theorem SleepGen.Bounded.source_fits (bounded : g.Bounded) : AllFit (sourceResults g) := by
  rw [sourceResults]
  split
  · refine allFit_append.mpr ⟨bounded.beatTime_fits, ?_⟩
    split
    · exact bounded.beatTime_fits
    · exact allFit_nil
  · exact allFit_nil

theorem SleepGen.Bounded.gain_fits (bounded : g.Bounded) :
    AllFit (gainResults g g.framesDone) := by
  rw [gainResults]
  split
  case isTrue fades =>
    have few := bounded.timer fades.2
    have started : 0 ≤ g.framesDone := bounded.armed.sound.started
    have inside : g.framesDone ≤ g.totalFrames := bounded.armed.sound.inside fades.2
    rw [allFit_singleton, long_fits]
    omega
  · exact allFit_nil

theorem SleepGen.Bounded.remaining_fits (bounded : g.Bounded) : AllFit (remainingResults g) := by
  have started : 0 ≤ g.framesDone := bounded.armed.sound.started
  rw [remainingResults]
  split
  · exact allFit_nil
  · split
    case isTrue left =>
      have few := bounded.timer (by omega)
      rw [allFit_singleton, long_fits]
      omega
    · exact allFit_nil

theorem SleepGen.Bounded.requestStop_fits (bounded : g.Bounded) :
    AllFit (requestStopResults g) := by
  rw [requestStopResults]
  split
  · exact allFit_nil
  · exact bounded.gain_fits

theorem SleepGen.Bounded.frame_fits {frame : Int × Int} {g' : SleepGen} (bounded : g.Bounded)
    (rendered : renderFrame m g = some (frame, g')) :
    AllFit (frameResults m g) ↔ g'.framesDone ≤ longMax := by
  obtain ⟨left, right, -, done⟩ := renderFrame_written m rendered
  have started : 0 ≤ g.framesDone := bounded.armed.sound.started
  have samples : AllFit [int16 frame.1, int16 frame.2] := by
    rw [← List.singleton_append, allFit_append, allFit_singleton, allFit_singleton, right, left]
    exact ⟨bounded.sample_fits (clampUnit_abs _), bounded.sample_fits (clampUnit_abs _)⟩
  have ramp : AllFit (if g.stopping then [long (g.stopLeft - 1)] else []) := by
    split
    case isTrue stopping =>
      obtain ⟨some, few⟩ := bounded.armed.sound.left stopping
      simp only [SleepGen.envelope, fadeOutFramesMax] at some few
      rw [allFit_singleton, long_fits, longMax]
      omega
    · exact allFit_nil
  simp only [frameResults, rendered, allFit_append, allFit_singleton, long_fits,
    bounded.source_fits, bounded.gain_fits, samples, ramp, true_and, and_true, done]
  omega

/-! ### Runs -/

theorem fillLoop_later (frames : Nat) (g : SleepGen) :
    g.framesDone ≤ (fillLoop m frames g).2.framesDone := by
  induction frames generalizing g with
  | zero => exact le_refl _
  | succ frames ih =>
      rw [fillLoop]
      cases rendered : renderFrame m g with
      | none => exact le_refl _
      | some rendering =>
          obtain ⟨frame, g'⟩ := rendering
          have done := (renderFrame_written m rendered).2.2.2
          have later := ih g'
          simp only
          omega

theorem SleepGen.Bounded.fill_fits (bounded : g.Bounded) (few : g.framesDone ≤ longMax)
    (frames : Nat) :
    AllFit (fillResults m frames g) ↔ (fillLoop m frames g).2.framesDone ≤ longMax := by
  induction frames generalizing g with
  | zero => exact iff_of_true allFit_nil few
  | succ frames ih =>
      rw [fillResults, fillLoop, allFit_append]
      cases rendered : renderFrame m g with
      | none =>
          refine iff_of_true ⟨?_, allFit_nil⟩ few
          simp only [frameResults, rendered]
          exact allFit_nil
      | some rendering =>
          obtain ⟨frame, g'⟩ := rendering
          rw [bounded.frame_fits m rendered]
          simp only
          constructor
          · rintro ⟨fits, rest⟩
            exact (ih (bounded.frame m rendered) fits).mp rest
          · intro last
            have fits := (fillLoop_later m frames g').trans last
            exact ⟨fits, (ih (bounded.frame m rendered) fits).mpr last⟩

theorem fillLoop_settings (frames : Nat) (g : SleepGen) :
    (fillLoop m frames g).2.settings = g.settings := by
  induction frames generalizing g with
  | zero => rfl
  | succ frames ih =>
      rw [fillLoop]
      cases rendered : renderFrame m g with
      | none => rfl
      | some rendering =>
          obtain ⟨frame, g'⟩ := rendering
          exact (ih g').trans (renderFrame_written m rendered).2.2.1

theorem sleepStep_settings (armed : g.Armed) (call : SleepCall) :
    (sleepStep m g call).settings = g.settings := by
  cases call with
  | fill frames =>
      rw [sleepStep, leSleepGenFill, if_pos armed.active]
      exact fillLoop_settings m frames g
  | requestStop => exact requestStop_settings g

theorem run_settings (armed : g.Armed) (calls : List SleepCall) :
    (Runs.run (sleepStep m) g calls).settings = g.settings := by
  induction calls generalizing g with
  | nil => rfl
  | cons call calls ih => exact (ih (armed.step m call)).trans (sleepStep_settings m armed call)

theorem SleepGen.Bounded.step (bounded : g.Bounded) (call : SleepCall) :
    (sleepStep m g call).Bounded :=
  bounded.of_settings (bounded.armed.step m call) (sleepStep_settings m bounded.armed call)

theorem SleepGen.Bounded.call_fits (bounded : g.Bounded) (few : g.framesDone ≤ longMax)
    (call : SleepCall) :
    AllFit (callResults m g call) ↔ (sleepStep m g call).framesDone ≤ longMax := by
  cases call with
  | fill frames =>
      rw [callResults, if_pos bounded.armed.active, bounded.fill_fits m few, sleepStep,
        leSleepGenFill, if_pos bounded.armed.active]
  | requestStop =>
      refine iff_of_true bounded.requestStop_fits ?_
      rw [sleepStep, leSleepGenRequestStop]
      split <;> exact few

theorem sleepStep_later (armed : g.Armed) (call : SleepCall) :
    g.framesDone ≤ (sleepStep m g call).framesDone := by
  cases call with
  | fill frames =>
      rw [sleepStep, leSleepGenFill, if_pos armed.active]
      exact fillLoop_later m frames g
  | requestStop =>
      rw [sleepStep, leSleepGenRequestStop]
      split <;> exact le_refl _

theorem run_later (armed : g.Armed) (calls : List SleepCall) :
    g.framesDone ≤ (Runs.run (sleepStep m) g calls).framesDone := by
  induction calls generalizing g with
  | nil => exact le_refl _
  | cons call calls ih => exact (sleepStep_later m armed call).trans (ih (armed.step m call))

theorem SleepGen.Bounded.run_fits (bounded : g.Bounded) (few : g.framesDone ≤ longMax)
    (calls : List SleepCall) :
    AllFit (runResults m g calls) ↔
      (Runs.run (sleepStep m) g calls).framesDone ≤ longMax := by
  induction calls generalizing g with
  | nil => exact iff_of_true allFit_nil few
  | cons call calls ih =>
      rw [runResults, allFit_append, bounded.call_fits m few, Runs.run_cons]
      constructor
      · rintro ⟨fits, rest⟩
        exact (ih (bounded.step m call) fits).mp rest
      · intro last
        have fits := (run_later m (bounded.armed.step m call) calls).trans last
        exact ⟨fits, (ih (bounded.step m call) fits).mpr last⟩

theorem SleepGen.Bounded.run (bounded : g.Bounded) (calls : List SleepCall) :
    (Runs.run (sleepStep m) g calls).Bounded :=
  bounded.of_settings (bounded.armed.run m calls) (run_settings m bounded.armed calls)

/-! ### How far the counter gets -/

theorem iterate_ramp {e : Envelope} (stopping : e.stopping = true) (untimed : e.totalFrames ≤ 0)
    (left : 0 ≤ e.stopLeft) (frames : Nat) :
    (Envelope.next^[frames] e).framesDone = e.framesDone + min (frames : Int) e.stopLeft := by
  have never (last : Nat) : 0 < e.totalFrames → e.framesDone + last ≤ e.totalFrames :=
    fun timed => absurd untimed (not_le.mpr timed)
  rcases le_total (frames : Int) e.stopLeft with inRamp | past
  · rw [iterate_advance (fun _ => inRamp) (never frames), min_eq_left inRamp]
    rfl
  · have size : (e.stopLeft.toNat : Int) = e.stopLeft := Int.toNat_of_nonneg left
    have ended : (e.advance e.stopLeft.toNat).ended := by
      refine .inl ⟨stopping, ?_⟩
      simp only [Envelope.advance, stopping, if_true]
      omega
    have reach := iterate_advance (fun _ => size.le) (never e.stopLeft.toNat)
    rw [iterate_past reach ended (by omega), min_eq_right past, Envelope.advance]
    simp only
    omega

theorem run_played (armed : g.Armed) (untimed : g.totalFrames ≤ 0) (playing : g.stopping = false)
    (calls : List SleepCall) :
    (Runs.run (sleepStep m) g calls).framesDone = g.framesDone + playedFrames calls := by
  induction calls generalizing g with
  | nil => exact (Int.add_zero _).symm
  | cons call calls ih =>
      rw [Runs.run_cons]
      cases call with
      | fill frames =>
          have walk : (sleepStep m g (.fill frames)).envelope = g.envelope.advance frames := by
            rw [sleepStep, leSleepGenFill, if_pos armed.active, (fillLoop_envelope m g frames).1]
            refine iterate_advance (fun stopping => ?_) fun timed => ?_
            · exact absurd stopping (by simp [SleepGen.envelope, playing])
            · exact absurd untimed (not_le.mpr timed)
          simp only [SleepGen.envelope, Envelope.advance, Envelope.mk.injEq] at walk
          obtain ⟨total, -, done, stopping, -, -⟩ := walk
          rw [ih (armed.step m _) (total ▸ untimed) (stopping.trans playing), done, playedFrames]
          push_cast
          omega
      | requestStop =>
          have stopped := armed.stop
          have stopping := requestStop_stopping g
          have walk := congrArg Envelope.framesDone (run_envelope m stopped stopping calls)
          have envelope := requestStop_envelope g armed.sound
          obtain ⟨left, done, total, -⟩ := stop_left g.envelope
          have ramp : g.envelope.stop.stopLeft = fadeOutFramesMax := by
            rw [left, if_neg]
            simp [SleepGen.envelope, playing]
          rw [iterate_ramp stopping (envelope ▸ total.trans_le untimed)
            (envelope ▸ (ramp ▸ by decide)), envelope, ramp, done] at walk
          rw [playedFrames]
          refine walk.trans ?_
          simp only [SleepGen.envelope, fadeOutFramesMax]
          push_cast
          rfl

end Bounded

/-! ### Every run -/

theorem initResults_fit (seconds fadeSeconds : Int) :
    AllFit (initResults seconds fadeSeconds) ↔ seconds ≤ 44739 := by
  have fade : (long (clampInt 0 maxFadeSeconds fadeSeconds * sleepRate)).Fits := by
    simp only [long_fits, longMax, clampInt, maxFadeSeconds, sleepRate]
    split <;> split <;> omega
  rw [initResults, allFit_append, allFit_singleton, and_iff_left fade]
  by_cases timed : 0 < seconds
  · rw [if_neg (by omega : ¬seconds < 0), if_pos timed, allFit_singleton, long_fits]
    simp only [sleepRate, longMax]
    omega
  · rw [if_neg (by split <;> omega)]
    exact iff_of_true allFit_nil (by omega)

theorem clampInt_bounds {low high : Int} (range : low ≤ high) (value : Int) :
    low ≤ clampInt low high value ∧ clampInt low high value ≤ high := by
  rw [clampInt]
  split <;> split <;> constructor <;> omega

section Accepted
variable {source bed tempoBpm level seconds fadeSeconds : Int} {seed : UInt32} {g : SleepGen}

theorem leSleepGenInit_total
    (accepted : leSleepGenInit source bed tempoBpm level seconds fadeSeconds seed = some g) :
    g.totalFrames = if 0 < seconds then seconds * sleepRate else -1 := by
  rw [leSleepGenInit] at accepted
  split at accepted
  · exact absurd accepted.symm (Option.some_ne_none g)
  · obtain rfl := Option.some.inj accepted
    simp only
    by_cases timed : 0 < seconds
    · rw [if_neg (by omega : ¬seconds < 0)]
    · rw [if_neg timed, if_neg (by split <;> omega)]

theorem leSleepGenInit_settings
    (accepted : leSleepGenInit source bed tempoBpm level seconds fadeSeconds seed = some g) :
    g.amplitude = amplitudeCap * (clampInt 1 levelMax level : Int) / levelMax ∧
      g.beatFrames = sleepRate * 60 / (clampInt tempoMin tempoMax tempoBpm : Int) := by
  rw [leSleepGenInit] at accepted
  split at accepted
  · exact absurd accepted.symm (Option.some_ne_none g)
  · obtain rfl := Option.some.inj accepted
    exact ⟨rfl, rfl⟩

theorem leSleepGenInit_bounded
    (accepted : leSleepGenInit source bed tempoBpm level seconds fadeSeconds seed = some g)
    (short : seconds ≤ 44739) : g.Bounded := by
  have total := leSleepGenInit_total accepted
  obtain ⟨amplitude, beat⟩ := leSleepGenInit_settings accepted
  obtain ⟨quiet, loud⟩ := clampInt_bounds (show 1 ≤ levelMax by decide) level
  obtain ⟨slow, fast⟩ := clampInt_bounds (show tempoMin ≤ tempoMax by decide) tempoBpm
  refine ⟨(leSleepGenInit_fresh accepted).1, fun timed => ?_, ?_, ?_⟩
  · rw [total]
    simp only [sleepRate, longMax]
    split <;> omega
  · have low : (1 : ℚ) ≤ clampInt 1 levelMax level := by exact_mod_cast quiet
    have high : (clampInt 1 levelMax level : ℚ) ≤ 100 := by exact_mod_cast loud
    rw [amplitude]
    simp only [amplitudeCap, levelMax] at low high ⊢
    constructor <;> push_cast <;> linarith
  · have low : (40 : ℚ) ≤ clampInt tempoMin tempoMax tempoBpm := by exact_mod_cast slow
    have high : (clampInt tempoMin tempoMax tempoBpm : ℚ) ≤ 100 := by exact_mod_cast fast
    have positive : (0 : ℚ) < clampInt tempoMin tempoMax tempoBpm := by linarith
    rw [beat, le_div_iff₀ positive, div_le_iff₀ positive]
    simp only [sleepRate] at low high ⊢
    constructor <;> push_cast <;> linarith

/-- On a 32-bit `long` every signed operation of a run stays in its type for the durations whose
frames fit, and for an unlimited sound as long as its frames fit. -/
theorem signed_law (m : Libm)
    (accepted : leSleepGenInit source bed tempoBpm level seconds fadeSeconds seed = some g)
    (calls : List SleepCall) :
    AllFit (initResults seconds fadeSeconds ++ runResults m g calls ++
        remainingResults (Runs.run (sleepStep m) g calls)) ↔
      seconds ≤ 44739 ∧ (0 < seconds ∨ playedFrames calls ≤ 2147483647) := by
  obtain ⟨armed, playing, first⟩ := leSleepGenInit_fresh accepted
  have total := leSleepGenInit_total accepted
  rw [allFit_append, allFit_append, initResults_fit, and_assoc]
  refine and_congr_right fun short => ?_
  have bounded := leSleepGenInit_bounded accepted short
  have few : g.framesDone ≤ longMax := by
    rw [first]
    decide
  rw [and_iff_left (bounded.run m calls).remaining_fits, bounded.run_fits m few]
  by_cases timed : 0 < seconds
  · have running : 0 < g.totalFrames := by
      rw [total, if_pos timed]
      simp only [sleepRate]
      omega
    have same : (Runs.run (sleepStep m) g calls).totalFrames = g.totalFrames :=
      congrArg Prod.fst (run_settings m armed calls)
    have after := bounded.run m calls
    have running' : 0 < (Runs.run (sleepStep m) g calls).totalFrames := same ▸ running
    have inside := after.armed.sound.inside running'
    exact iff_of_true (inside.trans (after.timer running')) (.inl timed)
  · have untimed : g.totalFrames ≤ 0 := by
      rw [total, if_neg timed]
      decide
    rw [run_played m armed untimed playing, first, or_iff_right timed, longMax]
    omega

end Accepted

theorem signed_law_second : ∃ g : SleepGen, leSleepGenInit 1 0 60 100 1 0 1 = some g ∧
    ∀ (m : Libm) (calls : List SleepCall),
      AllFit (initResults 1 0 ++ runResults m g calls ++
        remainingResults (Runs.run (sleepStep m) g calls)) := by
  refine ⟨secondOfNoise, secondOfNoise_accepted, fun m calls => ?_⟩
  exact (signed_law m secondOfNoise_accepted calls).mpr ⟨by decide, .inl (by decide)⟩

theorem playedFrames_fills (count frames : Nat) :
    playedFrames (List.replicate count (.fill frames)) = count * frames := by
  induction count with
  | zero => rw [Nat.zero_mul]; rfl
  | succ count ih => rw [List.replicate_succ, playedFrames, ih, Nat.succ_mul, Nat.add_comm]

/-- White noise without a timer counts past its `long` after twelve hours and a half, and a timer of
44740 seconds is accepted although its frames do not fit. -/
theorem signed_law_overflows :
    (∃ g : SleepGen, leSleepGenInit 1 0 60 100 0 0 1 = some g ∧ ∀ m : Libm,
      ¬AllFit (runResults m g (List.replicate 2097152 (.fill 1024)))) ∧
    (leSleepGenInit 1 0 60 100 44740 0 1).isSome = true ∧ ¬AllFit (initResults 44740 0) := by
  refine ⟨?_, rfl, ?_⟩
  · have accepted : leSleepGenInit 1 0 60 100 0 0 1 =
        some ((leSleepGenInit 1 0 60 100 0 0 1).get rfl) := (Option.some_get rfl).symm
    refine ⟨_, accepted, fun m fits => ?_⟩
    obtain ⟨armed, playing, first⟩ := leSleepGenInit_fresh accepted
    have bounded := leSleepGenInit_bounded accepted (by decide)
    have total := leSleepGenInit_total accepted
    rw [bounded.run_fits m (first ▸ by decide), run_played m armed (total ▸ by decide) playing, first,
      playedFrames_fills] at fits
    exact absurd fits (by decide)
  · rw [initResults_fit]
    decide

end LibreEcho.Sleep
