import LibreEcho.Lib.Truncation

/-!
The sleep sounds of `sleep_generator.h`.

A `double` is a rational number and a `long` an integer; how far the counters of a 32-bit `long`
reach is a matter of its own. The transcendental functions are the library's.
-/
namespace LibreEcho.Sleep
open Truncation

/-- What the generator takes from `math.h`. -/
structure Libm where
  sin : ℚ → ℚ
  cos : ℚ → ℚ
  exp : ℚ → ℚ

def sourceNone : Int := 0
def sourcePink : Int := 2
def sourceBrown : Int := 3
def sourceHeartbeat : Int := 4

def bedNone : Int := 0
def bedPink : Int := 1
def bedBrown : Int := 2

def tempoMin : Int := 40
def tempoMax : Int := 100
def amplitudeCap : Int := 8000
def levelMax : Int := 100

def fadeInFrames : Int := 24000
def fadeOutFramesMax : Int := 14400
def maxFadeSeconds : Int := 3600
def sleepRate : Int := 48000

structure SleepGen where
  source : Int
  bed : Int
  tempoBpm : Int
  level : Int
  amplitude : ℚ
  /-- -1 while unlimited -/
  totalFrames : Int
  fadeOutFrames : Int
  framesDone : Int
  active : Bool
  stopping : Bool
  stopLeft : Int
  stopStartGain : ℚ
  rng : UInt32
  brown : ℚ
  pinkA : ℚ
  pinkB : ℚ
  pinkC : ℚ
  bedBrown : ℚ
  bedPinkA : ℚ
  bedPinkB : ℚ
  bedPinkC : ℚ
  beatFrames : ℚ

/-! ### Sounds -/

def leSleepRandom (state : UInt32) : UInt32 :=
  let x := state ^^^ (state <<< 13)
  let x := x ^^^ (x >>> 17)
  x ^^^ (x <<< 5)

/-- A random number read as an `int32_t`, between -1 and 1. -/
def whiteNoise (x : UInt32) : ℚ :=
  x.toBitVec.toInt / 2147483648

def clampUnit (value : ℚ) : ℚ :=
  let value := if 1 < value then 1 else value
  if value < -1 then -1 else value

def leSleepNoise (g : SleepGen) (colour : Int) : ℚ × SleepGen :=
  let rng := leSleepRandom g.rng
  let white := whiteNoise rng
  let g := { g with rng := rng }
  if colour = sourceBrown then
    let brown := clampUnit (g.brown + white * 0.05) * 0.98
    (brown * 1.56, { g with brown := brown })
  else if colour = sourcePink then
    let a := 0.99765 * g.pinkA + white * 0.0990460
    let b := 0.96300 * g.pinkB + white * 0.2965164
    let c := 0.57000 * g.pinkC + white * 1.0526913
    ((a + b + c + white * 0.1848) * 0.125, { g with pinkA := a, pinkB := b, pinkC := c })
  else (white, g)

def leSleepBedNoise (g : SleepGen) : ℚ × SleepGen :=
  let rng := leSleepRandom g.rng
  let white := whiteNoise rng
  let g := { g with rng := rng }
  if g.bed = bedBrown then
    let brown := clampUnit (g.bedBrown + white * 0.05) * 0.995
    (brown * 3.47, { g with bedBrown := brown })
  else
    let a := 0.99765 * g.bedPinkA + white * 0.0990460
    let b := 0.96300 * g.bedPinkB + white * 0.2965164
    let c := 0.57000 * g.bedPinkC + white * 1.0526913
    ((a + b + c + white * 0.1848) * 0.58, { g with bedPinkA := a, bedPinkB := b, bedPinkC := c })

def pi : ℚ := 3.14159265358979323846

def beatLength (g : SleepGen) : Int :=
  truncate (if 1 < g.beatFrames then g.beatFrames else 1)

def leSleepBeatTime (g : SleepGen) : ℚ :=
  (g.framesDone.tmod (beatLength g) : Int) / sleepRate

section Sounds
variable (m : Libm)

def leSleepThump (t start len hi lo : ℚ) : ℚ :=
  if t < start ∨ start + len ≤ t then 0
  else
    let attack : ℚ := 0.08
    let tau := t - start
    let u := tau / len
    let env :=
      if u < attack then m.sin (0.5 * pi * u / attack) * m.sin (0.5 * pi * u / attack)
      else
        let w := (u - attack) / (1 - attack)
        let c := m.cos (0.5 * pi * w)
        m.exp (-3 * w) * c * c
    let phase := 2 * pi * (lo * tau + (hi - lo) * len / 6 * (1 - m.exp (-6 * tau / len)))
    env * 0.6 * (m.sin phase + 0.6 * m.sin (2 * phase) + 0.3 * m.sin (3 * phase))

def leSleepHeartbeat (g : SleepGen) : ℚ :=
  let t := leSleepBeatTime g
  leSleepThump m t 0 0.14 120 60 + 0.7 * leSleepThump m t 0.30 (0.40 - 0.30) 140 75

def leSleepBedSwell (g : SleepGen) : ℚ :=
  let t := leSleepBeatTime g
  let s := if t < 0.5 then m.sin (pi * t / 0.5) * m.sin (pi * t / 0.5) else 0
  0.25 + (1 - 0.25) * s

end Sounds

/-! ### The gain -/

def leSleepGain (g : SleepGen) (pos : Int) : ℚ :=
  let gain : ℚ := if pos < fadeInFrames then pos / fadeInFrames else 1
  let gain :=
    if 0 < g.fadeOutFrames ∧ 0 < g.totalFrames then
      let left := g.totalFrames - pos
      if left < g.fadeOutFrames then
        let f : ℚ := left / g.fadeOutFrames
        if f < gain then f else gain
      else gain
    else gain
  let gain :=
    if g.stopping then
      let stop := if g.stopLeft ≤ 0 then 0 else g.stopStartGain * g.stopLeft / fadeOutFramesMax
      if stop < gain then stop else gain
    else gain
  let gain := if gain < 0 then 0 else gain
  if 1 < gain then 1 else gain

/-! ### The stream -/

def clampInt (low high value : Int) : Int :=
  let value := if value < low then low else value
  if high < value then high else value

/-- `none` for -1. -/
def leSleepGenInit (source bed tempoBpm level seconds fadeSeconds : Int) (seed : UInt32) :
    Option SleepGen :=
  if source ≤ sourceNone ∨ sourceHeartbeat < source then none
  else
    let bed := if bed ≠ bedPink ∧ bed ≠ bedBrown then bedNone else bed
    let bed := if source ≠ sourceHeartbeat then bedNone else bed
    let tempoBpm := clampInt tempoMin tempoMax tempoBpm
    let level := clampInt 1 levelMax level
    let seconds := if seconds < 0 then 0 else seconds
    let fadeSeconds := clampInt 0 maxFadeSeconds fadeSeconds
    let totalFrames := if 0 < seconds then seconds * sleepRate else -1
    let fadeOutFrames := fadeSeconds * sleepRate
    some {
      source := source
      bed := bed
      tempoBpm := tempoBpm
      level := level
      amplitude := amplitudeCap * level / levelMax
      totalFrames := totalFrames
      fadeOutFrames :=
        if 0 < totalFrames ∧ totalFrames < fadeOutFrames then totalFrames else fadeOutFrames
      framesDone := 0
      active := true
      stopping := false
      stopLeft := 0
      stopStartGain := 0
      rng := if seed = 0 then 0x1234567 else seed
      brown := 0
      pinkA := 0
      pinkB := 0
      pinkC := 0
      bedBrown := 0
      bedPinkA := 0
      bedPinkB := 0
      bedPinkC := 0
      beatFrames := sleepRate * 60 / tempoBpm }

def leSleepGenRequestStop (g : SleepGen) : SleepGen :=
  if g.stopping then g
  else
    { g with
      stopStartGain := leSleepGain g g.framesDone
      stopping := true
      stopLeft := fadeOutFramesMax }

section Stream
variable (m : Libm)

def sourceValue (g : SleepGen) : ℚ × SleepGen :=
  if g.source = sourceHeartbeat then
    let value := leSleepHeartbeat m g
    if g.bed ≠ bedNone then
      let (noise, g') := leSleepBedNoise g
      (value + noise * 0.25 * leSleepBedSwell m g, g')
    else (value, g)
  else leSleepNoise g g.source

/-- One pass of the loop: both samples of a frame, or nothing at the end of the stream. -/
def renderFrame (g : SleepGen) : Option ((Int × Int) × SleepGen) :=
  if g.stopping = true ∧ g.stopLeft ≤ 0 then none
  else if 0 < g.totalFrames ∧ g.totalFrames ≤ g.framesDone then none
  else
    let (value, g') := sourceValue m g
    let value := clampUnit value * leSleepGain g g.framesDone
    let sample := truncate (value * g.amplitude)
    some ((sample, sample),
      { g' with
        framesDone := g.framesDone + 1
        stopLeft := if g.stopping then g.stopLeft - 1 else g.stopLeft })

def fillLoop : Nat → SleepGen → List (Int × Int) × SleepGen
  | 0, g => ([], g)
  | frames + 1, g =>
      match renderFrame m g with
      | none => ([], g)
      | some (frame, g) => (frame :: (fillLoop frames g).1, (fillLoop frames g).2)

def leSleepGenFill (g : SleepGen) (frames : Nat) : List (Int × Int) × SleepGen :=
  if g.active then fillLoop m frames g else ([], g)

end Stream

end LibreEcho.Sleep
