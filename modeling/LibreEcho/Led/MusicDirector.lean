import LibreEcho.Lib.Emissions
import Mathlib

/-!
The music scene director of `led_music_director.c`.

It decides the grammar of the ring and its major effects from feature frames. Times are rational.
-/
namespace LibreEcho.Led

def lowConfidence : UInt32 := 90
def sectionNovelty : UInt32 := 150
def buildMin : UInt32 := 130
def eventStrengthMin : UInt32 := 110
def quietGapFrames : UInt32 := 8
def ledPixels : UInt32 := 12

structure Rgb where
  r : UInt32
  g : UInt32
  b : UInt32
deriving DecidableEq

inductive Grammar where
  | ribbon
  | twinArcs
  | orbit
  | splitPulse
  | classicMirror
  | ember
deriving DecidableEq

def Grammar.all : List Grammar :=
  [.ribbon, .twinArcs, .orbit, .splitPulse, .classicMirror, .ember]

def freeRun : List Grammar :=
  [.ribbon, .twinArcs, .ember]

inductive Effect where
  | none
  | inhaleCutBloom
  | whiteAperture
  | knifeSweep
  | shockRing
deriving DecidableEq

inductive MusicEvent where
  | kick
  | snare
  | high
  | fill
  | build
  | reentry
  | breakdown
  | musicSection
  | drop

def MusicEvent.bit : MusicEvent → UInt32
  | kick => 1
  | snare => 2
  | high => 4
  | fill => 8
  | build => 16
  | reentry => 32
  | breakdown => 64
  | musicSection => 128
  | drop => 256

structure Features where
  energy : UInt32
  warmth : UInt32
  transientness : UInt32
  build : UInt32
  loudnessFast : UInt32
  beatConfidence : UInt32
  novelty : UInt32
  eventStrength : UInt32
  beatPhase : UInt32
  events : UInt32

def Features.has (f : Features) (events : List MusicEvent) : Bool :=
  events.any fun e => f.events &&& e.bit != 0

structure Palette where
  primary : Rgb
  secondary : Rgb
  accent : Rgb
deriving DecidableEq

structure DirectorConfig where
  sceneDwell : ℚ
  sceneCrossfade : ℚ
  effectCooldown : ℚ
  effectDuration : ℚ

def configDefaults : DirectorConfig :=
  ⟨10, 1, 8, 3 / 2⟩

structure Director where
  cfg : DirectorConfig
  session : UInt32
  haveSession : Bool
  rng : UInt32
  grammar : Grammar
  pendingGrammar : Grammar
  palette : Palette
  pendingPalette : Palette
  crossfading : Bool
  sceneStarted : ℚ
  changeStarted : ℚ
  haveSceneTime : Bool
  confidenceEma : UInt32
  buildEma : UInt32
  quietFrames : UInt32
  haveHistory : Bool
  effect : Effect
  effectStarted : ℚ
  lastEffect : ℚ
  haveEffect : Bool
  effectCenter : UInt32
  prevEvents : UInt32

/-! ### Random choices -/

def rngNext (state : UInt32) : UInt32 :=
  let x := state ^^^ (state <<< 13)
  let x := x ^^^ (x >>> 17)
  let x := x ^^^ (x <<< 5)
  if x ≠ 0 then x else 0x9E3779B9

def warmWhite : Rgb := ⟨255, 214, 170⟩
def coolWhite : Rgb := ⟨214, 232, 255⟩

def paletteFamilies : Fin 4 → Palette
  | 0 => ⟨⟨40, 120, 220⟩, ⟨20, 200, 190⟩, warmWhite⟩
  | 1 => ⟨⟨255, 120, 30⟩, ⟨255, 70, 90⟩, coolWhite⟩
  | 2 => ⟨⟨120, 70, 230⟩, ⟨210, 60, 180⟩, warmWhite⟩
  | 3 => ⟨⟨255, 80, 10⟩, ⟨150, 30, 20⟩, coolWhite⟩

def paletteFor (rng warmth : UInt32) : Palette × UInt32 :=
  if warmth < 100 then
    let rng := rngNext rng
    (paletteFamilies (if rng &&& 1 ≠ 0 then 0 else 2), rng)
  else if warmth ≤ 150 then (paletteFamilies 2, rng)
  else
    let rng := rngNext rng
    (paletteFamilies (if rng &&& 1 ≠ 0 then 1 else 3), rng)

def drawGrammar (low : Bool) (rng : UInt32) : Grammar :=
  let choices := if low then freeRun else Grammar.all
  choices.getD ((rngNext rng).toNat % choices.length) .ribbon

def pickAttempts (current : Grammar) (low : Bool) : Nat → UInt32 → Grammar × UInt32
  | 0, rng => (.ribbon, rng)
  | attempts + 1, rng =>
      let chosen := drawGrammar low rng
      if chosen ≠ current then (chosen, rngNext rng)
      else pickAttempts current low attempts (rngNext rng)

def pickGrammar (d : Director) (low : Bool) : Grammar × UInt32 :=
  pickAttempts d.grammar low 8 d.rng

/-! ### Steps -/

def directorReset (session : UInt32) (cfg : Option DirectorConfig) : Director :=
  let seed := session * 2654435761 + 0x9E3779B9
  let seed := if seed = 0 then 1 else seed
  let grammar := drawGrammar false seed
  let (palette, rng) := paletteFor (rngNext seed) 128
  { cfg := cfg.getD configDefaults
    session := session
    haveSession := true
    rng := rng
    grammar := grammar
    pendingGrammar := grammar
    palette := palette
    pendingPalette := palette
    crossfading := false
    sceneStarted := 0
    changeStarted := 0
    haveSceneTime := false
    confidenceEma := 0
    buildEma := 0
    quietFrames := 0
    haveHistory := false
    effect := .none
    effectStarted := 0
    lastEffect := 0
    haveEffect := false
    effectCenter := 0
    prevEvents := 0 }

section Update
variable (d : Director) (f : Features) (now : ℚ)

def beginChange : Director :=
  let low := decide (d.confidenceEma < lowConfidence)
  let (grammar, rng) := pickGrammar d low
  let (palette, rng) := paletteFor rng f.warmth
  { d with
    rng := rng
    pendingGrammar := grammar
    pendingPalette := palette
    crossfading := true
    changeStarted := now }

def startEffect (effect : Effect) : Director :=
  let center := f.beatPhase * ledPixels / 65536
  { d with
    effect := effect
    effectStarted := now
    lastEffect := now
    haveEffect := true
    effectCenter := if ledPixels ≤ center then 0 else center }

def effectReady : Bool :=
  d.effect = .none && (!d.haveEffect || decide (d.cfg.effectCooldown ≤ now - d.lastEffect))

def hadBuild : Bool :=
  decide (buildMin ≤ d.buildEma) || decide (buildMin ≤ f.build) || f.has [.build] ||
    f.has [.fill] || decide (quietGapFrames ≤ d.quietFrames)

def calledEffect : Effect :=
  if f.has [.musicSection, .drop, .reentry, .fill, .build] = false then .none
  else if f.has [.drop, .reentry] ∧ hadBuild d f ∧ eventStrengthMin ≤ f.eventStrength ∧
      lowConfidence ≤ f.beatConfidence then .inhaleCutBloom
  else if f.has [.musicSection] ∧ sectionNovelty ≤ f.novelty ∧ 100 ≤ f.beatConfidence then
    .whiteAperture
  else if f.has [.fill] ∧ 100 ≤ f.eventStrength ∧ 110 ≤ f.transientness then .knifeSweep
  else if f.has [.drop] ∧ 180 ≤ f.eventStrength ∧ 110 ≤ f.beatConfidence then .shockRing
  else .none

def considerEffect : Director :=
  if effectReady d now = false then d
  else if calledEffect d f = .none then d
  else startEffect d f now (calledEffect d f)

def remember : Director :=
  if d.haveHistory = false then
    { d with
      confidenceEma := f.beatConfidence
      buildEma := f.build
      haveHistory := true
      sceneStarted := now
      haveSceneTime := true }
  else
    { d with
      confidenceEma := (d.confidenceEma * 3 + f.beatConfidence) / 4
      buildEma := (d.buildEma * 3 + f.build) / 4 }

def expireEffect : Director :=
  if d.effect ≠ .none ∧ d.cfg.effectDuration ≤ now - d.effectStarted then
    { d with effect := .none }
  else d

def countQuiet : Director :=
  if f.loudnessFast < 40 ∨ f.energy < 50 then
    { d with quietFrames := if d.quietFrames < 10000 then d.quietFrames + 1 else d.quietFrames }
  else { d with quietFrames := 0 }

def structural : Bool :=
  f.has [.musicSection, .drop, .reentry] || decide (sectionNovelty ≤ f.novelty)

def dwellOk : Bool :=
  d.haveSceneTime && decide (d.cfg.sceneDwell ≤ now - d.sceneStarted)

def stale : Bool :=
  d.haveSceneTime && decide (d.cfg.sceneDwell * 2 ≤ now - d.sceneStarted)

def lowConfOrbit : Bool :=
  d.grammar = .orbit && decide (d.confidenceEma < lowConfidence)

def changeScene : Director :=
  if d.crossfading = false then
    if (dwellOk d now && structural f) || stale d now || lowConfOrbit d then beginChange d f now
    else d
  else if d.cfg.sceneCrossfade ≤ now - d.changeStarted then
    { d with
      grammar := d.pendingGrammar
      palette := d.pendingPalette
      crossfading := false
      sceneStarted := now }
  else d

def directorUpdate : Director :=
  let d := expireEffect (remember d f now) now
  let d := considerEffect d f now
  let d := changeScene (countQuiet d f) f now
  { d with prevEvents := f.events }

def directorInterrupt : Director :=
  if d.effect ≠ .none then
    { d with effect := .none, lastEffect := d.effectStarted, haveEffect := true }
  else d

end Update

/-! ### What the renderer reads -/

structure Scene where
  grammar : Grammar
  nextGrammar : Grammar
  palette : Palette
  nextPalette : Palette
  crossfade : Nat
  effect : Effect
  effectAgeMs : Nat
  effectCenter : UInt32

def directorScene (d : Director) (now : ℚ) : Scene where
  grammar := d.grammar
  nextGrammar := d.pendingGrammar
  palette := d.palette
  nextPalette := d.pendingPalette
  crossfade :=
    if d.crossfading = true ∧ 0 < d.cfg.sceneCrossfade then
      ⌊min 1 (max 0 ((now - d.changeStarted) / d.cfg.sceneCrossfade)) * 255 + 1 / 2⌋.toNat
    else 0
  effect := d.effect
  effectAgeMs := if d.effect ≠ .none then ⌊(now - d.effectStarted) * 1000⌋.toNat else 0
  effectCenter := d.effectCenter

end LibreEcho.Led
