import LibreEcho.Led.MusicDirector

/-!
What an update can do with the effect and with the scene.
-/
namespace LibreEcho.Led

section Steps
variable (d : Director) (f : Features) (now : ℚ)

/-! ### Choosing a grammar -/

def draws (low : Bool) : Nat → UInt32 → List Grammar
  | 0, _ => []
  | attempts + 1, rng => drawGrammar low rng :: draws low attempts (rngNext rng)

theorem pickAttempts_first (current : Grammar) (low : Bool) (attempts : Nat) (rng : UInt32) :
    (pickAttempts current low attempts rng).1 =
      ((draws low attempts rng).find? fun g => g ≠ current).getD .ribbon := by
  induction attempts generalizing rng with
  | zero => rfl
  | succ attempts ih =>
      rw [pickAttempts, draws]
      split
      case isTrue other =>
        have found : decide (drawGrammar low rng ≠ current) = true := decide_eq_true other
        rw [List.find?_cons, found]
        rfl
      case isFalse same =>
        have missed : decide (drawGrammar low rng ≠ current) = false := decide_eq_false same
        rw [List.find?_cons, missed]
        exact ih _

theorem freeRun_not_orbit (rng : UInt32) : drawGrammar true rng ≠ .orbit := by
  have place : (rngNext rng).toNat % 3 < 3 := Nat.mod_lt _ (by decide)
  change freeRun.getD ((rngNext rng).toNat % 3) .ribbon ≠ .orbit
  generalize (rngNext rng).toNat % 3 = i at place
  revert i
  decide

theorem pickAttempts_not_orbit (current : Grammar) (attempts : Nat) (rng : UInt32) :
    (pickAttempts current true attempts rng).1 ≠ .orbit := by
  induction attempts generalizing rng with
  | zero => exact nofun
  | succ attempts ih =>
      rw [pickAttempts]
      split
      · exact freeRun_not_orbit rng
      · exact ih _

/-! ### The effect -/

structure EffectPart where
  cfg : DirectorConfig
  effect : Effect
  effectStarted : ℚ
  lastEffect : ℚ
  haveEffect : Bool

def Director.effectPart : EffectPart :=
  ⟨d.cfg, d.effect, d.effectStarted, d.lastEffect, d.haveEffect⟩

def EffectPart.Over (p : EffectPart) (now : ℚ) : Prop :=
  p.effect = .none ∨ p.cfg.effectDuration ≤ now - p.effectStarted

/-- What an update does with the effect. -/
inductive EffectStep (p p' : EffectPart) (now : ℚ) : Prop where
  | goesOn (active : ¬p.Over now) (same : p' = p)
  | rests (beyond : p.Over now) (gone : p' = { p with effect := .none })
  | starts (beyond : p.Over now)
      (ready : p.haveEffect = true → p.cfg.effectCooldown ≤ now - p.lastEffect) (effect : Effect)
      (active : effect ≠ .none) (started : p' = ⟨p.cfg, effect, now, now, true⟩)

theorem effectPart_remember : (remember d f now).effectPart = d.effectPart := by
  rw [remember]
  split <;> rfl

theorem effectPart_countQuiet : (countQuiet d f).effectPart = d.effectPart := by
  rw [countQuiet]
  split <;> rfl

theorem effectPart_changeScene : (changeScene d f now).effectPart = d.effectPart := by
  rw [changeScene]
  split
  · split <;> rfl
  · split <;> rfl

theorem considerEffect_cases : considerEffect d f now = d ∨
    effectReady d now = true ∧ ∃ effect ≠ .none,
      considerEffect d f now = startEffect d f now effect := by
  rw [considerEffect]
  split
  · exact .inl rfl
  case isFalse ready =>
    split
    · exact .inl rfl
    case isFalse called => exact .inr ⟨Bool.not_eq_false _ |>.mp ready, _, called, rfl⟩

theorem effectReady_iff : effectReady d now = true ↔
    d.effect = .none ∧ (d.haveEffect = true → d.cfg.effectCooldown ≤ now - d.lastEffect) := by
  rw [effectReady, Bool.and_eq_true, Bool.or_eq_true, decide_eq_true_eq, decide_eq_true_eq]
  cases d.haveEffect <;> simp

theorem expireEffect_over (beyond : d.effectPart.Over now) :
    (expireEffect d now).effectPart = { d.effectPart with effect := .none } := by
  rw [expireEffect]
  split
  case isTrue => rfl
  case isFalse young =>
    obtain none | old := beyond
    · rw [← none]
    · have none : d.effect = .none := by
        by_contra active
        exact young ⟨active, old⟩
      rw [← none]
      rfl

theorem expireEffect_active (active : ¬d.effectPart.Over now) : expireEffect d now = d :=
  if_neg fun expired => active (.inr expired.2)

theorem considerEffect_step :
    EffectStep d.effectPart (considerEffect (expireEffect d now) f now).effectPart now := by
  by_cases beyond : d.effectPart.Over now
  case neg =>
    rw [expireEffect_active d now beyond]
    obtain same | ⟨ready, -⟩ := considerEffect_cases d f now
    · rw [same]
      exact .goesOn beyond rfl
    · exact absurd (.inl ((effectReady_iff d now).mp ready).1) beyond
  case pos =>
    have expired := expireEffect_over d now beyond
    generalize expireEffect d now = e at expired
    obtain same | ⟨ready, effect, active, started⟩ := considerEffect_cases e f now
    · rw [same, expired]
      exact .rests beyond rfl
    · obtain ⟨cfg, -, -, last, had⟩ := EffectPart.mk.inj expired
      have waited := ((effectReady_iff e now).mp ready).2
      rw [cfg, last, had] at waited
      refine .starts beyond waited effect active ?_
      rw [started, ← cfg]
      rfl

theorem update_effect : EffectStep d.effectPart (directorUpdate d f now).effectPart now := by
  have whole : (directorUpdate d f now).effectPart =
      (considerEffect (expireEffect (remember d f now) now) f now).effectPart :=
    (effectPart_changeScene (countQuiet _ f) f now).trans (effectPart_countQuiet _ f)
  rw [whole, ← effectPart_remember d f now]
  exact considerEffect_step (remember d f now) f now

/-! ### The scene -/

structure ScenePart where
  cfg : DirectorConfig
  rng : UInt32
  grammar : Grammar
  pendingGrammar : Grammar
  crossfading : Bool
  sceneStarted : ℚ
  changeStarted : ℚ
  confidenceEma : UInt32
  haveHistory : Bool

def Director.scenePart : ScenePart :=
  ⟨d.cfg, d.rng, d.grammar, d.pendingGrammar, d.crossfading, d.sceneStarted, d.changeStarted,
    d.confidenceEma, d.haveHistory⟩

def ScenePart.low (p : ScenePart) : Bool :=
  p.confidenceEma < lowConfidence

/-- What changing scenes does. -/
inductive SceneStep (p p' : ScenePart) (now : ℚ) : Prop where
  | stays (same : p' = p)
  | begins (settled : p.crossfading = false)
      (held : p.cfg.sceneDwell ≤ now - p.sceneStarted ∨
        p.cfg.sceneDwell * 2 ≤ now - p.sceneStarted ∨ p.grammar = .orbit ∧ p.low = true)
      (rng : UInt32)
      (begun : p' =
        { p with
          rng := rng
          pendingGrammar := (pickAttempts p.grammar p.low 8 p.rng).1
          crossfading := true
          changeStarted := now })
  | settles (fading : p.crossfading = true) (beyond : p.cfg.sceneCrossfade ≤ now - p.changeStarted)
      (settled : p' =
        { p with grammar := p.pendingGrammar, crossfading := false, sceneStarted := now })

theorem changeScene_step : SceneStep d.scenePart (changeScene d f now).scenePart now := by
  rw [changeScene]
  split
  case isTrue settled =>
    split
    case isTrue due =>
      refine .begins settled ?_ _ rfl
      simp only [dwellOk, stale, lowConfOrbit, Bool.or_eq_true, Bool.and_eq_true,
        decide_eq_true_eq] at due
      obtain (⟨⟨-, held⟩, -⟩ | ⟨-, old⟩) | ⟨orbit, low⟩ := due
      · exact .inl held
      · exact .inr (.inl old)
      · exact .inr (.inr ⟨orbit, decide_eq_true low⟩)
    case isFalse => exact .stays rfl
  case isFalse fading =>
    split
    case isTrue beyond => exact .settles (Bool.not_eq_false _ |>.mp fading) beyond rfl
    case isFalse => exact .stays rfl

theorem scenePart_countQuiet : (countQuiet d f).scenePart = d.scenePart := by
  rw [countQuiet]
  split <;> rfl

theorem scenePart_considerEffect : (considerEffect d f now).scenePart = d.scenePart := by
  obtain same | ⟨-, effect, -, started⟩ := considerEffect_cases d f now
  · rw [same]
  · rw [started]
    rfl

theorem scenePart_expireEffect : (expireEffect d now).scenePart = d.scenePart := by
  rw [expireEffect]
  split <;> rfl

/-- Since when the scene is what it is, once a frame is remembered. -/
def sceneSince : ℚ :=
  if d.haveHistory = false then now else d.sceneStarted

def rememberedScene (confidence : UInt32) : ScenePart :=
  { d.scenePart with
    sceneStarted := sceneSince d now
    confidenceEma := confidence
    haveHistory := true }

theorem scenePart_remember : ∃ confidence,
    (remember d f now).scenePart = rememberedScene d now confidence := by
  rw [remember]
  split
  case isTrue first =>
    refine ⟨f.beatConfidence, ?_⟩
    rw [rememberedScene, sceneSince, if_pos first]
    rfl
  case isFalse later =>
    refine ⟨(d.confidenceEma * 3 + f.beatConfidence) / 4, ?_⟩
    rw [rememberedScene, sceneSince, if_neg later, ← Bool.not_eq_false _ |>.mp later]
    rfl

theorem update_scene : ∃ confidence,
    SceneStep (rememberedScene d now confidence) (directorUpdate d f now).scenePart now := by
  obtain ⟨confidence, remembered⟩ := scenePart_remember d f now
  refine ⟨confidence, ?_⟩
  have before : (countQuiet (considerEffect (expireEffect (remember d f now) now) f now) f).scenePart =
      rememberedScene d now confidence := by
    rw [scenePart_countQuiet, scenePart_considerEffect, scenePart_expireEffect, remembered]
  rw [← before]
  exact changeScene_step _ f now

end Steps

end LibreEcho.Led
