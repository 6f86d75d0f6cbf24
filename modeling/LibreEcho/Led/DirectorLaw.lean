import LibreEcho.Led.DirectorSteps

/-!
How the director paces effects and scenes over every run of updates and interrupts.
-/
namespace LibreEcho.Led

inductive DirectorCall where
  | update (f : Features) (now : ℚ)
  | interrupt

structure Performance where
  director : Director
  clock : WithBot ℚ

def perform (s : Performance) : DirectorCall → Performance
  | .update f now => ⟨directorUpdate s.director f now, now⟩
  | .interrupt => ⟨directorInterrupt s.director, s.clock⟩

def InOrder (s : Performance) : DirectorCall → Prop
  | .update _ now => s.clock ≤ now
  | .interrupt => True

def opening (session : UInt32) (cfg : Option DirectorConfig) : Performance :=
  ⟨directorReset session cfg, ⊥⟩

/-- The start of an effect: one is active, and none was left from before. -/
def effectStart (s : Performance) : DirectorCall → Option ℚ
  | .update f now =>
      let d := s.director
      if (directorUpdate d f now).effect ≠ .none ∧
          (d.effect = .none ∨ d.cfg.effectDuration ≤ now - d.effectStarted) then some now
      else none
  | .interrupt => none

structure SceneChange where
  began : ℚ
  /-- Since when the scene that is left was shown. -/
  held : ℚ
  source : Grammar
  target : Grammar
  low : Bool
  draws : List Grammar

def sceneChange (s : Performance) : DirectorCall → Option SceneChange
  | .update f now =>
      let d := directorUpdate s.director f now
      let scene := directorScene d now
      if s.director.crossfading = false ∧ d.crossfading = true then
        some
          { began := now
            held := d.sceneStarted
            source := scene.grammar
            target := scene.nextGrammar
            low := d.scenePart.low
            draws := draws d.scenePart.low 8 s.director.rng }
      else none
  | .interrupt => none

/-! ### Effects -/

section Effects
variable {cfg : DirectorConfig}

structure EffectsKept (cfg : DirectorConfig) (s : Performance) : Prop where
  config : s.director.cfg = cfg
  past : s.director.haveEffect = true → s.director.lastEffect ≤ s.clock
  active : s.director.effect ≠ .none →
    s.director.haveEffect = true ∧ s.director.effectStarted = s.director.lastEffect

theorem effectStart_step {s : Performance} {call : DirectorCall} {t : ℚ}
    (started : effectStart s call = some t) : ∃ f effect, call = .update f t ∧
      s.director.effectPart.Over t ∧ (s.director.haveEffect = true →
        s.director.cfg.effectCooldown ≤ t - s.director.lastEffect) ∧
      (directorUpdate s.director f t).effectPart = ⟨s.director.cfg, effect, t, t, true⟩ := by
  cases call with
  | interrupt => cases started
  | update f now =>
      rw [effectStart] at started
      split at started
      case isFalse => cases started
      case isTrue begun =>
        obtain rfl := Option.some.inj started
        obtain ⟨active, beyond⟩ := begun
        cases update_effect s.director f now with
        | goesOn young same => exact absurd beyond young
        | rests _ gone => exact absurd (congrArg EffectPart.effect gone) active
        | starts _ ready effect _ whole => exact ⟨f, effect, rfl, beyond, ready, whole⟩

theorem EffectsKept.step {s : Performance} (kept : EffectsKept cfg s) {call : DirectorCall}
    (inOrder : InOrder s call) : EffectsKept cfg (perform s call) := by
  obtain ⟨config, past, active⟩ := kept
  cases call with
  | update f now =>
      cases update_effect s.director f now with
      | goesOn _ same =>
          obtain ⟨cfg', effect, since, last, had⟩ := EffectPart.mk.inj same
          refine ⟨cfg'.trans config, fun before => ?_, fun running => ?_⟩
          · exact (WithBot.coe_le_coe.mpr last.le).trans ((past (had.symm.trans before)).trans inOrder)
          · obtain ⟨before, started⟩ := active fun none => running (effect.trans none)
            exact ⟨had.trans before, (since.trans started).trans last.symm⟩
      | rests _ gone =>
          obtain ⟨cfg', effect, -, last, had⟩ := EffectPart.mk.inj gone
          refine ⟨cfg'.trans config, fun before => ?_, fun running => absurd effect running⟩
          exact (WithBot.coe_le_coe.mpr last.le).trans ((past (had.symm.trans before)).trans inOrder)
      | starts _ _ effect _ started =>
          obtain ⟨cfg', -, since, last, had⟩ := EffectPart.mk.inj started
          refine ⟨cfg'.trans config, fun _ => ?_, fun _ => ⟨had, since.trans last.symm⟩⟩
          exact WithBot.coe_le_coe.mpr last.le
  | interrupt =>
      rw [perform, directorInterrupt]
      split
      case isTrue running =>
        obtain ⟨before, started⟩ := active running
        refine ⟨config, fun _ => ?_, fun none => absurd rfl none⟩
        exact (WithBot.coe_le_coe.mpr started.le).trans (past before)
      case isFalse => exact ⟨config, past, active⟩

theorem EffectsKept.interrupt {s : Performance} (kept : EffectsKept cfg s) :
    (directorInterrupt s.director).lastEffect = s.director.lastEffect ∧
      (directorInterrupt s.director).haveEffect = s.director.haveEffect ∧
      (directorInterrupt s.director).effect = .none := by
  rw [directorInterrupt]
  split
  case isTrue running =>
    obtain ⟨before, started⟩ := kept.active running
    exact ⟨started, before.symm, rfl⟩
  case isFalse none => exact ⟨rfl, rfl, not_not.mp none⟩

theorem opening_effects (session : UInt32) (cfg : Option DirectorConfig) :
    EffectsKept (cfg.getD configDefaults) (opening session cfg) :=
  ⟨rfl, nofun, fun active => absurd rfl active⟩

theorem effects_apart {s : Performance} (kept : EffectsKept cfg s) {calls : List DirectorCall}
    (inOrder : Runs.Admits perform InOrder s calls) :
    (Runs.emitted perform effectStart s calls).Pairwise
      fun t t' => cfg.effectCooldown ≤ t' - t := by
  refine (Runs.emitted_pairwise (EffectsKept cfg)
    (fun s t => s.director.haveEffect = true ∧ t ≤ s.director.lastEffect)
    (fun _ _ kept inOrder => kept.step inOrder) ?ages ?fresh ?apart kept inOrder).1
  case ages =>
    rintro s call t kept inOrder ⟨before, past⟩
    cases call with
    | update f now =>
        have early : t ≤ now :=
          past.trans (WithBot.coe_le_coe.mp ((kept.past before).trans inOrder))
        cases update_effect s.director f now with
        | goesOn _ same =>
            obtain ⟨-, -, -, last, had⟩ := EffectPart.mk.inj same
            exact ⟨had.trans before, past.trans last.ge⟩
        | rests _ gone =>
            obtain ⟨-, -, -, last, had⟩ := EffectPart.mk.inj gone
            exact ⟨had.trans before, past.trans last.ge⟩
        | starts _ _ effect _ started =>
            obtain ⟨-, -, -, last, had⟩ := EffectPart.mk.inj started
            exact ⟨had, early.trans last.ge⟩
    | interrupt =>
        obtain ⟨last, had, -⟩ := kept.interrupt
        exact ⟨had.trans before, past.trans last.ge⟩
  case fresh =>
    intro s call t _ _ started
    obtain ⟨f, effect, rfl, -, -, whole⟩ := effectStart_step started
    obtain ⟨-, -, -, last, had⟩ := EffectPart.mk.inj whole
    exact ⟨had, last.ge⟩
  case apart =>
    rintro s call t t' kept - ⟨before, past⟩ started
    obtain ⟨f, effect, rfl, -, ready, -⟩ := effectStart_step started
    rw [← kept.config]
    exact (ready before).trans (sub_le_sub_left past t')

theorem effect_started {s : Performance} {calls : List DirectorCall}
    (active : (Runs.run perform s calls).director.effect ≠ .none) :
    (Runs.run perform s calls).director.effectStarted ∈ Runs.emitted perform effectStart s calls ∨
      s.director.effect ≠ .none ∧
        (Runs.run perform s calls).director.effectStarted = s.director.effectStarted := by
  induction calls generalizing s with
  | nil => exact .inr ⟨active, rfl⟩
  | cons call calls ih =>
      rw [Runs.run_cons] at active ⊢
      rw [Runs.emitted_cons]
      obtain later | ⟨running, since⟩ := ih active
      · exact .inl (List.mem_append_right _ later)
      rw [since]
      cases call with
      | interrupt =>
          rw [perform, directorInterrupt] at running
          split at running
          · exact absurd rfl running
          case isFalse none => exact absurd (not_not.mp none) running
      | update f now =>
          cases update_effect s.director f now with
          | goesOn beyond same =>
              obtain ⟨-, effect, since, -, -⟩ := EffectPart.mk.inj same
              exact .inr ⟨fun none => running (effect.trans none), since⟩
          | rests _ gone => exact absurd (congrArg EffectPart.effect gone) running
          | starts beyond _ effect _ started =>
              obtain ⟨-, -, since, -, -⟩ := EffectPart.mk.inj started
              refine .inl (List.mem_append_left _ (Option.mem_toList.mpr ?_))
              rw [effectStart]
              refine (if_pos ⟨running, beyond⟩).trans ?_
              exact congrArg some since.symm

end Effects

/-! ### Scenes -/

section Scenes
variable {cfg : DirectorConfig}

structure ScenesKept (cfg : DirectorConfig) (s : Performance) : Prop where
  config : s.director.cfg = cfg
  past : s.director.haveHistory = true → s.director.sceneStarted ≤ s.clock
  fading : s.director.crossfading = true →
    s.director.haveHistory = true ∧ s.director.changeStarted ≤ s.clock

theorem ScenesKept.since {s : Performance} (kept : ScenesKept cfg s) {now : ℚ}
    (inOrder : s.clock ≤ now) : sceneSince s.director now ≤ now := by
  rw [sceneSince]
  split
  case isTrue => exact le_refl now
  case isFalse later =>
    have started := kept.past (Bool.not_eq_false _ |>.mp later)
    exact WithBot.coe_le_coe.mp (started.trans inOrder)

theorem sceneSince_later {d : Director} (later : d.haveHistory = true) (now : ℚ) :
    sceneSince d now = d.sceneStarted :=
  if_neg (by rw [later]; exact Bool.true_eq_false.mp)

theorem interrupt_scene (d : Director) : (directorInterrupt d).scenePart = d.scenePart := by
  rw [directorInterrupt]
  split <;> rfl

theorem ScenesKept.step {s : Performance} (kept : ScenesKept cfg s) {call : DirectorCall}
    (inOrder : InOrder s call) : ScenesKept cfg (perform s call) := by
  cases call with
  | interrupt =>
      obtain ⟨config, -, -, -, fading, since, change, -, history⟩ :=
        ScenePart.mk.inj (interrupt_scene s.director)
      obtain ⟨config', past, fading'⟩ := kept
      refine ⟨config.trans config', fun before => ?_, fun now => ?_⟩
      · exact (WithBot.coe_le_coe.mpr since.le).trans (past (history.symm.trans before))
      · obtain ⟨before, begun⟩ := fading' (fading.symm.trans now)
        exact ⟨history.trans before, (WithBot.coe_le_coe.mpr change.le).trans begun⟩
  | update f now =>
      have since := kept.since inOrder
      obtain ⟨confidence, step⟩ := update_scene s.director f now
      cases step with
      | stays same =>
          obtain ⟨config, -, -, -, fading, started, change, -, history⟩ := ScenePart.mk.inj same
          refine ⟨config.trans kept.config, fun _ => ?_, fun going => ⟨history, ?_⟩⟩
          · exact WithBot.coe_le_coe.mpr (started.le.trans since)
          · have begun := (kept.fading (fading.symm.trans going)).2
            exact (WithBot.coe_le_coe.mpr change.le).trans (begun.trans inOrder)
      | begins _ _ _ begun =>
          obtain ⟨config, -, -, -, fading, started, change, -, history⟩ := ScenePart.mk.inj begun
          refine ⟨config.trans kept.config, fun _ => ?_, fun going => ⟨history, ?_⟩⟩
          · exact WithBot.coe_le_coe.mpr (started.le.trans since)
          · exact WithBot.coe_le_coe.mpr change.le
      | settles _ _ settled =>
          obtain ⟨config, -, -, -, fading, started, -, -, history⟩ := ScenePart.mk.inj settled
          refine ⟨config.trans kept.config, fun _ => WithBot.coe_le_coe.mpr started.le,
            fun going => absurd (fading.symm.trans going) Bool.false_ne_true⟩

theorem opening_scenes (session : UInt32) (cfg : Option DirectorConfig) :
    ScenesKept (cfg.getD configDefaults) (opening session cfg) :=
  ⟨rfl, nofun, nofun⟩

structure Begins (d : Director) (f : Features) (c : SceneChange) : Prop where
  settled : d.crossfading = false
  held : c.held = sceneSince d c.began
  source : c.source = d.grammar
  due : d.cfg.sceneDwell ≤ c.began - c.held ∨ d.cfg.sceneDwell * 2 ≤ c.began - c.held ∨
    c.source = .orbit ∧ c.low = true
  draws : c.draws = Led.draws c.low 8 d.rng
  target : c.target = (pickAttempts c.source c.low 8 d.rng).1
  coming : (directorUpdate d f c.began).pendingGrammar = c.target
  fading : (directorUpdate d f c.began).crossfading = true
  started : (directorUpdate d f c.began).changeStarted = c.began
  history : (directorUpdate d f c.began).haveHistory = true

theorem sceneChange_begins {s : Performance} {call : DirectorCall} {c : SceneChange}
    (change : sceneChange s call = some c) :
    ∃ f, call = .update f c.began ∧ Begins s.director f c := by
  cases call with
  | interrupt => cases change
  | update f now =>
      rw [sceneChange] at change
      split at change
      case isFalse => cases change
      case isTrue begins =>
        obtain ⟨settled, fading⟩ := begins
        obtain ⟨confidence, step⟩ := update_scene s.director f now
        cases step with
        | stays same =>
            have going := congrArg ScenePart.crossfading same
            exact absurd (settled.symm.trans (going.symm.trans fading)) Bool.false_ne_true
        | settles going => exact absurd (settled.symm.trans going) Bool.false_ne_true
        | begins _ due _ begun =>
            obtain ⟨-, -, grammar, pending, -, since, started, confident, history⟩ :=
              ScenePart.mk.inj begun
            have low : (directorUpdate s.director f now).scenePart.low =
                (rememberedScene s.director now confidence).low :=
              congrArg (fun ema => decide (ema < lowConfidence)) confident
            obtain rfl := Option.some.inj change
            refine ⟨f, rfl, settled, since, grammar, ?_, rfl, ?_, rfl, fading, started, history⟩
            · rw [low]
              simp only [directorScene]
              rw [since, grammar]
              exact due
            · rw [low]
              exact pending.trans (congrArg (fun g => (pickAttempts g _ 8 _).1) grammar.symm)

theorem sceneChange_held {s : Performance} (kept : ScenesKept cfg s) {call : DirectorCall}
    (inOrder : InOrder s call) {c : SceneChange} (change : sceneChange s call = some c) :
    cfg.sceneDwell ≤ c.began - c.held ∨ c.source = .orbit ∧ c.low = true := by
  obtain ⟨f, rfl, begins⟩ := sceneChange_begins change
  have since := kept.since inOrder
  rw [← begins.held] at since
  have due := begins.due
  rw [kept.config] at due
  obtain held | stale | orbit := due
  · exact .inl held
  · refine .inl (not_lt.mp fun short => ?_)
    linarith
  · exact .inr orbit

theorem changes_apart {s : Performance} (kept : ScenesKept cfg s) {calls : List DirectorCall}
    (inOrder : Runs.Admits perform InOrder s calls) :
    (Runs.emitted perform sceneChange s calls).Pairwise
      fun c c' => c.began + cfg.sceneCrossfade ≤ c'.held ∧ c.began ≤ c'.held := by
  refine (Runs.emitted_pairwise (ScenesKept cfg)
    (fun s c => s.director.haveHistory = true ∧
      if s.director.crossfading = true then c.began ≤ s.director.changeStarted
      else c.began + cfg.sceneCrossfade ≤ s.director.sceneStarted ∧
        c.began ≤ s.director.sceneStarted)
    (fun _ _ kept inOrder => kept.step inOrder) ?ages ?fresh ?apart kept inOrder).1
  case ages =>
    rintro s call c kept inOrder ⟨before, past⟩
    cases call with
    | interrupt =>
        obtain ⟨-, -, -, -, fading, since, change, -, history⟩ :=
          ScenePart.mk.inj (interrupt_scene s.director)
        refine ⟨history.trans before, ?_⟩
        rw [perform, fading, since, change]
        exact past
    | update f now =>
        have same := sceneSince_later before now
        obtain ⟨confidence, step⟩ := update_scene s.director f now
        cases step with
        | stays kept =>
            obtain ⟨-, -, -, -, fading, since, change, -, history⟩ := ScenePart.mk.inj kept
            refine ⟨history, ?_⟩
            rw [perform, fading, since.trans same, change]
            exact past
        | begins settled _ _ begun =>
            obtain ⟨-, -, -, -, fading, -, change, -, history⟩ := ScenePart.mk.inj begun
            refine ⟨history, ?_⟩
            have quiet : ¬s.director.crossfading = true := Bool.eq_false_iff.mp settled
            rw [if_neg quiet] at past
            rw [perform, if_pos fading, change]
            exact past.2.trans (WithBot.coe_le_coe.mp ((kept.past before).trans inOrder))
        | settles going beyond settled =>
            obtain ⟨-, -, -, -, fading, since, -, -, history⟩ := ScenePart.mk.inj settled
            refine ⟨history, ?_⟩
            have changed := WithBot.coe_le_coe.mp ((kept.fading going).2.trans inOrder)
            have busy : s.director.crossfading = true := going
            have quiet : ¬(directorUpdate s.director f now).crossfading = true :=
              Bool.eq_false_iff.mp fading
            have waited : s.director.cfg.sceneCrossfade ≤ now - s.director.changeStarted := beyond
            rw [kept.config] at waited
            rw [if_pos busy] at past
            rw [perform, if_neg quiet, since]
            exact ⟨by linarith, past.trans changed⟩
  case fresh =>
    intro s call c _ _ change
    obtain ⟨f, rfl, begins⟩ := sceneChange_begins change
    refine ⟨begins.history, ?_⟩
    rw [perform, if_pos begins.fading, begins.started]
  case apart =>
    rintro s call c c' kept - ⟨before, past⟩ change
    obtain ⟨f, rfl, begins⟩ := sceneChange_begins change
    rw [if_neg (Bool.eq_false_iff.mp begins.settled)] at past
    rw [begins.held, sceneSince_later before]
    exact past

def headed (s : Performance) : Grammar :=
  if s.director.crossfading = true then s.director.pendingGrammar else s.director.grammar

theorem headed_moves (s : Performance) (call : DirectorCall) (c : SceneChange)
    (change : sceneChange s call = some c) :
    c.source = headed s ∧ c.target = headed (perform s call) := by
  obtain ⟨f, rfl, begins⟩ := sceneChange_begins change
  rw [headed, headed, perform, if_pos begins.fading, begins.coming,
    if_neg (Bool.eq_false_iff.mp begins.settled)]
  exact ⟨begins.source, rfl⟩

theorem headed_stays (s : Performance) (call : DirectorCall) (none : sceneChange s call = none) :
    headed (perform s call) = headed s := by
  cases call with
  | interrupt =>
      obtain ⟨-, -, grammar, pending, fading, -⟩ := ScenePart.mk.inj (interrupt_scene s.director)
      rw [headed, headed, perform, fading, grammar, pending]
  | update f now =>
      obtain ⟨confidence, step⟩ := update_scene s.director f now
      cases step with
      | stays same =>
          obtain ⟨-, -, grammar, pending, fading, -⟩ := ScenePart.mk.inj same
          rw [headed, headed, perform, fading, grammar, pending]
          rfl
      | begins settled _ _ begun =>
          have fading : (directorUpdate s.director f now).crossfading = true :=
            congrArg ScenePart.crossfading begun
          rw [sceneChange] at none
          exact absurd ((if_pos ⟨settled, fading⟩).symm.trans none) (Option.some_ne_none _)
      | settles going _ settled =>
          obtain ⟨-, -, grammar, -, fading, -⟩ := ScenePart.mk.inj settled
          have busy : s.director.crossfading = true := going
          have quiet : ¬(directorUpdate s.director f now).crossfading = true :=
            Bool.eq_false_iff.mp fading
          rw [headed, headed, perform, if_neg quiet, if_pos busy]
          exact grammar

def DirectorCall.time : DirectorCall → Option ℚ
  | .update _ now => some now
  | .interrupt => none

theorem held_since {s : Performance} {t : ℚ} {calls : List DirectorCall}
    (start : s.director.haveHistory = true → t ≤ s.director.sceneStarted)
    (after : ∀ call ∈ calls, ∀ u ∈ call.time, t ≤ u) :
    ∀ c ∈ Runs.emitted perform sceneChange s calls, t ≤ c.held := by
  have since (s : Performance) (kept : s.director.haveHistory = true → t ≤ s.director.sceneStarted)
      (now : ℚ) (late : t ≤ now) : t ≤ sceneSince s.director now := by
    rw [sceneSince]
    split
    case isTrue => exact late
    case isFalse later => exact kept (Bool.not_eq_false _ |>.mp later)
  refine Runs.emitted_all (fun s => s.director.haveHistory = true → t ≤ s.director.sceneStarted)
    (fun s call kept late => ?_) (fun s call c kept late change => ?_) start
    (Runs.admits_of_forall after s)
  · cases call with
    | interrupt =>
        obtain ⟨-, -, -, -, -, started, -, -, history⟩ :=
          ScenePart.mk.inj (interrupt_scene s.director)
        exact fun before => (kept (history.symm.trans before)).trans started.ge
    | update f now =>
        intro _
        have before := late now rfl
        have late := since s kept now before
        obtain ⟨confidence, step⟩ := update_scene s.director f now
        cases step with
        | stays same => exact late.trans (congrArg ScenePart.sceneStarted same).ge
        | begins _ _ _ begun => exact late.trans (congrArg ScenePart.sceneStarted begun).ge
        | settles _ _ settled => exact before.trans (congrArg ScenePart.sceneStarted settled).ge
  · obtain ⟨f, rfl, begins⟩ := sceneChange_begins change
    rw [begins.held]
    exact since s kept c.began (late c.began rfl)

theorem Begins.different {d : Director} {f : Features} {c : SceneChange} (begins : Begins d f c)
    (drawn : ∃ g ∈ c.draws, g ≠ c.source) : c.target ≠ c.source := by
  obtain ⟨g, inside, other⟩ := drawn
  rw [begins.target, pickAttempts_first, ← begins.draws]
  cases found : c.draws.find? fun g => g ≠ c.source with
  | none => exact absurd (decide_eq_true other) (List.find?_eq_none.mp found g inside)
  | some first =>
      have other := List.find?_some found
      exact of_decide_eq_true other

theorem Begins.leaves {d : Director} {f : Features} {c : SceneChange} (begins : Begins d f c)
    (source : c.source ≠ .ribbon) : c.target ≠ c.source := by
  rw [begins.target, pickAttempts_first]
  cases found : (Led.draws c.low 8 d.rng).find? fun g => g ≠ c.source with
  | none => exact source.symm
  | some first =>
      have other := List.find?_some found
      exact of_decide_eq_true other

theorem Begins.grounded {d : Director} {f : Features} {c : SceneChange} (begins : Begins d f c)
    (low : c.low = true) : c.target ≠ .orbit := by
  rw [begins.target, low]
  exact pickAttempts_not_orbit c.source 8 d.rng

end Scenes

/-! ### The law -/

section Law
variable (session : UInt32) (cfg : Option DirectorConfig)

def performed (calls : List DirectorCall) : Director :=
  (Runs.run perform (opening session cfg) calls).director

theorem performed_update (calls : List DirectorCall) (f : Features) (now : ℚ) :
    performed session cfg (calls ++ [.update f now]) =
      directorUpdate (performed session cfg calls) f now := by
  rw [performed, Runs.run_concat]
  rfl

theorem performed_interrupt (calls : List DirectorCall) :
    performed session cfg (calls ++ [.interrupt]) =
      directorInterrupt (performed session cfg calls) := by
  rw [performed, Runs.run_concat]
  rfl

def effectStarts (calls : List DirectorCall) : List ℚ :=
  Runs.emitted perform effectStart (opening session cfg) calls

def sceneChanges (calls : List DirectorCall) : List SceneChange :=
  Runs.emitted perform sceneChange (opening session cfg) calls

structure DirectorLaw (config : DirectorConfig) (calls : List DirectorCall) : Prop where
  cooldown : (effectStarts session cfg calls).Pairwise
    fun t t' => config.effectCooldown ≤ t' - t
  started : (performed session cfg calls).effect ≠ .none →
    (performed session cfg calls).effectStarted ∈ effectStarts session cfg calls
  single : ∀ f now, (performed session cfg calls).effect ≠ .none →
    now - (performed session cfg calls).effectStarted < config.effectDuration →
    (performed session cfg (calls ++ [.update f now])).effect = (performed session cfg calls).effect ∧
      (performed session cfg (calls ++ [.update f now])).effectStarted =
        (performed session cfg calls).effectStarted
  ends : ∀ f now, (performed session cfg (calls ++ [.update f now])).effect ≠ .none →
    (performed session cfg (calls ++ [.update f now])).effectStarted = now ∨
      now - (performed session cfg (calls ++ [.update f now])).effectStarted < config.effectDuration
  interrupted : (performed session cfg (calls ++ [.interrupt])).effect = .none
  held : ∀ c ∈ sceneChanges session cfg calls,
    config.sceneDwell ≤ c.began - c.held ∨ c.source = .orbit ∧ c.low = true
  settled : (sceneChanges session cfg calls).Pairwise
    fun c c' => c.began + config.sceneCrossfade ≤ c'.held ∧ c.began ≤ c'.held
  opened : ∀ t, (∀ call ∈ calls, ∀ u ∈ call.time, t ≤ u) →
    ∀ c ∈ sceneChanges session cfg calls, t ≤ c.held
  chain : (sceneChanges session cfg calls).IsChain fun c c' => c'.source = c.target
  different : ∀ c ∈ sceneChanges session cfg calls,
    c.source ≠ .ribbon ∨ (∃ g ∈ c.draws, g ≠ c.source) → c.target ≠ c.source
  grounded : ∀ c ∈ sceneChanges session cfg calls, c.low = true → c.target ≠ .orbit

theorem director_law (calls : List DirectorCall)
    (inOrder : Runs.Admits perform InOrder (opening session cfg) calls) :
    DirectorLaw session cfg (cfg.getD configDefaults) calls := by
  have effects := opening_effects session cfg
  have scenes := opening_scenes session cfg
  have begun : ∀ c ∈ sceneChanges session cfg calls, ∃ d f, Begins d f c := by
    refine Runs.emitted_all (fun _ => True) (fun _ _ _ _ => trivial) ?_ trivial inOrder
    intro s call c _ _ change
    obtain ⟨f, -, begins⟩ := sceneChange_begins change
    exact ⟨s.director, f, begins⟩
  have config : (performed session cfg calls).cfg = cfg.getD configDefaults :=
    (Runs.run_invariant perform (fun _ _ kept inOrder => kept.step inOrder) effects inOrder).config
  exact
    { cooldown := effects_apart effects inOrder
      started := fun active => (effect_started active).resolve_right fun old => old.1 rfl
      single := fun f now active young => by
        rw [performed_update]
        rw [← config] at young
        cases update_effect (performed session cfg calls) f now with
        | goesOn _ same =>
            obtain ⟨-, effect, since, -, -⟩ := EffectPart.mk.inj same
            exact ⟨effect, since⟩
        | rests beyond => exact absurd beyond (not_or.mpr ⟨active, not_le.mpr young⟩)
        | starts beyond => exact absurd beyond (not_or.mpr ⟨active, not_le.mpr young⟩)
      ends := fun f now active => by
        rw [performed_update] at active ⊢
        rw [← config]
        cases update_effect (performed session cfg calls) f now with
        | goesOn running same =>
            obtain ⟨-, effect, since, -, -⟩ := EffectPart.mk.inj same
            right
            rw [since]
            exact not_le.mp (not_or.mp running).2
        | rests _ gone => exact absurd (congrArg EffectPart.effect gone) active
        | starts _ _ _ _ started => exact .inl (congrArg EffectPart.effectStarted started)
      interrupted := by
        rw [performed_interrupt]
        exact (Runs.run_invariant perform (fun _ _ kept inOrder => kept.step inOrder) effects
          inOrder).interrupt.2.2
      opened := fun t after => held_since nofun after
      held := Runs.emitted_all (ScenesKept _) (fun _ _ kept inOrder => kept.step inOrder)
        (fun _ _ _ kept inOrder change => sceneChange_held kept inOrder change) scenes inOrder
      settled := changes_apart scenes inOrder
      chain := (Runs.emitted_chain headed_moves headed_stays _ calls).1
      different := by
        intro c change apart
        obtain ⟨d, f, begins⟩ := begun c change
        exact apart.elim begins.leaves begins.different
      grounded := by
        intro c change low
        obtain ⟨d, f, begins⟩ := begun c change
        exact begins.grounded low }

end Law

def steadyFrame : Features :=
  ⟨120, 128, 0, 0, 120, 200, 0, 0, 0, 0⟩

def steadyRun : List DirectorCall :=
  [0, 20, 21, 41, 42].map (DirectorCall.update steadyFrame)

theorem steadyRun_inOrder : Runs.Admits perform InOrder (opening 1 none) steadyRun :=
  ⟨bot_le, WithBot.coe_le_coe.mpr (by decide), WithBot.coe_le_coe.mpr (by decide),
    WithBot.coe_le_coe.mpr (by decide), WithBot.coe_le_coe.mpr (by decide), trivial⟩

theorem director_law_steady : DirectorLaw 1 none configDefaults steadyRun :=
  director_law 1 none steadyRun steadyRun_inOrder

/-- With a confident beat a scene can go back to the grammar before it. -/
theorem director_returns : Runs.Admits perform InOrder (opening 1 none) steadyRun ∧
    (sceneChanges 1 none steadyRun).map (fun c => (c.source, c.target, c.low)) =
        [(.twinArcs, .ribbon, false), (.ribbon, .twinArcs, false)] ∧
      ∃ g ∈ Grammar.all, g ≠ .ribbon ∧ g ≠ .twinArcs :=
  ⟨steadyRun_inOrder, by decide +kernel⟩

end LibreEcho.Led
