import LibreEcho.Recovery.Children

/-!
The automatic fallback opens an access point only on the owner's opt-in.

The countdown is started by a tick that sees the opt-in and no association. It
outlives a configuration that withdraws the opt-in, and a tick in ARMED does not
look at it; while neither happens, what the countdown was started on still
stands when it ends.
-/
namespace LibreEcho.Recovery
open Runs

/-- A recovery and whether a tick since its countdown started was associated. -/
structure AutoRun where
  recovery : LeRecovery
  sawAssociated : Bool

def AutoRun.start (config : LeRecoveryConfig) (nowMs : Int) : AutoRun where
  recovery := leRecoveryInit config nowMs
  sawAssociated := false

variable (E : LeRecoveryEnvironment)

def autoStep (r : AutoRun) (op : LeRecoveryOp) : AutoRun where
  recovery := leRecoveryStep E r.recovery op
  sawAssociated :=
    match op with
    | .tick _ associated =>
        if r.recovery.auto.counting then r.sawAssociated || associated else associated
    | _ => r.sawAssociated

def Accepted (s : LeRecovery) (enabled autoEnabled autoTimeoutMs : Int) : Prop :=
  leRecoveryConfigValidate enabled autoEnabled autoTimeoutMs = none ∧
    E.configPersist s.callCount enabled autoEnabled autoTimeoutMs = .ok ()

/-- While the countdown runs the opt-in is not withdrawn alone, and no tick in
ARMED is associated. -/
def OptInStands (r : AutoRun) : LeRecoveryOp → Prop
  | .configure enabled autoEnabled autoTimeoutMs =>
      r.recovery.auto.counting = true →
        Accepted E r.recovery enabled autoEnabled autoTimeoutMs →
          ¬(enabled = 1 ∧ autoEnabled = 0)
  | .tick _ associated =>
      r.recovery.auto.counting = true → r.recovery.mode = .armed → associated = false
  | _ => True

structure AutoInv (r : AutoRun) : Prop where
  optIn : r.recovery.auto.counting = true → r.recovery.config.enabled = true ∧
    r.recovery.config.autoEnabled = true ∧ r.sawAssociated = false
  handover : r.recovery.mode = .handover → r.recovery.auto.counting = false
  notStopping : r.recovery.mode ≠ .stopping

structure SameAuto (s t : LeRecovery) : Prop where
  config : t.config = s.config
  auto : t.auto = s.auto

theorem SameAuto.of_kept {s t : LeRecovery} (h : Kept s t) : SameAuto s t := ⟨h.config, h.auto⟩

theorem SameAuto.trans {s t w : LeRecovery} (h : SameAuto s t) (k : SameAuto t w) : SameAuto s w :=
  ⟨k.config.trans h.config, k.auto.trans h.auto⟩

theorem startChildren_sameAuto (s : LeRecovery) (nowMs : Int) :
    SameAuto s (startChildren E s nowMs) ∧
      ((startChildren E s nowMs).mode = .starting ∨
        (startChildren E s nowMs).mode = .unavailable) := by
  have hspawned := (spawnAll_spawns E s).same.kept
  simp only [startChildren]
  generalize spawnAll E s = spawned at hspawned ⊢
  split
  · exact ⟨⟨hspawned.config, hspawned.auto⟩, Or.inl rfl⟩
  · have htorn := hspawned.trans (teardownChildren_outcome E spawned.2 nowMs).1
    exact ⟨⟨htorn.config, htorn.auto⟩, Or.inr rfl⟩

theorem startServices_sameAuto (s : LeRecovery) (nowMs : Int) :
    SameAuto s (startServices E s nowMs) ∧
      ((startServices E s nowMs).mode = .starting ∨
        (startServices E s nowMs).mode = .unavailable) := by
  have hcapable := leRecoveryProbeCapabilities_quiet E s
  simp only [startServices]
  generalize leRecoveryProbeCapabilities E s = capable at hcapable ⊢
  split
  · exact ⟨⟨hcapable.kept.config, hcapable.kept.auto⟩, Or.inr rfl⟩
  have hwritten := hcapable.trans (writeRecoveryConfigs_quiet E capable.2)
  generalize writeRecoveryConfigs E capable.2 = written at hwritten ⊢
  split
  · exact ⟨⟨hwritten.kept.config, hwritten.kept.auto⟩, Or.inr rfl⟩
  have htorn := hwritten.kept.trans (teardownChildren_outcome E written.2 nowMs).1
  generalize teardownChildren E written.2 nowMs = torn at htorn ⊢
  split
  · exact ⟨⟨htorn.config, htorn.auto⟩, Or.inr rfl⟩
  have hup := htorn.trans (runNetHelper_run E torn torn.config.netUpCmd true).kept
  generalize runNetHelper E torn torn.config.netUpCmd true = up at hup ⊢
  split
  · exact ⟨⟨hup.config, hup.auto⟩, Or.inr rfl⟩
  · obtain ⟨hsame, hmode⟩ :=
      startChildren_sameAuto E { up.2 with net := netAcquired up.2.net } nowMs
    exact ⟨⟨hsame.config.trans hup.config, hsame.auto.trans hup.auto⟩, hmode⟩

theorem tickStarting_sameAuto (s : LeRecovery) (nowMs : Int) :
    SameAuto s (tickStarting E s nowMs) := by
  rw [tickStarting]
  split
  · have hready := (verifyReady_same E s).kept
    simp only
    generalize verifyReady E s = ready at hready ⊢
    split
    · exact ⟨hready.config, hready.auto⟩
    · have htorn := (teardownChildren_outcome E
        { ready.2 with mode := .unavailable, ledActive := false } nowMs).1
      exact ⟨htorn.config.trans hready.config, htorn.auto.trans hready.auto⟩
  · have halive := (childrenAlive_same E s).kept
    simp only
    generalize childrenAlive E s = alive at halive ⊢
    split
    next reason _ =>
      have htorn := (teardownChildren_outcome E
        { alive.2 with mode := .unavailable, lastError := reason } nowMs).1
      exact ⟨htorn.config.trans halive.config, htorn.auto.trans halive.auto⟩
    · exact ⟨halive.config, halive.auto⟩

/-- What an idle tick does to the countdown. The last case is the automatic arm. -/
inductive IdleTick (s t : LeRecovery) (associated : Bool) : Prop where
  | stopped (counting : t.auto.counting = false) (mode : t.mode = s.mode)
  | counting (free : associated = false) (mode : t.mode = s.mode)
      (optIn : s.auto.counting = true ∨ s.config.enabled = true ∧ s.config.autoEnabled = true)
  | armed (free : associated = false) (counting : t.auto.counting = false)
      (mode : t.mode = s.mode ∨ t.mode = .armed ∧ t.trigger = .auto ∨ t.mode = .unavailable)
      (optIn : s.auto.counting = true ∨ s.config.enabled = true ∧ s.config.autoEnabled = true)

theorem startCountdown_outcome (s : LeRecovery) (nowMs : Int) (associated : Bool) :
    (startCountdown s nowMs associated).config = s.config ∧
      (startCountdown s nowMs associated).mode = s.mode ∧
      ((startCountdown s nowMs associated).auto.counting = true → s.auto.counting = true ∨
        s.config.enabled = true ∧ s.config.autoEnabled = true) := by
  rw [startCountdown]
  split
  next hstart => exact ⟨rfl, rfl, fun _ => Or.inr ⟨hstart.1, hstart.2.1⟩⟩
  · exact ⟨rfl, rfl, Or.inl⟩

theorem tickIdle_countdown (s : LeRecovery) (nowMs : Int) (associated : Bool) :
    (tickIdle E s nowMs associated).config = s.config ∧
      IdleTick s (tickIdle E s nowMs associated) associated := by
  obtain ⟨hconfig, hmode, hoptIn⟩ := startCountdown_outcome s nowMs associated
  simp only [tickIdle]
  generalize startCountdown s nowMs associated = t at hconfig hmode hoptIn ⊢
  split
  · exact ⟨hconfig, IdleTick.stopped rfl hmode⟩
  next hassociated =>
    cases hcounting : t.auto.counting with
    | false =>
        rw [if_neg (by simp)]
        exact ⟨hconfig, IdleTick.stopped hcounting hmode⟩
    | true =>
        have hfree : associated = false := by simpa [hcounting] using hassociated
        split
        · obtain ⟨harmconfig, harmauto, _, _, _, houtcome⟩ :=
            leRecoveryArm_outcome E (stopCountdown t) .auto nowMs
          refine ⟨harmconfig.trans hconfig, IdleTick.armed hfree ?_ ?_ (hoptIn hcounting)⟩
          · rw [harmauto]
            rfl
          · obtain ⟨hkept, _⟩ | ⟨_, _, _, htrigger, harmed | hfailed⟩ := houtcome
            · exact Or.inl (hkept.trans hmode)
            · exact Or.inr (Or.inl ⟨harmed, htrigger⟩)
            · exact Or.inr (Or.inr hfailed)
        · exact ⟨hconfig, IdleTick.counting hfree hmode (hoptIn hcounting)⟩

/-- The access point a tick itself arms is wanted now, and nothing was associated
since its countdown started. -/
def ArmedOnOptIn (r : AutoRun) : Prop :=
  r.recovery.mode = .armed → r.recovery.trigger = .auto ∧ r.recovery.config.enabled = true ∧
    r.recovery.config.autoEnabled = true ∧ r.sawAssociated = false

def sawAfter (counting saw associated : Bool) : Bool :=
  if counting then saw || associated else associated

theorem sawAfter_false {s : LeRecovery} {saw : Bool}
    (optIn : s.auto.counting = true → s.config.enabled = true ∧
      s.config.autoEnabled = true ∧ saw = false) :
    sawAfter s.auto.counting saw false = false := by
  cases hcounting : s.auto.counting with
  | false => rfl
  | true =>
      rw [(optIn hcounting).2.2]
      rfl

theorem idleTick_inv {s t : LeRecovery} {saw associated : Bool}
    (h : AutoInv { recovery := s, sawAssociated := saw }) (config : t.config = s.config)
    (k : IdleTick s t associated) (unarmed : s.mode ≠ .armed) (unhanded : s.mode ≠ .handover) :
    AutoInv { recovery := t, sawAssociated := sawAfter s.auto.counting saw associated } ∧
      ArmedOnOptIn { recovery := t, sawAssociated := sawAfter s.auto.counting saw associated } := by
  have hwanted : (s.auto.counting = true ∨ s.config.enabled = true ∧ s.config.autoEnabled = true) →
      t.config.enabled = true ∧ t.config.autoEnabled = true := by
    rw [config]
    rintro (hcounting | hoptIn)
    · exact ⟨(h.optIn hcounting).1, (h.optIn hcounting).2.1⟩
    · exact hoptIn
  cases k with
  | stopped counting mode =>
      refine ⟨⟨fun hcounting => (by cases counting.symm.trans hcounting), fun _ => counting, ?_⟩, ?_⟩
      · rw [mode]
        exact h.notStopping
      · exact fun harmed => absurd (mode.symm.trans harmed) unarmed
  | counting free mode optIn =>
      subst free
      have hsaw := sawAfter_false h.optIn
      refine ⟨⟨fun _ => ⟨(hwanted optIn).1, (hwanted optIn).2, hsaw⟩, ?_, ?_⟩, ?_⟩
      · exact fun hhandover => absurd (mode.symm.trans hhandover) unhanded
      · rw [mode]
        exact h.notStopping
      · exact fun harmed => absurd (mode.symm.trans harmed) unarmed
  | armed free counting mode optIn =>
      subst free
      have hsaw := sawAfter_false h.optIn
      refine ⟨⟨fun hcounting => (by cases counting.symm.trans hcounting), fun _ => counting, ?_⟩, ?_⟩
      · obtain hsame | ⟨harmed, _⟩ | hfailed := mode
        · rw [hsame]
          exact h.notStopping
        · rw [harmed]
          rintro ⟨⟩
        · rw [hfailed]
          rintro ⟨⟩
      · intro harmed
        obtain hsame | ⟨_, htrigger⟩ | hfailed := mode
        · exact absurd (hsame.symm.trans harmed) unarmed
        · exact ⟨htrigger, (hwanted optIn).1, (hwanted optIn).2, hsaw⟩
        · cases hfailed.symm.trans harmed

theorem sameAuto_inv {s t : LeRecovery} {saw : Bool}
    (h : AutoInv { recovery := s, sawAssociated := saw }) (k : SameAuto s t)
    (unarmed : t.mode ≠ .armed) (handover : t.mode = .handover → s.mode = .handover)
    (notStopping : t.mode ≠ .stopping) {associated : Bool}
    (unseen : s.auto.counting = true → associated = false) :
    AutoInv { recovery := t, sawAssociated := sawAfter s.auto.counting saw associated } ∧
      ArmedOnOptIn { recovery := t, sawAssociated := sawAfter s.auto.counting saw associated } := by
  refine ⟨⟨fun hcounting => ?_, fun hhandover => ?_, notStopping⟩, fun harmed => absurd harmed unarmed⟩
  · have hs : s.auto.counting = true := by
      rw [← k.auto]
      exact hcounting
    obtain ⟨henabled, hauto, _⟩ := h.optIn hs
    simp only [k.config, unseen hs]
    exact ⟨henabled, hauto, sawAfter_false h.optIn⟩
  · rw [k.auto]
    exact h.handover (handover hhandover)

theorem tickMode_inv {s : LeRecovery} {saw associated : Bool}
    (h : AutoInv { recovery := s, sawAssociated := saw }) (nowMs : Int)
    (unserved : associated = true → s.mode ≠ .active ∧ s.mode ≠ .starting)
    (unseen : s.auto.counting = true → s.mode = .armed → associated = false) :
    AutoInv
        { recovery := tickMode E s nowMs associated
          sawAssociated := sawAfter s.auto.counting saw associated } ∧
      ArmedOnOptIn
        { recovery := tickMode E s nowMs associated
          sawAssociated := sawAfter s.auto.counting saw associated } := by
  have hserved : s.mode = .active ∨ s.mode = .starting → associated = false := by
    intro hmode
    cases associated with
    | false => rfl
    | true =>
        obtain ⟨hactive, hstarting⟩ := unserved rfl
        exact (hmode.elim hactive hstarting).elim
  obtain ⟨hconfig, hidle⟩ := tickIdle_countdown E s nowMs associated
  rw [tickMode]
  split
  next harmed =>
    obtain ⟨hsame, hmode⟩ := startServices_sameAuto E (ensureSsid E s) nowMs
    have hnamed := SameAuto.of_kept (ensureSsid_quiet E s).kept
    obtain hstarting | hfailed := hmode
    · exact sameAuto_inv h (hnamed.trans hsame) (by rw [hstarting]; rintro ⟨⟩)
        (by rw [hstarting]; rintro ⟨⟩) (by rw [hstarting]; rintro ⟨⟩)
        (fun hcounting => unseen hcounting harmed)
    · exact sameAuto_inv h (hnamed.trans hsame) (by rw [hfailed]; rintro ⟨⟩)
        (by rw [hfailed]; rintro ⟨⟩) (by rw [hfailed]; rintro ⟨⟩)
        (fun hcounting => unseen hcounting harmed)
  next hstarting =>
    have hsame := tickStarting_sameAuto E s nowMs
    have hmode : (tickStarting E s nowMs).mode = .starting ∨
        (tickStarting E s nowMs).mode = .active ∨ (tickStarting E s nowMs).mode = .unavailable := by
      obtain ⟨_, _, hkept | hactive⟩ | ⟨_, hfailed⟩ := tickStarting_outcome E s nowMs
      · exact Or.inl (hkept.trans hstarting)
      · exact Or.inr (Or.inl hactive)
      · exact Or.inr (Or.inr hfailed)
    have hfree := hserved (Or.inr hstarting)
    obtain hm | hm | hm := hmode
    · exact sameAuto_inv h hsame (by rw [hm]; rintro ⟨⟩) (by rw [hm]; rintro ⟨⟩)
        (by rw [hm]; rintro ⟨⟩) (fun _ => hfree)
    · exact sameAuto_inv h hsame (by rw [hm]; rintro ⟨⟩) (by rw [hm]; rintro ⟨⟩)
        (by rw [hm]; rintro ⟨⟩) (fun _ => hfree)
    · exact sameAuto_inv h hsame (by rw [hm]; rintro ⟨⟩) (by rw [hm]; rintro ⟨⟩)
        (by rw [hm]; rintro ⟨⟩) (fun _ => hfree)
  next hm =>
    exact idleTick_inv h hconfig hidle (by rw [hm]; rintro ⟨⟩) (by rw [hm]; rintro ⟨⟩)
  next hm =>
    exact idleTick_inv h hconfig hidle (by rw [hm]; rintro ⟨⟩) (by rw [hm]; rintro ⟨⟩)
  next hm =>
    exact idleTick_inv h hconfig hidle (by rw [hm]; rintro ⟨⟩) (by rw [hm]; rintro ⟨⟩)
  next hm =>
    exact sameAuto_inv h ⟨rfl, rfl⟩ (by rw [hm]; rintro ⟨⟩) id (by rw [hm]; rintro ⟨⟩)
      (fun _ => hserved (Or.inl hm))
  next hm =>
    have hstill := h.handover hm
    exact sameAuto_inv h ⟨rfl, rfl⟩ (by rw [hm]; rintro ⟨⟩) id (by rw [hm]; rintro ⟨⟩)
      (fun hcounting => by cases hstill.symm.trans hcounting)
  next hm => exact absurd hm h.notStopping

theorem tick_autoInv {r : AutoRun} (h : AutoInv r) (nowMs : Int) (associated : Bool)
    (ok : OptInStands E r (.tick nowMs associated)) :
    AutoInv (autoStep E r (.tick nowMs associated)) ∧
      ArmedOnOptIn (autoStep E r (.tick nowMs associated)) := by
  obtain ⟨s, saw⟩ := r
  have hnow := (atTime_quiet s nowMs).kept
  simp only [autoStep, leRecoveryStep, leRecoveryTick]
  generalize atTime s nowMs = u at hnow ⊢
  have hu : AutoInv { recovery := u, sawAssociated := saw } := by
    refine ⟨?_, ?_, ?_⟩
    · rw [hnow.auto, hnow.config]
      exact h.optIn
    · rw [hnow.mode, hnow.auto]
      exact h.handover
    · rw [hnow.mode]
      exact h.notStopping
  split
  · obtain ⟨_, hmode, _, hcounting, _⟩ := leRecoveryStop_outcome E u nowMs (some "associated")
    refine ⟨⟨fun hc => (by cases hcounting.symm.trans hc), fun _ => hcounting, ?_⟩, ?_⟩
    · rw [hmode]
      rintro ⟨⟩
    · exact fun harmed => by cases hmode.symm.trans harmed
  next hserved =>
    have hkept : Kept u (tickRelease E u nowMs) := by
      rw [tickRelease]
      split
      · exact (releaseNetOwnership_outcome E u nowMs).1
      · rfl
    have hall := hnow.trans hkept
    generalize tickRelease E u nowMs = t at hkept hall ⊢
    have ht : AutoInv { recovery := t, sawAssociated := saw } := by
      refine ⟨?_, ?_, ?_⟩
      · rw [hkept.auto, hkept.config]
        exact hu.optIn
      · rw [hkept.mode, hkept.auto]
        exact hu.handover
      · rw [hkept.mode]
        exact hu.notStopping
    have htick := @tickMode_inv E _ _ associated ht nowMs
    rw [hall.auto, hall.mode] at htick
    apply htick
    · intro hassociated
      rw [← hnow.mode]
      exact not_or.mp fun hmode => hserved ⟨hassociated, hmode⟩
    · exact ok

theorem stop_autoInv (s : LeRecovery) (saw : Bool) (nowMs : Int) (reason : Option String) :
    AutoInv { recovery := leRecoveryStop E s nowMs reason, sawAssociated := saw } := by
  obtain ⟨_, hmode, _, hcounting, _⟩ := leRecoveryStop_outcome E s nowMs reason
  refine ⟨fun hc => (by cases hcounting.symm.trans hc), fun _ => hcounting, ?_⟩
  rw [hmode]
  rintro ⟨⟩

theorem configure_autoInv {s : LeRecovery} {saw : Bool}
    (h : AutoInv { recovery := s, sawAssociated := saw })
    {enabled autoEnabled autoTimeoutMs : Int}
    (ok : s.auto.counting = true → Accepted E s enabled autoEnabled autoTimeoutMs →
      ¬(enabled = 1 ∧ autoEnabled = 0)) :
    AutoInv
      { recovery := (leRecoveryConfigure E s enabled autoEnabled autoTimeoutMs).2
        sawAssociated := saw } := by
  simp only [leRecoveryConfigure]
  split
  · exact h
  next hvalid =>
    split
    · exact ⟨h.optIn, h.handover, h.notStopping⟩
    next hstored =>
      split
      next henabled =>
        have hone : enabled = 1 := by simpa [configureState] using henabled
        refine ⟨fun hcounting => ⟨henabled, ?_, (h.optIn hcounting).2.2⟩, h.handover, h.notStopping⟩
        have hstands := ok hcounting ⟨hvalid, hstored⟩
        have hrange : autoEnabled = 0 ∨ autoEnabled = 1 := by
          simp only [leRecoveryConfigValidate] at hvalid
          split at hvalid
          · cases hvalid
          split at hvalid
          · cases hvalid
          next hauto => exact or_iff_not_imp_left.mpr (not_and_not_right.mp hauto)
        obtain hzero | hauto := hrange
        · exact absurd ⟨hone, hzero⟩ hstands
        · simp [configureState, hauto]
      · exact stop_autoInv E _ saw _ _

theorem autoStep_inv (r : AutoRun) (op : LeRecoveryOp) (h : AutoInv r)
    (ok : OptInStands E r op) : AutoInv (autoStep E r op) := by
  obtain ⟨s, saw⟩ := r
  cases op with
  | arm trigger nowMs =>
      obtain ⟨hconfig, hauto, _, _, _, houtcome⟩ := leRecoveryArm_outcome E s trigger nowMs
      have hoptIn : (leRecoveryArm E s trigger nowMs).auto.counting = true →
          (leRecoveryArm E s trigger nowMs).config.enabled = true ∧
            (leRecoveryArm E s trigger nowMs).config.autoEnabled = true ∧ saw = false := by
        rw [hconfig, hauto]
        exact h.optIn
      obtain ⟨hmode, _⟩ | ⟨_, _, _, _, harmed | hfailed⟩ := houtcome
      · refine ⟨hoptIn, ?_, ?_⟩
        · simp only [autoStep, leRecoveryStep, hmode, hauto]
          exact h.handover
        · simp only [autoStep, leRecoveryStep, hmode]
          exact h.notStopping
      · refine ⟨hoptIn, fun hhandover => (by cases harmed.symm.trans hhandover), ?_⟩
        exact fun hstopping => by cases harmed.symm.trans hstopping
      · refine ⟨hoptIn, fun hhandover => (by cases hfailed.symm.trans hhandover), ?_⟩
        exact fun hstopping => by cases hfailed.symm.trans hstopping
  | tick nowMs associated => exact (tick_autoInv E h nowMs associated ok).1
  | stop nowMs reason => exact stop_autoInv E s saw nowMs reason
  | configure enabled autoEnabled autoTimeoutMs => exact configure_autoInv E h ok
  | handoverBegin nowMs =>
      simp only [autoStep, leRecoveryStep, leRecoveryHandoverBegin]
      split
      · exact h
      split
      · exact ⟨(by rintro ⟨⟩), fun _ => rfl, (by rintro ⟨⟩)⟩
      · exact h
  | handoverResult nowMs associated =>
      simp only [autoStep, leRecoveryStep, leRecoveryHandoverResult]
      split
      · exact h
      split
      · exact stop_autoInv E s saw nowMs _
      · exact ⟨(by rintro ⟨⟩), (by rintro ⟨⟩), (by rintro ⟨⟩)⟩

theorem start_autoInv (config : LeRecoveryConfig) (nowMs : Int) :
    AutoInv (AutoRun.start config nowMs) :=
  ⟨nofun, nofun, nofun⟩

/-- While the opt-in stands a tick that arms recovery does it on the owner's opt-in,
with no association seen since the countdown started. -/
theorem autoArm_onOptIn (config : LeRecoveryConfig) (startMs : Int) (ops : List LeRecoveryOp)
    (nowMs : Int) (associated : Bool)
    (stands : Admits (autoStep E) (OptInStands E) (AutoRun.start config startMs)
      (ops ++ [.tick nowMs associated])) :
    ArmedOnOptIn
      (run (autoStep E) (AutoRun.start config startMs) (ops ++ [.tick nowMs associated])) := by
  obtain ⟨hadmits, hlast⟩ := (admits_concat (autoStep E) (OptInStands E) _ ops _).mp stands
  have hinv := run_invariant (autoStep E) (autoStep_inv E) (start_autoInv config startMs) hadmits
  rw [run_concat]
  exact (tick_autoInv E hinv nowMs associated hlast).2

/-- The production configuration with the automatic fallback opted in. -/
def optedInConfig : LeRecoveryConfig := { productionConfig with autoEnabled := true }

theorem autoArm_onOptIn_timeout :
    ArmedOnOptIn (run (autoStep (workingBackend 0)) (AutoRun.start optedInConfig 0)
      ([.tick 0 false] ++ [.tick 120000 false])) :=
  autoArm_onOptIn (workingBackend 0) optedInConfig 0 [.tick 0 false] 120000 false
    ⟨fun _ _ => rfl, fun _ _ => rfl, True.intro⟩

/-- The owner withdraws the opt-in while the countdown runs; the tick at its end
still arms. -/
theorem autoArm_withdrawn :
    ¬ArmedOnOptIn (run (autoStep (workingBackend 0)) (AutoRun.start optedInConfig 0)
      ([.tick 0 false, .configure 1 0 120000] ++ [.tick 120000 false])) := by
  have harmed : (run (autoStep (workingBackend 0)) (AutoRun.start optedInConfig 0)
      ([.tick 0 false, .configure 1 0 120000] ++ [.tick 120000 false])).recovery.mode =
        .armed := by
    decide +kernel
  have hwithdrawn : (run (autoStep (workingBackend 0)) (AutoRun.start optedInConfig 0)
      ([.tick 0 false, .configure 1 0 120000] ++
        [.tick 120000 false])).recovery.config.autoEnabled = false := by
    decide +kernel
  intro h
  cases hwithdrawn.symm.trans (h harmed).2.2.1

end LibreEcho.Recovery
