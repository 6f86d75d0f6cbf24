import LibreEcho.Recovery.Core

/-!
What each function of the recovery lifecycle leaves alone.

The relations nest: a function keeps the lifecycle fields, or also the net
obligation and the helper runs, or also the children. Every function has one
lemma, and the invariants cite these and never unfold the functions.
-/
namespace LibreEcho.Recovery

/-- The net helper runs of a call trace: direction and success. -/
def netRuns (calls : List LeRecoveryCall) : List (Bool × Bool) :=
  calls.filterMap fun c =>
    match c with
    | .netHelper up ok => some (up, ok)
    | _ => none

def LeRecovery.runs (s : LeRecovery) : List (Bool × Bool) := netRuns s.calls

def LeRecoveryCall.isNetHelper : LeRecoveryCall → Bool
  | .netHelper _ _ => true
  | _ => false

structure LeRecoveryView where
  config : LeRecoveryConfig
  mode : LeRecoveryMode
  trigger : LeRecoveryTrigger
  auto : LeRecoveryAuto

def LeRecovery.view (s : LeRecovery) : LeRecoveryView :=
  { config := s.config, mode := s.mode, trigger := s.trigger, auto := s.auto }

def Kept (s t : LeRecovery) : Prop := t.view = s.view

structure SameNet (s t : LeRecovery) : Prop where
  kept : Kept s t
  net : t.net = s.net
  runs : t.runs = s.runs

structure Quiet (s t : LeRecovery) : Prop extends SameNet s t where
  children : t.children = s.children

namespace Kept
variable {s t w : LeRecovery}

theorem config (h : Kept s t) : t.config = s.config := congrArg LeRecoveryView.config h

theorem mode (h : Kept s t) : t.mode = s.mode := congrArg LeRecoveryView.mode h

theorem trigger (h : Kept s t) : t.trigger = s.trigger := congrArg LeRecoveryView.trigger h

theorem auto (h : Kept s t) : t.auto = s.auto := congrArg LeRecoveryView.auto h

theorem trans (h : Kept s t) (k : Kept t w) : Kept s w := Eq.trans k h

end Kept

theorem SameNet.refl (s : LeRecovery) : SameNet s s := ⟨rfl, rfl, rfl⟩

theorem SameNet.trans {s t w : LeRecovery} (h : SameNet s t) (k : SameNet t w) : SameNet s w :=
  ⟨h.kept.trans k.kept, k.net.trans h.net, k.runs.trans h.runs⟩

theorem Quiet.refl (s : LeRecovery) : Quiet s s := ⟨SameNet.refl s, rfl⟩

theorem Quiet.trans {s t w : LeRecovery} (h : Quiet s t) (k : Quiet t w) : Quiet s w :=
  ⟨h.toSameNet.trans k.toSameNet, k.children.trans h.children⟩

theorem runs_call (s : LeRecovery) {c : LeRecoveryCall} (h : c.isNetHelper = false) :
    (s.call c).runs = s.runs := by
  cases c with
  | netHelper up ok => exact nomatch h
  | _ => simp [LeRecovery.runs, LeRecovery.call, netRuns]

theorem runs_netHelper (s : LeRecovery) (up ok : Bool) :
    (s.call (.netHelper up ok)).runs = s.runs ++ [(up, ok)] := by
  simp [LeRecovery.runs, LeRecovery.call, netRuns]

theorem Quiet.call (s : LeRecovery) {c : LeRecoveryCall} (h : c.isNetHelper = false) :
    Quiet s (s.call c) :=
  ⟨⟨rfl, rfl, runs_call s h⟩, rfl⟩

variable (E : LeRecoveryEnvironment)

theorem atTime_quiet (s : LeRecovery) (nowMs : Int) : Quiet s (atTime s nowMs) :=
  ⟨⟨rfl, rfl, rfl⟩, rfl⟩

theorem backendAvailable_quiet (s : LeRecovery) (path : String) :
    Quiet s (backendAvailable E s path).2 :=
  Quiet.call s rfl

theorem probeCommand_quiet (s : LeRecovery) (path : String) :
    Quiet s (probeCommand E s path).2 := by
  have hfound := backendAvailable_quiet E s path
  simp only [probeCommand]
  split
  · exact Quiet.refl s
  · split
    · exact hfound
    · exact hfound.trans (Quiet.call _ rfl)

theorem capabilityMissing_quiet (s : LeRecovery) (reason : String) :
    Quiet s (capabilityMissing s reason).2 :=
  ⟨⟨rfl, rfl, rfl⟩, rfl⟩

theorem configuredAvailable_quiet (s : LeRecovery) (path : String) :
    Quiet s (configuredAvailable E s path).2 := by
  rw [configuredAvailable]
  split
  · exact Quiet.refl s
  · exact backendAvailable_quiet E s path

theorem haveDhcp_quiet (s : LeRecovery) : Quiet s (haveDhcp E s).2 := by
  have hdhcp := configuredAvailable_quiet E s s.config.dhcpBin
  simp only [haveDhcp]
  generalize configuredAvailable E s s.config.dhcpBin = dhcp at hdhcp ⊢
  split
  · exact hdhcp
  · exact hdhcp.trans (configuredAvailable_quiet E _ _)

theorem leRecoveryProbeCapabilities_quiet (s : LeRecovery) :
    Quiet s (leRecoveryProbeCapabilities E s).2 := by
  have hreset : Quiet s { s with available := false } := ⟨⟨rfl, rfl, rfl⟩, rfl⟩
  have hhostapd := hreset.trans (backendAvailable_quiet E _ s.config.hostapdBin)
  have hdhcp := hhostapd.trans (haveDhcp_quiet E _)
  have hprobe := hdhcp.trans (probeCommand_quiet E _ s.config.apProbeCmd)
  simp only [leRecoveryProbeCapabilities]
  generalize backendAvailable E { s with available := false } s.config.hostapdBin = hostapd
    at hhostapd hdhcp hprobe ⊢
  split
  · exact hhostapd.trans (capabilityMissing_quiet _ _)
  generalize haveDhcp E hostapd.2 = dhcp at hdhcp hprobe ⊢
  split
  · exact hdhcp.trans (capabilityMissing_quiet _ _)
  split
  · exact hdhcp.trans (capabilityMissing_quiet _ _)
  generalize probeCommand E dhcp.2 s.config.apProbeCmd = ap at hprobe ⊢
  split
  · exact hprobe.trans (capabilityMissing_quiet _ _)
  · exact hprobe.trans ⟨⟨rfl, rfl, rfl⟩, rfl⟩

theorem pskEnsure_quiet (s : LeRecovery) : Quiet s (pskEnsure E s).2 :=
  Quiet.call s rfl

theorem buildSsid_quiet (s : LeRecovery) : Quiet s (buildSsid E s) :=
  ⟨⟨rfl, rfl, runs_call s rfl⟩, rfl⟩

theorem ensureSsid_quiet (s : LeRecovery) : Quiet s (ensureSsid E s) := by
  rw [ensureSsid]
  split
  · exact buildSsid_quiet E s
  · exact Quiet.refl s

theorem writeConfig_quiet (s : LeRecovery) (path content overflow : String) :
    Quiet s (writeConfig E s path content overflow).2 := by
  simp only [writeConfig]
  split
  · exact Quiet.refl s
  · exact Quiet.call s rfl

theorem writeRecoveryConfigs_quiet (s : LeRecovery) :
    Quiet s (writeRecoveryConfigs E s).2 := by
  have hsecret := pskEnsure_quiet E s
  simp only [writeRecoveryConfigs]
  generalize pskEnsure E s = secret at hsecret ⊢
  split
  · exact hsecret
  next psk _ =>
  have hnamed := hsecret.trans (ensureSsid_quiet E secret.2)
  generalize ensureSsid E secret.2 = named at hnamed ⊢
  have hhostapd := hnamed.trans (writeConfig_quiet E named named.config.hostapdConf
    (hostapdConfig named.config named.ssid psk) "hostapd-config-overflow")
  generalize writeConfig E named _ _ _ = hostapd at hhostapd ⊢
  split
  · exact hhostapd
  · exact hhostapd.trans (writeConfig_quiet E _ _ _ _)

/-- A step that keeps the obligation and leaves every child it owns active. -/
structure Spawns (s t : LeRecovery) : Prop where
  same : SameNet s t
  active : (∀ p ∈ s.children, p.active = true) → ∀ p ∈ t.children, p.active = true

theorem Spawns.of_quiet {s t : LeRecovery} (h : Quiet s t) : Spawns s t := by
  refine ⟨h.toSameNet, fun active => ?_⟩
  rw [h.children]
  exact active

theorem Spawns.trans {s t w : LeRecovery} (h : Spawns s t) (k : Spawns t w) : Spawns s w :=
  ⟨h.same.trans k.same, fun active => k.active (h.active active)⟩

theorem spawnRefused_quiet (s : LeRecovery) (reason : String) :
    Quiet s (spawnRefused s reason).2 :=
  ⟨⟨rfl, rfl, rfl⟩, rfl⟩

theorem ownChild_spawns (s : LeRecovery) (name : String) (pid token : Nat) :
    Spawns s (ownChild s name pid token).2 := by
  rw [ownChild]
  split
  · exact Spawns.of_quiet (((Quiet.call s rfl).trans (Quiet.call _ rfl)).trans
      (spawnRefused_quiet _ _))
  · refine ⟨⟨rfl, rfl, rfl⟩, fun active p hp => ?_⟩
    obtain hp | hp := List.mem_append.mp hp
    · exact active p hp
    · rw [List.mem_singleton.mp hp]

theorem spawnChild_spawns (s : LeRecovery) (name : String) (argv : List String) :
    Spawns s (spawnChild E s name argv).2 := by
  have hspawned := Spawns.of_quiet (Quiet.call s (c := .spawn name) rfl)
  simp only [spawnChild]
  split
  · exact Spawns.of_quiet (spawnRefused_quiet s _)
  · generalize s.call (.spawn name) = t at hspawned ⊢
    split
    · exact hspawned.trans (Spawns.of_quiet (spawnRefused_quiet t _))
    · exact (hspawned.trans (Spawns.of_quiet (Quiet.call t rfl))).trans (ownChild_spawns _ _ _ _)

theorem spawnServices_spawns (s : LeRecovery) : Spawns s (spawnServices E s).2 := by
  have hrefused := fun reason => Spawns.of_quiet (spawnRefused_quiet s reason)
  simp only [spawnServices]
  split
  · split
    · exact hrefused _
    · exact spawnChild_spawns E s _ _
  · split
    · split
      · exact hrefused _
      · exact spawnChild_spawns E s _ _
    · exact ⟨SameNet.refl s, fun h => h⟩

theorem spawnAll_spawns (s : LeRecovery) : Spawns s (spawnAll E s).2 := by
  have hhostapd : Spawns s (spawnHostapd E s).2 := spawnChild_spawns E s _ _
  simp only [spawnAll]
  generalize spawnHostapd E s = hostapd at hhostapd ⊢
  split
  · exact hhostapd.trans (spawnServices_spawns E _)
  · exact hhostapd

theorem aliveLoop_same (children : List LeRecoveryProcess) (s : LeRecovery) :
    Quiet s (aliveLoop E children s).2.2 := by
  induction children generalizing s with
  | nil => exact Quiet.refl s
  | cons p rest ih =>
      have hwait := Quiet.call s (c := .waitChild p.pid) rfl
      simp only [aliveLoop]
      split
      · exact ih s
      · split
        · exact hwait
        · exact hwait
        · exact hwait.trans (ih _)

theorem childrenAlive_same (s : LeRecovery) : SameNet s (childrenAlive E s).2 := by
  have h := aliveLoop_same E s.children s
  exact ⟨h.kept, h.net, h.runs⟩

theorem aliveLoop_none {children : List LeRecoveryProcess} {s : LeRecovery}
    (alive : (aliveLoop E children s).1 = none) : (aliveLoop E children s).2.1 = children := by
  induction children generalizing s with
  | nil => rfl
  | cons p rest ih =>
      simp only [aliveLoop] at alive ⊢
      split at alive
      next hactive =>
        rw [if_pos hactive, ih alive]
      next hactive =>
        rw [if_neg hactive]
        cases hwait : E.waitChild s.callCount p.pid with
        | reaped => simp [hwait] at alive
        | failed => simp [hwait] at alive
        | alive =>
            simp only [hwait] at alive ⊢
            rw [ih alive]

theorem childrenAlive_none {s : LeRecovery} (alive : (childrenAlive E s).1 = none) :
    (childrenAlive E s).2.children = s.children :=
  aliveLoop_none E alive

structure HelperRun (s t : LeRecovery) (up ok : Bool) : Prop where
  kept : Kept s t
  net : t.net = s.net
  children : t.children = s.children
  runs : t.runs = s.runs ++ [(up, ok)]

theorem runNetHelper_run (s : LeRecovery) (path : String) (up : Bool) :
    HelperRun s (runNetHelper E s path up).2 up (runNetHelper E s path up).1 := by
  have hfound := backendAvailable_quiet E s path
  simp only [runNetHelper]
  split
  · exact ⟨rfl, rfl, rfl, runs_netHelper s up false⟩
  generalize backendAvailable E s path = found at hfound ⊢
  split
  · refine ⟨hfound.kept, hfound.net, hfound.children, ?_⟩
    rw [runs_netHelper, hfound.runs]
  · refine ⟨hfound.kept, hfound.net, hfound.children, ?_⟩
    rw [runs_netHelper, hfound.runs]

/-- What one call of `release_net_ownership` does to the obligation. -/
inductive NetRelease (s t : LeRecovery) : Prop where
  | notOwned (free : s.net.configured = false) (net : t.net = s.net) (runs : t.runs = s.runs)
  | released (owned : s.net.configured = true) (net : t.net = netReleased (netReleaseBudget s.net))
      (runs : t.runs = s.runs ++ [(false, true)])
  | failed (owned : s.net.configured = true) (nowMs : Int)
      (net : t.net = netDownFailed (netReleaseBudget s.net) nowMs)
      (runs : t.runs = s.runs ++ [(false, false)])

theorem releaseNetOwnership_outcome (s : LeRecovery) (nowMs : Int) :
    Kept s (releaseNetOwnership E s nowMs) ∧
      (releaseNetOwnership E s nowMs).children = s.children ∧
      NetRelease s (releaseNetOwnership E s nowMs) := by
  simp only [releaseNetOwnership]
  cases howned : s.net.configured with
  | false => exact ⟨rfl, rfl, NetRelease.notOwned howned rfl rfl⟩
  | true =>
      have hrun := runNetHelper_run E s s.config.netDownCmd false
      simp only [Bool.true_eq_false, ite_false]
      generalize runNetHelper E s s.config.netDownCmd false = run at hrun ⊢
      refine ⟨hrun.kept, hrun.children, ?_⟩
      obtain ⟨ok, t⟩ := run
      cases ok with
      | true => exact NetRelease.released howned rfl hrun.runs
      | false => exact NetRelease.failed howned nowMs rfl hrun.runs

theorem signalActive_quiet (kill : Bool) (children : List LeRecoveryProcess) (s : LeRecovery) :
    Quiet s (signalActive kill children s) := by
  induction children generalizing s with
  | nil => exact Quiet.refl s
  | cons p rest ih =>
      rw [signalActive]
      split
      · exact (Quiet.call s rfl).trans (ih _)
      · exact ih s

theorem reapRound_quiet (children : List LeRecoveryProcess) (s : LeRecovery) :
    Quiet s (reapRound E children s).2.2 := by
  induction children generalizing s with
  | nil => exact Quiet.refl s
  | cons p rest ih =>
      simp only [reapRound]
      split
      · exact ih s
      · exact (Quiet.call s rfl).trans (ih _)

theorem reapLoop_quiet (deadline : Int) (pauses : Nat) (nowMs : Int)
    (children : List LeRecoveryProcess) (s : LeRecovery) :
    Quiet s (reapLoop E deadline pauses nowMs children s).2.2 := by
  induction pauses generalizing nowMs children s with
  | zero => exact reapRound_quiet E children s
  | succ pauses ih =>
      have hround := reapRound_quiet E children s
      simp only [reapLoop]
      split
      · exact hround
      · exact hround.trans (ih _ _ _)

theorem killRemaining_quiet (children : List LeRecoveryProcess) (s : LeRecovery) :
    Quiet s (killRemaining children s) := by
  induction children generalizing s with
  | nil => exact Quiet.refl s
  | cons p rest ih =>
      rw [killRemaining]
      split
      · exact ((Quiet.call s rfl).trans (Quiet.call _ rfl)).trans (ih _)
      · exact ih s

theorem NetRelease.of_same {s t w : LeRecovery} (net : t.net = s.net) (runs : t.runs = s.runs)
    (k : NetRelease t w) : NetRelease s w := by
  cases k with
  | notOwned free net' runs' =>
      rw [net] at free net'
      rw [runs] at runs'
      exact NetRelease.notOwned free net' runs'
  | released owned net' runs' =>
      rw [net] at owned net'
      rw [runs] at runs'
      exact NetRelease.released owned net' runs'
  | failed owned nowMs net' runs' =>
      rw [net] at owned net'
      rw [runs] at runs'
      exact NetRelease.failed owned nowMs net' runs'

theorem NetRelease.to_same {s t w : LeRecovery} (k : NetRelease s t) (net : w.net = t.net)
    (runs : w.runs = t.runs) : NetRelease s w := by
  cases k with
  | notOwned free net' runs' => exact NetRelease.notOwned free (net.trans net') (runs.trans runs')
  | released owned net' runs' => exact NetRelease.released owned (net.trans net') (runs.trans runs')
  | failed owned nowMs net' runs' =>
      exact NetRelease.failed owned nowMs (net.trans net') (runs.trans runs')

theorem teardownChildren_outcome (s : LeRecovery) (nowMs : Int) :
    Kept s (teardownChildren E s nowMs) ∧ (teardownChildren E s nowMs).children = [] ∧
      NetRelease s (teardownChildren E s nowMs) := by
  simp only [teardownChildren]
  generalize hr : reapLoop E _ _ nowMs s.children (signalActive false s.children s) = r
  have hreaped : Quiet s r.2.2 := by
    rw [← hr]
    exact (signalActive_quiet false s.children s).trans (reapLoop_quiet E _ _ _ _ _)
  have hkilled := hreaped.trans (killRemaining_quiet r.2.1 r.2.2)
  generalize killRemaining r.2.1 r.2.2 = t at hkilled ⊢
  have hsame : SameNet s { t with children := [] } := ⟨hkilled.kept, hkilled.net, hkilled.runs⟩
  obtain ⟨hkept, hchildren, hrelease⟩ := releaseNetOwnership_outcome E { t with children := [] } r.1
  exact ⟨hsame.kept.trans hkept, hchildren, NetRelease.of_same hsame.net hsame.runs hrelease⟩

theorem unlinkMarker_quiet (s : LeRecovery) : Quiet s (unlinkMarker s) := by
  rw [unlinkMarker]
  split
  · exact Quiet.call s rfl
  · exact Quiet.refl s

theorem leRecoveryStop_outcome (s : LeRecovery) (nowMs : Int) (reason : Option String) :
    (leRecoveryStop E s nowMs reason).config = s.config ∧
      (leRecoveryStop E s nowMs reason).mode = .stopped ∧
      (leRecoveryStop E s nowMs reason).children = [] ∧
      (leRecoveryStop E s nowMs reason).auto.counting = false ∧
      NetRelease s (leRecoveryStop E s nowMs reason) := by
  obtain ⟨hkept, hchildren, hrelease⟩ :=
    teardownChildren_outcome E { s with mode := .stopping } nowMs
  rw [leRecoveryStop]
  generalize teardownChildren E { s with mode := .stopping } nowMs = t at hkept hchildren hrelease ⊢
  have hquiet := unlinkMarker_quiet t
  generalize unlinkMarker t = w at hquiet ⊢
  refine ⟨hquiet.kept.config.trans hkept.config, rfl, hquiet.children.trans hchildren, rfl, ?_⟩
  have hstopped : NetRelease s t :=
    NetRelease.of_same (t := { s with mode := .stopping }) rfl rfl hrelease
  exact hstopped.to_same hquiet.net hquiet.runs

theorem leRecoveryArm_outcome (s : LeRecovery) (trigger : LeRecoveryTrigger) (nowMs : Int) :
    (leRecoveryArm E s trigger nowMs).config = s.config ∧
      (leRecoveryArm E s trigger nowMs).auto = s.auto ∧
      (leRecoveryArm E s trigger nowMs).net = s.net ∧
      (leRecoveryArm E s trigger nowMs).runs = s.runs ∧
      (leRecoveryArm E s trigger nowMs).children = s.children ∧
      ((leRecoveryArm E s trigger nowMs).mode = s.mode ∧
          (leRecoveryArm E s trigger nowMs).trigger = s.trigger ∨
        s.mode ≠ .active ∧ s.mode ≠ .starting ∧ s.config.enabled = true ∧
          (leRecoveryArm E s trigger nowMs).trigger = trigger ∧
          ((leRecoveryArm E s trigger nowMs).mode = .armed ∨
            (leRecoveryArm E s trigger nowMs).mode = .unavailable)) := by
  have hsecret := pskEnsure_quiet E (armState s trigger nowMs)
  simp only [leRecoveryArm]
  split
  · exact ⟨rfl, rfl, rfl, rfl, rfl, Or.inl ⟨rfl, rfl⟩⟩
  next hidle =>
    split
    · exact ⟨rfl, rfl, rfl, rfl, rfl, Or.inl ⟨rfl, rfl⟩⟩
    next henabled =>
      have henabled' : s.config.enabled = true := by simpa using henabled
      obtain ⟨hactive, hstarting⟩ := not_or.mp hidle
      generalize pskEnsure E (armState s trigger nowMs) = secret at hsecret ⊢
      split
      · exact ⟨hsecret.kept.config, hsecret.kept.auto, hsecret.net, hsecret.runs, hsecret.children,
          Or.inr ⟨hactive, hstarting, henabled', hsecret.kept.trigger, Or.inr rfl⟩⟩
      · exact ⟨hsecret.kept.config, hsecret.kept.auto, hsecret.net, hsecret.runs, hsecret.children,
          Or.inr ⟨hactive, hstarting, henabled', hsecret.kept.trigger, Or.inl hsecret.kept.mode⟩⟩

end LibreEcho.Recovery
