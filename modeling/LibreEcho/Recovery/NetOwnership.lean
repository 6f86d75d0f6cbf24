import LibreEcho.Lib.Runs
import LibreEcho.Recovery.Frames

/-!
The net-down obligation.

The platform owns the portal from a successful net-up run until the next
successful net-down run. The lifecycle's flag follows the platform in every
reachable state, and ticks alone retry a failed net-down a bounded number of
times without ever forgetting it.
-/
namespace LibreEcho.Recovery
open Runs

/-- Whether the platform owns the portal after the helper runs. -/
def owns (runs : List (Bool × Bool)) : Bool :=
  runs.foldl (fun owned run => if run.2 then run.1 else owned) false

def downs (runs : List (Bool × Bool)) : List Bool :=
  runs.filterMap fun run => if run.1 then none else some run.2

@[simp] theorem owns_append_one (runs : List (Bool × Bool)) (up ok : Bool) :
    owns (runs ++ [(up, ok)]) = if ok then up else owns runs := by
  simp [owns]

@[simp] theorem downs_append_one (runs : List (Bool × Bool)) (ok : Bool) :
    downs (runs ++ [(false, ok)]) = downs runs ++ [ok] := by
  simp [downs]

/-- The flag follows the platform, and a pending release has tries left. -/
structure NetSound (s : LeRecovery) : Prop where
  owned : s.net.configured = owns s.runs
  pending : s.net.releasePending = true →
    s.net.configured = true ∧ s.net.releaseAttempts < leRecoveryNetDownMaxAttempts

def LeRecoveryMode.serving : LeRecoveryMode → Bool
  | .starting | .active => true
  | _ => false

/-- Between two operations a serving access point owes no release. -/
structure NetInv (s : LeRecovery) : Prop extends NetSound s where
  serving : s.mode.serving = true → s.net.releasePending = false

namespace NetSound
variable {s t : LeRecovery}

theorem same (h : NetSound s) (net : t.net = s.net) (runs : t.runs = s.runs) : NetSound t := by
  refine ⟨?_, ?_⟩
  · rw [net, runs]
    exact h.owned
  · rw [net]
    exact h.pending

theorem release (h : NetSound s) (k : NetRelease s t) : NetSound t := by
  cases k with
  | notOwned _ net runs => exact h.same net runs
  | released _ net runs =>
      refine ⟨?_, ?_⟩
      · rw [net, runs, owns_append_one]
        rfl
      · rw [net]
        exact nofun
  | failed owned nowMs net runs =>
      have hbudget : (netReleaseBudget s.net).configured = true := by
        rw [netReleaseBudget]
        split
        · exact owned
        · exact owned
      have hconfigured : t.net.configured = true := by
        rw [net, netDownFailed]
        split
        · exact hbudget
        · exact hbudget
      refine ⟨?_, fun hpending => ⟨hconfigured, ?_⟩⟩
      · rw [hconfigured, runs, owns_append_one, ← h.owned, owned]
        rfl
      · rw [net, netDownFailed] at hpending ⊢
        split at hpending
        · exact nomatch hpending
        next hleft =>
          rw [if_neg hleft]
          exact Nat.lt_of_not_le hleft

theorem helperUp (h : NetSound s) {ok : Bool} (k : HelperRun s t true ok)
    (failed : ok = false) : NetSound t := by
  refine ⟨?_, ?_⟩
  · rw [k.net, k.runs, failed, owns_append_one]
    exact h.owned
  · rw [k.net]
    exact h.pending

end NetSound

variable (E : LeRecoveryEnvironment)

theorem teardownChildren_sound {s : LeRecovery} (h : NetSound s) (nowMs : Int) :
    NetSound (teardownChildren E s nowMs) :=
  h.release (teardownChildren_outcome E s nowMs).2.2

theorem leRecoveryStop_sound {s : LeRecovery} (h : NetSound s) (nowMs : Int)
    (reason : Option String) : NetSound (leRecoveryStop E s nowMs reason) :=
  h.release (leRecoveryStop_outcome E s nowMs reason).2.2.2.2

theorem startChildren_sound {s : LeRecovery} (h : NetSound s)
    (quiet : s.net.releasePending = false) (nowMs : Int) :
    NetSound (startChildren E s nowMs) ∧
      ((startChildren E s nowMs).mode = .starting ∧
          (startChildren E s nowMs).net.releasePending = false ∨
        (startChildren E s nowMs).mode = .unavailable) := by
  have hspawned := (spawnAll_spawns E s).same
  simp only [startChildren]
  generalize spawnAll E s = spawned at hspawned ⊢
  have hsound := h.same hspawned.net hspawned.runs
  split
  · refine ⟨hsound.same rfl rfl, Or.inl ⟨rfl, ?_⟩⟩
    rw [← quiet]
    exact congrArg LeRecoveryNet.releasePending hspawned.net
  · exact ⟨(teardownChildren_sound E hsound nowMs).same rfl rfl, Or.inr rfl⟩

theorem startServices_sound {s : LeRecovery} (h : NetSound s) (nowMs : Int) :
    NetSound (startServices E s nowMs) ∧
      ((startServices E s nowMs).mode = .starting ∧
          (startServices E s nowMs).net.releasePending = false ∨
        (startServices E s nowMs).mode = .unavailable) := by
  have hcapable := leRecoveryProbeCapabilities_quiet E s
  simp only [startServices]
  generalize leRecoveryProbeCapabilities E s = capable at hcapable ⊢
  split
  · exact ⟨h.same hcapable.net hcapable.runs, Or.inr rfl⟩
  have hwritten := hcapable.trans (writeRecoveryConfigs_quiet E capable.2)
  generalize writeRecoveryConfigs E capable.2 = written at hwritten ⊢
  have hready := h.same hwritten.net hwritten.runs
  split
  · exact ⟨hready.same rfl rfl, Or.inr rfl⟩
  have htorn := teardownChildren_sound E hready nowMs
  generalize teardownChildren E written.2 nowMs = torn at htorn ⊢
  split
  · exact ⟨htorn.same rfl rfl, Or.inr rfl⟩
  have hup := runNetHelper_run E torn torn.config.netUpCmd true
  generalize runNetHelper E torn torn.config.netUpCmd true = up at hup ⊢
  split
  next hfailed => exact ⟨(htorn.helperUp hup hfailed).same rfl rfl, Or.inr rfl⟩
  next hok =>
    apply startChildren_sound
    · refine ⟨?_, nofun⟩
      show true = owns up.2.runs
      rw [hup.runs, Bool.not_eq_false _ |>.mp hok, owns_append_one]
      rfl
    · rfl

theorem verifyReady_same (s : LeRecovery) : SameNet s (verifyReady E s).2 := by
  have halive := childrenAlive_same E s
  simp only [verifyReady]
  generalize childrenAlive E s = alive at halive ⊢
  split
  · exact ⟨halive.kept, halive.net, halive.runs⟩
  · split
    · exact halive
    · have hready := halive.trans (probeCommand_quiet E alive.2 s.config.readyProbeCmd).toSameNet
      generalize probeCommand E alive.2 s.config.readyProbeCmd = ready at hready ⊢
      split
      · exact hready
      · exact ⟨hready.kept, hready.net, hready.runs⟩

theorem tickStarting_outcome (s : LeRecovery) (nowMs : Int) :
    ((tickStarting E s nowMs).net = s.net ∧ (tickStarting E s nowMs).runs = s.runs ∧
        ((tickStarting E s nowMs).mode = s.mode ∨ (tickStarting E s nowMs).mode = .active)) ∨
      NetRelease s (tickStarting E s nowMs) ∧ (tickStarting E s nowMs).mode = .unavailable := by
  rw [tickStarting]
  split
  · have hready := verifyReady_same E s
    simp only
    generalize verifyReady E s = ready at hready ⊢
    split
    · exact Or.inl ⟨hready.net, hready.runs, Or.inr rfl⟩
    · obtain ⟨hkept, _, hrelease⟩ := teardownChildren_outcome E
        { ready.2 with mode := .unavailable, ledActive := false } nowMs
      refine Or.inr ⟨?_, hkept.mode⟩
      exact NetRelease.of_same
        (t := { ready.2 with mode := .unavailable, ledActive := false })
        hready.net hready.runs hrelease
  · have halive := childrenAlive_same E s
    simp only
    generalize childrenAlive E s = alive at halive ⊢
    split
    next reason _ =>
      obtain ⟨hkept, _, hrelease⟩ := teardownChildren_outcome E
        { alive.2 with mode := .unavailable, lastError := reason } nowMs
      refine Or.inr ⟨?_, hkept.mode⟩
      exact NetRelease.of_same
        (t := { alive.2 with mode := .unavailable, lastError := reason })
        halive.net halive.runs hrelease
    · exact Or.inl ⟨halive.net, halive.runs, Or.inl halive.kept.mode⟩

theorem startCountdown_keeps (s : LeRecovery) (nowMs : Int) (associated : Bool) :
    (startCountdown s nowMs associated).net = s.net ∧
      (startCountdown s nowMs associated).runs = s.runs ∧
      (startCountdown s nowMs associated).mode = s.mode := by
  rw [startCountdown]
  split
  · exact ⟨rfl, rfl, rfl⟩
  · exact ⟨rfl, rfl, rfl⟩

theorem tickIdle_outcome (s : LeRecovery) (nowMs : Int) (associated : Bool) :
    (tickIdle E s nowMs associated).net = s.net ∧
      (tickIdle E s nowMs associated).runs = s.runs ∧
      ((tickIdle E s nowMs associated).mode = s.mode ∨
        (tickIdle E s nowMs associated).mode = .armed ∨
        (tickIdle E s nowMs associated).mode = .unavailable) := by
  obtain ⟨hnet, hruns, hmode⟩ := startCountdown_keeps s nowMs associated
  simp only [tickIdle]
  generalize startCountdown s nowMs associated = t at hnet hruns hmode ⊢
  split
  · exact ⟨hnet, hruns, Or.inl hmode⟩
  split
  · obtain ⟨_, _, harmnet, harmruns, _, ⟨hkept, _⟩ | ⟨_, _, _, _, harmed⟩⟩ :=
      leRecoveryArm_outcome E (stopCountdown t) .auto nowMs
    · exact ⟨harmnet.trans hnet, harmruns.trans hruns, Or.inl (hkept.trans hmode)⟩
    · exact ⟨harmnet.trans hnet, harmruns.trans hruns, Or.inr harmed⟩
  · exact ⟨hnet, hruns, Or.inl hmode⟩

theorem tickMode_unserved {s : LeRecovery} (unarmed : s.mode ≠ .armed)
    (unserved : s.mode.serving = false) (nowMs : Int) (associated : Bool) :
    (tickMode E s nowMs associated).net = s.net ∧
      (tickMode E s nowMs associated).runs = s.runs ∧
      (tickMode E s nowMs associated).mode.serving = false := by
  obtain ⟨hnet, hruns, hmode⟩ := tickIdle_outcome E s nowMs associated
  have hidle : (tickIdle E s nowMs associated).mode.serving = false := by
    obtain hsame | harmed | hfailed := hmode
    · rw [hsame]
      exact unserved
    · rw [harmed]
      rfl
    · rw [hfailed]
      rfl
  rw [tickMode]
  cases hm : s.mode with
  | armed => exact absurd hm unarmed
  | starting | active =>
      rw [hm] at unserved
      exact nomatch unserved
  | client | unavailable | stopped => exact ⟨hnet, hruns, hidle⟩
  | handover | stopping => exact ⟨rfl, rfl, unserved⟩

theorem leRecoveryTick_outcome {s : LeRecovery} (h : NetInv s) (unarmed : s.mode ≠ .armed)
    (nowMs : Int) (associated : Bool) :
    let t := leRecoveryTick E s nowMs associated
    (t.net = s.net ∧ t.runs = s.runs ∧ (t.mode.serving = true → s.mode.serving = true)) ∨
      (NetRelease s t ∧ t.mode.serving = false ∧
        (s.net.releasePending = true ∨ s.mode.serving = true)) := by
  have hnow := atTime_quiet s nowMs
  simp only [leRecoveryTick]
  generalize atTime s nowMs = u at hnow ⊢
  have hmode : u.mode = s.mode := hnow.kept.mode
  split
  next hstop =>
    obtain ⟨_, hstopped, _, _, hrelease⟩ := leRecoveryStop_outcome E u nowMs (some "associated")
    refine Or.inr ⟨NetRelease.of_same hnow.net hnow.runs hrelease, ?_, Or.inr ?_⟩
    · rw [hstopped]
      rfl
    · rw [← hmode]
      obtain hactive | hstarting := hstop.2
      · rw [hactive]
        rfl
      · rw [hstarting]
        rfl
  rw [tickRelease]
  split
  next hdue =>
    have hpending : s.net.releasePending = true := by
      rw [← hnow.net]
      exact hdue.1
    obtain ⟨hkept, _, hrelease⟩ := releaseNetOwnership_outcome E u nowMs
    generalize releaseNetOwnership E u nowMs = t at hkept hrelease ⊢
    have htmode : t.mode = s.mode := hkept.mode.trans hmode
    have hunserved : t.mode.serving = false := by
      rw [htmode]
      cases hserving : s.mode.serving with
      | false => rfl
      | true => cases hpending.symm.trans (h.serving hserving)
    obtain ⟨hnet, hruns, hidle⟩ := tickMode_unserved E (by rw [htmode]; exact unarmed) hunserved
      nowMs associated
    exact Or.inr ⟨(NetRelease.of_same hnow.net hnow.runs hrelease).to_same hnet hruns, hidle,
      Or.inl hpending⟩
  · rw [← hmode] at unarmed ⊢
    cases hserving : u.mode.serving with
    | false =>
        obtain ⟨hnet, hruns, hidle⟩ := tickMode_unserved E unarmed hserving nowMs associated
        refine Or.inl ⟨hnet.trans hnow.net, hruns.trans hnow.runs, fun hserved => ?_⟩
        cases hidle.symm.trans hserved
    | true =>
        rw [tickMode]
        split
        next harmed => exact absurd harmed unarmed
        · obtain ⟨hnet, hruns, _⟩ | ⟨hrelease, hfailed⟩ := tickStarting_outcome E u nowMs
          · exact Or.inl ⟨hnet.trans hnow.net, hruns.trans hnow.runs, fun _ => rfl⟩
          · refine Or.inr ⟨NetRelease.of_same hnow.net hnow.runs hrelease, ?_, Or.inr rfl⟩
            rw [hfailed]
            rfl
        · obtain ⟨hnet, hruns, _⟩ := tickIdle_outcome E u nowMs associated
          exact Or.inl ⟨hnet.trans hnow.net, hruns.trans hnow.runs, fun _ => rfl⟩
        · obtain ⟨hnet, hruns, _⟩ := tickIdle_outcome E u nowMs associated
          exact Or.inl ⟨hnet.trans hnow.net, hruns.trans hnow.runs, fun _ => rfl⟩
        · obtain ⟨hnet, hruns, _⟩ := tickIdle_outcome E u nowMs associated
          exact Or.inl ⟨hnet.trans hnow.net, hruns.trans hnow.runs, fun _ => rfl⟩
        · exact Or.inl ⟨hnow.net, hnow.runs, fun _ => rfl⟩
        · exact Or.inl ⟨hnow.net, hnow.runs, fun _ => rfl⟩
        · exact Or.inl ⟨hnow.net, hnow.runs, fun _ => rfl⟩

namespace NetInv
variable {s t : LeRecovery}

theorem of_unserved (h : NetSound t) (unserved : t.mode.serving = false) : NetInv t :=
  ⟨h, fun hserving => by cases unserved.symm.trans hserving⟩

theorem same (h : NetInv s) (net : t.net = s.net) (runs : t.runs = s.runs)
    (mode : t.mode.serving = true → s.mode.serving = true) : NetInv t := by
  refine ⟨h.toNetSound.same net runs, fun hserving => ?_⟩
  rw [net]
  exact h.serving (mode hserving)

theorem quiet (h : NetInv s) (k : Quiet s t) : NetInv t := by
  refine h.same k.net k.runs ?_
  rw [k.kept.mode]
  exact id

theorem stop (h : NetInv s) (nowMs : Int) (reason : Option String) :
    NetInv (leRecoveryStop E s nowMs reason) := by
  refine of_unserved (leRecoveryStop_sound E h.toNetSound nowMs reason) ?_
  rw [(leRecoveryStop_outcome E s nowMs reason).2.1]
  rfl

end NetInv

theorem tick_armed_netInv {s : LeRecovery} (h : NetInv s) (armed : s.mode = .armed)
    (nowMs : Int) (associated : Bool) : NetInv (leRecoveryTick E s nowMs associated) := by
  have hnow := atTime_quiet s nowMs
  have hsound := (h.quiet hnow).toNetSound
  simp only [leRecoveryTick]
  generalize atTime s nowMs = u at hnow hsound ⊢
  have hmode : u.mode = .armed := hnow.kept.mode.trans armed
  rw [if_neg (by simp [hmode])]
  have hreleased : NetSound (tickRelease E u nowMs) ∧ (tickRelease E u nowMs).mode = .armed := by
    rw [tickRelease]
    split
    · obtain ⟨hkept, _, hrelease⟩ := releaseNetOwnership_outcome E u nowMs
      exact ⟨hsound.release hrelease, hkept.mode.trans hmode⟩
    · exact ⟨hsound, hmode⟩
  obtain ⟨hsound', hmode'⟩ := hreleased
  generalize tickRelease E u nowMs = t at hsound' hmode' ⊢
  have hnamed := ensureSsid_quiet E t
  rw [tickMode, hmode']
  obtain ⟨hstarted, ⟨_, hfree⟩ | hfailed⟩ :=
    startServices_sound E (hsound'.same hnamed.net hnamed.runs) nowMs
  · exact ⟨hstarted, fun _ => hfree⟩
  · exact NetInv.of_unserved hstarted (congrArg LeRecoveryMode.serving hfailed)

theorem leRecoveryTick_netInv {s : LeRecovery} (h : NetInv s) (nowMs : Int)
    (associated : Bool) : NetInv (leRecoveryTick E s nowMs associated) := by
  by_cases harmed : s.mode = .armed
  · exact tick_armed_netInv E h harmed nowMs associated
  · obtain ⟨hnet, hruns, hserving⟩ | ⟨hrelease, hunserved, _⟩ :=
      leRecoveryTick_outcome E h harmed nowMs associated
    · exact h.same hnet hruns hserving
    · exact NetInv.of_unserved (h.toNetSound.release hrelease) hunserved

theorem leRecoveryConfigure_netInv {s : LeRecovery} (h : NetInv s)
    (enabled autoEnabled autoTimeoutMs : Int) :
    NetInv (leRecoveryConfigure E s enabled autoEnabled autoTimeoutMs).2 := by
  have hcall := fun ok => h.quiet (Quiet.call s (c := .configPersist ok) rfl)
  simp only [leRecoveryConfigure]
  split
  · exact h
  split
  · exact hcall false
  have hstate : NetInv
      (configureState (s.call (.configPersist true)) enabled autoEnabled autoTimeoutMs) :=
    (hcall true).same rfl rfl id
  generalize configureState _ enabled autoEnabled autoTimeoutMs = t at hstate ⊢
  split
  · exact hstate
  · exact hstate.stop E _ _

theorem leRecoveryStep_netInv (s : LeRecovery) (op : LeRecoveryOp) (h : NetInv s) :
    NetInv (leRecoveryStep E s op) := by
  cases op with
  | arm trigger nowMs =>
      obtain ⟨_, _, hnet, hruns, _, ⟨hmode, _⟩ | ⟨_, _, _, _, harmed⟩⟩ :=
        leRecoveryArm_outcome E s trigger nowMs
      · refine h.same hnet hruns ?_
        rw [leRecoveryStep, hmode]
        exact id
      · refine NetInv.of_unserved (h.toNetSound.same hnet hruns) ?_
        obtain harmed | hfailed := harmed
        · exact congrArg LeRecoveryMode.serving harmed
        · exact congrArg LeRecoveryMode.serving hfailed
  | tick nowMs associated => exact leRecoveryTick_netInv E h nowMs associated
  | stop nowMs reason => exact h.stop E nowMs reason
  | configure enabled autoEnabled autoTimeoutMs =>
      exact leRecoveryConfigure_netInv E h enabled autoEnabled autoTimeoutMs
  | handoverBegin nowMs =>
      simp only [leRecoveryStep, leRecoveryHandoverBegin]
      split
      · exact h
      split
      · have htorn := teardownChildren_sound E h.toNetSound nowMs
        exact NetInv.of_unserved (htorn.same rfl rfl) rfl
      · exact h
  | handoverResult nowMs associated =>
      simp only [leRecoveryStep, leRecoveryHandoverResult]
      split
      · exact h
      split
      · exact h.stop E nowMs _
      · exact NetInv.of_unserved (h.toNetSound.same rfl rfl) rfl

theorem init_netInv (config : LeRecoveryConfig) (nowMs : Int) :
    NetInv (leRecoveryInit config nowMs) :=
  ⟨⟨rfl, nofun⟩, nofun⟩

theorem reachable_netInv (config : LeRecoveryConfig) (nowMs : Int) (ops : List LeRecoveryOp) :
    NetInv (run (leRecoveryStep E) (leRecoveryInit config nowMs) ops) :=
  run_invariant_always (leRecoveryStep E) (leRecoveryStep_netInv E) (init_netInv config nowMs) ops

/-! ### Stretches of ticks -/

def tickStep (s : LeRecovery) (tick : Int × Bool) : LeRecovery :=
  leRecoveryTick E s tick.1 tick.2

/-- Where a stretch of ticks stands that began with the obligation `net` and whose
net-down runs had these outcomes. -/
inductive Stretch (net : LeRecoveryNet) (t : LeRecovery) (outcomes : List Bool) : Prop where
  | untried (none : outcomes = []) (net : t.net = net)
  | released (free : t.net.configured = false) (bounded : outcomes.length ≤ 3)
      (succeeded : true ∈ outcomes)
  | retrying (owned : t.net.configured = true) (pending : t.net.releasePending = true)
      (unserved : t.mode.serving = false) (tried : outcomes.length ≤ t.net.releaseAttempts)
  | gaveUp (owned : t.net.configured = true) (settled : t.net.releasePending = false)
      (unserved : t.mode.serving = false) (bounded : outcomes.length ≤ 3)
      (error : t.net.error = "net-down-gave-up")

namespace Stretch
variable {net : LeRecoveryNet} {s t : LeRecovery} {outcomes : List Bool}

theorem same (h : Stretch net s outcomes) (kept : t.net = s.net)
    (mode : t.mode.serving = true → s.mode.serving = true) : Stretch net t outcomes := by
  have hunserved : s.mode.serving = false → t.mode.serving = false := by
    intro hs
    cases ht : t.mode.serving with
    | false => rfl
    | true => cases hs.symm.trans (mode ht)
  cases h with
  | untried none same => exact untried none (kept.trans same)
  | released free bounded succeeded =>
      rw [← kept] at free
      exact released free bounded succeeded
  | retrying owned pending unserved tried =>
      rw [← kept] at owned pending tried
      exact retrying owned pending (hunserved unserved) tried
  | gaveUp owned settled unserved bounded error =>
      rw [← kept] at owned settled error
      exact gaveUp owned settled (hunserved unserved) bounded error

theorem tries_left (h : Stretch net s outcomes) (inv : NetInv s)
    (owned : s.net.configured = true)
    (due : s.net.releasePending = true ∨ s.mode.serving = true) :
    outcomes.length ≤ (netReleaseBudget s.net).releaseAttempts ∧
      (netReleaseBudget s.net).releaseAttempts < 3 := by
  have hbudget : (netReleaseBudget s.net).releaseAttempts < 3 := by
    rw [netReleaseBudget]
    split
    next hpending => exact (inv.pending hpending).2
    · exact Nat.zero_lt_succ 2
  refine ⟨?_, hbudget⟩
  cases h with
  | untried none same =>
      rw [none]
      exact Nat.zero_le _
  | released free _ _ => cases owned.symm.trans free
  | retrying _ pending _ tried =>
      rw [netReleaseBudget, if_pos pending]
      exact tried
  | gaveUp _ settled unserved _ _ =>
      obtain hpending | hserving := due
      · cases hpending.symm.trans settled
      · cases hserving.symm.trans unserved

theorem run_failed (h : Stretch net s outcomes) (inv : NetInv s)
    (owned : s.net.configured = true)
    (due : s.net.releasePending = true ∨ s.mode.serving = true) {nowMs : Int}
    (failed : t.net = netDownFailed (netReleaseBudget s.net) nowMs)
    (unserved : t.mode.serving = false) : Stretch net t (outcomes ++ [false]) := by
  obtain ⟨htried, hleft⟩ := h.tries_left inv owned due
  have hlength : (outcomes ++ [false]).length = outcomes.length + 1 := by simp
  have hconfigured : (netReleaseBudget s.net).configured = true := by
    rw [netReleaseBudget]
    split
    · exact owned
    · exact owned
  rw [netDownFailed] at failed
  split at failed
  · refine gaveUp ?_ ?_ unserved (by omega) ?_
    · rw [failed]
      exact hconfigured
    · rw [failed]
    · rw [failed]
  · refine retrying ?_ ?_ unserved ?_
    · rw [failed]
      exact hconfigured
    · rw [failed]
    · rw [failed, hlength]
      exact Nat.succ_le_succ htried

theorem run_released (h : Stretch net s outcomes) (inv : NetInv s)
    (owned : s.net.configured = true)
    (due : s.net.releasePending = true ∨ s.mode.serving = true)
    (freed : t.net = netReleased (netReleaseBudget s.net)) :
    Stretch net t (outcomes ++ [true]) := by
  obtain ⟨htried, hleft⟩ := h.tries_left inv owned due
  have hlength : (outcomes ++ [true]).length = outcomes.length + 1 := by simp
  refine released ?_ (by omega) ?_
  · rw [freed]
    rfl
  · exact List.mem_append_right _ (List.mem_singleton_self true)

end Stretch

theorem tickStep_stretch {net : LeRecoveryNet} {s : LeRecovery} {outcomes : List Bool}
    (h : Stretch net s outcomes) (inv : NetInv s) (unarmed : s.mode ≠ .armed)
    (tick : Int × Bool) :
    ∃ more, downs (tickStep E s tick).runs = downs s.runs ++ more ∧
      Stretch net (tickStep E s tick) (outcomes ++ more) := by
  rw [tickStep]
  obtain ⟨hnet, hruns, hserving⟩ | ⟨hrelease, hunserved, hdue⟩ :=
    leRecoveryTick_outcome E inv unarmed tick.1 tick.2
  · refine ⟨[], ?_, ?_⟩
    · rw [hruns, List.append_nil]
    · rw [List.append_nil]
      exact h.same hnet hserving
  · cases hrelease with
    | notOwned _ hnet hruns =>
        refine ⟨[], ?_, ?_⟩
        · rw [hruns, List.append_nil]
        · rw [List.append_nil]
          exact h.same hnet fun hserved => by cases hunserved.symm.trans hserved
    | released owned hnet hruns =>
        refine ⟨[true], ?_, h.run_released inv owned hdue hnet⟩
        rw [hruns, downs_append_one]
    | failed owned nowMs hnet hruns =>
        refine ⟨[false], ?_, h.run_failed inv owned hdue hnet hunserved⟩
        rw [hruns, downs_append_one]

theorem ticks_stretch {net : LeRecoveryNet} (ticks : List (Int × Bool)) {s : LeRecovery}
    {outcomes : List Bool} (h : Stretch net s outcomes) (inv : NetInv s)
    (unarmed : Admits (tickStep E) (fun s _ => s.mode ≠ .armed) s ticks) :
    ∃ more, downs (run (tickStep E) s ticks).runs = downs s.runs ++ more ∧
      Stretch net (run (tickStep E) s ticks) (outcomes ++ more) := by
  induction ticks generalizing s outcomes with
  | nil =>
      refine ⟨[], ?_, ?_⟩
      · rw [run_nil, List.append_nil]
      · rw [List.append_nil]
        exact h
  | cons tick rest ih =>
      obtain ⟨first, hfirst, hstretch⟩ := tickStep_stretch E h inv unarmed.1 tick
      obtain ⟨more, hmore, hend⟩ :=
        ih hstretch (leRecoveryTick_netInv E inv tick.1 tick.2) unarmed.2
      refine ⟨first ++ more, ?_, ?_⟩
      · rw [run_cons, hmore, hfirst, List.append_assoc]
      · rw [run_cons, ← List.append_assoc]
        exact hend

/-- In every reachable state the flag is the platform's ownership and a pending
release has tries left; a stretch of ticks outside ARMED runs net-down at most three
times, and three failures end in the recorded debt. -/
theorem netOwnership_kept (config : LeRecoveryConfig) (nowMs : Int) (ops : List LeRecoveryOp) :
    let s := run (leRecoveryStep E) (leRecoveryInit config nowMs) ops
    s.net.configured = owns s.runs ∧
      (s.net.releasePending = true → s.net.configured = true ∧
        s.net.releaseAttempts < leRecoveryNetDownMaxAttempts) ∧
      ∀ ticks, Admits (tickStep E) (fun s _ => s.mode ≠ .armed) s ticks →
        let t := run (tickStep E) s ticks
        ∃ outcomes, downs t.runs = downs s.runs ++ outcomes ∧
          outcomes.length ≤ leRecoveryNetDownMaxAttempts ∧
          (outcomes.length = leRecoveryNetDownMaxAttempts → true ∈ outcomes ∨
            t.net.error = "net-down-gave-up" ∧ t.net.configured = true) := by
  have hinv := reachable_netInv E config nowMs ops
  refine ⟨hinv.owned, hinv.pending, fun ticks unarmed => ?_⟩
  simp only
  generalize run (leRecoveryStep E) (leRecoveryInit config nowMs) ops = s at hinv unarmed ⊢
  obtain ⟨outcomes, hdowns, hend⟩ :=
    ticks_stretch E ticks (Stretch.untried rfl rfl : Stretch s.net s []) hinv unarmed
  have hpreserved : ∀ s tick, NetInv s → NetInv (tickStep E s tick) :=
    fun _ tick h => leRecoveryTick_netInv E h tick.1 tick.2
  have hinv' := run_invariant_always (tickStep E) hpreserved hinv ticks
  refine ⟨outcomes, hdowns, ?_⟩
  rw [List.nil_append] at hend
  cases hend with
  | untried none _ =>
      rw [none]
      exact ⟨Nat.zero_le _, nofun⟩
  | released _ bounded succeeded => exact ⟨bounded, fun _ => Or.inl succeeded⟩
  | retrying _ pending _ tried =>
      have hleft := (hinv'.pending pending).2
      exact ⟨by omega, fun _ => by omega⟩
  | gaveUp owned _ _ bounded error => exact ⟨bounded, fun _ => Or.inr ⟨error, owned⟩⟩

end LibreEcho.Recovery
