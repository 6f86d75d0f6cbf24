import LibreEcho.Recovery.NetOwnership

/-!
Ownership and liveness of the access-point children.

Outside STARTING and ACTIVE no child is owned. A tick in STARTING asks after
every child and fails closed when one is gone; a tick in ACTIVE asks after none.
-/
namespace LibreEcho.Recovery
open Runs

/-- From call `k` on the backend never reports the process alive. -/
def Exited (E : LeRecoveryEnvironment) (k pid : Nat) : Prop :=
  ∀ j, k ≤ j → E.waitChild j pid ≠ .alive

/-- Only a serving access point owns children, and those it owns are active. -/
structure ChildInv (s : LeRecovery) : Prop where
  unserved : s.mode.serving = false → s.children = []
  active : ∀ p ∈ s.children, p.active = true

variable {E : LeRecoveryEnvironment}

theorem callCount_call (s : LeRecovery) (c : LeRecoveryCall) :
    (s.call c).callCount = s.callCount + 1 := by
  simp [LeRecovery.callCount, LeRecovery.call]

theorem aliveLoop_exited {children : List LeRecoveryProcess} {s : LeRecovery} {k : Nat}
    {p : LeRecoveryProcess} (member : p ∈ children) (active : p.active = true)
    (exited : Exited E k p.pid) (later : k ≤ s.callCount) :
    (aliveLoop E children s).1 ≠ none := by
  induction children generalizing s with
  | nil => cases member
  | cons q rest ih =>
      simp only [aliveLoop]
      obtain rfl | hrest := List.mem_cons.mp member
      · rw [if_neg (by rw [active]; rintro ⟨⟩)]
        cases hwait : E.waitChild s.callCount p.pid with
        | alive => exact absurd hwait (exited s.callCount later)
        | reaped => rintro ⟨⟩
        | failed => rintro ⟨⟩
      · split
        · exact ih hrest later
        · split
          · rintro ⟨⟩
          · rintro ⟨⟩
          · exact ih hrest (by rw [callCount_call]; exact Nat.le_succ_of_le later)

theorem childrenAlive_exited {s : LeRecovery} {p : LeRecoveryProcess} (member : p ∈ s.children)
    (active : p.active = true) (exited : Exited E s.callCount p.pid) :
    (childrenAlive E s).1 ≠ none :=
  aliveLoop_exited member active exited (Nat.le_refl _)

namespace ChildInv
variable {s t : LeRecovery}

theorem of_empty (h : t.children = []) : ChildInv t := by
  refine ⟨fun _ => h, fun p hp => ?_⟩
  rw [h] at hp
  exact nomatch hp

theorem same (h : ChildInv s) (children : t.children = s.children)
    (mode : t.mode.serving = false → s.mode.serving = false) : ChildInv t := by
  refine ⟨fun hunserved => ?_, ?_⟩
  · rw [children]
    exact h.unserved (mode hunserved)
  · rw [children]
    exact h.active

theorem stop (nowMs : Int) (reason : Option String) :
    ChildInv (leRecoveryStop E s nowMs reason) :=
  of_empty (leRecoveryStop_outcome E s nowMs reason).2.2.1

end ChildInv

theorem startChildren_childInv {s : LeRecovery} (h : s.children = []) (nowMs : Int) :
    ChildInv (startChildren E s nowMs) := by
  have hspawned := (spawnAll_spawns E s).active
  simp only [startChildren]
  generalize spawnAll E s = spawned at hspawned ⊢
  split
  · refine ⟨(by rintro ⟨⟩), ?_⟩
    apply hspawned
    rw [h]
    rintro _ ⟨⟩
  · exact ChildInv.of_empty (teardownChildren_outcome E spawned.2 nowMs).2.1

theorem startServices_childInv {s : LeRecovery} (h : s.children = []) (nowMs : Int) :
    ChildInv (startServices E s nowMs) := by
  have hcapable := leRecoveryProbeCapabilities_quiet E s
  simp only [startServices]
  generalize leRecoveryProbeCapabilities E s = capable at hcapable ⊢
  split
  · exact ChildInv.of_empty (hcapable.children.trans h)
  have hwritten := hcapable.trans (writeRecoveryConfigs_quiet E capable.2)
  generalize writeRecoveryConfigs E capable.2 = written at hwritten ⊢
  split
  · exact ChildInv.of_empty (hwritten.children.trans h)
  have htorn := (teardownChildren_outcome E written.2 nowMs).2.1
  generalize teardownChildren E written.2 nowMs = torn at htorn ⊢
  split
  · exact ChildInv.of_empty htorn
  have hup := (runNetHelper_run E torn torn.config.netUpCmd true).children
  generalize runNetHelper E torn torn.config.netUpCmd true = up at hup ⊢
  split
  · exact ChildInv.of_empty (hup.trans htorn)
  · apply startChildren_childInv
    exact hup.trans htorn

theorem verifyReady_children {s : LeRecovery} (ready : (verifyReady E s).1 = true) :
    (verifyReady E s).2.children = s.children ∧ (childrenAlive E s).1 = none := by
  have halive := @childrenAlive_none E s
  simp only [verifyReady] at ready ⊢
  generalize childrenAlive E s = alive at halive ready ⊢
  cases hreason : alive.1 with
  | some reason =>
      rw [hreason] at ready
      cases ready
  | none =>
      simp only [hreason] at ready ⊢
      have hkept := halive hreason
      refine ⟨?_, trivial⟩
      split
      · exact hkept
      · have hprobed := (probeCommand_quiet E alive.2 s.config.readyProbeCmd).children.trans hkept
        generalize probeCommand E alive.2 s.config.readyProbeCmd = probed at hprobed ⊢
        split
        · exact hprobed
        · exact hprobed

theorem tickStarting_children (s : LeRecovery) (nowMs : Int) :
    ((tickStarting E s nowMs).children = s.children ∧ (childrenAlive E s).1 = none ∧
        ((tickStarting E s nowMs).mode = s.mode ∨ (tickStarting E s nowMs).mode = .active)) ∨
      (tickStarting E s nowMs).children = [] ∧ (tickStarting E s nowMs).mode = .unavailable := by
  rw [tickStarting]
  split
  · have hready := @verifyReady_children E s
    simp only
    generalize verifyReady E s = ready at hready ⊢
    split
    next hok => exact Or.inl ⟨(hready hok).1, (hready hok).2, Or.inr rfl⟩
    · obtain ⟨hkept, hchildren, _⟩ := teardownChildren_outcome E
        { ready.2 with mode := .unavailable, ledActive := false } nowMs
      exact Or.inr ⟨hchildren, hkept.mode⟩
  · have halive := @childrenAlive_none E s
    have hsame := childrenAlive_same E s
    simp only
    generalize childrenAlive E s = alive at halive hsame ⊢
    split
    next reason _ =>
      obtain ⟨hkept, hchildren, _⟩ := teardownChildren_outcome E
        { alive.2 with mode := .unavailable, lastError := reason } nowMs
      exact Or.inr ⟨hchildren, hkept.mode⟩
    next hnone => exact Or.inl ⟨halive hnone, hnone, Or.inl hsame.kept.mode⟩

theorem tickIdle_children (s : LeRecovery) (nowMs : Int) (associated : Bool) :
    (tickIdle E s nowMs associated).children = s.children := by
  have hstart : (startCountdown s nowMs associated).children = s.children := by
    rw [startCountdown]
    split
    · rfl
    · rfl
  simp only [tickIdle]
  generalize startCountdown s nowMs associated = t at hstart ⊢
  split
  · exact hstart
  split
  · obtain ⟨_, _, _, _, harmed, _⟩ := leRecoveryArm_outcome E (stopCountdown t) .auto nowMs
    exact harmed.trans hstart
  · exact hstart

theorem tickRelease_keeps (s : LeRecovery) (nowMs : Int) :
    (tickRelease E s nowMs).mode = s.mode ∧ (tickRelease E s nowMs).children = s.children := by
  rw [tickRelease]
  split
  · obtain ⟨hkept, hchildren, _⟩ := releaseNetOwnership_outcome E s nowMs
    exact ⟨hkept.mode, hchildren⟩
  · exact ⟨rfl, rfl⟩

theorem tickMode_childInv {s : LeRecovery} (h : ChildInv s) (nowMs : Int) (associated : Bool) :
    ChildInv (tickMode E s nowMs associated) := by
  have hidle : ∀ m, s.mode = m → m.serving = false →
      ChildInv (tickIdle E s nowMs associated) := by
    rintro m rfl hunserved
    exact ChildInv.of_empty ((tickIdle_children s nowMs associated).trans (h.unserved hunserved))
  rw [tickMode]
  split
  next harmed =>
    apply startServices_childInv
    rw [(ensureSsid_quiet E s).children]
    apply h.unserved
    rw [harmed]
    rfl
  next hstarting =>
    obtain ⟨hchildren, _, hmode⟩ | ⟨hchildren, _⟩ := @tickStarting_children E s nowMs
    · refine h.same hchildren fun hunserved => ?_
      obtain hsame | hactive := hmode
      · rw [← hsame]
        exact hunserved
      · rw [hactive] at hunserved
        cases hunserved
    · exact ChildInv.of_empty hchildren
  next hclient => exact hidle _ hclient rfl
  next hfailed => exact hidle _ hfailed rfl
  next hstopped => exact hidle _ hstopped rfl
  · exact h
  · exact h
  · exact h

theorem leRecoveryTick_childInv {s : LeRecovery} (h : ChildInv s) (nowMs : Int)
    (associated : Bool) : ChildInv (leRecoveryTick E s nowMs associated) := by
  have hnow := atTime_quiet s nowMs
  simp only [leRecoveryTick]
  generalize atTime s nowMs = u at hnow ⊢
  split
  · exact ChildInv.stop nowMs _
  · apply tickMode_childInv
    obtain ⟨hmode, hchildren⟩ := @tickRelease_keeps E u nowMs
    refine h.same (hchildren.trans hnow.children) ?_
    rw [hmode, hnow.kept.mode]
    exact id

theorem leRecoveryStep_childInv (s : LeRecovery) (op : LeRecoveryOp) (h : ChildInv s) :
    ChildInv (leRecoveryStep E s op) := by
  cases op with
  | arm trigger nowMs =>
      obtain ⟨_, _, _, _, hchildren, ⟨hmode, _⟩ | ⟨hactive, hstarting, _⟩⟩ :=
        leRecoveryArm_outcome E s trigger nowMs
      · refine h.same hchildren ?_
        rw [leRecoveryStep, hmode]
        exact id
      · refine ChildInv.of_empty (hchildren.trans (h.unserved ?_))
        cases hm : s.mode with
        | active => exact absurd hm hactive
        | starting => exact absurd hm hstarting
        | client | armed | handover | unavailable | stopping | stopped => rfl
  | tick nowMs associated => exact leRecoveryTick_childInv h nowMs associated
  | stop nowMs reason => exact ChildInv.stop nowMs reason
  | configure enabled autoEnabled autoTimeoutMs =>
      simp only [leRecoveryStep, leRecoveryConfigure]
      split
      · exact h
      split
      · exact h.same rfl id
      have hstate : ChildInv
          (configureState (s.call (.configPersist true)) enabled autoEnabled autoTimeoutMs) :=
        h.same rfl id
      generalize configureState _ enabled autoEnabled autoTimeoutMs = t at hstate ⊢
      split
      · exact hstate
      · exact ChildInv.stop _ _
  | handoverBegin nowMs =>
      simp only [leRecoveryStep, leRecoveryHandoverBegin]
      split
      · exact h
      split
      · exact ChildInv.of_empty (teardownChildren_outcome E s nowMs).2.1
      · exact h
  | handoverResult nowMs associated =>
      simp only [leRecoveryStep, leRecoveryHandoverResult]
      split
      · exact h
      next hhandover =>
        split
        · exact ChildInv.stop nowMs _
        · refine ChildInv.of_empty (h.unserved ?_)
          rw [not_not.mp hhandover]
          rfl

theorem reachable_childInv (config : LeRecoveryConfig) (nowMs : Int) (ops : List LeRecoveryOp) :
    ChildInv (run (leRecoveryStep E) (leRecoveryInit config nowMs) ops) :=
  run_invariant_always (leRecoveryStep E) leRecoveryStep_childInv
    (ChildInv.of_empty rfl) ops

theorem tick_serving {s : LeRecovery} (h : NetInv s) (serving : s.mode.serving = true)
    (nowMs : Int) :
    leRecoveryTick E s nowMs false = tickMode E (atTime s nowMs) nowMs false := by
  have hsettled : (atTime s nowMs).net.releasePending = false := h.serving serving
  rw [leRecoveryTick]
  simp only [Bool.false_eq_true, false_and, if_false, tickRelease, hsettled]

def ChildGone (E : LeRecoveryEnvironment) (s : LeRecovery) : Prop :=
  ∃ p ∈ s.children, p.active = true ∧ Exited E s.callCount p.pid

/-- The tick leaves no access point served over a child that had exited, and one
seen by a serving state tears everything down. -/
def LiveTick (E : LeRecoveryEnvironment) (s : LeRecovery) (nowMs : Int) (associated : Bool) :
    Prop :=
  let t := leRecoveryTick E s nowMs associated
  (t.mode = .active ∨ t.mode = .starting → ¬ChildGone E s) ∧
    (s.mode = .active ∨ s.mode = .starting → associated = false → ChildGone E s →
      t.mode = .unavailable ∧ t.children = [])

theorem serving_iff {m : LeRecoveryMode} : m.serving = true ↔ m = .active ∨ m = .starting := by
  cases m <;> simp [LeRecoveryMode.serving]

theorem tick_starting_gone {s : LeRecovery} (h : NetInv s) (starting : s.mode = .starting)
    (gone : ChildGone E s) (nowMs : Int) :
    (leRecoveryTick E s nowMs false).mode = .unavailable ∧
      (leRecoveryTick E s nowMs false).children = [] := by
  have hserving : s.mode.serving = true := by
    rw [starting]
    rfl
  have hnow : (atTime s nowMs).mode = .starting := starting
  obtain ⟨p, hp, hactive, hexited⟩ := gone
  have hlost : (childrenAlive E (atTime s nowMs)).1 ≠ none :=
    childrenAlive_exited (s := atTime s nowMs) hp hactive hexited
  rw [tick_serving h hserving, tickMode, hnow]
  obtain ⟨_, halive, _⟩ | ⟨hchildren, hmode⟩ := @tickStarting_children E (atTime s nowMs) nowMs
  · exact absurd halive hlost
  · exact ⟨hmode, hchildren⟩

theorem tick_active_blind {s : LeRecovery} (h : NetInv s) (active : s.mode = .active)
    (nowMs : Int) : (leRecoveryTick E s nowMs false).mode = .active := by
  have hserving : s.mode.serving = true := by
    rw [active]
    rfl
  have hnow : (atTime s nowMs).mode = .active := active
  rw [tick_serving h hserving, tickMode, hnow]
  exact hnow

theorem tick_associated {s : LeRecovery} (serving : s.mode = .active ∨ s.mode = .starting)
    (nowMs : Int) : (leRecoveryTick E s nowMs true).mode = .stopped := by
  have hnow : (atTime s nowMs).mode = .active ∨ (atTime s nowMs).mode = .starting := serving
  simp only [leRecoveryTick, hnow, and_self, if_true]
  exact (leRecoveryStop_outcome E _ nowMs _).2.1

/-- In a reachable state a tick serves only live children exactly when it is not an
unassociated tick in ACTIVE with a child gone; and only serving states own children. -/
theorem liveTick_iff (E : LeRecoveryEnvironment) (config : LeRecoveryConfig) (startMs : Int)
    (ops : List LeRecoveryOp) (nowMs : Int) (associated : Bool) :
    let s := run (leRecoveryStep E) (leRecoveryInit config startMs) ops
    (LiveTick E s nowMs associated ↔
        ¬(s.mode = .active ∧ associated = false ∧ ChildGone E s)) ∧
      (s.mode ≠ .active → s.mode ≠ .starting → s.children = []) := by
  have hnet := reachable_netInv E config startMs ops
  have hchild := @reachable_childInv E config startMs ops
  simp only
  generalize run (leRecoveryStep E) (leRecoveryInit config startMs) ops = s at hnet hchild ⊢
  refine ⟨⟨?_, ?_⟩, fun hactive hstarting => hchild.unserved ?_⟩
  · rintro hlive ⟨hactive, rfl, hgone⟩
    exact hlive.1 (Or.inl (tick_active_blind hnet hactive nowMs)) hgone
  · intro hseen
    have howner : ChildGone E s → s.mode = .active ∨ s.mode = .starting := by
      rintro ⟨p, hp, _⟩
      rw [← serving_iff]
      cases hserving : s.mode.serving with
      | true => rfl
      | false =>
          rw [hchild.unserved hserving] at hp
          exact nomatch hp
    have hstarting : associated = false → ChildGone E s → s.mode = .starting := by
      intro hassociated hgone
      obtain hactive | hstarting := howner hgone
      · exact absurd ⟨hactive, hassociated, hgone⟩ hseen
      · exact hstarting
    refine ⟨fun hserved hgone => ?_, fun _ hassociated hgone => ?_⟩
    · cases associated with
      | true =>
          rw [tick_associated (howner hgone)] at hserved
          exact hserved.elim nofun nofun
      | false =>
          rw [(tick_starting_gone hnet (hstarting rfl hgone) hgone nowMs).1] at hserved
          exact hserved.elim nofun nofun
    · subst hassociated
      exact tick_starting_gone hnet (hstarting rfl hgone) hgone nowMs
  · cases hserving : s.mode.serving with
    | false => rfl
    | true => exact ((serving_iff.mp hserving).elim hactive hstarting).elim

/-! ### A child that exits while the access point is served -/

/-- The production paths, with an access-point probe configured. -/
def productionConfig : LeRecoveryConfig where
  markerPath := "/run/libreecho/recovery-mode"
  runDir := "/run/libreecho"
  interface := "wlan0"
  hostapdBin := "/usr/local/sbin/hostapd"
  dhcpBin := "/usr/local/sbin/dnsmasq"
  dnsBin := ""
  dhcpConf := "/run/libreecho/recovery-dnsmasq.conf"
  hostapdConf := "/run/libreecho/hostapd.conf"
  apProbeCmd := "/usr/local/sbin/libreecho-ap-probe"
  readyProbeCmd := ""
  netUpCmd := "/usr/local/sbin/libreecho-recovery-net-up"
  netDownCmd := "/usr/local/sbin/libreecho-recovery-net-down"
  apAddress := "192.168.4.1"
  autoTimeoutMs := 120000
  startTimeoutMs := 8000
  stopTimeoutMs := 5000
  enabled := true
  autoEnabled := false

/-- Everything succeeds; the children exit after the first `calls` calls. -/
def workingBackend (calls : Nat) : LeRecoveryEnvironment where
  spawn k _ := .ok (100 + k)
  waitChild k _ := if k < calls then .alive else .reaped
  probe _ _ := true
  available _ _ := true
  identity _ pid := pid
  pskEnsure _ := .ok "ABCDEFGHJKLMNPQRSTUVWXYZabcdefgh"
  writeLockedFile _ _ _ := .ok ()
  readSerial _ := "G0911B0581234567"
  configPersist _ _ _ _ := .ok ()

def servingOps : List LeRecoveryOp := [.arm .physical 1000, .tick 1000 false, .tick 9000 false]

def servedState : LeRecovery :=
  run (leRecoveryStep (workingBackend 17)) (leRecoveryInit productionConfig 0) servingOps

/-- Both children are gone and the tick still reports ACTIVE. -/
theorem liveTick_blind : ¬LiveTick (workingBackend 17) servedState 9500 false := by
  have hserved : (leRecoveryTick (workingBackend 17) servedState 9500 false).mode = .active := by
    decide +kernel
  have hcalls : servedState.callCount = 17 := by decide +kernel
  have howned : 0 < servedState.children.length := by decide +kernel
  have hinv : ChildInv servedState := reachable_childInv productionConfig 0 servingOps
  have hmember := List.getElem_mem howned
  intro h
  refine h.1 (Or.inl hserved) ⟨_, hmember, hinv.active _ hmember, ?_⟩
  intro j hj
  rw [hcalls] at hj
  have hgone : ¬j < 17 := Nat.not_lt_of_le hj
  simp [workingBackend, hgone]

end LibreEcho.Recovery
