import Mathlib

/-!
The recovery access-point lifecycle of `network_recovery.c`.

The process backend and the files the lifecycle touches are an environment whose
answers may depend on how many calls were made before, so every sequence of
helper, spawn and wait outcomes is covered. The state records its calls in
order. Milliseconds are integers.
-/
namespace LibreEcho.Recovery

def pathMax : Nat := 4096
def leRecoveryChildMax : Nat := 4
def leRecoveryTimeoutDefaultMs : Int := 120000
def leRecoveryTimeoutMinMs : Int := 30000
def leRecoveryTimeoutMaxMs : Int := 600000
def leRecoveryStartDefaultMs : Int := 8000
def leRecoveryStopDefaultMs : Int := 5000
def leRecoveryApPrefixDefault : String := "24"
def leRecoveryNetDownMaxAttempts : Nat := 3
def leRecoveryNetDownRetryMs : Int := 500

inductive LeRecoveryMode where
  | client | armed | starting | active | handover | unavailable | stopping | stopped
deriving DecidableEq, Repr

inductive LeRecoveryTrigger where
  | none | physical | auto
deriving DecidableEq, Repr

structure LeRecoveryProcess where
  pid : Nat
  startToken : Nat
  active : Bool
  name : String

/-- The answers 1, 0 and -1 of `wait_child`. -/
inductive LeRecoveryWait where
  | alive | reaped | failed
deriving DecidableEq, Repr

structure LeRecoveryConfig where
  markerPath : String
  runDir : String
  interface : String
  hostapdBin : String
  dhcpBin : String
  dnsBin : String
  dhcpConf : String
  hostapdConf : String
  apProbeCmd : String
  readyProbeCmd : String
  netUpCmd : String
  netDownCmd : String
  apAddress : String
  autoTimeoutMs : Int
  startTimeoutMs : Int
  stopTimeoutMs : Int
  enabled : Bool
  autoEnabled : Bool

/-- Answers of the backend and of the file system. The first argument is the
number of calls made before this one. -/
structure LeRecoveryEnvironment where
  /-- The process id, or the error text. -/
  spawn : Nat → List String → Except String Nat
  waitChild : Nat → Nat → LeRecoveryWait
  /-- Whether the command exited with 0. -/
  probe : Nat → List String → Bool
  available : Nat → String → Bool
  /-- The start token, 0 when it cannot be read. -/
  identity : Nat → Nat → Nat
  pskEnsure : Nat → Except String String
  writeLockedFile : Nat → String → String → Except String Unit
  /-- What was read from the serial file, empty when it cannot be read. -/
  readSerial : Nat → String
  configPersist : Nat → Int → Int → Int → Except String Unit

/-- One call out of the lifecycle. A net helper that is not installed counts as
a run that failed. -/
inductive LeRecoveryCall where
  | available (path : String)
  | probe (path : String)
  | netHelper (up ok : Bool)
  | spawn (name : String)
  | identity (pid : Nat)
  | signal (pid : Nat) (kill : Bool)
  | waitChild (pid : Nat)
  | pskEnsure
  | writeLockedFile (path : String)
  | readSerial
  | configPersist (ok : Bool)
  | unlinkMarker
deriving DecidableEq

/-- The `net_` fields: the portal address the platform holds for us. -/
structure LeRecoveryNet where
  configured : Bool
  releasePending : Bool
  releaseAttempts : Nat
  releaseNextMs : Int
  error : String
deriving DecidableEq

/-- The `auto_` fields: the countdown of the automatic fallback. -/
structure LeRecoveryAuto where
  counting : Bool
  startedMs : Int
  deadlineMs : Int

structure LeRecovery where
  config : LeRecoveryConfig
  mode : LeRecoveryMode
  trigger : LeRecoveryTrigger
  available : Bool
  unavailableReason : String
  lastError : String
  /-- The owned children; `child_count` is the length. -/
  children : List LeRecoveryProcess
  net : LeRecoveryNet
  auto : LeRecoveryAuto
  ledActive : Bool
  secretAvailable : Bool
  ssid : String
  armedAtMs : Int
  startDeadlineMs : Int
  activeSinceMs : Int
  lastActivityMs : Int
  lastNowMs : Int
  /-- Every call made so far, oldest first. -/
  calls : List LeRecoveryCall

namespace LeRecovery

def call (s : LeRecovery) (c : LeRecoveryCall) : LeRecovery :=
  { s with calls := s.calls ++ [c] }

def callCount (s : LeRecovery) : Nat := s.calls.length

end LeRecovery

def leRecoveryConfigBound (config : LeRecoveryConfig) : LeRecoveryConfig :=
  { config with
    autoTimeoutMs :=
      if config.autoTimeoutMs < leRecoveryTimeoutMinMs ∨
          leRecoveryTimeoutMaxMs < config.autoTimeoutMs then leRecoveryTimeoutDefaultMs
      else config.autoTimeoutMs
    startTimeoutMs :=
      if config.startTimeoutMs ≤ 0 ∨ 60000 < config.startTimeoutMs then leRecoveryStartDefaultMs
      else config.startTimeoutMs
    stopTimeoutMs :=
      if config.stopTimeoutMs ≤ 0 ∨ 60000 < config.stopTimeoutMs then leRecoveryStopDefaultMs
      else config.stopTimeoutMs }

def leRecoveryInit (config : LeRecoveryConfig) (nowMs : Int) : LeRecovery where
  config := leRecoveryConfigBound config
  mode := .client
  trigger := .none
  available := false
  unavailableReason := ""
  lastError := ""
  children := []
  net :=
    { configured := false
      releasePending := false
      releaseAttempts := 0
      releaseNextMs := 0
      error := "" }
  auto := { counting := false, startedMs := 0, deadlineMs := 0 }
  ledActive := false
  secretAvailable := false
  ssid := ""
  armedAtMs := 0
  startDeadlineMs := 0
  activeSinceMs := 0
  lastActivityMs := nowMs
  lastNowMs := 0
  calls := []

variable (E : LeRecoveryEnvironment)

/-! ### Capability probe -/

def backendAvailable (s : LeRecovery) (path : String) : Bool × LeRecovery :=
  (E.available s.callCount path, s.call (.available path))

def probeCommand (s : LeRecovery) (path : String) : Bool × LeRecovery :=
  if path = "" then (false, s)
  else
    let found := backendAvailable E s path
    if found.1 = false then found
    else (E.probe found.2.callCount [path], found.2.call (.probe path))

def capabilityMissing (s : LeRecovery) (reason : String) : (Bool × String) × LeRecovery :=
  ((false, reason), { s with available := false, unavailableReason := reason })

def configuredAvailable (s : LeRecovery) (path : String) : Bool × LeRecovery :=
  if path = "" then (false, s) else backendAvailable E s path

def haveDhcp (s : LeRecovery) : Bool × LeRecovery :=
  let dhcp := configuredAvailable E s s.config.dhcpBin
  if dhcp.1 then dhcp else configuredAvailable E dhcp.2 s.config.dnsBin

/-- The flag tells whether the access point can start; the text is the reason. -/
def leRecoveryProbeCapabilities (s : LeRecovery) : (Bool × String) × LeRecovery :=
  let hostapd := backendAvailable E { s with available := false } s.config.hostapdBin
  if hostapd.1 = false then capabilityMissing hostapd.2 "missing-hostapd"
  else
    let dhcp := haveDhcp E hostapd.2
    if dhcp.1 = false then capabilityMissing dhcp.2 "missing-dhcp-dns"
    else if s.config.apProbeCmd = "" then capabilityMissing dhcp.2 "ap-driver-unverified"
    else
      let ap := probeCommand E dhcp.2 s.config.apProbeCmd
      if ap.1 = false then capabilityMissing ap.2 "ap-unsupported"
      else ((true, "available"), { ap.2 with available := true })

/-! ### Child ownership -/

def spawnRefused (s : LeRecovery) (reason : String) : Bool × LeRecovery :=
  (false, { s with lastError := reason })

/-- A spawned child whose start token cannot be read is killed, not owned. -/
def ownChild (s : LeRecovery) (name : String) (pid token : Nat) : Bool × LeRecovery :=
  if token = 0 then
    spawnRefused ((s.call (.signal pid true)).call (.waitChild pid)) "child-identity"
  else
    (true, { s with
      children := s.children ++ [{ pid, startToken := token, active := true, name }] })

def spawnChild (s : LeRecovery) (name : String) (argv : List String) : Bool × LeRecovery :=
  if leRecoveryChildMax ≤ s.children.length then spawnRefused s "child-limit"
  else
    let spawned := E.spawn s.callCount argv
    let s := s.call (.spawn name)
    match spawned with
    | .error err => spawnRefused s (if err = "" then "spawn-failed" else err)
    | .ok pid => ownChild (s.call (.identity pid)) name pid (E.identity s.callCount pid)

def optionalArgument (argument : String) : List String :=
  if argument = "" then [] else [argument]

def spawnHostapd (s : LeRecovery) : Bool × LeRecovery :=
  spawnChild E s "hostapd" (s.config.hostapdBin :: optionalArgument s.config.hostapdConf)

def confFileOption (conf : String) : String :=
  if conf = "" then "" else "--conf-file=" ++ conf

def spawnServices (s : LeRecovery) : Bool × LeRecovery :=
  let option := confFileOption s.config.dhcpConf
  if s.config.dnsBin ≠ "" ∧ (s.config.dhcpBin = "" ∨ s.config.dhcpBin = s.config.dnsBin) then
    if pathMax ≤ option.utf8ByteSize then spawnRefused s "dnsmasq-conf-too-long"
    else spawnChild E s "dnsmasq" (s.config.dnsBin :: "--no-daemon" :: optionalArgument option)
  else if s.config.dhcpBin ≠ "" then
    if pathMax ≤ option.utf8ByteSize then spawnRefused s "dnsmasq-conf-too-long"
    else spawnChild E s "dhcp" (s.config.dhcpBin :: optionalArgument option)
  else (true, s)

/-- The loop of `children_alive` over the children from one on. -/
def aliveLoop : List LeRecoveryProcess → LeRecovery →
    Option String × List LeRecoveryProcess × LeRecovery
  | [], s => (none, [], s)
  | p :: rest, s =>
      if p.active = false then
        let r := aliveLoop rest s
        (r.1, p :: r.2.1, r.2.2)
      else
        match E.waitChild s.callCount p.pid with
        | .reaped =>
            (some "child-exited", { p with active := false } :: rest, s.call (.waitChild p.pid))
        | .failed => (some "child-wait-error", p :: rest, s.call (.waitChild p.pid))
        | .alive =>
            let r := aliveLoop rest (s.call (.waitChild p.pid))
            (r.1, p :: r.2.1, r.2.2)

/-- `none` when every owned child is alive, else the reason. -/
def childrenAlive (s : LeRecovery) : Option String × LeRecovery :=
  let r := aliveLoop E s.children s
  (r.1, { r.2.2 with children := r.2.1 })

def netHelperArguments (s : LeRecovery) (path : String) (up : Bool) : List String :=
  path :: "--interface" :: s.config.interface ::
    if up then ["--address", s.config.apAddress ++ "/" ++ leRecoveryApPrefixDefault] else []

def runNetHelper (s : LeRecovery) (path : String) (up : Bool) : Bool × LeRecovery :=
  if path = "" then (false, s.call (.netHelper up false))
  else
    let found := backendAvailable E s path
    if found.1 = false then (false, found.2.call (.netHelper up false))
    else
      let ok := E.probe found.2.callCount (netHelperArguments s path up)
      (ok, found.2.call (.netHelper up ok))

/-- A failed net-down run is retried until the budget is spent; the obligation stays. -/
def netDownFailed (net : LeRecoveryNet) (nowMs : Int) : LeRecoveryNet :=
  if leRecoveryNetDownMaxAttempts ≤ net.releaseAttempts + 1 then
    { net with
      releasePending := false
      releaseAttempts := net.releaseAttempts + 1
      releaseNextMs := 0
      error := "net-down-gave-up" }
  else
    { net with
      releasePending := true
      releaseAttempts := net.releaseAttempts + 1
      releaseNextMs := nowMs + leRecoveryNetDownRetryMs
      error := "net-down-failed" }

def netReleased (net : LeRecoveryNet) : LeRecoveryNet :=
  { net with configured := false, releasePending := false, releaseAttempts := 0, error := "" }

def netReleaseBudget (net : LeRecoveryNet) : LeRecoveryNet :=
  if net.releasePending then net else { net with releaseAttempts := 0 }

def releaseNetOwnership (s : LeRecovery) (nowMs : Int) : LeRecovery :=
  if s.net.configured = false then s
  else
    let net := netReleaseBudget s.net
    let run := runNetHelper E s s.config.netDownCmd false
    { run.2 with net := if run.1 then netReleased net else netDownFailed net nowMs }

def signalActive (kill : Bool) : List LeRecoveryProcess → LeRecovery → LeRecovery
  | [], s => s
  | p :: rest, s => signalActive kill rest (if p.active then s.call (.signal p.pid kill) else s)

/-- One round of the teardown wait. The flag tells whether all children are gone. -/
def reapRound : List LeRecoveryProcess → LeRecovery → Bool × List LeRecoveryProcess × LeRecovery
  | [], s => (true, [], s)
  | p :: rest, s =>
      if p.active = false then
        let r := reapRound rest s
        (r.1, p :: r.2.1, r.2.2)
      else
        let reaped := E.waitChild s.callCount p.pid = .reaped
        let r := reapRound rest (s.call (.waitChild p.pid))
        (reaped && r.1, { p with active := ¬reaped } :: r.2.1, r.2.2)

/-- The wait of `teardown_children`, with as many pauses of 20 ms as fit before
the deadline. The time returned is the simulated clock at its end. -/
def reapLoop (deadline : Int) : Nat → Int → List LeRecoveryProcess → LeRecovery →
    Int × List LeRecoveryProcess × LeRecovery
  | 0, nowMs, children, s => (nowMs, (reapRound E children s).2)
  | pauses + 1, nowMs, children, s =>
      let r := reapRound E children s
      if r.1 ∨ deadline ≤ nowMs then (nowMs, r.2)
      else reapLoop deadline pauses (nowMs + 20) r.2.1 r.2.2

def killRemaining : List LeRecoveryProcess → LeRecovery → LeRecovery
  | [], s => s
  | p :: rest, s =>
      killRemaining rest
        (if p.active then (s.call (.signal p.pid true)).call (.waitChild p.pid) else s)

def teardownChildren (s : LeRecovery) (nowMs : Int) : LeRecovery :=
  let stopMs := s.config.stopTimeoutMs
  let pauses := ((stopMs + 19) / 20).toNat
  let r := reapLoop E (nowMs + stopMs) pauses nowMs s.children (signalActive false s.children s)
  releaseNetOwnership E { killRemaining r.2.1 r.2.2 with children := [] } r.1

/-! ### Generated configuration -/

/-- The last four characters of the serial's first line, `0000` when it is shorter. -/
def ssidSuffix (serial : String) : String :=
  let line := serial.toList.takeWhile fun c => c ≠ '\n' ∧ c ≠ '\r'
  if 4 ≤ line.length then String.ofList (line.drop (line.length - 4)) else "0000"

def buildSsid (s : LeRecovery) : LeRecovery :=
  { s.call .readSerial with ssid := "LibreEcho-Setup-" ++ ssidSuffix (E.readSerial s.callCount) }

def ensureSsid (s : LeRecovery) : LeRecovery :=
  if s.ssid = "" then buildSsid E s else s

def hostapdConfig (config : LeRecoveryConfig) (ssid psk : String) : String :=
  "interface=" ++ config.interface ++ "\n" ++
  "driver=nl80211\n" ++
  "ctrl_interface=" ++ config.runDir ++ "\n" ++
  "ssid=" ++ ssid ++ "\n" ++
  "hw_mode=g\n" ++
  "channel=6\n" ++
  "ieee80211n=1\n" ++
  "wpa=2\n" ++
  "wpa_passphrase=" ++ psk ++ "\n" ++
  "wpa_key_mgmt=WPA-PSK\n" ++
  "wpa_pairwise=CCMP\n" ++
  "rsn_pairwise=CCMP\n" ++
  "auth_algs=1\n" ++
  "ignore_broadcast_ssid=0\n" ++
  "beacon_int=100\n"

def addressBase (address : String) : String :=
  let chars := address.toList
  let tail := chars.reverse.takeWhile fun c => c ≠ '.'
  if tail.length = chars.length then address
  else String.ofList (chars.take (chars.length - tail.length - 1))

def dnsmasqConfig (config : LeRecoveryConfig) : String :=
  let base := addressBase config.apAddress
  "interface=" ++ config.interface ++ "\n" ++
  "bind-interfaces\n" ++
  "no-resolv\n" ++
  "no-hosts\n" ++
  "domain-needed\n" ++
  "bogus-priv\n" ++
  "dhcp-range=" ++ base ++ ".10," ++ base ++ ".200,255.255.255.0,12h\n" ++
  "dhcp-option=3," ++ config.apAddress ++ "\n" ++
  "dhcp-option=6," ++ config.apAddress ++ "\n" ++
  "dhcp-option=114,http://" ++ config.apAddress ++ "/?recovery=1\n" ++
  "address=/#/" ++ config.apAddress ++ "\n" ++
  "log-dhcp\n"

def recoveryConfigMax : Nat := 1536

def writeConfig (s : LeRecovery) (path content overflow : String) :
    Except String Unit × LeRecovery :=
  if recoveryConfigMax ≤ content.utf8ByteSize then (.error overflow, s)
  else (E.writeLockedFile s.callCount path content, s.call (.writeLockedFile path))

def pskEnsure (s : LeRecovery) : Except String String × LeRecovery :=
  (E.pskEnsure s.callCount, s.call .pskEnsure)

def writeRecoveryConfigs (s : LeRecovery) : Except String Unit × LeRecovery :=
  let secret := pskEnsure E s
  match secret.1 with
  | .error reason => (.error reason, secret.2)
  | .ok psk =>
      let s := ensureSsid E secret.2
      let hostapd := writeConfig E s s.config.hostapdConf (hostapdConfig s.config s.ssid psk)
        "hostapd-config-overflow"
      match hostapd.1 with
      | .error reason => (.error reason, hostapd.2)
      | .ok _ =>
          writeConfig E hostapd.2 s.config.dhcpConf (dnsmasqConfig s.config)
            "dnsmasq-config-overflow"

/-! ### Lifecycle -/

def failClosed (s : LeRecovery) (reason : String) : LeRecovery :=
  { s with unavailableReason := reason, mode := .unavailable }

def reasonOr (reason fallback : String) : String :=
  if reason = "" then fallback else reason

def netAcquired (net : LeRecoveryNet) : LeRecoveryNet :=
  { net with
    configured := true
    releasePending := false
    releaseAttempts := 0
    releaseNextMs := 0
    error := "" }

def spawnAll (s : LeRecovery) : Bool × LeRecovery :=
  let hostapd := spawnHostapd E s
  if hostapd.1 then spawnServices E hostapd.2 else hostapd

/-- The children are spawned once the portal address is assigned. -/
def startChildren (s : LeRecovery) (nowMs : Int) : LeRecovery :=
  let spawned := spawnAll E s
  if spawned.1 then
    { spawned.2 with
      mode := .starting
      startDeadlineMs := nowMs + spawned.2.config.startTimeoutMs }
  else { teardownChildren E spawned.2 nowMs with mode := .unavailable }

def startServices (s : LeRecovery) (nowMs : Int) : LeRecovery :=
  let capable := leRecoveryProbeCapabilities E s
  if capable.1.1 = false then failClosed capable.2 (reasonOr capable.1.2 "unavailable")
  else
    let written := writeRecoveryConfigs E capable.2
    match written.1 with
    | .error reason => failClosed written.2 (reasonOr reason "config-unavailable")
    | .ok _ =>
        let s := teardownChildren E written.2 nowMs
        if s.config.netUpCmd = "" then failClosed s "ap-net-unconfigured"
        else
          let up := runNetHelper E s s.config.netUpCmd true
          if up.1 = false then failClosed up.2 "ap-net-up-failed"
          else startChildren E { up.2 with net := netAcquired up.2.net } nowMs

/-- The flag is `false` when a child is gone or the access point does not serve. -/
def verifyReady (s : LeRecovery) : Bool × LeRecovery :=
  let alive := childrenAlive E s
  match alive.1 with
  | some reason => (false, { alive.2 with lastError := reason })
  | none =>
      if s.config.readyProbeCmd = "" then (true, alive.2)
      else
        let ready := probeCommand E alive.2 s.config.readyProbeCmd
        if ready.1 then ready else (false, { ready.2 with lastError := "not-serving" })

def armState (s : LeRecovery) (trigger : LeRecoveryTrigger) (nowMs : Int) : LeRecovery :=
  { s with
    trigger := trigger
    mode := .armed
    armedAtMs := nowMs
    lastActivityMs := nowMs
    lastNowMs := nowMs
    lastError := ""
    unavailableReason := "" }

def leRecoveryArm (s : LeRecovery) (trigger : LeRecoveryTrigger) (nowMs : Int) : LeRecovery :=
  if s.mode = .active ∨ s.mode = .starting then s
  else if s.config.enabled = false then { s with lastError := "recovery-disabled" }
  else
    let secret := pskEnsure E (armState s trigger nowMs)
    match secret.1 with
    | .error reason =>
        { secret.2 with lastError := reasonOr reason "psk-unavailable", mode := .unavailable }
    | .ok _ => secret.2

def unlinkMarker (s : LeRecovery) : LeRecovery :=
  if s.trigger = .physical ∧ s.config.markerPath ≠ "" then s.call .unlinkMarker else s

def stopState (s : LeRecovery) (nowMs : Int) (reason : Option String) : LeRecovery :=
  { s with
    ledActive := false
    secretAvailable := false
    auto := { s.auto with counting := false }
    mode := .stopped
    trigger := .none
    lastActivityMs := nowMs
    lastError := reason.getD s.lastError }

def leRecoveryStop (s : LeRecovery) (nowMs : Int) (reason : Option String) : LeRecovery :=
  stopState (unlinkMarker (teardownChildren E { s with mode := .stopping } nowMs)) nowMs reason

def markActive (s : LeRecovery) (nowMs : Int) : LeRecovery :=
  { s with mode := .active, activeSinceMs := nowMs, secretAvailable := true, ledActive := true }

def tickStarting (s : LeRecovery) (nowMs : Int) : LeRecovery :=
  if s.startDeadlineMs ≤ nowMs then
    let ready := verifyReady E s
    if ready.1 then markActive ready.2 nowMs
    else teardownChildren E { ready.2 with mode := .unavailable, ledActive := false } nowMs
  else
    let alive := childrenAlive E s
    match alive.1 with
    | some reason =>
        teardownChildren E { alive.2 with mode := .unavailable, lastError := reason } nowMs
    | none => alive.2

def startCountdown (s : LeRecovery) (nowMs : Int) (associated : Bool) : LeRecovery :=
  if s.config.enabled ∧ s.config.autoEnabled ∧ associated = false ∧ s.auto.counting = false then
    { s with
      auto :=
        { counting := true, startedMs := nowMs, deadlineMs := nowMs + s.config.autoTimeoutMs } }
  else s

def stopCountdown (s : LeRecovery) : LeRecovery :=
  { s with auto := { s.auto with counting := false } }

def tickIdle (s : LeRecovery) (nowMs : Int) (associated : Bool) : LeRecovery :=
  let s := startCountdown s nowMs associated
  if s.auto.counting ∧ associated then stopCountdown s
  else if s.auto.counting ∧ s.auto.deadlineMs ≤ nowMs then
    leRecoveryArm E (stopCountdown s) .auto nowMs
  else s

/-- The net-down retry that is due, before the mode is looked at. -/
def tickRelease (s : LeRecovery) (nowMs : Int) : LeRecovery :=
  if s.net.releasePending ∧ s.net.releaseNextMs ≤ nowMs then releaseNetOwnership E s nowMs else s

def tickMode (s : LeRecovery) (nowMs : Int) (associated : Bool) : LeRecovery :=
  match s.mode with
  | .armed => startServices E (ensureSsid E s) nowMs
  | .starting => tickStarting E s nowMs
  | .client | .unavailable | .stopped => tickIdle E s nowMs associated
  | .active | .handover | .stopping => s

def atTime (s : LeRecovery) (nowMs : Int) : LeRecovery :=
  { s with lastNowMs := nowMs }

def leRecoveryTick (s : LeRecovery) (nowMs : Int) (associated : Bool) : LeRecovery :=
  let s := atTime s nowMs
  if associated ∧ (s.mode = .active ∨ s.mode = .starting) then
    leRecoveryStop E s nowMs (some "associated")
  else tickMode E (tickRelease E s nowMs) nowMs associated

/-! ### Owner configuration and handover -/

/-- `none` when the owner's values are acceptable, else the reason. -/
def leRecoveryConfigValidate (enabled autoEnabled autoTimeoutMs : Int) : Option String :=
  if enabled ≠ 0 ∧ enabled ≠ 1 then some "enabled-invalid"
  else if autoEnabled ≠ 0 ∧ autoEnabled ≠ 1 then some "auto-enabled-invalid"
  else if autoTimeoutMs < leRecoveryTimeoutMinMs ∨ leRecoveryTimeoutMaxMs < autoTimeoutMs then
    some "auto-timeout-range"
  else none

def configureState (s : LeRecovery) (enabled autoEnabled autoTimeoutMs : Int) : LeRecovery :=
  { s with
    config :=
      { s.config with
        enabled := enabled = 1
        autoEnabled := autoEnabled = 1
        autoTimeoutMs := autoTimeoutMs } }

/-- The values are persisted first; a refused write changes nothing. -/
def leRecoveryConfigure (s : LeRecovery) (enabled autoEnabled autoTimeoutMs : Int) :
    Except String Unit × LeRecovery :=
  match leRecoveryConfigValidate enabled autoEnabled autoTimeoutMs with
  | some reason => (.error reason, s)
  | none =>
      match E.configPersist s.callCount enabled autoEnabled autoTimeoutMs with
      | .error reason => (.error reason, s.call (.configPersist false))
      | .ok _ =>
          let s := configureState (s.call (.configPersist true)) enabled autoEnabled autoTimeoutMs
          if s.config.enabled then (.ok (), s)
          else (.ok (), leRecoveryStop E s s.lastNowMs (some "disabled"))

def handoverState (s : LeRecovery) (nowMs : Int) : LeRecovery :=
  { s with
    ledActive := false
    secretAvailable := false
    auto := { s.auto with counting := false }
    mode := .handover
    lastActivityMs := nowMs }

def leRecoveryHandoverBegin (s : LeRecovery) (nowMs : Int) : Bool × LeRecovery :=
  if s.config.enabled = false then (false, s)
  else if s.mode = .active ∨ s.mode = .starting ∨ s.mode = .armed then
    (true, handoverState (teardownChildren E s nowMs) nowMs)
  else (false, s)

def rearmState (s : LeRecovery) (nowMs : Int) : LeRecovery :=
  { s with
    mode := .armed
    armedAtMs := nowMs
    lastActivityMs := nowMs
    auto := { s.auto with counting := false }
    lastError := "association-failed" }

def leRecoveryHandoverResult (s : LeRecovery) (nowMs : Int) (associated : Bool) : LeRecovery :=
  if s.mode ≠ .handover then s
  else if associated then leRecoveryStop E s nowMs (some "associated")
  else rearmState s nowMs

/-- The operations of the lifecycle. -/
inductive LeRecoveryOp where
  | arm (trigger : LeRecoveryTrigger) (nowMs : Int)
  | tick (nowMs : Int) (associated : Bool)
  | stop (nowMs : Int) (reason : Option String)
  | configure (enabled autoEnabled autoTimeoutMs : Int)
  | handoverBegin (nowMs : Int)
  | handoverResult (nowMs : Int) (associated : Bool)

def leRecoveryStep (s : LeRecovery) : LeRecoveryOp → LeRecovery
  | .arm trigger nowMs => leRecoveryArm E s trigger nowMs
  | .tick nowMs associated => leRecoveryTick E s nowMs associated
  | .stop nowMs reason => leRecoveryStop E s nowMs reason
  | .configure enabled autoEnabled autoTimeoutMs =>
      (leRecoveryConfigure E s enabled autoEnabled autoTimeoutMs).2
  | .handoverBegin nowMs => (leRecoveryHandoverBegin E s nowMs).2
  | .handoverResult nowMs associated => leRecoveryHandoverResult E s nowMs associated

end LibreEcho.Recovery
