import Mathlib
import LibreEcho.Lib.CText
import LibreEcho.Lib.Runs
import LibreEcho.Recovery.Core

/-!
The persisted owner configuration of `network_recovery.c`: how
`le_recovery_config_persist` replaces the file and what
`le_recovery_config_load` makes of the directory.

The directory is the three entries the writer names. Every file operation may
fail. A crash keeps the entries as some number of operations left them; the
bytes of the temporary file were synced before it was renamed. Creating and
checking the parent directory comes before the first operation and touches none
of the entries.
-/
namespace LibreEcho.Recovery

structure LeRecoveryOwnerConfig where
  enabled : Int
  autoEnabled : Int
  autoTimeoutMs : Int
deriving DecidableEq, Repr

inductive ConfigNode where
  /-- `shared` when the group or the world has some access. -/
  | regular (shared : Bool) (content : CText)
  | symlink
  | other
deriving DecidableEq, Repr

structure ConfigDir where
  live : Option ConfigNode
  /-- The entry `.bak`. -/
  backup : Option ConfigNode
  temporary : Option ConfigNode
deriving DecidableEq, Repr

/-! ### Writing -/

inductive FileOp where
  | unlinkTemporary
  | createTemporary
  | writeTemporary (written : CText)
  | syncTemporary
  | closeTemporary
  | statLive
  | backUp
  | publish
  | rollBack
  | syncParent
  | unlinkLive
deriving DecidableEq, Repr

def FileOp.apply (dir : ConfigDir) : FileOp → ConfigDir
  | .unlinkTemporary => { dir with temporary := none }
  | .createTemporary => { dir with temporary := some (.regular false []) }
  | .writeTemporary written => { dir with temporary := some (.regular false written) }
  | .backUp => { dir with backup := dir.live, live := none }
  | .publish => { dir with live := dir.temporary, temporary := none }
  | .rollBack => { dir with live := dir.backup, backup := none }
  | .unlinkLive => { dir with live := none }
  | .syncTemporary | .closeTemporary | .statLive | .syncParent => dir

structure FileStep where
  op : FileOp
  ok : Bool
deriving DecidableEq, Repr

def FileStep.apply (dir : ConfigDir) (step : FileStep) : ConfigDir :=
  if step.ok then step.op.apply dir else dir

/-- Which operations succeed, in the order the writer comes to them. -/
structure FileOutcomes where
  /-- `ensure_secure_parent_dir`. -/
  secureParent : Except String Unit
  /-- `ensure_parent_dir`. -/
  parent : Bool
  pid : Nat
  unlinkStale : Bool
  create : Bool
  /-- How many bytes `write` takes at most. -/
  written : Nat
  sync : Bool
  close : Bool
  /-- False when `lstat` fails with anything but `ENOENT`. -/
  stat : Bool
  backUp : Bool
  publish : Bool
  rollBack : Bool
  syncParent : Bool
  unlinkLive : Bool
  /-- The removal of the temporary file after a failure. -/
  discard : Bool

structure FileRun where
  dir : ConfigDir
  steps : List FileStep

def FileRun.did (r : FileRun) (op : FileOp) (ok : Bool) : FileRun :=
  ⟨FileStep.apply r.dir ⟨op, ok⟩, r.steps ++ [⟨op, ok⟩]⟩

section Writer
variable (o : FileOutcomes)

def discardTemporary (r : FileRun) (reason : String) : FileRun × Except String Unit :=
  (r.did .unlinkTemporary o.discard, .error reason)

def syncPublished (backedUp : Bool) (r : FileRun) : FileRun × Except String Unit :=
  let r := r.did .syncParent o.syncParent
  if o.syncParent then (r, .ok ())
  else
    let undone := if backedUp then o.rollBack else o.unlinkLive
    (r.did (if backedUp then .rollBack else .unlinkLive) undone,
      .error (if undone then "config-parent-fsync-failed" else "config-rollback-failed"))

def publishTemporary (backedUp : Bool) (r : FileRun) : FileRun × Except String Unit :=
  let r := r.did .publish o.publish
  if o.publish then syncPublished o backedUp r
  else
    discardTemporary o (if backedUp then r.did .rollBack o.rollBack else r)
      (if backedUp ∧ o.rollBack = false then "config-rollback-failed"
        else "config-rename-failed")

def backUpLive (r : FileRun) : FileRun × Except String Unit :=
  let r := r.did .statLive o.stat
  if o.stat = false then discardTemporary o r "config-stat-failed"
  else
    match r.dir.live with
    | none => publishTemporary o false r
    | some (.regular _ _) =>
        let r := r.did .backUp o.backUp
        if o.backUp then publishTemporary o true r
        else discardTemporary o r "config-backup-failed"
    | some _ => discardTemporary o r "config-not-regular"

def fillTemporary (keepBackup : Bool) (data : CText) (r : FileRun) :
    FileRun × Except String Unit :=
  let r := r.did (.writeTemporary (data.take o.written)) true
  if o.written < data.length then discardTemporary o r "config-write-failed"
  else
    let r := r.did .syncTemporary o.sync
    if o.sync = false then discardTemporary o r "config-fsync-failed"
    else
      let r := r.did .closeTemporary o.close
      if o.close = false then discardTemporary o r "config-close-failed"
      else if keepBackup then backUpLive o r
      else publishTemporary o false r

/-- `O_EXCL` refuses a temporary file that is still there. -/
def createTemporary (r : FileRun) : Bool :=
  o.create && r.dir.temporary.isNone

def writeLockedFile (path : CText) (keepBackup : Bool) (dir : ConfigDir) (data : CText) :
    FileRun × Except String Unit :=
  let r : FileRun := ⟨dir, []⟩
  if path = [] then (r, .error "missing-config-path")
  else if pathMax ≤ path.length ∨ o.parent = false then (r, .error "config-dir-unavailable")
  else if pathMax ≤ path.length + (".tmp.".toList ++ CText.decimal o.pid).length then
    (r, .error "config-path-too-long")
  else if keepBackup ∧ pathMax ≤ path.length + ".bak".length then
    (r, .error "config-path-too-long")
  else
    let r := r.did .unlinkTemporary o.unlinkStale
    let created := createTemporary o r
    let r := r.did .createTemporary created
    if created = false then (r, .error "config-open-failed")
    else fillTemporary o keepBackup data r

def configLine (key : String) (value : Int) : CText :=
  key.toList ++ '=' :: CText.decimalInt value

def configText (config : LeRecoveryOwnerConfig) : CText :=
  CText.terminated '\n'
    [configLine "enabled" config.enabled,
      configLine "auto_enabled" config.autoEnabled,
      configLine "auto_timeout_ms" config.autoTimeoutMs]

def configTextMax : Nat := 256

def leRecoveryConfigPersist (path : CText) (config : LeRecoveryOwnerConfig) (dir : ConfigDir) :
    FileRun × Except String Unit :=
  if path = [] then (⟨dir, []⟩, .error "config-path-missing")
  else
    match leRecoveryConfigValidate config.enabled config.autoEnabled config.autoTimeoutMs with
    | some reason => (⟨dir, []⟩, .error reason)
    | none =>
        if configTextMax ≤ (configText config).length then (⟨dir, []⟩, .error "config-overflow")
        else if pathMax ≤ path.length then (⟨dir, []⟩, .error "psk-path-too-long")
        else
          match o.secureParent with
          | .error reason => (⟨dir, []⟩, .error reason)
          | .ok _ => writeLockedFile o path true dir (configText config)

/-- The directory after a crash that follows the first `k` file operations. -/
def crashAfter (path : CText) (config : LeRecoveryOwnerConfig) (dir : ConfigDir) (k : Nat) :
    ConfigDir :=
  Runs.run FileStep.apply dir ((leRecoveryConfigPersist o path config dir).1.steps.take k)

end Writer

/-! ### Reading -/

structure ConfigScan where
  config : LeRecoveryOwnerConfig
  seen : Bool

def scanFlag (value : CText) : Except String Int :=
  if value = "0".toList then .ok 0
  else if value = "1".toList then .ok 1
  else .error "config-malformed"

def scanTimeout (value : CText) : Except String Int :=
  match CText.strtoll value with
  | some ⟨timeout, [], _⟩ =>
      if timeout < leRecoveryTimeoutMinMs ∨ leRecoveryTimeoutMaxMs < timeout then
        .error "config-malformed"
      else .ok timeout
  | _ => .error "config-malformed"

def scanValue (config : LeRecoveryOwnerConfig) (key value : CText) :
    Except String LeRecoveryOwnerConfig :=
  if key = "enabled".toList then
    (scanFlag value).map fun flag => { config with enabled := flag }
  else if key = "auto_enabled".toList then
    (scanFlag value).map fun flag => { config with autoEnabled := flag }
  else if key = "auto_timeout_ms".toList then
    (scanTimeout value).map fun timeout => { config with autoTimeoutMs := timeout }
  else .error "config-unknown-key"

def scanLine (scan : ConfigScan) (line : CText) : Except String ConfigScan :=
  match CText.cutAt '=' line with
  | none => .error "config-malformed"
  | some (key, value) => (scanValue scan.config key value).map (⟨·, true⟩)

def configBuffer : Nat := 512

/-- `some` is 1, `none` is 0: no configuration is there yet. -/
def leRecoveryConfigLoad (path : CText) (config : LeRecoveryOwnerConfig) (dir : ConfigDir) :
    Except String (Option LeRecoveryOwnerConfig) :=
  if path = [] then .error "config-path-missing"
  else
    match dir.live with
    | none => .ok none
    | some .symlink => .error "config-symlink"
    | some .other => .error "config-not-regular"
    | some (.regular true _) => .error "config-permissions"
    | some (.regular false content) =>
        let buffer := content.take (configBuffer - 1)
        if buffer = [] then .error "config-empty"
        else
          match (CText.tokens '\n' (CText.ofBuffer buffer)).foldlM scanLine ⟨config, false⟩ with
          | .error reason => .error reason
          | .ok scan => if scan.seen then .ok (some scan.config) else .error "config-empty"

end LibreEcho.Recovery

/-!
What a crash during `le_recovery_config_persist` leaves for
`le_recovery_config_load`.

The rename to `.bak` takes the live file away before its replacement is renamed
into place. A crash in between finds no live file, and the reader never looks
at the backup. Every other crash point keeps the old or the new values.
-/
namespace LibreEcho.Recovery

/-! ### What was written is read back -/

theorem leRecoveryConfigValidate_none {enabled autoEnabled autoTimeoutMs : Int}
    (valid : leRecoveryConfigValidate enabled autoEnabled autoTimeoutMs = none) :
    (enabled = 0 ∨ enabled = 1) ∧ (autoEnabled = 0 ∨ autoEnabled = 1) ∧
      leRecoveryTimeoutMinMs ≤ autoTimeoutMs ∧ autoTimeoutMs ≤ leRecoveryTimeoutMaxMs := by
  unfold leRecoveryConfigValidate at valid
  split at valid
  · contradiction
  · split at valid
    · contradiction
    · split at valid
      · contradiction
      · omega

theorem scanFlag_decimalInt {flag : Int} (valid : flag = 0 ∨ flag = 1) :
    scanFlag (CText.decimalInt flag) = .ok flag := by
  rcases valid with rfl | rfl
  · rfl
  · rfl

theorem scanTimeout_decimalInt {timeout : Int} (low : leRecoveryTimeoutMinMs ≤ timeout)
    (high : timeout ≤ leRecoveryTimeoutMaxMs) :
    scanTimeout (CText.decimalInt timeout) = .ok timeout := by
  have converted : CText.strtoll (CText.decimalInt timeout ++ []) = some ⟨timeout, [], false⟩ :=
    CText.strtoll_decimalInt
      (by simp only [leRecoveryTimeoutMinMs, CText.longLongMin] at *; omega)
      (by simp only [leRecoveryTimeoutMaxMs, CText.longLongMax] at *; omega)
      (by simp [CText.DigitFree])
  rw [List.append_nil] at converted
  rw [scanTimeout, converted]
  exact if_neg (by omega)

theorem scanLine_configLine (scan : ConfigScan) (key : String) (value : Int)
    (free : '=' ∉ key.toList) :
    scanLine scan (configLine key value) =
      (scanValue scan.config key.toList (CText.decimalInt value)).map (⟨·, true⟩) := by
  rw [scanLine, configLine, CText.cutAt_append '=' key.toList _ free]

theorem not_mem_configLine {c : Char} {key : String} (value : Int) (free : c ∉ key.toList)
    (digit : c.isDigit = false) (sign : c ≠ '-') (equals : c ≠ '=') :
    c ∉ configLine key value := by
  have digits : c ∉ CText.decimalInt value := CText.not_mem_decimalInt value digit sign
  simp [configLine, free, digits, equals]

theorem configLine_ne_nil (key : String) (value : Int) : configLine key value ≠ [] := by
  simp [configLine]

theorem configText_tokens (config : LeRecoveryOwnerConfig) :
    CText.tokens '\n' (configText config) =
      [configLine "enabled" config.enabled,
        configLine "auto_enabled" config.autoEnabled,
        configLine "auto_timeout_ms" config.autoTimeoutMs] := by
  refine CText.tokens_terminated '\n' _ (List.forall_mem_cons.mpr ⟨?_,
    List.forall_mem_cons.mpr ⟨?_, List.forall_mem_cons.mpr ⟨?_, List.forall_mem_nil _⟩⟩⟩)
  · exact ⟨not_mem_configLine _ (by decide +kernel) rfl (by decide) (by decide),
      configLine_ne_nil _ _⟩
  · exact ⟨not_mem_configLine _ (by decide +kernel) rfl (by decide) (by decide),
      configLine_ne_nil _ _⟩
  · exact ⟨not_mem_configLine _ (by decide +kernel) rfl (by decide) (by decide),
      configLine_ne_nil _ _⟩

theorem ofBuffer_configText (config : LeRecoveryOwnerConfig) :
    CText.ofBuffer (configText config) = configText config := by
  have enabled : '\x00' ∉ configLine "enabled" config.enabled :=
    not_mem_configLine _ (by decide +kernel) rfl (by decide) (by decide)
  have autoEnabled : '\x00' ∉ configLine "auto_enabled" config.autoEnabled :=
    not_mem_configLine _ (by decide +kernel) rfl (by decide) (by decide)
  have timeout : '\x00' ∉ configLine "auto_timeout_ms" config.autoTimeoutMs :=
    not_mem_configLine _ (by decide +kernel) rfl (by decide) (by decide)
  have free : '\x00' ∉ configText config := by
    simp [configText, CText.terminated, enabled, autoEnabled, timeout]
  refine List.takeWhile_eq_self_iff.mpr ?_
  intro c member
  exact decide_eq_true (fun same => free (same ▸ member))

theorem length_decimalInt_flag {flag : Int} (valid : flag = 0 ∨ flag = 1) :
    (CText.decimalInt flag).length = 1 := by
  rcases valid with rfl | rfl
  · rfl
  · rfl

theorem length_decimalInt_timeout {timeout : Int} (low : leRecoveryTimeoutMinMs ≤ timeout)
    (high : timeout ≤ leRecoveryTimeoutMaxMs) : (CText.decimalInt timeout).length ≤ 6 := by
  simp only [leRecoveryTimeoutMinMs, leRecoveryTimeoutMaxMs] at low high
  cases timeout with
  | ofNat n => exact Nat.toDigits_length 10 n 6 (by decide) (by simp at high; omega)
  | negSucc n => omega

theorem length_configText {config : LeRecoveryOwnerConfig}
    (valid : leRecoveryConfigValidate config.enabled config.autoEnabled
      config.autoTimeoutMs = none) : (configText config).length < configTextMax := by
  obtain ⟨enabled, autoEnabled, low, high⟩ := leRecoveryConfigValidate_none valid
  have first := length_decimalInt_flag enabled
  have second := length_decimalInt_flag autoEnabled
  have third := length_decimalInt_timeout low high
  have keys : "enabled".length = 7 ∧ "auto_enabled".length = 12 ∧
      "auto_timeout_ms".length = 15 := by decide +kernel
  simp [configText, configTextMax, CText.terminated, configLine, first, second]
  omega

theorem configLines_scan (current : LeRecoveryOwnerConfig) {config : LeRecoveryOwnerConfig}
    (valid : leRecoveryConfigValidate config.enabled config.autoEnabled
      config.autoTimeoutMs = none) :
    (CText.tokens '\n' (configText config)).foldlM scanLine ⟨current, false⟩ =
      .ok ⟨config, true⟩ := by
  obtain ⟨enabled, autoEnabled, low, high⟩ := leRecoveryConfigValidate_none valid
  have first (scan : ConfigScan) : scanLine scan (configLine "enabled" config.enabled) =
      .ok ⟨{ scan.config with enabled := config.enabled }, true⟩ := by
    rw [scanLine_configLine _ _ _ (by decide +kernel), scanValue, if_pos rfl,
      scanFlag_decimalInt enabled]
    rfl
  have second (scan : ConfigScan) : scanLine scan (configLine "auto_enabled" config.autoEnabled) =
      .ok ⟨{ scan.config with autoEnabled := config.autoEnabled }, true⟩ := by
    rw [scanLine_configLine _ _ _ (by decide +kernel), scanValue, if_neg (by decide +kernel),
      if_pos rfl, scanFlag_decimalInt autoEnabled]
    rfl
  have third (scan : ConfigScan) :
      scanLine scan (configLine "auto_timeout_ms" config.autoTimeoutMs) =
        .ok ⟨{ scan.config with autoTimeoutMs := config.autoTimeoutMs }, true⟩ := by
    rw [scanLine_configLine _ _ _ (by decide +kernel), scanValue, if_neg (by decide +kernel),
      if_neg (by decide +kernel), if_pos rfl, scanTimeout_decimalInt low high]
    rfl
  rw [configText_tokens, List.foldlM_cons, first]
  change List.foldlM scanLine _ _ = _
  rw [List.foldlM_cons, second]
  change List.foldlM scanLine _ _ = _
  rw [List.foldlM_cons, third]
  rfl

theorem leRecoveryConfigLoad_configText {path : CText} (named : path ≠ [])
    (current : LeRecoveryOwnerConfig) {config : LeRecoveryOwnerConfig}
    (valid : leRecoveryConfigValidate config.enabled config.autoEnabled
      config.autoTimeoutMs = none) {dir : ConfigDir}
    (live : dir.live = some (.regular false (configText config))) :
    leRecoveryConfigLoad path current dir = .ok (some config) := by
  have size := length_configText valid
  have whole : (configText config).take (configBuffer - 1) = configText config :=
    List.take_of_length_le (by simp only [configBuffer, configTextMax] at *; omega)
  have filled : configText config ≠ [] := by simp [configText, CText.terminated]
  rw [leRecoveryConfigLoad, if_neg named, live]
  simp only [whole, if_neg filled, ofBuffer_configText, configLines_scan current valid, if_true]

theorem leRecoveryConfigLoad_congr {path : CText} {current : LeRecoveryOwnerConfig}
    {a b : ConfigDir} (same : a.live = b.live) :
    leRecoveryConfigLoad path current a = leRecoveryConfigLoad path current b := by
  rw [leRecoveryConfigLoad, leRecoveryConfigLoad, same]

theorem leRecoveryConfigLoad_gone {path : CText} (named : path ≠ [])
    (current : LeRecoveryOwnerConfig) {dir : ConfigDir} (gone : dir.live = none) :
    leRecoveryConfigLoad path current dir = .ok none := by
  rw [leRecoveryConfigLoad, if_neg named, gone]

theorem leRecoveryConfigLoad_some {path : CText} {current config : LeRecoveryOwnerConfig}
    {dir : ConfigDir} (loaded : leRecoveryConfigLoad path current dir = .ok (some config)) :
    path ≠ [] ∧ ∃ content, dir.live = some (.regular false content) := by
  by_cases named : path = []
  · rw [leRecoveryConfigLoad, if_pos named] at loaded
    contradiction
  · refine ⟨named, ?_⟩
    rw [leRecoveryConfigLoad, if_neg named] at loaded
    cases live : dir.live with
    | none => simp [live] at loaded
    | some node =>
        cases node with
        | symlink => simp [live] at loaded
        | other => simp [live] at loaded
        | regular shared content =>
            cases shared with
            | true => simp [live] at loaded
            | false => exact ⟨content, rfl⟩

/-! ### The steps of the writer -/

def FileStep.KeepsLive (step : FileStep) : Prop :=
  ∀ dir, (step.apply dir).live = dir.live

theorem FileStep.keepsLive_of_failed (op : FileOp) : FileStep.KeepsLive ⟨op, false⟩ :=
  fun _ => rfl

theorem FileStep.keepsLive_unlinkTemporary (ok : Bool) :
    FileStep.KeepsLive ⟨.unlinkTemporary, ok⟩ := by
  intro dir
  cases ok <;> rfl

theorem FileStep.keepsLive_createTemporary (ok : Bool) :
    FileStep.KeepsLive ⟨.createTemporary, ok⟩ := by
  intro dir
  cases ok <;> rfl

theorem FileStep.keepsLive_writeTemporary (written : CText) (ok : Bool) :
    FileStep.KeepsLive ⟨.writeTemporary written, ok⟩ := by
  intro dir
  cases ok <;> rfl

theorem FileStep.keepsLive_of_still (op : FileOp) (still : ∀ dir, op.apply dir = dir) (ok : Bool) :
    FileStep.KeepsLive ⟨op, ok⟩ := by
  intro dir
  cases ok with
  | false => rfl
  | true => exact congrArg ConfigDir.live (still dir)

theorem run_keepsLive {steps : List FileStep} (kept : ∀ step ∈ steps, step.KeepsLive)
    (dir : ConfigDir) : (Runs.run FileStep.apply dir steps).live = dir.live := by
  induction steps generalizing dir with
  | nil => rfl
  | cons step rest ih =>
      rw [Runs.run_cons, ih (fun later member => kept later (List.mem_cons_of_mem _ member))]
      exact kept step List.mem_cons_self dir

theorem run_take_keepsLive {steps : List FileStep} (kept : ∀ step ∈ steps, step.KeepsLive)
    (dir : ConfigDir) (k : Nat) :
    (Runs.run FileStep.apply dir (steps.take k)).live = dir.live :=
  run_keepsLive (fun step member => kept step (List.mem_of_mem_take member)) dir

structure FileRun.Untouched (start : ConfigDir) (r : FileRun) : Prop where
  reached : r.dir = Runs.run FileStep.apply start r.steps
  kept : ∀ step ∈ r.steps, step.KeepsLive

theorem FileRun.Untouched.did {start : ConfigDir} {r : FileRun} (untouched : r.Untouched start)
    {op : FileOp} {ok : Bool} (keeps : FileStep.KeepsLive ⟨op, ok⟩) :
    (r.did op ok).Untouched start := by
  refine ⟨?_, ?_⟩
  · rw [FileRun.did, Runs.run_concat, ← untouched.reached]
  · intro step member
    rcases List.mem_append.mp member with earlier | last
    · exact untouched.kept step earlier
    · rw [List.mem_singleton.mp last]
      exact keeps

theorem FileRun.Untouched.live {start : ConfigDir} {r : FileRun} (untouched : r.Untouched start) :
    r.dir.live = start.live := by
  rw [untouched.reached, run_keepsLive untouched.kept]

section Writer
variable (o : FileOutcomes)

/-- What follows the rename of the live file to `.bak`. -/
def publishSteps : List FileStep :=
  if o.publish then
    ⟨.publish, true⟩ :: ⟨.syncParent, o.syncParent⟩ ::
      (if o.syncParent then [] else [⟨.rollBack, o.rollBack⟩])
  else [⟨.publish, false⟩, ⟨.rollBack, o.rollBack⟩, ⟨.unlinkTemporary, o.discard⟩]

theorem publishTemporary_steps (r : FileRun) :
    (publishTemporary o true r).1.steps = r.steps ++ publishSteps o := by
  unfold publishTemporary publishSteps syncPublished discardTemporary FileRun.did
  cases o.publish with
  | false => simp
  | true =>
      cases o.syncParent with
      | false => simp
      | true => simp

theorem discardTemporary_untouched {start : ConfigDir} {r : FileRun}
    (untouched : r.Untouched start) (reason : String) :
    (discardTemporary o r reason).1.Untouched start :=
  untouched.did (FileStep.keepsLive_unlinkTemporary o.discard)

theorem statLive_untouched {start : ConfigDir} {r : FileRun} (untouched : r.Untouched start)
    (ok : Bool) : (r.did .statLive ok).Untouched start :=
  untouched.did (FileStep.keepsLive_of_still .statLive (fun _ => rfl) ok)

/-- The live file was moved to `.bak` by the seventh operation, with `data`
synced in the temporary file. -/
def Replaces (start : ConfigDir) (data : CText) (steps : List FileStep) : Prop :=
  ∃ r : FileRun, r.Untouched start ∧ r.steps.length = 6 ∧
    r.dir.temporary = some (.regular false data) ∧
    steps = r.steps ++ ⟨.backUp, true⟩ :: publishSteps o

theorem backUpLive_steps {start : ConfigDir} {data content : CText} {shared : Bool} {r : FileRun}
    (live : start.live = some (.regular shared content)) (untouched : r.Untouched start)
    (length : r.steps.length = 5) (temporary : r.dir.temporary = some (.regular false data)) :
    if o.stat ∧ o.backUp then Replaces o start data (backUpLive o r).1.steps
    else (backUpLive o r).1.Untouched start := by
  have stated := statLive_untouched untouched o.stat
  unfold backUpLive
  cases stat : o.stat with
  | false =>
      rw [stat] at stated
      exact discardTemporary_untouched o stated _
  | true =>
      rw [stat] at stated
      have found : (r.did .statLive true).dir.live = some (.regular shared content) :=
        stated.live.trans live
      simp only [Bool.true_eq_false, if_false, found, true_and]
      cases backUp : o.backUp with
      | false =>
          exact discardTemporary_untouched o
            (stated.did (FileStep.keepsLive_of_failed .backUp)) _
      | true =>
          refine ⟨r.did .statLive true, stated, ?_, temporary, ?_⟩
          · simp [FileRun.did, length]
          · rw [if_pos rfl, publishTemporary_steps]
            simp [FileRun.did]

theorem fillTemporary_steps (data : CText) {start : ConfigDir} {content : CText} {shared : Bool}
    {r : FileRun} (live : start.live = some (.regular shared content))
    (untouched : r.Untouched start) (length : r.steps.length = 2) :
    if data.length ≤ o.written ∧ o.sync ∧ o.close ∧ o.stat ∧ o.backUp then
      Replaces o start data (fillTemporary o true data r).1.steps
    else (fillTemporary o true data r).1.Untouched start := by
  have filled := untouched.did (FileStep.keepsLive_writeTemporary (data.take o.written) true)
  unfold fillTemporary
  by_cases full : data.length ≤ o.written
  · have whole : data.take o.written = data := List.take_of_length_le full
    rw [whole] at filled ⊢
    have synced (ok : Bool) :=
      filled.did (FileStep.keepsLive_of_still .syncTemporary (fun _ => rfl) ok)
    simp only [full, true_and, Nat.not_lt.mpr full, if_false]
    cases sync : o.sync with
    | false => exact discardTemporary_untouched o (synced false) _
    | true =>
        have closed (ok : Bool) :=
          (synced true).did (FileStep.keepsLive_of_still .closeTemporary (fun _ => rfl) ok)
        simp only [Bool.true_eq_false, if_false, true_and]
        cases close : o.close with
        | false => exact discardTemporary_untouched o (closed false) _
        | true =>
            simp only [Bool.true_eq_false, if_false, if_true, true_and]
            exact backUpLive_steps o live (closed true) (by simp [FileRun.did, length]) rfl
  · rw [if_neg (fun all => full all.1), if_pos (Nat.lt_of_not_le full)]
    exact discardTemporary_untouched o filled _

/-- Everything up to the rename to `.bak` succeeds. -/
structure ReachesBackup (path : CText) (data : CText) (dir : ConfigDir) : Prop where
  secureParent : o.secureParent = .ok ()
  parent : o.parent = true
  temporaryFits : path.length + (".tmp.".toList ++ CText.decimal o.pid).length < pathMax
  backupFits : path.length + ".bak".length < pathMax
  cleared : dir.temporary = none ∨ o.unlinkStale = true
  create : o.create = true
  written : data.length ≤ o.written
  sync : o.sync = true
  close : o.close = true
  stat : o.stat = true
  backUp : o.backUp = true

theorem untouched_start (start : ConfigDir) : FileRun.Untouched start ⟨start, []⟩ :=
  ⟨rfl, fun _ member => absurd member List.not_mem_nil⟩

theorem createTemporary_unlinked (dir : ConfigDir) :
    createTemporary o ((FileRun.mk dir []).did .unlinkTemporary o.unlinkStale) = true ↔
      o.create = true ∧ (dir.temporary = none ∨ o.unlinkStale = true) := by
  unfold createTemporary FileRun.did FileStep.apply
  cases o.unlinkStale with
  | false => simp
  | true => simp [FileOp.apply]

theorem leRecoveryConfigPersist_steps {path : CText} (named : path ≠ [])
    {config : LeRecoveryOwnerConfig}
    (valid : leRecoveryConfigValidate config.enabled config.autoEnabled
      config.autoTimeoutMs = none)
    {dir : ConfigDir} {content : CText} {shared : Bool}
    (live : dir.live = some (.regular shared content)) :
    (ReachesBackup o path (configText config) dir ∧
        Replaces o dir (configText config) (leRecoveryConfigPersist o path config dir).1.steps) ∨
      (¬ ReachesBackup o path (configText config) dir ∧
        (leRecoveryConfigPersist o path config dir).1.Untouched dir) := by
  have size : ¬ configTextMax ≤ (configText config).length :=
    Nat.not_le.mpr (length_configText valid)
  have idle := untouched_start dir
  rw [leRecoveryConfigPersist, if_neg named, valid]
  simp only [if_neg size]
  by_cases long : pathMax ≤ path.length
  · rw [if_pos long]
    exact .inr ⟨fun reaches => by have := reaches.temporaryFits; omega, idle⟩
  rw [if_neg long]
  cases secure : o.secureParent with
  | error reason => exact .inr ⟨fun reaches => by simp [reaches.secureParent] at secure, idle⟩
  | ok _ =>
  simp only [writeLockedFile, if_neg named, long, false_or, true_and]
  by_cases parent : o.parent = false
  · rw [if_pos parent]
    exact .inr ⟨fun reaches => by simp [reaches.parent] at parent, idle⟩
  rw [if_neg parent]
  by_cases temporaryLong : pathMax ≤ path.length + (".tmp.".toList ++ CText.decimal o.pid).length
  · rw [if_pos temporaryLong]
    exact .inr ⟨fun reaches => Nat.not_le.mpr reaches.temporaryFits temporaryLong, idle⟩
  rw [if_neg temporaryLong]
  by_cases backupLong : pathMax ≤ path.length + ".bak".length
  · rw [if_pos backupLong]
    exact .inr ⟨fun reaches => Nat.not_le.mpr reaches.backupFits backupLong, idle⟩
  rw [if_neg backupLong]
  have unlinked := idle.did (FileStep.keepsLive_unlinkTemporary o.unlinkStale)
  have created := createTemporary_unlinked o dir
  cases creates : createTemporary o ((FileRun.mk dir []).did .unlinkTemporary o.unlinkStale) with
  | false =>
      refine .inr ⟨fun reaches => ?_, unlinked.did (FileStep.keepsLive_createTemporary false)⟩
      have := created.mpr ⟨reaches.create, reaches.cleared⟩
      simp [creates] at this
  | true =>
      obtain ⟨create, cleared⟩ := created.mp creates
      simp only [Bool.true_eq_false, if_false]
      have outcome := fillTemporary_steps o (configText config) live
        (unlinked.did (FileStep.keepsLive_createTemporary true)) rfl
      by_cases all : (configText config).length ≤ o.written ∧ o.sync = true ∧ o.close = true ∧
          o.stat = true ∧ o.backUp = true
      · rw [if_pos all] at outcome
        obtain ⟨written, sync, close, stat, backUp⟩ := all
        exact .inl ⟨⟨secure, by simpa using parent, Nat.lt_of_not_le temporaryLong,
          Nat.lt_of_not_le backupLong, cleared, create, written, sync, close, stat, backUp⟩, outcome⟩
      · rw [if_neg all] at outcome
        exact .inr ⟨fun reaches => all ⟨reaches.written, reaches.sync, reaches.close,
          reaches.stat, reaches.backUp⟩, outcome⟩

/-! ### The crash -/

/-- A rename has put a file back by operation `k`: the replacement, or else the
rollback. -/
def PutBack (k : Nat) : Prop :=
  if o.publish then 8 ≤ k else o.rollBack = true ∧ 9 ≤ k

/-- The crash falls after the rename to `.bak`, the seventh operation, and before
a rename puts a file back. -/
def CrashInGap (path : CText) (config : LeRecoveryOwnerConfig) (dir : ConfigDir) (k : Nat) :
    Prop :=
  ReachesBackup o path (configText config) dir ∧ 7 ≤ k ∧ ¬ PutBack o k

theorem publishSteps_live {old new : ConfigNode} {dir : ConfigDir} (live : dir.live = none)
    (backup : dir.backup = some old) (temporary : dir.temporary = some new) (k : Nat) :
    let after := Runs.run FileStep.apply dir ((publishSteps o).take k)
    (PutBack o (7 + k) ∧ (after.live = some old ∨ after.live = some new)) ∨
      (¬ PutBack o (7 + k) ∧ after.live = none) := by
  unfold publishSteps PutBack
  obtain ⟨_, _, _⟩ := dir
  subst live backup temporary
  have late (n : Nat) : 8 ≤ 7 + (n + 3) ∧ 9 ≤ 7 + (n + 3) := by omega
  cases publish : o.publish with
  | false =>
      cases rollBack : o.rollBack with
      | false =>
          match k with
          | 0 | 1 | 2 => simp [FileStep.apply]
          | k + 3 => cases o.discard <;> simp [FileStep.apply, FileOp.apply]
      | true =>
          match k with
          | 0 | 1 => simp [FileStep.apply]
          | 2 => simp [FileStep.apply, FileOp.apply]
          | k + 3 => cases o.discard <;> simp [FileStep.apply, FileOp.apply, late]
  | true =>
      match k with
      | 0 => simp
      | 1 => simp [FileStep.apply, FileOp.apply]
      | 2 => cases o.syncParent <;> simp [FileStep.apply, FileOp.apply]
      | k + 3 =>
          cases o.syncParent with
          | true => simp [FileStep.apply, FileOp.apply, late]
          | false => cases o.rollBack <;> simp [FileStep.apply, FileOp.apply, late]

/-- The old or the new configuration loads after a crash exactly when the crash
does not fall into the gap between the two renames. -/
theorem leRecoveryConfigLoad_afterCrash (path : CText)
    (current old new : LeRecoveryOwnerConfig) (dir : ConfigDir) (k : Nat)
    (persisted : leRecoveryConfigLoad path current dir = .ok (some old))
    (valid : leRecoveryConfigValidate new.enabled new.autoEnabled new.autoTimeoutMs = none) :
    (leRecoveryConfigLoad path current (crashAfter o path new dir k) = .ok (some old) ∨
        leRecoveryConfigLoad path current (crashAfter o path new dir k) = .ok (some new)) ↔
      ¬ CrashInGap o path new dir k := by
  obtain ⟨named, content, live⟩ := leRecoveryConfigLoad_some persisted
  rcases leRecoveryConfigPersist_steps o named valid live with
    ⟨reaches, r, untouched, length, temporary, steps⟩ | ⟨unreached, untouched⟩
  · rw [crashAfter, steps]
    by_cases early : k ≤ 6
    · -- nothing touched the live file yet
      rw [List.take_append_of_le_length (by omega)]
      refine iff_of_true (.inl ?_) (fun gap => by have := gap.2.1; omega)
      rw [← persisted]
      exact leRecoveryConfigLoad_congr (run_take_keepsLive untouched.kept dir k)
    · obtain ⟨j, rfl⟩ : ∃ j, k = 7 + j := ⟨k - 7, by omega⟩
      have split : (r.steps ++ ⟨.backUp, true⟩ :: publishSteps o).take (7 + j) =
          r.steps ++ ⟨.backUp, true⟩ :: (publishSteps o).take j := by
        rw [List.take_append, length, List.take_of_length_le (by omega)]
        congr 1
        rw [show 7 + j - 6 = j + 1 by omega, List.take_succ_cons]
      rw [split, Runs.run_append, Runs.run_cons, ← untouched.reached]
      have gone : (FileStep.apply r.dir ⟨.backUp, true⟩).live = none := rfl
      have backup : (FileStep.apply r.dir ⟨.backUp, true⟩).backup =
          some (.regular false content) := untouched.live.trans live
      have after := publishSteps_live o gone backup temporary j
      rcases after with ⟨back, kept | replaced⟩ | ⟨missing, none⟩
      · refine iff_of_true (.inl ?_) (fun gap => gap.2.2 back)
        rw [← persisted]
        exact leRecoveryConfigLoad_congr (kept.trans live.symm)
      · exact iff_of_true (.inr (leRecoveryConfigLoad_configText named current valid replaced))
          (fun gap => gap.2.2 back)
      · refine iff_of_false ?_ (fun safe => safe ⟨reaches, by omega, missing⟩)
        rw [leRecoveryConfigLoad_gone named current none]
        simp
  · refine iff_of_true (.inl ?_) (fun gap => unreached gap.1)
    rw [← persisted, crashAfter]
    exact leRecoveryConfigLoad_congr (run_take_keepsLive untouched.kept dir k)

end Writer

def ownerOptIn : LeRecoveryOwnerConfig := ⟨1, 1, 90000⟩
def ownerOptOut : LeRecoveryOwnerConfig := ⟨1, 0, 120000⟩

def configPath : CText := "/data/libreecho/config/recovery.json".toList

def persistedOptIn : ConfigDir :=
  ⟨some (.regular false (configText ownerOptIn)), none, none⟩

def allSucceed : FileOutcomes where
  secureParent := .ok ()
  parent := true
  pid := 212
  unlinkStale := false
  create := true
  written := 4096
  sync := true
  close := true
  stat := true
  backUp := true
  publish := true
  rollBack := true
  syncParent := true
  unlinkLive := true
  discard := true

theorem persistedOptIn_loads (current : LeRecoveryOwnerConfig) :
    leRecoveryConfigLoad configPath current persistedOptIn = .ok (some ownerOptIn) :=
  leRecoveryConfigLoad_configText (by decide +kernel) current (by decide) rfl

theorem leRecoveryConfigLoad_afterCrash_published :
    leRecoveryConfigLoad configPath ownerOptOut persistedOptIn = .ok (some ownerOptIn) ∧
      leRecoveryConfigValidate 1 0 120000 = none ∧
      (leRecoveryConfigLoad configPath ownerOptOut
            (crashAfter allSucceed configPath ownerOptOut persistedOptIn 8) = .ok (some ownerOptIn) ∨
        leRecoveryConfigLoad configPath ownerOptOut
            (crashAfter allSucceed configPath ownerOptOut persistedOptIn 8) =
          .ok (some ownerOptOut)) :=
  ⟨persistedOptIn_loads ownerOptOut, by decide,
    (leRecoveryConfigLoad_afterCrash allSucceed configPath ownerOptOut ownerOptIn ownerOptOut
      persistedOptIn 8 (persistedOptIn_loads ownerOptOut) (by decide)).mpr
      (fun gap => gap.2.2 (by simp [PutBack, allSucceed]))⟩

/-- A crash right after the seventh operation: an opted-in owner's file is gone. -/
theorem leRecoveryConfigLoad_afterCrash_gap :
    ¬ ∀ (o : FileOutcomes) (path : CText) (current old new : LeRecoveryOwnerConfig)
      (dir : ConfigDir) (k : Nat),
      leRecoveryConfigLoad path current dir = .ok (some old) →
      leRecoveryConfigValidate new.enabled new.autoEnabled new.autoTimeoutMs = none →
      leRecoveryConfigLoad path current (crashAfter o path new dir k) = .ok (some old) ∨
        leRecoveryConfigLoad path current (crashAfter o path new dir k) = .ok (some new) := by
  intro survives
  have lost : leRecoveryConfigLoad configPath ownerOptOut
      (crashAfter allSucceed configPath ownerOptOut persistedOptIn 7) = .ok none := by
    decide +kernel
  have kept := survives allSucceed configPath ownerOptOut ownerOptIn ownerOptOut persistedOptIn 7
    (persistedOptIn_loads ownerOptOut) (by decide)
  rw [lost] at kept
  simp at kept

end LibreEcho.Recovery
