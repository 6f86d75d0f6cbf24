import LibreEcho.Recovery.Children
import LibreEcho.Recovery.ConfigFile

/-!
`le_recovery_configure` and the file that it replaces.

The writer undoes what it has renamed when a later operation fails, so one failure leaves the
live file as it was; the running configuration follows the file.
-/
namespace LibreEcho.Recovery

/-- The environment whose persist is the writer on this directory. -/
def LeRecoveryEnvironment.persisting (E : LeRecoveryEnvironment) (o : FileOutcomes) (path : CText)
    (dir : ConfigDir) : LeRecoveryEnvironment :=
  { E with
    configPersist := fun _ enabled autoEnabled autoTimeoutMs =>
      (leRecoveryConfigPersist o path ⟨enabled, autoEnabled, autoTimeoutMs⟩ dir).2 }

structure Configured where
  answer : Except String Unit
  recovery : LeRecovery
  dir : ConfigDir

/-- `le_recovery_configure` with its file operations. -/
def configureFile (E : LeRecoveryEnvironment) (o : FileOutcomes) (path : CText) (dir : ConfigDir)
    (s : LeRecovery) (config : LeRecoveryOwnerConfig) : Configured :=
  let configured := leRecoveryConfigure (E.persisting o path dir) s config.enabled
    config.autoEnabled config.autoTimeoutMs
  ⟨configured.1, configured.2, (leRecoveryConfigPersist o path config dir).1.dir⟩

def LeRecoveryConfig.owner (config : LeRecoveryConfig) : LeRecoveryOwnerConfig :=
  ⟨if config.enabled then 1 else 0, if config.autoEnabled then 1 else 0, config.autoTimeoutMs⟩

/--
How many of the operations fail when this text is to be written. The removal of a stale
temporary file may fail besides: there is none as a rule.
-/
def FileOutcomes.failures (o : FileOutcomes) (data : CText) : Nat :=
  [o.create, decide (data.length ≤ o.written), o.sync, o.close, o.stat, o.backUp, o.publish,
    o.rollBack, o.syncParent, o.unlinkLive, o.discard].count false

/-! ### The file -/

/-- The live file is as it was, or the new one with the old one beside it. -/
structure Atomic (start : ConfigDir) (data : CText) (x : FileRun × Except String Unit) : Prop where
  kept : ∀ reason, x.2 = .error reason → x.1.dir.live = start.live
  replaced : x.2 = .ok () → x.1.dir.live = some (.regular false data) ∧
    ∀ node, start.live = some node → x.1.dir.backup = some node

/-- What undoes a rename succeeds once one has failed or was not made durable. -/
def FileOutcomes.Undoes (o : FileOutcomes) : Prop :=
  o.publish = false ∨ o.syncParent = false → o.rollBack = true ∧ o.unlinkLive = true

theorem undoes_of_single {o : FileOutcomes} {data : CText} (single : o.failures data ≤ 1) :
    o.Undoes := by
  unfold FileOutcomes.failures at single
  simp only [List.count_cons, List.count_nil] at single
  intro failed
  cases rollBack : o.rollBack with
  | true =>
      cases unlinkLive : o.unlinkLive with
      | true => exact ⟨rfl, rfl⟩
      | false =>
          rcases failed with publish | syncParent
          · simp only [publish, unlinkLive, BEq.rfl, if_true] at single
            omega
          · simp only [syncParent, unlinkLive, BEq.rfl, if_true] at single
            omega
  | false =>
      rcases failed with publish | syncParent
      · simp only [publish, rollBack, BEq.rfl, if_true] at single
        omega
      · simp only [syncParent, rollBack, BEq.rfl, if_true] at single
        omega

section Writer
variable {o : FileOutcomes} {start : ConfigDir} {data : CText} {r : FileRun}

theorem discardTemporary_atomic (live : r.dir.live = start.live) (reason : String) :
    Atomic start data (discardTemporary o r reason) where
  kept _ _ := (FileStep.keepsLive_unlinkTemporary o.discard r.dir).trans live
  replaced done := nomatch done

theorem refused_atomic (live : r.dir.live = start.live) (reason : String) :
    Atomic start data (r, .error reason) where
  kept _ _ := live
  replaced done := nomatch done

theorem unstarted_atomic (dir : ConfigDir) (data : CText) (reason : String) :
    Atomic dir data (⟨dir, []⟩, .error reason) where
  kept _ _ := rfl
  replaced done := nomatch done

/-- The replacement is ready, and the old file is out of the way. -/
structure Ready (start : ConfigDir) (data : CText) (backedUp : Bool) (r : FileRun) : Prop where
  temporary : r.dir.temporary = some (.regular false data)
  gone : r.dir.live = none
  old : (if backedUp then r.dir.backup else none) = start.live

theorem Ready.publish {backedUp : Bool} (ready : Ready start data backedUp r) :
    (r.did .publish true).dir.live = some (.regular false data) ∧
      (r.did .publish true).dir.backup = r.dir.backup :=
  ⟨ready.temporary, rfl⟩

theorem Ready.undone {backedUp : Bool} (ready : Ready start data backedUp r) {r' : FileRun}
    (same : r'.dir.backup = r.dir.backup) :
    (r'.did (if backedUp then .rollBack else .unlinkLive) true).dir.live = start.live := by
  have old := ready.old
  cases backedUp with
  | false => exact old
  | true => exact same.trans old

theorem syncPublished_atomic (undoes : o.Undoes) {backedUp : Bool}
    (ready : Ready start data backedUp r) :
    Atomic start data (syncPublished o backedUp (r.did .publish true)) := by
  obtain ⟨live, backup⟩ := ready.publish
  unfold syncPublished
  cases syncParent : o.syncParent with
  | true =>
      refine ⟨nofun, fun _ => ⟨live, fun node was => ?_⟩⟩
      have old := ready.old
      cases backedUp with
      | false => exact nomatch old.trans was
      | true => exact backup.trans (old.trans was)
  | false =>
      obtain ⟨rollBack, unlinkLive⟩ := undoes (.inr syncParent)
      have undone : (if backedUp then o.rollBack else o.unlinkLive) = true := by
        rw [rollBack, unlinkLive, ite_self]
      simp only [Bool.false_eq_true, if_false, undone]
      refine ⟨fun _ _ => ?_, nofun⟩
      have published : ((r.did .publish true).did .syncParent false).dir.backup = r.dir.backup :=
        backup
      exact ready.undone published

theorem publishTemporary_atomic (undoes : o.Undoes) {backedUp : Bool}
    (ready : Ready start data backedUp r) :
    Atomic start data (publishTemporary o backedUp r) := by
  unfold publishTemporary
  cases publish : o.publish with
  | true => exact syncPublished_atomic undoes ready
  | false =>
      obtain ⟨rollBack, -⟩ := undoes (.inl publish)
      rw [rollBack]
      refine discardTemporary_atomic ?_ _
      have old := ready.old
      cases backedUp with
      | false => exact ready.gone.trans old
      | true => exact old

theorem backUpLive_atomic (undoes : o.Undoes)
    (temporary : r.dir.temporary = some (.regular false data))
    (live : r.dir.live = start.live) : Atomic start data (backUpLive o r) := by
  have stated : (r.did .statLive o.stat).dir = r.dir := by
    cases stat : o.stat with
    | false => rfl
    | true => rfl
  unfold backUpLive
  dsimp only
  split
  · exact discardTemporary_atomic (by rw [stated]; exact live) _
  rw [stated]
  cases found : r.dir.live with
  | none =>
      refine publishTemporary_atomic undoes ⟨?_, ?_, ?_⟩
      · rw [stated]
        exact temporary
      · rw [stated]
        exact found
      · exact found.symm.trans live
  | some node =>
      cases node with
      | symlink | other => exact discardTemporary_atomic (by rw [stated]; exact live) _
      | regular shared content =>
          dsimp only
          cases backUp : o.backUp with
          | false =>
              rw [if_neg Bool.false_ne_true]
              have failed : ((r.did .statLive o.stat).did .backUp false).dir.live = start.live :=
                (congrArg ConfigDir.live stated).trans live
              exact discardTemporary_atomic failed _
          | true =>
              rw [if_pos rfl]
              refine publishTemporary_atomic undoes ⟨?_, rfl, ?_⟩
              · exact (congrArg ConfigDir.temporary stated).trans temporary
              · exact (congrArg ConfigDir.live stated).trans live

theorem fillTemporary_atomic (undoes : o.Undoes) (live : r.dir.live = start.live) :
    Atomic start data (fillTemporary o true data r) := by
  unfold fillTemporary
  dsimp only
  have wrote : (r.did (.writeTemporary (data.take o.written)) true).dir.live = start.live := live
  split
  · exact discardTemporary_atomic wrote _
  case isFalse whole =>
      have full : data.take o.written = data := List.take_of_length_le (Nat.not_lt.mp whole)
      rw [full] at wrote ⊢
      generalize filled : r.did (.writeTemporary data) true = w at wrote
      have temporary : w.dir.temporary = some (.regular false data) := by
        rw [← filled]
        rfl
      have synced (ok : Bool) : (w.did .syncTemporary ok).dir = w.dir := by
        cases ok with
        | false => rfl
        | true => rfl
      have closed (ok : Bool) (v : FileRun) : (v.did .closeTemporary ok).dir = v.dir := by
        cases ok with
        | false => rfl
        | true => rfl
      split
      · exact discardTemporary_atomic (by rw [synced]; exact wrote) _
      split
      · exact discardTemporary_atomic (by rw [closed, synced]; exact wrote) _
      · refine backUpLive_atomic undoes ?_ ?_
        · rw [closed, synced]
          exact temporary
        · rw [closed, synced]
          exact wrote

theorem writeLockedFile_atomic (undoes : o.Undoes) (path : CText) (dir : ConfigDir)
    (data : CText) : Atomic dir data (writeLockedFile o path true dir data) := by
  unfold writeLockedFile
  dsimp only
  split
  · exact unstarted_atomic dir _ _
  split
  · exact unstarted_atomic dir _ _
  split
  · exact unstarted_atomic dir _ _
  split
  · exact unstarted_atomic dir _ _
  have unlinked : ((FileRun.mk dir []).did .unlinkTemporary o.unlinkStale).dir.live = dir.live :=
    FileStep.keepsLive_unlinkTemporary o.unlinkStale dir
  have created (ok : Bool) :
      (((FileRun.mk dir []).did .unlinkTemporary o.unlinkStale).did .createTemporary ok).dir.live =
        dir.live :=
    (FileStep.keepsLive_createTemporary ok _).trans unlinked
  split
  · exact refused_atomic (created _) _
  · exact fillTemporary_atomic undoes (created _)

theorem leRecoveryConfigPersist_atomic (undoes : o.Undoes) (path : CText) (dir : ConfigDir)
    (config : LeRecoveryOwnerConfig) :
    Atomic dir (configText config) (leRecoveryConfigPersist o path config dir) := by
  unfold leRecoveryConfigPersist
  split
  · exact unstarted_atomic dir _ _
  split
  · exact unstarted_atomic dir _ _
  split
  · exact unstarted_atomic dir _ _
  split
  · exact unstarted_atomic dir _ _
  split
  · exact unstarted_atomic dir _ _
  · exact writeLockedFile_atomic undoes path dir (configText config)

end Writer

/-! ### The answer -/

section Configure
variable {E : LeRecoveryEnvironment} {o : FileOutcomes} {path : CText} {dir : ConfigDir}
  {s : LeRecovery} {config : LeRecoveryOwnerConfig}

theorem leRecoveryConfigure_error (E : LeRecoveryEnvironment) (s : LeRecovery)
    {enabled autoEnabled autoTimeoutMs : Int} {reason : String}
    (refused : (leRecoveryConfigure E s enabled autoEnabled autoTimeoutMs).1 = .error reason) :
    ∃ calls, (leRecoveryConfigure E s enabled autoEnabled autoTimeoutMs).2 =
      { s with calls := calls } := by
  unfold leRecoveryConfigure at refused ⊢
  cases valid : leRecoveryConfigValidate enabled autoEnabled autoTimeoutMs with
  | some text => exact ⟨s.calls, rfl⟩
  | none =>
      rw [valid] at refused
      dsimp only at refused ⊢
      cases persisted : E.configPersist s.callCount enabled autoEnabled autoTimeoutMs with
      | error text => exact ⟨_, rfl⟩
      | ok _ =>
          rw [persisted] at refused
          dsimp only at refused
          split at refused
          · exact nomatch refused
          · exact nomatch refused

theorem leRecoveryConfigure_ok (E : LeRecoveryEnvironment) (s : LeRecovery)
    {enabled autoEnabled autoTimeoutMs : Int}
    (accepted : (leRecoveryConfigure E s enabled autoEnabled autoTimeoutMs).1 = .ok ()) :
    leRecoveryConfigValidate enabled autoEnabled autoTimeoutMs = none ∧
      E.configPersist s.callCount enabled autoEnabled autoTimeoutMs = .ok () ∧
      (leRecoveryConfigure E s enabled autoEnabled autoTimeoutMs).2.config.owner =
        ⟨enabled, autoEnabled, autoTimeoutMs⟩ := by
  unfold leRecoveryConfigure at accepted ⊢
  cases valid : leRecoveryConfigValidate enabled autoEnabled autoTimeoutMs with
  | some text =>
      rw [valid] at accepted
      exact nomatch accepted
  | none =>
      rw [valid] at accepted
      dsimp only at accepted ⊢
      cases persisted : E.configPersist s.callCount enabled autoEnabled autoTimeoutMs with
      | error text =>
          rw [persisted] at accepted
          exact nomatch accepted
      | ok _ =>
          refine ⟨rfl, rfl, ?_⟩
          have running : (configureState (s.call (.configPersist true)) enabled autoEnabled
              autoTimeoutMs).config.owner = ⟨enabled, autoEnabled, autoTimeoutMs⟩ := by
            obtain ⟨flag, autoFlag, -, -⟩ := leRecoveryConfigValidate_none valid
            rcases flag with rfl | rfl
            · rcases autoFlag with rfl | rfl
              · rfl
              · rfl
            · rcases autoFlag with rfl | rfl
              · rfl
              · rfl
          dsimp only
          split
          · exact running
          · obtain ⟨same, -⟩ := leRecoveryStop_outcome E
              (configureState (s.call (.configPersist true)) enabled autoEnabled autoTimeoutMs)
              (configureState (s.call (.configPersist true)) enabled autoEnabled
                autoTimeoutMs).lastNowMs (some "disabled")
            rw [same]
            exact running

theorem leRecoveryConfigPersist_checked
    (persisted : (leRecoveryConfigPersist o path config dir).2 = .ok ()) :
    path ≠ [] ∧ leRecoveryConfigValidate config.enabled config.autoEnabled
      config.autoTimeoutMs = none := by
  unfold leRecoveryConfigPersist at persisted
  split at persisted
  · exact nomatch persisted
  case isFalse named =>
      cases valid : leRecoveryConfigValidate config.enabled config.autoEnabled
          config.autoTimeoutMs with
      | some reason =>
          rw [valid] at persisted
          exact nomatch persisted
      | none => exact ⟨named, rfl⟩

theorem leRecoveryConfigure_persisted (E : LeRecoveryEnvironment) (s : LeRecovery)
    {enabled autoEnabled autoTimeoutMs : Int}
    (valid : leRecoveryConfigValidate enabled autoEnabled autoTimeoutMs = none)
    (persisted : E.configPersist s.callCount enabled autoEnabled autoTimeoutMs = .ok ()) :
    (leRecoveryConfigure E s enabled autoEnabled autoTimeoutMs).1 = .ok () := by
  unfold leRecoveryConfigure
  rw [valid]
  dsimp only
  rw [persisted]
  dsimp only
  split
  · rfl
  · rfl

end Configure

/--
With one failed file operation at most: a refusal leaves the recovery and the live file as they
were; an acceptance leaves the new values running and in the live file, and the old file beside
it.
-/
theorem configureFile_atomic (E : LeRecoveryEnvironment) (o : FileOutcomes) (path : CText)
    (dir : ConfigDir) (s : LeRecovery) (config : LeRecoveryOwnerConfig)
    (single : o.failures (configText config) ≤ 1) :
    let configured := configureFile E o path dir s config
    (∀ reason, configured.answer = .error reason →
      (∃ calls, configured.recovery = { s with calls := calls }) ∧
        configured.dir.live = dir.live) ∧
    (configured.answer = .ok () →
      (∀ current, leRecoveryConfigLoad path current configured.dir = .ok (some config)) ∧
        configured.recovery.config.owner = config ∧
        ∀ node, dir.live = some node → configured.dir.backup = some node) := by
  have atomic := leRecoveryConfigPersist_atomic (undoes_of_single single) path dir config
  refine ⟨fun reason refused => ⟨leRecoveryConfigure_error _ s refused, ?_⟩, fun accepted => ?_⟩
  · cases persisted : (leRecoveryConfigPersist o path config dir).2 with
    | error text => exact atomic.kept text persisted
    | ok _ =>
        obtain ⟨-, valid⟩ := leRecoveryConfigPersist_checked persisted
        have accepted := leRecoveryConfigure_persisted (E.persisting o path dir) s valid persisted
        exact nomatch refused.symm.trans accepted
  · obtain ⟨valid, persisted, running⟩ := leRecoveryConfigure_ok _ s accepted
    obtain ⟨live, old⟩ := atomic.replaced persisted
    obtain ⟨named, -⟩ := leRecoveryConfigPersist_checked persisted
    exact ⟨fun current => leRecoveryConfigLoad_configText named current valid live, running, old⟩

/-- The replacement cannot be renamed into place: the old file is put back. -/
theorem configureFile_atomic_unpublished :
    let configured := configureFile (workingBackend 0) { allSucceed with publish := false } configPath
      persistedOptIn (leRecoveryInit productionConfig 0) ownerOptOut
    configured.answer = .error "config-rename-failed" ∧
      configured.dir.live = persistedOptIn.live := by
  have single : FileOutcomes.failures { allSucceed with publish := false }
      (configText ownerOptOut) ≤ 1 := by decide +kernel
  have refused : (configureFile (workingBackend 0) { allSucceed with publish := false } configPath
      persistedOptIn (leRecoveryInit productionConfig 0) ownerOptOut).answer =
        .error "config-rename-failed" := by decide +kernel
  exact ⟨refused, ((configureFile_atomic (workingBackend 0) _ configPath persistedOptIn
    (leRecoveryInit productionConfig 0) ownerOptOut single).1 _ refused).2⟩

end LibreEcho.Recovery
