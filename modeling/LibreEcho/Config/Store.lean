import Mathlib

/-!
The configuration file of `config_store.c`.

A name is an entry for an inode, so that the backup may be a second name of the live file. Every
file operation may fail, and a process that dies leaves the directory as the operations before left
it. What mode bits the files have is left out.
-/
namespace LibreEcho.Config

abbrev Bytes := List UInt8

/-- The live file, its `.tmp` and its `.bak`. The temporary file has no other name: it is created
under its own, and only the live file is ever linked. -/
structure Disk where
  content : Nat → Bytes
  live : Option Nat
  temporary : Option Nat
  backup : Option Nat
  /-- No inode from here on is in use. -/
  fresh : Nat
  lone : ∀ i ∈ temporary, i ∉ live ∧ i ∉ backup
  liveUsed : ∀ i ∈ live, i < fresh
  temporaryUsed : ∀ i ∈ temporary, i < fresh
  backupUsed : ∀ i ∈ backup, i < fresh

namespace Disk

def liveContent (d : Disk) : Option Bytes := d.live.map d.content
def backupContent (d : Disk) : Option Bytes := d.backup.map d.content
def temporaryContent (d : Disk) : Option Bytes := d.temporary.map d.content

/-- `open` with `O_CREAT | O_TRUNC` -/
def create (d : Disk) : Disk :=
  match d.temporary with
  | some i => { d with content := Function.update d.content i [] }
  | none =>
      { d with
        content := Function.update d.content d.fresh []
        temporary := some d.fresh
        fresh := d.fresh + 1
        lone := by
          intro i new
          cases new
          exact ⟨fun live => absurd (d.liveUsed _ live) (Nat.lt_irrefl _),
            fun backup => absurd (d.backupUsed _ backup) (Nat.lt_irrefl _)⟩
        liveUsed := fun i live => Nat.lt_succ_of_lt (d.liveUsed i live)
        temporaryUsed := fun i new => Option.some.inj new ▸ Nat.lt_succ_self d.fresh
        backupUsed := fun i backup => Nat.lt_succ_of_lt (d.backupUsed i backup) }

def write (data : Bytes) (d : Disk) : Disk :=
  match d.temporary with
  | some i => { d with content := Function.update d.content i data }
  | none => d

def unlinkTemporary (d : Disk) : Disk :=
  { d with temporary := none, lone := nofun, temporaryUsed := nofun }

def unlinkBackup (d : Disk) : Disk :=
  { d with
    backup := none
    lone := fun i temporary => ⟨(d.lone i temporary).1, nofun⟩
    backupUsed := nofun }

/-- `link` of the live file, which fails where there is none and where there is a backup. -/
def linkBackup (d : Disk) : Disk :=
  if d.backup = none then
    { d with
      backup := d.live
      lone := fun i temporary => ⟨(d.lone i temporary).1, (d.lone i temporary).1⟩
      backupUsed := d.liveUsed }
  else d

/-- `rename` of the temporary file over the live one -/
def publish (d : Disk) : Disk :=
  if d.temporary = none then d
  else
    { d with
      live := d.temporary
      temporary := none
      lone := nofun
      liveUsed := d.temporaryUsed
      temporaryUsed := nofun }

end Disk

/-! ### Writing -/

/-- Which operations succeed, in the order the writer comes to them. -/
structure StoreOutcomes where
  create : Bool
  /-- `fchmod` -/
  protect : Bool
  /-- What `write` takes at most; `none` when it fails. -/
  written : Option Nat
  sync : Bool
  close : Bool
  unlinkBackup : Bool
  /-- `chmod` of the live file, where there is one. -/
  chmod : Bool
  link : Bool
  rename : Bool
  /-- The removal of the temporary file after a failure. -/
  discard : Bool

/-- The directory, and all the states it was in between two operations. -/
structure StoreRun where
  disk : Disk
  states : List Disk

def StoreRun.did (r : StoreRun) (op : Disk → Disk) : StoreRun :=
  ⟨op r.disk, r.states ++ [op r.disk]⟩

def StoreRun.tried (r : StoreRun) (ok : Bool) (op : Disk → Disk) : StoreRun :=
  if ok then r.did op else r

def pathMax : Nat := 450

section Writer
variable (o : StoreOutcomes)

def discard (r : StoreRun) : StoreRun × Int :=
  (r.tried o.discard Disk.unlinkTemporary, -1)

def replaceLive (r : StoreRun) : StoreRun × Int :=
  let r := r.tried o.unlinkBackup Disk.unlinkBackup
  if r.disk.live ≠ none ∧ o.chmod = false then discard o r
  else
    let r := r.tried o.link Disk.linkBackup
    if o.rename = false then discard o r else (r.did Disk.publish, 0)

/-- A null pointer is `none`. -/
def configWriteAtomic (p : Option Bytes) (b : Bytes) (d : Disk) : StoreRun × Int :=
  let r : StoreRun := ⟨d, [d]⟩
  match p with
  | none => (r, -1)
  | some p =>
      if pathMax < p.length then (r, -1)
      else if o.create = false then (r, -1)
      else
        let r := r.did Disk.create
        if o.protect = false then discard o r
        else
          match o.written with
          | none => discard o r
          | some room =>
              let r := r.did (Disk.write (b.take room))
              if room < b.length ∨ o.sync = false then discard o r
              else if o.close = false then discard o r
              else replaceLive o r

end Writer

/-! ### What the operations do to the contents -/

namespace Disk
section Contents
variable (d : Disk)

theorem map_update {entry : Option Nat} {i : Nat} (other : i ∉ entry) (data : Bytes) :
    entry.map (Function.update d.content i data) = entry.map d.content := by
  cases entry with
  | none => rfl
  | some j =>
      have apart : j ≠ i := fun same => other (congrArg some same)
      simp only [Option.map_some, Function.update_of_ne apart]

@[simp] theorem create_live : d.create.liveContent = d.liveContent := by
  simp only [create, liveContent]
  split
  case _ i present => exact d.map_update (d.lone i present).1 []
  case _ => exact d.map_update (fun live => Nat.lt_irrefl _ (d.liveUsed _ live)) []

@[simp] theorem create_backup : d.create.backupContent = d.backupContent := by
  simp only [create, backupContent]
  split
  case _ i present => exact d.map_update (d.lone i present).2 []
  case _ => exact d.map_update (fun backup => Nat.lt_irrefl _ (d.backupUsed _ backup)) []

theorem create_temporary : d.create.temporary ≠ none := by
  rw [create]
  split
  case _ i present =>
    rw [present]
    exact nofun
  case _ => exact nofun

@[simp] theorem write_live (data : Bytes) : (d.write data).liveContent = d.liveContent := by
  simp only [write, liveContent]
  split
  case _ i present => exact d.map_update (d.lone i present).1 data
  case _ => rfl

@[simp] theorem write_backup (data : Bytes) : (d.write data).backupContent = d.backupContent := by
  simp only [write, backupContent]
  split
  case _ i present => exact d.map_update (d.lone i present).2 data
  case _ => rfl

theorem write_temporary {data : Bytes} (present : d.temporary ≠ none) :
    (d.write data).temporaryContent = some data := by
  cases here : d.temporary with
  | none => exact absurd here present
  | some i => simp only [write, temporaryContent, here, Option.map_some, Function.update_self]

@[simp] theorem unlinkTemporary_live : d.unlinkTemporary.liveContent = d.liveContent := rfl
@[simp] theorem unlinkBackup_live : d.unlinkBackup.liveContent = d.liveContent := rfl
@[simp] theorem unlinkBackup_backup : d.unlinkBackup.backupContent = none := rfl
@[simp] theorem unlinkBackup_temporary : d.unlinkBackup.temporaryContent = d.temporaryContent := rfl

@[simp] theorem linkBackup_live : d.linkBackup.liveContent = d.liveContent := by
  rw [linkBackup]
  split <;> rfl

@[simp] theorem linkBackup_temporary : d.linkBackup.temporaryContent = d.temporaryContent := by
  rw [linkBackup]
  split <;> rfl

theorem linkBackup_backup : d.linkBackup.backupContent =
    if d.backupContent = none then d.liveContent else d.backupContent := by
  simp only [linkBackup, backupContent, Option.map_eq_none_iff]
  split <;> rfl

theorem publish_live {data : Bytes} (written : d.temporaryContent = some data) :
    d.publish.liveContent = some data := by
  have present : d.temporary ≠ none := by
    intro none
    simp [temporaryContent, none] at written
  rw [publish, if_neg present]
  exact written

theorem publish_backup : d.publish.backupContent = d.backupContent := by
  rw [publish]
  split <;> rfl

theorem publish_temporary : d.publish.temporary = none := by
  rw [publish]
  split
  case isTrue none => exact none
  case isFalse => rfl

end Contents
end Disk

/-! ### The law -/

section Law
variable (o : StoreOutcomes)

/-- The path is refused, or there is no temporary file to write. -/
def Refused (p : Option Bytes) : Prop :=
  (∀ p' ∈ p, pathMax < p'.length) ∨ o.create = false

/-- The backup is linked: no older one is left, and there is a live file. -/
def Linked (d : Disk) : Prop :=
  o.link = true ∧ d.live ≠ none ∧ (d.backup = none ∨ o.unlinkBackup = true)

/-- What holds of a directory, of those in between and of the result, for a content to be written. -/
structure StoreLaw (p : Option Bytes) (b : Bytes) (d : Disk) (r : StoreRun × Int) : Prop where
  whole : ∀ s ∈ r.1.states, s.liveContent = d.liveContent ∨ s.liveContent = some b
  ends : r.1.disk ∈ r.1.states
  result : r.2 = 0 ∨ r.2 = -1
  failed : r.2 = -1 → r.1.disk.liveContent = d.liveContent
  removed : r.2 = -1 → ¬Refused o p → o.discard = true → r.1.disk.temporary = none
  refused : Refused o p → r.2 = -1 ∧ r.1.disk = d
  done : r.2 = 0 → r.1.disk.liveContent = some b ∧ r.1.disk.temporary = none
  linked : r.2 = 0 → Linked o d → r.1.disk.backupContent = d.liveContent
  unlinked : r.2 = 0 → ¬Linked o d → (d.backup = none ∨ o.unlinkBackup = true) →
    r.1.disk.backupContent = none
  stale : r.2 = 0 → o.unlinkBackup = false →
    d.backup ≠ none → r.1.disk.backupContent = d.backupContent

structure StoreRun.Before (d : Disk) (r : StoreRun) : Prop where
  states : ∀ s ∈ r.states, s.liveContent = d.liveContent
  ends : r.disk ∈ r.states

section Before
variable {o : StoreOutcomes} {p : Option Bytes} {b : Bytes} {d : Disk} {r : StoreRun}

theorem StoreRun.Before.did (before : r.Before d) {op : Disk → Disk}
    (keeps : ∀ s, (op s).liveContent = s.liveContent) : (r.did op).Before d where
  states s member := by
    rcases List.mem_append.mp member with earlier | now
    · exact before.states s earlier
    · rw [List.mem_singleton.mp now, keeps]
      exact before.states _ before.ends
  ends := List.mem_append_right _ (List.mem_singleton_self _)

theorem StoreRun.Before.tried (before : r.Before d) {op : Disk → Disk} (ok : Bool)
    (keeps : ∀ s, (op s).liveContent = s.liveContent) : (r.tried ok op).Before d := by
  cases ok with
  | false => exact before
  | true => exact before.did keeps

theorem StoreRun.Before.discarded (before : r.Before d) (accepted : ¬Refused o p) :
    StoreLaw o p b d (discard o r) := by
  have after := before.tried o.discard Disk.unlinkTemporary_live
  refine ⟨fun s member => .inl (after.states s member), after.ends, .inr rfl,
    fun _ => after.states _ after.ends, fun _ _ ok => ?_, fun refused => absurd refused accepted,
    nofun, nofun, nofun, nofun⟩
  simp only [discard, StoreRun.tried, ok, if_true]
  rfl

theorem liveContent_none (d : Disk) : d.liveContent = none ↔ d.live = none :=
  Option.map_eq_none_iff

theorem backupContent_none (d : Disk) : d.backupContent = none ↔ d.backup = none :=
  Option.map_eq_none_iff

theorem backup_linked (unlink link : Bool) (d : Disk) (r : StoreRun)
    (live : r.disk.liveContent = d.liveContent) (backup : r.disk.backupContent = d.backupContent) :
    ((r.tried unlink Disk.unlinkBackup).tried link Disk.linkBackup).disk.backupContent =
      if link = true ∧ (d.backup = none ∨ unlink = true) then d.liveContent
      else if unlink = true then none else d.backupContent := by
  have none := backupContent_none d
  cases unlink <;> cases link <;>
    simp [StoreRun.tried, StoreRun.did, Disk.linkBackup_backup, live, backup, none]

theorem replaceLive_law (before : r.Before d) (written : r.disk.temporaryContent = some b)
    (backup : r.disk.backupContent = d.backupContent) (accepted : ¬Refused o p) :
    StoreLaw o p b d (replaceLive o r) := by
  have unlinked := before.tried o.unlinkBackup Disk.unlinkBackup_live
  have linked := unlinked.tried o.link Disk.linkBackup_live
  have content : ((r.tried o.unlinkBackup Disk.unlinkBackup).tried o.link
      Disk.linkBackup).disk.temporaryContent = some b := by
    rw [← written]
    cases o.unlinkBackup <;> cases o.link <;> simp [StoreRun.tried, StoreRun.did]
  have copy := backup_linked o.unlinkBackup o.link d r (before.states _ before.ends) backup
  rw [replaceLive]
  dsimp only
  split
  · exact unlinked.discarded accepted
  split
  · exact linked.discarded accepted
  generalize (r.tried o.unlinkBackup Disk.unlinkBackup).tried o.link Disk.linkBackup = r' at *
  have live := Disk.publish_live r'.disk content
  refine ⟨?_, List.mem_append_right _ (List.mem_singleton_self _), .inl rfl, nofun, nofun,
    fun refused => absurd refused accepted, fun _ => ⟨live, Disk.publish_temporary _⟩, ?_, ?_, ?_⟩
  · intro s member
    rcases List.mem_append.mp member with earlier | now
    · exact .inl (linked.states s earlier)
    · rw [List.mem_singleton.mp now]
      exact .inr live
  all_goals
    intro _
    simp only [StoreRun.did, Disk.publish_backup, copy, Linked]
  · rintro ⟨link, -, free⟩
    rw [if_pos ⟨link, free⟩]
  · intro apart free
    by_cases link : o.link = true
    · have none : d.live = none := by
        by_contra some
        exact apart ⟨link, some, free⟩
      rw [if_pos ⟨link, free⟩]
      exact (liveContent_none d).mpr none
    · rw [if_neg (fun both => link both.1)]
      split
      · rfl
      case isFalse kept => exact (backupContent_none d).mpr (free.resolve_right kept)
  · intro kept some
    rw [if_neg, if_neg (by rw [kept]; exact Bool.false_ne_true)]
    rintro ⟨-, none | unlink⟩
    · exact some none
    · exact absurd (kept.symm.trans unlink) Bool.false_ne_true

end Before

/-- Whatever fails and wherever the process dies, the live file is the old one or the new one. -/
theorem configWriteAtomic_law (o : StoreOutcomes) (p : Option Bytes) (b : Bytes) (d : Disk) :
    StoreLaw o p b d (configWriteAtomic o p b d) := by
  have start : StoreRun.Before d ⟨d, [d]⟩ :=
    ⟨fun s member => by rw [List.mem_singleton.mp member], List.mem_singleton_self d⟩
  have untouched (refused : Refused o p) : StoreLaw o p b d (⟨d, [d]⟩, -1) :=
    ⟨fun s member => .inl (start.states s member), start.ends, .inr rfl, fun _ => rfl,
      fun _ accepted => absurd refused accepted, fun _ => ⟨rfl, rfl⟩, nofun, nofun, nofun, nofun⟩
  rw [configWriteAtomic.eq_def]
  dsimp only
  split
  · exact untouched (.inl nofun)
  case _ path =>
    split
    case isTrue long => exact untouched (.inl fun _ same => Option.some.inj same ▸ long)
    case isFalse short =>
      split
      case isTrue closed => exact untouched (.inr closed)
      case isFalse opened =>
        have accepted : ¬Refused o (some path) := by
          rintro (long | closed)
          · exact short (long path rfl)
          · exact opened closed
        have created := start.did Disk.create_live
        split
        · exact created.discarded accepted
        split
        · exact created.discarded accepted
        case _ room _ =>
          have filled := created.did (Disk.write_live · (b.take room))
          split
          · exact filled.discarded accepted
          case isFalse whole =>
            split
            · exact filled.discarded accepted
            have full : b.take room = b :=
              List.take_of_length_le (Nat.le_of_not_lt fun short => whole (.inl short))
            refine replaceLive_law filled ?_ ?_ accepted
            · simp only [StoreRun.did]
              rw [Disk.write_temporary _ (Disk.create_temporary d), full]
            · simp only [StoreRun.did, Disk.write_backup, Disk.create_backup]

/-! ### What is left behind -/

/-- A live file and the temporary file of a writer that died. -/
def deserted : Disk where
  content i := if i = 0 then [0x61] else [0x62]
  live := some 0
  temporary := some 1
  backup := none
  fresh := 2
  lone := by decide
  liveUsed := by decide
  temporaryUsed := by decide
  backupUsed := by decide

/-- Everything succeeds but the opening of the temporary file. -/
def unopened : StoreOutcomes :=
  ⟨false, true, some 8, true, true, true, true, true, true, true⟩

theorem configWriteAtomic_leavesTemporary :
    (configWriteAtomic unopened (some []) [0x63] deserted).2 = -1 ∧
      (configWriteAtomic unopened (some []) [0x63] deserted).1.disk.temporaryContent =
        some [0x62] :=
  ⟨rfl, rfl⟩

end Law

/-! ### Reading -/

section Reading

/-- A buffer of `z` bytes; what `read` gives is a part of the file, or an error. -/
def configRead (file : Option Bytes) (taken : Option Nat) (z : Nat) : Option Bytes :=
  if z < 2 then none
  else
    match file, taken with
    | some content, some n =>
        let text := content.take (min n (z - 1))
        if z - 1 ≤ text.length then none else some text
    | _, _ => none

def copyBuffer : Nat := 16384

/-- `source` is the file the defaults come from. -/
def configCopyDefaults (o : StoreOutcomes) (source : Option Bytes) (taken : Option Nat)
    (path : Option Bytes) (d : Disk) : StoreRun × Int :=
  match configRead source taken copyBuffer with
  | none => (⟨d, [d]⟩, -1)
  | some b => configWriteAtomic o path b d

theorem configRead_written {o : StoreOutcomes} {p : Option Bytes} {b : Bytes} {d : Disk}
    (done : (configWriteAtomic o p b d).2 = 0) {n z : Nat} (read : b.length ≤ n)
    (fits : b.length + 1 < z) :
    configRead (configWriteAtomic o p b d).1.disk.liveContent (some n) z = some b := by
  have whole : b.take (min n (z - 1)) = b := List.take_of_length_le (by omega)
  rw [((configWriteAtomic_law o p b d).done done).1, configRead, if_neg (by omega)]
  simp only [whole]
  rw [if_neg (by omega)]

theorem configCopyDefaults_whole (o : StoreOutcomes) (source : Option Bytes) (taken : Option Nat)
    (path : Option Bytes) (d : Disk) :
    ∀ s ∈ (configCopyDefaults o source taken path d).1.states, s.liveContent = d.liveContent ∨
      ∃ b, configRead source taken copyBuffer = some b ∧ s.liveContent = some b := by
  intro s member
  rw [configCopyDefaults] at member
  split at member
  · rw [List.mem_singleton.mp member]
    exact .inl rfl
  case _ b read => exact ((configWriteAtomic_law o path b d).whole s member).imp_right fun new => ⟨b, read, new⟩

end Reading
end LibreEcho.Config
