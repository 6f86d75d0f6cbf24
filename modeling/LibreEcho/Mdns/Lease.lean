import LibreEcho.Mdns.Packet
import LibreEcho.Lib.Runs

/-!
The lease of an announced service: its file in the directory the announcer reads.

A registration writes a file of its own generation under a temporary name, links
it to its service name and removes the one before; what fails on the way is taken
back. Files are what a name of the lease finds in the directory.
-/
namespace LibreEcho.Mdns
open ByteText

/-! ### Names and the directory -/

inductive Service where
  | esphome
  | sendspin
deriving DecidableEq, Repr

def Service.prefixText : Service → Bytes
  | .esphome => ascii "esphome"
  | .sendspin => ascii "sendspin"

/-- `"%s-%lu.service"` and `"%s-%lu.tmp"` -/
inductive FileName where
  | service (kind : Service) (generation : Nat)
  | temp (kind : Service) (generation : Nat)
deriving DecidableEq, Repr

def dash : UInt8 := 0x2d

def FileName.text : FileName → Bytes
  | .service kind generation =>
      kind.prefixText ++ dash :: decimal generation ++ ascii ".service"
  | .temp kind generation => kind.prefixText ++ dash :: decimal generation ++ ascii ".tmp"

abbrev Directory := FileName → Option Bytes

def Directory.put (d : Directory) (name : FileName) (content : Option Bytes) : Directory :=
  fun n => if n = name then content else d n

/-- What a supervisor that has cleared old services finds; other leftovers do not matter. -/
def Directory.cleared (leftover : Service → Nat → Option Bytes) : Directory
  | .service _ _ => none
  | .temp kind generation => leftover kind generation

structure LeMdnsLease where
  ownerFd : Int
  generation : Nat
  filename : Option FileName
deriving DecidableEq

def LeMdnsLease.init : LeMdnsLease :=
  ⟨-1, 0, none⟩

/-- The operation that fails; a write fails when so many bytes are written. -/
inductive Fault where
  | openTemp
  | write (written : Nat)
  | fsync
  | close
  | link
  | unlinkOld
  | unlinkTemp
deriving DecidableEq, Repr

structure Leased where
  lease : LeMdnsLease
  files : Directory

/-- The label `out`: the temporary name goes, if it can. -/
def finish (fault : Option Fault) (temp : FileName) (result : Int) (s : Leased) : Int × Leased :=
  (result, if fault = some .unlinkTemp then s else { s with files := s.files.put temp none })

/-- The file is linked; the one before goes, or the new one does. -/
def retirePrevious (fault : Option Fault) (owner : Int) (name : FileName) (s : Leased) :
    Int × Leased :=
  match s.lease.filename with
  | none => (0, { s with lease := { s.lease with filename := some name, ownerFd := owner } })
  | some old =>
      if fault = some .unlinkOld then (-1, { s with files := s.files.put name none })
      else
        (0, { lease := { s.lease with filename := some name, ownerFd := owner }
              files := s.files.put old none })

/-- The temporary file up to its link: the bytes written, and whether all went well. -/
def writeTemp (fault : Option Fault) (xml : Bytes) : Bytes × Bool :=
  match fault with
  | some (.write written) => (xml.take written, false)
  | some .fsync | some .close => (xml, false)
  | _ => (xml, true)

def publish (fault : Option Fault) (owner : Int) (kind : Service) (xml : Bytes) (s : Leased) :
    Int × Leased :=
  let generation := s.lease.generation + 1
  let name := FileName.service kind generation
  let temp := FileName.temp kind generation
  let s := { s with lease := { s.lease with generation := generation } }
  if fault = some .openTemp ∨ (s.files temp).isSome then (-1, s)
  else
    let (content, whole) := writeTemp fault xml
    let s := { s with files := s.files.put temp (some content) }
    if ¬whole ∨ fault = some .link ∨ (s.files name).isSome then finish fault temp (-1) s
    else
      let (result, s) :=
        retirePrevious fault owner name { s with files := s.files.put name (some content) }
      finish fault temp result s

/-! ### The text of the file -/

def appendText (capacity : Nat) (text : Bytes) (out : Bytes) : Option Bytes :=
  if capacity - out.length ≤ text.length then none else some (out ++ text)

def escaped (b : UInt8) : Bytes :=
  if b = 0x26 then ascii "&amp;"
  else if b = 0x3c then ascii "&lt;"
  else if b = 0x3e then ascii "&gt;"
  else if b = 0x22 then ascii "&quot;"
  else if b = 0x27 then ascii "&apos;"
  else [b]

def appendXml (capacity : Nat) : Bytes → Bytes → Option Bytes
  | [], out => some out
  | b :: text, out => (appendText capacity (escaped b) out).bind (appendXml capacity text)

def xmlHead : Bytes :=
  ascii "<?xml version=\"1.0\"?><!DOCTYPE service-group SYSTEM \"avahi-service.dtd\">\n" ++
    ascii "<service-group><name replace-wildcards=\"no\">"

def appendField (m : Metadata) (f : Field) (out : Bytes) : Option Bytes :=
  appendText 4096 (ascii "<txt-record>") out >>= appendText 4096 f.key >>=
    appendText 4096 (ascii "=") >>= appendXml 4096 (m.get f) >>=
    appendText 4096 (ascii "</txt-record>")

def esphomeXml (port : Nat) (m : Metadata) : Option Bytes := do
  let head ← appendText 4096 xmlHead [] >>= appendXml 4096 m.friendlyName >>=
    appendText 4096 (ascii "</name><service><type>_esphomelib._tcp</type><port>") >>=
    appendText 4096 (decimal port) >>= appendText 4096 (ascii "</port>")
  let records ← fields.foldlM (fun out f => appendField m f out) head
  appendText 4096 (ascii "</service></service-group>\n") records

def sendspinXml (port : Nat) (name : Bytes) : Option Bytes :=
  appendText 1024 xmlHead [] >>= appendXml 1024 name >>=
    appendText 1024 (ascii "</name><service><type>_sendspin._tcp</type><port>") >>=
    appendText 1024 (decimal port) >>= appendText 1024 (ascii "</port>") >>=
    appendText 1024 (ascii "<txt-record>path=/sendspin</txt-record><txt-record>name=") >>=
    appendXml 1024 name >>=
    appendText 1024 (ascii "</txt-record></service></service-group>\n")

/-! ### Requests -/

/-- What both registrations refuse: a bad owner or port, a foreign lease, the last generation. -/
def refuses (ulongMax : Nat) (owner : Int) (port : Nat) (s : Leased) : Bool :=
  owner < 0 || port < 1 || maxPort < port ||
    (0 ≤ s.lease.ownerFd && s.lease.ownerFd != owner) || s.lease.generation == ulongMax

def leMdnsLeaseRegisterEsphome (ulongMax : Nat) (fault : Option Fault) (owner : Int) (port : Nat)
    (m : Metadata) (s : Leased) : Int × Leased :=
  if refuses ulongMax owner port s ∨ metadataValid m = false then (-1, s)
  else
    match esphomeXml port m with
    | none => (-1, s)
    | some xml => publish fault owner .esphome xml s

def leMdnsLeaseRegisterSendspin (ulongMax : Nat) (fault : Option Fault) (owner : Int)
    (port : Nat) (name : Bytes) (s : Leased) : Int × Leased :=
  if refuses ulongMax owner port s ∨ sendspinNameValid name = false then (-1, s)
  else
    match sendspinXml port name with
    | none => (-1, s)
    | some xml => publish fault owner .sendspin xml s

def leMdnsLeaseWithdraw (fault : Option Fault) (owner : Int) (s : Leased) : Int × Leased :=
  if owner < 0 ∨ s.lease.ownerFd ≠ owner then (-1, s)
  else
    let released := { s.lease with filename := none, ownerFd := -1 }
    match s.lease.filename with
    | none => (0, { s with lease := released })
    | some old =>
        if fault = some .unlinkOld then (-1, s)
        else (0, { lease := released, files := s.files.put old none })

/-- A request, its caller and the operation that fails in it, if one does. -/
inductive Request where
  | registerEsphome (owner : Int) (port : Nat) (m : Metadata) (fault : Option Fault)
  | registerSendspin (owner : Int) (port : Nat) (name : Bytes) (fault : Option Fault)
  | withdraw (owner : Int) (fault : Option Fault)

def Request.owner : Request → Int
  | .registerEsphome owner _ _ _ | .registerSendspin owner _ _ _ | .withdraw owner _ => owner

def Request.registers : Request → Bool
  | .registerEsphome _ _ _ _ | .registerSendspin _ _ _ _ => true
  | .withdraw _ _ => false

def Request.serve (ulongMax : Nat) (s : Leased) : Request → Int × Leased
  | .registerEsphome owner port m fault =>
      leMdnsLeaseRegisterEsphome ulongMax fault owner port m s
  | .registerSendspin owner port name fault =>
      leMdnsLeaseRegisterSendspin ulongMax fault owner port name s
  | .withdraw owner fault => leMdnsLeaseWithdraw fault owner s

end LibreEcho.Mdns

/-!
A published service belongs to the owner of its lease.

At every point of every run the service files are the one the lease names, or
none. What fails leaves them, the name and the owner; only the generation has
gone on, so that a later attempt never meets the names of an earlier one.
-/
namespace LibreEcho.Mdns
open ByteText

/-! ### Names -/

theorem numbered_inj {front rest rest' : Bytes} {n n' : Nat}
    (same : front ++ dash :: decimal n ++ 0x2e :: rest = front ++ dash :: decimal n' ++ 0x2e :: rest') :
    n = n' ∧ rest = rest' := by
  rw [List.append_assoc, List.append_assoc] at same
  have tail : decimal n ++ 0x2e :: rest = decimal n' ++ 0x2e :: rest' :=
    (List.cons.inj (List.append_cancel_left same)).2
  have dot : isDigit 0x2e = false := by decide
  have read := congrArg readDecimal tail
  rw [readDecimal_decimal n dot, readDecimal_decimal n' dot] at read
  obtain ⟨digits, behind⟩ := Prod.mk.inj read
  have value := congrArg decimalValue digits
  rw [decimalValue_decimal, decimalValue_decimal] at value
  exact ⟨value, (List.cons.inj behind).2⟩

theorem kinds_differ (e e' : Bytes) (n n' : Nat) :
    Service.esphome.prefixText ++ dash :: decimal n ++ e ≠
      Service.sendspin.prefixText ++ dash :: decimal n' ++ e' := by
  have heads : Service.esphome.prefixText = 0x65 :: ascii "sphome" ∧
      Service.sendspin.prefixText = 0x73 :: ascii "endspin" := by decide
  rw [heads.1, heads.2, List.cons_append, List.cons_append, List.cons_append, List.cons_append]
  exact fun equal => absurd (List.cons.inj equal).1 (by decide)

theorem kind_inj {kind kind' : Service} {e e' : Bytes} {n n' : Nat}
    (same : kind.prefixText ++ dash :: decimal n ++ e =
      kind'.prefixText ++ dash :: decimal n' ++ e') : kind = kind' := by
  cases kind with
  | esphome =>
      cases kind' with
      | esphome => rfl
      | sendspin => exact absurd same (kinds_differ e e' n n')
  | sendspin =>
      cases kind' with
      | esphome => exact absurd same.symm (kinds_differ e' e n' n)
      | sendspin => rfl

theorem FileName.text_inj {name name' : FileName} (same : name.text = name'.text) :
    name = name' := by
  have endings : ascii ".service" = 0x2e :: ascii "service" ∧ ascii ".tmp" = 0x2e :: ascii "tmp" ∧
      ascii "service" ≠ ascii "tmp" := by decide
  cases name with
  | service kind n =>
      cases name' with
      | service kind' n' =>
          rw [FileName.text, FileName.text, endings.1] at same
          obtain rfl := kind_inj same
          rw [(numbered_inj same).1]
      | temp kind' n' =>
          rw [FileName.text, FileName.text, endings.1, endings.2.1] at same
          obtain rfl := kind_inj same
          exact absurd (numbered_inj same).2 endings.2.2
  | temp kind n =>
      cases name' with
      | service kind' n' =>
          rw [FileName.text, FileName.text, endings.1, endings.2.1] at same
          obtain rfl := kind_inj same
          exact absurd (numbered_inj same).2.symm endings.2.2
      | temp kind' n' =>
          rw [FileName.text, FileName.text, endings.2.1] at same
          obtain rfl := kind_inj same
          rw [(numbered_inj same).1]

def SameServices (d d' : Directory) : Prop :=
  ∀ kind generation, d' (.service kind generation) = d (.service kind generation)

structure Owned (s : Leased) : Prop where
  named : ∀ kind generation, (s.files (.service kind generation)).isSome ↔
    s.lease.filename = some (.service kind generation)
  service : ∀ name, s.lease.filename = some name → ∃ kind generation, name = .service kind generation

structure Unchanged (s s' : Leased) : Prop where
  files : SameServices s.files s'.files
  owner : s'.lease.ownerFd = s.lease.ownerFd
  filename : s'.lease.filename = s.lease.filename

theorem Unchanged.refl (s : Leased) : Unchanged s s :=
  ⟨fun _ _ => rfl, rfl, rfl⟩

theorem Unchanged.owned {s s' : Leased} (kept : Unchanged s s') (owned : Owned s) : Owned s' where
  named kind generation := by
    rw [kept.files, kept.filename]
    exact owned.named kind generation
  service name found := by
    rw [kept.filename] at found
    exact owned.service name found

section publish
variable {fault : Option Fault} {owner : Int} {kind : Service} {xml : Bytes} {s : Leased}

theorem sameServices_temp (d : Directory) (kind : Service) (generation : Nat)
    (content : Option Bytes) : SameServices d (d.put (.temp kind generation) content) :=
  fun _ _ => if_neg (by simp)

theorem put_same (d : Directory) (name : FileName) (content : Option Bytes) :
    d.put name content name = content := if_pos rfl

theorem put_other (d : Directory) {name n : FileName} (content : Option Bytes) (other : n ≠ name) :
    d.put name content n = d n := if_neg other

theorem finish_unchanged (kind : Service) (generation : Nat) (result : Int) (s : Leased) :
    Unchanged s (finish fault (.temp kind generation) result s).2 := by
  rw [finish]
  split
  · exact Unchanged.refl s
  · exact ⟨sameServices_temp s.files kind generation none, rfl, rfl⟩

theorem Unchanged.trans {a b c : Leased} (first : Unchanged a b) (second : Unchanged b c) :
    Unchanged a c where
  files kind generation := (second.files kind generation).trans (first.files kind generation)
  owner := second.owner.trans first.owner
  filename := second.filename.trans first.filename

/-- The state in which the new file stands beside the one before. -/
structure Linked (name : FileName) (before s : Leased) : Prop where
  fresh : before.files name = none
  owner : s.lease.ownerFd = before.lease.ownerFd
  filename : s.lease.filename = before.lease.filename
  linked : (s.files name).isSome
  others : ∀ kind generation, FileName.service kind generation ≠ name →
    s.files (.service kind generation) = before.files (.service kind generation)

structure Published (owner : Int) (s : Leased) : Prop where
  owned : Owned s
  owner : s.lease.ownerFd = owner
  filename : s.lease.filename.isSome

theorem Published.unchanged {s s' : Leased} (published : Published owner s)
    (kept : Unchanged s s') : Published owner s' where
  owned := kept.owned published.owned
  owner := kept.owner.trans published.owner
  filename := by
    rw [kept.filename]
    exact published.filename

theorem retirePrevious_first {name : FileName} (held : s.lease.filename = none) :
    retirePrevious fault owner name s =
      (0, ⟨{ s.lease with filename := some name, ownerFd := owner }, s.files⟩) := by
  simp only [retirePrevious, held]

theorem retirePrevious_refused {name old : FileName} (held : s.lease.filename = some old)
    (refused : fault = some .unlinkOld) :
    retirePrevious fault owner name s = (-1, ⟨s.lease, s.files.put name none⟩) := by
  simp only [retirePrevious, held, if_pos refused]

theorem retirePrevious_replaced {name old : FileName} (held : s.lease.filename = some old)
    (granted : fault ≠ some .unlinkOld) :
    retirePrevious fault owner name s =
      (0, ⟨{ s.lease with filename := some name, ownerFd := owner }, s.files.put old none⟩) := by
  simp only [retirePrevious, held, if_neg granted]

theorem published_only {generation : Nat} {lease : LeMdnsLease} {d : Directory}
    (there : (d (.service kind generation)).isSome)
    (only : ∀ k g, FileName.service k g ≠ .service kind generation → d (.service k g) = none) :
    Published owner
      ⟨{ lease with filename := some (.service kind generation), ownerFd := owner }, d⟩ where
  owned := by
    refine ⟨fun k g => ?_, fun name found => ⟨kind, generation, (Option.some.inj found).symm⟩⟩
    by_cases same : FileName.service k g = .service kind generation
    · rw [same]
      exact iff_of_true there rfl
    · refine iff_of_false (fun found => ?_) fun equal => same (Option.some.inj equal).symm
      exact absurd (only k g same) (Option.isSome_iff_ne_none.mp found)
  owner := rfl
  filename := rfl

theorem retirePrevious_cases {generation : Nat} {before : Leased} (owned : Owned before)
    (linked : Linked (.service kind generation) before s) :
    (retirePrevious fault owner (.service kind generation) s).1 ≠ 0 ∧
        Unchanged before (retirePrevious fault owner (.service kind generation) s).2 ∨
      (retirePrevious fault owner (.service kind generation) s).1 = 0 ∧
        Published owner (retirePrevious fault owner (.service kind generation) s).2 := by
  obtain ⟨fresh, sameOwner, sameName, there, others⟩ := linked
  have absent (k : Service) (g : Nat) (unnamed : s.lease.filename ≠ some (.service k g)) :
      before.files (.service k g) = none := by
    rw [sameName] at unnamed
    exact Option.not_isSome_iff_eq_none.mp fun found => unnamed ((owned.named k g).mp found)
  cases held : s.lease.filename with
  | none =>
      right
      rw [retirePrevious_first held]
      refine ⟨rfl, published_only there fun k g other => ?_⟩
      rw [others k g other]
      exact absent k g (by rw [held]; simp)
  | some old =>
      obtain ⟨oldKind, oldGeneration, rfl⟩ := owned.service old (sameName ▸ held)
      have differ : FileName.service kind generation ≠ .service oldKind oldGeneration := by
        intro equal
        have found := (owned.named oldKind oldGeneration).mpr (sameName ▸ held)
        rw [← equal, fresh] at found
        cases found
      by_cases refused : fault = some .unlinkOld
      · left
        rw [retirePrevious_refused held refused]
        refine ⟨by simp, fun k g => ?_, sameOwner, sameName⟩
        by_cases same : FileName.service k g = .service kind generation
        · rw [same, fresh]
          exact put_same _ _ _
        · exact (put_other _ _ same).trans (others k g same)
      · right
        rw [retirePrevious_replaced held refused]
        refine ⟨rfl, published_only ?_ fun k g other => ?_⟩
        · rw [put_other _ _ differ]
          exact there
        · by_cases gone : FileName.service k g = .service oldKind oldGeneration
          · rw [gone]
            exact put_same _ _ _
          · rw [put_other _ _ gone, others k g other]
            refine absent k g fun named => gone ?_
            rw [held] at named
            exact (Option.some.inj named).symm

/-- What a publication leaves: the state before, or the new file alone. -/
structure PublishOutcome (owner : Int) (before : Leased) (r : Int × Leased) : Prop where
  failed : r.1 ≠ 0 → Unchanged before r.2
  done : r.1 = 0 → Published owner r.2

theorem finish_outcome {generation : Nat} {before : Leased} {r : Int × Leased}
    (outcome : PublishOutcome owner before r) :
    PublishOutcome owner before (finish fault (.temp kind generation) r.1 r.2) where
  failed ends := (outcome.failed ends).trans (finish_unchanged kind generation r.1 r.2)
  done ends := (outcome.done ends).unchanged (finish_unchanged kind generation r.1 r.2)

theorem publish_openTemp :
    publish (some .openTemp) owner kind xml s =
      (-1, ⟨{ s.lease with generation := s.lease.generation + 1 }, s.files⟩) := by
  simp only [publish, true_or, if_true]

theorem publish_outcome (owned : Owned s) :
    PublishOutcome owner s (publish fault owner kind xml s) := by
  have failure (t : Leased) (kept : Unchanged s t) : PublishOutcome owner s (-1, t) :=
    ⟨fun _ => kept, fun ends => absurd ends (by simp)⟩
  rw [publish]
  simp only
  split
  · exact failure _ ⟨fun _ _ => rfl, rfl, rfl⟩
  · have written : Unchanged s
        ⟨{ s.lease with generation := s.lease.generation + 1 },
          s.files.put (.temp kind (s.lease.generation + 1)) (some (writeTemp fault xml).1)⟩ :=
      ⟨sameServices_temp _ _ _ _, rfl, rfl⟩
    split
    · exact finish_outcome (failure _ written)
    · rename_i whole
      refine finish_outcome ?_
      have fresh : s.files (.service kind (s.lease.generation + 1)) = none := by
        rw [← written.files]
        exact Option.not_isSome_iff_eq_none.mp fun found => whole (.inr (.inr found))
      have linked : Linked (.service kind (s.lease.generation + 1)) s
          ⟨{ s.lease with generation := s.lease.generation + 1 },
            (s.files.put (.temp kind (s.lease.generation + 1)) (some (writeTemp fault xml).1)).put
              (.service kind (s.lease.generation + 1)) (some (writeTemp fault xml).1)⟩ := by
        refine ⟨fresh, rfl, rfl, ?_, fun k g other => ?_⟩
        · simp only [put_same, Option.isSome_some]
        · exact (put_other _ _ other).trans (written.files k g)
      rcases retirePrevious_cases owned linked with ⟨ends, kept⟩ | ⟨ends, published⟩
      · exact ⟨fun _ => kept, fun done => absurd done ends⟩
      · exact ⟨fun failed => absurd ends failed, fun _ => published⟩

end publish
section requests
variable {ulongMax : Nat} {s : Leased}

/-- What a request leaves when the lease was owned properly before it. -/
structure Served (s : Leased) (r : Request) (out : Int × Leased) : Prop where
  failed : out.1 ≠ 0 → Unchanged s out.2
  registered : r.registers = true → out.1 = 0 → Published r.owner out.2
  withdrawn : r.registers = false → out.1 = 0 → out.2.lease.filename = none ∧
    out.2.lease.ownerFd = -1 ∧ Owned out.2

theorem served_refused (r : Request) : Served s r (-1, s) where
  failed _ := Unchanged.refl s
  registered _ ends := absurd ends (by simp)
  withdrawn _ ends := absurd ends (by simp)

theorem served_published {r : Request} {out : Int × Leased} (registers : r.registers = true)
    (outcome : PublishOutcome r.owner s out) : Served s r out where
  failed := outcome.failed
  registered _ := outcome.done
  withdrawn other := by
    rw [registers] at other
    cases other

theorem leMdnsLeaseWithdraw_served (owned : Owned s) (owner : Int) (fault : Option Fault) :
    Served s (.withdraw owner fault) (leMdnsLeaseWithdraw fault owner s) := by
  have empty {lease : LeMdnsLease} {d : Directory} (released : lease.filename = none)
      (none : ∀ k g, d (.service k g) = none) : Owned ⟨lease, d⟩ := by
    refine ⟨fun k g => ?_, fun name found => ?_⟩
    · refine iff_of_false (fun found => ?_) fun named => ?_
      · exact absurd (none k g) (Option.isSome_iff_ne_none.mp found)
      · exact absurd (released.symm.trans named) (by simp)
    · exact absurd (released.symm.trans found) (by simp)
  rw [leMdnsLeaseWithdraw]
  split
  · exact served_refused _
  · simp only
    cases held : s.lease.filename with
    | none =>
        refine ⟨fun ends => absurd rfl ends, (fun other => by cases other), fun _ _ => ⟨rfl, rfl, ?_⟩⟩
        refine empty rfl fun k g => Option.not_isSome_iff_eq_none.mp fun found => ?_
        have named := (owned.named k g).mp found
        rw [held] at named
        cases named
    | some old =>
        simp only
        split
        · exact served_refused _
        · refine ⟨fun ends => absurd rfl ends, (fun other => by cases other),
            fun _ _ => ⟨rfl, rfl, ?_⟩⟩
          refine empty rfl fun k g => ?_
          by_cases gone : FileName.service k g = old
          · rw [gone]
            exact put_same _ _ _
          · rw [put_other _ _ gone]
            refine Option.not_isSome_iff_eq_none.mp fun found => gone ?_
            have named := (owned.named k g).mp found
            rw [held] at named
            exact (Option.some.inj named).symm

theorem serve_served (owned : Owned s) (r : Request) : Served s r (r.serve ulongMax s) := by
  cases r with
  | registerEsphome owner port m fault =>
      simp only [Request.serve, leMdnsLeaseRegisterEsphome]
      split
      · exact served_refused _
      · split
        · exact served_refused _
        · exact served_published rfl (publish_outcome owned)
  | registerSendspin owner port name fault =>
      simp only [Request.serve, leMdnsLeaseRegisterSendspin]
      split
      · exact served_refused _
      · split
        · exact served_refused _
        · exact served_published rfl (publish_outcome owned)
  | withdraw owner fault => exact leMdnsLeaseWithdraw_served owned owner fault

theorem serve_owned (owned : Owned s) (r : Request) : Owned (r.serve ulongMax s).2 := by
  have served := @serve_served ulongMax s owned r
  by_cases ends : (r.serve ulongMax s).1 = 0
  · cases kind : r.registers with
    | true => exact (served.registered kind ends).owned
    | false => exact (served.withdrawn kind ends).2.2
  · exact (served.failed ends).owned owned

theorem serve_foreign (r : Request) (live : 0 ≤ s.lease.ownerFd)
    (foreign : r.owner ≠ s.lease.ownerFd) : (r.serve ulongMax s).2 = s := by
  have refused (owner : Int) (port : Nat) (other : owner ≠ s.lease.ownerFd) :
      refuses ulongMax owner port s = true := by
    have differ : (s.lease.ownerFd != owner) = true := bne_iff_ne.mpr (Ne.symm other)
    simp only [refuses, decide_eq_true live, differ, Bool.and_self, Bool.or_true, Bool.true_or]
  cases r with
  | registerEsphome owner port m fault =>
      rw [Request.serve, leMdnsLeaseRegisterEsphome, if_pos (.inl (refused owner port foreign))]
  | registerSendspin owner port name fault =>
      rw [Request.serve, leMdnsLeaseRegisterSendspin, if_pos (.inl (refused owner port foreign))]
  | withdraw owner fault =>
      rw [Request.serve, leMdnsLeaseWithdraw, if_pos (.inr (Ne.symm foreign))]

end requests

def Leased.after (ulongMax : Nat) (s : Leased) (r : Request) : Leased :=
  (r.serve ulongMax s).2

/-- The lease of a supervisor that has served these requests. -/
def leaseRun (ulongMax : Nat) (leftover : Service → Nat → Option Bytes)
    (requests : List Request) : Leased :=
  Runs.run (Leased.after ulongMax) ⟨.init, .cleared leftover⟩ requests

theorem leaseRun_owned (ulongMax : Nat) (leftover : Service → Nat → Option Bytes)
    (requests : List Request) : Owned (leaseRun ulongMax leftover requests) := by
  have kept : ∀ s r, Owned s → Owned (Leased.after ulongMax s r) :=
    fun s r owned => serve_owned owned r
  refine Runs.run_invariant_always (Leased.after ulongMax) kept ?_ requests
  exact ⟨fun _ _ => iff_of_false (by simp [Directory.cleared]) (by simp [LeMdnsLease.init]),
    fun name found => by cases found⟩

/--
In every run the service files are the one the lease names or none; a request that
fails leaves files, name and owner; nobody but the owner changes a live lease; and
behind a withdrawal there is no service file.
-/
theorem lease_belongs (ulongMax : Nat) (leftover : Service → Nat → Option Bytes)
    (requests : List Request) :
    Owned (leaseRun ulongMax leftover requests) ∧
    (∀ r : Request, (r.serve ulongMax (leaseRun ulongMax leftover requests)).1 ≠ 0 →
      Unchanged (leaseRun ulongMax leftover requests)
        (r.serve ulongMax (leaseRun ulongMax leftover requests)).2) ∧
    (∀ r : Request, 0 ≤ (leaseRun ulongMax leftover requests).lease.ownerFd →
      r.owner ≠ (leaseRun ulongMax leftover requests).lease.ownerFd →
      (r.serve ulongMax (leaseRun ulongMax leftover requests)).2 =
        leaseRun ulongMax leftover requests) ∧
    (∀ r : Request, r.registers = true →
      (r.serve ulongMax (leaseRun ulongMax leftover requests)).1 = 0 →
      Published r.owner (r.serve ulongMax (leaseRun ulongMax leftover requests)).2) ∧
    (∀ owner fault,
      (leMdnsLeaseWithdraw fault owner (leaseRun ulongMax leftover requests)).1 = 0 →
      ∀ kind generation,
        (leMdnsLeaseWithdraw fault owner (leaseRun ulongMax leftover requests)).2.files
          (.service kind generation) = none) := by
  have owned := leaseRun_owned ulongMax leftover requests
  refine ⟨owned, fun r => (serve_served owned r).failed, fun r => serve_foreign r,
    fun r => (serve_served owned r).registered, fun owner fault ends kind generation => ?_⟩
  obtain ⟨released, -, behind⟩ :=
    (leMdnsLeaseWithdraw_served owned owner fault).withdrawn rfl ends
  refine Option.not_isSome_iff_eq_none.mp fun found => ?_
  have named := (behind.named kind generation).mp found
  rw [released] at named
  cases named

/-- A registration whose temporary file cannot be opened has used up a generation. -/
theorem lease_belongs_generation :
    ¬∀ (leftover : Service → Nat → Option Bytes) (requests : List Request) (r : Request),
      (r.serve (2 ^ 64 - 1) (leaseRun (2 ^ 64 - 1) leftover requests)).1 ≠ 0 →
      (r.serve (2 ^ 64 - 1) (leaseRun (2 ^ 64 - 1) leftover requests)).2.lease =
        (leaseRun (2 ^ 64 - 1) leftover requests).lease := by
  intro all
  have text : (sendspinXml 8927 (ascii "Echo")).isSome = true := by decide +kernel
  obtain ⟨xml, written⟩ := Option.isSome_iff_exists.mp text
  have served : (Request.registerSendspin 7 8927 (ascii "Echo") (some .openTemp)).serve (2 ^ 64 - 1)
      (leaseRun (2 ^ 64 - 1) (fun _ _ => none) []) =
        publish (some .openTemp) 7 .sendspin xml (leaseRun (2 ^ 64 - 1) (fun _ _ => none) []) := by
    rw [Request.serve, leMdnsLeaseRegisterSendspin, if_neg (by decide), written]
  have same := all (fun _ _ => none) []
    (.registerSendspin 7 8927 (ascii "Echo") (some .openTemp))
  rw [served, publish_openTemp] at same
  exact absurd (congrArg LeMdnsLease.generation (same (by simp))) (Nat.succ_ne_self _)

end LibreEcho.Mdns
