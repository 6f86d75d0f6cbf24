import Mathlib
import LibreEcho.Lib.CText
import LibreEcho.Lib.Lines
import LibreEcho.Lib.SortedMap

/-!
The blob store of `blob_store.cpp`: a map from keys to byte strings, kept in one file.

The file is what the path names: nothing, a regular file with its owner, mode and text, or something
else. Every file operation of a write may fail. The temporary file has a name of its own, and what a
failed write leaves of it is removed.
-/
namespace LibreEcho.Sendspin

def kMaxBlobBytes : Nat := 16 * 1024
def kMaxFileBytes : Nat := 128 * 1024
def kMaxKeyLength : Nat := 32
def kVersionLine : CText := "libreecho-sendspin-state 1".toList

def keyChar (c : Char) : Bool :=
  ('a' ≤ c && c ≤ 'z') || ('0' ≤ c && c ≤ '9') || c == '_'

/-- `BlobStore::valid_key` -/
def validKey (key : CText) : Bool :=
  key ≠ [] && key.length ≤ kMaxKeyLength && key.all keyChar

structure Blobs extends SortedMap CText (List UInt8) where
  valid : ∀ e ∈ entries, validKey e.1 = true ∧ e.2.length ≤ kMaxBlobBytes

def Blobs.empty : Blobs where
  toSortedMap := .empty
  valid := nofun

def Blobs.put (blobs : Blobs) (key : CText) (blob : List UInt8)
    (ok : validKey key = true ∧ blob.length ≤ kMaxBlobBytes) : Blobs where
  toSortedMap := blobs.insert key blob
  valid := fun e member => (SortedMap.mem_insertEntry member).elim (fun same => same ▸ ok)
    (blobs.valid e)

def Blobs.remove (blobs : Blobs) (key : CText) : Blobs where
  toSortedMap := blobs.erase key
  valid := fun e member => blobs.valid e (List.mem_of_mem_filter member)

structure StatePath where
  text : CText
  named : 2 ≤ text.length ∧ text.head? = some '/' ∧ text.getLast? ≠ some '/'

structure BlobStore where
  path : StatePath
  blobs : Blobs

/-! ### Reading -/

/-- `hex_value` -/
def blobDigit (c : Char) : Option Nat :=
  if '0' ≤ c ∧ c ≤ '9' then some (c.toNat - '0'.toNat)
  else if 'a' ≤ c ∧ c ≤ 'f' then some (c.toNat - 'a'.toNat + 10)
  else none

def blobOf : CText → Option (List UInt8)
  | hi :: lo :: rest =>
      match blobDigit hi, blobDigit lo with
      | some hi, some lo => (blobOf rest).map (UInt8.ofNat (hi * 16 + lo) :: ·)
      | _, _ => none
  | [] => some []
  | [_] => none

theorem blobOf_length {hex : CText} {blob : List UInt8} (read : blobOf hex = some blob) :
    hex.length = 2 * blob.length := by
  fun_induction blobOf hex generalizing blob with
  | case1 hi lo rest h l _ _ ih =>
      obtain ⟨later, known, rfl⟩ := Option.map_eq_some_iff.mp read
      rw [List.length_cons, List.length_cons, ih known, List.length_cons]
      omega
  | case2 => cases read
  | case3 => cases read; rfl
  | case4 => cases read

def loadEntry (line : CText) (blobs : Blobs) : Except String Blobs :=
  match CText.cutAt ' ' line with
  | none => .error "state file corrupt (line)"
  | some (key, hex) =>
      if entry : validKey key = true ∧ blobs.has key = false ∧ hex.length % 2 = 0 ∧
          hex.length / 2 ≤ kMaxBlobBytes then
        match read : blobOf hex with
        | none => .error "state file corrupt (hex)"
        | some blob =>
            have small : blob.length ≤ kMaxBlobBytes := by
              have length := blobOf_length read
              omega
            .ok (blobs.put key blob ⟨entry.1, small⟩)
      else .error "state file corrupt (entry)"

/-- The lines in order; the first one is the version. It tells whether none was read. -/
def loadLines : List CText → Bool → Blobs → Except String (Bool × Blobs)
  | [], first, blobs => .ok (first, blobs)
  | line :: rest, true, blobs =>
      if line ≠ kVersionLine then .error "state file corrupt (version)"
      else loadLines rest false blobs
  | line :: rest, false, blobs =>
      match loadEntry line blobs with
      | .error why => .error why
      | .ok blobs => loadLines rest false blobs

def loadText (text : CText) : Except String Blobs :=
  match loadLines (Lines.cut '\n' text).1 true .empty with
  | .error why => .error why
  | .ok (first, blobs) =>
      if (Lines.cut '\n' text).2 ≠ [] then .error "state file corrupt (unterminated line)"
      else if first ∧ text ≠ [] then .error "state file corrupt (version)"
      else .ok blobs

/-- What a path names. -/
inductive StateEntry where
  /-- A symbolic link, or a file that cannot be opened. -/
  | refused
  /-- Neither a link nor a regular file. -/
  | special
  | regular (owned : Bool) (mode : Nat) (text : CText)

/-- `BlobStore::open`; `directory` when the directory of the path is one. -/
def BlobStore.openFile (path : CText) (directory : Bool) (file : Option StateEntry) :
    Except String BlobStore :=
  let fail (why : String) : Except String BlobStore :=
    .error (why ++ ": " ++ String.ofList path)
  if named : 2 ≤ path.length ∧ path.head? = some '/' ∧ path.getLast? ≠ some '/' then
    if directory = false then fail "state directory unavailable"
    else
      match file with
      | none => .ok ⟨⟨path, named⟩, .empty⟩
      | some .refused => fail "state file unreadable or a symlink"
      | some .special => fail "state file unsafe (owner, mode, type or size)"
      | some (.regular owned mode text) =>
          if owned = false ∨ mode &&& 0o77 ≠ 0 ∨ kMaxFileBytes < text.length then
            fail "state file unsafe (owner, mode, type or size)"
          else
            match loadText text with
            | .error why => fail why
            | .ok blobs => .ok ⟨⟨path, named⟩, blobs⟩
  else fail "state file must be an absolute file path"

/-! ### Writing -/

def blobDigits : CText := "0123456789abcdef".toList

def hexOf (blob : List UInt8) : CText :=
  blob.flatMap fun b => [blobDigits.getD (b.toNat / 16) '0', blobDigits.getD (b.toNat % 16) '0']

def entryLine (e : CText × List UInt8) : CText :=
  e.1 ++ ' ' :: hexOf e.2

def fileText (blobs : Blobs) : CText :=
  kVersionLine ++ ['\n'] ++ blobs.entries.flatMap fun e => entryLine e ++ ['\n']

structure StoreOutcomes where
  mkstemp : Bool
  fchmod : Bool
  /-- All of the text is written. -/
  write : Bool
  fsync : Bool
  close : Bool
  rename : Bool
  openDir : Bool
  fsyncDir : Bool
deriving DecidableEq

/-- `BlobStore::write`, and the file behind it. -/
def BlobStore.write (o : StoreOutcomes) (blobs : Blobs) (file : Option StateEntry) :
    Bool × Option StateEntry :=
  let text := fileText blobs
  if kMaxFileBytes < text.length then (false, file)
  else if o.mkstemp = false then (false, file)
  else
    let ok := o.fchmod && o.write && o.fsync
    let ok := o.close && ok
    let ok := ok && o.rename
    if ok = false then (false, file)
    else
      let file := some (.regular true 0o600 text)
      if o.openDir = false then (false, file) else (o.fsyncDir, file)

/-- `data` and `length` of a save. -/
inductive SaveData where
  | null (length : Nat)
  | bytes (data : List UInt8)

def SaveData.length : SaveData → Nat
  | .null length => length
  | .bytes data => data.length

def SaveData.isNull : SaveData → Bool
  | .null _ => true
  | .bytes _ => false

def SaveData.blob : SaveData → List UInt8
  | .null _ => []
  | .bytes data => data

theorem SaveData.blob_le (data : SaveData) : data.blob.length ≤ data.length := by
  cases data with
  | null length => exact Nat.zero_le length
  | bytes data => exact Nat.le_refl _

/-- `BlobStore::save` -/
def BlobStore.save (store : BlobStore) (o : StoreOutcomes) (file : Option StateEntry)
    (key : CText) (data : SaveData) : Bool × BlobStore × Option StateEntry :=
  if ok : validKey key = true ∧ data.length ≤ kMaxBlobBytes ∧
      ¬(0 < data.length ∧ data.isNull = true) then
    let next := store.blobs.put key data.blob ⟨ok.1, data.blob_le.trans ok.2.1⟩
    match write o next file with
    | (false, file) => (false, store, file)
    | (true, file) => (true, { store with blobs := next }, file)
  else (false, store, file)

/-- `BlobStore::erase` -/
def BlobStore.eraseKey (store : BlobStore) (o : StoreOutcomes) (file : Option StateEntry)
    (key : CText) : Bool × BlobStore × Option StateEntry :=
  if validKey key = false then (false, store, file)
  else if store.blobs.has key = false then (true, store, file)
  else
    let next := store.blobs.remove key
    match write o next file with
    | (false, file) => (false, store, file)
    | (true, file) => (true, { store with blobs := next }, file)

inductive BlobChange where
  | save (key : CText) (data : SaveData)
  | erase (key : CText)

def BlobChange.run (o : StoreOutcomes) (store : BlobStore) (file : Option StateEntry) :
    BlobChange → Bool × BlobStore × Option StateEntry
  | .save key data => store.save o file key data
  | .erase key => store.eraseKey o file key

end LibreEcho.Sendspin

/-!
The text of a map is loaded as this map, and what a text is loaded as has a text no longer than it.
A save or an erase changes the map and the file together or not at all, unless the directory fails
behind the rename.
-/
namespace LibreEcho.Sendspin

/-! ### The text of a map -/

theorem keyChar_plain {key : CText} (ok : validKey key = true) {c : Char}
    (plain : keyChar c = false) : c ∉ key := by
  intro member
  rw [validKey, Bool.and_eq_true] at ok
  rw [List.all_eq_true.mp ok.2 c member] at plain
  cases plain

theorem blobDigits_mem (d : Nat) : blobDigits.getD d '0' ∈ blobDigits := by
  rw [List.getD_eq_getElem?_getD]
  cases found : blobDigits[d]? with
  | none => exact List.mem_cons_self
  | some c => exact List.mem_of_getElem? found

theorem hexOf_digits {blob : List UInt8} {c : Char} (member : c ∈ hexOf blob) : c ∈ blobDigits := by
  obtain ⟨b, -, member⟩ := List.mem_flatMap.mp member
  obtain rfl | member := List.mem_cons.mp member
  · exact blobDigits_mem _
  · rw [List.mem_singleton.mp member]
    exact blobDigits_mem _

theorem hexOf_length (blob : List UInt8) : (hexOf blob).length = 2 * blob.length := by
  induction blob with
  | nil => rfl
  | cons b blob ih =>
      rw [hexOf, List.flatMap_cons, List.length_append, ← hexOf, ih]
      show 2 + 2 * blob.length = 2 * (blob.length + 1)
      omega

theorem blobDigit_blobDigits {d : Nat} (digit : d < 16) :
    blobDigit (blobDigits.getD d '0') = some d := by
  revert d
  decide

theorem blobOf_hexOf (blob : List UInt8) : blobOf (hexOf blob) = some blob := by
  induction blob with
  | nil => rfl
  | cons b blob ih =>
      have high : b.toNat / 16 < 16 := Nat.div_lt_of_lt_mul b.toNat_lt
      have low : b.toNat % 16 < 16 := Nat.mod_lt _ (by decide)
      have byte : b.toNat / 16 * 16 + b.toNat % 16 = b.toNat := by omega
      rw [hexOf, List.flatMap_cons, ← hexOf]
      show blobOf (_ :: _ :: hexOf blob) = _
      rw [blobOf, blobDigit_blobDigits high, blobDigit_blobDigits low, ih]
      show some (UInt8.ofNat (b.toNat / 16 * 16 + b.toNat % 16) :: blob) = _
      rw [byte, UInt8.ofNat_toNat]

theorem entryLine_oneLine {e : CText × List UInt8} (ok : validKey e.1 = true) :
    '\n' ∉ entryLine e := by
  rw [entryLine, List.mem_append, List.mem_cons]
  rintro (inKey | same | inHex)
  · exact keyChar_plain ok rfl inKey
  · cases same
  · exact absurd (hexOf_digits inHex) (by decide)

theorem fileText_lines (blobs : Blobs) :
    fileText blobs = Lines.joined '\n' (kVersionLine :: blobs.entries.map entryLine) := by
  rw [fileText, Lines.joined, List.flatMap_cons, List.flatMap_map]

theorem cut_fileText (blobs : Blobs) :
    Lines.cut '\n' (fileText blobs) = (kVersionLine :: blobs.entries.map entryLine, []) := by
  rw [fileText_lines]
  refine Lines.cut_joined '\n' fun line member => ?_
  obtain rfl | member := List.mem_cons.mp member
  · decide
  · obtain ⟨e, listed, rfl⟩ := List.mem_map.mp member
    exact entryLine_oneLine (blobs.valid e listed).1

/-! ### Loading the text of a map -/

theorem Blobs.ext {blobs blobs' : Blobs} (same : blobs.toSortedMap = blobs'.toSortedMap) :
    blobs = blobs' := by
  cases blobs
  cases blobs'
  cases same
  rfl

theorem loadEntry_entryLine {e : CText × List UInt8} {blobs : Blobs}
    (ok : validKey e.1 = true ∧ e.2.length ≤ kMaxBlobBytes) (new : blobs.has e.1 = false) :
    ∃ blobs', loadEntry (entryLine e) blobs = .ok blobs' ∧
      blobs'.toSortedMap = blobs.insert e.1 e.2 := by
  have cut : CText.cutAt ' ' (entryLine e) = some (e.1, hexOf e.2) :=
    CText.cutAt_append ' ' e.1 (hexOf e.2) (keyChar_plain ok.1 rfl)
  have length := hexOf_length e.2
  have entry : validKey e.1 = true ∧ blobs.has e.1 = false ∧ (hexOf e.2).length % 2 = 0 ∧
      (hexOf e.2).length / 2 ≤ kMaxBlobBytes := ⟨ok.1, new, by omega, by omega⟩
  rw [loadEntry, cut]
  dsimp only
  rw [dif_pos entry]
  split
  case h_1 refused => rw [blobOf_hexOf] at refused; cases refused
  case h_2 blob read =>
    rw [blobOf_hexOf] at read
    cases read
    exact ⟨_, rfl, rfl⟩

theorem loadLines_entries (l : List (CText × List UInt8)) (blobs : Blobs)
    (ok : ∀ e ∈ l, validKey e.1 = true ∧ e.2.length ≤ kMaxBlobBytes)
    (sorted : (blobs.entries ++ l).Pairwise fun a b => a.1 < b.1) :
    ∃ blobs', loadLines (l.map entryLine) false blobs = .ok (false, blobs') ∧
      blobs'.entries = blobs.entries ++ l := by
  induction l generalizing blobs with
  | nil => exact ⟨blobs, rfl, (List.append_nil _).symm⟩
  | cons e l ih =>
      have above : ∀ x ∈ blobs.entries, x.1 < e.1 := fun x member =>
        (List.pairwise_append.mp sorted).2.2 x member e List.mem_cons_self
      have new : blobs.has e.1 = false :=
        SortedMap.has_eq_false.mpr fun x member => ne_of_lt (above x member)
      obtain ⟨more, loaded, same⟩ := loadEntry_entryLine (ok e List.mem_cons_self) new
      have grown : more.entries = blobs.entries ++ [e] := by
        rw [same]
        exact SortedMap.insertEntry_last e.2 above
      obtain ⟨blobs', rest, all⟩ := ih more
        (fun x member => ok x (List.mem_cons_of_mem _ member))
        (by rwa [grown, ← List.append_cons])
      refine ⟨blobs', ?_, by rw [all, grown, ← List.append_cons]⟩
      rw [List.map_cons, loadLines, loaded]
      exact rest

theorem loadText_fileText (blobs : Blobs) : loadText (fileText blobs) = .ok blobs := by
  obtain ⟨blobs', loaded, same⟩ := loadLines_entries blobs.entries .empty blobs.valid
    (by exact blobs.sorted)
  have all : blobs' = blobs := Blobs.ext (SortedMap.ext same)
  have lines : loadLines (kVersionLine :: blobs.entries.map entryLine) true .empty =
      .ok (false, blobs') := by
    rw [loadLines, if_neg fun other => other rfl]
    exact loaded
  rw [loadText, cut_fileText, lines, all]
  rfl

/-! ### The size of what is loaded -/

def entrySize (e : CText × List UInt8) : Nat :=
  (entryLine e).length + 1

def entriesSize (m : SortedMap CText (List UInt8)) : Nat :=
  (m.entries.map entrySize).sum

theorem fileText_length (blobs : Blobs) :
    (fileText blobs).length = kVersionLine.length + 1 + entriesSize blobs.toSortedMap := by
  rw [fileText, List.length_append, List.length_append, List.length_singleton,
    List.length_flatMap, entriesSize]
  congr 2
  exact List.map_congr_left fun e _ => by rw [List.length_append]; rfl

theorem loadEntry_size {line : CText} {blobs blobs' : Blobs}
    (loaded : loadEntry line blobs = .ok blobs') :
    entriesSize blobs'.toSortedMap = line.length + 1 + entriesSize blobs.toSortedMap := by
  unfold loadEntry at loaded
  split at loaded
  case h_1 => cases loaded
  case h_2 key hex cut =>
    split at loaded
    case isFalse => cases loaded
    case isTrue entry =>
      split at loaded
      case h_1 => cases loaded
      case h_2 blob read =>
        cases loaded
        have length := blobOf_length read
        have size : entrySize (key, blob) = line.length + 1 := by
          rw [entrySize, entryLine, (CText.cutAt_some cut).1, List.length_append, List.length_append,
            List.length_cons, List.length_cons, hexOf_length, length]
        rw [← size]
        exact SortedMap.sum_insert blob entry.2.1 entrySize

theorem loadLines_size {lines : List CText} {first : Bool} {blobs blobs' : Blobs}
    (loaded : loadLines lines false blobs = .ok (first, blobs')) :
    first = false ∧ entriesSize blobs'.toSortedMap =
      (Lines.joined '\n' lines).length + entriesSize blobs.toSortedMap := by
  induction lines generalizing blobs with
  | nil =>
      cases loaded
      exact ⟨rfl, (Nat.zero_add _).symm⟩
  | cons line lines ih =>
      rw [loadLines] at loaded
      split at loaded
      case h_1 => cases loaded
      case h_2 more entry =>
        obtain ⟨read, size⟩ := ih loaded
        refine ⟨read, ?_⟩
        rw [size, loadEntry_size entry, Lines.joined_cons, List.length_append, List.length_cons]
        omega

theorem loadText_size {text : CText} {blobs : Blobs} (loaded : loadText text = .ok blobs) :
    text = [] ∧ blobs = .empty ∨ (fileText blobs).length = text.length := by
  unfold loadText at loaded
  split at loaded
  case h_1 => cases loaded
  case h_2 first more lines =>
    split at loaded
    case isTrue => cases loaded
    case isFalse ended =>
      split at loaded
      case isTrue => cases loaded
      case isFalse versioned =>
        cases loaded
        have whole := Lines.cut_whole '\n' text
        rw [not_not.mp ended, List.append_nil] at whole
        cases read : (Lines.cut '\n' text).1 with
        | nil =>
            rw [read] at lines whole
            cases lines
            exact .inl ⟨whole.symm, rfl⟩
        | cons line rest =>
            rw [read] at lines whole
            rw [loadLines] at lines
            split at lines
            case isTrue => cases lines
            case isFalse version =>
              obtain ⟨-, size⟩ := loadLines_size lines
              refine .inr ?_
              rw [fileText_length, size, ← whole, Lines.joined_cons, not_not.mp version,
                List.length_append, List.length_cons]
              exact Nat.add_right_comm _ _ _

theorem loadText_fits {text : CText} {blobs : Blobs} (loaded : loadText text = .ok blobs)
    (fits : text.length ≤ kMaxFileBytes) : (fileText blobs).length ≤ kMaxFileBytes := by
  obtain ⟨-, rfl⟩ | size := loadText_size loaded
  · decide
  · rwa [size]

/-! ### Opening -/

def loads (path : StatePath) (file : Option StateEntry) : Option Blobs :=
  match BlobStore.openFile path.text true file with
  | .ok store => some store.blobs
  | .error _ => none

theorem openFile_written (path : StatePath) {blobs : Blobs}
    (fits : (fileText blobs).length ≤ kMaxFileBytes) :
    BlobStore.openFile path.text true (some (.regular true 0o600 (fileText blobs))) =
      .ok ⟨path, blobs⟩ := by
  have safe : ¬(true = false ∨ (0o600 : Nat) &&& 0o77 ≠ 0 ∨
      kMaxFileBytes < (fileText blobs).length) := by
    rintro (bad | bad | bad)
    · cases bad
    · exact bad rfl
    · exact absurd fits (Nat.not_le.mpr bad)
  rw [BlobStore.openFile, dif_pos path.named, if_neg Bool.noConfusion]
  dsimp only
  rw [if_neg safe, loadText_fileText]

theorem loads_written (path : StatePath) {blobs : Blobs}
    (fits : (fileText blobs).length ≤ kMaxFileBytes) :
    loads path (some (.regular true 0o600 (fileText blobs))) = some blobs := by
  rw [loads, openFile_written path fits]

theorem openFile_fits {path : CText} {directory : Bool} {file : Option StateEntry}
    {store : BlobStore} (opened : BlobStore.openFile path directory file = .ok store) :
    (fileText store.blobs).length ≤ kMaxFileBytes := by
  unfold BlobStore.openFile at opened
  split at opened
  case isFalse => cases opened
  case isTrue =>
    split at opened
    case isTrue => cases opened
    case isFalse =>
      split at opened
      case h_1 => cases opened; exact (by decide : (fileText .empty).length ≤ kMaxFileBytes)
      case h_2 => cases opened
      case h_3 => cases opened
      case h_4 owned mode text =>
        split at opened
        case isTrue => cases opened
        case isFalse safe =>
          split at opened
          case h_1 => cases opened
          case h_2 blobs loaded =>
            cases opened
            exact loadText_fits loaded (Nat.not_lt.mp fun long => safe (.inr (.inr long)))

/-! ### A write -/

structure StoreOutcomes.Renames (o : StoreOutcomes) (blobs : Blobs) : Prop where
  fits : (fileText blobs).length ≤ kMaxFileBytes
  mkstemp : o.mkstemp = true
  fchmod : o.fchmod = true
  write : o.write = true
  fsync : o.fsync = true
  close : o.close = true
  rename : o.rename = true

theorem write_renames {o : StoreOutcomes} {blobs : Blobs} (renames : o.Renames blobs)
    (file : Option StateEntry) :
    BlobStore.write o blobs file =
      (o.openDir && o.fsyncDir, some (.regular true 0o600 (fileText blobs))) := by
  rw [BlobStore.write]
  dsimp only
  rw [if_neg (Nat.not_lt.mpr renames.fits), if_neg (by simp [renames.mkstemp]), renames.fchmod,
    renames.write, renames.fsync, renames.close, renames.rename, if_neg (by decide)]
  cases o.openDir with
  | false => rfl
  | true => rfl

theorem write_stops {o : StoreOutcomes} {blobs : Blobs} (stops : ¬o.Renames blobs)
    (file : Option StateEntry) : BlobStore.write o blobs file = (false, file) := by
  rw [BlobStore.write]
  dsimp only
  split
  case isTrue => rfl
  case isFalse fits =>
    split
    case isTrue => rfl
    case isFalse made =>
      split
      case isTrue => rfl
      case isFalse renamed =>
        simp only [Bool.not_eq_false, Bool.and_eq_true] at made renamed
        obtain ⟨⟨closed, ⟨moded, written⟩, synced⟩, renamed⟩ := renamed
        exact absurd ⟨Nat.not_lt.mp fits, made, moded, written, synced, closed, renamed⟩ stops

/-! ### A save or an erase -/

def BlobChange.updated (m : SortedMap CText (List UInt8)) :
    BlobChange → SortedMap CText (List UInt8)
  | .save key data => m.insert key data.blob
  | .erase key => m.erase key

/-- Both the map in memory and the one in the file are the updated one, or both are unchanged. -/
def BlobChange.Atomic (c : BlobChange) (store : BlobStore) (file : Option StateEntry)
    (after : Bool × BlobStore × Option StateEntry) : Prop :=
  if after.1 = true then
    ∃ next : Blobs, next.toSortedMap = c.updated store.blobs.toSortedMap ∧
      after.2.1 = { store with blobs := next } ∧ loads store.path after.2.2 = some next
  else after.2.1 = store ∧ loads store.path after.2.2 = loads store.path file

def BlobChange.next (blobs : Blobs) : BlobChange → Option Blobs
  | .save key data =>
      if ok : validKey key = true ∧ data.length ≤ kMaxBlobBytes ∧
          ¬(0 < data.length ∧ data.isNull = true) then
        some (blobs.put key data.blob ⟨ok.1, data.blob_le.trans ok.2.1⟩)
      else none
  | .erase key =>
      if validKey key = true ∧ blobs.has key = true then some (blobs.remove key) else none

/-- The change is an erase of a key that the map does not have. -/
def BlobChange.Idle (blobs : Blobs) : BlobChange → Prop
  | .save _ _ => False
  | .erase key => validKey key = true ∧ blobs.has key = false

theorem next_updated {c : BlobChange} {blobs next : Blobs} (writes : c.next blobs = some next) :
    next.toSortedMap = c.updated blobs.toSortedMap := by
  cases c with
  | save key data =>
      rw [BlobChange.next] at writes
      split at writes
      case isTrue => cases writes; rfl
      case isFalse => cases writes
  | erase key =>
      rw [BlobChange.next] at writes
      split at writes
      case isTrue => cases writes; rfl
      case isFalse => cases writes

theorem run_next {c : BlobChange} {store : BlobStore} {next : Blobs}
    (writes : c.next store.blobs = some next) (o : StoreOutcomes) (file : Option StateEntry) :
    c.run o store file =
      ((BlobStore.write o next file).1,
        if (BlobStore.write o next file).1 = true then { store with blobs := next } else store,
        (BlobStore.write o next file).2) := by
  cases c with
  | save key data =>
      rw [BlobChange.next] at writes
      split at writes
      case isFalse => cases writes
      case isTrue ok =>
        cases writes
        rw [BlobChange.run, BlobStore.save, dif_pos ok]
        dsimp only
        split
        case h_1 file' wrote => rw [wrote]; rfl
        case h_2 file' wrote => rw [wrote]; rfl
  | erase key =>
      rw [BlobChange.next] at writes
      split at writes
      case isFalse => cases writes
      case isTrue ok =>
        cases writes
        rw [BlobChange.run, BlobStore.eraseKey, if_neg (by simp [ok.1]), if_neg (by simp [ok.2])]
        dsimp only
        split
        case h_1 file' wrote => rw [wrote]; rfl
        case h_2 file' wrote => rw [wrote]; rfl

theorem run_idle {c : BlobChange} {store : BlobStore} (idle : c.Idle store.blobs)
    (o : StoreOutcomes) (file : Option StateEntry) : c.run o store file = (true, store, file) := by
  cases c with
  | save key data => exact idle.elim
  | erase key =>
      rw [BlobChange.run, BlobStore.eraseKey, if_neg (by simp [idle.1]), if_pos idle.2]

theorem run_refused {c : BlobChange} {store : BlobStore} (writes : c.next store.blobs = none)
    (busy : ¬c.Idle store.blobs) (o : StoreOutcomes) (file : Option StateEntry) :
    c.run o store file = (false, store, file) := by
  cases c with
  | save key data =>
      rw [BlobChange.next] at writes
      split at writes
      case isTrue => cases writes
      case isFalse bad => rw [BlobChange.run, BlobStore.save, dif_neg bad]
  | erase key =>
      rw [BlobChange.run, BlobStore.eraseKey]
      split
      case isTrue => rfl
      case isFalse valid =>
        rw [Bool.not_eq_false] at valid
        rw [BlobChange.next] at writes
        split at writes
        case isTrue => cases writes
        case isFalse absent =>
          refine absurd ⟨valid, ?_⟩ busy
          exact Bool.eq_false_iff.mpr fun has => absent ⟨valid, has⟩

/-- A write that comes past the rename finds a directory that is opened and synced, or a file with
the updated map already; an erase that writes nothing finds the map in the file. -/
structure BlobChange.Settled (c : BlobChange) (o : StoreOutcomes) (store : BlobStore)
    (file : Option StateEntry) : Prop where
  renamed : ∀ next, c.next store.blobs = some next → o.Renames next →
    (o.openDir && o.fsyncDir) = true ∨ loads store.path file = some next
  idle : c.Idle store.blobs → loads store.path file = some store.blobs

theorem run_atomic (c : BlobChange) (o : StoreOutcomes) (store : BlobStore)
    (file : Option StateEntry) :
    c.Atomic store file (c.run o store file) ↔ c.Settled o store file := by
  cases writes : c.next store.blobs with
  | none =>
      by_cases idle : c.Idle store.blobs
      · rw [run_idle idle o file]
        have same : store.blobs.toSortedMap = c.updated store.blobs.toSortedMap := by
          cases c with
          | save key data => exact idle.elim
          | erase key => exact (SortedMap.erase_absent idle.2).symm
        constructor
        · rintro ⟨next, updated, kept, loaded⟩
          have keeps : next = store.blobs := Blobs.ext (updated.trans same.symm)
          rw [keeps] at loaded
          exact ⟨fun _ written => absurd (writes.symm.trans written) nofun, fun _ => loaded⟩
        · intro settled
          exact ⟨store.blobs, same, rfl, settled.idle idle⟩
      · rw [run_refused writes idle o file]
        refine ⟨fun _ => ⟨fun _ written => ?_, fun idles => absurd idles idle⟩, fun _ => ⟨rfl, rfl⟩⟩
        exact absurd (writes.symm.trans written) nofun
  | some next =>
      have busy : ¬c.Idle store.blobs := by
        intro idle
        cases c with
        | save key data => exact idle
        | erase key =>
            rw [BlobChange.next, if_neg fun ok => by rw [idle.2] at ok; cases ok.2] at writes
            cases writes
      rw [run_next writes o file]
      by_cases renames : o.Renames next
      · rw [write_renames renames file]
        cases durable : o.openDir && o.fsyncDir with
        | true =>
            refine ⟨fun _ => ⟨fun _ _ _ => .inl durable, fun idle => absurd idle busy⟩, fun _ => ?_⟩
            exact ⟨next, next_updated writes, rfl, loads_written store.path renames.fits⟩
        | false =>
            have written := loads_written store.path renames.fits
            constructor
            · rintro ⟨-, kept⟩
              refine ⟨fun next' same _ => .inr ?_, fun idle => absurd idle busy⟩
              rw [writes] at same
              cases same
              exact kept.symm.trans written
            · intro settled
              obtain steady | already := settled.renamed next writes renames
              · rw [durable] at steady
                cases steady
              · exact ⟨rfl, written.trans already.symm⟩
      · rw [write_stops renames file]
        refine ⟨fun _ => ⟨fun next' same late => ?_, fun idle => absurd idle busy⟩,
          fun _ => ⟨rfl, rfl⟩⟩
        rw [writes] at same
        cases same
        exact absurd late renames

def StoreOutcomes.done : StoreOutcomes where
  mkstemp := true
  fchmod := true
  write := true
  fsync := true
  close := true
  rename := true
  openDir := true
  fsyncDir := true

/-- The file that a write puts in place loads as the map; what an open loads is written and loaded
back; a change is atomic exactly when it is settled. -/
theorem blobStore_law (c : BlobChange) (o : StoreOutcomes) (store : BlobStore)
    (file : Option StateEntry) :
    (∀ (path : StatePath) (blobs : Blobs), o.Renames blobs →
      BlobStore.openFile path.text true (BlobStore.write o blobs file).2 = .ok ⟨path, blobs⟩) ∧
    (∀ (path : CText) (directory : Bool) (file' : Option StateEntry) (loaded : BlobStore),
      BlobStore.openFile path directory file = .ok loaded →
      (BlobStore.write .done loaded.blobs file').1 = true ∧
        BlobStore.openFile loaded.path.text true (BlobStore.write .done loaded.blobs file').2 =
          .ok loaded) ∧
    (c.Atomic store file (c.run o store file) ↔ c.Settled o store file) := by
  refine ⟨fun path blobs renames => ?_, fun path directory file' loaded opened => ?_,
    run_atomic c o store file⟩
  · rw [write_renames renames file]
    exact openFile_written path renames.fits
  · have fits := openFile_fits opened
    rw [write_renames ⟨fits, rfl, rfl, rfl, rfl, rfl, rfl⟩ file']
    exact ⟨rfl, openFile_written loaded.path fits⟩

def statePath : StatePath where
  text := "/state".toList
  named := by decide

/-- The map with an empty blob under `a`. -/
def emptyBlob : Blobs :=
  Blobs.empty.put ['a'] [] (by decide)

theorem blobStore_law_emptyBlob :
    BlobStore.openFile statePath.text true (BlobStore.write .done emptyBlob none).2 =
        .ok ⟨statePath, emptyBlob⟩ ∧
      BlobStore.openFile statePath.text true (BlobStore.write .done Blobs.empty none).2 =
        .ok ⟨statePath, .empty⟩ := by
  have fits : (fileText emptyBlob).length ≤ kMaxFileBytes := by decide
  have law := blobStore_law (.erase ['a']) .done ⟨statePath, .empty⟩ none
  exact ⟨law.1 statePath emptyBlob ⟨fits, rfl, rfl, rfl, rfl, rfl, rfl⟩,
    (law.2.1 statePath.text true none ⟨statePath, .empty⟩ rfl).2⟩

/-- A save whose last operation fails is in the file and not in memory. -/
theorem save_unsynced :
    let store : BlobStore := ⟨statePath, .empty⟩
    let c : BlobChange := .save ['a'] (.bytes [])
    let after := c.run { StoreOutcomes.done with fsyncDir := false } store none
    loads statePath none = some store.blobs ∧ after.1 = false ∧ after.2.1 = store ∧
      loads statePath after.2.2 = some emptyBlob ∧ ¬c.Atomic store none after := by
  have fits : (fileText emptyBlob).length ≤ kMaxFileBytes := by decide
  have loaded := loads_written statePath fits
  refine ⟨rfl, rfl, rfl, loaded, fun atomic => ?_⟩
  have kept : some emptyBlob = some Blobs.empty := loaded.symm.trans atomic.2
  have same := congrArg (fun blobs : Blobs => blobs.entries) (Option.some.inj kept)
  cases same

end LibreEcho.Sendspin
