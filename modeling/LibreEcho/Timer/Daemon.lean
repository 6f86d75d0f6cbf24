import Mathlib
import LibreEcho.Timer.Schedule
import LibreEcho.Lib.Runs

/-!
The lines of timerd's state file: how `state_save_at` writes a record and how
`state_load_at` reads a line.

Labels are written in hexadecimal, so a written line holds no space in its
label. The reader also takes the two older formats. A record is read back as it
was written unless its id is 0, which no header may carry.
-/
namespace LibreEcho.Timer

structure StateRecord where
  kind : LeTimerKind
  id : UInt32
  dueEpoch : Int
  label : LeTimerLabel
deriving DecidableEq

/-! ### Writing -/

def hexDigit (value : Nat) : Char :=
  if value < 10 then Char.ofNat (48 + value) else Char.ofNat (87 + value)

def hexMark : CText := ['@', 'h', 'e', 'x', ':']

def stateEncodeLabel (label : LeTimerLabel) : CText :=
  hexMark ++ label.text.flatMap fun c => [hexDigit (c.toNat / 16), hexDigit (c.toNat % 16)]

def alarmWord : CText := ['a', 'l', 'a', 'r', 'm']
def countdownWord : CText := ['c', 'o', 'u', 'n', 't', 'd', 'o', 'w', 'n']

def kindText : LeTimerKind → CText
  | .alarm => alarmWord
  | .countdown => countdownWord

def stateLine (record : StateRecord) : CText :=
  'v' :: '3' :: ' ' :: (kindText record.kind ++ ' ' :: (CText.decimal record.id.toNat ++ ' ' ::
    (CText.decimalInt record.dueEpoch ++ ' ' :: stateEncodeLabel record.label)))

def stateText (records : List StateRecord) : CText :=
  CText.terminated '\n' (records.map stateLine)

/-! ### Reading -/

def stateHexValue (c : Char) : Option Nat :=
  if '0' ≤ c ∧ c ≤ '9' then some (c.toNat - 48)
  else if 'a' ≤ c ∧ c ≤ 'f' then some (c.toNat - 87)
  else if 'A' ≤ c ∧ c ≤ 'F' then some (c.toNat - 55)
  else none

/-- `none` for a digit that is none or for one digit too many. -/
def hexBytes : CText → Option CText
  | [] => some []
  | [_] => none
  | high :: low :: rest => do
      let h ← stateHexValue high
      let l ← stateHexValue low
      let bytes ← hexBytes rest
      some (Char.ofNat (16 * h + l) :: bytes)

def labelOf (text : CText) : Option LeTimerLabel :=
  if fits : text.length < leTimerLabelMax ∧ text.all isLabelByte = true then
    some ⟨text, fits.1, fits.2⟩
  else none

def stateDecodeLabel (text : CText) : Option LeTimerLabel :=
  if text.take hexMark.length = hexMark then
    let digits := text.drop hexMark.length
    if leTimerLabelMax ≤ digits.length / 2 then none
    else (hexBytes digits).bind fun bytes => labelOf (CText.ofBuffer bytes)
  else labelOf text

structure StateHeader where
  format : Nat
  kind : CText
  restoreId : UInt32
  due : Int
  /-- The rest of the line, where the label starts. -/
  label : CText
deriving DecidableEq

def stateFormat : CText → Nat × CText
  | 'v' :: '2' :: c :: rest =>
      if CText.isSpace c then (2, CText.skipSpace (c :: rest)) else (0, 'v' :: '2' :: c :: rest)
  | 'v' :: '3' :: c :: rest =>
      if CText.isSpace c then (3, CText.skipSpace (c :: rest)) else (0, 'v' :: '3' :: c :: rest)
  | cursor => (0, cursor)

def endsWord (rest : CText) : Bool :=
  match rest with
  | [] => true
  | c :: _ => CText.isSpace c

def stateRestoreId (format : Nat) (cursor : CText) : Option (UInt32 × CText) :=
  if format = 3 then
    match CText.strtoul cursor with
    | none => none
    | some id =>
        if id.outOfRange ∨ id.value = 0 ∨ (uintMax.toNat : Int) < id.value ∨
            endsWord id.rest = false then none
        else some (UInt32.ofNat id.value.toNat, CText.skipSpace id.rest)
  else some (0, cursor)

/-- The format before the marker has one separator, and what follows it is the
label, further spaces included. -/
def labelStart (format : Nat) : CText → CText
  | [] => []
  | c :: rest => if 2 ≤ format then CText.skipSpace (c :: rest) else rest

def stateKindMax : Nat := 16

def stateParseHeader (line : CText) : Option StateHeader :=
  let (format, cursor) := stateFormat (CText.skipSpace line)
  let kind := cursor.takeWhile (CText.isSpace · = false)
  let cursor := cursor.dropWhile (CText.isSpace · = false)
  if kind = [] ∨ stateKindMax ≤ kind.length ∨ cursor = [] then none
  else
    match stateRestoreId format (CText.skipSpace cursor) with
    | none => none
    | some (restoreId, cursor) =>
        match CText.strtoll cursor with
        | none => none
        | some due =>
            if due.outOfRange ∨ endsWord due.rest = false then none
            else some ⟨format, kind, restoreId, due.value, labelStart format due.rest⟩

def stripLineEnd (text : CText) : CText :=
  text.rdropWhile fun c => c = '\n' ∨ c = '\r'

/-- A header and its label; `none` when the line is skipped. -/
def stateParseLine (line : CText) : Option (StateHeader × LeTimerLabel) :=
  match stateParseHeader line with
  | none => none
  | some header =>
      let text := stripLineEnd header.label
      let label := if 2 ≤ header.format then stateDecodeLabel text else labelOf text
      label.map fun label => (header, label)

def stateLineMax : Nat := 256

/-- The lines as the buffer of `fgets` holds them. -/
def stateLines (text : CText) : List CText :=
  (CText.readLines stateLineMax text).map CText.ofBuffer

/-! ### What was written is read back -/

theorem stateHexValue_hexDigit : ∀ value < 16, stateHexValue (hexDigit value) = some value := by
  decide

theorem hexDigit_printable : ∀ value < 16, 32 ≤ (hexDigit value).toNat := by
  decide

theorem hexBytes_encoded {text : CText} (bytes : ∀ c ∈ text, c.toNat < 256) :
    hexBytes (text.flatMap fun c => [hexDigit (c.toNat / 16), hexDigit (c.toNat % 16)]) =
      some text := by
  induction text with
  | nil => rfl
  | cons c text ih =>
      have small := bytes c List.mem_cons_self
      have later := ih (fun c member => bytes c (List.mem_cons_of_mem _ member))
      have whole : 16 * (c.toNat / 16) + c.toNat % 16 = c.toNat := Nat.div_add_mod _ _
      rw [List.flatMap_cons, List.cons_append, List.cons_append, List.nil_append, hexBytes,
        stateHexValue_hexDigit _ (by omega), stateHexValue_hexDigit _ (by omega), later]
      simp [whole]

theorem ofBuffer_label (label : LeTimerLabel) : CText.ofBuffer label.text = label.text := by
  refine List.takeWhile_eq_self_iff.mpr ?_
  intro c member
  have positive := (label.byte member).1
  refine decide_eq_true ?_
  rintro rfl
  exact absurd positive (by decide)

theorem labelOf_text (label : LeTimerLabel) : labelOf label.text = some label :=
  dif_pos ⟨label.fits, label.bytes⟩

theorem stateDecodeLabel_encoded (label : LeTimerLabel) :
    stateDecodeLabel (stateEncodeLabel label) = some label := by
  have length : (label.text.flatMap fun c =>
      [hexDigit (c.toNat / 16), hexDigit (c.toNat % 16)]).length = 2 * label.text.length := by
    simp [List.length_flatMap, Nat.mul_comm]
  have fits : ¬ leTimerLabelMax ≤ 2 * label.text.length / 2 := by
    have := label.fits
    omega
  have bytes : ∀ c ∈ label.text, c.toNat < 256 := fun c member => (label.byte member).2
  unfold stateDecodeLabel stateEncodeLabel
  rw [List.take_left, if_pos rfl, List.drop_left]
  simp only [length, if_neg fits, hexBytes_encoded bytes, Option.bind_some,
    ofBuffer_label, labelOf_text]

/-- No control character: in particular no NUL and no line end. -/
def Printable (text : CText) : Prop :=
  ∀ c ∈ text, 32 ≤ c.toNat

theorem Printable.append {a b : CText} (first : Printable a) (second : Printable b) :
    Printable (a ++ b) := by
  intro c member
  rcases List.mem_append.mp member with left | right
  · exact first c left
  · exact second c right

theorem Printable.cons {c : Char} {text : CText} (first : 32 ≤ c.toNat)
    (rest : Printable text) : Printable (c :: text) := by
  intro d member
  rcases List.mem_cons.mp member with rfl | later
  · exact first
  · exact rest d later

theorem Printable.not_mem {text : CText} (printable : Printable text) {c : Char}
    (control : c.toNat < 32) : c ∉ text :=
  fun member => Nat.not_le.mpr control (printable c member)

theorem decimal_printable (n : Nat) : Printable (CText.decimal n) := by
  intro c member
  have digit := CText.decimal_isDigit member
  simp only [Char.isDigit, Bool.and_eq_true, decide_eq_true_eq] at digit
  exact le_trans (by decide) (UInt32.le_iff_toNat_le.mp digit.1)

theorem decimalInt_printable (i : Int) : Printable (CText.decimalInt i) := by
  cases i with
  | ofNat n => exact decimal_printable n
  | negSucc n => exact (decimal_printable (n + 1)).cons (by decide)

theorem stateEncodeLabel_printable (label : LeTimerLabel) :
    Printable (stateEncodeLabel label) := by
  have mark : Printable hexMark := by simp [Printable, hexMark]
  refine mark.append ?_
  intro c member
  obtain ⟨d, inside, digit⟩ := List.mem_flatMap.mp member
  have small := (label.byte inside).2
  rcases List.mem_cons.mp digit with rfl | second
  · exact hexDigit_printable _ (by omega)
  · rw [List.mem_singleton.mp second]
    exact hexDigit_printable _ (by omega)

theorem kindText_printable (kind : LeTimerKind) : Printable (kindText kind) := by
  cases kind with
  | alarm => simp [Printable, kindText, alarmWord]
  | countdown => simp [Printable, kindText, countdownWord]

theorem stateLine_printable (record : StateRecord) : Printable (stateLine record) := by
  refine .cons (by decide) (.cons (by decide) (.cons (by decide) ?_))
  refine (kindText_printable record.kind).append (.cons (by decide) ?_)
  refine (decimal_printable record.id.toNat).append (.cons (by decide) ?_)
  refine (decimalInt_printable record.dueEpoch).append (.cons (by decide) ?_)
  exact stateEncodeLabel_printable record.label

/-- The due time is a `long long`. -/
def StateRecord.InRange (record : StateRecord) : Prop :=
  CText.longLongMin ≤ record.dueEpoch ∧ record.dueEpoch ≤ CText.longLongMax

theorem length_decimalInt {i : Int} (low : CText.longLongMin ≤ i) (high : i ≤ CText.longLongMax) :
    (CText.decimalInt i).length ≤ 20 := by
  simp only [CText.longLongMin, CText.longLongMax] at low high
  cases i with
  | ofNat n =>
      exact Nat.toDigits_length 10 n 20 (by decide) (by simp only [Int.ofNat_eq_natCast] at high; omega)
  | negSucc n =>
      have digits : (CText.decimal (n + 1)).length ≤ 19 :=
        Nat.toDigits_length 10 (n + 1) 19 (by decide) (by omega)
      exact Nat.succ_le_succ digits

theorem length_stateLine {record : StateRecord} (inRange : record.InRange) :
    (stateLine record).length < stateLineMax - 1 := by
  have id : (CText.decimal record.id.toNat).length ≤ 10 :=
    Nat.toDigits_length 10 _ 10 (by decide) (lt_trans record.id.toNat_lt (by decide))
  have due := length_decimalInt inRange.1 inRange.2
  have label : (stateEncodeLabel record.label).length = 5 + 2 * record.label.text.length := by
    simp [stateEncodeLabel, hexMark, List.length_flatMap, Nat.mul_comm]
    omega
  have fits := record.label.fits
  have kind : (kindText record.kind).length ≤ 9 := by
    cases record.kind with
    | alarm => decide
    | countdown => decide
  simp only [leTimerLabelMax] at fits
  simp [stateLine, stateLineMax, label]
  omega

theorem ofBuffer_printable {text : CText} (printable : Printable text) :
    CText.ofBuffer (text ++ ['\n']) = text ++ ['\n'] := by
  refine List.takeWhile_eq_self_iff.mpr ?_
  intro c member
  refine decide_eq_true ?_
  rintro rfl
  rcases List.mem_append.mp member with inside | last
  · exact printable.not_mem (by decide) inside
  · exact absurd last (by decide)

theorem stateLines_stateText {records : List StateRecord}
    (inRange : ∀ record ∈ records, record.InRange) :
    stateLines (stateText records) = records.map fun record => stateLine record ++ ['\n'] := by
  have cut : ∀ line ∈ records.map stateLine, '\n' ∉ line ∧ line.length < stateLineMax - 1 := by
    intro line member
    obtain ⟨record, inside, rfl⟩ := List.mem_map.mp member
    exact ⟨(stateLine_printable record).not_mem (by decide),
      length_stateLine (inRange record inside)⟩
  rw [stateLines, stateText, CText.readLines_terminated cut, List.map_map, List.map_map]
  exact List.map_congr_left fun record _ => ofBuffer_printable (stateLine_printable record)

theorem takeWhile_word {word rest : CText} (solid : ∀ c ∈ word, CText.isSpace c = false) :
    (word ++ ' ' :: rest).takeWhile (CText.isSpace · = false) = word := by
  rw [List.takeWhile_append_of_pos (fun c member => decide_eq_true (solid c member))]
  simp [CText.isSpace]

theorem dropWhile_word {word rest : CText} (solid : ∀ c ∈ word, CText.isSpace c = false) :
    (word ++ ' ' :: rest).dropWhile (CText.isSpace · = false) = ' ' :: rest := by
  rw [List.dropWhile_append_of_pos (fun c member => decide_eq_true (solid c member))]
  simp [CText.isSpace]

theorem kindText_solid (kind : LeTimerKind) : ∀ c ∈ kindText kind, CText.isSpace c = false := by
  cases kind with
  | alarm => simp [kindText, alarmWord, CText.isSpace]
  | countdown => simp [kindText, countdownWord, CText.isSpace]

theorem skipSpace_kindText (kind : LeTimerKind) (rest : CText) :
    CText.skipSpace (' ' :: (kindText kind ++ rest)) = kindText kind ++ rest := by
  cases kind with
  | alarm => simp [CText.skipSpace, CText.isSpace, kindText, alarmWord]
  | countdown => simp [CText.skipSpace, CText.isSpace, kindText, countdownWord]

theorem skipSpace_blank (text : CText) : CText.skipSpace (' ' :: text) = CText.skipSpace text := by
  simp [CText.skipSpace, CText.isSpace]

theorem digitFree_blank (rest : CText) : CText.DigitFree (' ' :: rest) := by
  simp [CText.DigitFree]

theorem stateRestoreId_decimal (id : UInt32) (rest : CText) :
    stateRestoreId 3 (CText.decimal id.toNat ++ ' ' :: rest) =
      if id = 0 then none else some (id, CText.skipSpace rest) := by
  have small : id.toNat < 2 ^ 64 := lt_trans id.toNat_lt (by decide)
  have below : ¬ (uintMax.toNat : Int) < id.toNat := by
    have := id.toNat_lt
    simp only [uintMax, UInt32.reduceToNat]
    omega
  have zero : (id.toNat : Int) = 0 ↔ id = 0 := by
    rw [Int.natCast_eq_zero]
    exact ⟨fun none => UInt32.toNat_inj.mp none, fun none => by rw [none]; rfl⟩
  have stop : endsWord (' ' :: rest) = true := rfl
  simp only [stateRestoreId, if_true, CText.strtoul_decimal small (digitFree_blank rest)]
  simp only [Bool.false_eq_true, false_or, below, zero, stop, Bool.true_eq_false, or_false,
    skipSpace_blank]
  simp

theorem skipSpace_stateEncodeLabel (label : LeTimerLabel) (rest : CText) :
    CText.skipSpace (stateEncodeLabel label ++ rest) = stateEncodeLabel label ++ rest := by
  simp [stateEncodeLabel, hexMark, CText.skipSpace, CText.isSpace]

theorem stateParseHeader_stateLine {record : StateRecord} (inRange : record.InRange) :
    stateParseHeader (stateLine record ++ ['\n']) =
      if record.id = 0 then none
      else some ⟨3, kindText record.kind, record.id, record.dueEpoch,
        stateEncodeLabel record.label ++ ['\n']⟩ := by
  obtain ⟨kind, id, dueEpoch, label⟩ := record
  have filled : kindText kind ≠ [] := by cases kind <;> decide
  have fits : ¬ stateKindMax ≤ (kindText kind).length := by cases kind <;> decide
  have marked : stateFormat (CText.skipSpace (stateLine ⟨kind, id, dueEpoch, label⟩ ++ ['\n'])) =
      (3, kindText kind ++ ' ' :: (CText.decimal id.toNat ++ ' ' ::
        (CText.decimalInt dueEpoch ++ ' ' :: (stateEncodeLabel label ++ ['\n'])))) := by
    simp only [stateLine, List.cons_append, List.append_assoc]
    rw [show ∀ rest, CText.skipSpace ('v' :: rest) = 'v' :: rest from fun _ => rfl]
    rw [stateFormat, skipSpace_kindText]
    rfl
  unfold stateParseHeader
  simp only [marked, takeWhile_word (kindText_solid kind), dropWhile_word (kindText_solid kind),
    filled, fits, List.cons_ne_nil, or_self, if_false, skipSpace_blank, CText.skipSpace_decimal,
    stateRestoreId_decimal, CText.skipSpace_decimalInt]
  by_cases none : id = 0
  · simp only [if_pos none]
  · simp only [if_neg none,
      CText.strtoll_decimalInt inRange.1 inRange.2 (digitFree_blank (stateEncodeLabel label ++ ['\n']))]
    simp [endsWord, CText.isSpace, labelStart, skipSpace_blank, skipSpace_stateEncodeLabel]

theorem stripLineEnd_printable {text : CText} (printable : Printable text) :
    stripLineEnd (text ++ ['\n']) = text := by
  rw [stripLineEnd, List.rdropWhile_concat_pos _ _ _ (by simp), List.rdropWhile_eq_self_iff]
  intro filled
  have last := printable _ (List.getLast_mem filled)
  simp only [decide_eq_true_eq]
  rintro (same | same)
  · rw [same] at last
    exact absurd last (by decide)
  · rw [same] at last
    exact absurd last (by decide)

theorem stateParseLine_stateLine {record : StateRecord} (inRange : record.InRange) :
    stateParseLine (stateLine record ++ ['\n']) =
      if record.id = 0 then none
      else some (⟨3, kindText record.kind, record.id, record.dueEpoch,
        stateEncodeLabel record.label ++ ['\n']⟩, record.label) := by
  rw [stateParseLine, stateParseHeader_stateLine inRange]
  by_cases none : record.id = 0
  · simp only [if_pos none]
  · simp only [if_neg none, stripLineEnd_printable (stateEncodeLabel_printable record.label)]
    simp [stateDecodeLabel_encoded]

end LibreEcho.Timer

/-!
timerd: the commands, the state file and one turn of the main loop.

The state file waits for a credible wall clock: until `state_load_at` has run
with one, nothing is restored and nothing is saved. A command's fields are what
the JSON getters make of its arguments. The remote timer table is a separate
one; a request that dismisses everything also says how many of its rings
stopped. A state file that is there opens.
-/
namespace LibreEcho.Timer

structure StateDisk where
  state : Option CText
  backup : Option CText
deriving DecidableEq

structure TimerdContext where
  timers : LeTimerSet
  statePath : CText
  dirty : Bool
  stateLoaded : Bool
  stateCommitPending : Bool
  disk : StateDisk

def timerdBoot (statePath : CText) (disk : StateDisk) : TimerdContext where
  timers := leTimerSetInit
  statePath := statePath
  dirty := false
  stateLoaded := false
  stateCommitPending := false
  disk := disk

def TimerdContext.withTimers (ctx : TimerdContext) (timers : LeTimerSet) : TimerdContext :=
  { ctx with timers := timers }

def TimerdContext.touch (ctx : TimerdContext) (timers : LeTimerSet) : TimerdContext :=
  { ctx with timers := timers, dirty := true }

/-! ### Loading -/

def restoreOrMiss (set : LeTimerSet) (kind : LeTimerKind) (restoreId : UInt32) (dueEpoch : Int)
    (label : LeTimerLabel) (nowEpoch nowMs : Int) : LeTimerSet :=
  match restoreTimer set kind restoreId dueEpoch label nowEpoch nowMs with
  | (.ok _, restored) => restored
  | (.error _, refused) => refused.miss 1

def restoreLine (nowMs nowEpoch : Int) (set : LeTimerSet) (line : CText) : LeTimerSet :=
  match stateParseLine line with
  | none => set
  | some (header, label) =>
      let id := if 3 ≤ header.format then header.restoreId else 0
      if header.kind = alarmWord then
        restoreOrMiss set .alarm id header.due label nowEpoch nowMs
      else if header.kind = countdownWord then
        restoreOrMiss set .countdown id header.due label nowEpoch nowMs
      else set

def stateLoadAt (ctx : TimerdContext) (nowMs nowEpoch : Int) : Bool × TimerdContext :=
  if ctx.statePath = [] then (true, ctx)
  else if nowEpoch < leTimerClockValidEpoch then (false, ctx)
  else
    match ctx.disk.state with
    | none => (true, ctx)
    | some text =>
        (true, ctx.withTimers ((stateLines text).foldl (restoreLine nowMs nowEpoch) ctx.timers))

def TimerdContext.markLoaded (ctx : TimerdContext) (loaded : Bool) : TimerdContext :=
  { ctx with stateLoaded := ctx.stateLoaded || loaded }

def stateLoad (ctx : TimerdContext) (nowMs nowEpoch : Int) : Bool × TimerdContext :=
  let (loaded, ctx) := stateLoadAt ctx nowMs nowEpoch
  (loaded, ctx.markLoaded loaded)

/-! ### Saving -/

inductive StateSaveResult where
  | failed | ok | committedDurabilityFailed
deriving DecidableEq, Repr

structure SaveOutcomes where
  openTemporary : Bool
  write : Bool
  flush : Bool
  close : Bool
  /-- `chmod`, `link` and the rename to `.bak`. -/
  preserve : Bool
  syncBackup : Bool
  rename : Bool
  finalize : Bool

def savedDue (timer : LeTimer) (nowMs nowEpoch : Int) : Int :=
  match timer.kind with
  | .alarm => timer.dueEpoch
  | .countdown => nowEpoch + (timer.dueMonotonicMs - nowMs).tdiv 1000

def savedRecords (set : LeTimerSet) (nowMs nowEpoch : Int) : List StateRecord :=
  (set.timers.filter (·.state = .pending)).map fun timer =>
    ⟨timer.kind, timer.id, savedDue timer nowMs nowEpoch, timer.label⟩

def TimerdContext.withDisk (ctx : TimerdContext) (disk : StateDisk) (commitPending : Bool) :
    TimerdContext :=
  { ctx with disk := disk, stateCommitPending := commitPending }

def statePathMax : Nat := 256

/-- The rename is the commit point: what fails after it is durability only. -/
def stateCommit (o : SaveOutcomes) (ctx : TimerdContext) (disk : StateDisk) (text : CText) :
    StateSaveResult × TimerdContext :=
  if o.rename = false then (.failed, ctx.withDisk disk ctx.stateCommitPending)
  else if o.finalize = false then
    (.committedDurabilityFailed, ctx.withDisk { disk with state := some text } true)
  else (.ok, ctx.withDisk { disk with state := some text } false)

/-- The old file becomes the backup, unless a commit is still pending. -/
def stateReplace (o : SaveOutcomes) (ctx : TimerdContext) (text : CText) :
    StateSaveResult × TimerdContext :=
  if ctx.stateCommitPending = false ∧ ctx.disk.state.isSome then
    if o.preserve = false then (.failed, ctx)
    else
      let disk := { ctx.disk with backup := ctx.disk.state }
      if o.syncBackup = false then (.failed, ctx.withDisk disk ctx.stateCommitPending)
      else stateCommit o ctx disk text
  else stateCommit o ctx ctx.disk text

def stateWrite (o : SaveOutcomes) (ctx : TimerdContext) (nowMs nowEpoch : Int) :
    StateSaveResult × TimerdContext :=
  if ctx.statePath = [] then (.ok, ctx)
  else if nowEpoch < leTimerClockValidEpoch then (.failed, ctx)
  else if statePathMax ≤ ctx.statePath.length + ".bak.tmp".length then (.failed, ctx)
  else if o.openTemporary = false ∨ o.write = false ∨ o.flush = false ∨ o.close = false then
    (.failed, ctx)
  else stateReplace o ctx (stateText (savedRecords ctx.timers nowMs nowEpoch))

def stateSaveAt (o : SaveOutcomes) (ctx : TimerdContext) (nowMs nowEpoch : Int) :
    StateSaveResult × TimerdContext :=
  if ctx.stateLoaded then stateWrite o ctx nowMs nowEpoch
  else
    match stateLoadAt ctx nowMs nowEpoch with
    | (false, ctx) => (.failed, ctx)
    | (true, ctx) => stateWrite o (ctx.markLoaded true) nowMs nowEpoch

def TimerdContext.saved (ctx : TimerdContext) : StateSaveResult → TimerdContext
  | .ok => { ctx with dirty := false }
  | .committedDurabilityFailed => { ctx with stateCommitPending := true }
  | .failed => ctx

def saveIfDirty (o : SaveOutcomes) (ctx : TimerdContext) (nowMs nowEpoch : Int) :
    TimerdContext :=
  if ctx.dirty = false then ctx
  else
    let (result, ctx) := stateSaveAt o ctx nowMs nowEpoch
    ctx.saved result

/-! ### Commands -/

/-- What a JSON getter makes of a field. -/
inductive JsonField (α : Type) where
  | missing | invalid | value (a : α)

inductive TimerdCommand where
  | status
  | add (seconds : JsonField Int)
  | addAlarm (epoch : JsonField Int)
  | cancelAll
  | next
  | cancel (id : JsonField UInt32)
  | dismiss (id : JsonField UInt32) (remoteStopped : Nat)
  | unknown

structure TimerdRequest where
  command : TimerdCommand
  label : JsonField LeTimerLabel
  nowMs : Int
  nowEpoch : Int

structure TimerView where
  id : UInt32
  kind : LeTimerKind
  state : LeTimerState
  secondsRemaining : Int
  label : LeTimerLabel

inductive TimerdResponse where
  | status (timers : List TimerView) (ringing missed : Nat)
  | created (id : UInt32)
  | cancelled (count : Nat)
  | next (count : Nat) (soonest : Option TimerView)
  | dismissed (count : Nat)
  | done

def addError : LeTimerError → String
  | .full => "no free timer slots"
  | .range => "time out of range"
  | .clock => "clock not synchronised yet"
  | .notFound => "cannot add timer"

def secondsRemaining (timer : LeTimer) (nowMs nowEpoch : Int) : Int :=
  max 0 (match timer.kind with
    | .alarm => timer.dueEpoch - nowEpoch
    | .countdown => (timer.dueMonotonicMs - nowMs).tdiv 1000)

def timerView (nowMs nowEpoch : Int) (timer : LeTimer) : TimerView :=
  ⟨timer.id, timer.kind, timer.state, secondsRemaining timer nowMs nowEpoch, timer.label⟩

def timersJson (set : LeTimerSet) (nowMs nowEpoch : Int) : TimerdResponse :=
  .status ((set.timers.filter (·.state ≠ .free)).map (timerView nowMs nowEpoch))
    (leTimerRingingCount set) set.missed

def sooner (best : Option TimerView) (view : TimerView) : Option TimerView :=
  match best with
  | none => some view
  | some best => if view.secondsRemaining < best.secondsRemaining then some view else some best

def nextTimer (set : LeTimerSet) (nowMs nowEpoch : Int) : TimerdResponse :=
  let pending := set.timers.filter (·.state = .pending)
  .next pending.length ((pending.map (timerView nowMs nowEpoch)).foldl sooner none)

def labelled (set : LeTimerSet) (label : LeTimerLabel) : List LeTimer :=
  set.timers.filter fun timer => timer.state = .pending ∧ timer.label = label

def cancelId (ctx : TimerdContext) (id : UInt32) (nowMs nowEpoch : Int) :
    Except String TimerdResponse × TimerdContext :=
  match leTimerCancelAt ctx.timers id nowMs nowEpoch with
  | (.error _, timers) => (.error "no such timer", ctx.withTimers timers)
  | (.ok _, timers) => (.ok .done, ctx.touch timers)

def cancelLabel (ctx : TimerdContext) (label : LeTimerLabel) (nowMs nowEpoch : Int) :
    Except String TimerdResponse × TimerdContext :=
  match labelled ctx.timers label with
  | [] => (.error "no such timer", ctx)
  | [timer] => cancelId ctx timer.id nowMs nowEpoch
  | _ => (.error "timer label is ambiguous", ctx)

def dispatchAdd (ctx : TimerdContext) (result : Except LeTimerError UInt32 × LeTimerSet) :
    Except String TimerdResponse × TimerdContext :=
  match result with
  | (.error error, timers) => (.error (addError error), ctx.withTimers timers)
  | (.ok id, timers) => (.ok (.created id), ctx.touch timers)

def dispatchDismiss (ctx : TimerdContext) (remoteStopped : Nat) (stopped : Nat × LeTimerSet) :
    Except String TimerdResponse × TimerdContext :=
  let count := stopped.1 + remoteStopped
  (.ok (.dismissed count), if count = 0 then ctx.withTimers stopped.2 else ctx.touch stopped.2)

def requestLabel : JsonField LeTimerLabel → LeTimerLabel
  | .value label => label
  | .missing | .invalid => .empty

def dispatchCommand (ctx : TimerdContext) (r : TimerdRequest) :
    Except String TimerdResponse × TimerdContext :=
  match r.command with
  | .status => (.ok (timersJson ctx.timers r.nowMs r.nowEpoch), ctx)
  | .add (.value seconds) =>
      dispatchAdd ctx (leTimerAddCountdown ctx.timers seconds (requestLabel r.label) r.nowMs)
  | .add _ => (.error "add requires seconds", ctx)
  | .addAlarm (.value epoch) =>
      dispatchAdd ctx (leTimerAddAlarm ctx.timers epoch (requestLabel r.label) r.nowEpoch)
  | .addAlarm _ => (.error "add_alarm requires epoch", ctx)
  | .cancelAll =>
      let (count, timers) := leTimerClearAllIn .pending ctx.timers
      (.ok (.cancelled count), if count = 0 then ctx.withTimers timers else ctx.touch timers)
  | .next => (.ok (nextTimer ctx.timers r.nowMs r.nowEpoch), ctx)
  | .cancel .invalid => (.error "cancel id must be a positive integer", ctx)
  | .cancel (.value id) =>
      if id = 0 then (.error "cancel id must be a positive integer", ctx)
      else cancelId ctx id r.nowMs r.nowEpoch
  | .cancel .missing =>
      if (requestLabel r.label).text = [] then (.error "cancel requires id or label", ctx)
      else cancelLabel ctx (requestLabel r.label) r.nowMs r.nowEpoch
  | .dismiss .invalid _ => (.error "dismiss id must be a positive integer", ctx)
  | .dismiss (.value id) _ =>
      if id = 0 then (.error "dismiss id must be a positive integer", ctx)
      else dispatchDismiss ctx 0 (leTimerDismiss ctx.timers id)
  | .dismiss .missing remoteStopped =>
      dispatchDismiss ctx remoteStopped (leTimerDismissAll ctx.timers)
  | .unknown => (.error "unknown command", ctx)

def dispatch (ctx : TimerdContext) (r : TimerdRequest) :
    Except String TimerdResponse × TimerdContext :=
  match r.label with
  | .invalid => (.error "label is missing, invalid, or too long", ctx)
  | .missing | .value _ => dispatchCommand ctx r

/-! ### The main loop -/

def turnLoad (ctx : TimerdContext) (nowEpoch loadMs loadEpoch : Int) : TimerdContext :=
  if ctx.stateLoaded = false ∧ leTimerClockValidEpoch ≤ nowEpoch then
    (stateLoad ctx loadMs loadEpoch).2
  else ctx

def turnStep (ctx : TimerdContext) (nowMs nowEpoch : Int) : TimerdContext :=
  match leTimerStep ctx.timers nowMs nowEpoch with
  | ([], timers) => ctx.withTimers timers
  | (_ :: _, timers) => ctx.touch timers

/-- A turn of the main loop is a load, a step and a save, then the requests. The
clock is read anew for the load itself and before the save. -/
inductive TimerdInput where
  | load (nowEpoch loadMs loadEpoch : Int)
  | step (nowMs nowEpoch : Int)
  | save (o : SaveOutcomes) (nowMs nowEpoch : Int)
  | request (r : TimerdRequest)

def timerdStep (ctx : TimerdContext) : TimerdInput → TimerdContext
  | .load nowEpoch loadMs loadEpoch => turnLoad ctx nowEpoch loadMs loadEpoch
  | .step nowMs nowEpoch => turnStep ctx nowMs nowEpoch
  | .save o nowMs nowEpoch => saveIfDirty o ctx nowMs nowEpoch
  | .request r => (dispatch ctx r).2

end LibreEcho.Timer
