import LibreEcho.Lib.ByteText
import LibreEcho.Lib.RecentTable
import LibreEcho.Lib.Runs

/-!
The voice-turn history of `voice_history.c`.

Ten records lie in a ring that is written in turn. Texts are the bytes of C
strings before the terminator; a text that does not fit its array is cut. The
text the wall clock renders to is an argument of an insertion.
-/
namespace LibreEcho.Voice

abbrev Bytes := List UInt8

def leVoiceHistoryCapacity : Nat := 10
def leVoiceHistoryTranscriptMax : Nat := 768
def leVoiceHistoryResponseMax : Nat := 1536
def leVoiceHistoryTimestampMax : Nat := 40
def leVoiceHistoryRequestIdMax : Nat := 64
def leVoiceHistoryReasonMax : Nat := 48

def leVoiceTurnCompleted : Int := 1
def leVoiceTurnSttFailed : Int := 2
def leVoiceTurnAssistantFailed : Int := 3
def leVoiceTurnTtsFailed : Int := 4
def leVoiceTurnCancelled : Int := 5
def leVoiceTurnTimedOut : Int := 6

structure LeVoiceTurnRecord where
  id : UInt64
  requestId : Bytes
  timestamp : Bytes
  transcript : Bytes
  response : Bytes
  transcriptTruncated : Bool
  responseTruncated : Bool
  status : Int
  reason : Bytes
  sttMs : UInt32
  assistantMs : UInt32
  ttsMs : UInt32
deriving DecidableEq, Repr

def LeVoiceTurnRecord.cleared : LeVoiceTurnRecord where
  id := 0
  requestId := []
  timestamp := []
  transcript := []
  response := []
  transcriptTruncated := false
  responseTruncated := false
  status := 0
  reason := []
  sttMs := 0
  assistantMs := 0
  ttsMs := 0

structure LeVoiceHistory where
  records : Fin leVoiceHistoryCapacity → LeVoiceTurnRecord
  /-- The write cursor. -/
  next : Fin leVoiceHistoryCapacity
  count : Nat
  nextId : UInt64
  generation : UInt64

def leVoiceHistoryInit : LeVoiceHistory where
  records := fun _ => .cleared
  next := ⟨0, by decide⟩
  count := 0
  nextId := 1
  generation := 1

def successor (n : UInt64) : UInt64 :=
  if n + 1 = 0 then 1 else n + 1

def leVoiceHistoryClear (h : LeVoiceHistory) : LeVoiceHistory :=
  { h with
    records := fun _ => .cleared
    next := ⟨0, by decide⟩
    count := 0
    generation := successor h.generation }

/-! ### Reading -/

def leVoiceHistoryAt (h : LeVoiceHistory) (newestIndex : Nat) : Option LeVoiceTurnRecord :=
  if h.count ≤ newestIndex then none else some (h.records (RecentTable.place h.next newestIndex))

def leVoiceHistoryFind (h : LeVoiceHistory) (id : UInt64) : Option LeVoiceTurnRecord :=
  (List.range h.count).findSome? fun i =>
    (leVoiceHistoryAt h i).filter fun record => record.id = id

def leVoiceTurnStatusValid (status : Int) : Bool :=
  leVoiceTurnCompleted ≤ status ∧ status ≤ leVoiceTurnTimedOut

/-- `none` for the statuses without a reason of their own. -/
def leVoiceTurnStatusReason (status : Int) : Option Bytes :=
  if status = leVoiceTurnSttFailed then some (ByteText.ascii "speech not recognised")
  else if status = leVoiceTurnAssistantFailed then some (ByteText.ascii "assistant failed")
  else if status = leVoiceTurnTtsFailed then some (ByteText.ascii "speech playback failed")
  else if status = leVoiceTurnCancelled then some (ByteText.ascii "cancelled")
  else if status = leVoiceTurnTimedOut then some (ByteText.ascii "timed out")
  else none

/-! ### Texts -/

/-- `snprintf(slot, size, "%s", text)` -/
def printed (size : Nat) (text : Bytes) : Bytes :=
  text.take (size - 1)

/-- Length, first code point bits and least code point of a sequence with this lead byte. -/
def utf8Lead (lead : UInt8) : Option (Nat × Nat × Nat) :=
  if 0xC2 ≤ lead ∧ lead ≤ 0xDF then some (2, lead.toNat % 0x20, 0x80)
  else if 0xE0 ≤ lead ∧ lead ≤ 0xEF then some (3, lead.toNat % 0x10, 0x800)
  else if 0xF0 ≤ lead ∧ lead ≤ 0xF4 then some (4, lead.toNat % 0x08, 0x10000)
  else none

/-- The code point after `count` continuation bytes, `none` when one is not such a byte. -/
def utf8Continue : Nat → Bytes → Nat → Option Nat
  | 0, _, codepoint => some codepoint
  | _ + 1, [], _ => none
  | count + 1, c :: rest, codepoint =>
      if c &&& 0xC0 ≠ 0x80 then none
      else utf8Continue count rest (codepoint * 0x40 + c.toNat % 0x40)

/-- The length of the sequence the text starts with, 0 when it is not a valid one. -/
def utf8SequenceLength : Bytes → Nat
  | [] => 1
  | lead :: rest =>
      if lead < 0x80 then 1
      else
        match utf8Lead lead with
        | none => 0
        | some (length, bits, minimum) =>
            match utf8Continue (length - 1) rest bits with
            | none => 0
            | some codepoint =>
                if codepoint < minimum ∨ (0xD800 ≤ codepoint ∧ codepoint ≤ 0xDFFF) ∨
                    0x10FFFF < codepoint then 0
                else length

/-- A control character other than the three the JSON writer escapes becomes a space. -/
def foldControl (c : UInt8) : UInt8 :=
  if c < 0x20 ∧ c ≠ 0x0A ∧ c ≠ 0x0D ∧ c ≠ 0x09 then 0x20 else c

/-- The copy of `source` into `room` free bytes, and whether it was cut. -/
def copyTextLoop : Nat → Bytes → Nat → Bytes × Bool
  | 0, _, _ => ([], false)
  | _ + 1, [], _ => ([], false)
  | fuel + 1, c :: rest, room =>
      if c < 0x80 then
        if room ≤ 1 then ([], true)
        else
          let copied := copyTextLoop fuel rest (room - 1)
          (foldControl c :: copied.1, copied.2)
      else
        let length := utf8SequenceLength (c :: rest)
        if length = 0 then
          if room ≤ 1 then ([], true)
          else
            let copied := copyTextLoop fuel rest (room - 1)
            (0x3F :: copied.1, copied.2)
        else if room ≤ length then ([], true)
        else
          let copied := copyTextLoop fuel ((c :: rest).drop length) (room - length)
          ((c :: rest).take length ++ copied.1, copied.2)

def leVoiceHistoryCopyText (size : Nat) (source : Bytes) : Bytes × Bool :=
  if size = 0 then ([], false) else copyTextLoop source.length source size

/-! ### Writing -/

def storedRecord (id : UInt64) (clock : Bytes) (record : LeVoiceTurnRecord) :
    LeVoiceTurnRecord :=
  let transcript := leVoiceHistoryCopyText leVoiceHistoryTranscriptMax record.transcript
  let response := leVoiceHistoryCopyText leVoiceHistoryResponseMax record.response
  { id := id
    requestId := printed leVoiceHistoryRequestIdMax record.requestId
    timestamp := printed leVoiceHistoryTimestampMax
      (if record.timestamp = [] then clock else record.timestamp)
    transcript := transcript.1
    response := response.1
    transcriptTruncated := transcript.2 || record.transcriptTruncated
    responseTruncated := response.2 || record.responseTruncated
    status := record.status
    reason :=
      if record.reason = [] then
        printed leVoiceHistoryReasonMax ((leVoiceTurnStatusReason record.status).getD [])
      else printed leVoiceHistoryReasonMax record.reason
    sttMs := record.sttMs
    assistantMs := record.assistantMs
    ttsMs := record.ttsMs }

def storeNext (h : LeVoiceHistory) (slot : LeVoiceTurnRecord) : LeVoiceHistory :=
  { h with
    records := Function.update h.records h.next slot
    nextId := successor h.nextId
    next := RecentTable.advance h.next
    count := if h.count < leVoiceHistoryCapacity then h.count + 1 else h.count }

/-- `clock` is the text of the wall clock, used when the record has no timestamp. -/
def leVoiceHistoryAdd (h : LeVoiceHistory) (generation : UInt64) (clock : Bytes)
    (record : LeVoiceTurnRecord) : Int × LeVoiceHistory :=
  if leVoiceTurnStatusValid record.status = false then (-1, h)
  else if generation ≠ h.generation then (0, h)
  else (1, storeNext h (storedRecord h.nextId clock record))

def upgraded (record : LeVoiceTurnRecord) (status : Int) (reason : Bytes) : LeVoiceTurnRecord :=
  { record with
    status := status
    reason :=
      if reason = [] then
        printed leVoiceHistoryReasonMax ((leVoiceTurnStatusReason status).getD [])
      else printed leVoiceHistoryReasonMax reason }

def leVoiceHistorySetStatus (h : LeVoiceHistory) (generation id : UInt64) (status : Int)
    (reason : Bytes) : Int × LeVoiceHistory :=
  if leVoiceTurnStatusValid status = false then (-1, h)
  else if generation ≠ h.generation then (0, h)
  else
    match (List.range h.count).find? fun i =>
        (h.records (RecentTable.place h.next i)).id = id with
    | none => (0, h)
    | some i =>
        let place := RecentTable.place h.next i
        let record := h.records place
        if record.status ≠ leVoiceTurnCompleted ∨ status = leVoiceTurnCompleted then (0, h)
        else (1, { h with records := Function.update h.records place (upgraded record status reason) })

end LibreEcho.Voice

/-!
The voice history as a bounded log.

A run keeps every record as it was inserted. The ring shows the newest of those
since the last clear, each as it was inserted or with its status upgraded once.
-/
namespace LibreEcho.Voice

inductive VoiceOp where
  | add (generation : UInt64) (clock : Bytes) (record : LeVoiceTurnRecord)
  | setStatus (generation id : UInt64) (status : Int) (reason : Bytes)
  | clear

def VoiceOp.generation? : VoiceOp → Option UInt64
  | .add generation _ _ | .setStatus generation _ _ _ => some generation
  | .clear => none

structure VoiceRun where
  history : LeVoiceHistory
  /-- Every record as it was inserted, newest first. -/
  added : List LeVoiceTurnRecord
  /-- How many of them were inserted since the last clear. -/
  live : Nat

def VoiceRun.start : VoiceRun where
  history := leVoiceHistoryInit
  added := []
  live := 0

def VoiceRun.step (s : VoiceRun) : VoiceOp → VoiceRun
  | .add generation clock record =>
      let answer := leVoiceHistoryAdd s.history generation clock record
      if answer.1 = 1 then
        { history := answer.2
          added := storedRecord s.history.nextId clock record :: s.added
          live := s.live + 1 }
      else { s with history := answer.2 }
  | .setStatus generation id status reason =>
      { s with history := (leVoiceHistorySetStatus s.history generation id status reason).2 }
  | .clear => { s with history := leVoiceHistoryClear s.history, live := 0 }

abbrev VoiceRun.run : VoiceRun → List VoiceOp → VoiceRun :=
  Runs.run VoiceRun.step

/-- The `n`-th inserted record of the run, while the ring still shows it. -/
def VoiceRun.entry (s : VoiceRun) (n : Nat) : Option LeVoiceTurnRecord :=
  if n < s.added.length then leVoiceHistoryAt s.history (s.added.length - 1 - n) else none

/-- The same record, or the record with its completed status upgraded. -/
def Upgraded (before after : LeVoiceTurnRecord) : Prop :=
  after = before ∨
    before.status = leVoiceTurnCompleted ∧ after.status ≠ leVoiceTurnCompleted ∧
      ∃ status reason, after = upgraded before status reason

theorem Upgraded.refl (r : LeVoiceTurnRecord) : Upgraded r r := .inl rfl

theorem Upgraded.id {before after : LeVoiceTurnRecord} (h : Upgraded before after) :
    after.id = before.id ∧ after.timestamp = before.timestamp := by
  rcases h with rfl | ⟨_, _, status, reason, rfl⟩
  · exact ⟨rfl, rfl⟩
  · exact ⟨rfl, rfl⟩

theorem Upgraded.once {first second third : LeVoiceTurnRecord} (h : Upgraded first second)
    (again : Upgraded second third) : third = second ∨ second = first := by
  rcases h with same | ⟨_, upgraded, _⟩
  · exact .inr same
  · rcases again with same | ⟨completed, _⟩
    · exact .inl same
    · exact absurd completed upgraded

theorem Upgraded.trans {first second third : LeVoiceTurnRecord} (h : Upgraded first second)
    (again : Upgraded second third) : Upgraded first third := by
  rcases h.once again with rfl | rfl
  · exact h
  · exact again

/-- The id of the `n`-th inserted record. -/
def idAt (n : Nat) : UInt64 :=
  UInt64.ofNat (n % (2 ^ 64 - 1) + 1)

theorem successor_idAt (n : Nat) : successor (idAt n) = idAt (n + 1) := by
  have small : n % (2 ^ 64 - 1) < 2 ^ 64 - 1 := Nat.mod_lt _ (by decide)
  apply UInt64.toNat_inj.mp
  by_cases wraps : n % (2 ^ 64 - 1) = 2 ^ 64 - 2
  · have next : (n + 1) % (2 ^ 64 - 1) = 0 := by omega
    rw [idAt, idAt, wraps, next]
    decide
  · have next : (n + 1) % (2 ^ 64 - 1) = n % (2 ^ 64 - 1) + 1 := by omega
    have value : (idAt n + 1).toNat = n % (2 ^ 64 - 1) + 2 := by
      simp only [idAt, UInt64.toNat_add, UInt64.toNat_ofNat', UInt64.toNat_one]
      omega
    have positive : idAt n + 1 ≠ 0 := by
      intro zero
      rw [zero] at value
      simp at value
    rw [successor, if_neg positive, value, idAt, next, UInt64.toNat_ofNat']
    omega

theorem idAt_lt {m n : Nat} (before : m < n) (fits : n < 2 ^ 64 - 1) : idAt m < idAt n := by
  rw [UInt64.lt_iff_toNat_lt]
  simp only [idAt, UInt64.toNat_ofNat']
  omega

/-! ### What the ring shows -/

structure VoiceRun.Sound (s : VoiceRun) : Prop where
  count : s.history.count = min s.live leVoiceHistoryCapacity
  live : s.live ≤ s.added.length
  shown : ∃ current, RecentTable.Newest s.history.records s.history.next current ∧
    List.Forall₂ Upgraded (s.added.take s.live) current
  nextId : s.history.nextId = idAt s.added.length
  ids : s.added.map LeVoiceTurnRecord.id = ((List.range s.added.length).map idAt).reverse

theorem VoiceRun.start_sound : VoiceRun.start.Sound where
  count := rfl
  live := Nat.le_refl 0
  shown := ⟨[], RecentTable.newest_nil _ _, .nil⟩
  nextId := by decide
  ids := rfl

theorem setStatus_cases (h : LeVoiceHistory) (generation id : UInt64) (status : Int)
    (reason : Bytes) :
    (leVoiceHistorySetStatus h generation id status reason).2 = h ∨
      generation = h.generation ∧ status ≠ leVoiceTurnCompleted ∧
        ∃ i < h.count,
          (h.records (RecentTable.place h.next i)).status = leVoiceTurnCompleted ∧
          (leVoiceHistorySetStatus h generation id status reason).2 =
            { h with
              records := Function.update h.records (RecentTable.place h.next i)
                (upgraded (h.records (RecentTable.place h.next i)) status reason) } := by
  unfold leVoiceHistorySetStatus
  split
  case isTrue => exact .inl rfl
  case isFalse =>
    split
    case isTrue => exact .inl rfl
    case isFalse current =>
      split
      case h_1 => exact .inl rfl
      case h_2 i found =>
        have among := List.mem_range.mp (List.mem_of_find?_eq_some found)
        dsimp only
        split
        case isTrue => exact .inl rfl
        case isFalse open_turn =>
          obtain ⟨completed, other⟩ := not_or.mp open_turn
          exact .inr ⟨not_not.mp current, other, i, among, not_not.mp completed, rfl⟩

theorem add_cases (h : LeVoiceHistory) (generation : UInt64) (clock : Bytes)
    (record : LeVoiceTurnRecord) :
    ((leVoiceHistoryAdd h generation clock record).1 ≠ 1 ∧
        (leVoiceHistoryAdd h generation clock record).2 = h) ∨
      generation = h.generation ∧
        leVoiceHistoryAdd h generation clock record =
          (1, storeNext h (storedRecord h.nextId clock record)) := by
  unfold leVoiceHistoryAdd
  split
  case isTrue => exact .inl ⟨by simp, rfl⟩
  case isFalse =>
    split
    case isTrue => exact .inl ⟨by simp, rfl⟩
    case isFalse current => exact .inr ⟨not_not.mp current, rfl⟩

theorem VoiceRun.Sound.stored {s : VoiceRun} (sound : s.Sound) (clock : Bytes)
    (record : LeVoiceTurnRecord) :
    VoiceRun.Sound
      { history := storeNext s.history (storedRecord s.history.nextId clock record)
        added := storedRecord s.history.nextId clock record :: s.added
        live := s.live + 1 } := by
  obtain ⟨current, newest, shown⟩ := sound.shown
  constructor
  case count =>
    have count := sound.count
    simp only [storeNext]
    split <;> omega
  case live => exact Nat.succ_le_succ sound.live
  case shown => exact ⟨_ :: current, newest.store _, .cons (.refl _) shown⟩
  case nextId =>
    have counted := sound.nextId
    simp only [storeNext, counted, successor_idAt, List.length_cons]
  case ids =>
    have same : (storedRecord s.history.nextId clock record).id = idAt s.added.length :=
      sound.nextId
    rw [List.map_cons, same, sound.ids, List.length_cons, List.range_succ, List.map_append,
      List.reverse_append]
    rfl

theorem VoiceRun.Sound.upgrade {s : VoiceRun} (sound : s.Sound) {i : Nat}
    (among : i < s.history.count) {status : Int} (reason : Bytes)
    (other : status ≠ leVoiceTurnCompleted)
    (completed : (s.history.records (RecentTable.place s.history.next i)).status =
      leVoiceTurnCompleted) :
    VoiceRun.Sound
      { s with
        history :=
          { s.history with
            records := Function.update s.history.records (RecentTable.place s.history.next i)
              (upgraded (s.history.records (RecentTable.place s.history.next i)) status
                reason) } } := by
  obtain ⟨current, newest, shown⟩ := sound.shown
  have count := sound.count
  have inside : i < leVoiceHistoryCapacity := by omega
  have length : current.length = s.live := by
    rw [← shown.length_eq, List.length_take, Nat.min_eq_left sound.live]
  have within : i < current.length := by omega
  have here : s.history.records (RecentTable.place s.history.next i) = current[i] :=
    newest i inside _ (List.getElem?_eq_getElem within)
  refine { sound with shown := ⟨_, newest.replace inside _, ?_⟩ }
  rw [List.forall₂_iff_get] at shown ⊢
  refine ⟨by rw [shown.1, List.length_set], fun k first second => ?_⟩
  rw [List.length_set] at second
  have before := shown.2 k first second
  simp only [List.get_eq_getElem] at before ⊢
  by_cases same : k = i
  · subst same
    rw [List.getElem_set_self]
    refine before.trans (.inr ⟨here ▸ completed, other, status, reason, ?_⟩)
    rw [here]
  · rw [List.getElem_set_ne (Ne.symm same)]
    exact before

theorem VoiceRun.Sound.step {s : VoiceRun} (sound : s.Sound) (op : VoiceOp) :
    (s.step op).Sound := by
  cases op with
  | add generation clock record =>
      rcases add_cases s.history generation clock record with ⟨other, same⟩ | ⟨_, stored⟩
      · simp only [VoiceRun.step, if_neg other, same]
        exact sound
      · simp only [VoiceRun.step, stored, if_true]
        exact sound.stored clock record
  | setStatus generation id status reason =>
      rcases setStatus_cases s.history generation id status reason with
        same | ⟨_, other, i, among, completed, changed⟩
      · simp only [VoiceRun.step, same]
        exact sound
      · simp only [VoiceRun.step, changed]
        exact sound.upgrade among reason other completed
  | clear =>
      have empty : List.Forall₂ Upgraded (s.added.take 0) [] := by
        rw [List.take_zero]
        exact .nil
      exact { sound with
        count := rfl
        live := Nat.zero_le _
        shown := ⟨[], RecentTable.newest_nil _ _, empty⟩ }

theorem VoiceRun.Sound.entry_step {s : VoiceRun} (sound : s.Sound) {op : VoiceOp} {n : Nat}
    {after : LeVoiceTurnRecord} (old : n < s.added.length)
    (shown : (s.step op).entry n = some after) :
    ∃ before, s.entry n = some before ∧ Upgraded before after := by
  cases op with
  | add generation clock record =>
      rcases add_cases s.history generation clock record with ⟨other, same⟩ | ⟨_, stored⟩
      · simp only [VoiceRun.step, if_neg other, same] at shown
        exact ⟨after, shown, .refl after⟩
      · simp only [VoiceRun.step, stored, if_true, VoiceRun.entry, List.length_cons,
          if_pos (Nat.lt_succ_of_lt old)] at shown
        have later : s.added.length + 1 - 1 - n = (s.added.length - 1 - n) + 1 := by omega
        rw [later, leVoiceHistoryAt] at shown
        have count := sound.count
        split at shown
        · cases shown
        · rename_i counted
          have inside : s.added.length - 1 - n + 1 < leVoiceHistoryCapacity ∧
              s.added.length - 1 - n < s.history.count := by
            simp only [storeNext] at counted
            split at counted <;> omega
          refine ⟨after, ?_, .refl after⟩
          rw [VoiceRun.entry, if_pos old, leVoiceHistoryAt, if_neg (by omega), ← shown]
          simp only [storeNext]
          rw [RecentTable.place_advance_succ _ inside.1,
            Function.update_of_ne (RecentTable.place_ne_next _ inside.1)]
  | setStatus generation id status reason =>
      rcases setStatus_cases s.history generation id status reason with
        same | ⟨_, other, i, among, completed, changed⟩
      · simp only [VoiceRun.step, same] at shown
        exact ⟨after, shown, .refl after⟩
      · simp only [VoiceRun.step, changed, VoiceRun.entry, if_pos old, leVoiceHistoryAt] at shown
        split at shown
        · cases shown
        · rename_i counted
          have count := sound.count
          have here := Option.some.inj shown
          refine ⟨_, by rw [VoiceRun.entry, if_pos old, leVoiceHistoryAt, if_neg counted], ?_⟩
          by_cases same : s.added.length - 1 - n = i
          · rw [same, Function.update_self] at here
            rw [same]
            exact .inr ⟨completed, here ▸ other, status, reason, here.symm⟩
          · have apart : RecentTable.place s.history.next (s.added.length - 1 - n) ≠
                RecentTable.place s.history.next i :=
              fun e => same (RecentTable.place_inj (by omega) (by omega) e)
            rw [Function.update_of_ne apart] at here
            exact .inl here.symm
  | clear =>
      simp only [VoiceRun.step, VoiceRun.entry, if_pos old, leVoiceHistoryClear,
        leVoiceHistoryAt, Nat.zero_le, if_true] at shown
      cases shown

theorem VoiceRun.added_step (s : VoiceRun) (op : VoiceOp) :
    s.added.length ≤ (s.step op).added.length := by
  cases op with
  | add =>
      simp only [VoiceRun.step]
      split
      · exact Nat.le_succ _
      · exact Nat.le_refl _
  | setStatus | clear => exact Nat.le_refl _

theorem VoiceRun.Sound.entry_run {s : VoiceRun} (sound : s.Sound) (ops : List VoiceOp) {n : Nat}
    {after : LeVoiceTurnRecord} (old : n < s.added.length)
    (shown : (s.run ops).entry n = some after) :
    ∃ before, s.entry n = some before ∧ Upgraded before after := by
  induction ops generalizing s with
  | nil => exact ⟨after, shown, .refl after⟩
  | cons op rest ih =>
      have kept := Nat.lt_of_lt_of_le old (s.added_step op)
      obtain ⟨middle, seen, later⟩ := ih (sound.step op) kept shown
      obtain ⟨before, first, earlier⟩ := sound.entry_step old seen
      exact ⟨before, first, earlier.trans later⟩

theorem VoiceRun.step_stale (s : VoiceRun) {op : VoiceOp} {generation : UInt64}
    (carries : op.generation? = some generation) (stale : generation ≠ s.history.generation) :
    s.step op = s := by
  cases op with
  | add carried clock record =>
      obtain rfl := Option.some.inj carries
      rcases add_cases s.history carried clock record with ⟨other, same⟩ | ⟨current, _⟩
      · simp only [VoiceRun.step, if_neg other, same]
      · exact absurd current stale
  | setStatus carried id status reason =>
      obtain rfl := Option.some.inj carries
      rcases setStatus_cases s.history carried id status reason with same | ⟨current, _⟩
      · simp only [VoiceRun.step, same]
      · exact absurd current stale
  | clear => cases carries

theorem VoiceRun.run_sound (ops : List VoiceOp) : (VoiceRun.start.run ops).Sound :=
  Runs.run_invariant_always VoiceRun.step (fun _ op sound => sound.step op) start_sound ops

/-! ### The log of a whole run -/

theorem VoiceRun.Sound.increasing {s : VoiceRun} (sound : s.Sound)
    (few : s.added.length < 2 ^ 64) :
    s.added.Pairwise fun newer older => older.id < newer.id := by
  have ids := sound.ids
  have pairs : (s.added.map LeVoiceTurnRecord.id).Pairwise fun newer older => older < newer := by
    rw [ids, List.pairwise_reverse, List.pairwise_map]
    refine List.pairwise_lt_range.imp_of_mem fun {m n} _ among before => ?_
    exact idAt_lt before (by have := List.mem_range.mp among; omega)
  exact List.pairwise_map.mp pairs

theorem VoiceRun.Sound.shown_at {s : VoiceRun} (sound : s.Sound) {k : Nat}
    (among : k < s.history.count) :
    ∃ inserted record, s.added[k]? = some inserted ∧
      leVoiceHistoryAt s.history k = some record ∧ Upgraded inserted record := by
  obtain ⟨current, newest, shown⟩ := sound.shown
  have count := sound.count
  rw [List.forall₂_iff_get] at shown
  have length : (s.added.take s.live).length = s.live := by
    rw [List.length_take, Nat.min_eq_left sound.live]
  have inserted : k < (s.added.take s.live).length := by omega
  have present : k < current.length := by omega
  refine ⟨_, _, ?_, ?_, shown.2 k inserted present⟩
  · rw [List.get_eq_getElem, List.getElem_take]
    exact List.getElem?_eq_getElem _
  · rw [leVoiceHistoryAt, if_neg (by omega), List.get_eq_getElem]
    exact congrArg some (newest k (by omega) _ (List.getElem?_eq_getElem present))

theorem VoiceRun.Sound.entry_upgraded {s : VoiceRun} (sound : s.Sound) {n : Nat}
    {record : LeVoiceTurnRecord} (shown : s.entry n = some record) :
    ∃ inserted, s.added.reverse[n]? = some inserted ∧ Upgraded inserted record := by
  rw [VoiceRun.entry] at shown
  split at shown
  case isFalse => cases shown
  case isTrue old =>
    have among : s.added.length - 1 - n < s.history.count := by
      by_contra dropped
      rw [leVoiceHistoryAt, if_pos (Nat.not_lt.mp dropped)] at shown
      cases shown
    obtain ⟨inserted, present, first, seen, upgraded⟩ := sound.shown_at among
    rw [seen] at shown
    refine ⟨inserted, ?_, Option.some.inj shown ▸ upgraded⟩
    rw [List.getElem?_reverse old, first]

/-- The ring as a log: its content, its ids, its generations and its records over time. -/
structure ExactLog (s : VoiceRun) : Prop where
  count : s.history.count = min s.live leVoiceHistoryCapacity
  shown : ∀ k < s.history.count, ∃ inserted record, s.added[k]? = some inserted ∧
    leVoiceHistoryAt s.history k = some record ∧ Upgraded inserted record
  /-- The ids count from 1 to 2^64 - 1 and then from 1 again. -/
  ids : s.added.map LeVoiceTurnRecord.id = ((List.range s.added.length).map idAt).reverse
  increasing : s.added.length < 2 ^ 64 →
    s.added.Pairwise fun newer older => older.id < newer.id
  stale : ∀ op generation, VoiceOp.generation? op = some generation →
    generation ≠ s.history.generation → s.step op = s
  /-- Later a record is as it was or upgraded from the state it was inserted in. -/
  kept : ∀ later n after, n < s.added.length → (s.run later).entry n = some after →
    ∃ before, s.entry n = some before ∧ after.id = before.id ∧
      after.timestamp = before.timestamp ∧ Upgraded before after ∧
        (after = before ∨ s.added.reverse[n]? = some before)

theorem voiceHistory_exactLog (ops : List VoiceOp) : ExactLog (VoiceRun.start.run ops) := by
  have sound := VoiceRun.run_sound ops
  refine ⟨sound.count, fun k => sound.shown_at, sound.ids, sound.increasing,
    fun op generation => VoiceRun.step_stale _, ?_⟩
  intro later n after old seen
  obtain ⟨before, shown, upgraded⟩ := sound.entry_run later old seen
  obtain ⟨inserted, first, earlier⟩ := sound.entry_upgraded shown
  refine ⟨before, shown, upgraded.id.1, upgraded.id.2, upgraded, ?_⟩
  exact (earlier.once upgraded).imp_right fun same => by rw [same, first]

def completedTurn : LeVoiceTurnRecord :=
  { LeVoiceTurnRecord.cleared with status := leVoiceTurnCompleted }

theorem step_completedTurn (s : VoiceRun) (current : s.history.generation = 1) :
    (s.step (.add 1 [] completedTurn)).added.length = s.added.length + 1 ∧
      (s.step (.add 1 [] completedTurn)).history.generation = 1 := by
  have valid : leVoiceTurnStatusValid completedTurn.status = true := by decide
  have added : leVoiceHistoryAdd s.history 1 [] completedTurn =
      (1, storeNext s.history (storedRecord s.history.nextId [] completedTurn)) := by
    rw [leVoiceHistoryAdd, valid, current]
    rfl
  simp only [VoiceRun.step, added, if_true]
  exact ⟨List.length_cons, current⟩

theorem added_replicate (n : Nat) :
    (VoiceRun.start.run (List.replicate n (.add 1 [] completedTurn))).added.length = n ∧
      (VoiceRun.start.run (List.replicate n (.add 1 [] completedTurn))).history.generation = 1 := by
  induction n with
  | zero => exact ⟨rfl, rfl⟩
  | succ n ih =>
      have stepped := step_completedTurn _ ih.2
      rw [List.replicate_succ', VoiceRun.run, Runs.run_concat]
      exact ⟨stepped.1.trans (congrArg (· + 1) ih.1), stepped.2⟩

/-- The insertion after 2^64 - 1 others takes id 1 again. -/
theorem voiceHistory_exactLog_wraps :
    ¬∀ ops : List VoiceOp, (VoiceRun.start.run ops).added.Pairwise
      fun newer older => older.id < newer.id := by
  intro all
  have increasing := all (List.replicate (2 ^ 64) (.add 1 [] completedTurn))
  have ids := (VoiceRun.run_sound (List.replicate (2 ^ 64) (.add 1 [] completedTurn))).ids
  have length := (added_replicate (2 ^ 64)).1
  generalize VoiceRun.start.run (List.replicate (2 ^ 64) (.add 1 [] completedTurn)) = s at *
  have pairs : (s.added.map LeVoiceTurnRecord.id).Pairwise fun newer older => older < newer :=
    List.pairwise_map.mpr increasing
  rw [ids, length, List.pairwise_reverse, List.pairwise_map] at pairs
  have first_last := List.pairwise_iff_getElem.mp pairs 0 (2 ^ 64 - 1)
    (by rw [List.length_range]; decide) (by rw [List.length_range]; decide) (by decide)
  simp only [List.getElem_range] at first_last
  revert first_last
  decide

end LibreEcho.Voice
