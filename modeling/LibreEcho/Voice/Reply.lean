import LibreEcho.Lib.ByteText
import Mathlib

/-!
The segments of a spoken reply, as `voice_reply.c` cuts them.

The reply comes in deltas; the cutting looks at one byte after another, so it does not see where a
delta ends.
-/
namespace LibreEcho.Voice
open ByteText

def leVoiceReplySegmentMax : Nat := 4096
def leVoiceReplyFirstSoftLimit : Nat := 32
def leVoiceReplyFirstHardLimit : Nat := 48

/-- The pending text, the count of emitted segments, and all texts given to the callback. -/
structure VoiceReply where
  pending : List UInt8
  emitted : Nat
  given : List (List UInt8)

def VoiceReply.init : VoiceReply where
  pending := []
  emitted := 0
  given := []

def trim (text : List UInt8) : List UInt8 :=
  (text.dropWhile isSpace).rdropWhile isSpace

/-- What `emit_pending` returns and leaves; `emit` answers the callback by the number of the call. -/
def emitPending (emit : Nat → Int) (reply : VoiceReply) : Int × VoiceReply :=
  let text := trim reply.pending
  if text = [] then (0, { reply with pending := [] })
  else
    let result := emit reply.given.length
    (result, {
      pending := []
      emitted := if result = 0 then reply.emitted + 1 else reply.emitted
      given := reply.given ++ [text] })

/-- Emits where the condition holds; `none` is a refusal by the callback. -/
def emitIf (emit : Nat → Int) (cut : Bool) (reply : VoiceReply) : Option VoiceReply :=
  if cut then
    let (result, reply) := emitPending emit reply
    if result = 0 then some reply else none
  else some reply

def sentenceEnd (c : UInt8) : Bool :=
  c == 0x2E || c == 0x3F || c == 0x21

/-- `;` or `:` -/
def clauseEnd (c : UInt8) : Bool :=
  c == 0x3B || c == 0x3A

def firstPhraseEnd (reply : VoiceReply) (c : UInt8) : Bool :=
  reply.emitted == 0 &&
    (((c == 0x2C || clauseEnd c) && leVoiceReplyFirstSoftLimit ≤ reply.pending.length) ||
      (isSpace c && leVoiceReplyFirstHardLimit ≤ reply.pending.length))

def laterClauseEnd (reply : VoiceReply) (c : UInt8) : Bool :=
  reply.emitted != 0 && clauseEnd c && 120 ≤ reply.pending.length

def feedByte (emit : Nat → Int) (reply : VoiceReply) (c : UInt8) : Option VoiceReply :=
  (emitIf emit (leVoiceReplySegmentMax ≤ reply.pending.length + 1) reply).bind fun reply =>
    let reply := { reply with pending := reply.pending ++ [c] }
    (emitIf emit (sentenceEnd c) reply).bind fun reply =>
      (emitIf emit (firstPhraseEnd reply c) reply).bind fun reply =>
        emitIf emit (laterClauseEnd reply c) reply

def deltaText (delta : List UInt8) : List UInt8 :=
  delta.takeWhile (· ≠ 0)

def leVoiceReplyFeed (emit : Nat → Int) (reply : VoiceReply) (delta : List UInt8) :
    Option VoiceReply :=
  (deltaText delta).foldlM (feedByte emit) reply

def leVoiceReplyFinish (emit : Nat → Int) (reply : VoiceReply) : Option VoiceReply :=
  emitIf emit true reply

/-- The texts given to the callback for a reply in these deltas. -/
def replySegments (emit : Nat → Int) (deltas : List (List UInt8)) : Option (List (List UInt8)) :=
  ((deltas.foldlM (leVoiceReplyFeed emit) .init).bind (leVoiceReplyFinish emit)).map
    VoiceReply.given

/-! ### Trimming -/

def Trimmed (text : List UInt8) : Prop :=
  (∀ c ∈ text.head?, isSpace c = false) ∧ ∀ c ∈ text.getLast?, isSpace c = false

def solid (text : List UInt8) : List UInt8 :=
  text.filter fun c => !isSpace c

theorem solid_append (front back : List UInt8) : solid (front ++ back) = solid front ++ solid back :=
  List.filter_append ..

theorem solid_dropWhile (text : List UInt8) : solid (text.dropWhile isSpace) = solid text := by
  induction text with
  | nil => rfl
  | cons c text ih =>
      by_cases space : isSpace c = true
      · rw [List.dropWhile_cons_of_pos space, ih, solid, solid, List.filter_cons_of_neg (by simp [space])]
      · rw [List.dropWhile_cons_of_neg space]

theorem solid_reverse (text : List UInt8) : solid text.reverse = (solid text).reverse :=
  List.filter_reverse ..

theorem solid_trim (text : List UInt8) : solid (trim text) = solid text := by
  rw [trim, List.rdropWhile, solid_reverse, solid_dropWhile, solid_reverse, solid_dropWhile,
    List.reverse_reverse]

theorem trim_length (text : List UInt8) : (trim text).length ≤ text.length :=
  (List.rdropWhile_prefix _ _).length_le.trans (List.dropWhile_sublist _).length_le

theorem trim_trimmed (text : List UInt8) : Trimmed (trim text) := by
  refine ⟨fun c first => ?_, fun c last => ?_⟩
  · obtain ⟨rest, whole⟩ := List.rdropWhile_prefix isSpace (text.dropWhile isSpace)
    have start : (text.dropWhile isSpace).head? = some c := by
      rw [← whole, List.head?_append, show ((text.dropWhile isSpace).rdropWhile isSpace).head? = some c
        from first]
      rfl
    have stop := List.head?_dropWhile_not isSpace text
    rw [start] at stop
    exact stop
  · have filled : trim text ≠ [] := by
      intro none
      rw [none] at last
      cases last
    rw [List.getLast?_eq_some_getLast filled] at last
    have stop := List.rdropWhile_last_not isSpace _ filled
    rw [Option.mem_def, Option.some.injEq] at last
    exact Bool.eq_false_iff.mpr (last ▸ stop)

/-! ### The segments -/

def takes (_ : Nat) : Int := 0

structure Segmented (text : List UInt8) (reply : VoiceReply) : Prop where
  bytes : solid (reply.given.flatten ++ reply.pending) = solid text
  room : reply.pending.length < leVoiceReplySegmentMax
  segments : ∀ s ∈ reply.given, s ≠ [] ∧ Trimmed s ∧ s.length < leVoiceReplySegmentMax

variable {text : List UInt8} {reply : VoiceReply}

theorem emitPending_segmented (before : Segmented text reply) :
    (emitPending takes reply).1 = 0 ∧ Segmented text (emitPending takes reply).2 ∧
      (emitPending takes reply).2.pending = [] := by
  have bytes := before.bytes
  rw [solid_append, ← solid_trim reply.pending, ← solid_append] at bytes
  rw [emitPending]
  dsimp only
  split
  case isTrue blank =>
    rw [blank] at bytes
    exact ⟨rfl, ⟨bytes, show 0 < leVoiceReplySegmentMax by decide, before.segments⟩, rfl⟩
  case isFalse filled =>
    refine ⟨rfl, ⟨?_, show 0 < leVoiceReplySegmentMax by decide, fun s inside => ?_⟩, rfl⟩
    · rw [List.append_nil, List.flatten_append, List.flatten_singleton]
      exact bytes
    · rcases List.mem_append.mp inside with old | new
      · exact before.segments s old
      · rw [List.mem_singleton.mp new]
        exact ⟨filled, trim_trimmed _, Nat.lt_of_le_of_lt (trim_length _) before.room⟩

theorem emitIf_segmented (cut : Bool) (before : Segmented text reply) :
    ∃ later, emitIf takes cut reply = some later ∧ Segmented text later ∧
      (later.pending = [] ∨ cut = false ∧ later = reply) := by
  obtain ⟨taken, after, empty⟩ := emitPending_segmented before
  cases cut with
  | false => exact ⟨reply, rfl, before, .inr ⟨rfl, rfl⟩⟩
  | true =>
      refine ⟨_, ?_, after, .inl empty⟩
      rw [emitIf, if_pos rfl]
      dsimp only
      rw [if_pos taken]

theorem feedByte_segmented (before : Segmented text reply) (c : UInt8) :
    ∃ later, feedByte takes reply c = some later ∧ Segmented (text ++ [c]) later := by
  rw [feedByte]
  obtain ⟨first, made, cut, room⟩ :=
    emitIf_segmented (leVoiceReplySegmentMax ≤ reply.pending.length + 1) before
  rw [made, Option.bind_some]
  dsimp only
  have fits : first.pending.length + 1 < leVoiceReplySegmentMax := by
    rcases room with empty | ⟨short, rfl⟩
    · rw [empty]
      decide
    · exact Nat.lt_of_not_le (of_decide_eq_false short)
  have pushed : Segmented (text ++ [c]) { first with pending := first.pending ++ [c] } := by
    refine ⟨?_, ?_, cut.segments⟩
    · rw [← List.append_assoc, solid_append, cut.bytes, solid_append]
    · rw [List.length_append]
      exact fits
  obtain ⟨second, made, sentence, -⟩ := emitIf_segmented (sentenceEnd c) pushed
  rw [made, Option.bind_some]
  obtain ⟨third, made, phrase, -⟩ := emitIf_segmented (firstPhraseEnd second c) sentence
  rw [made, Option.bind_some]
  obtain ⟨last, made, clause, -⟩ := emitIf_segmented (laterClauseEnd third c) phrase
  exact ⟨last, made, clause⟩

theorem feed_segmented (before : Segmented text reply) (bytes : List UInt8) :
    ∃ later, bytes.foldlM (feedByte takes) reply = some later ∧ Segmented (text ++ bytes) later := by
  induction bytes generalizing text reply with
  | nil => exact ⟨reply, rfl, by rwa [List.append_nil]⟩
  | cons c bytes ih =>
      obtain ⟨later, fed, after⟩ := feedByte_segmented before c
      obtain ⟨last, done, all⟩ := ih after
      refine ⟨last, ?_, by rwa [List.append_assoc] at all⟩
      rw [List.foldlM_cons, fed]
      exact done

def replyText (deltas : List (List UInt8)) : List UInt8 :=
  deltas.flatMap deltaText

theorem deltaText_mem {delta : List UInt8} {c : UInt8} (inside : c ∈ deltaText delta) : c ≠ 0 := by
  simpa using List.mem_takeWhile_imp inside

theorem deltaText_replyText (deltas : List (List UInt8)) :
    deltaText (replyText deltas) = replyText deltas := by
  refine List.takeWhile_eq_self_iff.mpr fun c inside => ?_
  obtain ⟨delta, -, here⟩ := List.mem_flatMap.mp inside
  simpa using deltaText_mem here

theorem feed_deltas (emit : Nat → Int) (deltas : List (List UInt8)) (reply : VoiceReply) :
    deltas.foldlM (leVoiceReplyFeed emit) reply =
      (replyText deltas).foldlM (feedByte emit) reply := by
  induction deltas generalizing reply with
  | nil => rfl
  | cons delta deltas ih =>
      rw [List.foldlM_cons, replyText, List.flatMap_cons, List.foldlM_append]
      exact bind_congr fun later => ih later

theorem replySegments_eq (emit : Nat → Int) (deltas : List (List UInt8)) :
    replySegments emit deltas = (((replyText deltas).foldlM (feedByte emit) .init).bind
      (leVoiceReplyFinish emit)).map VoiceReply.given := by
  rw [replySegments, feed_deltas]

/-- The segments are those of the text in one delta, whatever the callback answers; if it takes
them all, they are trimmed, fit the buffer, and hold the text up to white space. -/
theorem replySegments_law (deltas : List (List UInt8)) :
    (∀ emit, replySegments emit deltas = replySegments emit [replyText deltas]) ∧
    ∃ segments, replySegments takes deltas = some segments ∧
      (∀ s ∈ segments, s ≠ [] ∧ Trimmed s ∧ s.length < leVoiceReplySegmentMax) ∧
      solid segments.flatten = solid (replyText deltas) := by
  refine ⟨fun emit => ?_, ?_⟩
  · rw [replySegments_eq, replySegments_eq]
    have one : replyText [replyText deltas] = replyText deltas := by
      rw [replyText, List.flatMap_singleton, deltaText_replyText]
    rw [one]
  · have begun : Segmented [] .init := ⟨rfl, by decide, nofun⟩
    obtain ⟨fed, made, all⟩ := feed_segmented begun (replyText deltas)
    rw [List.nil_append] at all
    obtain ⟨last, finished, done, empty⟩ := emitIf_segmented true all
    rw [replySegments_eq, made, Option.bind_some, leVoiceReplyFinish, finished]
    refine ⟨last.given, rfl, done.segments, ?_⟩
    have bytes := done.bytes
    rwa [empty.resolve_right nofun, List.append_nil] at bytes

end LibreEcho.Voice
