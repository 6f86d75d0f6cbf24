import LibreEcho.Lib.MaskedFrames
import LibreEcho.Ws.Client
import Mathlib

/-!
The sending half of the WebSocket client: `send_frame` writes one masked frame.

The payload is masked in a scratch buffer, one piece after another; the place in the mask is
counted from the start of the payload.
-/
namespace LibreEcho.Ws
open MaskedFrames (Key cover lengthForm wide)

/-- What `send` of the stream answers: bytes taken, 0, not right now, or an error, which an elapsed
deadline turns "not right now" into. -/
inductive SendAnswer where
  | took (more : Nat)
  | zero
  | later
  | failed
deriving DecidableEq, Repr

/-- The outcome of `write_all` and what the stream has taken. -/
structure Written where
  ok : Bool
  bytes : Bytes
  answers : List SendAnswer

/-- `took more` takes at least one byte. -/
def writeAll : List SendAnswer → Bytes → Written
  | answers, [] => ⟨true, [], answers⟩
  | [], _ :: _ => ⟨false, [], []⟩
  | .took more :: answers, c :: rest =>
      let later := writeAll answers (rest.drop more)
      { later with bytes := c :: rest.take more ++ later.bytes }
  | .zero :: answers, _ :: _ => ⟨false, [], answers⟩
  | .later :: answers, c :: rest => writeAll answers (c :: rest)
  | .failed :: answers, _ :: _ => ⟨false, [], answers⟩

def scratchSize : Nat := 512

/-- The second byte of the header and the longer forms of the length. -/
def headerLength (length : Nat) : Bytes :=
  if length < 126 then [.ofNat (0x80 ||| length)]
  else if length ≤ 0xFFFF then [.ofNat (0x80 ||| 126), .ofNat (length >>> 8), .ofNat length]
  else .ofNat (0x80 ||| 127) :: (List.range 8).map fun i => .ofNat (length >>> (56 - i * 8))

def sendHeader (opcode length : Nat) (mask : Key) : Bytes :=
  .ofNat (0x80 ||| opcode) :: (headerLength length ++ List.ofFn mask)

def sendPieces (mask : Key) (body : Bytes) (offset : Nat) (answers : List SendAnswer) : Written :=
  if _left : offset < body.length then
    let chunk := min (body.length - offset) scratchSize
    let scratch := (List.range chunk).map fun i =>
      body.getD (offset + i) 0 ^^^ mask ⟨(offset + i) % 4, Nat.mod_lt _ (by decide)⟩
    let wrote := writeAll answers scratch
    if wrote.ok then
      let later := sendPieces mask body (offset + scratchSize) wrote.answers
      { later with bytes := wrote.bytes ++ later.bytes }
    else wrote
  else ⟨true, [], answers⟩
termination_by body.length - offset
decreasing_by
  rw [scratchSize]
  omega

/-- The result, what went to the stream, and the counters of `struct le_ws`. -/
structure Sending where
  result : Int
  written : Bytes
  framesOut : Nat
  bytesOut : Nat

/-- `random` is what `random_bytes` fills the mask with, if it does. -/
def sendFrame (connected : Bool) (random : Option Key) (answers : List SendAnswer)
    (framesOut bytesOut opcode : Nat) (payload : Bytes) : Sending :=
  if ¬connected ∨ leWsMaxPayload < payload.length then ⟨-1, [], framesOut, bytesOut⟩
  else
    match random with
    | none => ⟨-1, [], framesOut, bytesOut⟩
    | some mask =>
        let header := sendHeader opcode payload.length mask
        let wrote := writeAll answers header
        if wrote.ok then
          let body := sendPieces mask payload 0 wrote.answers
          if body.ok then
            ⟨0, wrote.bytes ++ body.bytes, framesOut + 1, bytesOut + (header.length + payload.length)⟩
          else ⟨-1, wrote.bytes ++ body.bytes, framesOut, bytesOut⟩
        else ⟨-1, wrote.bytes, framesOut, bytesOut⟩

/-! ### Writing -/

theorem writeAll_front (answers : List SendAnswer) (buffer : Bytes) :
    (writeAll answers buffer).bytes <+: buffer ∧
      ((writeAll answers buffer).ok = true → (writeAll answers buffer).bytes = buffer) := by
  induction answers generalizing buffer with
  | nil =>
      cases buffer with
      | nil => exact ⟨List.nil_prefix, fun _ => rfl⟩
      | cons c rest => exact ⟨List.nil_prefix, nofun⟩
  | cons answer answers ih =>
      cases buffer with
      | nil => exact ⟨List.nil_prefix, fun _ => rfl⟩
      | cons c rest =>
          cases answer with
          | took more =>
              obtain ⟨front, whole⟩ := ih (rest.drop more)
              rw [writeAll]
              refine ⟨?_, fun ok => ?_⟩
              · have split : c :: rest = c :: rest.take more ++ rest.drop more := by
                  rw [List.cons_append, List.take_append_drop]
                rw [split]
                exact (List.prefix_append_right_inj _).mpr front
              · rw [whole ok, List.cons_append, List.take_append_drop]
          | zero | failed => exact ⟨List.nil_prefix, nofun⟩
          | later => exact ih (c :: rest)

/-- How many bytes at least the answers take before the stream gives up. -/
def taking : List SendAnswer → Nat
  | .took _ :: answers => taking answers + 1
  | .later :: answers => taking answers
  | _ => 0

theorem writeAll_taking {answers : List SendAnswer} {buffer : Bytes}
    (enough : buffer.length ≤ taking answers) : (writeAll answers buffer).ok = true ∧
      taking answers ≤ taking (writeAll answers buffer).answers + buffer.length := by
  induction answers generalizing buffer with
  | nil =>
      cases buffer with
      | nil => exact ⟨rfl, Nat.le_refl _⟩
      | cons c rest => exact absurd enough (Nat.not_succ_le_zero _)
  | cons answer answers ih =>
      cases buffer with
      | nil => exact ⟨rfl, Nat.le_refl _⟩
      | cons c rest =>
          cases answer with
          | took more =>
              rw [taking, List.length_cons] at enough
              have shorter : (rest.drop more).length ≤ rest.length := by
                rw [List.length_drop]
                exact Nat.sub_le _ _
              obtain ⟨ok, left⟩ := @ih (rest.drop more) (by omega)
              rw [writeAll, taking, List.length_cons]
              exact ⟨ok, by dsimp only; omega⟩
          | zero | failed => exact absurd enough (Nat.not_succ_le_zero _)
          | later => exact ih enough

/-! ### Masking -/

theorem scratch_cover (mask : Key) (body : Bytes) {offset chunk : Nat}
    (inside : offset + chunk ≤ body.length) :
    ((List.range chunk).map fun i =>
        body.getD (offset + i) 0 ^^^ mask ⟨(offset + i) % 4, Nat.mod_lt _ (by decide)⟩) =
      ((cover mask body).drop offset).take chunk := by
  have length := MaskedFrames.cover_length mask body
  refine List.ext_getElem ?_ fun i first second => ?_
  · rw [List.length_map, List.length_range, List.length_take, List.length_drop, length]
    omega
  · rw [List.length_map, List.length_range] at first
    rw [List.getElem_map, List.getElem_range, List.getElem_take, List.getElem_drop]
    simp only [cover, List.getElem_mapIdx]
    rw [List.getD_eq_getElem _ _ (by omega)]

theorem sendPieces_front (mask : Key) (body : Bytes) (offset : Nat) (answers : List SendAnswer) :
    (sendPieces mask body offset answers).bytes <+: (cover mask body).drop offset ∧
      ((sendPieces mask body offset answers).ok = true →
        (sendPieces mask body offset answers).bytes = (cover mask body).drop offset) := by
  have length := MaskedFrames.cover_length mask body
  induction offset, answers using sendPieces.induct mask body with
  | case1 offset answers left chunk scratch wrote ok ih =>
      rw [sendPieces, dif_pos left]
      dsimp only
      rw [if_pos ok]
      have piece : scratch = ((cover mask body).drop offset).take chunk :=
        scratch_cover mask body (by omega)
      have split : (cover mask body).drop offset =
          wrote.bytes ++ (cover mask body).drop (offset + scratchSize) := by
        rw [(writeAll_front answers scratch).2 ok, piece, ← List.drop_drop]
        by_cases last : body.length - offset ≤ scratchSize
        · have whole : ((cover mask body).drop offset).length ≤ chunk := by
            rw [List.length_drop, length]
            omega
          have none : (((cover mask body).drop offset).drop scratchSize) = [] := by
            refine List.drop_eq_nil_of_le ?_
            rwa [List.length_drop, length]
          rw [List.take_of_length_le whole, none, List.append_nil]
        · have whole : chunk = scratchSize := by omega
          rw [whole, List.take_append_drop]
      obtain ⟨front, done⟩ := ih
      rw [split]
      exact ⟨(List.prefix_append_right_inj _).mpr front, fun ok => congrArg _ (done ok)⟩
  | case2 offset answers left chunk scratch wrote failed =>
      rw [sendPieces, dif_pos left]
      dsimp only
      rw [if_neg failed]
      have piece : scratch = ((cover mask body).drop offset).take chunk :=
        scratch_cover mask body (by omega)
      refine ⟨(writeAll_front answers scratch).1.trans ?_, fun ok => absurd ok failed⟩
      rw [piece]
      exact List.take_prefix _ _
  | case3 offset answers done =>
      rw [sendPieces, dif_neg done, List.drop_eq_nil_of_le (by omega)]
      exact ⟨List.nil_prefix, fun _ => rfl⟩

theorem sendPieces_taking {mask : Key} {body : Bytes} {offset : Nat} {answers : List SendAnswer}
    (enough : body.length - offset ≤ taking answers) :
    (sendPieces mask body offset answers).ok = true := by
  induction offset, answers using sendPieces.induct mask body with
  | case1 offset answers left chunk scratch wrote ok ih =>
      rw [sendPieces, dif_pos left]
      dsimp only
      rw [if_pos ok]
      have count : scratch.length = chunk := by
        rw [List.length_map, List.length_range]
      have left := (@writeAll_taking answers scratch (by omega)).2
      refine ih ?_
      change _ ≤ taking (writeAll answers scratch).answers
      omega
  | case2 offset answers left chunk scratch wrote failed =>
      have count : scratch.length = chunk := by
        rw [List.length_map, List.length_range]
      exact absurd (@writeAll_taking answers scratch (by omega)).1 failed
  | case3 offset answers done => rw [sendPieces, dif_neg done]

/-! ### The frame -/

theorem headerLength_form {length : Nat} (fits : length ≤ leWsMaxPayload) : ∃ second : UInt8,
    headerLength length = second :: (lengthForm length).2 ∧
      second.toNat = 128 + (lengthForm length).1 := by
  rw [headerLength, lengthForm]
  split
  case isTrue short =>
    have all : ∀ n : Fin 126, (UInt8.ofNat (0x80 ||| n.val)).toNat = 128 + n.val := by decide +kernel
    exact ⟨_, rfl, all ⟨length, short⟩⟩
  case isFalse long =>
    split
    case isTrue middle =>
      rw [if_pos (by omega)]
      refine ⟨.ofNat (0x80 ||| 126), ?_, rfl⟩
      rw [wide, Nat.shiftRight_eq_div_pow]
      rfl
    case isFalse large =>
      have one : length = 65536 := by
        rw [leWsMaxPayload] at fits
        omega
      subst one
      exact ⟨_, rfl, rfl⟩

theorem opcode_byte {opcode : Nat} (four : opcode < 16) :
    (128 ≤ (UInt8.ofNat (0x80 ||| opcode)).toNat) ∧
      (UInt8.ofNat (0x80 ||| opcode)).toNat / 16 % 8 = 0 ∧
      (UInt8.ofNat (0x80 ||| opcode)).toNat % 16 = opcode := by
  have all : ∀ n : Fin 16, (128 ≤ (UInt8.ofNat (0x80 ||| n.val)).toNat) ∧
      (UInt8.ofNat (0x80 ||| n.val)).toNat / 16 % 8 = 0 ∧
      (UInt8.ofNat (0x80 ||| n.val)).toNat % 16 = n.val := by decide +kernel
  exact all ⟨opcode, four⟩

theorem readFrame_sent {opcode : Nat} (four : opcode < 16) {payload : Bytes}
    (fits : payload.length ≤ leWsMaxPayload) (mask : Key) (rest : Bytes) :
    MaskedFrames.readFrame (sendHeader opcode payload.length mask ++ (cover mask payload ++ rest)) =
      some (⟨true, 0, opcode, some mask, payload⟩, rest) := by
  obtain ⟨second, form, short⟩ := headerLength_form fits
  obtain ⟨fin, reserved, same⟩ := opcode_byte four
  have wide : payload.length < 2 ^ 64 := by
    rw [leWsMaxPayload] at fits
    omega
  have read := @MaskedFrames.readFrame_masked (.ofNat (0x80 ||| opcode)) second _ payload mask rfl wide
    short rest
  rw [sendHeader, form, List.cons_append, List.cons_append, List.cons_append, List.append_assoc]
  rw [read, decide_eq_true fin, reserved, same]

theorem sendHeader_length (opcode length : Nat) (mask : Key) :
    (sendHeader opcode length mask).length ≤ 14 := by
  rw [sendHeader, List.length_cons, List.length_append, List.length_ofFn, headerLength]
  split
  · exact (by decide : 1 + 4 + 1 ≤ 14)
  · split
    · exact (by decide : 3 + 4 + 1 ≤ 14)
    · exact (by decide : 9 + 4 + 1 ≤ 14)

/-- A call that succeeds has written one masked frame of the payload, any other one the front of
it; it succeeds if the stream takes bytes, and beyond the limit it writes nothing. -/
theorem sendFrame_oneFrame (mask : Key) (answers : List SendAnswer) (framesOut bytesOut : Nat)
    {opcode : Nat} (used : opcode ∈ [opcodeText, opcodeClose, opcodePong]) (payload : Bytes) :
    let sent := sendFrame true (some mask) answers framesOut bytesOut opcode payload
    (payload.length ≤ leWsMaxPayload →
      (sent.result = 0 → ∀ rest, MaskedFrames.readFrame (sent.written ++ rest) =
        some (⟨true, 0, opcode, some mask, payload⟩, rest)) ∧
      sent.written <+: sendHeader opcode payload.length mask ++ cover mask payload ∧
      (14 + payload.length ≤ taking answers → sent.result = 0)) ∧
    (leWsMaxPayload < payload.length → sent.result = -1 ∧ sent.written = []) := by
  intro sent
  have four : opcode < 16 := (by decide : ∀ n ∈ [opcodeText, opcodeClose, opcodePong], n < 16) _ used
  refine ⟨fun fits => ?_, fun large => ?_⟩
  · have read := fun rest => readFrame_sent four fits mask rest
    have short := sendHeader_length opcode payload.length mask
    obtain ⟨headFront, headWhole⟩ := writeAll_front answers (sendHeader opcode payload.length mask)
    obtain ⟨bodyFront, bodyWhole⟩ := sendPieces_front mask payload 0
      (writeAll answers (sendHeader opcode payload.length mask)).answers
    rw [List.drop_zero] at bodyFront bodyWhole
    have eq : sent = sendFrame true (some mask) answers framesOut bytesOut opcode payload := rfl
    rw [sendFrame, if_neg (by simp only [not_true, false_or]; omega)] at eq
    dsimp only at eq
    split at eq
    case isTrue head =>
      rw [headWhole head] at eq
      have front := (List.prefix_append_right_inj (sendHeader opcode payload.length mask)).mpr bodyFront
      split at eq
      case isTrue body =>
        rw [bodyWhole body] at eq front
        rw [eq]
        refine ⟨fun _ rest => ?_, front, fun _ => rfl⟩
        rw [List.append_assoc, read rest]
      case isFalse stuck =>
        rw [eq]
        refine ⟨nofun, front, fun enough => absurd (sendPieces_taking ?_) stuck⟩
        have left := (@writeAll_taking answers (sendHeader opcode payload.length mask) (by omega)).2
        omega
    case isFalse stuck =>
      rw [eq]
      refine ⟨nofun, headFront.trans (List.prefix_append _ _), fun enough => ?_⟩
      exact absurd (@writeAll_taking answers _ (by omega)).1 stuck
  · have eq : sent = sendFrame true (some mask) answers framesOut bytesOut opcode payload := rfl
    rw [sendFrame, if_pos (.inr large)] at eq
    rw [eq]
    exact ⟨rfl, rfl⟩

def slowAnswers : List SendAnswer :=
  List.replicate 6 (.took 0) ++ .later :: List.replicate 10 (.took 0)

theorem sendFrame_oneFrame_text :
    MaskedFrames.readFrame ((sendFrame true (some ![1, 2, 3, 4]) slowAnswers 0 0 opcodeText
      [72, 105]).written ++ []) = some (⟨true, 0, opcodeText, some ![1, 2, 3, 4], [72, 105]⟩, []) := by
  have one := sendFrame_oneFrame ![1, 2, 3, 4] slowAnswers 0 0
    (by decide : opcodeText ∈ [opcodeText, opcodeClose, opcodePong]) [72, 105]
  obtain ⟨whole, -, done⟩ := one.1 (by decide)
  exact whole (done (by decide)) []

end LibreEcho.Ws
