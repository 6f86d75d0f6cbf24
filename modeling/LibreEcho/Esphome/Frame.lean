import LibreEcho.Lib.Varint
import LibreEcho.Lib.Framing

/-!
The outer frames of the ESPHome API, as esphome_frame.c reads and writes them.

A plaintext frame is a zero byte, the length of the payload and its type as
variable-length numbers, and the payload. An encrypted one is a one byte and the
length in two bytes; its type is inside the payload.
-/
namespace LibreEcho.Esphome
open Varint Framing

def efMaxFrame : Nat := 65536
def efMaxType : Nat := 65535

structure EfFrame where
  type : Nat
  length : Nat
deriving DecidableEq, Repr

/-- `var`: at most five bytes, the last with the four bits left of the word. -/
def var (p : Bytes) : Read :=
  read 15 5 p

/-- One number of the header and its limit; the parser goes on behind it. -/
def efVar (limit h : Nat) (next : Nat → Nat → Bytes → Verdict EfFrame) (p : Bytes) :
    Verdict EfFrame :=
  match var p with
  | .more => .more
  | .bad => .bad
  | .done used v => if limit < v then .bad else next (h + used) v (p.drop used)

/-- The check every header ends with: the limit, and whether the body is there. -/
def efBody (type length h : Nat) (body : Bytes) : Verdict EfFrame :=
  if efMaxFrame < length then .bad
  else if body.length < length then .more
  else .done (h + length) ⟨type, length⟩

def efParsePlain : Bytes → Verdict EfFrame :=
  efVar efMaxFrame 1 fun h length =>
    efVar efMaxType h fun h type => efBody type length h

def efParseNoise : Bytes → Verdict EfFrame
  | high :: low :: body => efBody 0 (high.toNat * 256 + low.toNat) 3 body
  | _ => .more

def efPreamble (noise : Bool) : Nat :=
  if noise then 1 else 0

def efParseRest : Bool → Bytes → Verdict EfFrame
  | true => efParseNoise
  | false => efParsePlain

/-- `more` is 0, `bad` is -1 and `done` is 1 with what the pointers receive. -/
def efParse (noise : Bool) : Bytes → Verdict EfFrame
  | [] => .more
  | first :: p => if first.toNat ≠ efPreamble noise then .bad else efParseRest noise p

/-- `none` is the 0 of a frame that is not written. -/
def efPlainEncode (cap t : Nat) (data : Bytes) : Option Bytes :=
  if efMaxFrame < data.length ∨ efMaxType < t then none
  else
    let header := 0 :: (encode data.length ++ encode t)
    if cap < header.length + data.length then none else some (header ++ data)

/-- The body starts at `used - length`. -/
def efPayload (p : Bytes) (used length : Nat) : Bytes :=
  (p.drop (used - length)).take length

/-- A part of the parser behind `h` bytes: what it decides stands when more arrives. -/
structure Steady (h : Nat) (f : Bytes → Verdict EfFrame) : Prop where
  used : ∀ {p n frame}, f p = .done n frame → h + frame.length ≤ n ∧ n ≤ h + p.length
  done : ∀ {p n frame} (t : Bytes), f p = .done n frame → f (p ++ t) = .done n frame
  bad : ∀ {p} (t : Bytes), f p = .bad → f (p ++ t) = .bad

section parts
variable {limit h : Nat} {next : Nat → Nat → Bytes → Verdict EfFrame}

theorem efVar_more {p : Bytes} (first : var p = .more) : efVar limit h next p = .more := by
  rw [efVar, first]

theorem efVar_bad {p : Bytes} (first : var p = .bad) : efVar limit h next p = .bad := by
  rw [efVar, first]

theorem efVar_done {p : Bytes} {used v : Nat} (first : var p = .done used v) :
    efVar limit h next p =
      if limit < v then .bad else next (h + used) v (p.drop used) := by
  rw [efVar, first]

theorem efBody_steady (type length h : Nat) : Steady h (efBody type length h) where
  used found := by
    rw [efBody] at found
    split at found
    · cases found
    · split at found
      · cases found
      · obtain ⟨rfl, rfl⟩ := Verdict.done.inj found
        simp only
        omega
  done t found := by
    rw [efBody] at found ⊢
    split at found
    · cases found
    · rw [if_neg ‹_›]
      split at found
      · cases found
      · rw [if_neg (by rw [List.length_append]; omega)]
        exact found
  bad t found := by
    rw [efBody] at found ⊢
    split at found
    · rw [if_pos ‹_›]
    · split at found <;> cases found

theorem efVar_steady (steady : ∀ h v, Steady h (next h v)) : Steady h (efVar limit h next) where
  used {p n frame} found := by
    cases first : var p with
    | more =>
        rw [efVar_more first] at found
        cases found
    | bad =>
        rw [efVar_bad first] at found
        cases found
    | done used v =>
        rw [efVar_done first] at found
        split at found
        · cases found
        · have inside := read_used first
          have later := (steady _ _).used found
          rw [List.length_drop] at later
          omega
  done {p n frame} t found := by
    cases first : var p with
    | more =>
        rw [efVar_more first] at found
        cases found
    | bad =>
        rw [efVar_bad first] at found
        cases found
    | done used v =>
        have same : var (p ++ t) = .done used v := read_done_append first t
        rw [efVar_done first] at found
        rw [efVar_done same]
        split at found
        · cases found
        · rw [if_neg ‹_›, List.drop_append_of_le_length (read_used first).2]
          exact (steady _ _).done t found
  bad {p} t found := by
    cases first : var p with
    | more =>
        rw [efVar_more first] at found
        cases found
    | bad => exact efVar_bad (read_bad_append first t)
    | done used v =>
        have same : var (p ++ t) = .done used v := read_done_append first t
        rw [efVar_done first] at found
        rw [efVar_done same]
        split at found
        · rw [if_pos ‹_›]
        · rw [if_neg ‹_›, List.drop_append_of_le_length (read_used first).2]
          exact (steady _ _).bad t found

theorem efParsePlain_steady : Steady 1 efParsePlain :=
  efVar_steady fun _ _ => efVar_steady fun _ _ => efBody_steady _ _ _

theorem efParseNoise_steady : Steady 1 efParseNoise where
  used {p n frame} found := by
    match p with
    | [] => cases found
    | [_] => cases found
    | high :: low :: body =>
        have inside := (efBody_steady _ _ _).used found
        simp only [List.length_cons]
        omega
  done {p n frame} t found := by
    match p with
    | [] => cases found
    | [_] => cases found
    | high :: low :: body => exact (efBody_steady _ _ _).done t found
  bad {p} t found := by
    match p with
    | [] => cases found
    | [_] => cases found
    | high :: low :: body => exact (efBody_steady _ _ _).bad t found

theorem efParseRest_steady (noise : Bool) : Steady 1 (efParseRest noise) := by
  cases noise with
  | true => exact efParseNoise_steady
  | false => exact efParsePlain_steady

end parts

theorem efParse_cons (noise : Bool) (first : UInt8) (p : Bytes) :
    efParse noise (first :: p) =
      if first.toNat ≠ efPreamble noise then .bad else efParseRest noise p := rfl

theorem efParse_stable (noise : Bool) : Stable (efParse noise) where
  empty := rfl
  used {p n frame} found := by
    cases p with
    | nil => cases found
    | cons first p =>
        rw [efParse_cons] at found
        rw [List.length_cons]
        split at found
        · cases found
        · have inside := (efParseRest_steady noise).used found
          omega
  done {p n frame} t found := by
    cases p with
    | nil => cases found
    | cons first p =>
        rw [efParse_cons] at found
        rw [List.cons_append, efParse_cons]
        split at found
        · cases found
        · rw [if_neg ‹_›]
          exact (efParseRest_steady noise).done t found
  bad {p} t found := by
    cases p with
    | nil => cases found
    | cons first p =>
        rw [efParse_cons] at found
        rw [List.cons_append, efParse_cons]
        split at found
        · rw [if_pos ‹_›]
        · rw [if_neg ‹_›]
          exact (efParseRest_steady noise).bad t found

theorem efParse_efPlainEncode {cap t : Nat} {data out : Bytes}
    (written : efPlainEncode cap t data = some out) (rest : Bytes) :
    efParse false (out ++ rest) = .done out.length ⟨t, data.length⟩ ∧
      efPayload (out ++ rest) out.length data.length = data := by
  simp only [efPlainEncode] at written
  split at written
  · cases written
  · rename_i limits
    have short : data.length ≤ efMaxFrame ∧ t ≤ efMaxType := by omega
    have room : efMaxFrame < 128 ^ 4 * 16 ∧ efMaxType < 128 ^ 4 * 16 := by decide
    split at written
    · cases written
    · obtain rfl := Option.some.inj written
      have length (tail : Bytes) :
          var (encode data.length ++ tail) = .done (encode data.length).length data.length :=
        read_encode (by decide) 4 data.length (by omega) tail
      have type (tail : Bytes) : var (encode t ++ tail) = .done (encode t).length t :=
        read_encode (by decide) 4 t (by omega) tail
      refine ⟨?_, ?_⟩
      · have body : efBody t data.length (1 + (encode data.length).length + (encode t).length)
            (data ++ rest) =
              .done (1 + (encode data.length).length + (encode t).length + data.length)
                ⟨t, data.length⟩ := by
          rw [efBody, if_neg (by omega), if_neg (by rw [List.length_append]; omega)]
        simp only [List.cons_append, List.append_assoc]
        rw [efParse_cons, if_neg (by decide), efParseRest, efParsePlain, efVar_done (length _),
          if_neg (by omega), List.drop_left, efVar_done (type _), if_neg (by omega),
          List.drop_left, body]
        simp only [List.length_cons, List.length_append, Verdict.done.injEq, and_true]
        omega
      · rw [efPayload, List.length_append, Nat.add_sub_cancel, List.append_assoc,
          List.drop_left, List.take_left]

theorem efParse_length {noise : Bool} {p : Bytes} {n : Nat} {frame : EfFrame}
    (found : efParse noise p = .done n frame) : frame.length ≤ n := by
  cases p with
  | nil => cases found
  | cons first p =>
      rw [efParse_cons] at found
      split at found
      · cases found
      · have inside := (efParseRest_steady noise).used found
        omega

/-- What a caller makes of the front of its buffer: the type and the payload. -/
def efMessage (noise : Bool) (p : Bytes) : Verdict (Nat × Bytes) :=
  match efParse noise p with
  | .more => .more
  | .bad => .bad
  | .done used frame => .done used (frame.type, efPayload p used frame.length)

theorem efMessage_done {noise : Bool} {p : Bytes} {n : Nat} {frame : EfFrame}
    (found : efParse noise p = .done n frame) :
    efMessage noise p = .done n (frame.type, efPayload p n frame.length) := by
  rw [efMessage, found]

theorem efMessage_stable (noise : Bool) : Stable (efMessage noise) where
  empty := rfl
  used {p n m} found := by
    cases parsed : efParse noise p with
    | more | bad =>
        rw [efMessage, parsed] at found
        cases found
    | done used frame =>
        rw [efMessage_done parsed] at found
        obtain ⟨rfl, -⟩ := Verdict.done.inj found
        exact (efParse_stable noise).used parsed
  done {p n m} t found := by
    cases parsed : efParse noise p with
    | more | bad =>
        rw [efMessage, parsed] at found
        cases found
    | done used frame =>
        have inside := (efParse_stable noise).used parsed
        have body := efParse_length parsed
        rw [efMessage_done parsed] at found
        rw [efMessage_done ((efParse_stable noise).done t parsed), ← found, efPayload, efPayload,
          List.drop_append_of_le_length (by omega),
          List.take_append_of_le_length (by rw [List.length_drop]; omega)]
  bad {p} t found := by
    cases parsed : efParse noise p with
    | more | done =>
        rw [efMessage, parsed] at found
        cases found
    | bad => rw [efMessage, (efParse_stable noise).bad t parsed]

end LibreEcho.Esphome

/-!
What the plaintext parser waits for.

It asks for more in front of a frame that can still be completed. Besides, it
asks for more inside a number whose first bytes already put it past its limit,
since the limits are looked at when a number has ended.
-/
namespace LibreEcho.Esphome
open Varint Framing

def Unfinished (p : Bytes) : Prop :=
  p.length < 5 ∧ ∀ b ∈ p, ¬b.toNat < 128

theorem var_more_iff {p : Bytes} : var p = .more ↔ Unfinished p :=
  read_more_iff (by decide)

/-- An unfinished number that is past its limit however it goes on. -/
def CutPast (limit : Nat) (p : Bytes) : Prop :=
  Unfinished p ∧ limit < partialValue p

/-- The cut is in the length, or in the type behind a length that is allowed. -/
def PastLimit (p : Bytes) : Prop :=
  ∃ q, p = 0 :: q ∧
    (CutPast efMaxFrame q ∨
      ∃ used length, var q = .done used length ∧ length ≤ efMaxFrame ∧
        CutPast efMaxType (q.drop used))

def ValidFrame (frame : Bytes) : Prop :=
  ∃ header, efParse false frame = .done frame.length header

def Completable (h : Nat) (f : Bytes → Verdict EfFrame) (p : Bytes) : Prop :=
  ∃ t frame, f (p ++ t) = .done (h + (p ++ t).length) frame

section parts
variable {limit h : Nat} {next : Nat → Nat → Bytes → Verdict EfFrame} {p : Bytes}

theorem efBody_completable {type length h : Nat} (fits : length ≤ efMaxFrame)
    (short : p.length ≤ length) : Completable h (efBody type length h) p := by
  have whole : (p ++ List.replicate (length - p.length) 0).length = length := by
    rw [List.length_append, List.length_replicate]
    omega
  refine ⟨List.replicate (length - p.length) 0, ⟨type, length⟩, ?_⟩
  rw [efBody, if_neg (by omega), if_neg (by omega), whole]

theorem efBody_more {type length h : Nat} (found : efBody type length h p = .more) :
    length ≤ efMaxFrame ∧ p.length < length := by
  rw [efBody] at found
  split at found
  · cases found
  · split at found
    · omega
    · cases found

theorem efVar_completable {used v : Nat} (first : var p = .done used v) (fits : v ≤ limit)
    (later : Completable (h + used) (next (h + used) v) (p.drop used)) :
    Completable h (efVar limit h next) p := by
  obtain ⟨t, frame, found⟩ := later
  have inside := (read_used first).2
  refine ⟨t, frame, ?_⟩
  rw [efVar_done (read_done_append first t), if_neg (by omega),
    List.drop_append_of_le_length inside, found]
  simp only [List.length_append, List.length_drop, Verdict.done.injEq, and_true]
  omega

theorem efVar_completable_cut (cut : Unfinished p) (fits : partialValue p ≤ limit)
    (later : ∀ h v, v ≤ limit → Completable h (next h v) []) :
    Completable h (efVar limit h next) p := by
  have ended : var (p ++ [0]) = .done (p.length + 1) (partialValue p) :=
    read_more_zero (var_more_iff.mpr cut) []
  have whole : (p ++ [0]).drop (p.length + 1) = [] :=
    List.drop_eq_nil_of_le (by simp)
  have complete : Completable h (efVar limit h next) (p ++ [0]) :=
    efVar_completable ended fits (by rw [whole]; exact later _ _ fits)
  obtain ⟨t, frame, found⟩ := complete
  refine ⟨0 :: t, frame, ?_⟩
  rw [List.append_assoc] at found
  exact found

theorem efVar_past (cut : CutPast limit p) (t : Bytes) (n : Nat) (frame : EfFrame) :
    efVar limit h next (p ++ t) ≠ .done n frame := by
  intro found
  cases first : var (p ++ t) with
  | more =>
      rw [efVar_more first] at found
      cases found
  | bad =>
      rw [efVar_bad first] at found
      cases found
  | done used v =>
      have above := (read_more_append (var_more_iff.mpr cut.1) t first).1
      have past := cut.2
      rw [efVar_done first, if_pos (by omega)] at found
      cases found

end parts

theorem efParsePlain_more {p : Bytes} (found : efParsePlain p = .more) :
    Completable 1 efParsePlain p ∨ PastLimit (0 :: p) := by
  have ends (h length : Nat) (fits : length ≤ efMaxFrame) :
      Completable h (efVar efMaxType h fun h type => efBody type length h) [] :=
    efVar_completable_cut ⟨by decide, by simp⟩ (Nat.zero_le _)
      fun h type _ => efBody_completable fits (Nat.zero_le _)
  cases first : var p with
  | bad =>
      rw [efParsePlain, efVar_bad first] at found
      cases found
  | more =>
      have cut := var_more_iff.mp first
      by_cases past : efMaxFrame < partialValue p
      · exact .inr ⟨p, rfl, .inl ⟨cut, past⟩⟩
      · exact .inl (efVar_completable_cut cut (by omega) ends)
  | done used length =>
      rw [efParsePlain, efVar_done first] at found
      split at found
      · cases found
      · have fits : length ≤ efMaxFrame := by omega
        cases second : var (p.drop used) with
        | bad =>
            rw [efVar_bad second] at found
            cases found
        | more =>
            have cut := var_more_iff.mp second
            by_cases past : efMaxType < partialValue (p.drop used)
            · exact .inr ⟨p, rfl, .inr ⟨used, length, first, fits, cut, past⟩⟩
            · refine .inl (efVar_completable first fits
                (efVar_completable_cut cut (by omega) fun h type _ => ?_))
              exact efBody_completable fits (Nat.zero_le _)
        | done used' type =>
            rw [efVar_done second] at found
            split at found
            · cases found
            · have short := efBody_more found
              exact .inl (efVar_completable first fits
                (efVar_completable second (by omega) (efBody_completable fits (by omega))))

theorem pastLimit_never {p : Bytes} (past : PastLimit p) (t : Bytes) (n : Nat)
    (frame : EfFrame) : efParse false (p ++ t) ≠ .done n frame := by
  intro found
  obtain ⟨q, rfl, cut⟩ := past
  rw [List.cons_append, efParse_cons, if_neg (by decide), efParseRest, efParsePlain] at found
  rcases cut with cut | ⟨used, length, first, fits, cut⟩
  · exact efVar_past cut t n frame found
  · rw [efVar_done (read_done_append first t), if_neg (by omega),
      List.drop_append_of_le_length (read_used first).2] at found
    exact efVar_past cut t n frame found

theorem pastLimit_more {p : Bytes} (past : PastLimit p) : efParse false p = .more := by
  obtain ⟨q, rfl, cut⟩ := past
  rw [efParse_cons, if_neg (by decide), efParseRest, efParsePlain]
  rcases cut with cut | ⟨used, length, first, fits, cut⟩
  · exact efVar_more (var_more_iff.mpr cut.1)
  · rw [efVar_done first, if_neg (by omega), efVar_more (var_more_iff.mpr cut.1)]

theorem efParse_cut {p frame : Bytes} (valid : ValidFrame frame) (cut : p <+: frame)
    (proper : p ≠ frame) : efParse false p = .more := by
  obtain ⟨header, complete⟩ := valid
  obtain ⟨t, rfl⟩ := cut
  have tail : 0 < t.length := by
    cases t with
    | nil => exact absurd (List.append_nil p).symm proper
    | cons a t => exact Nat.succ_pos _
  cases found : efParse false p with
  | more => rfl
  | bad =>
      rw [(efParse_stable false).bad t found] at complete
      cases complete
  | done n header' =>
      have inside := ((efParse_stable false).used found).2
      rw [(efParse_stable false).done t found] at complete
      have whole := (Verdict.done.inj complete).1
      rw [List.length_append] at whole
      omega

theorem efParse_more_iff (p : Bytes) :
    efParse false p = .more ↔
      (∃ frame, ValidFrame frame ∧ p <+: frame ∧ p ≠ frame) ∨ PastLimit p := by
  refine ⟨fun found => ?_, ?_⟩
  · have completed (q : Bytes) (same : efParse false q = .more)
        (complete : ∃ t header, efParse false (q ++ t) = .done (q ++ t).length header) :
        ∃ frame, ValidFrame frame ∧ q <+: frame ∧ q ≠ frame := by
      obtain ⟨t, header, complete⟩ := complete
      refine ⟨q ++ t, ⟨header, complete⟩, List.prefix_append _ _, fun equal => ?_⟩
      rw [← equal, same] at complete
      cases complete
    cases p with
    | nil => exact .inl (completed [] found ⟨[0, 0, 0], ⟨0, 0⟩, by decide⟩)
    | cons first p =>
        have whole := found
        rw [efParse_cons] at found
        split at found
        · cases found
        · rename_i zero
          have zero : first = 0 := by
            rw [← UInt8.toNat_inj]
            exact of_not_not zero
          subst zero
          rcases efParsePlain_more found with ⟨t, header, complete⟩ | past
          · refine .inl (completed _ whole ⟨t, header, ?_⟩)
            rw [List.cons_append, efParse_cons, if_neg (by decide), efParseRest, complete,
              List.length_cons, Nat.add_comm]
          · exact .inr past
  · rintro (⟨frame, valid, cut, proper⟩ | past)
    · exact efParse_cut valid cut proper
    · exact pastLimit_more past

/-- Each piece is the frame of one message, in a buffer of some size. -/
def Frames (sent : List (Nat × Bytes)) (pieces : List Bytes) : Prop :=
  List.Forall₂ (fun m piece => ∃ cap, efPlainEncode cap m.1 m.2 = some piece) sent pieces

theorem drain_frames {sent : List (Nat × Bytes)} {pieces : List Bytes}
    (frames : Frames sent pieces) : drain (efMessage false) pieces.flatten = ⟨sent, [], false⟩ := by
  induction frames with
  | nil => rfl
  | @cons m piece sent pieces written _ ih =>
      obtain ⟨cap, written⟩ := written
      have read := efParse_efPlainEncode written pieces.flatten
      have found : efMessage false (piece ++ pieces.flatten) = .done piece.length m := by
        rw [efMessage_done read.1, read.2]
      rw [List.flatten_cons, (efMessage_stable false).drain_done found, List.drop_left, ih]
      rfl

/--
A written frame is read back whatever follows it; a decision stands whatever
arrives; more is asked for exactly in front of a frame or in a number past its
limit; and the reads a stream came in do not show in its messages.
-/
theorem efParse_incremental :
    (∀ cap t data out rest, efPlainEncode cap t data = some out →
      efParse false (out ++ rest) = .done out.length ⟨t, data.length⟩ ∧
        efPayload (out ++ rest) out.length data.length = data) ∧
    (∀ p more, efParse false p ≠ .more → efParse false (p ++ more) = efParse false p) ∧
    (∀ p, efParse false p = .more ↔
      (∃ frame, ValidFrame frame ∧ p <+: frame ∧ p ≠ frame) ∨ PastLimit p) ∧
    (∀ events, (Reader.run (efMessage false) events).messages <+:
        (drain (efMessage false) (received events)).messages ∧
      ((Reader.run (efMessage false) events).take (efMessage false) =
          Reader.run (efMessage false) events →
        Reader.run (efMessage false) events = drain (efMessage false) (received events))) ∧
    (∀ sent pieces, Frames sent pieces →
      drain (efMessage false) pieces.flatten = ⟨sent, [], false⟩) := by
  have stable := efMessage_stable false
  refine ⟨fun cap t data out rest written => efParse_efPlainEncode written rest,
    fun p more decided => ?_, efParse_more_iff,
    fun events => ⟨stable.run_prefix events, fun quiet => stable.run_quiet quiet⟩,
    fun sent pieces frames => drain_frames frames⟩
  cases found : efParse false p with
  | more => exact absurd found decided
  | bad => exact (efParse_stable false).bad more found
  | done n frame => exact (efParse_stable false).done more found

/-- The first bytes of a length of 2097151 and more are waited with. -/
theorem efParse_incremental_longLength :
    ¬∀ p, efParse false p = .more → ∃ frame, ValidFrame frame ∧ p <+: frame ∧ p ≠ frame := by
  intro all
  obtain ⟨frame, ⟨header, complete⟩, ⟨t, rfl⟩, -⟩ := all [0, 255, 255, 255] (by decide)
  have past : PastLimit [0, 255, 255, 255] :=
    ⟨[255, 255, 255], rfl, .inl ⟨⟨by decide, by decide +kernel⟩, by decide⟩⟩
  exact pastLimit_never past t _ header complete

end LibreEcho.Esphome
