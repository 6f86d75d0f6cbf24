import LibreEcho.Lib.ByteText
import Mathlib

/-!
Bodies in chunks: a size in hexadecimal digits and a line end before every chunk, a line end behind
it, a chunk without data at the end, and lines of trailers up to an empty one.

The reader takes exactly the bodies of this form, within limits on the digits of a size, the data
and the trailers.
-/
namespace ChunkedBody
open ByteText (hexValue)

abbrev Bytes := List UInt8

def cr : UInt8 := 0x0D
def lf : UInt8 := 0x0A
def colon : UInt8 := 0x3A

def crlf : Bytes := [cr, lf]

structure Limits where
  digits : Nat
  data : Nat
  trailers : Nat

/-! ### The form -/

/-- What the digits stand for behind the ones that stand for `n`. -/
def hexFrom (n : Nat) (digits : Bytes) : Option Nat :=
  digits.foldlM (fun n c => (hexValue c).map (n * 16 + ·)) n

def inLine (c : UInt8) : Bool :=
  c != 0 && c != cr && c != lf

structure Chunk where
  size : Bytes
  data : Bytes

structure Body where
  chunks : List Chunk
  last : Bytes
  trailers : List Bytes

def Chunk.text (c : Chunk) : Bytes :=
  c.size ++ (crlf ++ (c.data ++ crlf))

def trailersText (lines : List Bytes) : Bytes :=
  lines.flatMap (· ++ crlf) ++ crlf

def Body.text (b : Body) : Bytes :=
  b.chunks.flatMap Chunk.text ++ (b.last ++ (crlf ++ trailersText b.trailers))

def Body.data (b : Body) : Bytes :=
  b.chunks.flatMap Chunk.data

structure Size (limits : Limits) (digits : Bytes) (n : Nat) : Prop where
  filled : digits ≠ []
  short : digits.length ≤ limits.digits
  value : hexFrom 0 digits = some n
  room : n ≤ limits.data

structure Line (line : Bytes) : Prop where
  filled : line ≠ []
  bytes : ∀ c ∈ line, inLine c = true
  named : colon ∈ line

structure Body.Ok (limits : Limits) (b : Body) : Prop where
  chunks : ∀ c ∈ b.chunks, c.data ≠ [] ∧ Size limits c.size c.data.length
  last : Size limits b.last 0
  trailers : ∀ line ∈ b.trailers, Line line
  short : (b.trailers.flatMap (· ++ crlf)).length ≤ limits.trailers
  data : b.data.length ≤ limits.data

/-! ### The reader -/

variable (limits : Limits)

def afterCrlf (s : Bytes) : Option Bytes :=
  if s.take 2 = crlf then some (s.drop 2) else none

def sizeLine (s : Bytes) : Option (Nat × Bytes) :=
  let digits := s.takeWhile (· ≠ cr)
  if digits = [] ∨ limits.digits < digits.length then none
  else
    (hexFrom 0 digits).bind fun n =>
      if limits.data < n then none else (afterCrlf (s.dropWhile (· ≠ cr))).map fun rest => (n, rest)

/-- Lines of trailers up to the empty one, which ends the text. -/
def readTrailers : Nat → Bytes → Bool
  | 0, _ => false
  | fuel + 1, s =>
      match afterCrlf (s.dropWhile inLine) with
      | none => false
      | some rest =>
          if s.takeWhile inLine = [] then rest.isEmpty
          else (s.takeWhile inLine).contains colon && readTrailers fuel rest

def trailersOk (s : Bytes) : Bool :=
  s.length ≤ limits.trailers + 2 && readTrailers s.length s

def decode : Nat → Nat → Bytes → Option Bytes
  | 0, _, _ => none
  | fuel + 1, room, s =>
      (sizeLine limits s).bind fun (n, rest) =>
        if n = 0 then if trailersOk limits rest then some [] else none
        else if rest.length < n ∨ room < n then none
        else
          (afterCrlf (rest.drop n)).bind fun later =>
            (decode fuel (room - n) later).map (rest.take n ++ ·)

/-! ### Lines -/

variable {limits} {s rest : Bytes}

theorem afterCrlf_some : afterCrlf s = some rest ↔ s = crlf ++ rest := by
  rw [afterCrlf]
  constructor
  · intro read
    split at read
    case isTrue front =>
      rw [← Option.some.inj read, ← front, List.take_append_drop]
    case isFalse => cases read
  · rintro rfl
    rfl

theorem hexFrom_cons (n : Nat) (c : UInt8) (digits : Bytes) :
    hexFrom n (c :: digits) = (hexValue c).bind fun d => hexFrom (n * 16 + d) digits := by
  rw [hexFrom, List.foldlM_cons]
  cases hexValue c <;> rfl

theorem hexFrom_digits {n m : Nat} {digits : Bytes} (value : hexFrom n digits = some m) :
    ∀ c ∈ digits, c ≠ cr := by
  induction digits generalizing n with
  | nil => exact nofun
  | cons c digits ih =>
      rw [hexFrom_cons] at value
      obtain ⟨d, digit, later⟩ := Option.bind_eq_some_iff.mp value
      refine List.forall_mem_cons.mpr ⟨?_, ih later⟩
      rintro rfl
      have other : hexValue cr = none := by decide
      cases other.symm.trans digit

theorem hexFrom_le {n m : Nat} {digits : Bytes} (value : hexFrom n digits = some m) : n ≤ m := by
  induction digits generalizing n with
  | nil => exact Nat.le_of_eq (Option.some.inj value)
  | cons c digits ih =>
      rw [hexFrom_cons] at value
      obtain ⟨d, -, later⟩ := Option.bind_eq_some_iff.mp value
      have := ih later
      omega

theorem sizeLine_some {n : Nat} : sizeLine limits s = some (n, rest) ↔
    ∃ digits, Size limits digits n ∧ s = digits ++ (crlf ++ rest) := by
  rw [sizeLine]
  constructor
  · intro read
    split at read
    case isTrue => cases read
    case isFalse some =>
      obtain ⟨filled, short⟩ := not_or.mp some
      obtain ⟨m, value, read⟩ := Option.bind_eq_some_iff.mp read
      split at read
      case isTrue => cases read
      case isFalse room =>
        obtain ⟨rest', ends, same⟩ := Option.map_eq_some_iff.mp read
        cases same
        refine ⟨_, ⟨filled, Nat.not_lt.mp short, value, Nat.not_lt.mp room⟩, ?_⟩
        rw [← afterCrlf_some.mp ends, List.takeWhile_append_dropWhile]
  · rintro ⟨digits, size, rfl⟩
    have free : ∀ c ∈ digits, decide (c ≠ cr) = true := fun c inside =>
      decide_eq_true (hexFrom_digits size.value c inside)
    have run : (digits ++ (crlf ++ rest)).takeWhile (· ≠ cr) = digits := by
      rw [List.takeWhile_append_of_pos free]
      exact List.append_nil _
    have left : (digits ++ (crlf ++ rest)).dropWhile (· ≠ cr) = crlf ++ rest := by
      rw [List.dropWhile_append_of_pos free]
      rfl
    rw [run, left, if_neg (not_or.mpr ⟨size.filled, Nat.not_lt.mpr size.short⟩), size.value,
      Option.bind_some, if_neg (Nat.not_lt.mpr size.room), afterCrlf_some.mpr rfl]
    rfl

theorem line_cut {line : Bytes} (bytes : ∀ c ∈ line, inLine c = true) (rest : Bytes) :
    (line ++ (crlf ++ rest)).takeWhile inLine = line ∧
      (line ++ (crlf ++ rest)).dropWhile inLine = crlf ++ rest := by
  rw [List.takeWhile_append_of_pos bytes, List.dropWhile_append_of_pos bytes]
  exact ⟨List.append_nil _, rfl⟩

theorem trailersText_cons (line : Bytes) (lines : List Bytes) :
    trailersText (line :: lines) = line ++ (crlf ++ trailersText lines) := by
  rw [trailersText, trailersText, List.flatMap_cons, List.append_assoc, List.append_assoc]

theorem readTrailers_iff {fuel : Nat} (enough : s.length ≤ fuel) : readTrailers fuel s = true ↔
    ∃ lines, (∀ line ∈ lines, Line line) ∧ s = trailersText lines := by
  constructor
  · intro read
    clear enough
    induction fuel generalizing s with
    | zero => cases read
    | succ fuel ih =>
        rw [readTrailers] at read
        cases ends : afterCrlf (s.dropWhile inLine) with
        | none =>
            rw [ends] at read
            cases read
        | some rest =>
            have whole : s = s.takeWhile inLine ++ (crlf ++ rest) := by
              rw [← afterCrlf_some.mp ends, List.takeWhile_append_dropWhile]
            rw [ends] at read
            dsimp only at read
            split at read
            case isTrue blank =>
              rw [List.isEmpty_iff] at read
              rw [blank, read, List.nil_append, List.append_nil] at whole
              exact ⟨[], nofun, whole⟩
            case isFalse filled =>
              rw [Bool.and_eq_true, List.contains_iff_mem] at read
              obtain ⟨lines, all, rfl⟩ := ih read.2
              refine ⟨s.takeWhile inLine :: lines, List.forall_mem_cons.mpr ⟨⟨filled, ?_, read.1⟩, all⟩, ?_⟩
              · exact fun c inside => List.mem_takeWhile_imp inside
              · rwa [trailersText_cons]
  · rintro ⟨lines, all, rfl⟩
    induction lines generalizing fuel with
    | nil =>
        cases fuel with
        | zero => exact absurd enough (by decide)
        | succ fuel => rfl
    | cons line lines ih =>
        obtain ⟨here, later⟩ := List.forall_mem_cons.mp all
        rw [trailersText_cons] at enough ⊢
        obtain ⟨run, left⟩ := line_cut here.bytes (trailersText lines)
        cases fuel with
        | zero =>
            simp [crlf] at enough
        | succ fuel =>
            have fewer : (trailersText lines).length ≤ fuel := by
              rw [List.length_append, List.length_append] at enough
              have two : crlf.length = 2 := rfl
              omega
            rw [readTrailers, left, afterCrlf_some.mpr rfl, run]
            dsimp only
            rw [if_neg here.filled, ih later fewer, Bool.and_true, List.contains_iff_mem]
            exact here.named

theorem trailersOk_iff : trailersOk limits s = true ↔ ∃ lines, (∀ line ∈ lines, Line line) ∧
    (lines.flatMap (· ++ crlf)).length ≤ limits.trailers ∧ s = trailersText lines := by
  rw [trailersOk, Bool.and_eq_true, decide_eq_true_eq, readTrailers_iff (Nat.le_refl _)]
  have length : ∀ lines, (trailersText lines).length = (lines.flatMap (· ++ crlf)).length + 2 :=
    fun lines => List.length_append
  constructor
  · rintro ⟨short, lines, all, rfl⟩
    rw [length] at short
    exact ⟨lines, all, by omega, rfl⟩
  · rintro ⟨lines, all, short, rfl⟩
    rw [length]
    exact ⟨by omega, lines, all, rfl⟩

/-! ### Bodies -/

theorem Body.text_nil (last : Bytes) (trailers : List Bytes) :
    (Body.mk [] last trailers).text = last ++ (crlf ++ trailersText trailers) :=
  rfl

theorem Body.text_cons (c : Chunk) (chunks : List Chunk) (last : Bytes) (trailers : List Bytes) :
    (Body.mk (c :: chunks) last trailers).text =
      c.size ++ (crlf ++ (c.data ++ (crlf ++ (Body.mk chunks last trailers).text))) := by
  simp only [Body.text, Chunk.text, List.flatMap_cons, List.append_assoc]

theorem Body.data_cons (c : Chunk) (chunks : List Chunk) (last : Bytes) (trailers : List Bytes) :
    (Body.mk (c :: chunks) last trailers).data = c.data ++ (Body.mk chunks last trailers).data :=
  rfl

structure Body.Parts (limits : Limits) (b : Body) : Prop where
  chunks : ∀ c ∈ b.chunks, c.data ≠ [] ∧ Size limits c.size c.data.length
  last : Size limits b.last 0
  trailers : ∀ line ∈ b.trailers, Line line
  short : (b.trailers.flatMap (· ++ crlf)).length ≤ limits.trailers

theorem Body.ok_iff {b : Body} : b.Ok limits ↔ b.Parts limits ∧ b.data.length ≤ limits.data :=
  ⟨fun ok => ⟨⟨ok.chunks, ok.last, ok.trailers, ok.short⟩, ok.data⟩,
    fun ⟨parts, data⟩ => ⟨parts.chunks, parts.last, parts.trailers, parts.short, data⟩⟩

theorem decode_sound {fuel room : Nat} {data : Bytes} (read : decode limits fuel room s = some data) :
    ∃ b : Body, b.Parts limits ∧ b.text = s ∧ b.data = data ∧ data.length ≤ room := by
  induction fuel generalizing room s data with
  | zero => cases read
  | succ fuel ih =>
      rw [decode] at read
      obtain ⟨⟨n, rest⟩, line, found⟩ := Option.bind_eq_some_iff.mp read
      obtain ⟨digits, size, rfl⟩ := sizeLine_some.mp line
      dsimp only at found
      split at found
      case isTrue last =>
        split at found
        case isTrue ok =>
          obtain ⟨lines, all, short, rfl⟩ := trailersOk_iff.mp ok
          cases found
          exact ⟨⟨[], digits, lines⟩, ⟨nofun, last ▸ size, all, short⟩, rfl, rfl, Nat.zero_le _⟩
        case isFalse => cases found
      case isFalse some =>
        split at found
        case isTrue => cases found
        case isFalse there =>
          rw [not_or, Nat.not_lt, Nat.not_lt] at there
          obtain ⟨later, ends, found⟩ := Option.bind_eq_some_iff.mp found
          obtain ⟨more, behind, rfl⟩ := Option.map_eq_some_iff.mp found
          obtain ⟨⟨chunks, last, trailers⟩, parts, rfl, rfl, fits⟩ := ih behind
          have length : (rest.take n).length = n := by
            rw [List.length_take]
            omega
          refine ⟨⟨⟨digits, rest.take n⟩ :: chunks, last, trailers⟩,
            ⟨List.forall_mem_cons.mpr ⟨⟨fun none => ?_, ?_⟩, parts.chunks⟩, parts.last, parts.trailers,
              parts.short⟩, ?_, rfl, ?_⟩
          · have empty : (rest.take n).length = 0 := congrArg List.length none
            exact some (length.symm.trans empty)
          · dsimp only
            rwa [length]
          · rw [Body.text_cons, ← afterCrlf_some.mp ends, List.take_append_drop]
          · rw [List.length_append, length]
            omega

theorem decode_complete {fuel room : Nat} {b : Body} (parts : b.Parts limits)
    (fits : b.data.length ≤ room) (enough : b.text.length ≤ fuel) :
    decode limits fuel room b.text = some b.data := by
  obtain ⟨chunks, last, trailers⟩ := b
  induction chunks generalizing fuel room with
  | nil =>
      rw [Body.text_nil] at enough ⊢
      cases fuel with
      | zero => simp [crlf] at enough
      | succ fuel =>
          have ok : trailersOk limits (trailersText trailers) = true :=
            trailersOk_iff.mpr ⟨trailers, parts.trailers, parts.short, rfl⟩
          rw [decode, sizeLine_some.mpr ⟨last, parts.last, rfl⟩, Option.bind_some]
          dsimp only
          rw [if_pos rfl, if_pos ok]
          rfl
  | cons c chunks ih =>
      obtain ⟨⟨filled, size⟩, others⟩ := List.forall_mem_cons.mp parts.chunks
      rw [Body.data_cons, List.length_append] at fits
      rw [Body.text_cons] at enough ⊢
      have some := List.length_pos_of_ne_nil filled
      cases fuel with
      | zero => simp [crlf] at enough
      | succ fuel =>
          simp only [List.length_append] at enough
          have later := @ih fuel (room - c.data.length) ⟨others, parts.last, parts.trailers, parts.short⟩
            (by omega) (by omega)
          rw [decode, sizeLine_some.mpr ⟨c.size, size, rfl⟩, Option.bind_some]
          dsimp only
          rw [if_neg (Nat.ne_of_gt some), if_neg, List.drop_left, afterCrlf_some.mpr rfl,
            Option.bind_some, later, List.take_left]
          · rfl
          · rw [not_or, Nat.not_lt, Nat.not_lt, List.length_append]
            exact ⟨Nat.le_add_right _ _, by omega⟩

theorem decode_iff {fuel : Nat} (enough : s.length ≤ fuel) {data : Bytes} :
    decode limits fuel limits.data s = some data ↔
      ∃ b : Body, b.Ok limits ∧ b.text = s ∧ b.data = data := by
  constructor
  · intro read
    obtain ⟨b, parts, text, rfl, fits⟩ := decode_sound read
    exact ⟨b, Body.ok_iff.mpr ⟨parts, fits⟩, text, rfl⟩
  · rintro ⟨b, ok, rfl, rfl⟩
    obtain ⟨parts, fits⟩ := Body.ok_iff.mp ok
    exact decode_complete parts fits enough

theorem readTrailers_enough {fuel : Nat} (enough : s.length ≤ fuel) :
    readTrailers fuel s = readTrailers s.length s :=
  Bool.eq_iff_iff.mpr ((readTrailers_iff enough).trans (readTrailers_iff (Nat.le_refl _)).symm)

end ChunkedBody
