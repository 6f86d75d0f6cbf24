import LibreEcho.Lib.BitGroups
import LibreEcho.Lib.ByteText

/-!
`live_b64.c`: three bytes are four symbols of six bits, and a shift register of 32 bits makes
bytes of symbols again.
-/
namespace LibreEcho.Live
open BitGroups ByteText

/-! ### Symbols -/

def b64Alphabet : List UInt8 :=
  ascii "ABCDEFGHIJKLMNOPQRSTUVWXYZabcdefghijklmnopqrstuvwxyz0123456789+/"

/-- Both the standard and the URL-safe alphabet are read; `none` for -1. -/
def b64ValueOf (c : UInt8) : Option Nat :=
  if 0x41 ≤ c ∧ c ≤ 0x5a then some (c.toNat - 0x41)
  else if 0x61 ≤ c ∧ c ≤ 0x7a then some (c.toNat - 0x61 + 26)
  else if 0x30 ≤ c ∧ c ≤ 0x39 then some (c.toNat - 0x30 + 52)
  else if c = 0x2b ∨ c = 0x2d then some 62
  else if c = 0x2f ∨ c = 0x5f then some 63
  else none

def b64Padding : UInt8 := 0x3d

def b64Blank (c : UInt8) : Bool :=
  c == 0x0a || c == 0x0d || c == 0x20 || c == 0x09

/-- `alphabet[value & 0x3f]` -/
def b64Symbol (value : Nat) : UInt8 :=
  b64Alphabet.getD (value &&& 0x3f) 0

/-! ### Encoding -/

def leB64EncodedSize (count : Nat) : Nat :=
  (count + 2) / 3 * 4

def b64Group (a b c : UInt8) : Nat :=
  a.toNat <<< 16 ||| (b.toNat <<< 8 ||| c.toNat)

def b64Encoded : List UInt8 → List UInt8
  | [] => []
  | [a] =>
      let group := b64Group a 0 0
      [b64Symbol (group >>> 18), b64Symbol (group >>> 12), b64Padding, b64Padding]
  | [a, b] =>
      let group := b64Group a b 0
      [b64Symbol (group >>> 18), b64Symbol (group >>> 12), b64Symbol (group >>> 6), b64Padding]
  | a :: b :: c :: rest =>
      let group := b64Group a b c
      b64Symbol (group >>> 18) :: b64Symbol (group >>> 12) :: b64Symbol (group >>> 6) ::
        b64Symbol group :: b64Encoded rest

/-- The text in the buffer, empty with the return value 0 when the buffer is too small. -/
def leB64Encode (input : List UInt8) (outSize : Nat) : List UInt8 :=
  if outSize < leB64EncodedSize input.length + 1 then [] else b64Encoded input

/-! ### Decoding -/

structure B64Decoded where
  result : Nat
  written : List UInt8
deriving DecidableEq

def b64Finish (bits : Nat) (out : List UInt8) : B64Decoded :=
  if 6 ≤ bits then ⟨0, out⟩ else ⟨out.length, out⟩

def b64DecodeLoop (outSize : Nat) : List UInt8 → Nat → Nat → List UInt8 → B64Decoded
  | [], _, bits, out => b64Finish bits out
  | c :: input, accumulator, bits, out =>
      if c = b64Padding then b64Finish bits out
      else if b64Blank c then b64DecodeLoop outSize input accumulator bits out
      else
        match b64ValueOf c with
        | none => ⟨0, out⟩
        | some value =>
            let accumulator := (accumulator <<< 6 ||| value) % 2 ^ 32
            let bits := bits + 6
            if 8 ≤ bits then
              let bits := bits - 8
              if outSize ≤ out.length then ⟨0, out⟩
              else
                b64DecodeLoop outSize input accumulator bits
                  (out ++ [.ofNat (accumulator >>> bits &&& 0xff)])
            else b64DecodeLoop outSize input accumulator bits out

def leB64Decode (input : List UInt8) (outSize : Nat) : B64Decoded :=
  b64DecodeLoop outSize input 0 0 []

/-! ### Values of symbols -/

theorem b64ValueOf_lt {c : UInt8} {value : Nat} (valid : b64ValueOf c = some value) :
    value < 2 ^ 6 := by
  rw [b64ValueOf] at valid
  simp only [UInt8.le_iff_toNat_le, UInt8.toNat_ofNat] at valid
  split at valid
  · cases valid
    omega
  · split at valid
    · cases valid
      omega
    · split at valid
      · cases valid
        omega
      · split at valid
        · cases valid
          decide
        · split at valid
          · cases valid
            decide
          · exact nomatch valid

theorem b64Symbol_value (value : Nat) : b64ValueOf (b64Symbol value) = some (value % 2 ^ 6) ∧
    b64Symbol value ≠ b64Padding ∧ b64Blank (b64Symbol value) = false := by
  have all : ∀ v : Fin 64, b64ValueOf (b64Alphabet.getD v.val 0) = some v.val ∧
      b64Alphabet.getD v.val 0 ≠ b64Padding ∧ b64Blank (b64Alphabet.getD v.val 0) = false := by
    decide +kernel
  have low : value &&& 0x3f = value % 2 ^ 6 := Nat.and_two_pow_sub_one_eq_mod value 6
  rw [b64Symbol, low]
  exact all ⟨value % 2 ^ 6, Nat.mod_lt _ (by decide)⟩

/-! ### What a text holds -/

def b64Symbols (text : List UInt8) : List UInt8 :=
  (text.takeWhile (· ≠ b64Padding)).filter fun c => !b64Blank c

def Values (symbols : List UInt8) (values : List Nat) : Prop :=
  symbols.map b64ValueOf = values.map some

def octets (bytes : List UInt8) : List Nat :=
  bytes.map UInt8.toNat

theorem values_cons {c : UInt8} {symbols : List UInt8} {values : List Nat} :
    Values (c :: symbols) values ↔
      ∃ v rest, b64ValueOf c = some v ∧ Values symbols rest ∧ values = v :: rest := by
  rw [Values, List.map_cons]
  cases values with
  | nil =>
      refine iff_of_false nofun ?_
      rintro ⟨v, rest, -, -, same⟩
      exact nomatch same
  | cons v rest =>
      rw [List.map_cons, List.cons.injEq]
      refine ⟨fun both => ⟨v, rest, both.1, both.2, rfl⟩, ?_⟩
      rintro ⟨_, _, head, tail, same⟩
      cases same
      exact ⟨head, tail⟩

theorem b64Symbols_padding (text : List UInt8) : b64Symbols (b64Padding :: text) = [] := by
  rw [b64Symbols, List.takeWhile_cons_of_neg (by decide)]
  rfl

theorem b64Symbols_blank {c : UInt8} (blank : b64Blank c = true) (text : List UInt8) :
    b64Symbols (c :: text) = b64Symbols text := by
  have other : c ≠ b64Padding := by
    rintro rfl
    exact absurd blank (by decide)
  simp [b64Symbols, List.takeWhile_cons, other, blank]

theorem b64Symbols_symbol {c : UInt8} (other : c ≠ b64Padding) (shown : b64Blank c = false)
    (text : List UInt8) : b64Symbols (c :: text) = c :: b64Symbols text := by
  simp [b64Symbols, List.takeWhile_cons, other, shown]

/-! ### The shift register -/

/-- The bytes written and the bits of the register are the bits of the symbols read. -/
structure Registered (accumulator bits : Nat) (out : List UInt8) (values : List Nat) : Prop where
  few : bits < 8
  held : concat 8 (octets out) ++ BitGroups.bits bits accumulator = concat 6 values

theorem octets_append (out : List UInt8) (b : UInt8) :
    octets (out ++ [b]) = octets out ++ [b.toNat] :=
  List.map_append

section Register
variable {accumulator bits value : Nat} {out : List UInt8} {values : List Nat}
  (registered : Registered accumulator bits out values) (small : value < 2 ^ 6)
include registered small

theorem Registered.shifted : concat 8 (octets out) ++
    BitGroups.bits (bits + 6) ((accumulator <<< 6 ||| value) % 2 ^ 32) =
      concat 6 (values ++ [value]) := by
  have wide : bits + 6 ≤ 32 := by
    have few := registered.few
    omega
  rw [bits_mod wide, bits_shift bits 6 small, ← List.append_assoc, registered.held, concat_append,
    concat_singleton]

theorem Registered.keeps (fewer : ¬ 8 ≤ bits + 6) :
    Registered ((accumulator <<< 6 ||| value) % 2 ^ 32) (bits + 6) out (values ++ [value]) :=
  ⟨Nat.not_le.mp fewer, registered.shifted small⟩

theorem Registered.gives (enough : 8 ≤ bits + 6) :
    Registered ((accumulator <<< 6 ||| value) % 2 ^ 32) (bits + 6 - 8)
      (out ++ [.ofNat (((accumulator <<< 6 ||| value) % 2 ^ 32) >>> (bits + 6 - 8) &&& 0xff)])
      (values ++ [value]) := by
  have shifted := registered.shifted small
  generalize (accumulator <<< 6 ||| value) % 2 ^ 32 = register at shifted ⊢
  have split : bits + 6 = 8 + (bits + 6 - 8) := by omega
  have few := registered.few
  refine ⟨by omega, ?_⟩
  have byte : (UInt8.ofNat (register >>> (bits + 6 - 8) &&& 0xff)).toNat =
      register >>> (bits + 6 - 8) % 2 ^ 8 := by
    have low : register >>> (bits + 6 - 8) &&& 0xff = register >>> (bits + 6 - 8) % 2 ^ 8 :=
      Nat.and_two_pow_sub_one_eq_mod _ 8
    rw [low, UInt8.toNat_ofNat', Nat.mod_mod]
  rw [split, bits_add, ← List.append_assoc] at shifted
  rw [octets_append, concat_append, concat_singleton, byte, bits_mod (Nat.le_refl 8)]
  exact shifted

end Register

/-! ### Decoding -/

/-- The bytes of the whole loop, `left` of the bits not being part of a byte. -/
structure Regrouped (result : B64Decoded) (left : Nat) (values : List Nat) : Prop where
  returned : result.result = if 6 ≤ left then 0 else result.written.length
  bits : ∃ rest, rest.length = left ∧ concat 8 (octets result.written) ++ rest = concat 6 values

theorem b64Finish_regrouped {accumulator bits : Nat} {out : List UInt8} {values : List Nat}
    (registered : Registered accumulator bits out values) :
    Regrouped (b64Finish bits out) bits values := by
  have written : (b64Finish bits out).written = out := by
    rw [b64Finish]
    split
    · rfl
    · rfl
  refine ⟨?_, BitGroups.bits bits accumulator, bits_length bits accumulator, ?_⟩
  · rw [written, b64Finish]
    split
    · rfl
    · rfl
  · rw [written]
    exact registered.held

theorem b64DecodeLoop_valid {outSize : Nat} {text : List UInt8} {accumulator bits : Nat}
    {out : List UInt8} {before values : List Nat}
    (registered : Registered accumulator bits out before) (valid : Values (b64Symbols text) values)
    (room : out.length + (bits + 6 * values.length) / 8 ≤ outSize) :
    Regrouped (b64DecodeLoop outSize text accumulator bits out) ((bits + 6 * values.length) % 8)
      (before ++ values) := by
  have finish {accumulator bits : Nat} {out : List UInt8} {before values : List Nat}
      (registered : Registered accumulator bits out before) (valid : Values [] values) :
      Regrouped (b64Finish bits out) ((bits + 6 * values.length) % 8) (before ++ values) := by
    have none : values = [] := List.map_eq_nil_iff.mp valid.symm
    have few : (bits + 6 * values.length) % 8 = bits := by
      rw [none]
      exact Nat.mod_eq_of_lt registered.few
    rw [few, none, List.append_nil]
    exact b64Finish_regrouped registered
  induction text generalizing accumulator bits out before values with
  | nil => exact finish registered valid
  | cons c text ih =>
      rw [b64DecodeLoop]
      by_cases padding : c = b64Padding
      · rw [if_pos padding]
        rw [padding, b64Symbols_padding] at valid
        exact finish registered valid
      rw [if_neg padding]
      by_cases blank : b64Blank c = true
      · rw [if_pos blank]
        rw [b64Symbols_blank blank] at valid
        exact ih registered valid room
      rw [if_neg blank]
      rw [b64Symbols_symbol padding (Bool.eq_false_iff.mpr blank)] at valid
      obtain ⟨value, rest, head, tail, rfl⟩ := values_cons.mp valid
      rw [head]
      dsimp only
      have small := b64ValueOf_lt head
      rw [List.length_cons] at room ⊢
      split
      case isTrue enough =>
        rw [if_neg (by omega)]
        have later := ih (registered.gives small enough) tail (by
          rw [List.length_append, List.length_singleton]
          omega)
        have same : (bits + 6 - 8 + 6 * rest.length) % 8 = (bits + 6 * (rest.length + 1)) % 8 := by
          omega
        rw [same, List.append_assoc, List.singleton_append] at later
        exact later
      case isFalse fewer =>
        have later := ih (registered.keeps small fewer) tail (by omega)
        have same : (bits + 6 + 6 * rest.length) % 8 = (bits + 6 * (rest.length + 1)) % 8 := by
          omega
        rw [same, List.append_assoc, List.singleton_append] at later
        exact later

theorem b64DecodeLoop_some {outSize : Nat} {text : List UInt8} {accumulator bits : Nat}
    {out : List UInt8} (few : bits < 8)
    (given : 0 < (b64DecodeLoop outSize text accumulator bits out).result)
    (fits : out.length ≤ outSize) :
    ∃ values, Values (b64Symbols text) values ∧
      out.length + (bits + 6 * values.length) / 8 ≤ outSize := by
  have finish : out.length + (bits + 6 * ([] : List Nat).length) / 8 ≤ outSize := by
    rw [List.length_nil]
    omega
  induction text generalizing accumulator bits out with
  | nil => exact ⟨[], rfl, finish⟩
  | cons c text ih =>
      rw [b64DecodeLoop] at given
      by_cases padding : c = b64Padding
      · rw [padding, b64Symbols_padding]
        exact ⟨[], rfl, finish⟩
      rw [if_neg padding] at given
      by_cases blank : b64Blank c = true
      · rw [if_pos blank] at given
        rw [b64Symbols_blank blank]
        exact ih few given fits finish
      rw [if_neg blank] at given
      rw [b64Symbols_symbol padding (Bool.eq_false_iff.mpr blank)]
      split at given
      · exact nomatch given
      · rename_i value head
        dsimp only at given
        split at given
        case isTrue enough =>
          split at given
          case isTrue => exact nomatch given
          case isFalse room =>
            have grown := @List.length_append _ out
              [UInt8.ofNat (((accumulator <<< 6 ||| value) % 2 ^ 32) >>> (bits + 6 - 8) &&& 0xff)]
            rw [List.length_singleton] at grown
            obtain ⟨values, tail, bound⟩ := ih (by omega) given (by omega) (by
              rw [List.length_nil]
              omega)
            refine ⟨value :: values, values_cons.mpr ⟨value, values, head, tail, rfl⟩, ?_⟩
            rw [List.length_cons]
            omega
        case isFalse fewer =>
          obtain ⟨values, tail, bound⟩ := ih (by omega) given fits (by
            rw [List.length_nil]
            omega)
          refine ⟨value :: values, values_cons.mpr ⟨value, values, head, tail, rfl⟩, ?_⟩
          rw [List.length_cons]
          omega

/-! ### Encoding -/

theorem b64Group_bytes (a b c : UInt8) :
    BitGroups.bits 24 (b64Group a b c) = concat 8 (octets [a, b, c]) := by
  have shifted : b.toNat <<< 8 < 2 ^ 16 := by
    rw [Nat.shiftLeft_eq]
    have byte := UInt8.toNat_lt b
    omega
  have low : b.toNat <<< 8 ||| c.toNat < 2 ^ 16 :=
    Nat.or_lt_two_pow shifted (Nat.lt_trans (UInt8.toNat_lt c) (by decide))
  rw [b64Group, bits_shift 8 16 low, bits_shift 8 8 (UInt8.toNat_lt c)]
  simp [octets, concat]

theorem b64Group_symbols (group : Nat) :
    concat 6 [group >>> 18, group >>> 12, group >>> 6, group] = BitGroups.bits 24 group := by
  rw [bits_add 6 18 group, bits_add 6 12 group, bits_add 6 6 group]
  simp [concat]

/-- The numbers whose low bits the symbols are, and how many of these bits no byte has. -/
structure Encodes (x : List UInt8) (groups : List Nat) : Prop where
  text : ∃ padding, b64Encoded x = groups.map b64Symbol ++ padding ∧
    ∀ p ∈ padding, p = b64Padding
  bits : ∃ tail, tail.length < 6 ∧ concat 6 groups = concat 8 (octets x) ++ tail

theorem b64Encoded_encodes (x : List UInt8) : ∃ groups, Encodes x groups := by
  induction x using b64Encoded.induct with
  | case1 => exact ⟨[], ⟨[], rfl, nofun⟩, [], by decide, rfl⟩
  | case2 a =>
      let group := b64Group a 0 0
      refine ⟨[group >>> 18, group >>> 12], ⟨[b64Padding, b64Padding], rfl, by simp⟩, ?_⟩
      have all := (b64Group_symbols group).trans (b64Group_bytes a 0 0)
      refine ⟨(BitGroups.bits 8 0).take 4, by decide, ?_⟩
      have front := congrArg (List.take 12) all
      simpa [concat, octets, List.take_append, List.take_of_length_le] using front
  | case3 a b =>
      let group := b64Group a b 0
      refine ⟨[group >>> 18, group >>> 12, group >>> 6], ⟨[b64Padding], rfl, by simp⟩, ?_⟩
      have all := (b64Group_symbols group).trans (b64Group_bytes a b 0)
      refine ⟨(BitGroups.bits 8 0).take 2, by decide, ?_⟩
      have front := congrArg (List.take 18) all
      simpa [concat, octets, List.take_append, List.take_of_length_le] using front
  | case4 a b c rest ih =>
      let group := b64Group a b c
      obtain ⟨groups, ⟨padding, text, pads⟩, tail, short, bits⟩ := ih
      refine ⟨[group >>> 18, group >>> 12, group >>> 6, group] ++ groups,
        ⟨padding, ?_, pads⟩, tail, short, ?_⟩
      · rw [b64Encoded, text]
        rfl
      · have all := (b64Group_symbols group).trans (b64Group_bytes a b c)
        rw [concat_append, all, bits, ← List.append_assoc, ← concat_append]
        rfl

/-! ### The promise -/

theorem octets_small (bytes : List UInt8) : ∀ n ∈ octets bytes, n < 2 ^ 8 := by
  intro n inside
  obtain ⟨b, -, rfl⟩ := List.mem_map.mp inside
  exact UInt8.toNat_lt b

theorem octets_length (bytes : List UInt8) : (octets bytes).length = bytes.length :=
  List.length_map _

theorem octets_injective {a b : List UInt8} (length : a.length = b.length)
    (same : concat 8 (octets a) = concat 8 (octets b)) : a = b := by
  have octets_same : octets a = octets b := concat_injective (octets_small a) (octets_small b)
    (by rw [octets_length, octets_length, length]) same
  exact List.map_injective_iff.mpr (fun _ _ => UInt8.toNat_inj.mp) octets_same

theorem concat_mod (groups : List Nat) : concat 6 (groups.map (· % 2 ^ 6)) = concat 6 groups := by
  rw [concat, List.flatMap_map]
  exact congrArg (groups.flatMap ·) (funext fun n => bits_mod (Nat.le_refl 6) n)

theorem b64Symbols_of_filter {text : List UInt8} :
    b64Symbols text = (text.filter fun c => !b64Blank c).takeWhile (· ≠ b64Padding) := by
  induction text with
  | nil => rfl
  | cons c text ih =>
      by_cases padding : c = b64Padding
      · rw [padding, b64Symbols_padding, List.filter_cons_of_pos (by decide),
          List.takeWhile_cons_of_neg (by decide)]
      · cases blank : b64Blank c with
        | true =>
            rw [b64Symbols_blank blank, List.filter_cons_of_neg (by rw [blank]; decide), ih]
        | false =>
            rw [b64Symbols_symbol padding blank, List.filter_cons_of_pos (by rw [blank]; rfl), ih]
            simp [List.takeWhile_cons, padding]

theorem values_symbols (groups : List Nat) :
    Values (groups.map b64Symbol) (groups.map (· % 2 ^ 6)) := by
  rw [Values, List.map_map, List.map_map]
  exact List.map_congr_left fun g _ => (b64Symbol_value g).1

theorem b64Symbols_encoded {text padding : List UInt8} {groups : List Nat}
    (spaced : (text.filter fun c => !b64Blank c) = groups.map b64Symbol ++ padding)
    (pads : ∀ p ∈ padding, p = b64Padding) : b64Symbols text = groups.map b64Symbol := by
  rw [b64Symbols_of_filter, spaced]
  have symbols : ∀ c ∈ groups.map b64Symbol, decide (c ≠ b64Padding) = true := by
    intro c inside
    obtain ⟨g, -, rfl⟩ := List.mem_map.mp inside
    exact decide_eq_true (b64Symbol_value g).2.1
  rw [List.takeWhile_append_of_pos symbols]
  cases padding with
  | nil => rw [List.takeWhile_nil, List.append_nil]
  | cons p padding =>
      rw [pads p List.mem_cons_self, List.takeWhile_cons_of_neg (by decide), List.append_nil]

theorem registered_start : Registered 0 0 [] [] :=
  ⟨by decide, rfl⟩

theorem leB64Decode_encoded {x text : List UInt8} {outSize : Nat}
    (spaced : (text.filter fun c => !b64Blank c) = b64Encoded x) (room : x.length ≤ outSize) :
    leB64Decode text outSize = ⟨x.length, x⟩ := by
  obtain ⟨groups, ⟨padding, encoded, pads⟩, tail, short, bits⟩ := b64Encoded_encodes x
  have valid : Values (b64Symbols text) (groups.map (· % 2 ^ 6)) := by
    rw [b64Symbols_encoded (spaced.trans encoded) pads]
    exact values_symbols groups
  have count : 6 * groups.length = 8 * x.length + tail.length := by
    have lengths := congrArg List.length bits
    rw [concat_length, List.length_append, concat_length, octets_length] at lengths
    exact lengths
  have decoded := @b64DecodeLoop_valid outSize _ _ _ _ _ _ registered_start valid (by
    rw [List.length_map, List.length_nil]
    omega)
  rw [List.length_map, List.nil_append] at decoded
  have left : (0 + 6 * groups.length) % 8 = tail.length := by omega
  rw [left] at decoded
  obtain ⟨returned, rest, length, same⟩ := decoded
  rw [concat_mod, bits] at same
  rw [if_neg (Nat.not_le.mpr short)] at returned
  obtain ⟨front, -⟩ := List.append_inj' same length
  have lengths := congrArg List.length front
  rw [concat_length, concat_length, octets_length, octets_length] at lengths
  have written : (leB64Decode text outSize).written = x :=
    octets_injective (Nat.eq_of_mul_eq_mul_left (by decide) lengths) front
  rw [leB64Decode] at written ⊢
  rw [written] at returned
  generalize b64DecodeLoop outSize text 0 0 [] = result at returned written
  cases result
  exact congrArg₂ B64Decoded.mk returned written

/-- What a decoded text is: symbols of the alphabets, no single one left over, their bits in
bytes. -/
structure B64Text (text : List UInt8) (n : Nat) (written : List UInt8) : Prop where
  alphabet : ∀ c ∈ text.takeWhile (· ≠ b64Padding), b64Blank c = true ∨ (b64ValueOf c).isSome = true
  whole : (b64Symbols text).length % 4 ≠ 1
  count : n = 6 * (b64Symbols text).length / 8
  length : written.length = n
  bits : concat 8 (octets written) =
    (concat 6 ((b64Symbols text).filterMap b64ValueOf)).take (8 * n)

theorem leB64Decode_text {text : List UInt8} {outSize : Nat}
    (given : 0 < (leB64Decode text outSize).result) :
    B64Text text (leB64Decode text outSize).result (leB64Decode text outSize).written := by
  obtain ⟨values, valid, room⟩ := b64DecodeLoop_some (by decide) given (Nat.zero_le _)
  have decoded := b64DecodeLoop_valid registered_start valid room
  rw [List.nil_append, Nat.zero_add] at decoded
  have symbols : (b64Symbols text).length = values.length := by
    rw [← List.length_map (f := b64ValueOf), valid, List.length_map]
  have filtered : (b64Symbols text).filterMap b64ValueOf = values := by
    have mapped : (b64Symbols text).filterMap b64ValueOf =
        ((b64Symbols text).map b64ValueOf).filterMap id := by
      rw [List.filterMap_map]
      rfl
    rw [mapped, valid, List.filterMap_map]
    exact List.filterMap_some
  obtain ⟨returned, rest, left, same⟩ := decoded
  rw [leB64Decode] at given ⊢
  generalize b64DecodeLoop outSize text 0 0 [] = result at given returned same ⊢
  split at returned
  case isTrue => exact absurd returned (Nat.ne_of_gt given)
  case isFalse few =>
    have lengths := congrArg List.length same
    rw [List.length_append, concat_length, concat_length, octets_length, left] at lengths
    refine ⟨fun c inside => ?_, ?_, ?_, returned.symm, ?_⟩
    · cases blank : b64Blank c with
      | true => exact .inl rfl
      | false =>
          have member : c ∈ b64Symbols text :=
            List.mem_filter.mpr ⟨inside, by rw [blank]; rfl⟩
          have value : b64ValueOf c ∈ values.map some := valid ▸ List.mem_map_of_mem member
          obtain ⟨v, -, some⟩ := List.mem_map.mp value
          exact .inr (some ▸ rfl)
    · rw [symbols]
      omega
    · rw [symbols, returned]
      omega
    · rw [filtered, ← same, returned]
      exact (List.take_left' (by rw [concat_length, octets_length])).symm

/-- Decoding inverts encoding, whatever white space is put into the text, and what is decoded at
all is a whole number of bytes. -/
theorem leB64_codec :
    (∀ (x text : List UInt8) (encodeSize decodeSize : Nat),
      leB64EncodedSize x.length + 1 ≤ encodeSize → x.length ≤ decodeSize →
      (text.filter fun c => !b64Blank c) = leB64Encode x encodeSize →
      leB64Decode text decodeSize = ⟨x.length, x⟩) ∧
    ∀ (text : List UInt8) (outSize : Nat), 0 < (leB64Decode text outSize).result →
      B64Text text (leB64Decode text outSize).result (leB64Decode text outSize).written := by
  refine ⟨fun x text encodeSize decodeSize enough room spaced => ?_, fun text outSize given =>
    leB64Decode_text given⟩
  rw [leB64Encode, if_neg (Nat.not_lt.mpr enough)] at spaced
  exact leB64Decode_encoded spaced room

/-- The text "Zm 9v" with white space in it. -/
theorem leB64_codec_foo : leB64Decode [0x5a, 0x6d, 0x20, 0x39, 0x76] 3 = ⟨3, [0x66, 0x6f, 0x6f]⟩ ∧
    B64Text [0x5a, 0x6d, 0x20, 0x39, 0x76] 3 [0x66, 0x6f, 0x6f] :=
  ⟨leB64_codec.1 [0x66, 0x6f, 0x6f] [0x5a, 0x6d, 0x20, 0x39, 0x76] 5 3 (by decide) (by decide)
    (by decide +kernel), leB64_codec.2 [0x5a, 0x6d, 0x20, 0x39, 0x76] 3 (by decide +kernel)⟩

end LibreEcho.Live
