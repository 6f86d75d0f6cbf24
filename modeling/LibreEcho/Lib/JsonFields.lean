import LibreEcho.Lib.ByteText
import LibreEcho.Lib.JsonGrammar

/-!
What a JSON object says: its members in order, and the text of a string.
-/
namespace JsonGrammar

/-- Members, each with the text between its name's quotes and the text of its value. -/
inductive Fields (d : Nat) : List (Bytes × Bytes) → Bytes → Prop where
  | last {k w w' v : Bytes} : Chars k → Spaces w → Spaces w' → Derives .value d v →
      Fields d [(k, v)] (quote :: (k ++ quote :: (w ++ colon :: (w' ++ v))))
  | more {k w w' v w₁ w₂ m : Bytes} {fields : List (Bytes × Bytes)} : Chars k → Spaces w →
      Spaces w' → Derives .value d v → Spaces w₁ → Spaces w₂ → Fields d fields m →
      Fields d ((k, v) :: fields)
        (quote :: (k ++ quote :: (w ++ colon :: (w' ++ (v ++ (w₁ ++ comma :: (w₂ ++ m)))))))

def Record (d : Nat) (fields : List (Bytes × Bytes)) (s : Bytes) : Prop :=
  ∃ w₀ w m w' w₁, Spaces w₀ ∧ Spaces w ∧ Fields d fields m ∧ Spaces w' ∧ Spaces w₁ ∧
    s = w₀ ++ lbrace :: (w ++ (m ++ (w' ++ rbrace :: w₁)))

theorem fields_derives {d : Nat} {fields : List (Bytes × Bytes)} {m : Bytes}
    (members : Fields d fields m) : Derives .members d m := by
  induction members with
  | @last k w w' v chars spaces spaces' value =>
      have derived : Derives .members d _ := .member (.quoted chars) spaces spaces' value
      simpa using derived
  | @more k w w' v w₁ w₂ m fields chars spaces spaces' value spaces₁ spaces₂ _ ih =>
      have derived : Derives .members d _ :=
        .members (.quoted chars) spaces spaces' value spaces₁ spaces₂ ih
      simpa using derived

theorem record_objectText {d : Nat} {fields : List (Bytes × Bytes)} {s : Bytes}
    (record : Record d fields s) : ObjectText (d + 1) s := by
  obtain ⟨w₀, w, m, w', w₁, spaces₀, spaces, members, spaces', spaces₁, rfl⟩ := record
  have object := Derives.object spaces (fields_derives members) spaces'
  exact ⟨w₀, _, w₁, spaces₀, object, spaces₁, by simp⟩

theorem objectText_visible {d : Nat} {s : Bytes} (object : ObjectText d s) : Visible s := by
  obtain ⟨w, text, w', spaces, derived, spaces', rfl⟩ := object
  exact (visible_spaces spaces).append ((derives_visible derived).append (visible_spaces spaces'))

/-! ### The text of a string -/

def escapes : List (UInt8 × UInt8) :=
  [(quote, quote), (backslash, backslash), (slash, slash), (letterB, 0x08), (letterF, 0x0c),
    (letterN, 0x0a), (letterR, 0x0d), (letterT, 0x09)]

def hexDigitValue (b : UInt8) : Nat :=
  if b ≤ 0x39 then b.toNat - 0x30 else if b ≤ 0x46 then b.toNat - 0x41 + 10 else b.toNat - 0x61 + 10

def Quad (digits : Bytes) (n : Nat) : Prop :=
  digits.length = 4 ∧ (∀ b ∈ digits, isHex b = true) ∧
    n = digits.foldl (fun sum b => sum * 16 + hexDigitValue b) 0

/-! A byte written in hexadecimal is part of a string. -/

theorem hexDigit_isHex {d : Nat} (digit : d < 16) : isHex (ByteText.hexDigit d) = true := by
  have all : ∀ d : Fin 16, isHex (ByteText.hexDigit d) = true := by decide
  exact all ⟨d, digit⟩

theorem hex_digits (c : UInt8) : c.toNat / 16 < 16 ∧ c.toNat % 16 < 16 := by
  have small := c.toNat_lt
  omega

theorem chars_hex (c : UInt8) : Chars [backslash, letterU, zero, zero,
    ByteText.hexDigit (c.toNat / 16), ByteText.hexDigit (c.toNat % 16)] := by
  obtain ⟨high, low⟩ := hex_digits c
  have hex : ∀ b ∈ [zero, zero, ByteText.hexDigit (c.toNat / 16), ByteText.hexDigit (c.toNat % 16)],
      isHex b = true := by
    intro b member
    simp only [List.mem_cons, List.not_mem_nil, or_false] at member
    rcases member with rfl | rfl | rfl | rfl
    · rfl
    · rfl
    · exact hexDigit_isHex high
    · exact hexDigit_isHex low
  exact Chars.unicode rfl hex .nil

/-- The bytes that the text between a string's quotes stands for, in UTF-8. -/
inductive Spells : Bytes → Bytes → Prop where
  | nil : Spells [] []
  | plain {b : UInt8} {s t : Bytes} : isPlain b = true → Spells s t → Spells (b :: s) (b :: t)
  | escape {mark c : UInt8} {s t : Bytes} : (mark, c) ∈ escapes → Spells s t →
      Spells (backslash :: mark :: s) (c :: t)
  | unicode {digits s t : Bytes} {c : Char} : Quad digits c.toNat → Spells s t →
      Spells (backslash :: letterU :: (digits ++ s)) (String.utf8EncodeChar c ++ t)
  | pair {high low : Nat} {digits digits' s t : Bytes} {c : Char} : Quad digits high →
      Quad digits' low → 0xd800 ≤ high ∧ high ≤ 0xdbff → 0xdc00 ≤ low ∧ low ≤ 0xdfff →
      c.toNat = 0x10000 + (high - 0xd800) * 0x400 + (low - 0xdc00) → Spells s t →
      Spells (backslash :: letterU :: (digits ++ backslash :: letterU :: (digits' ++ s)))
        (String.utf8EncodeChar c ++ t)

theorem spells_append {s t s' t' : Bytes} (first : Spells s t) (second : Spells s' t') :
    Spells (s ++ s') (t ++ t') := by
  induction first with
  | nil => exact second
  | plain here _ ih => exact .plain here ih
  | escape known _ ih => exact .escape known ih
  | unicode quad _ ih =>
      simp only [List.cons_append, List.append_assoc]
      exact .unicode quad ih
  | pair quad quad' high low value _ ih =>
      simp only [List.cons_append, List.append_assoc]
      exact .pair quad quad' high low value ih

theorem spells_plain {s : Bytes} (plain : ∀ b ∈ s, isPlain b = true) : Spells s s := by
  induction s with
  | nil => exact .nil
  | cons b s ih =>
      obtain ⟨here, later⟩ := List.forall_mem_cons.mp plain
      exact .plain here (ih later)

theorem spells_chars {s t : Bytes} (spelled : Spells s t) : Chars s := by
  induction spelled with
  | nil => exact .nil
  | plain here _ ih => exact .plain here ih
  | @escape mark c s t known _ ih =>
      have marks : (escapes.all fun e => isEscape e.1) = true := rfl
      exact .escape (List.all_eq_true.mp marks _ known) ih
  | unicode quad _ ih => exact .unicode quad.1 quad.2.1 ih
  | pair quad quad' _ _ _ _ ih => exact .unicode quad.1 quad.2.1 (.unicode quad'.1 quad'.2.1 ih)

theorem spells_control {c : UInt8} (control : c < 0x20) :
    Spells [backslash, letterU, zero, zero, ByteText.hexDigit (c.toNat / 16), ByteText.hexDigit (c.toNat % 16)] [c] := by
  have all : ∀ n : Fin 32,
      (∀ b ∈ [zero, zero, ByteText.hexDigit (n.val / 16), ByteText.hexDigit (n.val % 16)], isHex b = true) ∧
        (Char.ofNat n.val).toNat = ([zero, zero, ByteText.hexDigit (n.val / 16), ByteText.hexDigit (n.val % 16)].foldl
          (fun sum b => sum * 16 + hexDigitValue b) 0) ∧
        String.utf8EncodeChar (Char.ofNat n.val) = [UInt8.ofNat n.val] := by decide
  obtain ⟨hex, value, bytes⟩ := all ⟨c.toNat, UInt8.lt_iff_toNat_lt.mp control⟩
  have spelled := Spells.unicode ⟨rfl, hex, value⟩ .nil
  rw [bytes, UInt8.ofNat_toNat, List.append_nil] at spelled
  exact spelled

/-! ### What is written -/

theorem plain_name {name : Bytes} (plain : ∀ b ∈ name, isPlain b = true) : Chars name := by
  induction name with
  | nil => exact .nil
  | cons b name ih =>
      obtain ⟨here, later⟩ := List.forall_mem_cons.mp plain
      exact .plain here (ih later)

theorem integer_decimal (n : Nat) : Integer (ByteText.decimal n) := by
  rcases Nat.eq_zero_or_pos n with rfl | positive
  · exact .zero
  · exact .digits ⟨ByteText.decimal_ne_nil n, fun _ => ByteText.decimal_isDigit⟩
      (ByteText.decimal_head positive)

theorem number_decimal (n : Nat) : Number (ByteText.decimal n) := by
  have number := Number.parts (.inl rfl) (integer_decimal n) .none .none
  simpa using number

end JsonGrammar
