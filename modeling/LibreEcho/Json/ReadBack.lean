import LibreEcho.Json.Complete
import LibreEcho.Json.Cursor
import LibreEcho.Lib.JsonFields
import Mathlib

/-!
Which escaped texts read back.

The escaping of any text is the inside of a JSON string, so every reader finds
the whole value. Decoding it stops at the first control byte: the reader tests
the bytes its escapes stand for as if they stood in the text.
-/
namespace LibreEcho.Json
open JsonGrammar ByteText

def Clean (t : Bytes) : Prop :=
  ∀ b ∈ t, 0x20 ≤ b

instance (t : Bytes) : Decidable (Clean t) :=
  bytesDecidable t

def escaped (t : Bytes) : Bytes :=
  t.flatMap escapeByte

@[simp] theorem escaped_cons (c : UInt8) (t : Bytes) : escaped (c :: t) = escapeByte c ++ escaped t :=
  rfl

theorem clean_cons {c : UInt8} {t : Bytes} : Clean (c :: t) ↔ 0x20 ≤ c ∧ Clean t :=
  List.forall_mem_cons

variable {c : UInt8} {t k p out : Bytes} {z rounds : Nat}

/-! ### The escaping -/

/-- How a byte is written: behind a backslash, as it stands, or in hexadecimal. -/
inductive Written (c : UInt8) : Prop where
  | marked (mark : UInt8) : escapeByte c = [backslash, mark] → escapeValue mark = some c →
      isEscape mark = true → Written c
  | plain : escapeByte c = [c] → isPlain c = true → Written c
  | hex : escapeByte c =
      [backslash, letterU, zero, zero, hexDigit (c.toNat / 16), hexDigit (c.toNat % 16)] →
      c < 32 → Written c

theorem written (c : UInt8) : Written c := by
  by_cases quoted : c = quote
  · subst quoted
    exact .marked quote rfl rfl rfl
  by_cases slashed : c = backslash
  · subst slashed
    exact .marked backslash rfl rfl rfl
  by_cases line : c = 10
  · subst line
    exact .marked letterN rfl rfl rfl
  by_cases ret : c = 13
  · subst ret
    exact .marked letterR rfl rfl rfl
  by_cases tab : c = 9
  · subst tab
    exact .marked letterT rfl rfl rfl
  have text : escapeByte c = if 32 ≤ c then [c] else
      [backslash, letterU, zero, zero, hexDigit (c.toNat / 16), hexDigit (c.toNat % 16)] := by
    rw [escapeByte, if_neg (not_or.mpr ⟨quoted, slashed⟩), if_neg line, if_neg ret, if_neg tab]
  by_cases above : 32 ≤ c
  · rw [if_pos above] at text
    exact .plain text (by simp [isPlain, above, quoted, slashed])
  · rw [if_neg above] at text
    exact .hex text (UInt8.not_le.mp above)

theorem escapeByte_chars (c : UInt8) : Chars (escapeByte c) := by
  cases written c with
  | marked mark text _ known =>
      rw [text]
      exact .escape known .nil
  | plain text plain =>
      rw [text]
      exact .plain plain .nil
  | hex text _ =>
      rw [text]
      exact chars_hex c

theorem escaped_chars (t : Bytes) : Chars (escaped t) := by
  induction t with
  | nil => exact .nil
  | cons c t ih => exact chars_append (escapeByte_chars c) ih

theorem escapeWidth_le (c : UInt8) : escapeWidth c ≤ 6 := by
  rw [escapeWidth]
  split
  · decide
  · split
    · decide
    · decide

theorem escapeByte_length (c : UInt8) : 1 ≤ (escapeByte c).length ∧ (escapeByte c).length ≤ 6 := by
  cases written c with
  | marked _ text _ _ | plain text _ | hex text _ =>
      rw [text]
      simp only [List.length_cons, List.length_nil]
      decide

theorem escapeLoop_fits (input : Bytes) {out : Bytes}
    (fits : out.length + 6 * input.length + 1 ≤ z) :
    escapeLoop z input out = out ++ escaped input := by
  induction input generalizing out with
  | nil => exact (List.append_nil out).symm
  | cons c input ih =>
      have width := escapeWidth_le c
      have short := (escapeByte_length c).2
      rw [List.length_cons] at fits
      rw [escapeLoop, if_neg (by omega), ih, escaped_cons, List.append_assoc]
      rw [List.length_append]
      omega

theorem jsonEscape_fits (fits : 6 * t.length + 1 ≤ z) : jsonEscape z t = escaped t := by
  rw [jsonEscape, escapeLoop_fits t (by rw [List.length_nil]; omega), List.nil_append]

/-! ### Decoding -/

theorem getStringLoop_quote : getStringLoop z (rounds + 1) (quote :: p) out = some out := by
  rw [getStringLoop.eq_def]
  exact if_pos rfl

theorem getStringLoop_plain (notQuote : c ≠ quote) (notSlash : c ≠ backslash) :
    getStringLoop z (rounds + 1) (c :: p) out =
      if c < 32 ∨ z < out.length + 2 then none else getStringLoop z rounds p (out ++ [c]) := by
  rw [getStringLoop.eq_def]
  simp only
  rw [if_neg notQuote, if_neg notSlash]

theorem getStringLoop_escape {mark : UInt8} (known : escapeValue mark = some c)
    (other : mark ≠ letterU) :
    getStringLoop z (rounds + 1) (backslash :: mark :: p) out =
      if c < 32 ∨ z < out.length + 2 then none else getStringLoop z rounds p (out ++ [c]) := by
  rw [getStringLoop.eq_def]
  simp only
  rw [if_neg (by decide), if_pos trivial, if_neg other, known]

theorem getStringLoop_unicode (refused : unicodeEscape p = none) :
    getStringLoop z (rounds + 1) (backslash :: letterU :: p) out = none := by
  rw [getStringLoop.eq_def]
  simp only
  rw [if_neg (by decide), if_pos trivial, if_pos trivial, refused]

theorem unicodeEscape_control (control : c < 32) : unicodeEscape
    (zero :: zero :: hexDigit (c.toNat / 16) :: hexDigit (c.toNat % 16) :: p) = none := by
  obtain ⟨high, low⟩ := hex_digits c
  have small : c.toNat < 32 := control
  have quad : hexQuad
      (zero :: zero :: hexDigit (c.toNat / 16) :: hexDigit (c.toNat % 16) :: p) =
        some (c.toNat, p) := by
    have zeroed : hexValue zero = some 0 := rfl
    have sum : 0 * 4096 + 0 * 256 + c.toNat / 16 * 16 + c.toNat % 16 = c.toNat := by omega
    rw [hexQuad, zeroed, hexValue_hexDigit high, hexValue_hexDigit low]
    simp only
    rw [sum]
  rw [unicodeEscape, quad]
  simp only
  rw [if_neg (by omega), if_neg (by omega)]
  exact if_pos (.inl small)

theorem getStringLoop_written (c : UInt8) : getStringLoop z (rounds + 1) (escapeByte c ++ p) out =
    if c < 32 ∨ z < out.length + 2 then none else getStringLoop z rounds p (out ++ [c]) := by
  cases written c with
  | marked mark text known escape =>
      rw [text]
      refine getStringLoop_escape known ?_
      rintro rfl
      exact absurd escape (by decide)
  | plain text plain =>
      simp only [isPlain, Bool.and_eq_true, bne_iff_ne] at plain
      rw [text]
      exact getStringLoop_plain plain.1.2 plain.2
  | hex text control =>
      rw [text, if_pos (.inl control)]
      exact getStringLoop_unicode (unicodeEscape_control control)

theorem getStringLoop_escaped (enough : t.length < rounds) (fits : out.length + t.length + 1 ≤ z) :
    getStringLoop z rounds (escaped t ++ quote :: p) out = if Clean t then some (out ++ t) else none := by
  induction t generalizing rounds out with
  | nil =>
      obtain ⟨rounds, rfl⟩ : ∃ n, rounds = n + 1 := ⟨rounds - 1, by omega⟩
      have clean : Clean [] := fun _ member => absurd member List.not_mem_nil
      rw [if_pos clean, List.append_nil]
      exact getStringLoop_quote
  | cons c t ih =>
      rw [List.length_cons] at enough fits
      obtain ⟨rounds, rfl⟩ : ∃ n, rounds = n + 1 := ⟨rounds - 1, by omega⟩
      rw [escaped_cons, List.append_assoc, getStringLoop_written]
      by_cases clean : 0x20 ≤ c
      · rw [if_neg (not_or.mpr ⟨UInt8.not_lt.mpr clean, by omega⟩), ih (by omega) (by
          rw [List.length_append, List.length_singleton]
          omega), List.append_assoc, List.singleton_append]
        simp only [clean_cons, clean, true_and]
      · rw [if_pos (.inl (UInt8.not_le.mp clean)), if_neg]
        exact fun all => clean (clean_cons.mp all).1

theorem jsonGetStringAt_escaped (p : Bytes) (fits : t.length < z) :
    jsonGetStringAt (quote :: (escaped t ++ quote :: p)) z = if Clean t then some t else none := by
  have long : t.length ≤ (escaped t).length := by
    induction t with
    | nil => exact Nat.le_refl _
    | cons c t ih =>
        have some := (escapeByte_length c).1
        rw [List.length_cons] at fits
        rw [escaped_cons, List.length_append, List.length_cons]
        have later := ih (by omega)
        omega
  rw [jsonGetStringAt, if_neg (by omega)]
  show (if quote ≠ quote then none else _) = _
  rw [if_neg (not_not_intro rfl), getStringLoop_escaped]
  · rw [List.nil_append]
  · rw [List.length_append]
    omega
  · rw [List.length_nil]
    omega

/-! ### A key that is found by name -/

/-- The bytes of a key may be control bytes, but none of them ends it. -/
abbrev KeyText (k : Bytes) : Prop :=
  quote ∉ k ∧ backslash ∉ k

theorem keyText_cons {b : UInt8} (key : KeyText (b :: k)) :
    b ≠ quote ∧ b ≠ backslash ∧ KeyText k :=
  ⟨(List.ne_of_not_mem_cons key.1).symm, (List.ne_of_not_mem_cons key.2).symm,
    List.not_mem_of_not_mem_cons key.1, List.not_mem_of_not_mem_cons key.2⟩

theorem keyText_chars (key : KeyText k) (clean : Clean k) : Chars k := by
  induction k with
  | nil => exact .nil
  | cons b k ih =>
      obtain ⟨above, later⟩ := clean_cons.mp clean
      obtain ⟨notQuote, notSlash, shorter⟩ := keyText_cons key
      refine .plain ?_ (ih shorter later)
      simp [isPlain, above, notQuote, notSlash]

theorem parseStringLoop_control {c : JsonCursor} (key : KeyText k) (control : ¬Clean k)
    (rest : c.rest = k ++ p) (enough : k.length < rounds) :
    parseStringLoop rounds c = .failed := by
  induction k generalizing c rounds with
  | nil => exact absurd (fun _ member => absurd member List.not_mem_nil) control
  | cons b k ih =>
      obtain ⟨rounds, rfl⟩ : ∃ n, rounds = n + 1 := ⟨rounds - 1, by omega⟩
      obtain ⟨notQuote, notSlash, shorter⟩ := keyText_cons key
      rw [parseStringLoop, guarded_cons rest]
      simp only
      rw [if_neg notQuote]
      by_cases above : 0x20 ≤ b
      · rw [if_neg (UInt8.not_lt.mpr above), if_pos notSlash]
        refine ih shorter (fun later => control (clean_cons.mpr ⟨above, later⟩))
          (rest_next rest) ?_
        rw [List.length_cons] at enough
        omega
      · rw [if_pos (UInt8.not_le.mp above)]

/-- The object `{"k":"…"}`. -/
def member (k value : Bytes) : Bytes :=
  lbrace :: quote :: (k ++ quote :: colon :: quote :: (value ++ [quote, rbrace]))

theorem start_member (k value : Bytes) :
    (JsonCursor.start (member k value)).rest =
      lbrace :: quote :: (k ++ quote :: colon :: quote :: (value ++ [quote, rbrace])) := rfl

theorem orNull_done (c : JsonCursor) (use : JsonCursor → Except Fault (Option Bytes)) :
    (Step.done c).orNull use = use c := rfl

theorem skipWs_still {c : JsonCursor} {b : UInt8} (solid : JsonGrammar.isSpace b = false)
    (rest : c.rest = b :: p) : skipWs c = .done c :=
  skipWs_all (w := []) spaces_nil (stops_cons solid) rest

theorem findTopLevelKey_member (key : KeyText k) (value : Bytes) (fuel : Nat) :
    findTopLevelKey (fuel + 1) (member k value) k =
      .ok (if Clean k then some (quote :: (value ++ [quote, rbrace])) else none) := by
  have rest := start_member k value
  have rest₁ := rest_next rest
  rw [findTopLevelKey, skipWs_still (by decide) rest, orNull_done, expect_takes (by decide) rest,
    orNull_done, topLevelLoop, skipWs_still (by decide) rest₁, orNull_done]
  by_cases clean : Clean k
  · have quoted : ((JsonCursor.start (member k value)).skip 1).rest =
        (quote :: (k ++ [quote])) ++ colon :: quote :: (value ++ [quote, rbrace]) := by
      rw [rest₁]
      simp
    have rest₂ := rest_past quoted
    have rest₃ := rest_next rest₂
    simp only
    rw [parseString_takes (.quoted (keyText_chars key clean)) quoted, orNull_done,
      skipWs_still (by decide) rest₂, orNull_done, expect_takes (by decide) rest₂, orNull_done,
      skipWs_still (by decide) rest₃, orNull_done]
    have name : ((member k value).drop 2).take k.length = k := List.take_left
    have place : 0 + 1 + (quote :: (k ++ [quote])).length - 1 - (0 + 1 + 1) = k.length := by
      simp only [List.length_cons, List.length_append, List.length_nil]
      omega
    refine (if_pos ?_).trans ?_
    · show ((member k value).drop 2).take
        (0 + 1 + (quote :: (k ++ [quote])).length - 1 - (0 + 1 + 1)) = k
      rw [place, name]
    · rw [if_pos clean]
      exact congrArg (fun rest => Except.ok (some rest)) rest₃
  · have failed : parseString ((JsonCursor.start (member k value)).skip 1) = .failed := by
      have rest₂ := rest_next rest₁
      rw [parseString, expect_takes (by decide) rest₁, done_andThen]
      refine parseStringLoop_control key clean rest₂ ?_
      rw [rounds_eq, rest₂, List.length_append]
      omega
    simp only
    rw [failed, if_neg clean]
    rfl

theorem jsonGetStringTopLevel_member (key : KeyText k) (fits : t.length < z) (fuel : Nat) :
    jsonGetStringTopLevel (fuel + 1) (member k (escaped t)) k z =
      .ok (if Clean k then if Clean t then .text t else .invalid else .absent) := by
  rw [jsonGetStringTopLevel, findTopLevelKey_member key]
  by_cases clean : Clean k
  · rw [if_pos clean, if_pos clean]
    have read := jsonGetStringAt_escaped (t := t) [rbrace] fits
    simp only [Except.map]
    rw [show escaped t ++ [quote, rbrace] = escaped t ++ quote :: [rbrace] from rfl, read]
    split
    · rfl
    · rfl
  · rw [if_neg clean, if_neg clean]
    rfl

/-! ### The value as a span -/

theorem spanIsSingleValue_string {v : Bytes} (str : Str v) (more : Nat) :
    ∃ c, spanIsSingleValue (parseFuel v.length + more) (.start v) = .done c := by
  have whole : (JsonCursor.start v).rest = [] ++ (v ++ []) := by
    rw [rest_start, List.append_nil, List.nil_append]
  have enough : 3 * (JsonCursor.start v).rest.length + 2 ≤ parseFuel v.length + more := by
    rw [rest_start, parseFuel]
    omega
  have none (p : UInt8 → Bool) : Stops p [] := fun _ here => absurd here (by simp)
  have value := derives_complete (.string (d := 0) str) _ [] [] _ spaces_nil (none _) whole
    (Nat.zero_le _) enough
  rw [List.length_nil, Nat.zero_add] at value
  have ended : ((JsonCursor.start v).skip v.length).rest = [] ++ [] :=
    rest_past (by rw [rest_start, List.append_nil, List.append_nil])
  refine ⟨(JsonCursor.start v).skip v.length, ?_⟩
  show (parseValue _ (JsonCursor.start v)).andThen _ = _
  rw [value, done_andThen, skipWs_all spaces_nil (none _) ended, done_andThen]
  exact if_pos (Nat.zero_add _)

theorem jsonStringSpan_escaped (fits : t.length + 1 < z) (more : Nat) :
    jsonStringSpan (parseFuel (quote :: (escaped t ++ [quote])).length + more)
      (quote :: (escaped t ++ [quote])) z = .ok (if Clean t then some t else none) := by
  have rest := rest_start (quote :: (escaped t ++ [quote]))
  obtain ⟨c, single⟩ := spanIsSingleValue_string (.quoted (escaped_chars t)) more
  rw [jsonStringSpan, if_neg (by omega), skipWs_still (by decide) rest, orNull_done,
    atEnd_cons rest]
  show (spanIsSingleValue _ (.start (quote :: (escaped t ++ [quote])))).orNull _ = _
  rw [single, orNull_done]
  exact congrArg Except.ok (jsonGetStringAt_escaped [] (Nat.lt_of_succ_lt fits))

/-! ### A key that is found by its text -/

theorem keyPattern_short (short : k.length ≤ 93) : keyPattern k = quote :: (k ++ [quote]) := by
  refine List.take_of_length_le ?_
  simp only [List.length_cons, List.length_append, List.length_nil]
  omega

theorem keyPattern_long (long : 94 ≤ k.length) : keyPattern k = quote :: k.take 94 := by
  rw [keyPattern, List.take_succ_cons, List.take_append_of_le_length long]

theorem strstr_member {pattern rest value : Bytes}
    (front : member k value = lbrace :: (pattern ++ rest)) (head : pattern.head? = some quote) :
    strstr pattern (member k value) = some (pattern ++ rest) := by
  have other : ¬pattern <+: lbrace :: (pattern ++ rest) := by
    cases pattern with
    | nil => exact absurd head (by simp)
    | cons b pattern =>
        intro first
        obtain ⟨same, _⟩ := List.cons_prefix_cons.mp first
        rw [List.head?_cons, same] at head
        exact absurd head (by decide)
  rw [front, strstr_later other, strstr_here]

theorem findKey_short (short : k.length ≤ 93) (value : Bytes) :
    findKey (member k value) k = some (quote :: (value ++ [quote, rbrace])) := by
  have front : member k value =
      lbrace :: ((quote :: (k ++ [quote])) ++ colon :: quote :: (value ++ [quote, rbrace])) := by
    simp [member]
  rw [findKey, keyPattern_short short, strstr_member front rfl]
  simp only
  rw [List.drop_left]
  rfl

/-- The cut pattern ends inside the key, and what follows it there is a colon. -/
def CutKey (k : Bytes) : Prop :=
  ∃ a b, (∀ x ∈ a, ByteText.isSpace x = true) ∧ (∀ x ∈ b, ByteText.isSpace x = true) ∧
    k.drop 94 = a ++ colon :: b

theorem dropWhile_quote (m q : Bytes) : (m ++ quote :: q).dropWhile ByteText.isSpace =
    m.dropWhile ByteText.isSpace ++ quote :: q := by
  rw [List.dropWhile_append]
  split
  · rename_i empty
    rw [List.isEmpty_iff.mp empty]
    rfl
  · rfl

theorem findKey_long (long : 94 ≤ k.length) (value : Bytes) : findKey (member k value) k =
    afterColon (k.drop 94 ++ quote :: colon :: quote :: (value ++ [quote, rbrace])) := by
  have front : member k value = lbrace :: ((quote :: k.take 94) ++
      (k.drop 94 ++ quote :: colon :: quote :: (value ++ [quote, rbrace]))) := by
    rw [List.cons_append, ← List.append_assoc, List.take_append_drop]
    rfl
  rw [findKey, keyPattern_long long, strstr_member front rfl]
  exact congrArg afterColon List.drop_left

theorem jsonGetString_cut (long : 94 ≤ k.length) (cut : CutKey k) (value : Bytes) (fits : 1 < z) :
    jsonGetString (member k value) k z = .text [colon] := by
  obtain ⟨a, b, spaceA, spaceB, split⟩ := cut
  have first : (k.drop 94).dropWhile ByteText.isSpace = colon :: b := by
    rw [split, List.dropWhile_append_of_pos spaceA]
    rfl
  have second : b.dropWhile ByteText.isSpace = [] := List.dropWhile_eq_nil_iff.mpr spaceB
  have read : jsonGetStringAt (quote :: colon :: quote :: (value ++ [quote, rbrace])) z =
      some [colon] := by
    have clean : Clean [colon] := by decide
    have text := jsonGetStringAt_escaped (t := [colon]) (value ++ [quote, rbrace]) fits
    rwa [if_pos clean] at text
  have found : afterColon (k.drop 94 ++ quote :: colon :: quote :: (value ++ [quote, rbrace])) =
      some (quote :: colon :: quote :: (value ++ [quote, rbrace])) := by
    rw [afterColon, dropWhile_quote, first, List.cons_append]
    simp only
    rw [if_neg (not_not_intro rfl), dropWhile_quote, second, List.nil_append]
  rw [jsonGetString, findKey_long long, found]
  exact congrArg stringRead read

theorem jsonGetString_uncut (long : 94 ≤ k.length) (key : KeyText k) (uncut : ¬CutKey k)
    (value : Bytes) (out : Bytes) : jsonGetString (member k value) k z ≠ .text out := by
  have whole := List.takeWhile_append_dropWhile (p := ByteText.isSpace) (l := k.drop 94)
  rw [jsonGetString, findKey_long long, afterColon, dropWhile_quote]
  cases first : (k.drop 94).dropWhile ByteText.isSpace with
  | nil => exact nofun
  | cons x b =>
      simp only [List.cons_append]
      by_cases separator : x = colon
      · rw [if_neg (not_not_intro separator), dropWhile_quote]
        cases second : b.dropWhile ByteText.isSpace with
        | nil =>
            refine absurd ⟨(k.drop 94).takeWhile ByteText.isSpace, b, ?_,
              List.dropWhile_eq_nil_iff.mp second, ?_⟩ uncut
            · exact fun y inside => List.mem_takeWhile_imp inside
            · rw [← separator, ← first, whole]
        | cons y rest =>
            have inside : y ∈ k := by
              have inB : y ∈ b := (List.dropWhile_suffix _).subset (second ▸ List.mem_cons_self)
              have inDrop : y ∈ k.drop 94 :=
                (List.dropWhile_suffix _).subset (first ▸ List.mem_cons_of_mem x inB)
              exact List.mem_of_mem_drop inDrop
            have other : y ≠ quote := fun same => key.1 (same ▸ inside)
            have refused (q : Bytes) : jsonGetStringAt (y :: q) z = none := by
              by_cases empty : z = 0
              · rw [jsonGetStringAt, if_pos empty]
              · rw [jsonGetStringAt, if_neg empty]
                exact if_pos other
            simp only [List.cons_append]
            rw [refused]
            exact nofun
      · rw [if_pos separator]
        exact nofun

def ReadsBack (z zEscaped more : Nat) (k t : Bytes) : Prop :=
  let value := jsonEscape zEscaped t
  jsonGetString (member k value) k z = .text t ∧
    jsonGetStringTopLevel (parseFuel (member k value).length + more) (member k value) k z =
      .ok (.text t) ∧
    jsonStringSpan (parseFuel (quote :: (value ++ [quote])).length + more)
      (quote :: (value ++ [quote])) z = .ok (some t)

end LibreEcho.Json
