import LibreEcho.Adapter.Wire
import LibreEcho.Lib.JsonFields

/-!
Strings written by one side of the adapter and read by the other.

Both sides escape every control byte. Reading takes the escapes of a backspace, a
tab, a line feed, a form feed and a carriage return, but of `\u00XX` it looks at
the first two digits, which are always zero.
-/
namespace LibreEcho.Adapter
open JsonGrammar ByteText

def Sendable (c : UInt8) : Prop :=
  0x20 ≤ c ∨ c ∈ [8, 9, 10, 12, 13]

instance (c : UInt8) : Decidable (Sendable c) :=
  inferInstanceAs (Decidable (_ ∨ _))

abbrev SendableText (t : Bytes) : Prop :=
  ∀ c ∈ t, Sendable c

def escaped (t : Bytes) : Bytes :=
  t.flatMap escapeByte

@[simp] theorem escaped_nil : escaped [] = [] := rfl

@[simp] theorem escaped_cons (c : UInt8) (t : Bytes) : escaped (c :: t) = escapeByte c ++ escaped t :=
  rfl

/-- How a byte is written: behind a backslash, as it stands, or in hexadecimal. -/
inductive Written (c : UInt8) : Prop where
  | marked (mark : UInt8) : escapeByte c = [backslash, mark] → escapeValue mark = some c →
      isEscape mark = true → Sendable c → Written c
  | plain : escapeByte c = [c] → isPlain c = true → Sendable c → Written c
  | hex : escapeByte c =
      [backslash, letterU, zero, zero, hexDigit (c.toNat / 16), hexDigit (c.toNat % 16)] →
      c < 0x20 → ¬Sendable c → Written c

theorem written (c : UInt8) : Written c := by
  by_cases quoted : c = quote
  · subst quoted
    exact .marked quote rfl rfl rfl (by decide)
  by_cases slashed : c = backslash
  · subst slashed
    exact .marked backslash rfl rfl rfl (by decide)
  by_cases back : c = 8
  · subst back
    exact .marked letterB rfl rfl rfl (by decide)
  by_cases feed : c = 12
  · subst feed
    exact .marked letterF rfl rfl rfl (by decide)
  by_cases line : c = 10
  · subst line
    exact .marked letterN rfl rfl rfl (by decide)
  by_cases ret : c = 13
  · subst ret
    exact .marked letterR rfl rfl rfl (by decide)
  by_cases tab : c = 9
  · subst tab
    exact .marked letterT rfl rfl rfl (by decide)
  have text : escapeByte c = if c < 0x20 then
      [backslash, letterU, zero, zero, hexDigit (c.toNat / 16), hexDigit (c.toNat % 16)]
      else [c] := by
    rw [escapeByte, if_neg (not_or.mpr ⟨quoted, slashed⟩), if_neg back, if_neg feed, if_neg line,
      if_neg ret, if_neg tab]
  by_cases control : c < 0x20
  · rw [if_pos control] at text
    refine .hex text control ?_
    simp [Sendable, UInt8.not_le.mpr control, back, feed, line, ret, tab]
  · rw [if_neg control] at text
    have above := UInt8.not_lt.mp control
    refine .plain text ?_ (.inl above)
    simp [isPlain, above, quoted, slashed]

theorem escapeByte_chars (c : UInt8) : Chars (escapeByte c) := by
  cases written c with
  | marked mark text _ known _ =>
      rw [text]
      exact .escape known .nil
  | plain text plain _ =>
      rw [text]
      exact .plain plain .nil
  | hex text _ _ =>
      rw [text]
      exact chars_hex c

theorem escaped_chars (t : Bytes) : Chars (escaped t) := by
  induction t with
  | nil => exact .nil
  | cons c t ih => exact chars_append (escapeByte_chars c) ih

theorem appendJsonString_some {size : Nat} {out text line : Bytes}
    (appended : appendJsonString size out text = some line) : line = out ++ escaped text := by
  induction text generalizing out with
  | nil =>
      rw [appendJsonString] at appended
      split at appended
      · exact absurd appended (by simp)
      · rw [escaped_nil, List.append_nil]
        exact (Option.some.inj appended).symm
  | cons c text ih =>
      rw [appendJsonString] at appended
      split at appended
      · exact absurd appended (by simp)
      · rw [ih appended, escaped_cons, List.append_assoc]

theorem appendText_some {size : Nat} {out text line : Bytes}
    (appended : appendText size out text = some line) :
    line = out ++ text ∧ line.length < size := by
  rw [appendText] at appended
  split at appended
  · exact absurd appended (by simp)
  · rename_i room
    rw [← Option.some.inj appended, List.length_append]
    exact ⟨rfl, by omega⟩

/-! ### Reading -/

variable {c : UInt8} {t q out : Bytes} {size rounds : Nat}

theorem readStringLoop_quote :
    readStringLoop size (rounds + 1) (quote :: q) out = some (out, q) := by
  rw [readStringLoop.eq_def]
  exact if_pos rfl

theorem readStringLoop_plain (plain : isPlain c = true) :
    readStringLoop size (rounds + 1) (c :: q) out =
      if size ≤ out.length + 1 then none else readStringLoop size rounds q (out ++ [c]) := by
  simp only [isPlain, Bool.and_eq_true, decide_eq_true_eq, bne_iff_ne] at plain
  obtain ⟨⟨above, notQuote⟩, notSlash⟩ := plain
  rw [readStringLoop.eq_def]
  simp only
  rw [if_neg notQuote, if_neg notSlash, if_neg (UInt8.not_lt.mpr above)]

theorem readStringLoop_marked {mark : UInt8} (value : escapeValue mark = some c)
    (known : isEscape mark = true) :
    readStringLoop size (rounds + 1) (backslash :: mark :: q) out =
      if size ≤ out.length + 1 then none else readStringLoop size rounds q (out ++ [c]) := by
  have other : mark ≠ letterU := by
    rintro rfl
    exact absurd known (by decide)
  rw [readStringLoop.eq_def]
  simp only
  rw [if_neg (by decide), if_pos trivial, if_neg other, value]

theorem readStringLoop_hex {high low : Nat} (digits : high < 16 ∧ low < 16) :
    readStringLoop size (rounds + 1)
      (backslash :: letterU :: zero :: zero :: hexDigit high :: hexDigit low :: q) out = none := by
  have zeroed : hexValue zero = some 0 := rfl
  have refused : unicodeByte (zero :: zero :: hexDigit high :: hexDigit low :: q) = none := by
    rw [unicodeByte, zeroed, hexValue_hexDigit digits.1, hexValue_hexDigit digits.2]
    exact if_pos rfl
  rw [readStringLoop.eq_def]
  simp only
  rw [if_neg (by decide), if_pos trivial, if_pos trivial, refused]

theorem readStringLoop_byte : readStringLoop size (rounds + 1) (escapeByte c ++ q) out =
    if Sendable c ∧ out.length + 1 < size then readStringLoop size rounds q (out ++ [c])
    else none := by
  have room (sendable : Sendable c) (x : Option (Bytes × Bytes)) :
      (if size ≤ out.length + 1 then none else x) =
        if Sendable c ∧ out.length + 1 < size then x else none := by
    by_cases small : size ≤ out.length + 1
    · rw [if_pos small, if_neg (fun both => Nat.not_lt.mpr small both.2)]
    · rw [if_neg small, if_pos ⟨sendable, Nat.not_le.mp small⟩]
  cases written c with
  | marked mark text value known sendable =>
      rw [text]
      exact (readStringLoop_marked value known).trans (room sendable _)
  | plain text plain sendable =>
      rw [text]
      exact (readStringLoop_plain plain).trans (room sendable _)
  | hex text _ unsendable =>
      rw [text, if_neg (fun both => unsendable both.1)]
      exact readStringLoop_hex (hex_digits c)

theorem readStringLoop_escaped (enough : t.length < rounds) (fits : out.length < size) :
    readStringLoop size rounds (escaped t ++ quote :: q) out =
      if SendableText t ∧ out.length + t.length < size then some (out ++ t, q) else none := by
  induction t generalizing rounds out with
  | nil =>
      obtain ⟨rounds, rfl⟩ : ∃ n, rounds = n + 1 := ⟨rounds - 1, by omega⟩
      have empty : SendableText [] := fun _ member => absurd member List.not_mem_nil
      rw [if_pos ⟨empty, fits⟩, List.append_nil]
      exact readStringLoop_quote
  | cons c t ih =>
      rw [List.length_cons] at enough
      obtain ⟨rounds, rfl⟩ : ∃ n, rounds = n + 1 := ⟨rounds - 1, by omega⟩
      rw [escaped_cons, List.append_assoc, readStringLoop_byte]
      by_cases here : Sendable c ∧ out.length + 1 < size
      · have room : (out ++ [c]).length < size := by
          rw [List.length_append]
          exact here.2
        have same : (SendableText (c :: t) ∧ out.length + (c :: t).length < size) ↔
            (SendableText t ∧ (out ++ [c]).length + t.length < size) := by
          rw [SendableText, List.forall_mem_cons, List.length_append, List.length_cons,
            List.length_singleton]
          have sum : out.length + (t.length + 1) = out.length + 1 + t.length := by omega
          rw [sum]
          exact ⟨fun both => ⟨both.1.2, both.2⟩, fun both => ⟨⟨here.1, both.1⟩, both.2⟩⟩
        rw [if_pos here, ih (by omega) room, List.append_assoc, List.singleton_append]
        exact if_congr same.symm rfl rfl
      · rw [if_neg here, if_neg]
        intro both
        refine here ⟨both.1 c List.mem_cons_self, ?_⟩
        have whole := both.2
        rw [List.length_cons] at whole
        omega

theorem length_le_escaped (t : Bytes) : t.length ≤ (escaped t).length := by
  induction t with
  | nil => exact Nat.le_refl _
  | cons c t ih =>
      have some : 1 ≤ (escapeByte c).length := by
        cases written c with
        | marked _ text _ _ _ | plain text _ _ | hex text _ _ =>
            rw [text]
            simp only [List.length_cons, List.length_nil]
            omega
      rw [escaped_cons, List.length_append, List.length_cons]
      omega

theorem jsonReadString_escaped (some : 0 < size) :
    jsonReadString size (quote :: (escaped t ++ quote :: q)) =
      if SendableText t ∧ t.length < size then Option.some (t, q) else none := by
  have long := length_le_escaped t
  rw [jsonReadString, if_neg (not_not_intro rfl), readStringLoop_escaped]
  · rw [List.length_nil, Nat.zero_add, List.nil_append]
  · rw [List.length_append]
    omega
  · exact some

end LibreEcho.Adapter

/-!
What the adapter's text search finds in JSON.

A needle is a name between two quotes. In JSON a quote stands before or after a
string or behind a backslash inside one, so a needle can only match a whole
string or the end of one behind an escaped quote; the search takes it for a
member if a colon follows.
-/
namespace LibreEcho.Adapter
open JsonGrammar ByteText

variable {key name body s p q v : Bytes} {b : UInt8}

/-- The search of `find_key` with rounds for the text. -/
def search (key p : Bytes) : Option Bytes :=
  findKeyLoop key (p.length + 1) p

theorem findKey_search (short : key.length ≤ 61) (json : Bytes) :
    findKey json key = search key json := by
  refine if_neg ?_
  rw [needle, List.length_cons, List.length_append, List.length_singleton]
  omega

theorem needle_length (key : Bytes) : (needle key).length = key.length + 2 := by
  rw [needle, List.length_cons, List.length_append, List.length_singleton]

theorem findKeyLoop_enough {rounds more : Nat} (enough : p.length < rounds)
    (also : p.length < more) : findKeyLoop key rounds p = findKeyLoop key more p := by
  induction rounds generalizing p more with
  | zero => exact absurd enough (Nat.not_lt_zero _)
  | succ rounds ih =>
      obtain ⟨more, rfl⟩ : ∃ n, more = n + 1 := ⟨more - 1, by omega⟩
      rw [findKeyLoop, findKeyLoop]
      cases found : strstr (needle key) p with
      | none => rfl
      | some tail =>
          obtain ⟨first, last⟩ := strstr_some found
          have long := first.length_le
          have within := last.length_le
          rw [needle_length] at long
          have shorter : (tail.drop (needle key).length).length < p.length := by
            rw [List.length_drop, needle_length]
            omega
          have same : findKeyLoop key rounds (tail.drop (needle key).length) =
              findKeyLoop key more (tail.drop (needle key).length) := ih (by omega) (by omega)
          simp only
          rw [same]

theorem search_nil : search key [] = none := by
  rw [search, findKeyLoop]
  rfl

theorem search_skip (other : ¬needle key <+: b :: s) : search key (b :: s) = search key s := by
  rw [search, findKeyLoop, strstr_later other, List.length_cons,
    show search key s = findKeyLoop key (s.length + 1 + 1) s from findKeyLoop_enough (by omega) (by omega),
    findKeyLoop]

theorem search_other (notQuote : b ≠ quote) : search key (b :: s) = search key s := by
  refine search_skip (fun first => ?_)
  exact notQuote (List.cons_prefix_cons.mp first).1.symm

theorem search_found : search key (needle key ++ q) =
    match skipWs q with
    | [] => search key q
    | c :: value => if c = colon then some (skipWs value) else search key q := by
  have fewer : search key q = findKeyLoop key (needle key ++ q).length q := by
    refine findKeyLoop_enough (Nat.lt_succ_self _) ?_
    rw [List.length_append, needle_length]
    omega
  rw [search, findKeyLoop, strstr_here]
  simp only
  rw [List.drop_left, fewer] <;> rfl

theorem search_hit (member : skipWs q = colon :: v) :
    search key (needle key ++ q) = some (skipWs v) := by
  rw [search_found, member]
  exact if_pos rfl

theorem search_miss (other : (skipWs q).head? ≠ some colon) :
    search key (needle key ++ q) = search key q := by
  rw [search_found]
  cases rest : skipWs q with
  | nil => rfl
  | cons c value =>
      rw [rest, List.head?_cons] at other
      exact if_neg (fun same => other (congrArg some same))

/-! ### Text without a match -/

theorem search_free (free : quote ∉ s) : search key (s ++ q) = search key q := by
  induction s with
  | nil => rfl
  | cons b s ih =>
      rw [List.cons_append, search_other (List.ne_of_not_mem_cons free).symm]
      exact ih (List.not_mem_of_not_mem_cons free)

abbrev PlainName (key : Bytes) : Prop :=
  quote ∉ key ∧ backslash ∉ key

theorem plainName_cons (plain : PlainName (b :: key)) :
    b ≠ quote ∧ b ≠ backslash ∧ PlainName key :=
  ⟨(List.ne_of_not_mem_cons plain.1).symm, (List.ne_of_not_mem_cons plain.2).symm,
    List.not_mem_of_not_mem_cons plain.1, List.not_mem_of_not_mem_cons plain.2⟩

def isLetter (b : UInt8) : Bool :=
  0x61 ≤ b && b ≤ 0x7a

/-- The name of a field: nothing but a name can start with its needle. -/
abbrev FieldName (key : Bytes) : Prop :=
  PlainName key ∧ key.head?.any isLetter = true

theorem fieldName_ne_nil (field : FieldName key) : key ≠ [] := by
  rintro rfl
  exact absurd field.2 (by decide)

theorem fieldName_head (field : FieldName key) (other : isLetter b = false) :
    key.head? ≠ some b := by
  intro head
  have letter := field.2
  rw [head, Option.any_some, other] at letter
  exact Bool.false_ne_true letter

theorem fieldName_first (field : FieldName key) (other : isLetter b = false) :
    ¬needle key <+: quote :: b :: q := by
  intro first
  have inner := (List.cons_prefix_cons.mp first).2
  cases key with
  | nil => exact fieldName_ne_nil field rfl
  | cons c key =>
      exact fieldName_head field other (congrArg some (List.cons_prefix_cons.mp inner).1)

theorem chars_eq_name (chars : Chars body) (plain : PlainName key)
    (same : key ++ quote :: p = body ++ quote :: q) : body = key ∧ p = q := by
  induction chars generalizing key with
  | nil =>
      cases key with
      | nil => exact ⟨rfl, (List.cons.inj same).2⟩
      | cons b key => exact absurd (List.cons.inj same).1 (plainName_cons plain).1
  | @plain b body here _ ih =>
      cases key with
      | nil =>
          have first : quote = b := (List.cons.inj same).1
          rw [← first] at here
          exact absurd here (by decide)
      | cons x key =>
          obtain ⟨first, later⟩ := List.cons.inj same
          obtain ⟨rest, tail⟩ := ih (plainName_cons plain).2.2 later
          rw [rest, first]
          exact ⟨rfl, tail⟩
  | escape _ _ _ | unicode _ _ _ _ =>
      cases key with
      | nil =>
          have first : quote = backslash := (List.cons.inj same).1
          exact absurd first (by decide)
      | cons x key => exact absurd (List.cons.inj same).1 (plainName_cons plain).2.1

theorem needle_prefix_chars (chars : Chars body) (plain : PlainName key)
    (first : needle key <+: quote :: (body ++ quote :: q)) : body = key := by
  obtain ⟨rest, split⟩ := first
  rw [needle, List.cons_append, List.append_assoc] at split
  exact (chars_eq_name chars plain (List.cons.inj split).2).1

theorem search_quoted (chars : Chars body) (plain : PlainName key)
    (miss : (skipWs q).head? ≠ some colon)
    (tail : search key (body ++ quote :: q) = search key q) :
    search key (quote :: (body ++ quote :: q)) = search key q := by
  by_cases first : needle key <+: quote :: (body ++ quote :: q)
  · have same := needle_prefix_chars chars plain first
    have split : quote :: (body ++ quote :: q) = needle key ++ q := by
      rw [same, needle, List.cons_append, List.append_assoc]
      rfl
    rw [split, search_miss miss]
  · rw [search_skip first, tail]

theorem search_chars (chars : Chars body) (plain : PlainName key)
    (miss : (skipWs q).head? ≠ some colon) (after : ¬needle key <+: quote :: q) :
    search key (body ++ quote :: q) = search key q := by
  induction chars with
  | nil => exact search_skip after
  | plain here _ ih =>
      refine (search_other ?_).trans ih
      rintro rfl
      exact absurd here (by decide)
  | @escape b body known chars ih =>
      rw [List.cons_append, search_other (by decide), List.cons_append]
      by_cases quoted : b = quote
      · subst quoted
        exact search_quoted chars plain miss ih
      · rw [search_other quoted, ih]
  | @unicode digits body four hex _ ih =>
      have free : quote ∉ digits := fun member => absurd (hex quote member) (by decide)
      rw [List.cons_append, List.cons_append, List.append_assoc, search_other (by decide),
        search_other (by decide), search_free free, ih]

theorem search_string (chars : Chars body) (plain : PlainName key)
    (miss : (skipWs q).head? ≠ some colon) (after : ¬needle key <+: quote :: q) :
    search key (quote :: (body ++ quote :: q)) = search key q :=
  search_quoted chars plain miss (search_chars chars plain miss after)

theorem search_named (field : FieldName key) (chars : Chars name) (free : quote ∉ name)
    (other : name ≠ key) : search key (named name ++ q) = search key q := by
  have text : named name ++ q = quote :: (name ++ quote :: colon :: q) := by
    simp [named, needle]
  rw [text, search_skip fun first => other (needle_prefix_chars chars field.1 first),
    search_free free, search_skip (fieldName_first field rfl), search_other (by decide)]

end LibreEcho.Adapter

/-!
Where the adapter sees a value end.

The bracket counter of `json_value_end` passes over a derived text without
changing its stack, so the end of an object is the end of its text.
-/
namespace LibreEcho.Adapter
open JsonGrammar ByteText

variable {b : UInt8} {s t q key : Bytes} {stack : List UInt8}

/-- The counter passes over the text inside an open bracket. -/
def Passed (s : Bytes) : Prop :=
  ∀ (stack : List UInt8) (q : Bytes), stack ≠ [] → stack.length + s.length ≤ leAdapterMsgMax →
    valueEndLoop stack false (s ++ q) = valueEndLoop stack false q

theorem passed_nil : Passed [] :=
  fun _ _ _ _ => rfl

theorem Passed.append (first : Passed s) (second : Passed t) : Passed (s ++ t) := by
  intro stack q opened fits
  rw [List.length_append] at fits
  rw [List.append_assoc, first stack _ opened (by omega), second stack q opened (by omega)]

def isBracket (b : UInt8) : Bool :=
  b == quote || b == lbrace || b == lbracket || b == rbrace || b == rbracket

theorem passed_byte (other : isBracket b = false) : Passed [b] := by
  intro stack q _ _
  simp only [isBracket, Bool.or_eq_false_iff, beq_eq_false_iff_ne] at other
  obtain ⟨⟨⟨⟨notQuote, notBrace⟩, notBracket⟩, notClose⟩, notEnd⟩ := other
  rw [List.singleton_append, valueEndLoop.eq_def]
  simp only
  rw [if_neg notQuote, if_neg (not_or.mpr ⟨notBrace, notBracket⟩),
    if_neg (not_or.mpr ⟨notClose, notEnd⟩)]

theorem passed_all (other : ∀ b ∈ s, isBracket b = false) : Passed s := by
  induction s with
  | nil => exact passed_nil
  | cons b s ih =>
      obtain ⟨here, later⟩ := List.forall_mem_cons.mp other
      exact (passed_byte here).append (ih later)

theorem valueEndLoop_chars {body : Bytes} (chars : Chars body) :
    valueEndLoop stack true (body ++ quote :: q) = valueEndLoop stack false q := by
  have one {c : UInt8} {q : Bytes} (notQuote : c ≠ quote) (notSlash : c ≠ backslash) :
      valueEndLoop stack true (c :: q) = valueEndLoop stack true q := by
    rw [valueEndLoop.eq_def]
    simp only
    rw [if_neg notSlash, bne_iff_ne.mpr notQuote]
  have two (c : UInt8) (q : Bytes) :
      valueEndLoop stack true (backslash :: c :: q) = valueEndLoop stack true q := by
    rw [valueEndLoop.eq_def]
    exact if_pos rfl
  induction chars with
  | nil =>
      rw [List.nil_append, valueEndLoop.eq_def]
      rfl
  | plain plain _ ih =>
      simp only [isPlain, Bool.and_eq_true, bne_iff_ne] at plain
      obtain ⟨⟨_, notQuote⟩, notSlash⟩ := plain
      rw [List.cons_append, one notQuote notSlash, ih]
  | escape _ _ ih => rw [List.cons_append, List.cons_append, two, ih]
  | @unicode digits body four hex _ ih =>
      rw [List.cons_append, List.cons_append, two, List.append_assoc]
      have past (digits : Bytes) (hex : ∀ b ∈ digits, isHex b = true) (q : Bytes) :
          valueEndLoop stack true (digits ++ q) = valueEndLoop stack true q := by
        induction digits with
        | nil => rfl
        | cons b digits shorter =>
            obtain ⟨here, later⟩ := List.forall_mem_cons.mp hex
            rw [List.cons_append, one, shorter later]
            · rintro rfl
              exact absurd here (by decide)
            · rintro rfl
              exact absurd here (by decide)
      rw [past digits hex, ih]

theorem passed_str (str : Str s) : Passed s := by
  cases str with
  | quoted chars =>
      intro stack q _ _
      rw [List.cons_append, List.append_assoc, valueEndLoop.eq_def]
      simp only
      rw [if_pos trivial]
      exact valueEndLoop_chars chars

theorem valueEndLoop_open (opening : b = lbrace ∨ b = lbracket)
    (room : stack.length < leAdapterMsgMax) :
    valueEndLoop stack false (b :: q) = valueEndLoop (b :: stack) false q := by
  have notQuote : b ≠ quote := by
    rcases opening with rfl | rfl
    · decide
    · decide
  rw [valueEndLoop.eq_def]
  simp only
  rw [if_neg notQuote, if_pos opening, if_neg (Nat.not_le.mpr room)]

def Pair (first close : UInt8) : Prop :=
  first = lbrace ∧ close = rbrace ∨ first = lbracket ∧ close = rbracket

theorem valueEndLoop_close {first close : UInt8} (pair : Pair first close) :
    valueEndLoop (first :: stack) false (close :: q) =
      if stack = [] then some q else valueEndLoop stack false q := by
  rw [valueEndLoop.eq_def]
  rcases pair with ⟨rfl, rfl⟩ | ⟨rfl, rfl⟩
  · rfl
  · rfl

theorem passed_pair {first close : UInt8} (pair : Pair first close) (inner : Passed s) :
    Passed (first :: (s ++ [close])) := by
  intro stack q opened fits
  simp only [List.length_cons, List.length_append, List.length_nil] at fits
  have opening : first = lbrace ∨ first = lbracket := pair.imp And.left And.left
  rw [List.cons_append, List.append_assoc, valueEndLoop_open opening (by omega),
    inner _ _ (by simp) (by rw [List.length_cons]; omega), List.singleton_append,
    valueEndLoop_close pair, if_neg opened]

theorem passed_spaces (spaces : Spaces s) : Passed s := by
  refine passed_all fun b member => ?_
  have space := spaces b member
  simp only [JsonGrammar.isSpace, Bool.or_eq_true, beq_iff_eq] at space
  rcases space with ((rfl | rfl) | rfl) | rfl
  all_goals rfl

theorem isBracket_numeric (numeric : isNumeric b = true) : isBracket b = false := by
  rw [Bool.eq_false_iff]
  intro bracket
  simp only [isBracket, Bool.or_eq_true, beq_iff_eq] at bracket
  rcases bracket with (((rfl | rfl) | rfl) | rfl) | rfl
  all_goals exact absurd numeric (by decide)

theorem passed_digits (digits : ∀ b ∈ s, JsonGrammar.isDigit b = true) : Passed s := by
  refine passed_all fun b member => isBracket_numeric ?_
  rw [isNumeric, digits b member]
  rfl

theorem passed_number (number : Number s) : Passed s :=
  passed_all fun b member => isBracket_numeric (number_numeric number b member)

theorem derives_passed {kind : Kind} {d : Nat} (derived : Derives kind d s) : Passed s := by
  have colons : Passed [colon] := passed_byte rfl
  have commas : Passed [comma] := passed_byte rfl
  induction derived with
  | string str => exact passed_str str
  | number number => exact passed_number number
  | literal known =>
      simp only [List.mem_cons, List.not_mem_nil, or_false] at known
      rcases known with rfl | rfl | rfl
      all_goals exact passed_all (by decide)
  | ofObject _ ih | ofArray _ ih => exact ih
  | emptyObject spaces => exact passed_pair (.inl ⟨rfl, rfl⟩) (passed_spaces spaces)
  | emptyArray spaces => exact passed_pair (.inr ⟨rfl, rfl⟩) (passed_spaces spaces)
  | object spaces _ spaces' ih =>
      have inner := (passed_spaces spaces).append (ih.append (passed_spaces spaces'))
      simpa only [List.append_assoc] using passed_pair (.inl ⟨rfl, rfl⟩) inner
  | array spaces _ spaces' ih =>
      have inner := (passed_spaces spaces).append (ih.append (passed_spaces spaces'))
      simpa only [List.append_assoc] using passed_pair (.inr ⟨rfl, rfl⟩) inner
  | member str spaces spaces' _ ih =>
      exact (passed_str str).append ((passed_spaces spaces).append
        (colons.append ((passed_spaces spaces').append ih)))
  | members str spaces spaces' _ spaces₁ spaces₂ _ ih ih' =>
      exact (passed_str str).append ((passed_spaces spaces).append
        (colons.append ((passed_spaces spaces').append (ih.append ((passed_spaces spaces₁).append
          (commas.append ((passed_spaces spaces₂).append ih')))))))
  | element _ ih => exact ih
  | elements _ spaces₁ spaces₂ _ ih ih' =>
      exact ih.append ((passed_spaces spaces₁).append
        (commas.append ((passed_spaces spaces₂).append ih')))

theorem jsonValueEnd_braced (inner : Passed s) (fits : s.length < leAdapterMsgMax) :
    jsonValueEnd (lbrace :: (s ++ rbrace :: q)) = some q := by
  have opened : valueEndLoop [] false (lbrace :: (s ++ rbrace :: q)) =
      valueEndLoop [lbrace] false (s ++ rbrace :: q) := valueEndLoop_open (.inl rfl) (by decide)
  rw [jsonValueEnd, if_neg (fun neither => neither.1 rfl), opened,
    inner _ _ (by simp) (by rw [List.length_singleton]; omega),
    valueEndLoop_close (.inl ⟨rfl, rfl⟩)]
  exact if_pos rfl

theorem object_braced {d : Nat} (object : Derives .object d s) :
    ∃ inner, s = lbrace :: (inner ++ [rbrace]) ∧ Passed inner := by
  cases object with
  | emptyObject spaces => exact ⟨_, rfl, passed_spaces spaces⟩
  | @object _ w m w' spaces members spaces' =>
      refine ⟨w ++ (m ++ w'), by simp only [List.append_assoc], ?_⟩
      exact (passed_spaces spaces).append ((derives_passed members).append (passed_spaces spaces'))

theorem jsonValueEnd_object {d : Nat} (object : Derives .object d s)
    (fits : s.length ≤ leAdapterMsgMax) : jsonValueEnd (s ++ q) = some q := by
  obtain ⟨inner, rfl, passed⟩ := object_braced object
  simp only [List.length_cons, List.length_append, List.length_nil] at fits
  rw [List.cons_append, List.append_assoc]
  exact jsonValueEnd_braced passed (by omega)

/-! ### Numbers and white space -/

theorem skipWs_solid (solid : JsonGrammar.isSpace b = false) : skipWs (b :: q) = b :: q :=
  List.dropWhile_cons_of_neg (by rw [solid]; exact Bool.false_ne_true)

theorem parseUlongValue_decimal (T : Target) {id : Nat} (range : id ≤ T.ulongMax)
    (ends : b = comma ∨ b = rbrace) : parseUlongValue T (decimal id ++ b :: q) = some id := by
  have stop : ByteText.isDigit b = false := by
    rcases ends with rfl | rfl
    · rfl
    · rfl
  have solid : JsonGrammar.isSpace b = false := by
    rcases ends with rfl | rfl
    · rfl
    · rfl
  rw [parseUlongValue, readDecimal_decimal id stop]
  simp only
  rw [if_neg (decimal_ne_nil id), decimalValue_decimal, if_neg (Nat.not_lt.mpr range),
    skipWs_solid solid]
  exact if_neg fun neither => ends.elim neither.1 neither.2

theorem parseUlongValue_version (T : Target) :
    parseUlongValue T (0x31 :: comma :: q) = some leAdapterProtoVersion := by
  have one : decimal 1 = [0x31] := by decide
  have wide := T.wide
  have read : parseUlongValue T (decimal 1 ++ comma :: q) = some 1 :=
    parseUlongValue_decimal T (by omega) (.inl rfl)
  rw [one] at read
  exact read

end LibreEcho.Adapter
