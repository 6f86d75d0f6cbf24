import LibreEcho.Json.TopLevel
import LibreEcho.Lib.FlatObject

/-!
The arguments of a request to networkd: `json_string_arg`, `json_bool_arg`, `json_int_arg`, and
what `connect` reads with them.

A member is searched for as a quoted word in the whole text, so what is found depends on the
other strings of the text.
-/
namespace LibreEcho.Network
open JsonGrammar ByteText FlatObject

/-- The answers 0, -1 and 1 of a reader. -/
inductive ArgRead (α : Type) where
  | absent
  | malformed
  | found (a : α)
deriving DecidableEq

def needleMax : Nat := 64

def skipSpaces (p : Bytes) : Bytes :=
  p.dropWhile JsonGrammar.isSpace

/-- The text after the colon of a member; what the three readers begin with. -/
def memberValue (args key : Bytes) : ArgRead Bytes :=
  if needleMax ≤ (needle key).length then .malformed
  else
    match strstr (needle key) args with
    | none => .absent
    | some p =>
        match skipSpaces (p.drop (needle key).length) with
        | [] => .malformed
        | c :: p => if c = colon then .found (skipSpaces p) else .malformed

def ArgRead.andThen {α β : Type} (read : ArgRead α) (use : α → ArgRead β) : ArgRead β :=
  match read with
  | .absent => .absent
  | .malformed => .malformed
  | .found a => use a

/-- Up to the closing quotation mark; a backslash takes the byte behind it along. -/
def stringBody : Bytes → Option Bytes
  | [] => none
  | c :: p =>
      if c = quote then some []
      else if c = backslash then
        match p with
        | [] => none
        | e :: p => (stringBody p).map fun body => c :: e :: body
      else (stringBody p).map (c :: ·)

def argEscape (c : UInt8) : Option UInt8 :=
  if c = letterN then some 10
  else if c = letterR then some 13
  else if c = letterT then some 9
  else if c = quote ∨ c = backslash ∨ c = slash then some c
  else none

/-- The loop that fills `out`; `none` is -1. -/
def decodeBody (size : Nat) : Bytes → Bytes → Option Bytes
  | [], out => some out
  | c :: p, out =>
      let store (c : UInt8) (p : Bytes) (rest : Bytes → Option Bytes) : Option Bytes :=
        if c < 32 ∨ size ≤ out.length + 1 then none else rest (out ++ [c])
      if c = backslash then
        match p with
        | [] => none
        | e :: p =>
            match argEscape e with
            | none => none
            | some c => store c p (decodeBody size p)
      else store c p (decodeBody size p)

def stringValue (size : Nat) (p : Bytes) : ArgRead Bytes :=
  match p with
  | [] => .malformed
  | c :: p =>
      if c = quote then
        match (stringBody p).bind fun body => decodeBody size body [] with
        | some out => .found out
        | none => .malformed
      else .malformed

def boolValue (p : Bytes) : ArgRead Bool :=
  if trueText <+: p then .found true
  else if falseText <+: p then .found false
  else .malformed

def intValue (p : Bytes) : ArgRead Int :=
  match CText.strtoll (Json.charsOf p) with
  | none => .malformed
  | some read =>
      if read.outOfRange then .malformed
      else
        match read.rest.dropWhile fun c => c = ' ' ∨ c = '\t' ∨ c = '\r' ∨ c = '\n' with
        | [] => .malformed
        | c :: _ => if c = ',' ∨ c = '}' then .found read.value else .malformed

def jsonStringArg (args key : Bytes) (size : Nat) : ArgRead Bytes :=
  if size = 0 then .malformed else (memberValue args key).andThen (stringValue size)

def jsonBoolArg (args key : Bytes) : ArgRead Bool :=
  (memberValue args key).andThen boolValue

def jsonIntArg (args key : Bytes) : ArgRead Int :=
  (memberValue args key).andThen intValue

/-! ### connect -/

def ssidKey : Bytes := ascii "ssid"
def pskKey : Bytes := ascii "psk"
def securityKey : Bytes := ascii "security"

def credentialMax : Nat := 256
def securityMax : Nat := 64

structure ConnectArgs where
  ssid : ArgRead Bytes
  psk : ArgRead Bytes
  security : ArgRead Bytes
deriving DecidableEq

/-- What `connect` reads before it does anything. -/
def connectArgs (args : Bytes) : ConnectArgs where
  ssid := jsonStringArg args ssidKey credentialMax
  psk := jsonStringArg args pskKey credentialMax
  security := jsonStringArg args securityKey securityMax

/-- `none` is the refusal `connect requires ssid, psk, security`. -/
def connectRequest (args : Bytes) : Option (Bytes × Bytes × Bytes) :=
  match connectArgs args with
  | ⟨.found ssid, psk, security⟩ =>
      match psk, security with
      | .malformed, _ | _, .malformed => none
      | psk, security =>
          let given (read : ArgRead Bytes) (default : Bytes) : Bytes :=
            match read with
            | .found a => a
            | .absent | .malformed => default
          some (ssid, given psk [], given security (ascii "wpa2"))
  | _ => none

end LibreEcho.Network

/-!
When the arguments of a request are read as they were written.

On a flat object a reader finds a member exactly when the first string that shows the key is the
name of a member with the value that the key names.
-/
namespace LibreEcho.Network
open JsonGrammar ByteText FlatObject

/-! ### One value -/

section Strings
variable {t : Text} {size : Nat}

theorem stringBody_raw (t : Text) (rest : Bytes) :
    stringBody (rawText t ++ quote :: rest) = some (rawText t) := by
  induction t with
  | nil =>
      change stringBody (quote :: rest) = some []
      rw [stringBody.eq_def]
      exact if_pos rfl
  | cons l t ih =>
      rw [rawText, List.flatMap_cons, Letter.raw]
      cases marked : l.marked with
      | true =>
          rw [if_pos rfl]
          change stringBody (backslash :: l.byte :: (rawText t ++ quote :: rest)) = _
          rw [stringBody, if_neg (by decide), if_pos rfl, ih]
          rfl
      | false =>
          obtain ⟨notQuote, notSlash⟩ := l.plain marked
          rw [if_neg Bool.false_ne_true]
          change stringBody (l.byte :: (rawText t ++ quote :: rest)) = _
          rw [stringBody.eq_def]
          dsimp only
          rw [if_neg notQuote, if_neg notSlash, ih]
          rfl

theorem argEscape_marked (l : Letter) (marked : l.marked = true) : argEscape l.byte = some l.byte := by
  rcases l.escapes marked with same | same | same
  · rw [same]
    decide
  · rw [same]
    decide
  · rw [same]
    decide

theorem decodeBody_raw (t : Text) {out : Bytes} (room : out.length < size) :
    decodeBody size (rawText t) out =
      if out.length + t.length < size then some (out ++ decoded t) else none := by
  induction t generalizing out with
  | nil =>
      rw [if_pos (by rw [List.length_nil]; exact room), decoded, List.map_nil, List.append_nil]
      rfl
  | cons l t ih =>
      have stored : (if l.byte < 32 ∨ size ≤ out.length + 1 then none
          else decodeBody size (rawText t) (out ++ [l.byte])) =
          if out.length + (l :: t).length < size then some (out ++ decoded (l :: t)) else none := by
        have printed : ¬ l.byte < 32 := UInt8.not_lt.mpr l.printable
        rw [List.length_cons]
        by_cases full : size ≤ out.length + 1
        · rw [if_pos (.inr full), if_neg (by omega)]
        · have length : (out ++ [l.byte]).length = out.length + 1 := by
            rw [List.length_append, List.length_singleton]
          rw [if_neg (not_or.mpr ⟨printed, full⟩), ih (by omega), length, List.append_assoc]
          have same : out.length + 1 + t.length = out.length + (t.length + 1) := by omega
          rw [same]
          rfl
      rw [← stored, rawText, List.flatMap_cons, Letter.raw]
      cases marked : l.marked with
      | true =>
          change decodeBody size (backslash :: l.byte :: rawText t) out = _
          rw [decodeBody.eq_def]
          dsimp only
          rw [if_pos rfl, argEscape_marked l marked]
      | false =>
          obtain ⟨-, notSlash⟩ := l.plain marked
          change decodeBody size (l.byte :: rawText t) out = _
          rw [decodeBody.eq_def]
          dsimp only
          rw [if_neg notSlash]

theorem stringValue_quoted (t : Text) (positive : 0 < size) (rest : Bytes) :
    stringValue size (quoted t ++ rest) =
      if t.length < size then .found (decoded t) else .malformed := by
  have text : quoted t ++ rest = quote :: (rawText t ++ quote :: rest) := by
    rw [quoted, List.cons_append, List.append_assoc]
    rfl
  rw [text, stringValue, if_pos rfl, stringBody_raw]
  have filled := @decodeBody_raw size t [] positive
  rw [List.length_nil, Nat.zero_add, List.nil_append] at filled
  rw [Option.bind_some, filled]
  by_cases fits : t.length < size
  · rw [if_pos fits, if_pos fits]
  · rw [if_neg fits, if_neg fits]

end Strings

section Numbers

theorem charsOf_ascii {s : CText} (plain : ∀ c ∈ s, c.toNat < 256) :
    Json.charsOf (s.map fun c => UInt8.ofNat c.toNat) = s := by
  rw [Json.charsOf, List.map_map]
  refine List.map_congr_left (g := id) (fun c inside => ?_) |>.trans (List.map_id _)
  have value : (UInt8.ofNat c.toNat).toNat = c.toNat := by
    rw [UInt8.toNat_ofNat']
    exact Nat.mod_eq_of_lt (plain c inside)
  rw [Function.comp_apply, value, Char.ofNat_toNat]
  rfl

theorem charsOf_decimal (n : Nat) : Json.charsOf (decimal n) = CText.decimal n := by
  refine charsOf_ascii fun c inside => ?_
  have digit := CText.decimal_isDigit inside
  simp only [Char.isDigit, Bool.and_eq_true, decide_eq_true_eq] at digit
  have high : c.toNat ≤ 57 := digit.2
  omega

theorem charsOf_append (s t : Bytes) :
    Json.charsOf (s ++ t) = Json.charsOf s ++ Json.charsOf t :=
  List.map_append

/-- The integers that `long long` holds. -/
def inLongLong (n : Int) : Prop :=
  CText.longLongMin ≤ n ∧ n ≤ CText.longLongMax

instance (n : Int) : Decidable (inLongLong n) :=
  inferInstanceAs (Decidable (_ ∧ _))

def written (negative : Bool) (magnitude : Nat) : Int :=
  if negative then -magnitude else magnitude

theorem strtoll_written {s rest : CText} {negative : Bool} {magnitude : Nat}
    (read : CText.readNumber s = some ⟨negative, magnitude, rest⟩) :
    (inLongLong (written negative magnitude) ∧
      CText.strtoll s = some ⟨written negative magnitude, rest, false⟩) ∨
    (¬ inLongLong (written negative magnitude) ∧
      ∃ clamped, CText.strtoll s = some ⟨clamped, rest, true⟩) := by
  have converted : CText.strtoll s = some (
      if written negative magnitude < CText.longLongMin then ⟨CText.longLongMin, rest, true⟩
      else if CText.longLongMax < written negative magnitude then ⟨CText.longLongMax, rest, true⟩
      else ⟨written negative magnitude, rest, false⟩) := by
    rw [CText.strtoll, read]
    rfl
  by_cases low : written negative magnitude < CText.longLongMin
  · rw [if_pos low] at converted
    exact .inr ⟨fun fits => absurd fits.1 (by omega), _, converted⟩
  · rw [if_neg low] at converted
    by_cases high : CText.longLongMax < written negative magnitude
    · rw [if_pos high] at converted
      exact .inr ⟨fun fits => absurd fits.2 (by omega), _, converted⟩
    · rw [if_neg high] at converted
      exact .inl ⟨⟨by omega, by omega⟩, converted⟩

variable {c : UInt8} {tail : Bytes} (closes : c = comma ∨ c = rbrace)

theorem charsOf_space (b : UInt8) (space : JsonGrammar.isSpace b = true) :
    Char.ofNat b.toNat = ' ' ∨ Char.ofNat b.toNat = '\t' ∨ Char.ofNat b.toNat = '\r' ∨
      Char.ofNat b.toNat = '\n' := by
  simp only [JsonGrammar.isSpace, Bool.or_eq_true, beq_iff_eq] at space
  rcases space with ((rfl | rfl) | rfl) | rfl
  · exact .inl rfl
  · exact .inr (.inl rfl)
  · exact .inr (.inr (.inl rfl))
  · exact .inr (.inr (.inr rfl))

include closes

theorem digitFree_ended (gap : Gap) : CText.DigitFree (Json.charsOf (gap.bytes ++ c :: tail)) := by
  intro d first
  cases bytes : gap.bytes with
  | nil =>
      rw [bytes] at first
      obtain rfl : Char.ofNat c.toNat = d := Option.some.inj first
      rcases closes with rfl | rfl <;> decide
  | cons b later =>
      rw [bytes] at first
      obtain rfl : Char.ofNat b.toNat = d := Option.some.inj first
      have space := gap.spaces b (by rw [bytes]; exact List.mem_cons_self)
      rcases charsOf_space b space with same | same | same | same <;> rw [same] <;> decide

theorem dropWhile_ended (gap : Gap) :
    ((Json.charsOf (gap.bytes ++ c :: tail)).dropWhile
      fun c => c = ' ' ∨ c = '\t' ∨ c = '\r' ∨ c = '\n') =
      Char.ofNat c.toNat :: Json.charsOf tail := by
  rw [charsOf_append, List.dropWhile_append_of_pos]
  · rw [Json.charsOf, List.map_cons, List.dropWhile_cons_of_neg]
    · rfl
    · rcases closes with rfl | rfl <;> decide
  · intro d inside
    obtain ⟨b, member, rfl⟩ := List.mem_map.mp inside
    exact decide_eq_true (charsOf_space b (gap.spaces b member))

theorem intValue_integer (negative : Bool) (magnitude : Nat) (gap : Gap) :
    intValue ((Value.integer negative magnitude).raw ++ (gap.bytes ++ c :: tail)) =
      if inLongLong (written negative magnitude) then .found (written negative magnitude)
      else .malformed := by
  have stop := @digitFree_ended c tail closes gap
  have ended := @dropWhile_ended c tail closes gap
  have read : CText.readNumber (Json.charsOf
      ((Value.integer negative magnitude).raw ++ (gap.bytes ++ c :: tail))) =
      some ⟨negative, magnitude, Json.charsOf (gap.bytes ++ c :: tail)⟩ := by
    rw [charsOf_append]
    cases negative with
    | false =>
        change CText.readNumber (Json.charsOf (decimal magnitude) ++ _) = _
        rw [charsOf_decimal]
        exact CText.readNumber_decimal magnitude stop
    | true =>
        change CText.readNumber ('-' :: Json.charsOf (decimal magnitude) ++ _) = _
        rw [charsOf_decimal]
        exact CText.readNumber_negative magnitude stop
  obtain ⟨fits, converted⟩ | ⟨large, clamped, converted⟩ := strtoll_written read
  · rw [intValue, converted, if_pos fits]
    dsimp only
    rw [if_neg Bool.false_ne_true, ended]
    refine if_pos ?_
    rcases closes with rfl | rfl
    · exact .inl rfl
    · exact .inr rfl
  · rw [intValue, converted, if_neg large]
    exact if_pos rfl

end Numbers

/-! ### One member -/

def Fits (size : Nat) : Value → Prop
  | .string t => t.length < size
  | .integer negative magnitude => inLongLong (written negative magnitude)
  | .boolean _ => True

section Members
variable {c : UInt8} {tail : Bytes} {size : Nat} {gap : Gap}

theorem decimal_starts (n : Nat) : ∃ d ds, decimal n = d :: ds ∧ ByteText.isDigit d = true := by
  cases digits : decimal n with
  | nil => exact absurd digits (decimal_ne_nil n)
  | cons d ds => exact ⟨d, ds, rfl, decimal_isDigit (digits ▸ List.mem_cons_self)⟩

theorem integer_starts (negative : Bool) (magnitude : Nat) :
    ∃ d ds, (Value.integer negative magnitude).raw = d :: ds ∧
      (d = minus ∨ ByteText.isDigit d = true) := by
  cases negative with
  | false =>
      obtain ⟨d, ds, digits, digit⟩ := decimal_starts magnitude
      exact ⟨d, ds, digits, .inr digit⟩
  | true => exact ⟨minus, decimal magnitude, rfl, .inl rfl⟩

theorem stringValue_raw (v : Value) (positive : 0 < size) (rest s : Bytes) :
    stringValue size (v.raw ++ rest) = .found s ↔ v.meaning = .text s ∧ Fits size v := by
  cases v with
  | string t =>
      rw [Value.raw, stringValue_quoted t positive]
      by_cases fits : t.length < size
      · rw [if_pos fits]
        refine ⟨fun same => ?_, fun both => ?_⟩
        · exact ⟨congrArg Meaning.text (ArgRead.found.inj same), fits⟩
        · exact congrArg ArgRead.found (Meaning.text.inj both.1)
      · rw [if_neg fits]
        exact iff_of_false (by rintro ⟨⟩) fun both => fits both.2
  | integer negative magnitude =>
      obtain ⟨d, ds, raw, starts⟩ := integer_starts negative magnitude
      have other : d ≠ quote := by
        rintro rfl
        exact absurd starts (by decide)
      rw [raw, List.cons_append, stringValue, if_neg other]
      exact iff_of_false (by rintro ⟨⟩) fun both => by cases both.1
  | boolean b =>
      refine iff_of_false (fun same => ?_) fun both => by cases both.1
      cases b with
      | false => cases same
      | true => cases same

theorem boolValue_raw (v : Value) (rest : Bytes) (b : Bool) :
    boolValue (v.raw ++ rest) = .found b ↔ v.meaning = .flag b := by
  have other {d : UInt8} {ds : Bytes} (notTrue : d ≠ letterT) (notFalse : d ≠ letterF) :
      boolValue (d :: ds) = .malformed := by
    have first (c : UInt8) (cs : Bytes) (differs : d ≠ c) : ¬ c :: cs <+: d :: ds := fun starts =>
      differs (List.cons_prefix_cons.mp starts).1.symm
    exact (if_neg (first letterT _ notTrue)).trans (if_neg (first letterF _ notFalse))
  cases v with
  | string t =>
      have malformed : boolValue ((Value.string t).raw ++ rest) = .malformed :=
        other (by decide) (by decide)
      rw [malformed]
      exact iff_of_false nofun nofun
  | integer negative magnitude =>
      obtain ⟨d, ds, raw, starts⟩ := integer_starts negative magnitude
      have notTrue : d ≠ letterT := by
        rintro rfl
        exact absurd starts (by decide)
      have notFalse : d ≠ letterF := by
        rintro rfl
        exact absurd starts (by decide)
      rw [raw, List.cons_append, other notTrue notFalse]
      exact iff_of_false nofun nofun
  | boolean value =>
      have found : boolValue ((Value.boolean value).raw ++ rest) = .found value := by
        cases value with
        | true => exact if_pos ⟨rest, rfl⟩
        | false =>
            have notTrue : ¬ trueText <+: falseText ++ rest := fun starts =>
              absurd (List.cons_prefix_cons.mp starts).1 (by decide)
            exact (if_neg notTrue).trans (if_pos ⟨rest, rfl⟩)
      rw [found]
      refine ⟨fun same => ?_, fun same => ?_⟩
      · exact congrArg Meaning.flag (ArgRead.found.inj same)
      · exact congrArg ArgRead.found (Meaning.flag.inj same)

theorem intValue_raw (v : Value) (closes : c = comma ∨ c = rbrace) (n : Int) :
    intValue (v.raw ++ (gap.bytes ++ c :: tail)) = .found n ↔
      v.meaning = .number n ∧ Fits size v := by
  have other {d : Char} {ds : CText} (space : CText.isSpace d = false) (digit : d.isDigit = false)
      (plus : d ≠ '+') (sign : d ≠ '-') : CText.strtoll (d :: ds) = none := by
    have unsigned : CText.readSign (d :: ds) = (false, d :: ds) := by
      rw [CText.readSign]
      · intro rest same
        exact sign (List.cons.inj same).1
      · intro rest same
        exact plus (List.cons.inj same).1
    rw [CText.strtoll, CText.readNumber, CText.skipSpace,
      List.dropWhile_cons_of_neg (by rw [space]; exact Bool.false_ne_true), unsigned]
    dsimp only
    rw [List.takeWhile_cons_of_neg (by rw [digit]; exact Bool.false_ne_true), if_pos rfl]
    rfl
  have unread {d : UInt8} {ds : Bytes}
      (none : CText.strtoll (Char.ofNat d.toNat :: Json.charsOf ds) = none) :
      intValue (d :: ds) = .malformed := by
    have same : Json.charsOf (d :: ds) = Char.ofNat d.toNat :: Json.charsOf ds := rfl
    rw [intValue, same, none]
  cases v with
  | string t =>
      have malformed : intValue ((Value.string t).raw ++ (gap.bytes ++ c :: tail)) = .malformed :=
        unread (other (by decide) (by decide) (by decide) (by decide))
      rw [malformed]
      exact iff_of_false (by rintro ⟨⟩) fun both => by cases both.1
  | boolean b =>
      have malformed : intValue ((Value.boolean b).raw ++ (gap.bytes ++ c :: tail)) =
          .malformed := by
        cases b with
        | true => exact unread (other (by decide) (by decide) (by decide) (by decide))
        | false => exact unread (other (by decide) (by decide) (by decide) (by decide))
      rw [malformed]
      exact iff_of_false (by rintro ⟨⟩) fun both => by cases both.1
  | integer negative magnitude =>
      rw [intValue_integer closes]
      by_cases fits : inLongLong (written negative magnitude)
      · rw [if_pos fits]
        refine ⟨fun same => ?_, fun both => ?_⟩
        · exact ⟨congrArg Meaning.number (ArgRead.found.inj same), fits⟩
        · exact congrArg ArgRead.found (Meaning.number.inj both.1)
      · rw [if_neg fits]
        exact iff_of_false (by rintro ⟨⟩) fun both => fits both.2

theorem skipSpaces_gap (gap : Gap) {b : UInt8} (solid : JsonGrammar.isSpace b = false)
    (rest : Bytes) : skipSpaces (gap.bytes ++ b :: rest) = b :: rest := by
  rw [skipSpaces, List.dropWhile_append_of_pos gap.spaces, List.dropWhile_cons_of_neg]
  rw [solid]
  exact Bool.false_ne_true

theorem raw_starts (v : Value) : ∃ d ds, v.raw = d :: ds ∧ JsonGrammar.isSpace d = false := by
  cases v with
  | string t => exact ⟨quote, _, rfl, by decide⟩
  | boolean b =>
      cases b with
      | true => exact ⟨letterT, _, rfl, by decide⟩
      | false => exact ⟨letterF, _, rfl, by decide⟩
  | integer negative magnitude =>
      obtain ⟨d, ds, raw, starts⟩ := integer_starts negative magnitude
      refine ⟨d, ds, raw, ?_⟩
      cases space : JsonGrammar.isSpace d with
      | false => rfl
      | true =>
          simp only [JsonGrammar.isSpace, Bool.or_eq_true, beq_iff_eq] at space
          rcases space with ((rfl | rfl) | rfl) | rfl <;> exact absurd starts (by decide)

end Members

def Leads (found : Option Meaning) (size : Nat) : Shown → Prop
  | .nowhere => True
  | .value => False
  | .name v => found = some v.meaning ∧ Fits size v

/-- The first string that shows the key names a member with the value that the key names. -/
def Faithful (k : Bytes) (size : Nat) (members : List Member) : Prop :=
  Leads (find k members) size (firstShown k members)

instance (size : Nat) (v : Value) : Decidable (Fits size v) :=
  match v with
  | .string _ => inferInstanceAs (Decidable (_ < _))
  | .integer _ _ => inferInstanceAs (Decidable (inLongLong _))
  | .boolean _ => isTrue trivial

instance (found : Option Meaning) (size : Nat) (shown : Shown) :
    Decidable (Leads found size shown) :=
  match shown with
  | .nowhere => isTrue trivial
  | .value => isFalse id
  | .name _ => inferInstanceAs (Decidable (_ ∧ _))

instance (k : Bytes) (size : Nat) (members : List Member) : Decidable (Faithful k size members) :=
  inferInstanceAs (Decidable (Leads _ _ _))

/-- A member is reported with its value, and none where there is none. -/
def Answers (k : Bytes) (size : Nat) (args : Bytes) : Option Meaning → Prop
  | none =>
      jsonStringArg args k size = .absent ∧ jsonBoolArg args k = .absent ∧
        jsonIntArg args k = .absent
  | some (.text s) => jsonStringArg args k size = .found s
  | some (.number n) => jsonIntArg args k = .found n
  | some (.flag b) => jsonBoolArg args k = .found b

def Reached (k args : Bytes) : Shown → Prop
  | .nowhere => memberValue args k = .absent
  | .value => memberValue args k = .malformed
  | .name v => ∃ ended c tail, (c = comma ∨ c = rbrace) ∧
      memberValue args k = .found (v.raw ++ (Gap.bytes ended ++ c :: tail))

theorem stringValue_ne_absent (size : Nat) (p : Bytes) : stringValue size p ≠ .absent := by
  intro absent
  rw [stringValue.eq_def] at absent
  split at absent
  · exact nomatch absent
  · split at absent
    · split at absent
      · exact nomatch absent
      · exact nomatch absent
    · exact nomatch absent

section Requests
variable {k : Bytes} {size : Nat} (word : Word k) (short : k.length ≤ 61) (positive : 0 < size)

include short


theorem needle_short : ¬ needleMax ≤ (needle k).length := by
  rw [needle, List.length_cons, List.length_append, List.length_singleton, needleMax]
  omega

theorem memberValue_found {args p : Bytes} (found : strstr (needle k) args = some (needle k ++ p)) :
    memberValue args k =
      match skipSpaces p with
      | [] => .malformed
      | c :: p => if c = colon then .found (skipSpaces p) else .malformed := by
  have behind : (needle k ++ p).drop (needle k).length = p := List.drop_left
  rw [memberValue, if_neg (needle_short short), found]
  change (match skipSpaces ((needle k ++ p).drop (needle k).length) with
    | [] => ArgRead.malformed
    | c :: p => if c = colon then ArgRead.found (skipSpaces p) else ArgRead.malformed) = _
  rw [behind]

theorem reached {args : Bytes} {shown : Shown} (finds : Finds k args shown) :
    Reached k args shown := by
  cases shown with
  | nowhere =>
      have none : strstr (needle k) args = Option.none := finds
      change memberValue args k = _
      rw [memberValue, if_neg (needle_short short), none]
  | value =>
      obtain ⟨p, gap, c, tail, found, text, closes⟩ := finds
      have solid : JsonGrammar.isSpace c = false := by
        rcases closes with rfl | rfl <;> decide
      have other : c ≠ colon := by
        rcases closes with rfl | rfl <;> decide
      change memberValue args k = _
      rw [memberValue_found short found, text, skipSpaces_gap gap solid]
      exact if_neg other
  | name v =>
      obtain ⟨p, named, opened, ended, c, tail, found, text, closes⟩ := finds
      refine ⟨ended, c, tail, closes, ?_⟩
      obtain ⟨d, ds, raw, solid⟩ := raw_starts v
      rw [memberValue_found short found, text, skipSpaces_gap named (by decide)]
      dsimp only
      rw [if_pos rfl, raw, List.cons_append, skipSpaces_gap opened solid]

include word positive

theorem answers_iff (o : Object) :
    Answers k size o.text (find k o.members) ↔ Faithful k size o.members := by
  have member : Reached k o.text (firstShown k o.members) := reached short (o.finds word)
  have none := @find_nowhere k o.members
  rw [Faithful]
  cases shown : firstShown k o.members with
  | nowhere =>
      rw [shown] at member
      replace member : memberValue o.text k = .absent := member
      rw [none shown]
      refine iff_of_true ⟨?_, ?_, ?_⟩ trivial
      · rw [jsonStringArg, if_neg (by omega), member]
        rfl
      · rw [jsonBoolArg, member]
        rfl
      · rw [jsonIntArg, member]
        rfl
  | value =>
      rw [shown] at member
      replace member : memberValue o.text k = .malformed := member
      have text : jsonStringArg o.text k size = .malformed := by
        rw [jsonStringArg, if_neg (by omega), member]
        rfl
      have flag : jsonBoolArg o.text k = .malformed := by
        rw [jsonBoolArg, member]
        rfl
      have number : jsonIntArg o.text k = .malformed := by
        rw [jsonIntArg, member]
        rfl
      refine iff_of_false (fun answers => ?_) id
      cases found : find k o.members with
      | none =>
          rw [found] at answers
          exact nomatch text.symm.trans answers.1
      | some m =>
          rw [found] at answers
          cases m with
          | text s => exact nomatch text.symm.trans answers
          | number n => exact nomatch number.symm.trans answers
          | flag b => exact nomatch flag.symm.trans answers
  | name v =>
      rw [shown] at member
      obtain ⟨ended, c, tail, closes, member⟩ := member
      have text (s : Bytes) : jsonStringArg o.text k size = .found s ↔
          v.meaning = .text s ∧ Fits size v := by
        rw [jsonStringArg, if_neg (by omega), member]
        exact stringValue_raw v positive _ s
      have flag (b : Bool) : jsonBoolArg o.text k = .found b ↔ v.meaning = .flag b := by
        rw [jsonBoolArg, member]
        exact boolValue_raw v _ b
      have number (n : Int) : jsonIntArg o.text k = .found n ↔
          v.meaning = .number n ∧ Fits size v := by
        rw [jsonIntArg, member]
        exact intValue_raw v closes n
      cases found : find k o.members with
      | none =>
          refine iff_of_false (fun answers => ?_) fun both => nomatch both.1
          have absent := answers.1
          rw [jsonStringArg, if_neg (by omega), member] at absent
          exact stringValue_ne_absent _ _ absent
      | some m =>
          change _ ↔ some m = some v.meaning ∧ Fits size v
          rw [Option.some.injEq]
          cases m with
          | text s => exact (text s).trans (and_congr_left' eq_comm)
          | number n => exact (number n).trans (and_congr_left' eq_comm)
          | flag b =>
              refine (flag b).trans ⟨fun same => ⟨same.symm, ?_⟩, fun both => both.1.symm⟩
              cases v with
              | boolean value => trivial
              | string t => exact nomatch same
              | integer negative magnitude => exact nomatch same

end Requests

/-! ### connect -/

theorem ssidKey_word : Word ssidKey ∧ ssidKey.length ≤ 61 := by decide +kernel
theorem pskKey_word : Word pskKey ∧ pskKey.length ≤ 61 := by decide +kernel
theorem securityKey_word : Word securityKey ∧ securityKey.length ≤ 61 := by decide +kernel

theorem connectArgs_iff {o : Object} {ssid psk security : Bytes}
    (hasSsid : find ssidKey o.members = some (.text ssid))
    (hasPsk : find pskKey o.members = some (.text psk))
    (hasSecurity : find securityKey o.members = some (.text security)) :
    connectArgs o.text = ⟨.found ssid, .found psk, .found security⟩ ↔
      Faithful ssidKey credentialMax o.members ∧ Faithful pskKey credentialMax o.members ∧
        Faithful securityKey securityMax o.members := by
  have readSsid := @answers_iff _ credentialMax ssidKey_word.1 ssidKey_word.2 (by decide) o
  have readPsk := @answers_iff _ credentialMax pskKey_word.1 pskKey_word.2 (by decide) o
  have readSecurity :=
    @answers_iff _ securityMax securityKey_word.1 securityKey_word.2 (by decide) o
  rw [hasSsid] at readSsid
  rw [hasPsk] at readPsk
  rw [hasSecurity] at readSecurity
  rw [← readSsid, ← readPsk, ← readSecurity, connectArgs, ConnectArgs.mk.injEq]
  exact .rfl

/-- Every key of every flat object, and the three texts of `connect`. -/
theorem args_exact (o : Object) :
    (∀ k size, Word k → k.length ≤ 61 → 0 < size →
      (Answers k size o.text (find k o.members) ↔ Faithful k size o.members)) ∧
    ∀ ssid psk security, find ssidKey o.members = some (.text ssid) →
      find pskKey o.members = some (.text psk) →
      find securityKey o.members = some (.text security) →
      (connectArgs o.text = ⟨.found ssid, .found psk, .found security⟩ ↔
        Faithful ssidKey credentialMax o.members ∧ Faithful pskKey credentialMax o.members ∧
          Faithful securityKey securityMax o.members) := by
  refine ⟨fun k size word short positive => ?_, fun ssid psk security hasSsid hasPsk hasSecurity => ?_⟩
  · exact answers_iff word short positive o
  · exact connectArgs_iff hasSsid hasPsk hasSecurity

def noGap : Gap := ⟨[], nofun⟩

/-- The request that `backend_linux.c` writes for a network. -/
def connectObject (ssid psk security : Bytes) : Object where
  lead := noGap
  hollow := noGap
  members := [(ssidKey, ssid), (pskKey, psk), (securityKey, security)].map fun (name, value) =>
    ⟨noGap, spelled name, noGap, noGap, .string (spelled value), noGap⟩
  trail := noGap

/-- A network named `psk`: its name is found where the passphrase is looked for. -/
theorem args_exact_named_psk :
    let o := connectObject (ascii "psk") (ascii "secret12") (ascii "wpa2")
    o.text = ascii
      "\x7b\"ssid\":\"psk\",\"psk\":\"secret12\",\"security\":\"wpa2\"\x7d" ∧
    find ssidKey o.members = some (.text (ascii "psk")) ∧
    find pskKey o.members = some (.text (ascii "secret12")) ∧
    jsonStringArg o.text pskKey credentialMax = .malformed ∧
    connectRequest o.text = none := by
  decide +kernel

theorem args_exact_home :
    let o := connectObject (ascii "home \"2.4\"") (ascii "secret12") (ascii "wpa2")
    Answers (ascii "security") 64 o.text (some (.text (ascii "wpa2"))) ∧
    connectArgs o.text =
      ⟨.found (ascii "home \"2.4\""), .found (ascii "secret12"), .found (ascii "wpa2")⟩ :=
  ⟨((args_exact _).1 (ascii "security") 64 (by decide +kernel) (by decide +kernel) (by decide)).mpr
      (by decide +kernel),
    ((args_exact _).2 _ _ _ (by decide +kernel) (by decide +kernel) (by decide +kernel)).mpr
      (by decide +kernel)⟩

end LibreEcho.Network
