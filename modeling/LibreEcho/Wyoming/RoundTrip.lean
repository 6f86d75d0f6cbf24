import LibreEcho.Json.TopLevel
import LibreEcho.Lib.Deliveries
import LibreEcho.Adapter.Answers
import LibreEcho.Json.ReadBack

/-!
The messages of `wyoming_protocol.c`: a header line in JSON, then the data and the payload whose
lengths the header tells.
-/
namespace LibreEcho.Wyoming
open JsonGrammar ByteText Deliveries

def leWyomingTypeMax : Nat := 64
def leWyomingHeaderMax : Nat := 4096
def leWyomingDataMax : Nat := 2048

def newline : UInt8 := 0x0a

structure Message where
  type : Bytes
  data : Bytes
  payload : Bytes
deriving DecidableEq, Repr

/-! ### Sending -/

/-- The header line as `snprintf` writes it. -/
def headerText (type : Bytes) (dataLength payloadLength : Nat) : Bytes :=
  ascii "\x7b\"type\":\"" ++ type ++ ascii "\"" ++
    (if dataLength = 0 then [] else ascii ",\"data_length\":" ++ decimal dataLength) ++
    (if payloadLength = 0 then [] else ascii ",\"payload_length\":" ++ decimal payloadLength) ++
    ascii "\x7d\n"

/-- The checks of `le_wyoming_send`. -/
def sendable (m : Message) : Bool :=
  let valid := Json.jsonValidObject (Json.parseFuel m.data.length) m.data = .ok true
  m.type.length ≠ 0 ∧ m.type.length < leWyomingTypeMax ∧
    (m.data.length = 0 ∨ (valid ∧ m.data.length < leWyomingDataMax))

/-- `le_wyoming_send`: the bytes written, `none` for -1. -/
def leWyomingSend (answers : List WriteAnswer) (m : Message) :
    Option (Bytes × List WriteAnswer) :=
  if sendable m = false then none
  else
    let header := headerText m.type m.data.length m.payload.length
    if leWyomingHeaderMax ≤ header.length then none
    else do
      let (header, answers) ← writeAll answers header
      let (data, answers) ← writeAll answers m.data
      let (payload, answers) ← writeAll answers m.payload
      some (header ++ (data ++ payload), answers)

/-! ### Reading -/

structure LeWyomingEvent where
  type : Bytes
  header : Bytes
  data : Bytes
  dataLength : Nat
  payloadLength : Nat
deriving DecidableEq, Repr

def typeKey : Bytes := ascii "type"
def dataLengthKey : Bytes := ascii "data_length"
def payloadLengthKey : Bytes := ascii "payload_length"

def toldLength (header key : Bytes) : Option Nat :=
  match Json.jsonGetInt header key with
  | .absent => some 0
  | .invalid => none
  | .value n => if n < 0 then none else some n.toNat

def headerEvent (line : Bytes) : Option LeWyomingEvent :=
  -- the line is a C string from here on
  let header := line.takeWhile (· ≠ 0)
  if Json.jsonValidObject (Json.parseFuel header.length) header ≠ .ok true then none
  else
    match Json.jsonGetString header typeKey leWyomingTypeMax with
    | .absent | .invalid => none
    | .text type =>
        match toldLength header dataLengthKey with
        | none => none
        | some dataLength =>
            if leWyomingDataMax ≤ dataLength then none
            else
              match toldLength header payloadLengthKey with
              | none => none
              | some payloadLength => some ⟨type, header, [], dataLength, payloadLength⟩

/-- `le_wyoming_read_header`; the last byte of the line buffer is for the terminator. -/
def leWyomingReadHeader (deliveries : List (Delivery UInt8)) :
    Option (LeWyomingEvent × List (Delivery UInt8)) := do
  let (line, deliveries) ← readUntil newline (leWyomingHeaderMax - 1) deliveries
  let event ← headerEvent line
  let (data, deliveries) ← readAll event.dataLength deliveries
  some ({ event with data := data }, deliveries)

def leWyomingReadPayload (payloadSize : Nat) (event : LeWyomingEvent)
    (deliveries : List (Delivery UInt8)) : Option (Bytes × List (Delivery UInt8)) :=
  if payloadSize < event.payloadLength then none else readAll event.payloadLength deliveries

end LibreEcho.Wyoming

/-!
A message that was sent is read back as it was, and nothing behind it is touched.

The header is found by its keys, and the only text in it that is not its own is the type. The data
is counted and never searched, so it may hold members of any name.
-/
namespace LibreEcho.Wyoming
open JsonGrammar ByteText Deliveries
open Adapter (LineText lineText_high lineText_decimal)
open Json (KeyText jsonValidObject parseFuel jsonMaxDepth findKey keyPattern jsonGetString jsonGetInt
  charsOf afterColon)

def isTypeByte (b : UInt8) : Bool :=
  (0x41 ≤ b && b ≤ 0x5a) || (0x61 ≤ b && b ≤ 0x7a) || b = 0x2d

theorem typeByte_plain {b : UInt8} (typed : isTypeByte b = true) :
    isPlain b = true ∧ b ≠ quote ∧ b ≠ backslash ∧ b ≠ newline ∧ b ≠ 0 ∧ b ≠ 0x5f ∧ 0x20 ≤ b := by
  have all : ∀ n : Fin 256, isTypeByte (.ofNat n.val) = true →
      isPlain (.ofNat n.val) = true ∧ UInt8.ofNat n.val ≠ quote ∧ UInt8.ofNat n.val ≠ backslash ∧
        UInt8.ofNat n.val ≠ newline ∧ UInt8.ofNat n.val ≠ 0 ∧ UInt8.ofNat n.val ≠ 0x5f ∧
          0x20 ≤ UInt8.ofNat n.val := by decide +kernel
  have this := all ⟨b.toNat, b.toNat_lt⟩
  rw [UInt8.ofNat_toNat] at this
  exact this typed

/-! ### The header as a text -/

def nameText (key : Bytes) : Bytes :=
  quote :: (key ++ [quote, colon])

def typeMember (type : Bytes) : Bytes :=
  nameText typeKey ++ quote :: (type ++ [quote])

def lengthMember (key : Bytes) (n : Nat) : Bytes :=
  if n = 0 then [] else comma :: (nameText key ++ decimal n)

def headerLine (type : Bytes) (dataLength payloadLength : Nat) : Bytes :=
  lbrace :: (typeMember type ++ (lengthMember dataLengthKey dataLength ++
    (lengthMember payloadLengthKey payloadLength ++ [rbrace])))

theorem headerText_eq (type : Bytes) (dataLength payloadLength : Nat) :
    headerText type dataLength payloadLength =
      headerLine type dataLength payloadLength ++ [newline] := by
  have open_ : ascii "\x7b\"type\":\"" = lbrace :: (nameText typeKey ++ [quote]) := by decide
  have data : ascii ",\"data_length\":" = comma :: nameText dataLengthKey := by decide
  have payload : ascii ",\"payload_length\":" = comma :: nameText payloadLengthKey := by decide
  have close : ascii "\x7d\n" = [rbrace, newline] := by decide
  have mark : ascii "\"" = [quote] := by decide
  rw [headerText, headerLine, open_, data, payload, close, mark, typeMember, lengthMember,
    lengthMember]
  simp

section Header
variable {type key : Bytes}

theorem nameText_named (key more : Bytes) : nameText key ++ more = Adapter.named key ++ more := by
  rw [nameText, Adapter.named, Adapter.needle]
  simp

theorem fields_before {d : Nat} {fields : List (Bytes × Bytes)} {key v members : Bytes}
    (plain : ∀ b ∈ key, isPlain b = true) (value : Derives .value d v)
    (more : fields = [] ∧ members = [] ∨ ∃ m, Fields d fields m ∧ members = comma :: m) :
    Fields d ((key, v) :: fields) (nameText key ++ (v ++ members)) := by
  rcases more with ⟨rfl, rfl⟩ | ⟨m, rest, rfl⟩
  · rw [List.append_nil, nameText_named]
    exact Adapter.fields_lastNamed key plain value
  · rw [nameText_named]
    exact Adapter.fields_named key plain value rest

theorem lengthMember_before {d n : Nat} {fields : List (Bytes × Bytes)} {key members : Bytes}
    (plain : ∀ b ∈ key, isPlain b = true)
    (more : fields = [] ∧ members = [] ∨ ∃ m, Fields d fields m ∧ members = comma :: m) :
    ∃ fields', fields' = [] ∧ lengthMember key n ++ members = [] ∨
      ∃ m, Fields d fields' m ∧ lengthMember key n ++ members = comma :: m := by
  unfold lengthMember
  by_cases zero : n = 0
  · rw [if_pos zero]
    exact ⟨fields, more⟩
  · rw [if_neg zero]
    refine ⟨_, .inr ⟨_, fields_before plain (.number (number_decimal n)) more, ?_⟩⟩
    rw [List.cons_append, List.append_assoc]

theorem headerLine_object (typed : ∀ b ∈ type, isTypeByte b = true) (dataLength payloadLength : Nat) :
    ObjectText jsonMaxDepth (headerLine type dataLength payloadLength) := by
  obtain ⟨last, payload⟩ := @lengthMember_before 63 payloadLength [] payloadLengthKey []
    (by decide) (.inl ⟨rfl, rfl⟩)
  obtain ⟨lengths, both⟩ := @lengthMember_before 63 dataLength last dataLengthKey _ (by decide) payload
  have text : Derives .value 63 (quote :: (type ++ [quote])) :=
    .string (.quoted (plain_name fun b inside => (typeByte_plain (typed b inside)).1))
  have members := fields_before (by decide : ∀ b ∈ typeKey, isPlain b = true) text both
  refine record_objectText ⟨[], [], _, [], [], spaces_nil, spaces_nil, members, spaces_nil,
    spaces_nil, ?_⟩
  rw [headerLine, typeMember]
  simp

theorem lineText_length (high : ∀ b ∈ comma :: nameText key, 0x20 ≤ b) (n : Nat) :
    LineText (lengthMember key n) := by
  unfold lengthMember
  split
  · exact lineText_high (by rintro _ ⟨⟩)
  · exact (lineText_high high).append (lineText_decimal n)

theorem headerLine_text (typed : ∀ b ∈ type, isTypeByte b = true) (dataLength payloadLength : Nat) :
    LineText (headerLine type dataLength payloadLength) := by
  have front : LineText (lbrace :: (nameText typeKey ++ [quote])) := lineText_high (by decide)
  have name : LineText type := lineText_high fun b inside =>
    (typeByte_plain (typed b inside)).2.2.2.2.2.2
  have close : LineText [quote] := lineText_high (by decide)
  have data : LineText (lengthMember dataLengthKey dataLength) := lineText_length (by decide) _
  have payload : LineText (lengthMember payloadLengthKey payloadLength) :=
    lineText_length (by decide) _
  have back : LineText [rbrace] := lineText_high (by decide)
  have whole := front.append (name.append (close.append (data.append (payload.append back))))
  simpa [headerLine, typeMember] using whole

/-! ### Finding the members -/

/-- What `find_key` looks for. -/
def pattern (key : Bytes) : Bytes :=
  quote :: (key ++ [quote])

theorem keyPattern_pattern {key : Bytes} (short : key.length ≤ 93) :
    keyPattern key = pattern key :=
  Json.keyPattern_short short

theorem takeWhile_quoted {name : Bytes} (free : quote ∉ name) (rest : Bytes) :
    (name ++ quote :: rest).takeWhile (· ≠ quote) = name := by
  have inside : ∀ b ∈ name, decide (b ≠ quote) = true := fun b member =>
    decide_eq_true fun same => free (same ▸ member)
  rw [List.takeWhile_append_of_pos inside, List.takeWhile_cons_of_neg (by simp), List.append_nil]

theorem strstr_quoted {name : Bytes} (plain : quote ∉ key) (free : quote ∉ name)
    (other : key ≠ name) (rest : Bytes) :
    strstr (pattern key) (quote :: (name ++ quote :: rest)) =
      strstr (pattern key) (quote :: rest) := by
  have miss : ¬pattern key <+: quote :: (name ++ quote :: rest) := by
    intro front
    obtain ⟨more, same⟩ := (List.cons_prefix_cons.mp front).2
    rw [List.append_assoc, List.singleton_append] at same
    refine other ?_
    rw [← takeWhile_quoted plain more, same, takeWhile_quoted free]
  rw [strstr_later miss]
  exact strstr_free free _

theorem strstr_closing {first b : UInt8} {more : Bytes} (starts : key = first :: more)
    (other : first ≠ b) (rest : Bytes) :
    strstr (pattern key) (quote :: b :: rest) = strstr (pattern key) (b :: rest) := by
  refine strstr_later fun front => ?_
  rw [pattern, starts] at front
  exact other (List.cons_prefix_cons.mp (List.cons_prefix_cons.mp front).2).1

/-- A key is a name without quotes that is not part of the header's own marks. -/
structure HeaderKey (key : Bytes) : Prop where
  free : quote ∉ key
  short : key.length ≤ 93
  first : ∃ first more, key = first :: more ∧ first ≠ colon ∧ first ≠ comma ∧ first ≠ rbrace

theorem strstr_name (known : HeaderKey key) {name : Bytes} (free : quote ∉ name)
    (other : key ≠ name) (rest : Bytes) :
    strstr (pattern key) (nameText name ++ rest) = strstr (pattern key) rest := by
  obtain ⟨first, more, starts, mark, -, -⟩ := known.first
  have text : nameText name ++ rest = quote :: (name ++ quote :: colon :: rest) := by
    simp [nameText]
  rw [text, strstr_quoted known.free free other, strstr_closing starts mark]
  exact strstr_free (s := [colon]) (by decide) rest

theorem quote_decimal (n : Nat) : quote ∉ decimal n := fun inside =>
  absurd (decimal_isDigit inside) (by decide)

theorem strstr_length (known : HeaderKey key) {name : Bytes} (free : quote ∉ name)
    (other : key ≠ name) (n : Nat) (rest : Bytes) :
    strstr (pattern key) (lengthMember name n ++ rest) = strstr (pattern key) rest := by
  unfold lengthMember
  split
  · rfl
  · have text : comma :: (nameText name ++ decimal n) ++ rest =
        [comma] ++ (nameText name ++ (decimal n ++ rest)) := by simp
    rw [text, pattern, strstr_free (by decide), ← pattern, strstr_name known free other, pattern,
      strstr_free (quote_decimal n)]

theorem strstr_type (known : HeaderKey key) (other : key ≠ typeKey)
    (typed : ∀ b ∈ type, isTypeByte b = true) (apart : key ≠ type) {b : UInt8}
    (mark : b = comma ∨ b = rbrace) (rest : Bytes) :
    strstr (pattern key) (lbrace :: (typeMember type ++ b :: rest)) =
      strstr (pattern key) (b :: rest) := by
  obtain ⟨first, more, starts, -, notComma, notBrace⟩ := known.first
  have free : quote ∉ type := fun inside => (typeByte_plain (typed _ inside)).2.1 rfl
  have text : lbrace :: (typeMember type ++ b :: rest) =
      [lbrace] ++ (nameText typeKey ++ (quote :: (type ++ quote :: b :: rest))) := by
    simp [typeMember]
  rw [text, pattern, strstr_free (by decide), ← pattern, strstr_name known (by decide) other,
    strstr_quoted known.free free apart, strstr_closing starts]
  rcases mark with rfl | rfl
  · exact notComma
  · exact notBrace

theorem findKey_name (known : HeaderKey key) {text : Bytes} {b : UInt8} {rest : Bytes}
    (solid : ByteText.isSpace b = false)
    (found : strstr (pattern key) text = some (nameText key ++ b :: rest)) :
    findKey text key = some (b :: rest) := by
  have cut : nameText key ++ b :: rest = pattern key ++ colon :: b :: rest := by
    simp [nameText, pattern]
  rw [findKey, keyPattern_pattern known.short, found, cut]
  dsimp only
  rw [List.drop_left, afterColon, List.dropWhile_cons_of_neg (by decide)]
  dsimp only
  rw [if_neg (not_not_intro rfl), List.dropWhile_cons_of_neg (by rw [solid]; decide)]

theorem findKey_none (known : HeaderKey key) {text : Bytes}
    (missing : strstr (pattern key) text = none) : findKey text key = none := by
  rw [findKey, keyPattern_pattern known.short, missing]

end Header

/-! ### Reading the header -/

section Reading
variable {type key : Bytes}

theorem typeKey_known : HeaderKey typeKey :=
  ⟨by decide, by decide, _, _, rfl, by decide, by decide, by decide⟩

theorem dataLengthKey_known : HeaderKey dataLengthKey :=
  ⟨by decide, by decide, _, _, rfl, by decide, by decide, by decide⟩

theorem payloadLengthKey_known : HeaderKey payloadLengthKey :=
  ⟨by decide, by decide, _, _, rfl, by decide, by decide, by decide⟩

theorem charsOf_decimal (n : Nat) : charsOf (decimal n) = CText.decimal n := by
  rw [charsOf, decimal, List.map_map]
  refine (List.map_congr_left fun c inside => ?_).trans (List.map_id _)
  exact (digit_byte (Nat.isDigit_of_mem_toDigits (by decide) (by decide) inside)).2

/-- The lengths that an `int` of the reader can hold. -/
def lengthMax : Nat := 2 ^ 31 - 1

theorem toldLength_decimal (known : HeaderKey key) {text : Bytes} {n : Nat} {b : UInt8}
    (rest : Bytes) (mark : b = comma ∨ b = rbrace) (fits : n ≤ lengthMax)
    (found : strstr (pattern key) text = some (nameText key ++ (decimal n ++ b :: rest))) :
    toldLength text key = some n := by
  obtain ⟨first, more, digits⟩ := List.exists_cons_of_ne_nil (decimal_ne_nil n)
  have solid : ByteText.isSpace first = false := by
    have digit : ByteText.isDigit first = true :=
      decimal_isDigit (n := n) (digits ▸ List.mem_cons_self)
    by_contra blank
    simp only [ByteText.isDigit, Bool.and_eq_true, decide_eq_true_eq] at digit
    simp only [ByteText.isSpace] at blank
    grind
  have text_ : decimal n ++ b :: rest = first :: (more ++ b :: rest) := by rw [digits]; rfl
  rw [text_] at found
  have value := findKey_name known solid found
  rw [← text_] at value
  have stop : CText.DigitFree (charsOf (b :: rest)) := by
    intro c head
    rw [charsOf, List.map_cons, List.head?_cons] at head
    obtain rfl := Option.some.inj head
    rcases mark with rfl | rfl <;> decide
  have number : CText.readNumber (charsOf (decimal n ++ b :: rest)) =
      some ⟨false, n, charsOf (b :: rest)⟩ := by
    have cut : charsOf (decimal n ++ b :: rest) = CText.decimal n ++ charsOf (b :: rest) := by
      rw [← charsOf_decimal, charsOf, charsOf, charsOf, List.map_append]
    rw [cut]
    exact CText.readNumber_decimal n stop
  have whole : Json.clampLong (n : Int) = n := by
    unfold lengthMax at fits
    unfold Json.clampLong Json.longMin Json.longMax
    omega
  rw [toldLength, jsonGetInt, value]
  dsimp only
  rw [number]
  simp only [Bool.false_eq_true, if_false, whole]
  rw [if_neg (by omega), Int.toNat_natCast]

theorem toldLength_none (known : HeaderKey key) {text : Bytes}
    (missing : strstr (pattern key) text = none) : toldLength text key = some 0 := by
  rw [toldLength, jsonGetInt, findKey_none known missing]

theorem toldLength_member (known : HeaderKey key) {text : Bytes} {n : Nat} {b : UInt8}
    (rest : Bytes) (mark : b = comma ∨ b = rbrace) (fits : n ≤ lengthMax)
    (none_ : strstr (pattern key) (b :: rest) = none)
    (place : strstr (pattern key) text = strstr (pattern key) (lengthMember key n ++ b :: rest)) :
    toldLength text key = some n := by
  by_cases zero : n = 0
  · rw [lengthMember, if_pos zero, List.nil_append, none_] at place
    rw [zero]
    exact toldLength_none known place
  · rw [lengthMember, if_neg zero] at place
    refine toldLength_decimal known rest mark fits (place.trans ?_)
    have text_ : comma :: (nameText key ++ decimal n) ++ b :: rest =
        [comma] ++ (pattern key ++ (colon :: (decimal n ++ b :: rest))) := by
      simp [nameText, pattern]
    have back : nameText key ++ (decimal n ++ b :: rest) =
        pattern key ++ (colon :: (decimal n ++ b :: rest)) := by
      simp [nameText, pattern]
    rw [text_, back]
    have skip := @strstr_free UInt8 _ quote (key ++ [quote]) [comma] (by decide)
      (pattern key ++ (colon :: (decimal n ++ b :: rest)))
    exact skip.trans (strstr_here _)

theorem lengths_mark (n : Nat) {b : UInt8} (mark : b = comma ∨ b = rbrace) (rest : Bytes) :
    ∃ b' rest', (b' = comma ∨ b' = rbrace) ∧ lengthMember key n ++ b :: rest = b' :: rest' := by
  unfold lengthMember
  split
  · exact ⟨b, rest, mark, rfl⟩
  · exact ⟨comma, _, .inl rfl, rfl⟩

theorem key_apart (typed : ∀ b ∈ type, isTypeByte b = true) (scored : (0x5f : UInt8) ∈ key) :
    key ≠ type := by
  rintro rfl
  exact (typeByte_plain (typed _ scored)).2.2.2.2.2.1 rfl

theorem toldLength_data (typed : ∀ b ∈ type, isTypeByte b = true) {dataLength payloadLength : Nat}
    (fits : dataLength ≤ lengthMax) :
    toldLength (headerLine type dataLength payloadLength) dataLengthKey = some dataLength := by
  obtain ⟨b, rest, mark, payload⟩ :=
    @lengths_mark payloadLengthKey payloadLength rbrace (.inr rfl) []
  obtain ⟨b', rest', mark', both⟩ := @lengths_mark dataLengthKey dataLength b mark rest
  refine toldLength_member dataLengthKey_known rest mark fits ?_ ?_
  · rw [← payload, strstr_length dataLengthKey_known (by decide) (by decide)]
    decide
  · rw [headerLine, payload, both]
    exact strstr_type dataLengthKey_known (by decide) typed (key_apart typed (by decide)) mark' _

theorem toldLength_payload (typed : ∀ b ∈ type, isTypeByte b = true)
    {dataLength payloadLength : Nat} (fits : payloadLength ≤ lengthMax) :
    toldLength (headerLine type dataLength payloadLength) payloadLengthKey = some payloadLength := by
  obtain ⟨b, rest, mark, payload⟩ :=
    @lengths_mark payloadLengthKey payloadLength rbrace (.inr rfl) []
  obtain ⟨b', rest', mark', both⟩ := @lengths_mark dataLengthKey dataLength b mark rest
  refine toldLength_member payloadLengthKey_known [] (.inr rfl) fits (by decide) ?_
  rw [headerLine, payload, both,
    strstr_type payloadLengthKey_known (by decide) typed (key_apart typed (by decide)) mark',
    ← both, ← payload, strstr_length payloadLengthKey_known (by decide) (by decide)]

theorem findKey_type (type : Bytes) (dataLength payloadLength : Nat) :
    ∃ rest, findKey (headerLine type dataLength payloadLength) typeKey =
      some (quote :: (type ++ quote :: rest)) := by
  obtain ⟨rest, tail⟩ : ∃ rest, headerLine type dataLength payloadLength =
      [lbrace] ++ (pattern typeKey ++ (colon :: quote :: (type ++ quote :: rest))) :=
    ⟨lengthMember dataLengthKey dataLength ++
      (lengthMember payloadLengthKey payloadLength ++ [rbrace]), by
        simp [headerLine, typeMember, nameText, pattern]⟩
  refine ⟨rest, findKey_name typeKey_known (by decide) ?_⟩
  have back : nameText typeKey ++ quote :: (type ++ quote :: rest) =
      pattern typeKey ++ (colon :: quote :: (type ++ quote :: rest)) := by
    simp [nameText, pattern]
  have skip := @strstr_free UInt8 _ quote (typeKey ++ [quote]) [lbrace] (by decide)
    (pattern typeKey ++ (colon :: quote :: (type ++ quote :: rest)))
  rw [tail, back]
  exact skip.trans (strstr_here _)

theorem escaped_type (typed : ∀ b ∈ type, isTypeByte b = true) : Json.escaped type = type := by
  induction type with
  | nil => rfl
  | cons b type ih =>
      obtain ⟨first, rest⟩ := List.forall_mem_cons.mp typed
      obtain ⟨-, notQuote, notSlash, notLine, -, -, high⟩ := typeByte_plain first
      have plain : Json.escapeByte b = [b] := by
        have controls : b ≠ 10 ∧ b ≠ 13 ∧ b ≠ 9 := by
          refine ⟨?_, ?_, ?_⟩ <;> rintro rfl <;> exact absurd high (by decide)
        rw [Json.escapeByte, if_neg (not_or.mpr ⟨notQuote, notSlash⟩), if_neg controls.1,
          if_neg controls.2.1, if_neg controls.2.2, if_pos high]
      rw [Json.escaped_cons, plain, ih rest]
      rfl

theorem jsonGetString_type (typed : ∀ b ∈ type, isTypeByte b = true)
    (short : type.length < leWyomingTypeMax) (dataLength payloadLength : Nat) :
    jsonGetString (headerLine type dataLength payloadLength) typeKey leWyomingTypeMax =
      .text type := by
  obtain ⟨rest, found⟩ := findKey_type type dataLength payloadLength
  have read := Json.jsonGetStringAt_escaped rest (t := type) short
  have clean : Json.Clean type := fun b inside => (typeByte_plain (typed b inside)).2.2.2.2.2.2
  rw [escaped_type typed, if_pos clean] at read
  rw [jsonGetString, found]
  dsimp only
  rw [read]
  rfl

theorem headerEvent_headerLine (typed : ∀ b ∈ type, isTypeByte b = true)
    (short : type.length < leWyomingTypeMax) {dataLength payloadLength : Nat}
    (data : dataLength < leWyomingDataMax) (payload : payloadLength ≤ lengthMax) :
    headerEvent (headerLine type dataLength payloadLength) =
      some ⟨type, headerLine type dataLength payloadLength, [], dataLength, payloadLength⟩ := by
  have whole : (headerLine type dataLength payloadLength).takeWhile (· ≠ 0) =
      headerLine type dataLength payloadLength :=
    List.takeWhile_eq_self_iff.mpr fun b inside =>
      decide_eq_true fun null => (headerLine_text typed _ _).filled (null ▸ inside)
  obtain ⟨accepted, valid, object⟩ :=
    Json.jsonValidObject_iff (headerLine type dataLength payloadLength) 0
  rw [object.mpr (headerLine_object typed _ _), Nat.add_zero] at valid
  rw [headerEvent, whole, valid, if_neg (not_not_intro rfl), jsonGetString_type typed short]
  dsimp only
  rw [toldLength_data typed (by unfold lengthMax; unfold leWyomingDataMax at data; omega)]
  dsimp only
  rw [if_neg (Nat.not_le.mpr data), toldLength_payload typed payload]

end Reading

/-! ### Messages one behind the other -/

def wireText (m : Message) : Bytes :=
  headerText m.type m.data.length m.payload.length ++ (m.data ++ m.payload)

def leWyomingRead (payloadSize : Nat) (deliveries : List (Delivery UInt8)) :
    Option (Message × List (Delivery UInt8)) := do
  let (event, deliveries) ← leWyomingReadHeader deliveries
  let (payload, deliveries) ← leWyomingReadPayload payloadSize event deliveries
  some (⟨event.type, event.data, payload⟩, deliveries)

def readMessages (payloadSize : Nat) :
    Nat → List (Delivery UInt8) → Option (List Message × List (Delivery UInt8))
  | 0, deliveries => some ([], deliveries)
  | count + 1, deliveries => do
      let (m, deliveries) ← leWyomingRead payloadSize deliveries
      let (rest, deliveries) ← readMessages payloadSize count deliveries
      some (m :: rest, deliveries)

def sendMessages : List WriteAnswer → List Message → Option (Bytes × List WriteAnswer)
  | answers, [] => some ([], answers)
  | answers, m :: rest => do
      let (text, answers) ← leWyomingSend answers m
      let (texts, answers) ← sendMessages answers rest
      some (text ++ texts, answers)

/-- A type of letters and hyphens, and a payload whose length the reader's `int` and its buffer
can hold. -/
structure Readable (payloadSize : Nat) (m : Message) : Prop where
  typed : ∀ b ∈ m.type, isTypeByte b = true
  told : m.payload.length ≤ lengthMax
  room : m.payload.length ≤ payloadSize

section Messages
variable {m : Message} {payloadSize : Nat}

theorem sendable_iff : sendable m = true ↔
    m.type ≠ [] ∧ m.type.length < leWyomingTypeMax ∧
      (m.data = [] ∨ ObjectText jsonMaxDepth m.data ∧ m.data.length < leWyomingDataMax) := by
  obtain ⟨accepted, valid, object⟩ := Json.jsonValidObject_iff m.data 0
  rw [Nat.add_zero] at valid
  simp only [sendable, valid, decide_eq_true_eq, Except.ok.injEq, object, ne_eq,
    List.length_eq_zero_iff]

/-- The header line and its terminator fit in the header buffer. -/
def HeaderFits (m : Message) : Prop :=
  (headerText m.type m.data.length m.payload.length).length < leWyomingHeaderMax

theorem leWyomingSend_some {answers left : List WriteAnswer} {text : Bytes}
    (sent : leWyomingSend answers m = some (text, left)) :
    sendable m = true ∧ HeaderFits m ∧ text = wireText m := by
  unfold leWyomingSend at sent
  split at sent
  · cases sent
  next ready =>
    dsimp only at sent
    split at sent
    · cases sent
    next fits =>
      obtain ⟨⟨header, answers₁⟩, first, sent⟩ := Option.bind_eq_some_iff.mp sent
      obtain ⟨⟨data, answers₂⟩, second, sent⟩ := Option.bind_eq_some_iff.mp sent
      obtain ⟨⟨payload, answers₃⟩, third, sent⟩ := Option.bind_eq_some_iff.mp sent
      obtain ⟨rfl, rfl⟩ := Prod.mk.inj (Option.some.inj sent)
      refine ⟨by simpa using ready, Nat.lt_of_not_le fits, ?_⟩
      rw [writeAll_whole first, writeAll_whole second, writeAll_whole third, wireText]

theorem lengthMember_length {key : Bytes} (short : key.length ≤ 20) {n : Nat}
    (fits : n ≤ lengthMax) : (lengthMember key n).length ≤ 40 := by
  have digits : (decimal n).length ≤ 10 := by
    rw [decimal, List.length_map]
    refine (Nat.length_toDigits_le_iff (by decide) (by decide)).mpr ?_
    unfold lengthMax at fits
    omega
  unfold lengthMember nameText
  split
  · exact Nat.zero_le _
  · simp only [List.length_cons, List.length_append, List.length_nil]
    omega

theorem headerFits (ready : sendable m = true) (told : m.payload.length ≤ lengthMax) :
    HeaderFits m := by
  obtain ⟨-, short, data⟩ := sendable_iff.mp ready
  have sized : m.data.length ≤ lengthMax := by
    rcases data with empty | ⟨-, sized⟩
    · rw [empty]
      decide
    · exact Nat.le_of_lt (Nat.lt_trans sized (by decide))
  have first := @lengthMember_length dataLengthKey (by decide) _ sized
  have second := @lengthMember_length payloadLengthKey (by decide) _ told
  have name : (nameText typeKey).length = 7 := by decide
  unfold HeaderFits
  rw [headerText_eq, headerLine, typeMember]
  unfold leWyomingTypeMax at short
  unfold leWyomingHeaderMax
  simp only [List.length_cons, List.length_append, List.length_nil, name]
  omega

theorem leWyomingSend_sends (ready : sendable m = true) (told : m.payload.length ≤ lengthMax) :
    ∃ answers, (leWyomingSend answers m).isSome := by
  obtain ⟨count, long⟩ : ∃ count, (wireText m).length < count := ⟨_, Nat.lt_succ_self _⟩
  rw [wireText, List.length_append, List.length_append] at long
  obtain ⟨j, some₁, header⟩ :=
    @writeAll_long _ count 3 (headerText m.type m.data.length m.payload.length) (by omega) (by omega)
      (by decide)
  obtain ⟨k, some₂, data⟩ := @writeAll_long _ count j m.data (by omega) (by omega) (by omega)
  obtain ⟨l, -, payload⟩ := @writeAll_long _ count k m.payload (by omega) (by omega) (by omega)
  refine ⟨.replicate 3 (.wrote count), ?_⟩
  have fits : ¬leWyomingHeaderMax ≤ (headerText m.type m.data.length m.payload.length).length :=
    Nat.not_le.mpr (headerFits ready told)
  simp only [leWyomingSend, ready, Bool.true_eq_false, if_false, if_neg fits, header, data, payload,
    Option.bind_eq_bind, Option.bind_some, Option.isSome_some]

theorem leWyomingRead_takes (ready : sendable m = true) (headed : HeaderFits m)
    (readable : Readable payloadSize m) {deliveries : List (Delivery UInt8)} {later : Bytes}
    (holds : contents deliveries = wireText m ++ later) :
    ∃ rest, leWyomingRead payloadSize deliveries = some (m, rest) ∧ contents rest = later := by
  obtain ⟨-, short, data⟩ := sendable_iff.mp ready
  have sized : m.data.length < leWyomingDataMax := by
    rcases data with empty | ⟨-, sized⟩
    · rw [empty]
      decide
    · exact sized
  have line : newline ∉ headerLine m.type m.data.length m.payload.length :=
    (headerLine_text readable.typed _ _).line
  have fits : (headerLine m.type m.data.length m.payload.length).length < leWyomingHeaderMax - 1 := by
    rw [HeaderFits, headerText_eq, List.length_append, List.length_singleton] at headed
    omega
  rw [wireText, headerText_eq, List.append_assoc, List.append_assoc, List.append_assoc,
    List.singleton_append] at holds
  obtain ⟨rest₁, read₁, holds₁⟩ := readUntil_takes line fits holds
  obtain ⟨rest₂, read₂, holds₂⟩ := readAll_takes holds₁
  obtain ⟨rest₃, read₃, holds₃⟩ := readAll_takes holds₂
  refine ⟨rest₃, ?_, holds₃⟩
  have header : leWyomingReadHeader deliveries =
      some (⟨m.type, headerLine m.type m.data.length m.payload.length, m.data, m.data.length,
        m.payload.length⟩, rest₂) := by
    simp only [leWyomingReadHeader, read₁, Option.bind_eq_bind, Option.bind_some,
      headerEvent_headerLine readable.typed short sized readable.told, read₂]
  simp only [leWyomingRead, header, Option.bind_eq_bind, Option.bind_some, leWyomingReadPayload,
    if_neg (Nat.not_lt.mpr readable.room), read₃]

theorem readMessages_takes {messages : List Message}
    (readable : ∀ m ∈ messages, Readable payloadSize m) {answers left : List WriteAnswer}
    {sent : Bytes} (wrote : sendMessages answers messages = some (sent, left))
    {deliveries : List (Delivery UInt8)} {later : Bytes}
    (holds : contents deliveries = sent ++ later) :
    ∃ rest, readMessages payloadSize messages.length deliveries = some (messages, rest) ∧
      contents rest = later := by
  induction messages generalizing answers sent deliveries with
  | nil =>
      obtain ⟨rfl, -⟩ := Prod.mk.inj (Option.some.inj wrote)
      exact ⟨deliveries, rfl, holds⟩
  | cons m messages ih =>
      obtain ⟨first, others⟩ := List.forall_mem_cons.mp readable
      rw [sendMessages] at wrote
      obtain ⟨⟨text, answers₁⟩, one, wrote⟩ := Option.bind_eq_some_iff.mp wrote
      obtain ⟨⟨texts, answers₂⟩, more, wrote⟩ := Option.bind_eq_some_iff.mp wrote
      obtain ⟨rfl, rfl⟩ := Prod.mk.inj (Option.some.inj wrote)
      obtain ⟨ready, headed, rfl⟩ := leWyomingSend_some one
      rw [List.append_assoc] at holds
      obtain ⟨rest₁, read₁, holds₁⟩ := leWyomingRead_takes ready headed first holds
      obtain ⟨rest, read, rests⟩ := ih others more holds₁
      refine ⟨rest, ?_, rests⟩
      rw [List.length_cons]
      simp only [readMessages, read₁, Option.bind_eq_bind, Option.bind_some, read]

end Messages

/--
Of messages with readable types and payloads, exactly those are sent whose type and data are within
their sizes and whose data is an object; and however the bytes sent are cut into pieces, they are
read back as the same messages, and what follows them is left.
-/
theorem wyoming_roundTrip {payloadSize : Nat} {messages : List Message}
    (readable : ∀ m ∈ messages, Readable payloadSize m) :
    (∀ m ∈ messages, (∃ answers, (leWyomingSend answers m).isSome) ↔
      m.type ≠ [] ∧ m.type.length < leWyomingTypeMax ∧
        (m.data = [] ∨ ObjectText jsonMaxDepth m.data ∧ m.data.length < leWyomingDataMax)) ∧
    ∀ answers sent left, sendMessages answers messages = some (sent, left) →
      ∀ deliveries later, contents deliveries = sent ++ later →
        ∃ rest, readMessages payloadSize messages.length deliveries = some (messages, rest) ∧
          contents rest = later := by
  refine ⟨fun m inside => ?_, fun answers sent left wrote deliveries later holds =>
    readMessages_takes readable wrote holds⟩
  rw [← sendable_iff]
  constructor
  · rintro ⟨answers, some_⟩
    obtain ⟨⟨text, left⟩, sent⟩ := Option.isSome_iff_exists.mp some_
    exact (leWyomingSend_some sent).1
  · exact fun ready => leWyomingSend_sends ready (readable m inside).told

/-- Data with a member that is named like one of the header. -/
def chunkMessage : Message :=
  ⟨ascii "audio-chunk", ascii "\x7b\"data_length\":7\x7d", [1, 2, 3]⟩

def pingMessage : Message :=
  ⟨ascii "type", [], []⟩

/-- Two messages and the start of a third, in one piece behind an interruption. -/
def twoMessages : List (Delivery UInt8) :=
  .interrupted :: putBack (wireText chunkMessage ++ (wireText pingMessage ++ [lbrace])) []

theorem wyoming_roundTrip_two :
    ∃ rest, readMessages 3 2 twoMessages = some ([chunkMessage, pingMessage], rest) ∧
      contents rest = [lbrace] := by
  have readable : ∀ m ∈ [chunkMessage, pingMessage], Readable 3 m := by
    refine List.forall_mem_cons.mpr ⟨⟨by decide, by decide, by decide⟩,
      List.forall_mem_cons.mpr ⟨⟨by decide, by decide, by decide⟩, nofun⟩⟩
  have sent : sendMessages [.wrote 5, .interrupted, .wrote 99, .wrote 99, .wrote 99, .wrote 99]
      [chunkMessage, pingMessage] = some (wireText chunkMessage ++ wireText pingMessage, []) := by
    decide +kernel
  exact (wyoming_roundTrip readable).2 _ _ _ sent twoMessages [lbrace] (by decide +kernel)

end LibreEcho.Wyoming
