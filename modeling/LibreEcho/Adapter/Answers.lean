import LibreEcho.Adapter.Strings
import LibreEcho.Lib.JsonFields
import LibreEcho.Adapter.Messages

/-!
The text search on JSON: it finds the first member of the name, in the order of
the text and at any depth.

A text is settled if the search either passes over it or finds its match in it,
whatever comes after.
-/
namespace LibreEcho.Adapter
open JsonGrammar ByteText

variable {key k s t w w' v q r : Bytes} {b : UInt8} {d : Nat}

/-- What may come after a value: no colon, and nothing that makes a quote a needle. -/
structure Follows (key q : Bytes) : Prop where
  member : (skipWs q).head? ≠ some colon
  needle : ¬needle key <+: quote :: q

def Settled (key s : Bytes) : Prop :=
  (∀ q, Follows key q → search key (s ++ q) = search key q) ∨
    ∃ p, ∀ q, Follows key q → search key (s ++ q) = some (p ++ q)

theorem follows_nil (field : FieldName key) : Follows key [] where
  member := by rw [skipWs]; simp
  needle first := by
    obtain ⟨rest, split⟩ := first
    have long := congrArg List.length split
    rw [List.length_append, needle_length] at long
    exact fieldName_ne_nil field (List.eq_nil_of_length_eq_zero (by simp at long; omega))

theorem follows_cons (field : FieldName key) (solid : JsonGrammar.isSpace b = false)
    (other : b ≠ colon) (letter : isLetter b = false) : Follows key (b :: q) where
  member := by
    rw [skipWs_solid solid, List.head?_cons]
    exact fun same => other (Option.some.inj same)
  needle := fieldName_first field letter

theorem skipWs_spaces (spaces : Spaces w) : skipWs (w ++ q) = skipWs q :=
  List.dropWhile_append_of_pos spaces

theorem space_letter (space : JsonGrammar.isSpace b = true) : isLetter b = false := by
  simp only [JsonGrammar.isSpace, Bool.or_eq_true, beq_iff_eq] at space
  rcases space with ((rfl | rfl) | rfl) | rfl
  all_goals rfl

theorem Follows.spaces (field : FieldName key) (follows : Follows key q) (spaces : Spaces w) :
    Follows key (w ++ q) := by
  cases w with
  | nil => exact follows
  | cons b w =>
      obtain ⟨here, later⟩ := List.forall_mem_cons.mp spaces
      refine ⟨?_, fieldName_first field (space_letter here)⟩
      rw [skipWs_spaces spaces]
      exact follows.member

theorem spaces_free (spaces : Spaces w) : quote ∉ w :=
  fun member => absurd (spaces quote member) (by decide)

/-! ### Settled texts -/

theorem settled_free (free : quote ∉ s) : Settled key s :=
  .inl fun _ _ => search_free free

theorem Settled.after (free : quote ∉ t) (settled : Settled key s) : Settled key (t ++ s) := by
  rcases settled with passed | ⟨p, found⟩
  · refine .inl fun q follows => ?_
    rw [List.append_assoc, search_free free, passed q follows]
  · refine .inr ⟨p, fun q follows => ?_⟩
    rw [List.append_assoc, search_free free, found q follows]

theorem Settled.append (settled : Settled key s)
    (joins : ∀ q, Follows key q → Follows key (t ++ q)) (settled' : Settled key t) :
    Settled key (s ++ t) := by
  rcases settled with passed | ⟨p, found⟩
  · rcases settled' with passed' | ⟨p, found'⟩
    · refine .inl fun q follows => ?_
      rw [List.append_assoc, passed _ (joins q follows), passed' q follows]
    · refine .inr ⟨p, fun q follows => ?_⟩
      rw [List.append_assoc, passed _ (joins q follows), found' q follows]
  · refine .inr ⟨p ++ t, fun q follows => ?_⟩
    rw [List.append_assoc, found _ (joins q follows), List.append_assoc]

theorem Settled.closed (field : FieldName key) {first close : UInt8} (pair : Pair first close)
    (settled : Settled key s) (spaces : Spaces w) :
    Settled key (first :: (s ++ (w ++ [close]))) := by
  have stop : JsonGrammar.isSpace close = false ∧ close ≠ colon ∧ isLetter close = false := by
    rcases pair with ⟨_, rfl⟩ | ⟨_, rfl⟩
    · decide
    · decide
  have ends : quote ∉ w ++ [close] := by
    refine List.not_mem_append (spaces_free spaces) ?_
    rcases pair with ⟨_, rfl⟩ | ⟨_, rfl⟩
    · decide
    · decide
  have opening : quote ∉ [first] := by
    rcases pair with ⟨rfl, _⟩ | ⟨rfl, _⟩
    · decide
    · decide
  refine Settled.after opening (settled.append (fun q _ => ?_) (settled_free ends))
  rw [List.append_assoc]
  exact (follows_cons field stop.1 stop.2.1 stop.2.2).spaces field spaces

theorem settled_str (field : FieldName key) (str : Str s) : Settled key s := by
  cases str with
  | quoted chars =>
      refine .inl fun q follows => ?_
      rw [List.cons_append, List.append_assoc]
      exact search_string chars field.1 follows.member follows.needle

/-- A text before a member's colon is passed over, or its end is the name. -/
def Names (key s : Bytes) : Prop :=
  (∀ w r, Spaces w → search key (s ++ quote :: (w ++ colon :: r)) = search key r) ∨
    ∀ w r, Spaces w → search key (s ++ quote :: (w ++ colon :: r)) = some (skipWs r)

theorem Names.after (names : Names key s) (past : ∀ q, search key (t ++ q) = search key q) :
    Names key (t ++ s) := by
  refine names.imp (fun passed w r spaces => ?_) (fun found w r spaces => ?_)
  · rw [List.append_assoc, past, passed w r spaces]
  · rw [List.append_assoc, past, found w r spaces]

theorem Names.quoted (field : FieldName key) (chars : Chars k) (names : Names key k) :
    Names key (quote :: k) := by
  by_cases same : k = key
  · refine .inr fun w r spaces => ?_
    have split : quote :: k ++ quote :: (w ++ colon :: r) = needle key ++ (w ++ colon :: r) := by
      rw [same, needle, List.cons_append, List.cons_append, List.append_assoc]
      rfl
    have member : skipWs (w ++ colon :: r) = colon :: r := by
      rw [skipWs_spaces spaces, skipWs_solid (by decide)]
    rw [split, search_hit member]
  · have miss (w r : Bytes) : ¬needle key <+: quote :: (k ++ quote :: (w ++ colon :: r)) :=
      fun first => same (needle_prefix_chars chars field.1 first)
    refine names.imp (fun passed w r spaces => ?_) (fun found w r spaces => ?_)
    · rw [List.cons_append, search_skip (miss w r), passed w r spaces]
    · rw [List.cons_append, search_skip (miss w r), found w r spaces]

theorem names_chars (field : FieldName key) (chars : Chars k) : Names key k := by
  induction chars with
  | nil =>
      refine .inl fun w r spaces => ?_
      have closing : ¬needle key <+: quote :: (w ++ colon :: r) := by
        cases w with
        | nil => exact fieldName_first field rfl
        | cons b w => exact fieldName_first field (space_letter (spaces b List.mem_cons_self))
      rw [List.nil_append, search_skip closing, search_free (spaces_free spaces),
        search_other (by decide)]
  | @plain b k here _ ih =>
      refine ih.after (t := [b]) fun q => search_other ?_
      rintro rfl
      exact absurd here (by decide)
  | @escape b k known chars ih =>
      by_cases quoted : b = quote
      · subst quoted
        exact (ih.quoted field chars).after (t := [backslash]) fun q => search_other (by decide)
      · exact ih.after (t := [backslash, b]) fun q =>
          (search_other (by decide)).trans (search_other quoted)
  | @unicode digits k four hex _ ih =>
      have free : quote ∉ digits := fun member => absurd (hex quote member) (by decide)
      refine (ih.after fun q => search_free free).after (t := [backslash, letterU]) fun q => ?_
      exact (search_other (by decide)).trans (search_other (by decide))

theorem settled_member (field : FieldName key) (chars : Chars k) (spaces : Spaces w)
    (spaces' : Spaces w') (value : Derives .value d v) (settled : Settled key v) :
    Settled key (quote :: (k ++ quote :: (w ++ colon :: (w' ++ v)))) := by
  have text (q : Bytes) : quote :: (k ++ quote :: (w ++ colon :: (w' ++ v))) ++ q =
      quote :: k ++ quote :: (w ++ colon :: (w' ++ v ++ q)) := by simp
  rcases (names_chars field chars).quoted field chars with passed | found
  · rcases settled.after (spaces_free spaces') with free | ⟨p, inside⟩
    · refine .inl fun q follows => ?_
      rw [text, passed w _ spaces, free q follows]
    · refine .inr ⟨p, fun q follows => ?_⟩
      rw [text, passed w _ spaces, inside q follows]
  · obtain ⟨b, s, head, solid, -⟩ := derives_value_head value
    refine .inr ⟨v, fun q _ => ?_⟩
    rw [text, found w _ spaces, List.append_assoc, skipWs_spaces spaces', head, List.cons_append,
      skipWs_solid solid]

theorem settled_number (number : Number s) : Settled key s :=
  settled_free fun member => absurd (number_numeric number quote member) (by decide)

theorem Settled.next (field : FieldName key) (settled : Settled key s) (spaces : Spaces w)
    (spaces' : Spaces w') (settled' : Settled key t) :
    Settled key (s ++ (w ++ comma :: (w' ++ t))) := by
  have free : quote ∉ w ++ comma :: w' :=
    List.not_mem_append (spaces_free spaces)
      (List.not_mem_cons_of_ne_of_not_mem (by decide) (spaces_free spaces'))
  have later := settled'.after free
  rw [List.append_assoc, List.cons_append] at later
  refine settled.append (fun q _ => ?_) later
  rw [List.append_assoc]
  exact (follows_cons field rfl (by decide) rfl).spaces field spaces

theorem settled_derives (field : FieldName key) {kind : Kind} (derived : Derives kind d s) :
    Settled key s := by
  induction derived with
  | string str => exact settled_str field str
  | number number => exact settled_number number
  | literal known =>
      simp only [List.mem_cons, List.not_mem_nil, or_false] at known
      rcases known with rfl | rfl | rfl
      all_goals exact settled_free (by decide)
  | ofObject _ ih | ofArray _ ih => exact ih
  | emptyObject spaces =>
      exact (settled_free (s := []) List.not_mem_nil).closed field (.inl ⟨rfl, rfl⟩) spaces
  | emptyArray spaces =>
      exact (settled_free (s := []) List.not_mem_nil).closed field (.inr ⟨rfl, rfl⟩) spaces
  | object spaces _ spaces' ih =>
      have inner := (ih.after (spaces_free spaces)).closed field (.inl ⟨rfl, rfl⟩) spaces'
      rw [List.append_assoc] at inner
      exact inner
  | array spaces _ spaces' ih =>
      have inner := (ih.after (spaces_free spaces)).closed field (.inr ⟨rfl, rfl⟩) spaces'
      rw [List.append_assoc] at inner
      exact inner
  | member str spaces spaces' value ih =>
      cases str with
      | quoted chars =>
          have one := settled_member field chars spaces spaces' value ih
          simpa using one
  | members str spaces spaces' value spaces₁ spaces₂ _ ih ih' =>
      cases str with
      | quoted chars =>
          have one := settled_member field chars spaces spaces' value ih
          have all := one.next field spaces₁ spaces₂ ih'
          simpa using all
  | element _ ih => exact ih
  | elements _ spaces₁ spaces₂ _ ih ih' => exact ih.next field spaces₁ spaces₂ ih'

end LibreEcho.Adapter

/-!
Answers as JSON objects, and what the client finds in them.

An answer is an object with its members in any order and others among them. The
client reads it as it is if the first place of each name is a top-level member,
which the daemons' own answers make sure of.
-/
namespace LibreEcho.Adapter
open JsonGrammar ByteText

variable {T : Target} {id outSize d : Nat} {text : Bytes} {fields : List (Bytes × Bytes)}

/-- What an answer says. -/
inductive Reply where
  | data (payload : Bytes)
  | error (message : Bytes)

def Reply.answer : Reply → Answer
  | .data payload => { result := .ok, out := payload }
  | .error message => { result := .rejected, out := message }

def Has (fields : List (Bytes × Bytes)) (name value : Bytes) : Prop :=
  ∃ k, Spells k name ∧ (k, value) ∈ fields

def Reply.Carried (fields : List (Bytes × Bytes)) : Reply → Prop
  | .data payload => Has fields okKey trueText ∧ Has fields dataKey payload ∧ ∃ d, Derives .object d payload
  | .error message => Has fields okKey falseText ∧
      ∃ body, Has fields errorKey (quote :: (body ++ [quote])) ∧ Spells body message

def TopLevelId (text : Bytes) (id : Nat) : Prop :=
  ∃ d fields, Record d fields text ∧ Has fields idKey (decimal id)

/-- A well-formed answer to a request, by its top-level members. -/
structure Response (id : Nat) (reply : Reply) (text : Bytes) : Prop where
  members : ∃ d fields, Record d fields text ∧
    Has fields versionKey (decimal leAdapterProtoVersion) ∧ Has fields idKey (decimal id) ∧
    reply.Carried fields
  line : newline ∉ text
  fits : text.length < leAdapterMsgMax

/-- The object at a position, if a comma or a brace comes after it. -/
def objectAt (p : Bytes) : Option Bytes :=
  (jsonValueEnd p).bind fun q =>
    if (skipWs q).head? = some rbrace ∨ (skipWs q).head? = some comma then
      some (p.take (p.length - q.length))
    else none

/-- The first places of `v`, `id` and `ok` in a line have these values. -/
def Marked (T : Target) (id : Nat) (ok : Bool) (text : Bytes) : Prop :=
  (findKey text versionKey).bind (parseUlongValue T) = some leAdapterProtoVersion ∧
    (findKey text idKey).bind (parseUlongValue T) = some id ∧
    (findKey text okKey).bind parseBoolValue = some ok

/-- The first places of the names in a line say what the answer says. -/
def Found (T : Target) (id outSize : Nat) (text : Bytes) : Reply → Prop
  | .data payload => Marked T id true text ∧ (findKey text dataKey).bind objectAt = some payload ∧
      payload.length < outSize
  | .error message => Marked T id false text ∧
      ∃ read rest, (findKey text errorKey).bind (jsonReadString leAdapterMsgMax) =
        some (read, rest) ∧ read.take (outSize - 1) = message

theorem lineKind_reply {ok : Bool} : lineKind T id text = .reply ok ↔ Marked T id ok text := by
  rw [lineKind, Marked]
  by_cases version : (findKey text versionKey).bind (parseUlongValue T) = some leAdapterProtoVersion
  · rw [if_neg (not_not_intro version)]
    cases findKey text idKey with
    | none =>
        simp only [Option.bind_none]
        split
        · simp
        · simp
    | some value =>
        by_cases own : parseUlongValue T value = some id
        · simp only [own, ne_eq, not_true, if_false, Option.bind_some]
          cases (findKey text okKey).bind parseBoolValue with
          | none => simp
          | some found => simp [version]
        · simp [own]
  · rw [if_pos version]
    simp [version]

theorem acceptance_iff {payload : Bytes} (filled : payload ≠ []) :
    acceptance outSize text = (Reply.data payload).answer ↔
      (findKey text dataKey).bind objectAt = some payload ∧ payload.length < outSize := by
  rw [acceptance]
  cases findKey text dataKey with
  | none => simp [CallResult.bare, Reply.answer]
  | some data =>
      simp only [Option.bind_some, objectAt]
      cases jsonValueEnd data with
      | none => simp [CallResult.bare, Reply.answer]
      | some tail =>
          simp only [Option.bind_some]
          by_cases closes : (skipWs tail).head? = some rbrace ∨ (skipWs tail).head? = some comma
          · rw [if_pos closes, if_neg (fun neither => closes.elim neither.1 neither.2),
              Option.some.injEq]
            generalize data.take (data.length - tail.length) = object
            by_cases sized : outSize = 0
            · simp [sized, CallResult.bare, Reply.answer, Ne.symm filled]
            · rw [if_neg sized]
              by_cases room : outSize ≤ object.length
              · rw [if_pos room]
                refine iff_of_false (by simp [CallResult.bare, Reply.answer]) ?_
                rintro ⟨rfl, small⟩
                omega
              · rw [if_neg room, Reply.answer, Answer.mk.injEq]
                refine ⟨fun same => ⟨same.2, same.2 ▸ Nat.not_le.mp room⟩, fun same => ⟨rfl, same.1⟩⟩
          · rw [if_neg closes, if_pos (not_or.mp closes)]
            simp [CallResult.bare, Reply.answer]

theorem rejection_iff {message : Bytes} :
    rejection outSize text = (Reply.error message).answer ↔
      ∃ read rest, (findKey text errorKey).bind (jsonReadString leAdapterMsgMax) =
        some (read, rest) ∧ read.take (outSize - 1) = message := by
  rw [rejection]
  cases (findKey text errorKey).bind (jsonReadString leAdapterMsgMax) with
  | none => simp [CallResult.bare, Reply.answer]
  | some read =>
      obtain ⟨text, rest⟩ := read
      simp [Reply.answer]

theorem Response.lineText {reply : Reply} (response : Response id reply text) : LineText text := by
  obtain ⟨d, fields, record, -⟩ := response.members
  have visible := objectText_visible (record_objectText record)
  exact ⟨response.line, fun member => absurd (visible 0 member) (by decide)⟩

/-! ### The daemons' own answers -/

theorem fields_named (name : Bytes) {v m : Bytes} (plain : ∀ b ∈ name, isPlain b = true)
    (value : Derives .value d v) (members : Fields d fields m) :
    Fields d ((name, v) :: fields) (named name ++ (v ++ comma :: m)) := by
  have more := Fields.more (plain_name plain) spaces_nil spaces_nil value spaces_nil spaces_nil
    members
  simpa [named, needle] using more

theorem fields_lastNamed (name : Bytes) {v : Bytes} (plain : ∀ b ∈ name, isPlain b = true)
    (value : Derives .value d v) : Fields d [(name, v)] (named name ++ v) := by
  have last := Fields.last (plain_name plain) spaces_nil spaces_nil value
  simpa [named, needle] using last

theorem has_named {name value : Bytes} (plain : ∀ b ∈ name, isPlain b = true)
    (member : (name, value) ∈ fields) : Has fields name value :=
  ⟨name, spells_plain plain, member⟩

theorem answer_record (id : Nat) (verdict name : Bytes) {v : Bytes} (plain : ∀ b ∈ name, isPlain b = true)
    (word : verdict ∈ [trueText, falseText, nullText]) (value : Derives .value d v) :
    Record d [(versionKey, decimal leAdapterProtoVersion), (idKey, decimal id), (okKey, verdict),
        (name, v)]
      (openAnswer id ++ (named okKey ++ (verdict ++ comma :: (named name ++ (v ++ [rbrace]))))) := by
  have members := fields_named versionKey (by decide)
    (.number (number_decimal leAdapterProtoVersion))
    (fields_named idKey (by decide) (.number (number_decimal id))
      (fields_named okKey (by decide) (.literal word) (fields_lastNamed name plain value)))
  have one : decimal leAdapterProtoVersion = [0x31] := by decide
  refine ⟨[], [], _, [], [], spaces_nil, spaces_nil, members, spaces_nil, spaces_nil, ?_⟩
  rw [one, openAnswer_append, openMessage_append]
  simp

theorem okText_response {data : Bytes} (object : Derives .object d data) (line : newline ∉ data)
    (fits : (okText id data).length < leAdapterMsgMax) :
    Response id (.data data) (okText id data) where
  members := by
    refine ⟨d, _, answer_record id trueText dataKey (by decide) (by simp) (.ofObject object), ?_, ?_, ?_, ?_, d, object⟩
    all_goals exact has_named (by decide) (by simp)
  line := (lineText_ok object line).line
  fits := fits

theorem okText_found {data : Bytes} (range : id ≤ T.ulongMax) (object : Derives .object d data)
    (fits : (okText id data).length < leAdapterMsgMax) (room : data.length < outSize) :
    Found T id outSize (okText id data) (.data data) := by
  obtain ⟨inner, braced, -⟩ := object_braced object
  have filled : data ≠ [] := by
    rw [braced]
    exact List.cons_ne_nil _ _
  exact ⟨lineKind_reply.mp (lineKind_ok T range),
    (acceptance_iff filled).mp (acceptance_ok object fits room)⟩

end LibreEcho.Adapter
