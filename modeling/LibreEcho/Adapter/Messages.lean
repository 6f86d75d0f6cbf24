import Mathlib
import LibreEcho.Adapter.Wire
import LibreEcho.Adapter.Strings

/-!
The messages of the adapter protocol as they are written.

Every message opens with its version, and a field is searched from the start:
the fields before it are passed over, and the first match is the field itself.
-/
namespace LibreEcho.Adapter
open JsonGrammar ByteText

variable {key name s t q : Bytes}

theorem search_field : search key (named key ++ q) = some (skipWs q) := by
  rw [named, List.append_assoc]
  exact search_hit (skipWs_solid (by decide))

theorem search_text (field : FieldName key) (chars : Chars s) :
    search key (quote :: (s ++ quote :: comma :: q)) = search key q := by
  have miss : (skipWs (comma :: q)).head? ≠ some colon := by
    rw [skipWs_solid (by decide), List.head?_cons]
    decide
  rw [search_string chars field.1 miss (fieldName_first field rfl),
    search_other (by decide)]

theorem search_decimal (n : Nat) : search key (decimal n ++ comma :: q) = search key q := by
  have free : quote ∉ decimal n := by
    intro member
    exact absurd (decimal_isDigit member) (by decide)
  rw [search_free free, search_other (by decide)]

theorem skipWs_decimal (n : Nat) (q : Bytes) : skipWs (decimal n ++ q) = decimal n ++ q := by
  cases text : decimal n with
  | nil => exact absurd text (decimal_ne_nil n)
  | cons b digits =>
      have digit := decimal_isDigit (n := n) (text ▸ List.mem_cons_self)
      refine skipWs_solid ?_
      rw [Bool.eq_false_iff]
      intro space
      simp only [JsonGrammar.isSpace, Bool.or_eq_true, beq_iff_eq] at space
      rcases space with ((rfl | rfl) | rfl) | rfl
      all_goals exact absurd digit (by decide)

theorem openMessage_append (t : Bytes) :
    openMessage ++ t = lbrace :: (named versionKey ++ 0x31 :: comma :: t) := by
  simp [openMessage]

theorem findKey_version (t : Bytes) :
    findKey (openMessage ++ t) versionKey = some (0x31 :: comma :: t) := by
  rw [findKey_search (by decide), openMessage_append, search_other (by decide), search_field,
    skipWs_solid (by decide)]

theorem search_openMessage (field : FieldName key) (other : versionKey ≠ key) :
    search key (openMessage ++ t) = search key t := by
  have chars : Chars versionKey := .plain (by decide) .nil
  rw [openMessage_append, search_other (by decide), search_named field chars (by decide) other,
    search_other (by decide), search_other (by decide)]

theorem passed_named (plain : ∀ b ∈ name, isPlain b = true) : Passed (named name) := by
  have str : Str (needle name) := .quoted (plain_name plain)
  exact (passed_str str).append (passed_byte rfl)

theorem passed_decimal (n : Nat) : Passed (decimal n) :=
  passed_digits fun _ => decimal_isDigit

/-! ### Requests -/

def requestText (id : Nat) (cmd args tail : Bytes) : Bytes :=
  openMessage ++ (named idKey ++ (decimal id ++ comma :: (named cmdKey ++ quote :: (escaped cmd ++
    quote :: comma :: (named argsKey ++ (args ++ rbrace :: tail))))))

theorem buildRequest_some {id : Nat} {cmd args request : Bytes}
    (built : buildRequest id cmd args = some request) :
    request = requestText id cmd args [newline] ∧ request.length < leAdapterMsgMax := by
  simp only [buildRequest, bind, Option.bind_eq_some_iff] at built
  obtain ⟨head, first, middle, second, front, third, _, _, _, _, _, _, _, _, last⟩ := built
  have headText := (appendText_some first).1
  have middleText := appendJsonString_some second
  have frontText := (appendText_some third).1
  obtain ⟨text, fits⟩ := appendText_some last
  refine ⟨?_, fits⟩
  rw [text, frontText, middleText, headText]
  simp [requestText]

theorem require_pos {p : Prop} [Decidable p] (holds : p) : require p = some () :=
  if_pos holds

section Request
variable {id d : Nat} {cmd args tail : Bytes}

theorem requestText_end (object : Derives .object d args)
    (fits : (requestText id cmd args tail).length < leAdapterMsgMax) :
    jsonValueEnd (requestText id cmd args tail) = some tail := by
  have commas : Passed [comma] := passed_byte rfl
  have inside : Passed (named versionKey ++ ([0x31, comma] ++ (named idKey ++ (decimal id ++
      ([comma] ++ (named cmdKey ++ ((quote :: (escaped cmd ++ [quote])) ++ ([comma] ++
        (named argsKey ++ args))))))))) := by
    refine (passed_named (by decide)).append (Passed.append (passed_all (by decide)) ?_)
    refine (passed_named (by decide)).append ((passed_decimal id).append (commas.append ?_))
    refine (passed_named (by decide)).append ((passed_str (.quoted (escaped_chars cmd))).append ?_)
    exact commas.append ((passed_named (by decide)).append (derives_passed object))
  have text : requestText id cmd args tail = lbrace :: (named versionKey ++ ([0x31, comma] ++
      (named idKey ++ (decimal id ++ ([comma] ++ (named cmdKey ++ ((quote :: (escaped cmd ++
        [quote])) ++ ([comma] ++ (named argsKey ++ args)))))))) ++ rbrace :: tail) := by
    simp [requestText, openMessage_append]
  rw [text] at fits ⊢
  refine jsonValueEnd_braced inside ?_
  rw [List.length_cons, List.length_append] at fits
  omega

theorem requestText_id : findKey (requestText id cmd args tail) idKey = some (decimal id ++ comma ::
    (named cmdKey ++ quote :: (escaped cmd ++ quote :: comma :: (named argsKey ++
      (args ++ rbrace :: tail))))) := by
  have solid : skipWs (decimal id ++ comma :: (named cmdKey ++ quote :: (escaped cmd ++
      quote :: comma :: (named argsKey ++ (args ++ rbrace :: tail))))) = _ :=
    skipWs_decimal id _
  rw [findKey_search (by decide), requestText, search_openMessage (by decide) (by decide),
    search_field, solid]

theorem search_afterId {key q : Bytes} (field : FieldName key) (version : versionKey ≠ key)
    (other : idKey ≠ key) : search key (openMessage ++ (named idKey ++ (decimal id ++ comma :: q))) =
      search key q := by
  rw [search_openMessage field version,
    search_named field (plain_name (by decide)) (by decide) other, search_decimal]

theorem requestText_cmd : findKey (requestText id cmd args tail) cmdKey = some (quote :: (escaped cmd ++
    quote :: comma :: (named argsKey ++ (args ++ rbrace :: tail)))) := by
  rw [findKey_search (by decide), requestText, search_afterId (by decide) (by decide) (by decide),
    search_field, skipWs_solid (by decide)]

theorem requestText_args (object : Derives .object d args) :
    findKey (requestText id cmd args tail) argsKey = some (args ++ rbrace :: tail) := by
  obtain ⟨inner, braced, -⟩ := object_braced object
  have solid : skipWs (args ++ rbrace :: tail) = args ++ rbrace :: tail := by
    rw [braced]
    exact skipWs_solid (by decide)
  rw [findKey_search (by decide), requestText, search_afterId (by decide) (by decide) (by decide),
    search_named (by decide) (plain_name (by decide)) (by decide) (by decide),
    search_text (by decide) (escaped_chars cmd), search_field, solid]

theorem leAdapterParseRequest_text (T : Target) {cmdSize : Nat} (range : id ≤ T.ulongMax)
    (object : Derives .object d args) (sized : 0 < cmdSize) (blank : skipWs tail = [])
    (fits : (requestText id cmd args tail).length < leAdapterMsgMax) :
    leAdapterParseRequest T (requestText id cmd args tail) cmdSize =
      if SendableText cmd ∧ cmd.length < cmdSize then
        some { cmd := cmd, args := args, id := id }
      else none := by
  obtain ⟨inner, braced, -⟩ := object_braced object
  have shorter : args.length ≤ leAdapterMsgMax := by
    simp only [requestText, List.length_append, List.length_cons] at fits
    omega
  have root := requestText_end object fits
  have argsEnd := jsonValueEnd_object (q := rbrace :: tail) object shorter
  have version : findKey (requestText id cmd args tail) versionKey = some (0x31 :: comma :: _) :=
    findKey_version _
  have sized' : require (cmdSize ≠ 0) = some () := require_pos (Nat.ne_of_gt sized)
  have ended : require (skipWs tail = []) = some () := require_pos blank
  have yes : require True = some () := rfl
  have opened : require ((args ++ rbrace :: tail).head? = some lbrace) = some () := by
    rw [braced]
    rfl
  have closing : skipWs (rbrace :: tail) = rbrace :: tail := skipWs_solid rfl
  rw [leAdapterParseRequest, root, version, requestText_id, requestText_cmd,
    requestText_args object]
  simp only [bind, Option.bind_some, sized', ended, yes, parseUlongValue_version,
    parseUlongValue_decimal T range (.inl rfl), jsonReadString_escaped sized]
  by_cases readable : SendableText cmd ∧ cmd.length < cmdSize
  · rw [if_pos readable, if_pos readable]
    have separated : require ((skipWs (comma :: (named argsKey ++ (args ++ rbrace :: tail)))).head? =
        some comma) = some () := by
      rw [skipWs_solid (by decide)]
      exact require_pos rfl
    have braces : require ((rbrace :: tail).head? = some comma ∨
        (rbrace :: tail).head? = some rbrace) = some () := require_pos (.inr rfl)
    simp only [Option.bind_some, separated, opened, argsEnd, closing, braces]
    rw [List.length_append, Nat.add_sub_cancel, List.take_left]
  · rw [if_neg readable, if_neg readable]
    rfl

end Request

/-! ### Answers and events -/

def openAnswer (id : Nat) : Bytes :=
  openMessage ++ (named idKey ++ (decimal id ++ [comma]))

def errorText (id : Nat) (error : Bytes) : Bytes :=
  openAnswer id ++ (named okKey ++ (falseText ++ comma :: (named errorKey ++
    quote :: (escaped error ++ [quote, rbrace]))))

def okText (id : Nat) (data : Bytes) : Bytes :=
  openAnswer id ++ (named okKey ++ (trueText ++ comma :: (named dataKey ++ (data ++ [rbrace]))))

def eventText (event data : Bytes) : Bytes :=
  openMessage ++ (named eventKey ++ quote :: (escaped event ++
    quote :: comma :: (named dataKey ++ (data ++ [rbrace]))))

section Answer
variable {size id : Nat} {data error event line : Bytes}

theorem leAdapterRespondErr_some (written : leAdapterRespondErr size id error = some line) :
    line = errorText id error ++ [newline] := by
  simp only [leAdapterRespondErr, bind, Option.bind_eq_some_iff] at written
  obtain ⟨head, first, middle, second, last⟩ := written
  rw [(appendText_some last).1, appendJsonString_some second, (appendText_some first).1]
  simp [errorText, openAnswer]

theorem leAdapterFormatEvent_some (written : leAdapterFormatEvent size event data = some line) :
    line = eventText event data ++ [newline] := by
  simp only [leAdapterFormatEvent, bind, Option.bind_eq_some_iff] at written
  obtain ⟨head, first, middle, second, last⟩ := written
  rw [(appendText_some last).1, appendJsonString_some second, (appendText_some first).1]
  simp [eventText]

theorem openAnswer_append (id : Nat) (t : Bytes) : openAnswer id ++ t =
    openMessage ++ (named idKey ++ (decimal id ++ comma :: t)) := by
  simp [openAnswer]

theorem parseBoolValue_false (q : Bytes) : parseBoolValue (falseText ++ comma :: q) = some false := by
  have other : ¬trueText <+: falseText ++ comma :: q := by
    intro first
    exact absurd (List.cons_prefix_cons.mp first).1 (by decide)
  rw [parseBoolValue, if_neg (fun both => other both.1), if_pos]
  refine ⟨List.prefix_append _ _, ?_⟩
  rw [List.drop_left]
  rfl

theorem parseBoolValue_true (q : Bytes) : parseBoolValue (trueText ++ comma :: q) = some true := by
  rw [parseBoolValue, if_pos]
  refine ⟨List.prefix_append _ _, ?_⟩
  rw [List.drop_left]
  rfl

theorem lineKind_answer (T : Target) (range : id ≤ T.ulongMax) {ok : Bool} {value : Bytes}
    (solid : skipWs value = value) (read : parseBoolValue value = some ok) :
    lineKind T id (openAnswer id ++ (named okKey ++ value)) = .reply ok := by
  have version : findKey (openAnswer id ++ (named okKey ++ value)) versionKey =
      some (0x31 :: comma :: (named idKey ++ (decimal id ++ comma :: (named okKey ++ value)))) := by
    rw [openAnswer_append, findKey_version]
  have found : findKey (openAnswer id ++ (named okKey ++ value)) idKey =
      some (decimal id ++ comma :: (named okKey ++ value)) := by
    rw [findKey_search (by decide), openAnswer_append,
      search_openMessage (by decide) (by decide), search_field]
    exact congrArg some (skipWs_decimal id _)
  have verdict : findKey (openAnswer id ++ (named okKey ++ value)) okKey = some value := by
    rw [findKey_search (by decide), openAnswer_append,
      search_afterId (by decide) (by decide) (by decide), search_field, solid]
  rw [lineKind, version, found, verdict]
  simp only [Option.bind_some, parseUlongValue_version, parseUlongValue_decimal T range (.inl rfl),
    read, ne_eq, not_true, if_false]

theorem lineKind_error (T : Target) (range : id ≤ T.ulongMax) :
    lineKind T id (errorText id error) = .reply false :=
  lineKind_answer T range (skipWs_solid (by decide)) (parseBoolValue_false _)

theorem lineKind_ok (T : Target) (range : id ≤ T.ulongMax) :
    lineKind T id (okText id data) = .reply true :=
  lineKind_answer T range (skipWs_solid (by decide)) (parseBoolValue_true _)

theorem search_afterOk {key q word : Bytes} (field : FieldName key) (version : versionKey ≠ key)
    (identity : idKey ≠ key) (other : okKey ≠ key) (free : quote ∉ word) :
    search key (openAnswer id ++ (named okKey ++ (word ++ comma :: q))) = search key q := by
  rw [openAnswer_append, search_afterId field version identity,
    search_named field (plain_name (by decide)) (by decide) other, search_free free,
    search_other (by decide)]

theorem rejection_error (outSize : Nat) (fits : (errorText id error).length < leAdapterMsgMax) :
    rejection outSize (errorText id error) =
      if SendableText error then { result := .rejected, out := error.take (outSize - 1) }
      else CallResult.proto.bare := by
  have found : findKey (errorText id error) errorKey =
      some (quote :: (escaped error ++ quote :: [rbrace])) := by
    rw [findKey_search (by decide), errorText,
      search_afterOk (by decide) (by decide) (by decide) (by decide) (by decide), search_field,
      skipWs_solid (by decide)]
  have short : error.length < leAdapterMsgMax := by
    have long := length_le_escaped error
    simp only [errorText, List.length_append, List.length_cons] at fits
    omega
  rw [rejection, found, Option.bind_some, jsonReadString_escaped (by decide)]
  by_cases readable : SendableText error
  · rw [if_pos ⟨readable, short⟩, if_pos readable]
  · rw [if_neg (fun both => readable both.1), if_neg readable]

theorem acceptance_ok {outSize d : Nat} (object : Derives .object d data)
    (fits : (okText id data).length < leAdapterMsgMax) (room : data.length < outSize) :
    acceptance outSize (okText id data) = { result := .ok, out := data } := by
  obtain ⟨inner, braced, -⟩ := object_braced object
  have solid : skipWs (data ++ [rbrace]) = data ++ [rbrace] := by
    rw [braced]
    exact skipWs_solid (by decide)
  have found : findKey (okText id data) dataKey = some (data ++ [rbrace]) := by
    rw [findKey_search (by decide), okText,
      search_afterOk (by decide) (by decide) (by decide) (by decide) (by decide), search_field,
      solid]
  have short : data.length ≤ leAdapterMsgMax := by
    simp only [okText, List.length_append, List.length_cons] at fits
    omega
  have closing : skipWs [rbrace] = [rbrace] := rfl
  rw [acceptance, found]
  simp only
  rw [jsonValueEnd_object object short]
  simp only
  rw [closing, if_neg (fun neither => neither.1 rfl), List.length_append, Nat.add_sub_cancel,
    List.take_left, if_neg (Nat.ne_of_gt (Nat.zero_lt_of_lt room)), if_neg (Nat.not_le.mpr room)]

end Answer

end LibreEcho.Adapter

/-!
Lines read from the socket, however its bytes are cut.

A read moves bytes from the socket to the input buffer and keeps the stream. So
the next line of the stream is read whole whenever it fits the buffer.
-/
namespace LibreEcho.Adapter
open JsonGrammar ByteText

variable {E : Environment} {line rest : Bytes}

theorem Conn.stream_receive (E : Environment) (c : Conn) : (c.receive E).stream = c.stream := by
  rw [Conn.stream, Conn.receive, Conn.stream]
  simp only
  rw [List.append_assoc, List.take_append_drop]

theorem Conn.pending_receive (E : Environment) {c : Conn} (more : c.pending ≠ [])
    (room : c.input.length < leAdapterMsgMax) :
    (c.receive E).pending.length < c.pending.length := by
  have some := List.length_pos_of_ne_nil more
  have step : 1 ≤ c.readSize E := by
    rw [Conn.readSize]
    omega
  rw [Conn.receive, List.length_drop]
  omega

theorem takeWhile_line {input : Bytes} (free : newline ∉ line) (tail : Bytes)
    (whole : input ++ tail = line ++ newline :: rest) (here : newline ∈ input) :
    input.takeWhile (· ≠ newline) = line ∧ input.drop (line.length + 1) ++ tail = rest := by
  have other : ∀ b ∈ line, decide (b ≠ newline) = true := by
    intro b member
    exact decide_eq_true fun same => free (same ▸ member)
  have long : line.length + 1 ≤ input.length := by
    by_contra short
    have first : input = line.take input.length := by
      have taken := congrArg (List.take input.length) whole
      rw [List.take_left, List.take_append_of_le_length (by omega)] at taken
      exact taken
    rw [first] at here
    exact free (List.mem_of_mem_take here)
  have split : input = line ++ newline :: rest.take (input.length - (line.length + 1)) := by
    have taken := congrArg (List.take input.length) whole
    rw [List.take_left, List.take_append, List.take_of_length_le (by omega)] at taken
    have one : input.length - line.length = (input.length - (line.length + 1)) + 1 := by omega
    rw [one, List.take_succ_cons] at taken
    exact taken
  refine ⟨?_, ?_⟩
  · rw [split, List.takeWhile_append_of_pos other]
    simp
  · have dropped := congrArg (List.drop (line.length + 1)) whole
    rw [List.drop_append_of_le_length long] at dropped
    rw [dropped]
    have one : (line ++ newline :: rest).drop (line.length + 1) =
        (newline :: rest).drop 1 := by
      rw [List.drop_append, List.drop_eq_nil_of_le (by omega), List.nil_append]
      congr 1
      omega
    rw [one]
    rfl

theorem readLineLoop_line (free : newline ∉ line) {size : Nat} (sized : line.length < size)
    (fits : line.length < leAdapterMsgMax) {rounds : Nat} {c : Conn}
    (whole : c.stream = line ++ newline :: rest) (enough : c.pending.length < rounds) :
    ∃ c', readLineLoop E size rounds c = (.ok line, c') ∧ c'.stream = rest := by
  induction rounds generalizing c with
  | zero => exact absurd enough (Nat.not_lt_zero _)
  | succ rounds ih =>
      rw [readLineLoop]
      by_cases here : newline ∈ c.input
      · obtain ⟨text, after⟩ := takeWhile_line free c.pending whole here
        refine ⟨c.consume (line.length + 1), ?_, after⟩
        rw [if_pos here]
        simp only
        rw [text, if_neg (Nat.not_le.mpr sized)]
      · -- the line does not end in the input, so the input is a part of it
        have short : c.input.length ≤ line.length := by
          by_contra long
          refine here ?_
          have taken := congrArg (List.take c.input.length) whole
          rw [Conn.stream, List.take_left, List.take_append, List.take_of_length_le (by omega)] at taken
          have one : c.input.length - line.length = (c.input.length - (line.length + 1)) + 1 := by
            omega
          rw [one, List.take_succ_cons] at taken
          rw [taken]
          exact List.mem_append_right _ List.mem_cons_self
        have more : c.pending ≠ [] := by
          intro none
          rw [Conn.stream, none, List.append_nil] at whole
          rw [whole, List.length_append, List.length_cons] at short
          omega
        have room : c.input.length < leAdapterMsgMax := by omega
        have fewer := Conn.pending_receive E more room
        rw [if_neg here, if_neg (Nat.not_le.mpr room), if_neg more]
        exact ih ((c.stream_receive E).trans whole) (by omega)

theorem readLine_line (free : newline ∉ line) (fits : line.length < leAdapterMsgMax) {c : Conn}
    (whole : c.stream = line ++ newline :: rest) :
    ∃ c', readLine E leAdapterMsgMax c = (.ok line, c') ∧ c'.stream = rest := by
  rw [readLine, if_neg (by decide)]
  exact readLineLoop_line free fits fits whole (Nat.lt_succ_self _)

/-! ### Texts that make a line -/

structure LineText (s : Bytes) : Prop where
  line : newline ∉ s
  filled : 0 ∉ s

variable {s t : Bytes}

theorem LineText.append (first : LineText s) (second : LineText t) : LineText (s ++ t) :=
  ⟨List.not_mem_append first.line second.line, List.not_mem_append first.filled second.filled⟩

theorem lineText_high (high : ∀ b ∈ s, 0x20 ≤ b) : LineText s :=
  ⟨fun member => absurd (high _ member) (by decide), fun member => absurd (high _ member) (by decide)⟩

theorem lineText_object {d : Nat} (object : Derives .object d s) (line : newline ∉ s) :
    LineText s := by
  refine ⟨line, fun member => ?_⟩
  exact absurd (derives_visible object 0 member) (by decide)

theorem lineText_decimal (n : Nat) : LineText (decimal n) := by
  refine lineText_high fun b member => ?_
  have digit := decimal_isDigit member
  simp only [ByteText.isDigit, Bool.and_eq_true, decide_eq_true_eq] at digit
  exact UInt8.le_trans (by decide) digit.1

theorem lineText_escaped (t : Bytes) : LineText (escaped t) :=
  lineText_high (chars_high (escaped_chars t))

theorem lineText_openMessage : LineText openMessage :=
  lineText_high (by decide)

theorem lineText_openAnswer (id : Nat) : LineText (openAnswer id) :=
  lineText_openMessage.append ((lineText_high (s := named idKey) (by decide)).append
    ((lineText_decimal id).append (lineText_high (by decide))))

section Messages
variable {id d : Nat} {event data error : Bytes}

theorem lineText_error : LineText (errorText id error) := by
  have head : LineText (named okKey ++ (falseText ++ comma :: (named errorKey ++ [quote]))) :=
    lineText_high (by decide)
  have tail : LineText (escaped error ++ [quote, rbrace]) :=
    (lineText_escaped error).append (lineText_high (by decide))
  simpa [errorText] using (lineText_openAnswer id).append (head.append tail)

theorem lineText_ok (object : Derives .object d data) (line : newline ∉ data) :
    LineText (okText id data) := by
  have head : LineText (named okKey ++ (trueText ++ comma :: named dataKey)) :=
    lineText_high (by decide)
  have tail : LineText (data ++ [rbrace]) :=
    (lineText_object object line).append (lineText_high (by decide))
  simpa [okText] using (lineText_openAnswer id).append (head.append tail)

theorem lineText_event (object : Derives .object d data) (line : newline ∉ data) :
    LineText (eventText event data) := by
  have head : LineText (named eventKey ++ [quote]) := lineText_high (by decide)
  have middle : LineText (quote :: comma :: named dataKey) := lineText_high (by decide)
  have tail : LineText (data ++ [rbrace]) :=
    (lineText_object object line).append (lineText_high (by decide))
  simpa [eventText] using lineText_openMessage.append
    (head.append ((lineText_escaped event).append (middle.append tail)))

end Messages

theorem cString_line (text : LineText s) : cString s = s := by
  refine List.takeWhile_eq_self_iff.mpr fun b member => ?_
  exact decide_eq_true fun same => text.filled (same ▸ member)

theorem callLoop_read {E : Environment} {T : Target} {id outSize left : Nat} {c c' : Conn}
    (read : readLine E leAdapterMsgMax c = (.ok line, c')) :
    callLoop E T id outSize left c =
      match lineKind T id (cString line) with
      | .refused => (CallResult.proto.bare, c')
      | .event =>
          match left with
          | 0 => (CallResult.proto.bare, c')
          | left + 1 => callLoop E T id outSize left c'
      | .reply true => (acceptance outSize (cString line), c')
      | .reply false => (rejection outSize (cString line), c') := by
  rw [callLoop.eq_def]
  simp only [read] <;> rfl

theorem callLoop_line (E : Environment) (T : Target) (id outSize left : Nat) (text : LineText line)
    (fits : line.length < leAdapterMsgMax) {c : Conn}
    (whole : c.stream = line ++ newline :: rest) :
    ∃ c', c'.stream = rest ∧ callLoop E T id outSize left c =
      match lineKind T id line with
      | .refused => (CallResult.proto.bare, c')
      | .event =>
          match left with
          | 0 => (CallResult.proto.bare, c')
          | left + 1 => callLoop E T id outSize left c'
      | .reply true => (acceptance outSize line, c')
      | .reply false => (rejection outSize line, c') := by
  obtain ⟨c', read, after⟩ := readLine_line (E := E) text.line fits whole
  refine ⟨c', after, ?_⟩
  rw [callLoop_read read, cString_line text]

end LibreEcho.Adapter
