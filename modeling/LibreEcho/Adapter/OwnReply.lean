import Mathlib
import LibreEcho.Adapter.Messages
import LibreEcho.Adapter.Answers

/-!
The line a call decides on.

A call that ends with data or an error text has read some line as the answer to
its request; it consumed that line and everything before it, and nothing after.
-/
namespace LibreEcho.Adapter
open JsonGrammar ByteText

variable {E : Environment} {T : Target} {id outSize : Nat} {text line : Bytes}

def CallResult.Said (result : CallResult) : Prop :=
  result = .ok ∨ result = .rejected

theorem broken_said {result : CallResult} (broken : result.Broken) : ¬result.Said := by
  rcases broken with rfl | rfl
  · rintro (same | same)
    all_goals exact absurd same (by decide)
  · rintro (same | same)
    all_goals exact absurd same (by decide)

theorem proto_said : ¬CallResult.proto.Said := by
  rintro (same | same)
  all_goals exact absurd same (by decide)

/-! ### Lines -/

def LineOf (stream line rest : Bytes) : Prop :=
  newline ∉ line ∧ ∃ front, (front = [] ∨ ∃ lines, front = lines ++ [newline]) ∧
    stream = front ++ (line ++ newline :: rest)

theorem lineOf_first (free : newline ∉ line) (rest : Bytes) :
    LineOf (line ++ newline :: rest) line rest :=
  ⟨free, [], .inl rfl, rfl⟩

theorem LineOf.later {first stream rest : Bytes} (later : LineOf stream line rest) :
    LineOf (first ++ newline :: stream) line rest := by
  obtain ⟨free, front, ends, rfl⟩ := later
  refine ⟨free, first ++ newline :: front, .inr ?_, by simp⟩
  rcases ends with rfl | ⟨lines, rfl⟩
  · exact ⟨first, rfl⟩
  · exact ⟨first ++ newline :: lines, by simp⟩

theorem LineOf.cases {first stream rest : Bytes} (free : newline ∉ first)
    (here : LineOf (first ++ newline :: stream) line rest) :
    line = first ∨ LineOf stream line rest := by
  obtain ⟨free', front, rfl | ⟨lines, rfl⟩, whole⟩ := here
  · have here : newline ∈ first ++ newline :: stream :=
      List.mem_append_right _ List.mem_cons_self
    rw [List.nil_append] at whole
    have own := (takeWhile_line free [] (List.append_nil _) here).1
    have other := (takeWhile_line free' [] ((List.append_nil _).trans whole) here).1
    exact .inl (other.symm.trans own)
  · rw [List.append_assoc, List.singleton_append] at whole
    refine .inr ⟨free', ?_⟩
    rcases List.append_eq_append_iff.mp whole with ⟨more, rfl, tail⟩ | ⟨more, rfl, tail⟩
    · cases more with
      | nil => exact ⟨[], .inl rfl, (List.cons.inj tail).2⟩
      | cons b more =>
          obtain ⟨rfl, tail⟩ := List.cons.inj tail
          exact ⟨more ++ [newline], .inr ⟨more, rfl⟩, by simpa using tail⟩
    · cases more with
      | nil => exact ⟨[], .inl rfl, (List.cons.inj tail).2.symm⟩
      | cons b more =>
          obtain ⟨rfl, -⟩ := List.cons.inj tail
          exact absurd (List.mem_append_right _ List.mem_cons_self) free

theorem LineOf.shorter {stream rest : Bytes} (here : LineOf stream line rest) :
    rest.length < stream.length := by
  obtain ⟨-, front, -, rfl⟩ := here
  simp only [List.length_append, List.length_cons]
  omega

theorem readLineLoop_ok {size rounds : Nat} {c c' : Conn}
    (read : readLineLoop E size rounds c = (.ok line, c')) :
    newline ∉ line ∧ c.stream = line ++ newline :: c'.stream := by
  induction rounds generalizing c with
  | zero =>
      rw [readLineLoop] at read
      exact absurd (congrArg Prod.fst read) (by simp)
  | succ rounds ih =>
      rw [readLineLoop] at read
      split at read
      · rename_i here
        obtain ⟨front, back, split, free⟩ := List.eq_append_cons_of_mem here
        have whole : c.input ++ c.pending = front ++ newline :: (back ++ c.pending) := by
          rw [split, List.append_assoc, List.cons_append]
        obtain ⟨same, rest⟩ := takeWhile_line free c.pending whole here
        simp only [same] at read
        split at read
        · exact absurd (congrArg Prod.fst read) (by simp)
        · obtain ⟨first, last⟩ := Prod.mk.inj read
          rw [← Except.ok.inj first, ← last]
          refine ⟨free, ?_⟩
          rw [Conn.stream, whole, ← rest]
          rfl
      · split at read
        · exact absurd (congrArg Prod.fst read) (by simp)
        · split at read
          · exact absurd (congrArg Prod.fst read) (by simp)
          · rw [← c.stream_receive E]
            exact ih read

theorem readLineLoop_error {size rounds : Nat} {result : CallResult} {c c' : Conn}
    (read : readLineLoop E size rounds c = (.error result, c')) :
    result = .proto ∨ result.Broken := by
  induction rounds generalizing c with
  | zero =>
      rw [readLineLoop] at read
      exact .inr (Except.error.inj (congrArg Prod.fst read) ▸ E.ends)
  | succ rounds ih =>
      rw [readLineLoop] at read
      simp only at read
      split at read
      · split at read
        · exact .inl (Except.error.inj (congrArg Prod.fst read)).symm
        · exact absurd (congrArg Prod.fst read) (by simp)
      · split at read
        · exact .inl (Except.error.inj (congrArg Prod.fst read)).symm
        · split at read
          · exact .inr (Except.error.inj (congrArg Prod.fst read) ▸ E.ends)
          · exact ih read

theorem readLine_ok {size : Nat} {c c' : Conn} (read : readLine E size c = (.ok line, c')) :
    newline ∉ line ∧ c.stream = line ++ newline :: c'.stream := by
  rw [readLine] at read
  split at read
  · exact absurd (congrArg Prod.fst read) (by simp)
  · exact readLineLoop_ok read

theorem readLine_error {size : Nat} {result : CallResult} {c c' : Conn}
    (read : readLine E size c = (.error result, c')) : ¬result.Said := by
  have failed : result = .proto ∨ result.Broken := by
    rw [readLine] at read
    split at read
    · exact .inl (Except.error.inj (congrArg Prod.fst read)).symm
    · exact readLineLoop_error read
  rcases failed with rfl | broken
  · exact proto_said
  · exact broken_said broken

/-! ### The loop -/

def lineAnswer (outSize : Nat) (ok : Bool) (response : Bytes) : Answer :=
  if ok then acceptance outSize response else rejection outSize response

theorem lineAnswer_result (outSize : Nat) (ok : Bool) (response : Bytes) :
    (lineAnswer outSize ok response).result ≠ if ok then .rejected else .ok := by
  cases ok with
  | true =>
      simp only [lineAnswer, if_true, acceptance]
      cases findKey response dataKey with
      | none => exact CallResult.noConfusion
      | some data =>
          simp only
          cases jsonValueEnd data with
          | none => exact CallResult.noConfusion
          | some tail =>
              simp only
              split_ifs
              all_goals exact CallResult.noConfusion
  | false =>
      simp only [lineAnswer, Bool.false_eq_true, if_false, rejection]
      cases (findKey response errorKey).bind (jsonReadString leAdapterMsgMax) with
      | none => exact CallResult.noConfusion
      | some read => exact CallResult.noConfusion

/-- The call takes this line for the answer, and what comes after it is left. -/
structure Decides (T : Target) (id outSize : Nat) (stream line : Bytes) (result : Answer × Conn) :
    Prop where
  taken : LineOf stream line result.2.stream
  gives : ∃ ok, lineKind T id (cString line) = .reply ok ∧
    result.1 = lineAnswer outSize ok (cString line)

theorem callLoop_decides (left : Nat) (c : Conn)
    (said : (callLoop E T id outSize left c).1.result.Said) :
    ∃ line, Decides T id outSize c.stream line (callLoop E T id outSize left c) := by
  induction left using Nat.strong_induction_on generalizing c with
  | _ left ih =>
      cases read : readLine E leAdapterMsgMax c with
      | mk got c' =>
      cases got with
      | error result =>
          rw [callLoop.eq_def] at said
          simp only [read] at said
          exact absurd said (readLine_error read)
      | ok line =>
          obtain ⟨free, whole⟩ := readLine_ok read
          have first := lineOf_first free c'.stream
          rw [← whole] at first
          rw [callLoop_read read] at said ⊢
          cases kind : lineKind T id (cString line) with
          | refused =>
              rw [kind] at said
              exact absurd said proto_said
          | event =>
              rw [kind] at said
              cases left with
              | zero => exact absurd said proto_said
              | succ left =>
                  obtain ⟨line, decides⟩ := ih left (Nat.lt_succ_self left) c' said
                  rw [whole]
                  exact ⟨line, decides.taken.later, decides.gives⟩
          | reply ok =>
              cases ok with
              | true => exact ⟨line, first, true, kind, rfl⟩
              | false => exact ⟨line, first, false, kind, rfl⟩

end LibreEcho.Adapter

/-!
The text of a request and of an error through the adapter.

Command, arguments and error come through unchanged if and only if the reading
side knows every escape the writing side makes, which leaves out the control
bytes that are written as `\u00XX`.
-/
namespace LibreEcho.Adapter
open JsonGrammar ByteText

variable {E : Environment} {T : Target} {a : LeAdapter}

theorem LeAdapter.id_le (reach : a.nextId ≤ T.ulongMax) : a.id ≤ T.ulongMax := by
  have wide := T.wide
  rw [LeAdapter.id]
  split
  · omega
  · exact reach

theorem leAdapterCall_sent {cmd args request : Bytes} (outSize : Nat)
    (built : buildRequest a.id cmd args = some request) (sent : E.send request = none) :
    leAdapterCall E T a cmd args outSize =
      ((callLoop E T a.id outSize leAdapterMaxSkippedEvents a.conn).1,
        { nextId := (a.id + 1) % (T.ulongMax + 1)
          conn := (callLoop E T a.id outSize leAdapterMaxSkippedEvents a.conn).2 }) := by
  simp only [leAdapterCall, built, sent]

theorem callLoop_error (E : Environment) (outSize left : Nat) {id size : Nat}
    {error line rest : Bytes} {c : Conn} (range : id ≤ T.ulongMax) (written : leAdapterRespondErr size id error = some line)
    (fits : line.length ≤ leAdapterMsgMax) (next : c.stream = line ++ rest) :
    ∃ c', c'.stream = rest ∧ callLoop E T id outSize left c =
      (if SendableText error then { result := .rejected, out := error.take (outSize - 1) }
        else CallResult.proto.bare, c') := by
  have text := leAdapterRespondErr_some written
  rw [text, List.length_append, List.length_singleton] at fits
  rw [text, List.append_assoc, List.singleton_append] at next
  obtain ⟨c', after, result⟩ :=
    callLoop_line E T id outSize left lineText_error fits next
  refine ⟨c', after, result.trans ?_⟩
  rw [lineKind_error T range, rejection_error outSize fits]

/-- What a request says is what the daemon reads, and what an error says is what
the caller gets, exactly for the bytes both sides treat alike. -/
theorem adapter_textUnchanged (E : Environment) (T : Target) (a : LeAdapter)
    (reach : a.nextId ≤ T.ulongMax) :
    (∀ (cmd args request tail : Bytes) (d cmdSize : Nat), Derives .object d args →
      buildRequest a.id cmd args = some (request ++ [newline]) → 0 < cmdSize →
      tail = [] ∨ tail = [newline] →
      (leAdapterParseRequest T (request ++ tail) cmdSize =
          some { cmd := cmd, args := args, id := a.id } ↔
        SendableText cmd ∧ cmd.length < cmdSize)) ∧
    ∀ (cmd args request error line rest : Bytes) (size outSize : Nat),
      buildRequest a.id cmd args = some request → E.send request = none →
      leAdapterRespondErr size a.id error = some line → line.length ≤ leAdapterMsgMax →
      a.conn.stream = line ++ rest →
      ((leAdapterCall E T a cmd args outSize).1 = { result := .rejected, out := error } ↔
        SendableText error ∧ error.length ≤ outSize - 1) := by
  have range := LeAdapter.id_le reach
  refine ⟨?_, ?_⟩
  · intro cmd args request tail d cmdSize object built sized cut
    obtain ⟨text, fits⟩ := buildRequest_some built
    have line : request = requestText a.id cmd args [] := by
      have front : requestText a.id cmd args [newline] = requestText a.id cmd args [] ++ [newline] := by
        simp [requestText]
      exact List.append_cancel_right (text.trans front)
    have whole : request ++ tail = requestText a.id cmd args tail := by
      rw [line]
      simp [requestText]
    have blank : skipWs tail = [] := by
      rcases cut with rfl | rfl
      · rfl
      · rfl
    have short : (requestText a.id cmd args tail).length < leAdapterMsgMax := by
      rw [← whole]
      rw [List.length_append] at fits ⊢
      rcases cut with rfl | rfl
      · exact lt_of_le_of_lt (Nat.le_add_right _ _) fits
      · exact fits
    rw [whole, leAdapterParseRequest_text T range object sized blank short]
    simp
  · intro cmd args request error line rest size outSize built sent written fits next
    obtain ⟨c', -, result⟩ := callLoop_error E outSize leAdapterMaxSkippedEvents range written
      fits next
    rw [leAdapterCall_sent outSize built sent, result]
    by_cases readable : SendableText error
    · have same : error.take (outSize - 1) = error ↔ error.length ≤ outSize - 1 :=
        List.take_eq_self_iff error
      rw [if_pos readable, and_iff_right readable, ← same, Answer.mk.injEq]
      exact and_iff_right rfl
    · simp [readable, CallResult.bare]

/-! ### A connection -/

/-- A 32-bit `unsigned long`. -/
def target32 : Target where
  ulongMax := 2 ^ 32 - 1
  wide := Nat.le_refl _

def socket : Environment where
  chunk := id
  ending := .timeout
  ends := .inr rfl
  send := fun _ => none
  fails := by simp

def LeAdapter.fresh (stream : Bytes) : LeAdapter where
  nextId := 1
  conn := { input := [], pending := stream, fits := Nat.zero_le _ }

def stateRequest : Bytes :=
  requestText 1 (ascii "state") [lbrace, rbrace] []

def busyLine : Bytes :=
  errorText 1 (ascii "busy") ++ [newline]

theorem adapter_textUnchanged_state :
    leAdapterParseRequest target32 stateRequest 64 =
        some { cmd := ascii "state", args := [lbrace, rbrace], id := 1 } ∧
      (leAdapterCall socket target32 (.fresh busyLine) (ascii "state") [lbrace, rbrace] 64).1 =
        { result := .rejected, out := ascii "busy" } := by
  obtain ⟨requests, errors⟩ :=
    adapter_textUnchanged socket target32 (.fresh busyLine) (by decide)
  have built : buildRequest 1 (ascii "state") [lbrace, rbrace] = some (stateRequest ++ [newline]) := by
    decide +kernel
  refine ⟨?_, ?_⟩
  · have parsed := requests (ascii "state") [lbrace, rbrace] stateRequest [] 1 64
      (.emptyObject (w := []) spaces_nil) built (by decide) (.inl rfl)
    rw [List.append_nil] at parsed
    exact parsed.mpr (by decide)
  · have answered := errors (ascii "state") [lbrace, rbrace] (stateRequest ++ [newline])
      (ascii "busy") busyLine [] leAdapterMsgMax 64 built rfl (by decide +kernel)
      (by decide +kernel) (List.append_nil _).symm
    exact answered.mpr (by decide)

/-- A command and an error of one control byte, each written and not read. -/
theorem adapter_textUnchanged_control :
    (∃ request, buildRequest 1 [1] [lbrace, rbrace] = some (request ++ [newline]) ∧
      leAdapterParseRequest target32 request 64 = none) ∧
    ∃ line, leAdapterRespondErr leAdapterMsgMax 1 [1] = some line ∧
      (leAdapterCall socket target32 (.fresh line) (ascii "state") [lbrace, rbrace] 64).1 =
        CallResult.proto.bare := by
  refine ⟨⟨requestText 1 [1] [lbrace, rbrace] [], ?_, ?_⟩, errorText 1 [1] ++ [newline], ?_, ?_⟩
  all_goals decide +kernel

end LibreEcho.Adapter

/-!
Whose answer a call returns.

The client finds the members of a line by searching its text for their names. It
skips an event only if its data holds no member `id` at any depth, and it returns
the awaited answer only if each name is found first at the top level.
-/
namespace LibreEcho.Adapter
open JsonGrammar ByteText

variable {E : Environment} {T : Target} {id outSize : Nat} {text : Bytes}

structure Event where
  event : Bytes
  data : Bytes
  size : Nat
  text : Bytes
  depth : Nat
  written : leAdapterFormatEvent size event data = some (text ++ [newline])
  object : Derives .object depth data
  line : newline ∉ data
  fits : text.length < leAdapterMsgMax

def eventLines (events : List Event) : Bytes :=
  events.flatMap fun e => e.text ++ [newline]

/-- The client can read the event's type and finds no member `id` in its data. -/
def Event.Passes (e : Event) : Prop :=
  SendableText e.event ∧ findKey e.data idKey = none

theorem Event.text_eq (e : Event) : e.text = eventText e.event e.data :=
  List.append_cancel_right (leAdapterFormatEvent_some e.written)

theorem Event.lineText (e : Event) : LineText e.text := by
  rw [e.text_eq]
  exact lineText_event e.object e.line

theorem search_braced {key data : Bytes} {d : Nat} (field : FieldName key)
    (object : Derives .object d data) :
    search key (data ++ [rbrace]) = none ↔ search key data = none := by
  have follows : Follows key [rbrace] := follows_cons field rfl (by decide) rfl
  have nothing := follows_nil field
  have brace : search key [rbrace] = none := by
    rw [search_other (by decide), search_nil]
  rcases settled_derives field object with passed | ⟨p, found⟩
  · have alone := passed [] nothing
    rw [List.append_nil, search_nil] at alone
    rw [passed _ follows, brace, alone]
  · have alone := found [] nothing
    rw [List.append_nil] at alone
    rw [found _ follows, alone]
    simp

theorem findKey_eventId {event data : Bytes} {d : Nat} (object : Derives .object d data) :
    findKey (eventText event data) idKey = none ↔ findKey data idKey = none := by
  have chars : Chars eventKey := plain_name (by decide)
  have chars' : Chars dataKey := plain_name (by decide)
  rw [findKey_search (by decide), findKey_search (by decide), eventText,
    search_openMessage (by decide) (by decide),
    search_named (by decide) chars (by decide) (by decide),
    search_text (by decide) (escaped_chars event),
    search_named (by decide) chars' (by decide) (by decide)]
  exact search_braced (by decide) object

theorem findKey_event (event data : Bytes) : findKey (eventText event data) eventKey =
    some (quote :: (escaped event ++ quote :: comma :: (named dataKey ++ (data ++ [rbrace])))) := by
  rw [findKey_search (by decide), eventText, search_openMessage (by decide) (by decide),
    search_field, skipWs_solid (by decide)]

theorem Event.short (e : Event) : e.event.length < leAdapterMsgMax := by
  have fits := e.fits
  have long := length_le_escaped e.event
  rw [e.text_eq] at fits
  simp only [eventText, List.length_append, List.length_cons] at fits
  omega

theorem lineKind_event (T : Target) (id : Nat) (e : Event) :
    lineKind T id e.text = .event ↔ e.Passes := by
  have version : (findKey e.text versionKey).bind (parseUlongValue T) =
      some leAdapterProtoVersion := by
    rw [e.text_eq, eventText, findKey_version, Option.bind_some, parseUlongValue_version]
  have nested : findKey e.text idKey = none ↔ findKey e.data idKey = none := by
    rw [e.text_eq]
    exact findKey_eventId e.object
  have type : (findKey e.text eventKey).bind (jsonReadString leAdapterMsgMax) =
      if SendableText e.event then
        some (e.event, comma :: (named dataKey ++ (e.data ++ [rbrace])))
      else none := by
    rw [e.text_eq, findKey_event, Option.bind_some, jsonReadString_escaped (by decide)]
    simp only [e.short, and_true]
  rw [lineKind, if_neg (not_not_intro version)]
  cases found : findKey e.text idKey with
  | none =>
      rw [type, Event.Passes, ← nested]
      by_cases readable : SendableText e.event
      · rw [if_pos readable]
        exact iff_of_true rfl ⟨readable, found⟩
      · rw [if_neg readable]
        exact iff_of_false (by simp) fun passes => readable passes.1
  | some value =>
      have holds : ¬e.Passes := fun passes => by simp [nested.mpr passes.2] at found
      simp only [holds, iff_false]
      split
      · simp
      · split
        · simp
        · simp

/-! ### Events before the answer -/

theorem eventLines_cons (e : Event) (events : List Event) (tail : Bytes) :
    eventLines (e :: events) ++ tail = e.text ++ newline :: (eventLines events ++ tail) := by
  simp [eventLines]

theorem callLoop_skips (E : Environment) (T : Target) (id outSize : Nat) {events : List Event}
    (passes : ∀ e ∈ events, e.Passes) {left : Nat} (enough : events.length ≤ left) {c : Conn}
    {tail : Bytes} (whole : c.stream = eventLines events ++ tail) : ∃ c' left', c'.stream = tail ∧
      callLoop E T id outSize left c = callLoop E T id outSize left' c' := by
  induction events generalizing left c with
  | nil => exact ⟨c, left, whole, rfl⟩
  | cons e events ih =>
      obtain ⟨here, later⟩ := List.forall_mem_cons.mp passes
      obtain ⟨left, rfl⟩ : ∃ n, left = n + 1 :=
        ⟨left - 1, by rw [List.length_cons] at enough; omega⟩
      rw [eventLines_cons] at whole
      obtain ⟨c₁, rest, step⟩ := callLoop_line E T id outSize (left + 1) e.lineText e.fits whole
      rw [(lineKind_event T id e).mpr here] at step
      obtain ⟨c', left', after, same⟩ := ih later (Nat.le_of_succ_le_succ enough) rest
      exact ⟨c', left', after, step.trans same⟩

theorem callLoop_stops (E : Environment) (T : Target) (id outSize left : Nat)
    {events : List Event} (fails : ∃ e ∈ events, ¬e.Passes) {c : Conn} {tail : Bytes}
    (whole : c.stream = eventLines events ++ tail) :
    (callLoop E T id outSize left c).1 = CallResult.proto.bare ∨
      tail.length ≤ (callLoop E T id outSize left c).2.stream.length := by
  induction events generalizing left c with
  | nil => simp at fails
  | cons e events ih =>
      rw [eventLines_cons] at whole
      obtain ⟨c', rest, step⟩ := callLoop_line E T id outSize left e.lineText e.fits whole
      have long : tail.length ≤ c'.stream.length := by
        rw [rest, List.length_append]
        omega
      rw [step]
      cases kind : lineKind T id e.text with
      | refused => exact .inl rfl
      | reply ok =>
          cases ok with
          | true => exact .inr long
          | false => exact .inr long
      | event =>
          cases left with
          | zero => exact .inl rfl
          | succ left =>
              refine ih left ?_ rest
              obtain ⟨other, member, fails⟩ := fails
              rcases List.mem_cons.mp member with rfl | later
              · exact absurd ((lineKind_event T id other).mp kind) fails
              · exact ⟨other, later, fails⟩

/-! ### The answer -/

theorem Reply.answer_said (reply : Reply) : reply.answer.result.Said := by
  cases reply with
  | data _ => exact .inl rfl
  | error _ => exact .inr rfl

theorem found_reply {reply : Reply} (found : Found T id outSize text reply) :
    ∃ ok, lineKind T id text = .reply ok := by
  cases reply with
  | data _ => exact ⟨true, lineKind_reply.mpr found.1⟩
  | error _ => exact ⟨false, lineKind_reply.mpr found.1⟩

theorem lineAnswer_iff {reply : Reply} (response : Response id reply text) {ok : Bool}
    (kind : lineKind T id text = .reply ok) :
    lineAnswer outSize ok text = reply.answer ↔ Found T id outSize text reply := by
  have marked := lineKind_reply.mp kind
  have other := lineAnswer_result outSize ok text
  obtain ⟨d, fields, -, -, -, carried⟩ := response.members
  cases reply with
  | data payload =>
      obtain ⟨-, -, depth, object⟩ := carried
      obtain ⟨inner, braced, -⟩ := object_braced object
      have filled : payload ≠ [] := by
        rw [braced]
        exact List.cons_ne_nil _ _
      cases ok with
      | true => exact (acceptance_iff filled).trans (and_iff_right marked).symm
      | false =>
          refine iff_of_false (fun same => other (congrArg Answer.result same)) fun found => ?_
          exact absurd (kind.symm.trans (lineKind_reply.mpr found.1)) (by simp)
  | error message =>
      cases ok with
      | false => exact rejection_iff.trans (and_iff_right marked).symm
      | true =>
          refine iff_of_false (fun same => other (congrArg Answer.result same)) fun found => ?_
          exact absurd (kind.symm.trans (lineKind_reply.mpr found.1)) (by simp)

theorem callLoop_response {reply : Reply} (response : Response id reply text) (left : Nat)
    {c : Conn} {rest : Bytes} (whole : c.stream = text ++ newline :: rest) :
    ((callLoop E T id outSize left c).1 = reply.answer ∧
        (callLoop E T id outSize left c).2.stream = rest) ↔ Found T id outSize text reply := by
  have said := reply.answer_said
  obtain ⟨c', after, step⟩ :=
    callLoop_line E T id outSize left response.lineText response.fits whole
  rw [step]
  cases kind : lineKind T id text with
  | refused =>
      refine iff_of_false (fun same => ?_) (fun found => ?_)
      · rw [← same.1] at said
        exact proto_said said
      · obtain ⟨ok, reply⟩ := found_reply found
        exact absurd (kind.symm.trans reply) (by simp)
  | event =>
      refine iff_of_false (fun same => ?_) (fun found => ?_)
      · cases left with
        | zero =>
            rw [← same.1] at said
            exact proto_said said
        | succ left =>
            rw [← same.1] at said
            obtain ⟨line, decides⟩ := callLoop_decides left c' said
            have shorter := decides.taken.shorter
            rw [same.2, after] at shorter
            exact absurd shorter (Nat.lt_irrefl _)
      · obtain ⟨ok, reply⟩ := found_reply found
        exact absurd (kind.symm.trans reply) (by simp)
  | reply ok =>
      rw [← lineAnswer_iff response kind]
      cases ok with
      | true => exact and_iff_left after
      | false => exact and_iff_left after

theorem leAdapterCall_decides {a : LeAdapter} {cmd args : Bytes}
    (said : (leAdapterCall E T a cmd args outSize).1.result.Said) :
    ∃ line, Decides T a.id outSize a.conn.stream line
      ((leAdapterCall E T a cmd args outSize).1, (leAdapterCall E T a cmd args outSize).2.conn) := by
  cases built : buildRequest a.id cmd args with
  | none =>
      simp only [leAdapterCall, built] at said
      exact absurd said proto_said
  | some request =>
      cases sent : E.send request with
      | some result =>
          simp only [leAdapterCall, built, sent] at said
          exact absurd said (broken_said (E.fails request result sent))
      | none =>
          rw [leAdapterCall_sent outSize built sent] at said ⊢
          exact callLoop_decides leAdapterMaxSkippedEvents a.conn said

def readyEvent : Event where
  event := ascii "ready"
  data := [lbrace, rbrace]
  size := leAdapterMsgMax
  text := eventText (ascii "ready") [lbrace, rbrace]
  depth := 1
  written := by decide +kernel
  object := .emptyObject (w := []) spaces_nil
  line := by decide
  fits := by decide +kernel

def readyAnswer : Bytes :=
  okText 1 [lbrace, rbrace]

theorem readyAnswer_response : Response 1 (.data [lbrace, rbrace]) readyAnswer :=
  okText_response (.emptyObject (w := []) (d := 0) spaces_nil) (by decide) (by decide +kernel)

def readyStream : Bytes :=
  eventLines [readyEvent] ++ (readyAnswer ++ newline :: [])

def idObject (id : Nat) : Bytes :=
  lbrace :: (named idKey ++ decimal id ++ [rbrace])

theorem idObject_object (id : Nat) : Derives .object 1 (idObject id) := by
  have members := fields_derives (fields_lastNamed (d := 0) idKey (by decide)
    (.number (number_decimal id)))
  have object : Derives .object 1 (lbrace :: ([] ++ (named idKey ++ decimal id ++ ([] ++ [rbrace])))) :=
    .object spaces_nil members spaces_nil
  simpa [idObject] using object

def idEvent : Event where
  event := ascii "ready"
  data := idObject 7
  size := leAdapterMsgMax
  text := eventText (ascii "ready") (idObject 7)
  depth := 1
  written := by decide +kernel
  object := idObject_object 7
  line := by decide +kernel
  fits := by decide +kernel

/-- An answer to request 9 whose data comes first and has the id 1. -/
def otherAnswer : Bytes :=
  openMessage ++ (named dataKey ++ (idObject 1 ++ comma :: (named idKey ++ (decimal 9 ++
    comma :: (named okKey ++ (trueText ++ [rbrace]))))))

end LibreEcho.Adapter
