import LibreEcho.Lib.CText

/-!
How `http_server.c` reads a request off a connection.

After every `recv` the whole buffer is parsed again from its start. Bytes are
characters; a C string in the buffer ends at its first NUL. What the API makes of a
request is not modelled here, only what is handed to it.
-/
namespace LibreEcho.Http
open CText

def leReqMax : Nat := 24576
def leHeaderMax : Nat := 8192
def leBodyMax : Nat := 16384
def leUpdateMaxBytes : Nat := 33554432

def blankLine : CText := ['\r', '\n', '\r', '\n']

/-- `strstr` for the blank line. -/
def findEnd (s : CText) : Option Nat :=
  if blankLine.isPrefixOf s then some 0
  else
    match s with
    | [] => none
    | _ :: rest => (findEnd rest).map (· + 1)

def nextLine : CText → Option CText
  | '\r' :: '\n' :: rest => some rest
  | _ :: rest => nextLine rest
  | [] => none

def lower (s : CText) : CText :=
  s.map Char.toLower

/-- `strncasecmp` with a name, and the colon behind it. -/
def named (name line : CText) : Bool :=
  lower (line.take name.length) = lower name && (line.drop name.length).head? = some ':'

def headerFrom (name : CText) : Nat → CText → Option CText
  | 0, _ => none
  | fuel + 1, s =>
      match nextLine s with
      | none => none
      | some line =>
          if line = [] ∨ line.head? = some '\r' then none
          else if named name line then
            some ((line.drop (name.length + 1)).dropWhile fun c => c = ' ' || c = '\t')
          else headerFrom name fuel line

def header (s : CText) (name : String) : Option CText :=
  headerFrom name.toList s.length s

/-- A header's value, cut to a field of `size` bytes. -/
def copyHeader (size : Nat) (value : Option CText) : CText :=
  match value with
  | none => []
  | some p => (p.takeWhile (· ≠ '\r')).take (size - 1)

def requestTarget (s : CText) : Option CText :=
  match cutAt ' ' s with
  | none => none
  | some (_, rest) => (cutAt ' ' rest).map Prod.fst

/-- `sscanf` with `%7s %255s`. -/
def scanRequest (s : CText) : Option (CText × CText) :=
  match scanWord 7 s with
  | none => none
  | some (method, rest) => (scanWord 255 rest).map fun path => (method, path.1)

def contentLength (value : Option CText) : Nat :=
  match value with
  | none => 0
  | some p => ((strtoul p).map fun n => n.value.toNat).getD 0

/-- What the server answers by itself. -/
inductive Refusal where
  | json (status : Nat) (code message : CText)
  | plain (status : Nat) (message : CText)
deriving DecidableEq, Repr

/-- `struct api_request`, with the body as bytes. -/
structure ApiRequest where
  method : CText
  path : CText
  host : CText
  origin : CText
  authorization : CText
  csrf : CText
  confirm : CText := []
  body : CText := []
  https : Bool := false
deriving DecidableEq, Repr

/-- What `process` does with the buffer; an upload is handed on with what arrived of it. -/
inductive Outcome where
  | waiting
  | refused (refusal : Refusal)
  | request (q : ApiRequest)
  | upload (q : ApiRequest) (length : Nat) (initial : CText) (allowUnsigned : Bool)
deriving DecidableEq, Repr

def malformed : Outcome :=
  .refused (.plain 400 "Request target is too long or malformed".toList)

def uploadPath : CText := "/api/v1/system/update/upload".toList

def allowsUnsigned (value : Option CText) : Bool :=
  match value with
  | none => false
  | some p => p.head? ∈ ['1', 't', 'T', 'y', 'Y'].map some

def commonHeaders (text method path : CText) : ApiRequest :=
  { method := method
    path := path
    host := copyHeader 256 (header text "Host")
    origin := copyHeader 256 (header text "Origin")
    authorization := copyHeader 256 (header text "Authorization")
    csrf := copyHeader 96 (header text "X-LibreEcho-CSRF") }

section Process
variable (limit : Nat)

/-- `limit` is what the device can stage. -/
def processUpload (text method path : CText) (length : Nat) (arrived : CText) : Outcome :=
  if length = 0 ∨ leUpdateMaxBytes < length then
    .refused (.json 413 "update_size".toList "Update must be between 1 byte and 32 MiB".toList)
  else if limit < length then
    .refused (.json 413 "update_size".toList
      ("Update is larger than the ".toList ++ decimal limit ++
        " bytes this device can stage".toList))
  else
    .upload (commonHeaders text method path) length (arrived.take length)
      (allowsUnsigned (header text "X-LibreEcho-Allow-Unsigned"))

variable (secure : Bool)

def process (buf : CText) : Outcome :=
  let text := ofBuffer buf
  match findEnd text with
  | none => .waiting
  | some start =>
      let headers := start + 4
      if leHeaderMax < headers then
        .refused (.json 413 "headers_too_large".toList "Request headers exceed 8 KiB".toList)
      else
        match requestTarget text with
        | none => malformed
        | some target =>
            if target = [] ∨ 256 ≤ target.length then malformed
            else
              match scanRequest text with
              | none => .refused (.plain 400 "Bad request".toList)
              | some (method, path) =>
                  let length := contentLength (header text "Content-Length")
                  if path = uploadPath then
                    processUpload limit text method path length (buf.drop headers)
                  else if leBodyMax < length then
                    .refused (.json 413 "body_too_large".toList
                      "Request body exceeds 16 KiB".toList)
                  else if buf.length < headers + length then .waiting
                  else
                    -- the byte behind the body is NUL when the headers are copied
                    let text := ofBuffer (buf.take (headers + length))
                    .request
                      { commonHeaders text method path with
                        confirm := copyHeader 96 (header text "X-LibreEcho-Confirm")
                        body := (buf.drop headers).take length
                        https := secure }

/-- The indices of a body, which is wiped in the end, and of the NUL written behind it. -/
def processWrites (buf : CText) : List Nat :=
  match findEnd (ofBuffer buf), process limit secure buf with
  | some start, .request q => List.range' (start + 4) (q.body.length + 1)
  | _, _ => []

/-! ### The connection -/

/-- The bytes received so far; `used` is their number. -/
abbrev Buffer : Type :=
  { buf : CText // buf.length ≤ leReqMax }

def emptyBuffer : Buffer :=
  ⟨[], Nat.zero_le _⟩

/-- One `recv` into the free part of the buffer. -/
def Buffer.receive (buf : Buffer) (chunk : CText) : Buffer :=
  ⟨buf.1 ++ chunk.take (leReqMax - buf.1.length), by
    have := buf.2
    rw [List.length_append, List.length_take]
    omega⟩

/-- The indices that one `recv` and what follows it write to. -/
def receiveWrites (buf : Buffer) (chunk : CText) : List Nat :=
  let next := buf.receive chunk
  List.range' buf.1.length (next.1.length - buf.1.length) ++ next.1.length ::
    processWrites limit secure next.1

/-- What a request leads to; the worker of an upload reads on from the connection. -/
inductive Effect where
  | refused (refusal : Refusal)
  | request (q : ApiRequest)
  | upload (q : ApiRequest) (length : Nat) (body : CText) (allowUnsigned : Bool)
deriving DecidableEq, Repr

/-- `unread` is what has not been received yet. -/
def Outcome.effect (unread : CText) : Outcome → Option Effect
  | .waiting => none
  | .refused refusal => some (.refused refusal)
  | .request q => some (.request q)
  | .upload q length initial allowUnsigned =>
      some (.upload q length (initial ++ unread.take (length - initial.length)) allowUnsigned)

inductive Client where
  | reading (buf : Buffer)
  | cleared

/--
What a connection does that receives these chunks. A chunk that does not fit fills the
buffer, and the next `recv` of no bytes closes the connection.
-/
def serve : Client → List CText → List Effect
  | .cleared, _ => []
  | .reading _, [] => []
  | .reading buf, chunk :: rest =>
      let next := buf.receive chunk
      if next.1.length = buf.1.length then []
      else
        let unread := chunk.drop (leReqMax - buf.1.length)
        match (process limit secure next.1).effect (unread ++ rest.flatten) with
        | some effect => effect :: serve .cleared rest
        | none => if unread = [] then serve (.reading next) rest else []

end Process

end LibreEcho.Http

/-!
What the header block decides alone.

The searches of `process` run over the whole buffer. A block is confined when each of
them ends inside it: then bytes behind the blank line change nothing that is read from it.
-/
namespace LibreEcho.Http
open CText

/-! ### The blank line -/

theorem findEnd_some {s : CText} {n : Nat} (found : findEnd s = some n) :
    ∃ front rest, s = front ++ (blankLine ++ rest) ∧ front.length = n := by
  induction s generalizing n with
  | nil => cases found
  | cons c s ih =>
      unfold findEnd at found
      split at found
      case isTrue here =>
        cases found
        obtain ⟨rest, same⟩ := List.isPrefixOf_iff_prefix.mp here
        exact ⟨[], rest, same.symm, rfl⟩
      case isFalse =>
        obtain ⟨m, later, rfl⟩ := Option.map_eq_some_iff.mp found
        obtain ⟨front, rest, rfl, rfl⟩ := ih later
        exact ⟨c :: front, rest, rfl, rfl⟩

theorem findEnd_append {s : CText} {n : Nat} (found : findEnd s = some n) (u : CText) :
    findEnd (s ++ u) = some n := by
  induction s generalizing n with
  | nil => cases found
  | cons c rest ih =>
      unfold findEnd at found ⊢
      split at found
      case isTrue here =>
        have longer : blankLine.isPrefixOf (c :: rest ++ u) = true :=
          List.isPrefixOf_iff_prefix.mpr
            ((List.isPrefixOf_iff_prefix.mp here).trans (List.prefix_append _ _))
        rw [if_pos longer]
        exact found
      case isFalse absent =>
        dsimp only at found
        obtain ⟨m, later, rfl⟩ := Option.map_eq_some_iff.mp found
        have inside : blankLine.length ≤ (c :: rest).length := by
          obtain ⟨front, more, rfl, -⟩ := findEnd_some later
          simp only [List.length_cons, List.length_append]
          omega
        rw [if_neg fun here => absent ?_, List.cons_append]
        · dsimp only
          rw [ih later]
          rfl
        · exact List.isPrefixOf_iff_prefix.mpr
            (List.prefix_of_prefix_length_le (List.isPrefixOf_iff_prefix.mp here)
              (List.prefix_append _ _) inside)

theorem findEnd_blankLine (front : CText) : findEnd (front ++ blankLine) ≠ none := by
  induction front with
  | nil => decide
  | cons c front ih =>
      rw [List.cons_append]
      unfold findEnd
      split
      case isTrue => exact nofun
      case isFalse =>
        intro absent
        exact ih (Option.map_eq_none_iff.mp absent)

/-! ### Header lines -/

section Lines
variable {s u : CText}

theorem head?_append_filled (filled : s ≠ []) : (s ++ u).head? = s.head? := by
  obtain ⟨c, rest, rfl⟩ := List.exists_cons_of_ne_nil filled
  rfl

theorem nextLine_ends (ends : blankLine <:+ s) :
    ∃ line, nextLine s = some line ∧ nextLine (s ++ u) = some (line ++ u) ∧
      line.length < s.length ∧ line ≠ [] ∧ (line.head? = some '\r' ∨ blankLine <:+ line) := by
  induction s with
  | nil => exact absurd ends (by decide)
  | cons c s ih =>
      by_cases crlf : c = '\r' ∧ s.head? = some '\n'
      · obtain ⟨rfl, first⟩ := crlf
        obtain ⟨line, rfl⟩ := List.head?_eq_some_iff.mp first
        refine ⟨line, rfl, rfl, Nat.lt_succ_of_lt (Nat.lt_succ_self _), ?_⟩
        obtain ⟨front, same⟩ := ends
        match front, same with
        | [], same =>
            cases same
            exact ⟨by decide, .inl rfl⟩
        | [_], same => cases same
        | _ :: _ :: front, same =>
            cases same
            exact ⟨by simp [blankLine], .inr ⟨front, rfl⟩⟩
      · have behind : blankLine <:+ s := by
          obtain whole | behind := List.suffix_cons_iff.mp ends
          · cases whole
            exact absurd ⟨rfl, rfl⟩ crlf
          · exact behind
        obtain ⟨line, found, longer, shorter, filled, last⟩ := ih behind
        have other (t : CText) (same : t.head? = s.head?) :
            nextLine (c :: t) = nextLine t :=
          nextLine.eq_2 c t fun rest first second =>
            crlf ⟨first, by rw [← same, second]; rfl⟩
        have nonempty : s ≠ [] := by
          rintro rfl
          cases found
        refine ⟨line, ?_, ?_, Nat.lt_succ_of_lt shorter, filled, last⟩
        · rw [other s rfl, found]
        · rw [List.cons_append, other (s ++ u) (head?_append_filled nonempty), longer]

theorem named_append {name line : CText} (ends : blankLine <:+ line)
    (plain : '\r' ∉ lower name) : named name (line ++ u) = named name line := by
  by_cases short : name.length < line.length
  · unfold named
    rw [List.take_append_of_le_length short.le, List.drop_append_of_le_length short.le]
    have filled : line.drop name.length ≠ [] := by
      rw [Ne, List.drop_eq_nil_iff]
      omega
    rw [head?_append_filled filled]
  · have inside : '\r' ∈ line := ends.subset (by decide)
    have differs (t : CText) (whole : line <+: t) : named name t = false := by
      have member : '\r' ∈ lower (t.take name.length) := by
        refine List.mem_map.mpr ⟨'\r', ?_, by decide⟩
        obtain ⟨more, rfl⟩ := whole
        rw [List.take_append, List.take_of_length_le (Nat.le_of_not_lt short)]
        exact List.mem_append_left _ inside
      have other : lower (t.take name.length) ≠ lower name := fun same => plain (same ▸ member)
      unfold named
      rw [decide_eq_false other, Bool.false_and]
    rw [differs _ (List.prefix_append _ _), differs _ List.prefix_rfl]

theorem mem_dropWhile {p : Char → Bool} {c : Char} (member : c ∈ s) (stays : p c = false) :
    c ∈ s.dropWhile p := by
  rw [← List.takeWhile_append_dropWhile (p := p) (l := s)] at member
  refine (List.mem_append.mp member).resolve_left fun taken => ?_
  rw [List.mem_takeWhile_imp taken] at stays
  cases stays

theorem dropWhile_append_stop {p : Char → Bool} (stops : ∃ c ∈ s, p c = false) :
    (s ++ u).dropWhile p = s.dropWhile p ++ u := by
  rw [List.dropWhile_append]
  split
  case isFalse => rfl
  case isTrue empty =>
    obtain ⟨c, member, stays⟩ := stops
    have kept := mem_dropWhile (p := p) member stays
    rw [List.isEmpty_iff.mp empty] at kept
    cases kept

theorem takeWhile_append_stop {p : Char → Bool} (stops : ∃ c ∈ s, p c = false) :
    (s ++ u).takeWhile p = s.takeWhile p := by
  obtain ⟨c, member, stays⟩ := stops
  induction s with
  | nil => cases member
  | cons d s ih =>
      rw [List.cons_append, List.takeWhile_cons, List.takeWhile_cons]
      split
      case isFalse => rfl
      case isTrue taken =>
        obtain same | later := List.mem_cons.mp member
        · rw [same, taken] at stays
          cases stays
        · rw [ih later]

theorem getLast?_suffix {v : CText} (inside : v <:+ s) (filled : v ≠ []) :
    v.getLast? = s.getLast? := by
  obtain ⟨front, rfl⟩ := inside
  rw [List.getLast?_append]
  rw [List.getLast?_eq_some_getLast filled]
  rfl

theorem getLast?_blankLine (ends : blankLine <:+ s) : s.getLast? = some '\n' :=
  (getLast?_suffix ends (by decide)).symm

theorem named_value {name line : CText} (ends : blankLine <:+ line) (plain : '\r' ∉ lower name)
    (here : named name line = true) :
    '\r' ∈ line.drop (name.length + 1) ∧ name.length + 1 ≤ line.length := by
  unfold named at here
  simp only [Bool.and_eq_true, decide_eq_true_eq] at here
  obtain ⟨rest, colon⟩ := List.head?_eq_some_iff.mp here.2
  have inside : '\r' ∈ line.take name.length ++ line.drop name.length := by
    rw [List.take_append_drop]
    exact ends.subset (by decide)
  have behind : line.drop (name.length + 1) = rest := by
    rw [← List.drop_drop, colon]
    rfl
  constructor
  · rw [behind]
    rw [colon] at inside
    obtain name_part | value := List.mem_append.mp inside
    · refine absurd ?_ plain
      rw [← here.1]
      exact List.mem_map.mpr ⟨'\r', name_part, by decide⟩
    · exact (List.mem_cons.mp value).resolve_left (by decide)
  · have := congrArg List.length colon
    rw [List.length_drop, List.length_cons] at this
    omega

theorem headerFrom_append {name : CText} (plain : '\r' ∉ lower name) {fuel fuel' : Nat}
    (ends : blankLine <:+ s) (enough : s.length ≤ fuel) (enough' : s.length ≤ fuel') :
    headerFrom name fuel (s ++ u) = (headerFrom name fuel' s).map (· ++ u) ∧
      ∀ v, headerFrom name fuel' s = some v → '\r' ∈ v ∧ v.getLast? = some '\n' := by
  induction fuel generalizing s fuel' with
  | zero =>
      have := ends.length_le
      exact absurd (Nat.le_trans this enough) (by decide)
  | succ fuel ih =>
      obtain ⟨line, found, longer, shorter, filled, last⟩ := nextLine_ends (u := u) ends
      cases fuel' with
      | zero => exact absurd (Nat.lt_of_lt_of_le shorter enough') (Nat.not_lt_zero _)
      | succ fuel' =>
          unfold headerFrom
          rw [found, longer]
          dsimp only
          rw [head?_append_filled filled]
          by_cases blank : line.head? = some '\r'
          · rw [if_pos (.inr blank), if_pos (.inr blank)]
            exact ⟨rfl, nofun⟩
          · have behind := last.resolve_left blank
            rw [if_neg (not_or.mpr ⟨fun empty => filled (List.append_eq_nil_iff.mp empty).1, blank⟩),
              if_neg (not_or.mpr ⟨filled, blank⟩), named_append behind plain]
            split
            case isTrue here =>
              obtain ⟨inside, short⟩ := named_value behind plain here
              have kept := mem_dropWhile (p := fun c => c = ' ' || c = '\t') inside (by decide)
              rw [List.drop_append_of_le_length short, dropWhile_append_stop ⟨_, inside, by decide⟩]
              refine ⟨rfl, fun v same => ?_⟩
              cases same
              refine ⟨kept, ?_⟩
              rw [getLast?_suffix ((List.dropWhile_suffix _).trans (List.drop_suffix _ _))
                (List.ne_nil_of_mem kept)]
              exact getLast?_blankLine behind
            case isFalse => exact ih behind (by omega) (by omega)

theorem header_append (name : String) (plain : '\r' ∉ lower name.toList) (ends : blankLine <:+ s) :
    header (s ++ u) name = (header s name).map (· ++ u) ∧
      ∀ v, header s name = some v → '\r' ∈ v ∧ v.getLast? = some '\n' :=
  headerFrom_append plain ends (by simp) le_rfl

theorem copyHeader_append {name : String} (plain : '\r' ∉ lower name.toList)
    (ends : blankLine <:+ s) (size : Nat) :
    copyHeader size (header (s ++ u) name) = copyHeader size (header s name) := by
  obtain ⟨same, inside⟩ := header_append (u := u) name plain ends
  rw [same]
  cases value : header s name with
  | none => rfl
  | some v =>
      unfold copyHeader
      rw [Option.map_some]
      dsimp only
      rw [takeWhile_append_stop ⟨'\r', (inside v value).1, by decide⟩]

/-! ### The request line -/

theorem requestTarget_append {target : CText} (found : requestTarget s = some target) :
    requestTarget (s ++ u) = some target := by
  unfold requestTarget at found ⊢
  split at found
  case h_1 => cases found
  case h_2 method rest first =>
    obtain ⟨⟨target', more⟩, second, rfl⟩ := Option.map_eq_some_iff.mp found
    obtain ⟨rfl, free⟩ := cutAt_some first
    obtain ⟨rfl, free'⟩ := cutAt_some second
    rw [List.append_assoc, List.cons_append, cutAt_append ' ' _ _ free]
    dsimp only
    rw [List.append_assoc, List.cons_append, cutAt_append ' ' _ _ free']
    rfl

theorem scanWord_append {width : Nat} {word rest : CText}
    (scanned : scanWord width s = some (word, rest)) (last : s.getLast? = some '\n') :
    scanWord width (s ++ u) = some (word, rest ++ u) ∧ rest.getLast? = some '\n' := by
  unfold scanWord at scanned ⊢
  dsimp only at scanned ⊢
  split at scanned
  case isTrue => cases scanned
  case isFalse filled =>
    cases scanned
    have nonempty : skipSpace s ≠ [] := by
      intro empty
      rw [empty] at filled
      exact filled List.take_nil
    have solid : ∃ c ∈ s, isSpace c = false := by
      obtain ⟨c, more, body⟩ := List.exists_cons_of_ne_nil nonempty
      have inside : skipSpace s ⊆ s := (List.dropWhile_sublist _).subset
      refine ⟨c, inside ?_, ?_⟩
      · rw [body]
        exact List.mem_cons_self
      · have := List.head?_dropWhile_not isSpace s
        rw [← skipSpace, body] at this
        exact Bool.eq_false_iff.mpr (by simpa using this)
    have ended : (skipSpace s).getLast? = some '\n' :=
      (getLast?_suffix (List.dropWhile_suffix _) nonempty).trans last
    have newline : '\n' ∈ skipSpace s := List.mem_of_getLast? ended
    have skipped : skipSpace (s ++ u) = skipSpace s ++ u := dropWhile_append_stop solid
    rw [skipped, takeWhile_append_stop ⟨'\n', newline, by decide⟩, if_neg filled]
    -- the line feed at the end is behind the word
    have short : ((skipSpace s).takeWhile fun c => !isSpace c).length < (skipSpace s).length := by
      refine Nat.lt_of_le_of_ne (List.takeWhile_sublist _).length_le fun same => ?_
      have all := (List.takeWhile_sublist fun c => !isSpace c).eq_of_length same
      rw [← all] at newline
      have := List.mem_takeWhile_imp newline
      exact absurd this (by decide)
    have within : (((skipSpace s).takeWhile fun c => !isSpace c).take width).length <
        (skipSpace s).length := (List.length_take_le' _ _).trans_lt short
    rw [List.drop_append_of_le_length within.le]
    refine ⟨rfl, ?_⟩
    rw [getLast?_suffix (List.drop_suffix _ _), ended]
    rw [Ne, List.drop_eq_nil_iff]
    omega

theorem scanRequest_append {scanned : CText × CText} (found : scanRequest s = some scanned)
    (last : s.getLast? = some '\n') : scanRequest (s ++ u) = some scanned := by
  unfold scanRequest at found ⊢
  split at found
  case h_1 => cases found
  case h_2 method rest first =>
    obtain ⟨⟨path, more⟩, second, rfl⟩ := Option.map_eq_some_iff.mp found
    obtain ⟨first, behind⟩ := scanWord_append (u := u) first last
    rw [first]
    dsimp only
    rw [(scanWord_append second behind).1]
    rfl

/-! ### The length -/

theorem readSign_append {c : Char} {body : CText} (filled : body ≠ []) (last : (c :: body).getLast? = some '\n') :
    readSign (c :: body ++ u) = ((readSign (c :: body)).1, (readSign (c :: body)).2 ++ u) ∧
      (readSign (c :: body)).2.getLast? = some '\n' := by
  have behind : body.getLast? = some '\n' :=
    (getLast?_suffix (List.suffix_cons c body) filled).trans last
  rw [List.cons_append]
  unfold readSign
  split
  case h_1 rest same =>
    cases same
    exact ⟨rfl, behind⟩
  case h_2 rest same =>
    cases same
    exact ⟨rfl, behind⟩
  case h_3 minus plus =>
    split
    case h_1 rest same =>
      cases same
      exact absurd rfl (minus _)
    case h_2 rest same =>
      cases same
      exact absurd rfl (plus _)
    case h_3 => exact ⟨rfl, last⟩

theorem contentLength_append {v : CText} (solid : ∃ c ∈ v, isSpace c = false)
    (last : v.getLast? = some '\n') :
    contentLength (some (v ++ u)) = contentLength (some v) := by
  have skipped : skipSpace (v ++ u) = skipSpace v ++ u := dropWhile_append_stop solid
  obtain ⟨c, member, stays⟩ := solid
  have kept : c ∈ skipSpace v := mem_dropWhile member stays
  have ended : (skipSpace v).getLast? = some '\n' :=
    (getLast?_suffix (List.dropWhile_suffix _) (List.ne_nil_of_mem kept)).trans last
  obtain ⟨d, body, start⟩ := List.exists_cons_of_ne_nil (List.ne_nil_of_mem kept)
  have first : isSpace d = false := by
    have := List.head?_dropWhile_not isSpace v
    rw [← skipSpace, start] at this
    exact Bool.eq_false_iff.mpr (by simpa using this)
  have filled : body ≠ [] := by
    rintro rfl
    rw [start] at ended
    cases ended
    cases first
  rw [start] at ended
  obtain ⟨sign, behind⟩ := readSign_append (u := u) filled ended
  have newline : ∃ c ∈ (readSign (d :: body)).2, c.isDigit = false :=
    ⟨'\n', List.mem_of_getLast? behind, by decide⟩
  have number : readNumber (v ++ u) = (readNumber v).map fun n => { n with rest := n.rest ++ u } := by
    unfold readNumber
    rw [skipped, start, sign]
    generalize readSign (d :: body) = signed at newline ⊢
    obtain ⟨negative, digits⟩ := signed
    dsimp only at newline ⊢
    rw [takeWhile_append_stop newline, dropWhile_append_stop newline]
    split <;> rfl
  unfold contentLength strtoul
  dsimp only
  rw [number]
  cases readNumber v with
  | none => rfl
  | some n =>
      simp only [Option.map_some, Option.getD_some]
      split <;> rfl

end Lines

/-! ### A confined block -/

/--
Everything that `process` looks for in a header block is found in it: both blanks of the
request line, then the method and the path, then the digits of the length.
-/
def Confined (head : CText) : Prop :=
  requestTarget head ≠ none ∧
    ∀ target ∈ requestTarget head, target ≠ [] → target.length < 256 →
      scanRequest head ≠ none ∧
        ∀ v ∈ header head "Content-Length", ∃ c ∈ v, isSpace c = false

instance (head : CText) : Decidable (Confined head) :=
  decidable_of_iff
    (requestTarget head ≠ none ∧
      ∀ target ∈ requestTarget head, target ≠ [] → target.length < 256 →
        scanRequest head ≠ none ∧
          ∀ v ∈ header head "Content-Length", (v.any fun c => !isSpace c) = true)
    (by simp only [Confined, List.any_eq_true, Bool.not_eq_true'])

end LibreEcho.Http
