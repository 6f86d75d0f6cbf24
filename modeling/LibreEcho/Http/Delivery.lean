import LibreEcho.Lib.Framing
import LibreEcho.Http.Head

/-!
What a request leads to does not depend on how it is delivered.

Once a confined header block is in the buffer, `process` is a function of the block and
of the bytes behind it, and what it does then it would do with more of them as well.
-/
namespace LibreEcho.Http
open CText

section Head
variable (limit : Nat) (secure : Bool)

/-- `process` with the searches confined to the header block. -/
def processHead (head buf : CText) : Outcome :=
  if leHeaderMax < head.length then
    .refused (.json 413 "headers_too_large".toList "Request headers exceed 8 KiB".toList)
  else
    match requestTarget head with
    | none => malformed
    | some target =>
        if target = [] ∨ 256 ≤ target.length then malformed
        else
          match scanRequest head with
          | none => .refused (.plain 400 "Bad request".toList)
          | some (method, path) =>
              let length := contentLength (header head "Content-Length")
              if path = uploadPath then
                processUpload limit head method path length (buf.drop head.length)
              else if leBodyMax < length then
                .refused (.json 413 "body_too_large".toList "Request body exceeds 16 KiB".toList)
              else if buf.length < head.length + length then .waiting
              else
                .request
                  { commonHeaders head method path with
                    confirm := copyHeader 96 (header head "X-LibreEcho-Confirm")
                    body := (buf.drop head.length).take length
                    https := secure }

end Head

section Process
variable {limit : Nat} {secure : Bool} {head u : CText}

theorem commonHeaders_append (ends : blankLine <:+ head) (method path : CText) :
    commonHeaders (head ++ u) method path = commonHeaders head method path := by
  unfold commonHeaders
  rw [copyHeader_append (by decide) ends, copyHeader_append (by decide) ends,
    copyHeader_append (by decide) ends, copyHeader_append (by decide) ends]

theorem processUpload_append (ends : blankLine <:+ head) (method path : CText) (length : Nat)
    (arrived : CText) :
    processUpload limit (head ++ u) method path length arrived =
      processUpload limit head method path length arrived := by
  obtain ⟨same, inside⟩ :=
    header_append (u := u) "X-LibreEcho-Allow-Unsigned" (by decide) ends
  have allows : allowsUnsigned (header (head ++ u) "X-LibreEcho-Allow-Unsigned") =
      allowsUnsigned (header head "X-LibreEcho-Allow-Unsigned") := by
    rw [same]
    cases value : header head "X-LibreEcho-Allow-Unsigned" with
    | none => rfl
    | some v =>
        unfold allowsUnsigned
        rw [Option.map_some]
        dsimp only
        rw [head?_append_filled (List.ne_nil_of_mem (inside v value).1)]
  unfold processUpload
  rw [commonHeaders_append ends, allows]

theorem ofBuffer_append {s t : CText} (plain : ∀ c ∈ s, c ≠ '\x00') :
    ofBuffer (s ++ t) = s ++ ofBuffer t :=
  List.takeWhile_append_of_pos fun c member => decide_eq_true (plain c member)

theorem process_head {rest : CText} (plain : ∀ c ∈ head, c ≠ '\x00')
    (found : findEnd head = some (head.length - 4)) (long : 4 ≤ head.length)
    (ends : blankLine <:+ head) (confined : head.length ≤ leHeaderMax → Confined head) :
    process limit secure (head ++ rest) = processHead limit secure head (head ++ rest) := by
  have headers : head.length - 4 + 4 = head.length := Nat.sub_add_cancel long
  unfold process processHead
  dsimp only
  rw [ofBuffer_append plain, findEnd_append found]
  dsimp only
  rw [headers]
  by_cases large : leHeaderMax < head.length
  · rw [if_pos large, if_pos large]
  · rw [if_neg large, if_neg large]
    obtain ⟨targeted, inside⟩ := confined (Nat.le_of_not_lt large)
    obtain ⟨target, line⟩ := Option.ne_none_iff_exists'.mp targeted
    rw [line, requestTarget_append line]
    dsimp only
    by_cases wrong : target = [] ∨ 256 ≤ target.length
    · rw [if_pos wrong, if_pos wrong]
    · rw [if_neg wrong, if_neg wrong]
      obtain ⟨filled, short⟩ := not_or.mp wrong
      obtain ⟨scans, digits⟩ := inside target line filled (Nat.lt_of_not_le short)
      obtain ⟨⟨method, path⟩, words⟩ := Option.ne_none_iff_exists'.mp scans
      have last := getLast?_blankLine ends
      rw [words, scanRequest_append words last]
      dsimp only
      have length : contentLength (header (head ++ ofBuffer rest) "Content-Length") =
          contentLength (header head "Content-Length") := by
        obtain ⟨same, value⟩ := header_append (u := ofBuffer rest) "Content-Length"
          (by decide) ends
        rw [same]
        cases here : header head "Content-Length" with
        | none => rfl
        | some v => exact contentLength_append (digits v here) (value v here).2
      rw [length, processUpload_append ends]
      have copied (n : Nat) : ofBuffer ((head ++ rest).take (head.length + n)) =
          head ++ ofBuffer (rest.take n) := by
        rw [List.take_length_add_append, ofBuffer_append plain]
      rw [copied, commonHeaders_append ends, copyHeader_append (by decide) ends]

theorem head_of_found {buf : CText} {start : Nat} (found : findEnd (ofBuffer buf) = some start) :
    ∃ head rest, buf = head ++ rest ∧ head.length = start + 4 ∧ blankLine <:+ head ∧
      (∀ c ∈ head, c ≠ '\x00') ∧ findEnd head = some start := by
  obtain ⟨front, more, text, rfl⟩ := findEnd_some found
  have whole : ofBuffer buf ++ buf.dropWhile (· ≠ '\x00') = buf := List.takeWhile_append_dropWhile
  refine ⟨front ++ blankLine, more ++ buf.dropWhile (· ≠ '\x00'), ?_, ?_, ⟨front, rfl⟩, ?_, ?_⟩
  · rw [← List.append_assoc, List.append_assoc front, ← text, whole]
  · rw [List.length_append]
    rfl
  · intro c member
    have inside : c ∈ ofBuffer buf := by
      rw [text, ← List.append_assoc]
      exact List.mem_append_left _ member
    simpa using List.mem_takeWhile_imp inside
  · obtain ⟨start, here⟩ := Option.ne_none_iff_exists'.mp (findEnd_blankLine front)
    have first := findEnd_append here more
    rw [List.append_assoc, ← text, found] at first
    rw [here, first]

/-! ### More bytes -/

theorem take_append_rest (n : Nat) (s t : CText) :
    s.take n ++ t.take (n - (s.take n).length) = (s ++ t).take n := by
  rw [List.take_append, List.length_take]
  congr 2
  omega

theorem processUpload_effect (text method path : CText) (length : Nat) (b u v : CText) :
    (processUpload limit text method path length (b ++ u)).effect v =
      (processUpload limit text method path length b).effect (u ++ v) := by
  unfold processUpload
  by_cases size : length = 0 ∨ leUpdateMaxBytes < length
  · rw [if_pos size, if_pos size]
    rfl
  · rw [if_neg size, if_neg size]
    by_cases large : limit < length
    · rw [if_pos large, if_pos large]
      rfl
    · rw [if_neg large, if_neg large]
      unfold Outcome.effect
      dsimp only
      rw [take_append_rest, take_append_rest, List.append_assoc]

theorem processHead_effect {b u v : CText} {e : Effect}
    (decided : (processHead limit secure head (head ++ b)).effect (u ++ v) = some e) :
    (processHead limit secure head (head ++ (b ++ u))).effect v = some e := by
  unfold processHead at decided ⊢
  rw [List.drop_left] at decided ⊢
  by_cases large : leHeaderMax < head.length
  · rw [if_pos large] at decided ⊢
    exact decided
  · rw [if_neg large] at decided ⊢
    cases line : requestTarget head with
    | none =>
        rw [line] at decided
        exact decided
    | some target =>
        rw [line] at decided
        dsimp only at decided ⊢
        by_cases wrong : target = [] ∨ 256 ≤ target.length
        · rw [if_pos wrong] at decided ⊢
          exact decided
        · rw [if_neg wrong] at decided ⊢
          cases words : scanRequest head with
          | none =>
              rw [words] at decided
              exact decided
          | some scanned =>
              rw [words] at decided
              dsimp only at decided ⊢
              by_cases upload : scanned.2 = uploadPath
              · rw [if_pos upload] at decided ⊢
                rw [processUpload_effect, decided]
              · rw [if_neg upload] at decided ⊢
                by_cases long : leBodyMax < contentLength (header head "Content-Length")
                · rw [if_pos long] at decided ⊢
                  exact decided
                · rw [if_neg long] at decided ⊢
                  split at decided
                  case isTrue => cases decided
                  case isFalse arrived =>
                    rw [List.length_append, Nat.add_lt_add_iff_left] at arrived
                    rw [if_neg (by rw [List.length_append, List.length_append]; omega),
                      List.take_append_of_le_length (Nat.le_of_not_lt arrived)]
                    exact decided

variable (limit secure) in
/-- The effect of a buffer, with what has not been received. -/
def bufferEffect (buf unread : CText) : Option Effect :=
  (process limit secure buf).effect unread

/--
If the header block is complete in a full buffer, is not too large and has bytes behind
it, then it is confined.
-/
def BlockConfined (stream : CText) : Prop :=
  ∀ start, findEnd (ofBuffer (stream.take leReqMax)) = some start → start + 4 ≤ leHeaderMax →
    start + 4 < stream.length → Confined (stream.take (start + 4))

theorem found_of_effect {buf unread : CText} {e : Effect}
    (decided : bufferEffect limit secure buf unread = some e) :
    ∃ start, findEnd (ofBuffer buf) = some start := by
  refine Option.ne_none_iff_exists'.mp fun absent => ?_
  unfold bufferEffect process at decided
  dsimp only at decided
  rw [absent] at decided
  cases decided

theorem bufferEffect_settled {stream : CText} (confined : BlockConfined stream) :
    Framing.Settled leReqMax (bufferEffect limit secure) stream := by
  intro s u v e whole fits decided
  by_cases empty : u = []
  · rw [empty] at decided ⊢
    rw [List.append_nil]
    exact decided
  · obtain ⟨start, found⟩ := found_of_effect decided
    obtain ⟨head, rest, rfl, length, ends, plain, first⟩ := head_of_found found
    have block : head.length ≤ leHeaderMax → Confined head := by
      intro small
      have cut : stream.take (start + 4) = head := by
        rw [← whole, List.append_assoc, ← length, List.take_left]
      rw [← cut]
      refine confined start ?_ (length ▸ small) ?_
      · have taken : stream.take leReqMax =
            head ++ (rest ++ (u ++ v).take (leReqMax - (head ++ rest).length)) := by
          rw [List.length_append] at fits
          rw [← whole, List.take_append, List.take_of_length_le (by omega), List.append_assoc]
        rw [taken, ofBuffer_append plain]
        exact findEnd_append first _
      · have := List.length_pos_iff.mpr empty
        rw [← whole, List.length_append, List.length_append, List.length_append]
        omega
    have start_eq : head.length - 4 = start := by omega
    have long : 4 ≤ head.length := by omega
    rw [← start_eq] at first
    unfold bufferEffect at decided ⊢
    rw [process_head plain first long ends block] at decided
    rw [List.append_assoc, process_head plain first long ends block]
    exact processHead_effect decided

/-! ### The connection -/

theorem receive_full {buf : Buffer} {chunk : CText} :
    (buf.receive chunk).1.length = buf.1.length ↔ chunk.take (leReqMax - buf.1.length) = [] := by
  unfold Buffer.receive
  rw [List.length_append, ← List.length_eq_zero_iff]
  omega

theorem serve_cleared (chunks : List CText) : serve limit secure .cleared chunks = [] := by
  unfold serve
  rfl

theorem serve_readOne (buf : Buffer) (chunks : List CText) :
    serve limit secure (.reading buf) chunks =
      (Framing.readOne leReqMax (bufferEffect limit secure) buf.1 chunks).toList := by
  induction chunks generalizing buf with
  | nil => rfl
  | cons chunk rest ih =>
      unfold serve Framing.readOne
      dsimp only
      by_cases nothing : chunk.take (leReqMax - buf.1.length) = []
      · rw [if_pos (receive_full.mpr nothing), if_pos nothing]
        rfl
      · rw [if_neg fun same => nothing (receive_full.mp same), if_neg nothing]
        have step : (process limit secure (buf.receive chunk).1).effect
            (chunk.drop (leReqMax - buf.1.length) ++ rest.flatten) =
              bufferEffect limit secure (buf.1 ++ chunk.take (leReqMax - buf.1.length))
                (chunk.drop (leReqMax - buf.1.length) ++ rest.flatten) := rfl
        rw [step]
        cases bufferEffect limit secure (buf.1 ++ chunk.take (leReqMax - buf.1.length))
            (chunk.drop (leReqMax - buf.1.length) ++ rest.flatten) with
        | some e => exact congrArg (e :: ·) (serve_cleared rest)
        | none =>
            dsimp only
            split
            case isTrue => exact ih (buf.receive chunk)
            case isFalse => rfl

theorem serve_whole {chunks : List CText} (filled : ∀ chunk ∈ chunks, chunk ≠ [])
    (confined : BlockConfined chunks.flatten) :
    serve limit secure (.reading emptyBuffer) chunks =
      (bufferEffect limit secure (chunks.flatten.take leReqMax)
        (chunks.flatten.drop leReqMax)).toList := by
  rw [serve_readOne, Framing.readOne_eq (Nat.zero_le _) filled (bufferEffect_settled confined) rfl]
  rfl

theorem serve_pieces {chunks : List CText} (filled : ∀ chunk ∈ chunks, chunk ≠ [])
    (confined : BlockConfined chunks.flatten) :
    serve limit secure (.reading emptyBuffer) chunks =
      serve limit secure (.reading emptyBuffer) [chunks.flatten] := by
  rw [serve_whole filled confined]
  by_cases empty : chunks.flatten = []
  · rw [empty]
    rfl
  · have single : [chunks.flatten].flatten = chunks.flatten := by simp
    rw [serve_whole (List.forall_mem_singleton.mpr empty) (single.symm ▸ confined), single]

theorem serve_once (client : Client) (chunks : List CText) :
    (serve limit secure client chunks).length ≤ 1 := by
  cases client with
  | cleared =>
      rw [serve_cleared]
      exact Nat.zero_le _
  | reading buf =>
      rw [serve_readOne]
      exact Option.length_toList_le

end Process

end LibreEcho.Http

/-!
What `process` lets through and what it writes.

A body is dispatched only as long as it was declared and only within its size gate, and
the byte that ends it lies inside the buffer.
-/
namespace LibreEcho.Http
open CText

/-! ### The gates -/

def headerBytes (buf : CText) : Option Nat :=
  (findEnd (ofBuffer buf)).map (· + 4)

def declared (buf : CText) : Nat :=
  contentLength (header (ofBuffer buf) "Content-Length")

def Outcome.Within (limit : Nat) (buf : CText) : Outcome → Prop
  | .waiting | .refused _ => True
  | .request q =>
      (∃ n ∈ headerBytes buf, n ≤ leHeaderMax ∧ n + q.body.length ≤ buf.length) ∧
        q.path ≠ uploadPath ∧ q.body.length = declared buf ∧ declared buf ≤ leBodyMax
  | .upload q length initial _ =>
      (∃ n ∈ headerBytes buf, n ≤ leHeaderMax) ∧ q.path = uploadPath ∧
        length = declared buf ∧ 0 < length ∧ length ≤ leUpdateMaxBytes ∧ length ≤ limit ∧
        initial.length ≤ length

section Gates
variable {limit : Nat} {secure : Bool}

theorem processUpload_within {buf method arrived : CText} {length n : Nat}
    (headers : headerBytes buf = some n) (small : n ≤ leHeaderMax)
    (same : length = declared buf) :
    (processUpload limit (ofBuffer buf) method uploadPath length arrived).Within limit buf := by
  unfold processUpload
  by_cases size : length = 0 ∨ leUpdateMaxBytes < length
  · rw [if_pos size]
    trivial
  · rw [if_neg size]
    obtain ⟨positive, ceiling⟩ := not_or.mp size
    by_cases large : limit < length
    · rw [if_pos large]
      trivial
    · rw [if_neg large]
      exact ⟨⟨n, headers, small⟩, rfl, same, Nat.pos_of_ne_zero positive,
        Nat.le_of_not_lt ceiling, Nat.le_of_not_lt large, List.length_take_le _ _⟩

theorem process_within (buf : CText) : (process limit secure buf).Within limit buf := by
  unfold process
  dsimp only
  cases found : findEnd (ofBuffer buf) with
  | none => trivial
  | some start =>
      have headers : headerBytes buf = some (start + 4) := by
        rw [headerBytes, found]
        rfl
      dsimp only
      by_cases large : leHeaderMax < start + 4
      · rw [if_pos large]
        trivial
      · rw [if_neg large]
        have small : start + 4 ≤ leHeaderMax := Nat.le_of_not_lt large
        cases requestTarget (ofBuffer buf) with
        | none => trivial
        | some target =>
            dsimp only
            by_cases wrong : target = [] ∨ 256 ≤ target.length
            · rw [if_pos wrong]
              trivial
            · rw [if_neg wrong]
              cases scanRequest (ofBuffer buf) with
              | none => trivial
              | some scanned =>
                  obtain ⟨method, path⟩ := scanned
                  dsimp only
                  by_cases upload : path = uploadPath
                  · rw [if_pos upload, upload]
                    exact processUpload_within headers small rfl
                  · rw [if_neg upload]
                    split
                    case isTrue => trivial
                    case isFalse short =>
                      split
                      case isTrue => trivial
                      case isFalse arrived =>
                        have whole : ((buf.drop (start + 4)).take (declared buf)).length =
                            declared buf := by
                          unfold declared
                          rw [List.length_take, List.length_drop]
                          omega
                        refine ⟨⟨start + 4, headers, small, ?_⟩, upload, whole,
                          Nat.le_of_not_lt short⟩
                        exact whole.symm ▸ Nat.le_of_not_lt arrived

theorem processWrites_le {buf : CText} {i : Nat} (written : i ∈ processWrites limit secure buf) :
    i ≤ buf.length := by
  unfold processWrites at written
  split at written
  case h_1 start q found done =>
    have within : (process limit secure buf).Within limit buf := process_within buf
    rw [done] at within
    obtain ⟨⟨n, headers, -, inside⟩, -⟩ := within
    rw [headerBytes, found] at headers
    have start_eq : start + 4 = n := Option.some.inj headers
    obtain ⟨-, last⟩ := List.mem_range'_1.mp written
    omega
  case h_2 => cases written

theorem receiveWrites_le {buf : Buffer} {chunk : CText} {i : Nat}
    (written : i ∈ receiveWrites limit secure buf chunk) : i ≤ leReqMax := by
  have next := (buf.receive chunk).2
  unfold receiveWrites at written
  obtain received | behind := List.mem_append.mp written
  · obtain ⟨-, last⟩ := List.mem_range'_1.mp received
    have := buf.2
    omega
  · obtain rfl | processed := List.mem_cons.mp behind
    · exact next
    · exact (processWrites_le processed).trans next

end Gates

/-! ### One request, however it is delivered -/

/--
One connection has at most one effect. If the searches of its header block end in the
block, the effect is that of all bytes in one `recv`. No write leaves the buffer, and
what is handed on passed the gates of its kind.
-/
theorem delivered_whole (limit : Nat) (secure : Bool) (chunks : List CText)
    (filled : ∀ chunk ∈ chunks, chunk ≠ []) (confined : BlockConfined chunks.flatten) :
    (serve limit secure (.reading emptyBuffer) chunks).length ≤ 1 ∧
      serve limit secure (.reading emptyBuffer) chunks =
        serve limit secure (.reading emptyBuffer) [chunks.flatten] ∧
      (∀ buf chunk, ∀ i ∈ receiveWrites limit secure buf chunk, i ≤ leReqMax) ∧
      ∀ buf, (process limit secure buf).Within limit buf :=
  ⟨serve_once _ _, serve_pieces filled confined, fun _ _ _ => receiveWrites_le, process_within⟩

instance (stream : CText) : Decidable (BlockConfined stream) :=
  decidable_of_iff
    (∀ start ∈ findEnd (ofBuffer (stream.take leReqMax)), start + 4 ≤ leHeaderMax →
      start + 4 < stream.length → Confined (stream.take (start + 4))) Iff.rfl

def postPieces : List CText :=
  ["POST /api/v1/x HT".toList, "TP/1.1\r\nContent-Length: 4\r".toList,
    "\n\r\n\x7b".toList, "\x7d \n".toList]

theorem delivered_whole_post :
    serve 1048576 false (.reading emptyBuffer) postPieces =
        serve 1048576 false (.reading emptyBuffer) [postPieces.flatten] ∧
      (serve 1048576 false (.reading emptyBuffer) postPieces).length = 1 :=
  ⟨(delivered_whole 1048576 false postPieces (by decide) (by decide +kernel)).2.1,
    by decide +kernel⟩

def uploadHead : CText :=
  "POST /api/v1/system/update/upload HTTP/1.1\r\nContent-Length: 20000\r\n\r\n".toList

/--
An upload is dispatched with more bytes than a body may have. And a request line whose
path is behind the blank line is refused or not, as the bytes arrive.
-/
theorem delivered_apart :
    (∃ q, serve 1048576 false (.reading emptyBuffer) [uploadHead, List.replicate 20000 'x'] =
        [.upload q 20000 (List.replicate 20000 'x') false] ∧ leBodyMax < 20000) ∧
      serve 1048576 false (.reading emptyBuffer) ["GET\r\n\r\n".toList, " /x y".toList] ≠
        serve 1048576 false (.reading emptyBuffer) ["GET\r\n\r\n /x y".toList] := by
  refine ⟨⟨commonHeaders uploadHead "POST".toList uploadPath, ?_, by decide⟩, by decide +kernel⟩
  have handed : process 1048576 false (emptyBuffer.receive uploadHead).1 =
      .upload (commonHeaders uploadHead "POST".toList uploadPath) 20000 [] false := by
    decide +kernel
  have longer : (emptyBuffer.receive uploadHead).1.length ≠ emptyBuffer.1.length := by
    decide +kernel
  have none_left : uploadHead.drop (leReqMax - emptyBuffer.1.length) = [] := by decide +kernel
  unfold serve
  dsimp only
  rw [if_neg longer, handed, none_left, List.flatten_singleton]
  unfold Outcome.effect
  dsimp only
  rw [serve_cleared, List.nil_append, List.nil_append, List.length_nil, Nat.sub_zero,
    List.take_replicate, Nat.min_self]

end LibreEcho.Http
