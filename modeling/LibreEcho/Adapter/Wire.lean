import LibreEcho.Lib.ByteText
import LibreEcho.Lib.JsonGrammar

/-!
Text helpers of the adapter protocol and the daemon's side of it.

`adapter_client.c` and `adapter_server.c` each hold a copy of the helpers, with
the same text; there is one definition here for both. A C string is its bytes
before the terminator, and a pointer into it is the text from there on.
-/
namespace LibreEcho.Adapter
open JsonGrammar ByteText

def leAdapterProtoVersion : Nat := 1
def leAdapterMsgMax : Nat := 4096
abbrev newline : UInt8 := 10

/-- The range of `unsigned long`. -/
structure Target where
  ulongMax : Nat
  wide : 2 ^ 32 - 1 ≤ ulongMax

def skipWs (p : Bytes) : Bytes :=
  p.dropWhile JsonGrammar.isSpace

/-! ### Members by name -/

def needle (key : Bytes) : Bytes :=
  quote :: (key ++ [quote])

/-- The search loop of `find_key`. A round moves past a whole needle, so one round
more than there are bytes is enough. -/
def findKeyLoop (key : Bytes) : Nat → Bytes → Option Bytes
  | 0, _ => none
  | rounds + 1, p =>
      match strstr (needle key) p with
      | none => none
      | some p =>
          let p := p.drop (needle key).length
          match skipWs p with
          | [] => findKeyLoop key rounds p
          | c :: value => if c = colon then some (skipWs value) else findKeyLoop key rounds p

def findKey (json key : Bytes) : Option Bytes :=
  if 64 ≤ (needle key).length then none else findKeyLoop key (json.length + 1) json

def idKey : Bytes := ascii "id"
def versionKey : Bytes := ascii "v"
def cmdKey : Bytes := ascii "cmd"
def argsKey : Bytes := ascii "args"
def okKey : Bytes := ascii "ok"
def errorKey : Bytes := ascii "error"
def dataKey : Bytes := ascii "data"
def eventKey : Bytes := ascii "event"

/-! ### Values -/

def parseUlongValue (T : Target) (p : Bytes) : Option Nat :=
  let (digits, rest) := readDecimal p
  if digits = [] then none
  else if T.ulongMax < decimalValue digits then none
  else
    match skipWs rest with
    | [] => none
    | c :: _ => if c ≠ comma ∧ c ≠ rbrace then none else some (decimalValue digits)

/-- What may stand right after `true` or `false`. -/
def endsBool : Bytes → Bool
  | [] => true
  | c :: _ => c == comma || c == rbrace || c == rbracket

def parseBoolValue (p : Bytes) : Option Bool :=
  if trueText <+: p ∧ endsBool (p.drop trueText.length) then some true
  else if falseText <+: p ∧ endsBool (p.drop falseText.length) then some false
  else none

/-- The loop of `json_value_end`: the stack of open brackets, newest first, and
whether the position is inside a string. -/
def valueEndLoop : List UInt8 → Bool → Bytes → Option Bytes
  | _, _, [] => none
  | stack, true, c :: q =>
      if c = backslash then
        match q with
        | [] => none
        | _ :: q => valueEndLoop stack true q
      else valueEndLoop stack (c != quote) q
  | stack, false, c :: q =>
      if c = quote then valueEndLoop stack true q
      else if c = lbrace ∨ c = lbracket then
        if leAdapterMsgMax ≤ stack.length then none else valueEndLoop (c :: stack) false q
      else if c = rbrace ∨ c = rbracket then
        match stack with
        | [] => none
        | opening :: stack =>
            if (opening = lbrace ∧ c ≠ rbrace) ∨ (opening = lbracket ∧ c ≠ rbracket) then none
            else if stack = [] then some q
            else valueEndLoop stack false q
      else valueEndLoop stack false q

/-- The text after the object or the array at `p`. -/
def jsonValueEnd (p : Bytes) : Option Bytes :=
  match p with
  | [] => none
  | c :: _ => if c ≠ lbrace ∧ c ≠ lbracket then none else valueEndLoop [] false p

/-! ### Strings -/

def escapeValue (c : UInt8) : Option UInt8 :=
  if c = quote then some quote
  else if c = backslash then some backslash
  else if c = slash then some slash
  else if c = letterB then some 8
  else if c = letterF then some 12
  else if c = letterN then some 10
  else if c = letterR then some 13
  else if c = letterT then some 9
  else none

/-- The byte read for `\uXXXX`, from its first two digits, and the text after it. -/
def unicodeByte : Bytes → Option (UInt8 × Bytes)
  | a :: b :: c :: d :: q =>
      match hexValue a, hexValue b, hexValue c, hexValue d with
      | some h, some l, some _, some _ =>
          let byte := UInt8.ofNat (h * 16 + l)
          if byte = 0 then none else some (byte, q)
      | _, _, _, _ => none
  | _ => none

/-- The loop of `json_read_string` with what is read so far; `none` for -1 and -2. -/
def readStringLoop (size : Nat) : Nat → Bytes → Bytes → Option (Bytes × Bytes)
  | 0, _, _ => none
  | _ + 1, [], _ => none
  | rounds + 1, c :: q, out =>
      let append (c : UInt8) (q : Bytes) : Option (Bytes × Bytes) :=
        if size ≤ out.length + 1 then none else readStringLoop size rounds q (out ++ [c])
      if c = quote then some (out, q)
      else if c = backslash then
        match q with
        | [] => none
        | mark :: q =>
            if mark = letterU then
              match unicodeByte q with
              | none => none
              | some (c, q) => append c q
            else
              match escapeValue mark with
              | none => none
              | some c => append c q
      else if c < 0x20 then none
      else append c q

def jsonReadString (size : Nat) (p : Bytes) : Option (Bytes × Bytes) :=
  match p with
  | [] => none
  | c :: q => if c ≠ quote then none else readStringLoop size (q.length + 1) q []

def escapeByte (c : UInt8) : Bytes :=
  if c = quote ∨ c = backslash then [backslash, c]
  else if c = 8 then [backslash, letterB]
  else if c = 12 then [backslash, letterF]
  else if c = 10 then [backslash, letterN]
  else if c = 13 then [backslash, letterR]
  else if c = 9 then [backslash, letterT]
  else if c < 0x20 then
    [backslash, letterU, zero, zero, hexDigit (c.toNat / 16), hexDigit (c.toNat % 16)]
  else [c]

/-- `append_json_string`: the buffer's text with the escaped one appended. -/
def appendJsonString (size : Nat) : Bytes → Bytes → Option Bytes
  | out, [] => if size ≤ out.length then none else some out
  | out, c :: text =>
      if size < out.length + (escapeByte c).length + 1 then none
      else appendJsonString size (out ++ escapeByte c) text

/-- `snprintf` at the end of the buffer's text; `none` when it does not fit. -/
def appendText (size : Nat) (out text : Bytes) : Option Bytes :=
  if size ≤ out.length + text.length then none else some (out ++ text)

def named (key : Bytes) : Bytes :=
  needle key ++ [colon]

def openMessage : Bytes :=
  lbrace :: (named versionKey ++ [0x31, comma])

/-! ### The daemon -/

structure Request where
  cmd : Bytes
  args : Bytes
  id : Nat
deriving DecidableEq

def require (p : Prop) [Decidable p] : Option Unit :=
  if p then some () else none

def leAdapterParseRequest (T : Target) (msg : Bytes) (cmdSize : Nat) : Option Request := do
  require (cmdSize ≠ 0)
  let rootEnd ← jsonValueEnd msg
  require (skipWs rootEnd = [])
  let version ← (findKey msg versionKey).bind (parseUlongValue T)
  require (version = leAdapterProtoVersion)
  let id ← (findKey msg idKey).bind (parseUlongValue T)
  let (cmd, cmdEnd) ← (findKey msg cmdKey).bind (jsonReadString cmdSize)
  require ((skipWs cmdEnd).head? = some comma)
  let args ← findKey msg argsKey
  require (args.head? = some lbrace)
  let argsEnd := skipWs (← jsonValueEnd args)
  require (argsEnd.head? = some comma ∨ argsEnd.head? = some rbrace)
  -- the text is cut in place where the arguments end
  some { cmd := cmd, args := args.take (args.length - argsEnd.length), id := id }

def leAdapterRespondErr (size id : Nat) (error : Bytes) : Option Bytes := do
  let out ← appendText size []
    (openMessage ++ named idKey ++ decimal id ++ [comma] ++ named okKey ++ falseText ++ [comma] ++
      named errorKey ++ [quote])
  let out ← appendJsonString size out error
  appendText size out [quote, rbrace, newline]

def leAdapterFormatEvent (size : Nat) (event data : Bytes) : Option Bytes := do
  let out ← appendText size [] (openMessage ++ named eventKey ++ [quote])
  let out ← appendJsonString size out event
  appendText size out ([quote, comma] ++ named dataKey ++ data ++ [rbrace, newline])

end LibreEcho.Adapter

/-!
The client of the adapter protocol in `adapter_client.c`.

The socket delivers its bytes in order; how many of them one `read` returns is
up to the environment, as is what a wait ends with once they are all read. A
wait that is interrupted or finds nothing to read is taken up again and leaves
no trace.
-/
namespace LibreEcho.Adapter
open JsonGrammar ByteText

def leAdapterMaxSkippedEvents : Nat := 16

inductive CallResult where
  | ok | io | timeout | proto | rejected
deriving DecidableEq, Repr

def CallResult.Broken (result : CallResult) : Prop :=
  result = .io ∨ result = .timeout

structure Environment where
  /-- How many bytes more than one a `read` may return, by the bytes still to come. -/
  chunk : Nat → Nat
  /-- What a wait for more bytes ends with when there are none. -/
  ending : CallResult
  ends : ending.Broken
  /-- An error of `write_all`. -/
  send : Bytes → Option CallResult
  fails : ∀ request result, send request = some result → result.Broken

/-- `a->input` and the bytes the socket has not delivered yet. -/
structure Conn where
  input : Bytes
  pending : Bytes
  fits : input.length ≤ leAdapterMsgMax

def Conn.stream (c : Conn) : Bytes :=
  c.input ++ c.pending

/-- How much one `read` puts into what is left of the input buffer. -/
def Conn.readSize (E : Environment) (c : Conn) : Nat :=
  min (E.chunk c.pending.length + 1) (leAdapterMsgMax - c.input.length)

def Conn.receive (E : Environment) (c : Conn) : Conn where
  input := c.input ++ c.pending.take (c.readSize E)
  pending := c.pending.drop (c.readSize E)
  fits := by
    have room : c.readSize E ≤ leAdapterMsgMax - c.input.length := Nat.min_le_right _ _
    have fits := c.fits
    rw [List.length_append, List.length_take]
    omega

/-- The first `n` bytes of the input are used up. -/
def Conn.consume (c : Conn) (n : Nat) : Conn where
  input := c.input.drop n
  pending := c.pending
  fits := by
    have fits := c.fits
    rw [List.length_drop]
    omega

def readLineLoop (E : Environment) (size : Nat) : Nat → Conn → Except CallResult Bytes × Conn
  | 0, c => (.error E.ending, c)
  | rounds + 1, c =>
      if newline ∈ c.input then
        let line := c.input.takeWhile (· ≠ newline)
        if size ≤ line.length then (.error .proto, c)
        else (.ok line, c.consume (line.length + 1))
      else if leAdapterMsgMax ≤ c.input.length then (.error .proto, c)
      else if c.pending = [] then (.error E.ending, c)
      else readLineLoop E size rounds (c.receive E)

def readLine (E : Environment) (size : Nat) (c : Conn) : Except CallResult Bytes × Conn :=
  if size < 2 then (.error .proto, c) else readLineLoop E size (c.pending.length + 1) c

def cString (buffer : Bytes) : Bytes :=
  buffer.takeWhile (· ≠ 0)

def buildRequest (id : Nat) (cmd args : Bytes) : Option Bytes := do
  let out ← appendText leAdapterMsgMax []
    (openMessage ++ named idKey ++ decimal id ++ [comma] ++ named cmdKey ++ [quote])
  let out ← appendJsonString leAdapterMsgMax out cmd
  let out ← appendText leAdapterMsgMax out ([quote, comma] ++ named argsKey)
  let value := skipWs args
  require (value.head? = some lbrace)
  require (skipWs (← jsonValueEnd value) = [])
  -- where the difference wraps, nothing fits and the last write fails
  require (args.length ≤ leAdapterMsgMax - out.length - 3)
  appendText leAdapterMsgMax out (args ++ [rbrace, newline])

/-- What a line means to the call that waits for the answer to `id`. -/
inductive LineKind where
  | refused
  | event
  | reply (ok : Bool)
deriving DecidableEq

def lineKind (T : Target) (id : Nat) (response : Bytes) : LineKind :=
  if (findKey response versionKey).bind (parseUlongValue T) ≠ some leAdapterProtoVersion then
    .refused
  else
    match findKey response idKey with
    | none =>
        match (findKey response eventKey).bind (jsonReadString leAdapterMsgMax) with
        | none => .refused
        | some _ => .event
    | some value =>
        if parseUlongValue T value ≠ some id then .refused
        else
          match (findKey response okKey).bind parseBoolValue with
          | none => .refused
          | some ok => .reply ok

/-- The return value of a call and its output buffer's text. -/
structure Answer where
  result : CallResult
  out : Bytes
deriving DecidableEq

def CallResult.bare (result : CallResult) : Answer where
  result := result
  out := []

def rejection (outSize : Nat) (response : Bytes) : Answer :=
  match (findKey response errorKey).bind (jsonReadString leAdapterMsgMax) with
  | none => CallResult.proto.bare
  | some (error, _) => { result := .rejected, out := error.take (outSize - 1) }

def acceptance (outSize : Nat) (response : Bytes) : Answer :=
  match findKey response dataKey with
  | none => CallResult.proto.bare
  | some data =>
      match jsonValueEnd data with
      | none => CallResult.proto.bare
      | some dataEnd =>
          if (skipWs dataEnd).head? ≠ some rbrace ∧ (skipWs dataEnd).head? ≠ some comma then
            CallResult.proto.bare
          else
            let text := data.take (data.length - dataEnd.length)
            if outSize = 0 then CallResult.ok.bare
            else if outSize ≤ text.length then CallResult.io.bare
            else { result := .ok, out := text }

/-- The loop of `le_adapter_call`, with how many events it may still skip. -/
def callLoop (E : Environment) (T : Target) (id outSize : Nat) : Nat → Conn → Answer × Conn
  | left, c =>
      match readLine E leAdapterMsgMax c with
      | (.error result, c) => (result.bare, c)
      | (.ok line, c) =>
          match lineKind T id (cString line) with
          | .refused => (CallResult.proto.bare, c)
          | .event =>
              match left with
              | 0 => (CallResult.proto.bare, c)
              | left + 1 => callLoop E T id outSize left c
          | .reply true => (acceptance outSize (cString line), c)
          | .reply false => (rejection outSize (cString line), c)

structure LeAdapter where
  nextId : Nat
  conn : Conn

def LeAdapter.id (a : LeAdapter) : Nat :=
  if a.nextId = 0 then 1 else a.nextId

def leAdapterCall (E : Environment) (T : Target) (a : LeAdapter) (cmd args : Bytes)
    (outSize : Nat) : Answer × LeAdapter :=
  let id := a.id
  let a := { a with nextId := (id + 1) % (T.ulongMax + 1) }
  match buildRequest id cmd args with
  | none => (CallResult.proto.bare, a)
  | some request =>
      match E.send request with
      | some result => (result.bare, a)
      | none =>
          let (answer, conn) := callLoop E T id outSize leAdapterMaxSkippedEvents a.conn
          (answer, { a with conn := conn })

end LibreEcho.Adapter
