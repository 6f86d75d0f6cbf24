import LibreEcho.Lib.JsonGrammar
import LibreEcho.Lib.ByteText

/-!
The recursive descent parser of `json.c`.

A cursor reads the first `n` bytes of a text. A read at an index past them and a
loop that runs out of fuel are outcomes of their own, so that a result about
`done` and `failed` says that neither happens.
-/
namespace LibreEcho.Json
open JsonGrammar

def jsonMaxDepth : Nat := 64

structure JsonCursor where
  s : Bytes
  i : Nat
  depth : Nat

inductive Fault where
  | overrun | exhausted
deriving DecidableEq, Repr

/-- What a parse function does: it returns 1 and moves the cursor, or it returns 0. -/
inductive Step where
  | done (c : JsonCursor)
  | failed
  | fault (f : Fault)

def Step.andThen : Step → (JsonCursor → Step) → Step
  | .done c, next => next c
  | .failed, _ => .failed
  | .fault f, _ => .fault f

namespace JsonCursor

/-- The test `c->i >= c->n`. -/
def atEnd (c : JsonCursor) : Bool :=
  c.s.length ≤ c.i

/-- The byte `c->s[c->i]`. -/
def reading (c : JsonCursor) (use : UInt8 → Step) : Step :=
  match c.s[c.i]? with
  | some b => use b
  | none => .fault .overrun

/-- The `k` bytes at the cursor. -/
def readingSlice (c : JsonCursor) (k : Nat) (use : Bytes → Step) : Step :=
  if c.i + k ≤ c.s.length then use ((c.s.drop c.i).take k) else .fault .overrun

def skip (c : JsonCursor) (k : Nat) : JsonCursor :=
  { c with i := c.i + k }

/-- Rounds a loop that moves the cursor in each of them may take. -/
def rounds (c : JsonCursor) : Nat :=
  c.s.length - c.i + 1

end JsonCursor

/-- `while (c->i < c->n && p(c->s[c->i])) c->i++;` -/
def skipWhile (p : UInt8 → Bool) : Nat → JsonCursor → Step
  | 0, _ => .fault .exhausted
  | rounds + 1, c =>
      if c.atEnd then .done c
      else c.reading fun b => if p b then skipWhile p rounds (c.skip 1) else .done c

def skipWs (c : JsonCursor) : Step :=
  skipWhile isSpace c.rounds c

def expect (p : UInt8 → Bool) (c : JsonCursor) : Step :=
  if c.atEnd then .failed
  else c.reading fun b => if p b then .done (c.skip 1) else .failed

/-! ### Strings -/

def parseHex : Nat → JsonCursor → Step
  | 0, c => .done c
  | j + 1, c => (expect isHex c).andThen (parseHex j)

def parseStringLoop : Nat → JsonCursor → Step
  | 0, _ => .fault .exhausted
  | rounds + 1, c =>
      if c.atEnd then .failed
      else c.reading fun ch =>
        let c := c.skip 1
        if ch = quote then .done c
        else if ch < 0x20 then .failed
        else if ch ≠ backslash then parseStringLoop rounds c
        else if c.atEnd then .failed
        else c.reading fun ch =>
          let c := c.skip 1
          if ch = letterU then (parseHex 4 c).andThen (parseStringLoop rounds)
          else if isEscape ch then parseStringLoop rounds c
          else .failed

def parseString (c : JsonCursor) : Step :=
  (expect (· == quote) c).andThen fun c => parseStringLoop c.rounds c

/-! ### Numbers and literals -/

def skipOne (p : UInt8 → Bool) (c : JsonCursor) : Step :=
  if c.atEnd then .done c
  else c.reading fun b => if p b then .done (c.skip 1) else .done c

def parseDigits (c : JsonCursor) : Step :=
  (expect isDigit c).andThen fun c => skipWhile isDigit c.rounds c

def parseInteger (c : JsonCursor) : Step :=
  if c.atEnd then .failed
  else c.reading fun b =>
    if b = zero then
      let c := c.skip 1
      if c.atEnd then .done c
      else c.reading fun d => if isDigit d then .failed else .done c
    else parseDigits c

def parseFraction (c : JsonCursor) : Step :=
  if c.atEnd then .done c
  else c.reading fun b => if b = point then parseDigits (c.skip 1) else .done c

def parseExponent (c : JsonCursor) : Step :=
  if c.atEnd then .done c
  else c.reading fun b =>
    if b = letterE ∨ b = capitalE then
      (skipOne (fun b => b == plus || b == minus) (c.skip 1)).andThen parseDigits
    else .done c

def parseNumber (c : JsonCursor) : Step :=
  let start := c.i
  (skipOne (· == minus) c).andThen fun c =>
  (parseInteger c).andThen fun c =>
  (parseFraction c).andThen fun c =>
  (parseExponent c).andThen fun c =>
  if start < c.i then .done c else .failed

def literal (value : Bytes) (c : JsonCursor) : Step :=
  if c.s.length < c.i + value.length then .failed
  else c.readingSlice value.length fun slice =>
    if slice = value then .done (c.skip value.length) else .failed

/-! ### Objects and arrays -/

def deeper (c : JsonCursor) : JsonCursor :=
  { c with depth := c.depth + 1 }

/-- Leave the object or the array at its closing byte, or go on. -/
def closeOr (close : UInt8) (more : JsonCursor → Step) (c : JsonCursor) : Step :=
  if c.atEnd then more c
  else c.reading fun b =>
    if b = close then .done { c.skip 1 with depth := c.depth - 1 } else more c

def openWith (first : UInt8) (inside : JsonCursor → Step) (c : JsonCursor) : Step :=
  (expect (· == first) c).andThen fun c =>
    let c := deeper c
    if jsonMaxDepth < c.depth then .failed else (skipWs c).andThen inside

def nextItem (close : UInt8) (more : JsonCursor → Step) (c : JsonCursor) : Step :=
  (expect (· == comma) c).andThen fun c =>
  (skipWs c).andThen fun c =>
  if c.atEnd then .failed
  else c.reading fun b => if b = close then .failed else more c

mutual

def parseValue : Nat → JsonCursor → Step
  | 0, _ => .fault .exhausted
  | fuel + 1, c =>
      (skipWs c).andThen fun c =>
      if c.atEnd then .failed
      else c.reading fun b =>
        if b = quote then parseString c
        else if b = lbrace then parseObject fuel c
        else if b = lbracket then parseArray fuel c
        else if b = letterT then literal trueText c
        else if b = letterF then literal falseText c
        else if b = letterN then literal nullText c
        else parseNumber c

def parseObject : Nat → JsonCursor → Step
  | 0, _ => .fault .exhausted
  | fuel + 1, c => openWith lbrace (closeOr rbrace fun c => parseMembers fuel c) c

/-- The loop of `parse_object`. -/
def parseMembers : Nat → JsonCursor → Step
  | 0, _ => .fault .exhausted
  | fuel + 1, c =>
      (parseString c).andThen fun c =>
      (skipWs c).andThen fun c =>
      (expect (· == colon) c).andThen fun c =>
      (parseValue fuel c).andThen fun c =>
      (skipWs c).andThen (closeOr rbrace (nextItem rbrace fun c => parseMembers fuel c))

def parseArray : Nat → JsonCursor → Step
  | 0, _ => .fault .exhausted
  | fuel + 1, c => openWith lbracket (closeOr rbracket fun c => parseElements fuel c) c

/-- The loop of `parse_array`. -/
def parseElements : Nat → JsonCursor → Step
  | 0, _ => .fault .exhausted
  | fuel + 1, c =>
      (parseValue fuel c).andThen fun c =>
      (skipWs c).andThen (closeOr rbracket (nextItem rbracket fun c => parseElements fuel c))

end

def JsonCursor.start (s : Bytes) : JsonCursor where
  s := s
  i := 0
  depth := 0

/-- Calls and loop rounds that are enough for any text of `n` bytes. -/
def parseFuel (n : Nat) : Nat :=
  3 * n + 3

def Step.verdict : Step → Except Fault Bool
  | .done _ => .ok true
  | .failed => .ok false
  | .fault f => .error f

/-- The parse of `json_valid_object`. -/
def parseWhole (fuel : Nat) (s : Bytes) : Step :=
  (skipWs (.start s)).andThen fun c =>
  (parseObject fuel c).andThen fun c =>
  (skipWs c).andThen fun c =>
  if c.i = c.s.length then .done c else .failed

def jsonValidObject (fuel : Nat) (s : Bytes) : Except Fault Bool :=
  (parseWhole fuel s).verdict

end LibreEcho.Json

/-!
The string getters and the escaping of `json.c`.

A C string is its bytes before the terminator, and a pointer into it is the
text from there on; reading past the last byte reads the terminator. Output
buffers have a size in bytes, the terminator included.
-/
namespace LibreEcho.Json
open JsonGrammar ByteText

/-! ### Escaping -/

def escapeByte (c : UInt8) : Bytes :=
  if c = 34 ∨ c = 92 then [backslash, c]
  else if c = 10 then [backslash, letterN]
  else if c = 13 then [backslash, letterR]
  else if c = 9 then [backslash, letterT]
  else if 32 ≤ c then [c]
  else [backslash, letterU, zero, zero, hexDigit (c.toNat / 16), hexDigit (c.toNat % 16)]

def escapeWidth (c : UInt8) : Nat :=
  if c = 34 ∨ c = 92 ∨ c = 10 ∨ c = 13 ∨ c = 9 then 2 else if c < 32 then 6 else 1

def escapeLoop (z : Nat) : Bytes → Bytes → Bytes
  | [], out => out
  | c :: input, out =>
      if z < out.length + escapeWidth c + 1 then out
      else escapeLoop z input (out ++ escapeByte c)

def jsonEscape (z : Nat) (input : Bytes) : Bytes :=
  escapeLoop z input []

/-! ### Reading a string -/

def hexQuad : Bytes → Option (Nat × Bytes)
  | a :: b :: c :: d :: p =>
      match hexValue a, hexValue b, hexValue c, hexValue d with
      | some h0, some h1, some h2, some h3 =>
          some (h0 * 4096 + h1 * 256 + h2 * 16 + h3, p)
      | _, _, _, _ => none
  | _ => none

/-- The second half of a surrogate pair and the text after it. -/
def lowSurrogate : Bytes → Option (Nat × Bytes)
  | a :: b :: p =>
      if a = backslash ∧ b = letterU then
        match hexQuad p with
        | some (low, p) => if low < 0xdc00 ∨ 0xdfff < low then none else some (low, p)
        | none => none
      else none
  | _ => none

/-- What follows `\u`: a code point and the text after it. -/
def unicodeEscape (p : Bytes) : Option (Nat × Bytes) :=
  match hexQuad p with
  | none => none
  | some (codepoint, p) =>
      let read :=
        if 0xd800 ≤ codepoint ∧ codepoint ≤ 0xdbff then
          match lowSurrogate p with
          | some (low, p) => some (0x10000 + (codepoint - 0xd800) * 1024 + (low - 0xdc00), p)
          | none => none
        else if 0xdc00 ≤ codepoint ∧ codepoint ≤ 0xdfff then none
        else some (codepoint, p)
      match read with
      | none => none
      | some (codepoint, p) =>
          if codepoint < 0x20 ∨ 0x10ffff < codepoint then none else some (codepoint, p)

def codepointBytes (codepoint : Nat) : Bytes :=
  let low (n : Nat) : UInt8 := .ofNat (0x80 + n % 64)
  if codepoint ≤ 0x7f then [.ofNat codepoint]
  else if codepoint ≤ 0x7ff then [.ofNat (0xc0 + codepoint / 64), low codepoint]
  else if codepoint ≤ 0xffff then
    [.ofNat (0xe0 + codepoint / 4096), low (codepoint / 64), low codepoint]
  else
    [.ofNat (0xf0 + codepoint / 262144), low (codepoint / 4096), low (codepoint / 64),
      low codepoint]

/-- `none` when the buffer is too small. -/
def appendCodepoint (z : Nat) (out : Bytes) (codepoint : Nat) : Option Bytes :=
  if z < out.length + (codepointBytes codepoint).length + 1 then none
  else some (out ++ codepointBytes codepoint)

def escapeValue (c : UInt8) : Option UInt8 :=
  if c = letterN then some 10
  else if c = letterR then some 13
  else if c = letterT then some 9
  else if c = letterB then some 8
  else if c = letterF then some 12
  else if c ≠ quote ∧ c ≠ backslash ∧ c ≠ slash then none
  else some c

/-- The loop of `json_get_string_at`, `none` for -1. Every round reads a byte, so
one round more than there are bytes is enough. -/
def getStringLoop (z : Nat) : Nat → Bytes → Bytes → Option Bytes
  | 0, _, _ => none
  | _ + 1, [], _ => none
  | rounds + 1, c :: p, out =>
      let append (c : UInt8) (p : Bytes) : Option Bytes :=
        -- the test applies to escaped bytes as well
        if c < 32 ∨ z < out.length + 2 then none else getStringLoop z rounds p (out ++ [c])
      if c = quote then some out
      else if c = backslash then
        match p with
        | [] => none
        | c :: p =>
            if c = letterU then
              match unicodeEscape p with
              | none => none
              | some (codepoint, p) =>
                  match appendCodepoint z out codepoint with
                  | none => none
                  | some out => getStringLoop z rounds p out
            else
              match escapeValue c with
              | none => none
              | some c => append c p
      else append c p

def jsonGetStringAt (p : Bytes) (z : Nat) : Option Bytes :=
  if z = 0 then none
  else
    match p with
    | [] => none
    | c :: p => if c ≠ quote then none else getStringLoop z (p.length + 1) p []

/-! ### Finding a member -/

inductive StringRead where
  /-- The return value 0: the key is not there. -/
  | absent
  /-- The error return. -/
  | invalid
  /-- The return value 1, and the text in the output buffer. -/
  | text (out : Bytes)
deriving DecidableEq

def stringRead : Option Bytes → StringRead
  | some out => .text out
  | none => .invalid

/-- The key buffer holds 96 bytes, and `snprintf` cuts what does not fit. -/
def keyPattern (k : Bytes) : Bytes :=
  (quote :: (k ++ [quote])).take 95

def afterColon (s : Bytes) : Option Bytes :=
  match s.dropWhile ByteText.isSpace with
  | [] => none
  | c :: s => if c ≠ colon then none else some (s.dropWhile ByteText.isSpace)

def findKey (s k : Bytes) : Option Bytes :=
  match strstr (keyPattern k) s with
  | none => none
  | some s => afterColon (s.drop (keyPattern k).length)

def jsonGetString (s k : Bytes) (z : Nat) : StringRead :=
  match findKey s k with
  | some p => stringRead (jsonGetStringAt p z)
  | none => .absent

/-- Go on after a step of the cursor; a failed step ends the search. -/
def Step.orNull (x : Step) (use : JsonCursor → Except Fault (Option Bytes)) :
    Except Fault (Option Bytes) :=
  match x with
  | .done c => use c
  | .failed => .ok none
  | .fault f => .error f

/-- The loop of `find_top_level_key`; the search reads a terminated text, so its
tests for the end are tests for the terminator. -/
def topLevelLoop (k : Bytes) : Nat → JsonCursor → Except Fault (Option Bytes)
  | 0, _ => .error .exhausted
  | fuel + 1, c =>
      (skipWs c).orNull fun c =>
      let start := c.i + 1
      -- `parse_string` refuses the end of the text, a closing brace and any other byte
      (parseString c).orNull fun c =>
      let name := (c.s.drop start).take (c.i - 1 - start)
      (skipWs c).orNull fun c =>
      (expect (· == colon) c).orNull fun c =>
      (skipWs c).orNull fun c =>
      if name = k then .ok (some (c.s.drop c.i))
      else
        (parseValue fuel c).orNull fun c =>
        (skipWs c).orNull fun c =>
        if c.atEnd then .ok none
        else if c.s[c.i]? = some rbrace then .ok none
        else (expect (· == comma) c).orNull (topLevelLoop k fuel)

def findTopLevelKey (fuel : Nat) (s k : Bytes) : Except Fault (Option Bytes) :=
  (skipWs (.start s)).orNull fun c =>
  (expect (· == lbrace) c).orNull (topLevelLoop k fuel)

def jsonGetStringTopLevel (fuel : Nat) (s k : Bytes) (z : Nat) : Except Fault StringRead :=
  (findTopLevelKey fuel s k).map fun found =>
    match found with
    | some p => stringRead (jsonGetStringAt p z)
    | none => .absent

/-! ### A value span -/

def spanIsSingleValue (fuel : Nat) (c : JsonCursor) : Step :=
  (parseValue fuel { c with depth := 0 }).andThen fun probe =>
  (skipWs probe).andThen fun probe =>
  if probe.i = probe.s.length then .done probe else .failed

def jsonStringSpan (fuel : Nat) (s : Bytes) (z : Nat) : Except Fault (Option Bytes) :=
  if z < 2 then .ok none
  else
    (skipWs (.start s)).orNull fun c =>
    if c.atEnd then .ok none
    else if c.s[c.i]? ≠ some quote then .ok none
    else (spanIsSingleValue fuel c).orNull fun _ => .ok (jsonGetStringAt (c.s.drop c.i) z)

end LibreEcho.Json
