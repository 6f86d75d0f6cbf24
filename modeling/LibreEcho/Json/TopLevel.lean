import LibreEcho.Json.Complete
import LibreEcho.Json.Cursor
import LibreEcho.Lib.CText

/-!
The getters of `json.c` that look at the members of the outer object only.

Each of them returns on every text: no read past the end, no loop left unfinished.
-/
namespace LibreEcho.Json
open JsonGrammar ByteText

/-! ### Going on after a step -/

def Step.orReturn {α : Type} (x : Step) (failed : α) (use : JsonCursor → Except Fault α) :
    Except Fault α :=
  match x with
  | .done c => use c
  | .failed => .ok failed
  | .fault f => .error f

/-- The byte at the cursor; at the end of the text the value is returned. -/
def JsonCursor.orReturn {α : Type} (c : JsonCursor) (failed : α)
    (use : UInt8 → Except Fault α) : Except Fault α :=
  if c.atEnd then .ok failed
  else
    match c.s[c.i]? with
    | some b => use b
    | none => .error .overrun

def Returns {α : Type} (x : Except Fault α) : Prop :=
  ∃ a, x = .ok a

theorem returns_ok {α : Type} (a : α) : Returns (.ok a) :=
  ⟨a, rfl⟩

section Going
variable {α : Type} {P : JsonCursor → Prop}

theorem Step.Meets.orReturn {x : Step} (met : x.Meets P) (failed : α)
    {use : JsonCursor → Except Fault α} (go : ∀ c, P c → Returns (use c)) :
    Returns (x.orReturn failed use) := by
  rcases met with same | ⟨c, same, here⟩
  · rw [same]
    exact returns_ok failed
  · rw [same]
    exact go c here

theorem Step.Meets.orNull {x : Step} (met : x.Meets P)
    {use : JsonCursor → Except Fault (Option Bytes)} (go : ∀ c, P c → Returns (use c)) :
    Returns (x.orNull use) := by
  rcases met with same | ⟨c, same, here⟩
  · rw [same]
    exact returns_ok none
  · rw [same]
    exact go c here

end Going

/-! ### A member name -/

/-- The byte that `parse_string_key` makes of a two-byte escape. -/
def keyEscape (c : UInt8) : Option UInt8 :=
  if c = quote ∨ c = backslash ∨ c = slash then some c
  else if c = letterB then some 8
  else if c = letterF then some 12
  else if c = letterN then some 10
  else if c = letterR then some 13
  else if c = letterT then some 9
  else none

/-- What is left of the key, and whether the name has been the key up to here. -/
structure KeyMatch where
  left : Bytes
  same : Bool

def KeyMatch.take (m : KeyMatch) (c : UInt8) : KeyMatch :=
  match m.left with
  | [] => ⟨[], false⟩
  | b :: left => ⟨left, m.same && b == c⟩

/-- Four digits of a `\u` escape. -/
def parseKeyHex : Nat → JsonCursor → Nat → Except Fault (Option (Nat × JsonCursor))
  | 0, c, value => .ok (some (value, c))
  | digits + 1, c, value =>
      c.orReturn none fun b =>
        match hexValue b with
        | none => .ok none
        | some nibble => parseKeyHex digits (c.skip 1) (value * 16 + nibble)

/-- The loop of `parse_string_key`; `none` is -1. -/
def parseKeyLoop : Nat → JsonCursor → KeyMatch → Except Fault (Option (Bool × JsonCursor))
  | 0, _, _ => .error .exhausted
  | rounds + 1, c, m =>
      c.orReturn none fun ch =>
        let c := c.skip 1
        if ch = quote then .ok (some (m.same && m.left.isEmpty, c))
        else if ch < 0x20 then .ok none
        else if ch ≠ backslash then parseKeyLoop rounds c (m.take ch)
        else
          c.orReturn none fun ch =>
            let c := c.skip 1
            if ch = letterU then
              match parseKeyHex 4 c 0 with
              | .error f => .error f
              | .ok none => .ok none
              | .ok (some (value, c)) =>
                  -- names beyond ASCII never match
                  let m := if 0x7f < value then { m with same := false } else m
                  parseKeyLoop rounds c (m.take (.ofNat value))
            else
              match keyEscape ch with
              | none => .ok none
              | some ch => parseKeyLoop rounds c (m.take ch)

def parseStringKey (c : JsonCursor) (key : Bytes) : Except Fault (Option (Bool × JsonCursor)) :=
  (expect (· == quote) c).orReturn none fun c => parseKeyLoop c.rounds c ⟨key, true⟩

theorem rest_skip_lt {c : JsonCursor} {b : UInt8} {r : Bytes} (rest : c.rest = b :: r) :
    (c.skip 1).rest.length < c.rest.length := by
  rw [rest_skip, rest]
  exact Nat.lt_succ_self _

def ReturnsOn {α : Type} (c : JsonCursor) (x : Except Fault (Option (α × JsonCursor))) : Prop :=
  ∃ read, x = .ok read ∧ ∀ a c', read = some (a, c') → c'.rest.length ≤ c.rest.length

section On
variable {α : Type} {c c' : JsonCursor}

theorem returnsOn_none : ReturnsOn (α := α) c (.ok none) :=
  ⟨none, rfl, nofun⟩

theorem returnsOn_some (a : α) (on : c'.rest.length ≤ c.rest.length) :
    ReturnsOn c (.ok (some (a, c'))) := by
  refine ⟨_, rfl, fun _ _ same => ?_⟩
  cases same
  exact on

theorem ReturnsOn.from {x : Except Fault (Option (α × JsonCursor))} (later : ReturnsOn c' x)
    (on : c'.rest.length ≤ c.rest.length) : ReturnsOn c x := by
  obtain ⟨read, same, on'⟩ := later
  exact ⟨read, same, fun a c'' found => (on' a c'' found).trans on⟩

theorem returnsOn_byte {use : UInt8 → Except Fault (Option (α × JsonCursor))}
    (go : ∀ b r, c.rest = b :: r → ReturnsOn c (use b)) : ReturnsOn c (c.orReturn none use) := by
  unfold JsonCursor.orReturn
  cases rest : c.rest with
  | nil =>
      rw [if_pos (atEnd_nil rest)]
      exact returnsOn_none
  | cons b r =>
      have here : c.s[c.i]? = some b := by
        rw [← List.head?_drop]
        exact congrArg List.head? rest
      rw [if_neg (by rw [atEnd_cons rest]; exact Bool.false_ne_true), here]
      exact go b r rest

end On

theorem parseKeyHex_returns (digits : Nat) (c : JsonCursor) (value : Nat) :
    ReturnsOn c (parseKeyHex digits c value) := by
  induction digits generalizing c value with
  | zero => exact returnsOn_some value (Nat.le_refl _)
  | succ digits ih =>
      refine returnsOn_byte fun b r rest => ?_
      split
      · exact returnsOn_none
      · exact (ih _ _).from (Nat.le_of_lt (rest_skip_lt rest))

theorem parseKeyLoop_returns {rounds : Nat} {c : JsonCursor} (enough : c.rest.length < rounds)
    (m : KeyMatch) : ReturnsOn c (parseKeyLoop rounds c m) := by
  induction rounds generalizing c m with
  | zero => exact absurd enough (Nat.not_lt_zero _)
  | succ rounds ih =>
      refine returnsOn_byte fun ch r rest => ?_
      have next := rest_skip_lt rest
      dsimp only
      split
      · exact returnsOn_some _ (Nat.le_of_lt next)
      split
      · exact returnsOn_none
      split
      · exact (ih (by omega) _).from (Nat.le_of_lt next)
      refine (returnsOn_byte fun ch r rest => ?_).from (Nat.le_of_lt next)
      have after := rest_skip_lt rest
      split
      · obtain ⟨read, same, on⟩ := parseKeyHex_returns 4 ((c.skip 1).skip 1) 0
        rw [same]
        cases read with
        | none => exact returnsOn_none
        | some found =>
            obtain ⟨value, c'⟩ := found
            have here := on value c' rfl
            exact (ih (by omega) _).from (by omega)
      split
      · exact returnsOn_none
      · exact (ih (by omega) _).from (Nat.le_of_lt after)

theorem parseStringKey_returns (c : JsonCursor) (key : Bytes) :
    ∃ read, parseStringKey c key = .ok read ∧
      ∀ same c', read = some (same, c') → c'.rest.length < c.rest.length := by
  unfold parseStringKey
  rcases expect_meets (· == quote) c with failed | ⟨c₁, done, b, -, took⟩
  · rw [failed]
    exact ⟨none, rfl, nofun⟩
  · rw [done]
    have length := took.length
    obtain ⟨read, same, on⟩ := parseKeyLoop_returns
      (show c₁.rest.length < c₁.rounds by rw [rounds_eq]; exact Nat.lt_succ_self _) ⟨key, true⟩
    refine ⟨read, same, fun a c' found => ?_⟩
    have := on a c' found
    rw [List.length_singleton] at length
    omega

/-! ### The getters -/

/-- What a getter returns: 0, -1, or 1 with the value. -/
inductive Got (α : Type) where
  | absent | invalid
  | value (a : α)
deriving DecidableEq

def JsonCursor.closes (c : JsonCursor) : Bool :=
  !c.atEnd && c.s[c.i]? == some rbrace

/-- The loop of `json_duplicate_key`. -/
def duplicateLoop (key : Bytes) : Nat → JsonCursor → Nat → Except Fault Bool
  | 0, _, _ => .error .exhausted
  | rounds + 1, c, count =>
      match parseStringKey c key with
      | .error f => .error f
      | .ok none => .ok false
      | .ok (some (same, c)) =>
          (skipWs c).orReturn false fun c =>
          (expect (· == colon) c).orReturn false fun c =>
          (skipWs c).orReturn false fun c =>
          let count := if same then count + 1 else count
          (parseValue (parseFuel c.s.length) c).orReturn false fun c =>
          (skipWs c).orReturn false fun c =>
          if c.closes then .ok (decide (1 < count))
          else
            (expect (· == comma) c).orReturn false fun c =>
            (skipWs c).orReturn false fun c => duplicateLoop key rounds c count

def jsonDuplicateKey (s key : Bytes) : Except Fault Bool :=
  (skipWs (.start s)).orReturn false fun c =>
  (expect (· == lbrace) c).orReturn false fun c =>
  (skipWs c).orReturn false fun c => duplicateLoop key c.rounds c 0

def boolLiteral (c : JsonCursor) : Except Fault (Option (Bool × JsonCursor)) :=
  let alone (value : Bool) (c : JsonCursor) : Except Fault (Option (Bool × JsonCursor)) :=
    if c.atEnd then .ok (some (value, c))
    else c.orReturn none fun b =>
      if JsonGrammar.isSpace b = false ∧ b ≠ comma ∧ b ≠ rbrace then .ok none else .ok (some (value, c))
  match literal trueText c with
  | .done c => alone true c
  | .fault f => .error f
  | .failed => (literal falseText c).orReturn none (alone false)

/-- The loop of `json_get_top_level_bool`. -/
def topLevelBoolLoop (key : Bytes) : Nat → JsonCursor → Option Bool → Except Fault (Got Bool)
  | 0, _, _ => .error .exhausted
  | rounds + 1, c, found =>
      let close (found : Option Bool) (c : JsonCursor) : Except Fault (Got Bool) :=
        (skipWs c).orReturn .invalid fun c =>
        if c.closes then
          .ok (match found with
            | some value => .value value
            | none => .absent)
        else
          (expect (· == comma) c).orReturn .invalid fun c =>
          (skipWs c).orReturn .invalid fun c => topLevelBoolLoop key rounds c found
      match parseStringKey c key with
      | .error f => .error f
      | .ok none => .ok .invalid
      | .ok (some (same, c)) =>
          (skipWs c).orReturn .invalid fun c =>
          (expect (· == colon) c).orReturn .invalid fun c =>
          (skipWs c).orReturn .invalid fun c =>
          if same then
            -- the name is ambiguous the second time
            if found.isSome then .ok .invalid
            else
              match boolLiteral c with
              | .error f => .error f
              | .ok none => .ok .invalid
              | .ok (some (value, c)) => close (some value) c
          else (parseValue (parseFuel c.s.length) c).orReturn .invalid (close found)

def jsonGetTopLevelBool (s key : Bytes) : Except Fault (Got Bool) :=
  (skipWs (.start s)).orReturn .absent fun c =>
  (expect (· == lbrace) c).orReturn .absent fun c =>
  (skipWs c).orReturn .invalid fun c =>
  if c.closes then .ok .absent else topLevelBoolLoop key c.rounds c none

/-- A text of `strtoll`. -/
def charsOf (p : Bytes) : CText :=
  p.map fun b => Char.ofNat b.toNat

/-- `none` is the error return. -/
def jsonGetInt64At (p : Bytes) : Option Int :=
  match CText.strtoll (charsOf p) with
  | none => none
  | some read =>
      if read.outOfRange then none
      else
        match read.rest with
        | [] => some read.value
        | c :: _ =>
            if CText.isSpace c ∨ c = ',' ∨ c = '}' then some read.value else none

def jsonGetInt64TopLevel (s key : Bytes) : Except Fault (Got Int) :=
  (findTopLevelKey (parseFuel s.length) s key).map fun found =>
    match found with
    | none => .absent
    | some p =>
        match jsonGetInt64At p with
        | none => .invalid
        | some value => .value value

/-- `*p` of a text that starts with something else than a bracket is -1, at its end too. -/
def jsonGetArrayTopLevel (s key : Bytes) : Except Fault (Got Bytes) :=
  match findTopLevelKey (parseFuel s.length) s key with
  | .error f => .error f
  | .ok none => .ok .absent
  | .ok (some p) =>
      if p.head? ≠ some lbracket then .ok .invalid
      else
        let start := s.length - p.length
        (parseArray (parseFuel s.length) { s := s, i := start, depth := 0 }).orReturn .invalid
          fun c => .ok (.value (p.take (c.i - start)))

/-! ### Every getter returns -/

section Returning
variable {c : JsonCursor}

theorem skipWs_on (c : JsonCursor) :
    (skipWs c).Meets fun c' => c'.rest.length ≤ c.rest.length :=
  (skipWs_meets c).imp fun _ ⟨_, _, took⟩ => by rw [took.length]; exact Nat.le_add_left _ _

theorem expect_on (p : UInt8 → Bool) (c : JsonCursor) :
    (expect p c).Meets fun c' => c'.rest.length < c.rest.length :=
  (expect_meets p c).imp fun _ ⟨_, _, took⟩ => by
    rw [took.length, List.length_singleton]
    omega

theorem parseValue_on {fuel : Nat} (enough : 3 * c.rest.length + 2 ≤ fuel) :
    (parseValue fuel c).Meets fun c' => c'.rest.length ≤ c.rest.length :=
  ((soundAt fuel).value c enough).imp fun _ ⟨_, _, _, _, took⟩ => by
    rw [took.length]
    exact Nat.le_add_left _ _

theorem rest_length_le (c : JsonCursor) : c.rest.length ≤ c.s.length := by
  rw [JsonCursor.rest, List.length_drop]
  exact Nat.sub_le _ _

theorem parseValue_fuelled (c : JsonCursor) :
    (parseValue (parseFuel c.s.length) c).Meets fun c' => c'.rest.length ≤ c.rest.length := by
  refine parseValue_on ?_
  have := rest_length_le c
  unfold parseFuel
  omega

theorem duplicateLoop_returns (key : Bytes) {rounds : Nat} (enough : c.rest.length < rounds)
    (count : Nat) : Returns (duplicateLoop key rounds c count) := by
  induction rounds generalizing c count with
  | zero => exact absurd enough (Nat.not_lt_zero _)
  | succ rounds ih =>
      obtain ⟨read, same, on⟩ := parseStringKey_returns c key
      rw [duplicateLoop, same]
      cases read with
      | none => exact returns_ok false
      | some named =>
          obtain ⟨matched, c₁⟩ := named
          have shorter := on matched c₁ rfl
          refine (skipWs_on c₁).orReturn false fun c₂ le₂ => ?_
          refine (expect_on _ c₂).orReturn false fun c₃ le₃ => ?_
          refine (skipWs_on c₃).orReturn false fun c₄ le₄ => ?_
          refine (parseValue_fuelled c₄).orReturn false fun c₅ le₅ => ?_
          refine (skipWs_on c₅).orReturn false fun c₆ le₆ => ?_
          split
          · exact returns_ok _
          · refine (expect_on _ c₆).orReturn false fun c₇ le₇ => ?_
            refine (skipWs_on c₇).orReturn false fun c₈ le₈ => ?_
            exact ih (by omega) _

theorem jsonDuplicateKey_returns (s key : Bytes) : Returns (jsonDuplicateKey s key) := by
  refine (skipWs_on _).orReturn false fun c₁ _ => ?_
  refine (expect_on _ c₁).orReturn false fun c₂ _ => ?_
  refine (skipWs_on c₂).orReturn false fun c₃ _ => ?_
  exact duplicateLoop_returns key (by rw [rounds_eq]; exact Nat.lt_succ_self _) 0

theorem boolLiteral_returns (c : JsonCursor) : ReturnsOn c (boolLiteral c) := by
  have alone (value : Bool) {c' : JsonCursor} (on : c'.rest.length ≤ c.rest.length) :
      ReturnsOn c (if c'.atEnd then .ok (some (value, c'))
        else c'.orReturn none fun b =>
          if JsonGrammar.isSpace b = false ∧ b ≠ comma ∧ b ≠ rbrace then .ok none
          else .ok (some (value, c'))) := by
    split
    · exact returnsOn_some value on
    · refine (returnsOn_byte fun b r _ => ?_).from on
      split
      · exact returnsOn_none
      · exact returnsOn_some value (Nat.le_refl _)
  have shorter {text : Bytes} {c' : JsonCursor} (took : Took c text c') :
      c'.rest.length ≤ c.rest.length := by
    rw [took.length]
    exact Nat.le_add_left _ _
  unfold boolLiteral
  rcases literal_meets trueText c with failed | ⟨c₁, done, took⟩
  · rw [failed]
    dsimp only
    rcases literal_meets falseText c with failed | ⟨c₁, done, took⟩
    · rw [failed]
      exact returnsOn_none
    · rw [done]
      exact alone false (shorter took)
  · rw [done]
    exact alone true (shorter took)

theorem topLevelBoolLoop_returns (key : Bytes) {rounds : Nat} (enough : c.rest.length < rounds)
    (found : Option Bool) : Returns (topLevelBoolLoop key rounds c found) := by
  induction rounds generalizing c found with
  | zero => exact absurd enough (Nat.not_lt_zero _)
  | succ rounds ih =>
      obtain ⟨read, same, on⟩ := parseStringKey_returns c key
      rw [topLevelBoolLoop, same]
      cases read with
      | none => exact returns_ok _
      | some named =>
          obtain ⟨matched, c₁⟩ := named
          have shorter := on matched c₁ rfl
          have close (found : Option Bool) (c : JsonCursor) (le : c.rest.length ≤ c₁.rest.length) :
              Returns ((skipWs c).orReturn (.invalid : Got Bool) fun c =>
                if c.closes then
                  .ok (match found with
                    | some value => .value value
                    | none => .absent)
                else
                  (expect (· == comma) c).orReturn .invalid fun c =>
                  (skipWs c).orReturn .invalid fun c => topLevelBoolLoop key rounds c found) := by
            refine (skipWs_on c).orReturn _ fun c₂ le₂ => ?_
            split
            · exact returns_ok _
            · refine (expect_on _ c₂).orReturn _ fun c₃ le₃ => ?_
              refine (skipWs_on c₃).orReturn _ fun c₄ le₄ => ?_
              exact ih (by omega) _
          refine (skipWs_on c₁).orReturn _ fun c₂ le₂ => ?_
          refine (expect_on _ c₂).orReturn _ fun c₃ le₃ => ?_
          refine (skipWs_on c₃).orReturn _ fun c₄ le₄ => ?_
          split
          · split
            · exact returns_ok _
            · obtain ⟨read, same, on⟩ := boolLiteral_returns c₄
              rw [same]
              cases read with
              | none => exact returns_ok _
              | some literal =>
                  obtain ⟨value, c₅⟩ := literal
                  have le₅ := on value c₅ rfl
                  exact close _ _ (by omega)
          · exact (parseValue_fuelled c₄).orReturn _ fun c₅ le₅ => close _ _ (by omega)

theorem jsonGetTopLevelBool_returns (s key : Bytes) : Returns (jsonGetTopLevelBool s key) := by
  refine (skipWs_on _).orReturn _ fun c₁ _ => ?_
  refine (expect_on _ c₁).orReturn _ fun c₂ _ => ?_
  refine (skipWs_on c₂).orReturn _ fun c₃ _ => ?_
  split
  · exact returns_ok _
  · exact topLevelBoolLoop_returns key (by rw [rounds_eq]; exact Nat.lt_succ_self _) none

theorem parseString_on (c : JsonCursor) :
    (parseString c).Meets fun c' => c'.rest.length < c.rest.length := by
  refine (parseString_meets c).imp fun c' ⟨t, str, took⟩ => ?_
  cases str with
  | quoted body =>
      rw [took.length, List.length_cons]
      omega

theorem topLevelLoop_returns (key : Bytes) {fuel : Nat} (enough : 3 * c.rest.length + 3 ≤ fuel) :
    Returns (topLevelLoop key fuel c) := by
  induction fuel generalizing c with
  | zero => exact absurd enough (by omega)
  | succ fuel ih =>
      refine (skipWs_on c).orNull fun c₁ le₁ => ?_
      refine (parseString_on c₁).orNull fun c₂ le₂ => ?_
      refine (skipWs_on c₂).orNull fun c₃ le₃ => ?_
      refine (expect_on _ c₃).orNull fun c₄ le₄ => ?_
      refine (skipWs_on c₄).orNull fun c₅ le₅ => ?_
      split
      · exact returns_ok _
      · refine (parseValue_on (by omega)).orNull fun c₆ le₆ => ?_
        refine (skipWs_on c₆).orNull fun c₇ le₇ => ?_
        split
        · exact returns_ok _
        split
        · exact returns_ok _
        · exact (expect_on _ c₇).orNull fun c₈ le₈ => ih (by omega)

theorem findTopLevelKey_returns (s key : Bytes) :
    Returns (findTopLevelKey (parseFuel s.length) s key) := by
  refine (skipWs_on _).orNull fun c₁ le₁ => ?_
  refine (expect_on _ c₁).orNull fun c₂ le₂ => ?_
  rw [rest_start] at le₁
  exact topLevelLoop_returns key (by unfold parseFuel; omega)

theorem jsonGetInt64TopLevel_returns (s key : Bytes) : Returns (jsonGetInt64TopLevel s key) := by
  obtain ⟨found, same⟩ := findTopLevelKey_returns s key
  unfold jsonGetInt64TopLevel
  rw [same]
  exact returns_ok _

theorem jsonGetStringTopLevel_returns (s key : Bytes) (z : Nat) :
    Returns (jsonGetStringTopLevel (parseFuel s.length) s key z) := by
  obtain ⟨found, same⟩ := findTopLevelKey_returns s key
  unfold jsonGetStringTopLevel
  rw [same]
  exact returns_ok _

end Returning
end LibreEcho.Json

/-!
The getters of `json.c` for numbers and booleans that search the whole text for the key.

`int` and `long` hold 32 bits: the device is an armv7.
-/
namespace LibreEcho.Json
open JsonGrammar ByteText

def longMin : Int := -2 ^ 31
def longMax : Int := 2 ^ 31 - 1

/-- `strtol` stops at the ends of its type. -/
def clampLong (n : Int) : Int :=
  max longMin (min longMax n)

def jsonGetInt (s k : Bytes) : Got Int :=
  match findKey s k with
  | none => .absent
  | some p =>
      match CText.readNumber (charsOf p) with
      | none => .invalid
      | some n => .value (clampLong (if n.negative then -n.magnitude else n.magnitude))

end LibreEcho.Json
