import LibreEcho.Lib.ByteText
import LibreEcho.Lib.JsonGrammar
import Mathlib

/-!
Flat JSON objects as they are written, and where a quoted word is first found in one.

The members hold strings, integers and booleans. In a string a quotation mark and a backslash
are written behind a backslash, a slash may be. So a quoted word is found in a string exactly
when the string is the word, or ends in a quotation mark and the word: the mark that closes the
string closes the word.
-/
namespace FlatObject
open JsonGrammar ByteText

/-! ### Strings -/

/-- A byte of a string, and whether it is written behind a backslash. -/
structure Letter where
  byte : UInt8
  marked : Bool
  printable : 0x20 ≤ byte
  escapes : marked = true → byte = quote ∨ byte = backslash ∨ byte = slash
  plain : marked = false → byte ≠ quote ∧ byte ≠ backslash

def Letter.raw (l : Letter) : Bytes :=
  if l.marked then [backslash, l.byte] else [l.byte]

abbrev Text := List Letter

def rawText (t : Text) : Bytes :=
  t.flatMap Letter.raw

def decoded (t : Text) : Bytes :=
  t.map Letter.byte

def quoted (t : Text) : Bytes :=
  quote :: (rawText t ++ [quote])

def letter? (b : UInt8) : Option Letter :=
  if printable : 0x20 ≤ b then
    if special : b = quote ∨ b = backslash then
      some ⟨b, true, printable, fun _ => special.imp id .inl, nofun⟩
    else some ⟨b, false, printable, nofun, fun _ => not_or.mp special⟩
  else none

def spelled (s : Bytes) : Text :=
  s.filterMap letter?

/-! ### Words -/

def isWord (b : UInt8) : Bool :=
  (0x30 ≤ b && b ≤ 0x39) || (0x41 ≤ b && b ≤ 0x5a) || (0x61 ≤ b && b ≤ 0x7a) || b == 0x5f

def Word (k : Bytes) : Prop :=
  k ≠ [] ∧ ∀ b ∈ k, isWord b = true

instance (k : Bytes) : Decidable (Word k) :=
  inferInstanceAs (Decidable (_ ∧ _))

def needle (k : Bytes) : Bytes :=
  quote :: (k ++ [quote])

/-- The text is the word, or ends in a quotation mark and the word. -/
def Shows (k : Bytes) (t : Text) : Prop :=
  quote :: k <:+ quote :: decoded t

instance (k : Bytes) (t : Text) : Decidable (Shows k t) :=
  inferInstanceAs (Decidable (_ <:+ _))

section Words
variable {k : Bytes} {t : Text}

theorem word_ne_quote (b : UInt8) (word : isWord b = true) : b ≠ quote := by
  rintro rfl
  exact absurd word (by decide)

theorem Letter.word (l : Letter) (word : isWord l.byte = true) : l.marked = false := by
  cases marked : l.marked with
  | false => rfl
  | true =>
      rcases l.escapes marked with same | same | same
      · rw [same] at word
        exact absurd word (by decide)
      · rw [same] at word
        exact absurd word (by decide)
      · rw [same] at word
        exact absurd word (by decide)

theorem rawText_word (words : ∀ b ∈ decoded t, isWord b = true) : rawText t = decoded t := by
  induction t with
  | nil => rfl
  | cons l t ih =>
      have first := l.word (words l.byte List.mem_cons_self)
      have later := ih fun b inside => words b (List.mem_cons_of_mem _ inside)
      rw [rawText, List.flatMap_cons, Letter.raw, first]
      exact congrArg (l.byte :: ·) later

theorem word_front (words : ∀ b ∈ k, isWord b = true) (rest : Bytes) :
    k ++ [quote] <+: rawText t ++ quote :: rest ↔ decoded t = k := by
  induction t generalizing k with
  | nil =>
      cases k with
      | nil => exact iff_of_true ⟨rest, rfl⟩ rfl
      | cons b k =>
          refine iff_of_false (fun starts => ?_) nofun
          exact word_ne_quote b (words b List.mem_cons_self) (List.cons_prefix_cons.mp starts).1
  | cons l t ih =>
      rw [rawText, List.flatMap_cons, Letter.raw]
      cases marked : l.marked with
      | true =>
          refine iff_of_false (fun starts => ?_) fun same => ?_
          · cases k with
            | nil => exact absurd (List.cons_prefix_cons.mp starts).1 (by decide)
            | cons b k =>
                have escape := (List.cons_prefix_cons.mp starts).1
                have word := words b List.mem_cons_self
                rw [escape] at word
                exact absurd word (by decide)
          · rw [← same] at words
            have plain := l.word (words l.byte List.mem_cons_self)
            exact Bool.noConfusion (marked.symm.trans plain)
      | false =>
          cases k with
          | nil =>
              refine iff_of_false (fun starts => ?_) nofun
              exact (l.plain marked).1 (List.cons_prefix_cons.mp starts).1.symm
          | cons b k =>
              have later := ih fun c inside => words c (List.mem_cons_of_mem _ inside)
              rw [List.cons_append, if_neg Bool.false_ne_true, List.singleton_append,
                List.cons_append, List.cons_prefix_cons, decoded, List.map_cons, List.cons.injEq]
              exact and_congr eq_comm later

theorem strstr_gap {gap : Bytes} (free : quote ∉ gap) (rest : Bytes) :
    strstr (needle k) (gap ++ rest) = strstr (needle k) rest := by
  induction gap with
  | nil => rfl
  | cons b gap ih =>
      rw [List.mem_cons, not_or] at free
      have other : ¬ needle k <+: b :: (gap ++ rest) := fun starts =>
        free.1 (List.cons_prefix_cons.mp starts).1
      rw [List.cons_append, strstr_later other]
      exact ih free.2

def Stops (rest : Bytes) : Prop :=
  ∀ b ∈ rest.head?, isWord b = false

theorem strstr_body (word : Word k) {rest : Bytes} (stops : Stops rest) :
    strstr (needle k) (rawText t ++ quote :: rest) =
      if quote :: k <:+ decoded t then some (needle k ++ rest) else strstr (needle k) rest := by
  induction t with
  | nil =>
      have absent : ¬ quote :: k <:+ [] := fun ends =>
        absurd (List.suffix_nil.mp ends) (List.cons_ne_nil _ _)
      have later : ¬ needle k <+: quote :: rest := by
        intro starts
        have starts := (List.cons_prefix_cons.mp starts).2
        cases k with
        | nil => exact word.1 rfl
        | cons b k =>
            obtain ⟨tail, same⟩ := starts
            have first : b ∈ rest.head? := by
              rw [← same]
              rfl
            have no := stops b first
            rw [word.2 b List.mem_cons_self] at no
            exact nomatch no
      rw [decoded, List.map_nil, if_neg absent]
      exact strstr_later later
  | cons l t ih =>
      have inner : quote :: k <:+ l.byte :: decoded t ↔
          (l.byte = quote ∧ decoded t = k) ∨ quote :: k <:+ decoded t := by
        rw [List.suffix_cons_iff, List.cons.injEq]
        exact or_congr (and_congr eq_comm eq_comm) .rfl
      rw [rawText, List.flatMap_cons, Letter.raw, decoded, List.map_cons]
      change _ = if quote :: k <:+ l.byte :: decoded t then _ else _
      cases marked : l.marked with
      | false =>
          obtain ⟨notQuote, -⟩ := l.plain marked
          have same : quote :: k <:+ l.byte :: decoded t ↔ quote :: k <:+ decoded t :=
            inner.trans (or_iff_right fun both => notQuote both.1)
          rw [if_congr same rfl rfl, ← ih, if_neg Bool.false_ne_true, List.singleton_append,
            List.cons_append]
          exact strstr_later fun starts => notQuote (List.cons_prefix_cons.mp starts).1.symm
      | true =>
          have escape : strstr (needle k) (([backslash, l.byte] ++ rawText t) ++ quote :: rest) =
              strstr (needle k) (l.byte :: (rawText t ++ quote :: rest)) :=
            strstr_later fun starts =>
              absurd (List.cons_prefix_cons.mp starts).1 (by decide : quote ≠ backslash)
          rw [if_pos rfl]
          refine escape.trans ?_
          by_cases here : l.byte = quote ∧ decoded t = k
          · rw [if_pos (inner.mpr (.inl here)), here.1]
            have raw : rawText t = k := by
              rw [rawText_word (by rw [here.2]; exact word.2), here.2]
            have text : quote :: (rawText t ++ quote :: rest) = needle k ++ rest := by
              rw [raw, needle, List.cons_append, List.append_assoc]
              rfl
            rw [text]
            exact strstr_here rest
          · have same : quote :: k <:+ l.byte :: decoded t ↔ quote :: k <:+ decoded t :=
              inner.trans (or_iff_right here)
            rw [if_congr same rfl rfl, ← ih]
            refine strstr_later fun starts => here ?_
            obtain ⟨first, later⟩ := List.cons_prefix_cons.mp starts
            exact ⟨first.symm, (word_front word.2 rest).mp later⟩

theorem strstr_quoted (word : Word k) {rest : Bytes} (stops : Stops rest) :
    strstr (needle k) (quoted t ++ rest) =
      if Shows k t then some (needle k ++ rest) else strstr (needle k) rest := by
  have text : quoted t ++ rest = quote :: (rawText t ++ quote :: rest) := by
    rw [quoted, List.cons_append, List.append_assoc]
    rfl
  have outer : Shows k t ↔ decoded t = k ∨ quote :: k <:+ decoded t := by
    rw [Shows, List.suffix_cons_iff, List.cons.injEq]
    exact or_congr ((and_iff_right rfl).trans eq_comm) .rfl
  rw [text]
  by_cases whole : decoded t = k
  · have raw : rawText t = k := by
      rw [rawText_word (by rw [whole]; exact word.2), whole]
    have found : quote :: (rawText t ++ quote :: rest) = needle k ++ rest := by
      rw [raw, needle, List.cons_append, List.append_assoc]
      rfl
    rw [if_pos (outer.mpr (.inl whole)), found]
    exact strstr_here rest
  · rw [if_congr (outer.trans (or_iff_right whole)) rfl rfl, ← strstr_body word stops]
    refine strstr_later fun starts => whole ?_
    exact (word_front word.2 rest).mp (List.cons_prefix_cons.mp starts).2

end Words

/-! ### Members -/

structure Gap where
  bytes : Bytes
  spaces : Spaces bytes

inductive Value where
  | string (t : Text)
  /-- A sign and a number: minus zero is written as such. -/
  | integer (negative : Bool) (magnitude : Nat)
  | boolean (b : Bool)

def Value.raw : Value → Bytes
  | .string t => quoted t
  | .integer negative magnitude => (if negative then [minus] else []) ++ decimal magnitude
  | .boolean b => if b then trueText else falseText

/-- What a value stands for. -/
inductive Meaning where
  | text (s : Bytes)
  | number (n : Int)
  | flag (b : Bool)
deriving DecidableEq

def Value.meaning : Value → Meaning
  | .string t => .text (decoded t)
  | .integer negative magnitude => .number (if negative then -magnitude else magnitude)
  | .boolean b => .flag b

/-- A name and a value, with the white space before and behind each of them. -/
structure Member where
  before : Gap
  name : Text
  named : Gap
  opened : Gap
  value : Value
  ended : Gap

def Member.text (m : Member) (rest : Bytes) : Bytes :=
  m.before.bytes ++ (quoted m.name ++ (m.named.bytes ++
    colon :: (m.opened.bytes ++ (m.value.raw ++ (m.ended.bytes ++ rest)))))

structure Object where
  lead : Gap
  /-- What stands between the braces of an object without members. -/
  hollow : Gap
  members : List Member
  trail : Gap

def following (trail : Gap) : List Member → Bytes
  | [] => rbrace :: trail.bytes
  | m :: later => comma :: m.text (following trail later)

def Object.text (o : Object) : Bytes :=
  o.lead.bytes ++ lbrace :: (match o.members with
    | [] => o.hollow.bytes ++ following o.trail []
    | m :: later => m.text (following o.trail later))

def find (k : Bytes) : List Member → Option Meaning
  | [] => none
  | m :: later => if decoded m.name = k then some m.value.meaning else find k later

/-- The first string that shows a word: none, a value, or the name of a member. -/
inductive Shown where
  | nowhere
  | value
  | name (v : Value)

def Value.Shows (k : Bytes) : Value → Prop
  | .string t => FlatObject.Shows k t
  | .integer _ _ | .boolean _ => False

instance (k : Bytes) (v : Value) : Decidable (v.Shows k) :=
  match v with
  | .string t => inferInstanceAs (Decidable (FlatObject.Shows k t))
  | .integer _ _ | .boolean _ => isFalse id

def firstShown (k : Bytes) : List Member → Shown
  | [] => .nowhere
  | m :: later =>
      if Shows k m.name then .name m.value
      else if m.value.Shows k then .value
      else firstShown k later

/-! ### Where a word is found -/

theorem gap_free (gap : Gap) : quote ∉ gap.bytes := fun inside =>
  absurd (gap.spaces quote inside) (by decide)

theorem gap_stops (gap : Gap) {rest : Bytes} (stops : Stops rest) : Stops (gap.bytes ++ rest) := by
  intro b first
  cases bytes : gap.bytes with
  | nil =>
      rw [bytes] at first
      exact stops b first
  | cons c bytes' =>
      rw [bytes] at first
      obtain rfl : c = b := Option.some.inj first
      have space := gap.spaces c (by rw [bytes]; exact List.mem_cons_self)
      cases word : isWord c with
      | false => rfl
      | true =>
          simp only [JsonGrammar.isSpace, Bool.or_eq_true, beq_iff_eq] at space
          rcases space with ((rfl | rfl) | rfl) | rfl <;> exact absurd word (by decide)

theorem following_stops (trail : Gap) (later : List Member) : Stops (following trail later) := by
  intro b first
  cases later with
  | nil =>
      obtain rfl : rbrace = b := Option.some.inj first
      decide
  | cons m later =>
      obtain rfl : comma = b := Option.some.inj first
      decide

theorem decimal_free (n : Nat) : quote ∉ decimal n := fun inside =>
  absurd (decimal_isDigit inside) (by decide)

/-- After a value comes the next member or the end, never a colon. -/
structure AfterValue (p : Bytes) (gap : Gap) (c : UInt8) (tail : Bytes) : Prop where
  text : p = gap.bytes ++ c :: tail
  closes : c = comma ∨ c = rbrace

/-- After a name come the colon, the value and what follows it. -/
structure AfterName (p : Bytes) (v : Value) (named opened ended : Gap) (c : UInt8) (tail : Bytes) :
    Prop where
  text : p = named.bytes ++ colon :: (opened.bytes ++ (v.raw ++ (ended.bytes ++ c :: tail)))
  closes : c = comma ∨ c = rbrace

def Finds (k s : Bytes) : Shown → Prop
  | .nowhere => strstr (needle k) s = none
  | .value => ∃ p gap c tail, strstr (needle k) s = some (needle k ++ p) ∧ AfterValue p gap c tail
  | .name v => ∃ p named opened ended c tail, strstr (needle k) s = some (needle k ++ p) ∧
      AfterName p v named opened ended c tail

theorem Finds.congr {k s s' : Bytes} {shown : Shown}
    (same : strstr (needle k) s = strstr (needle k) s') (finds : Finds k s' shown) :
    Finds k s shown := by
  cases shown with
  | nowhere => exact same.trans finds
  | value =>
      obtain ⟨p, gap, c, tail, found, after⟩ := finds
      exact ⟨p, gap, c, tail, same.trans found, after⟩
  | name v =>
      obtain ⟨p, named, opened, ended, c, tail, found, after⟩ := finds
      exact ⟨p, named, opened, ended, c, tail, same.trans found, after⟩

theorem following_closes (trail : Gap) (later : List Member) :
    ∃ c tail, following trail later = c :: tail ∧ (c = comma ∨ c = rbrace) := by
  cases later with
  | nil => exact ⟨_, _, rfl, .inr rfl⟩
  | cons m later => exact ⟨_, _, rfl, .inl rfl⟩

section Search
variable {k : Bytes} (word : Word k)
include word

theorem strstr_value (v : Value) {rest : Bytes} (stops : Stops rest) :
    strstr (needle k) (v.raw ++ rest) =
      if v.Shows k then some (needle k ++ rest) else strstr (needle k) rest := by
  cases v with
  | string t => exact strstr_quoted word stops
  | integer negative magnitude =>
      rw [if_neg (show ¬ Value.Shows k (.integer negative magnitude) from id)]
      refine strstr_gap ?_ rest
      rw [Value.raw, List.mem_append, not_or]
      refine ⟨?_, decimal_free magnitude⟩
      cases negative with
      | false => exact List.not_mem_nil
      | true => decide
  | boolean b =>
      rw [if_neg (show ¬ Value.Shows k (.boolean b) from id)]
      refine strstr_gap ?_ rest
      cases b with
      | false => decide
      | true => decide

theorem finds_member (m : Member) {trail : Gap} {later : List Member}
    (finds : Finds k (following trail later) (firstShown k later)) :
    Finds k (m.text (following trail later)) (firstShown k (m :: later)) := by
  obtain ⟨c, tail, close, closes⟩ := following_closes trail later
  have ends : Stops (m.ended.bytes ++ following trail later) :=
    gap_stops m.ended (following_stops trail later)
  have stops : Stops (m.named.bytes ++
      colon :: (m.opened.bytes ++ (m.value.raw ++ (m.ended.bytes ++ following trail later)))) := by
    refine gap_stops m.named fun b first => ?_
    obtain rfl : colon = b := Option.some.inj first
    decide
  have name := strstr_quoted (t := m.name) word stops
  have value : strstr (needle k) (m.named.bytes ++
      colon :: (m.opened.bytes ++ (m.value.raw ++ (m.ended.bytes ++ following trail later)))) =
      if m.value.Shows k then some (needle k ++ (m.ended.bytes ++ following trail later))
      else strstr (needle k) (following trail later) := by
    have separator : quote ∉ [colon] := by decide
    rw [strstr_gap (gap_free m.named)]
    have past := strstr_gap (k := k) separator
      (m.opened.bytes ++ (m.value.raw ++ (m.ended.bytes ++ following trail later)))
    rw [List.singleton_append] at past
    rw [past, strstr_gap (gap_free m.opened), strstr_value word m.value ends,
      strstr_gap (gap_free m.ended)]
  have start : strstr (needle k) (m.text (following trail later)) = _ :=
    (strstr_gap (gap_free m.before) _).trans name
  rw [firstShown]
  by_cases byName : Shows k m.name
  · rw [if_pos byName] at start ⊢
    refine ⟨_, m.named, m.opened, m.ended, c, tail, start, ?_, closes⟩
    rw [close]
  · rw [if_neg byName, value] at start
    rw [if_neg byName]
    by_cases byValue : m.value.Shows k
    · rw [if_pos byValue] at start ⊢
      refine ⟨_, m.ended, c, tail, start, ?_, closes⟩
      rw [close]
    · rw [if_neg byValue] at start ⊢
      exact finds.congr start

theorem finds_following (trail : Gap) (members : List Member) :
    Finds k (following trail members) (firstShown k members) := by
  induction members with
  | nil =>
      have free : quote ∉ rbrace :: trail.bytes := by
        rw [List.mem_cons, not_or]
        exact ⟨by decide, gap_free trail⟩
      have none := strstr_gap (k := k) free []
      rw [List.append_nil] at none
      exact none
  | cons m later ih =>
      have separator : quote ∉ [comma] := by decide
      exact (finds_member word m ih).congr (strstr_gap separator _)

theorem Object.finds (o : Object) : Finds k o.text (firstShown k o.members) := by
  have opening : quote ∉ [lbrace] := by decide
  have start (rest : Bytes) : strstr (needle k) (o.lead.bytes ++ lbrace :: rest) =
      strstr (needle k) rest :=
    (strstr_gap (gap_free o.lead) _).trans (strstr_gap opening rest)
  rw [Object.text]
  cases o.members with
  | nil =>
      refine Finds.congr (start _) ?_
      exact (finds_following word o.trail []).congr (strstr_gap (gap_free o.hollow) _)
  | cons m later =>
      refine Finds.congr (start _) ?_
      exact finds_member word m (finds_following word o.trail later)

end Search

theorem find_nowhere {k : Bytes} {members : List Member} (none : firstShown k members = .nowhere) :
    find k members = Option.none := by
  induction members with
  | nil => rfl
  | cons m later ih =>
      rw [firstShown] at none
      split at none
      · exact nomatch none
      case isFalse hidden =>
          split at none
          · exact nomatch none
          have other : decoded m.name ≠ k := by
            intro same
            refine hidden ?_
            rw [Shows, same]
          rw [find, if_neg other]
          exact ih none

end FlatObject
