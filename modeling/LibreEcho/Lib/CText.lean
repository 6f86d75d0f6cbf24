import Mathlib

/-!
C strings as lists of characters, with the parts of the C library that read and
write decimal numbers and lines.

A number written in decimal is read back by `strtoll` and by `strtoul`, whatever
follows it that is not a digit. A text made of terminated lines is cut back into
these lines.
-/

abbrev CText := List Char

namespace CText

instance lawful : LawfulBEq CText :=
  inferInstanceAs (LawfulBEq (List Char))

/-- The string that starts a buffer: it ends at the first NUL. -/
def ofBuffer (buffer : List Char) : CText :=
  buffer.takeWhile (· ≠ '\x00')

/-- `isspace` in the C locale. -/
def isSpace (c : Char) : Bool :=
  c == ' ' || c == '\t' || c == '\n' || c == '\x0b' || c == '\x0c' || c == '\r'

def skipSpace (s : CText) : CText :=
  s.dropWhile isSpace

theorem forall_mem {P : Char → Prop} [DecidablePred P] {s : CText}
    (all : (s.all fun c => decide (P c)) = true) : ∀ c ∈ s, P c :=
  fun c member => of_decide_eq_true (List.all_eq_true.mp all c member)

/-! ### Cutting a text -/

/-- The non-empty pieces between separators, as `strtok_r` returns them. -/
def tokens (sep : Char) (s : CText) : List CText :=
  (s.splitOn sep).filter (· ≠ [])

theorem tokens_nil (sep : Char) : tokens sep [] = [] := by
  simp [tokens]

theorem tokens_append (sep : Char) (word rest : CText) (free : sep ∉ word)
    (filled : word ≠ []) : tokens sep (word ++ sep :: rest) = word :: tokens sep rest := by
  rw [tokens, List.splitOn_append_cons_self_of_not_mem free, List.filter_cons_of_pos (by simpa)]
  rfl

/-- Every line followed by `sep`. -/
def terminated (sep : Char) (lines : List CText) : CText :=
  lines.flatMap (· ++ [sep])

theorem tokens_terminated (sep : Char) (lines : List CText)
    (cut : ∀ line ∈ lines, sep ∉ line ∧ line ≠ []) :
    tokens sep (terminated sep lines) = lines := by
  induction lines with
  | nil => exact tokens_nil sep
  | cons line rest ih =>
      obtain ⟨free, filled⟩ := cut line List.mem_cons_self
      have split : terminated sep (line :: rest) = line ++ sep :: terminated sep rest := by
        simp [terminated]
      rw [split, tokens_append sep line _ free filled,
        ih (fun line member => cut line (List.mem_cons_of_mem _ member))]

/-- The text before the first `sep` and what follows it, as `strchr` finds it. -/
def cutAt (sep : Char) (s : CText) : Option (CText × CText) :=
  match s.dropWhile (· ≠ sep) with
  | [] => none
  | _ :: rest => some (s.takeWhile (· ≠ sep), rest)

theorem cutAt_append (sep : Char) (key value : CText) (free : sep ∉ key) :
    cutAt sep (key ++ sep :: value) = some (key, value) := by
  have other : ∀ c ∈ key, (decide (c ≠ sep)) = true := by
    intro c member
    exact decide_eq_true (fun same => free (same ▸ member))
  rw [cutAt, List.dropWhile_append_of_pos other, List.takeWhile_append_of_pos other]
  simp

theorem cutAt_some {sep : Char} {s key value : CText} (cut : cutAt sep s = some (key, value)) :
    s = key ++ sep :: value ∧ sep ∉ key := by
  unfold cutAt at cut
  split at cut
  case h_1 => cases cut
  case h_2 found rest left =>
    obtain ⟨rfl, rfl⟩ := Prod.mk.inj (Option.some.inj cut)
    have stop : found = sep := by
      have head := List.head?_dropWhile_not (· ≠ sep) s
      rw [left] at head
      simpa using head
    refine ⟨?_, fun member => ?_⟩
    · rw [stop] at left
      rw [← left, List.takeWhile_append_dropWhile]
    · have other := List.mem_takeWhile_imp member
      simp at other

/-- One line, its newline included, but at most `room` characters of it; and the
rest of the text. -/
def readLine : Nat → CText → CText × CText
  | 0, s => ([], s)
  | _ + 1, [] => ([], [])
  | room + 1, c :: s =>
      if c = '\n' then ([c], s)
      else (c :: (readLine room s).1, (readLine room s).2)

def readLinesFrom : Nat → Nat → CText → List CText
  | 0, _, _ => []
  | _ + 1, _, [] => []
  | fuel + 1, room, c :: s =>
      (readLine room (c :: s)).1 :: readLinesFrom fuel room (readLine room (c :: s)).2

/-- What repeated `fgets` calls on a buffer of `size` bytes return. -/
def readLines (size : Nat) (s : CText) : List CText :=
  readLinesFrom s.length (size - 1) s

theorem readLine_append {room : Nat} {line : CText} (free : '\n' ∉ line)
    (fits : line.length < room) (rest : CText) :
    readLine room (line ++ '\n' :: rest) = (line ++ ['\n'], rest) := by
  induction line generalizing room with
  | nil =>
      obtain ⟨n, rfl⟩ := Nat.exists_eq_add_of_lt fits
      simp [readLine]
  | cons c line ih =>
      cases room with
      | zero => exact absurd fits (Nat.not_lt_zero _)
      | succ room =>
          have other : c ≠ '\n' := fun same => free (same ▸ List.mem_cons_self)
          have later := ih (fun member => free (List.mem_cons_of_mem _ member))
            (Nat.lt_of_succ_lt_succ fits)
          rw [List.cons_append, readLine, if_neg other, later]
          rfl

theorem readLine_last {room : Nat} {line : CText} (free : '\n' ∉ line)
    (fits : line.length ≤ room) : readLine room line = (line, []) := by
  induction line generalizing room with
  | nil => cases room <;> rfl
  | cons c line ih =>
      cases room with
      | zero => exact absurd fits (Nat.not_succ_le_zero _)
      | succ room =>
          have other : c ≠ '\n' := fun same => free (same ▸ List.mem_cons_self)
          have later := ih (fun member => free (List.mem_cons_of_mem _ member))
            (Nat.le_of_succ_le_succ fits)
          rw [readLine, if_neg other, later]

theorem readLinesFrom_append {size : Nat} {lines : List CText}
    (cut : ∀ line ∈ lines, '\n' ∉ line ∧ line.length < size) {fuel : Nat}
    (enough : lines.length ≤ fuel) (rest : CText) :
    readLinesFrom fuel size (terminated '\n' lines ++ rest) =
      lines.map (· ++ ['\n']) ++ readLinesFrom (fuel - lines.length) size rest := by
  induction lines generalizing fuel with
  | nil => rfl
  | cons line more ih =>
      cases fuel with
      | zero => exact absurd enough (Nat.not_succ_le_zero _)
      | succ fuel =>
          obtain ⟨free, fits⟩ := cut line List.mem_cons_self
          have split : terminated '\n' (line :: more) ++ rest =
              line ++ '\n' :: (terminated '\n' more ++ rest) := by
            simp [terminated]
          have first := readLine_append free fits (terminated '\n' more ++ rest)
          have later := ih (fun line member => cut line (List.mem_cons_of_mem _ member))
            (Nat.le_of_succ_le_succ enough)
          rw [split, List.map_cons, List.length_cons, Nat.succ_sub_succ, List.cons_append, ← later]
          cases whole : line ++ '\n' :: (terminated '\n' more ++ rest) with
          | nil => simp at whole
          | cons c s => rw [readLinesFrom, ← whole, first]

theorem length_le_terminated (lines : List CText) :
    lines.length ≤ (terminated '\n' lines).length := by
  induction lines with
  | nil => exact Nat.zero_le _
  | cons line rest ih =>
      have longer : (terminated '\n' (line :: rest)).length =
          line.length + 1 + (terminated '\n' rest).length := by
        simp only [terminated, List.flatMap_cons, List.length_append, List.length_cons,
          List.length_nil]
      rw [longer, List.length_cons]
      omega

theorem readLines_append {size : Nat} {lines : List CText}
    (cut : ∀ line ∈ lines, '\n' ∉ line ∧ line.length < size - 1) (rest : CText) :
    ∃ fuel, rest.length ≤ fuel ∧ readLines size (terminated '\n' lines ++ rest) =
      lines.map (· ++ ['\n']) ++ readLinesFrom fuel (size - 1) rest := by
  have enough := length_le_terminated lines
  rw [readLines, List.length_append]
  refine ⟨_, ?_, readLinesFrom_append cut (Nat.le_add_right_of_le enough) rest⟩
  omega

theorem readLine_mem {room : Nat} {s : CText} {c : Char} :
    (c ∈ (readLine room s).1 → c ∈ s) ∧ (c ∈ (readLine room s).2 → c ∈ s) := by
  induction room generalizing s with
  | zero => exact ⟨(fun member => by cases member), id⟩
  | succ room ih =>
      cases s with
      | nil => exact ⟨id, id⟩
      | cons d s =>
          rw [readLine]
          split
          case isTrue =>
            exact ⟨fun member => (List.mem_singleton.mp member) ▸ List.mem_cons_self,
              List.mem_cons_of_mem d⟩
          case isFalse =>
            refine ⟨fun member => ?_, fun member => List.mem_cons_of_mem d (ih.2 member)⟩
            obtain rfl | member := List.mem_cons.mp member
            · exact List.mem_cons_self
            · exact List.mem_cons_of_mem d (ih.1 member)

theorem readLinesFrom_mem {fuel room : Nat} {s line : CText} {c : Char}
    (member : line ∈ readLinesFrom fuel room s) (inside : c ∈ line) : c ∈ s := by
  induction fuel generalizing s with
  | zero => cases member
  | succ fuel ih =>
      cases s with
      | nil => cases member
      | cons d s =>
          rw [readLinesFrom] at member
          obtain rfl | member := List.mem_cons.mp member
          · exact readLine_mem.1 inside
          · exact readLine_mem.2 (ih member)

theorem readLines_terminated {size : Nat} {lines : List CText}
    (cut : ∀ line ∈ lines, '\n' ∉ line ∧ line.length < size - 1) :
    readLines size (terminated '\n' lines) = lines.map (· ++ ['\n']) := by
  obtain ⟨fuel, -, read⟩ := readLines_append cut []
  rw [List.append_nil] at read
  rw [read]
  cases fuel <;> exact List.append_nil _

/-! ### Decimal numbers -/

def decimal (n : Nat) : CText :=
  Nat.toDigits 10 n

def decimalInt : Int → CText
  | .ofNat n => decimal n
  | .negSucc n => '-' :: decimal (n + 1)

/-- A sign and digits at the start of a text, and what follows them. -/
structure Number where
  negative : Bool
  magnitude : Nat
  rest : CText
deriving DecidableEq, Repr

def readSign : CText → Bool × CText
  | '-' :: rest => (true, rest)
  | '+' :: rest => (false, rest)
  | rest => (false, rest)

def readNumber (s : CText) : Option Number :=
  let (negative, body) := readSign (skipSpace s)
  let digits := body.takeWhile Char.isDigit
  if digits = [] then none
  else some ⟨negative, Nat.ofDigitChars 10 digits 0, body.dropWhile Char.isDigit⟩

/-- What a conversion leaves: its value, the rest of the text, and `ERANGE`. -/
structure Converted where
  value : Int
  rest : CText
  outOfRange : Bool
deriving DecidableEq, Repr

def longLongMin : Int := -2 ^ 63
def longLongMax : Int := 2 ^ 63 - 1

/-- Base ten; `none` when no digit was found. -/
def strtoll (s : CText) : Option Converted :=
  (readNumber s).map fun n =>
    let value : Int := if n.negative then -n.magnitude else n.magnitude
    if value < longLongMin then ⟨longLongMin, n.rest, true⟩
    else if longLongMax < value then ⟨longLongMax, n.rest, true⟩
    else ⟨value, n.rest, false⟩

def strtoul (s : CText) : Option Converted :=
  (readNumber s).map fun n =>
    if 2 ^ 64 ≤ n.magnitude then ⟨2 ^ 64 - 1, n.rest, true⟩
    else ⟨if n.negative then ((2 ^ 64 - n.magnitude) % 2 ^ 64 : Nat) else n.magnitude,
      n.rest, false⟩

def DigitFree (rest : CText) : Prop :=
  ∀ c ∈ rest.head?, c.isDigit = false

theorem decimal_isDigit {n : Nat} {c : Char} (member : c ∈ decimal n) : c.isDigit = true :=
  Nat.isDigit_of_mem_toDigits (by decide) (by decide) member

theorem ofDigitChars_decimal (n : Nat) : Nat.ofDigitChars 10 (decimal n) 0 = n :=
  Nat.ofDigitChars_ten_toDigits

theorem decimal_ne_nil (n : Nat) : decimal n ≠ [] :=
  List.ne_nil_of_length_pos Nat.length_toDigits_pos

theorem isSpace_of_isDigit {c : Char} (digit : c.isDigit = true) : isSpace c = false := by
  cases space : isSpace c with
  | false => rfl
  | true =>
      simp only [isSpace, Bool.or_eq_true, beq_iff_eq] at space
      rcases space with ((((rfl | rfl) | rfl) | rfl) | rfl) | rfl <;> simp at digit

theorem decimal_cons (n : Nat) : ∃ d ds, decimal n = d :: ds ∧ d.isDigit = true := by
  cases digits : decimal n with
  | nil => exact absurd digits (decimal_ne_nil n)
  | cons d ds => exact ⟨d, ds, rfl, decimal_isDigit (n := n) (digits ▸ List.mem_cons_self)⟩

theorem skipSpace_decimal (n : Nat) (rest : CText) :
    skipSpace (decimal n ++ rest) = decimal n ++ rest := by
  obtain ⟨d, ds, digits, digit⟩ := decimal_cons n
  simp [skipSpace, digits, isSpace_of_isDigit digit]

theorem skipSpace_decimalInt (i : Int) (rest : CText) :
    skipSpace (decimalInt i ++ rest) = decimalInt i ++ rest := by
  cases i with
  | ofNat n => exact skipSpace_decimal n rest
  | negSucc n => simp [decimalInt, skipSpace, isSpace]

theorem readSign_decimal (n : Nat) (rest : CText) :
    readSign (decimal n ++ rest) = (false, decimal n ++ rest) := by
  obtain ⟨d, ds, digits, digit⟩ := decimal_cons n
  rw [digits, List.cons_append, readSign]
  · intro _ same
    obtain ⟨rfl, -⟩ := List.cons.inj same
    simp at digit
  · intro _ same
    obtain ⟨rfl, -⟩ := List.cons.inj same
    simp at digit

theorem takeWhile_decimal (n : Nat) {rest : CText} (stop : DigitFree rest) :
    (decimal n ++ rest).takeWhile Char.isDigit = decimal n := by
  rw [List.takeWhile_append_of_pos (fun _ => decimal_isDigit)]
  cases rest with
  | nil => simp
  | cons c _ => simp [stop c (by simp)]

theorem dropWhile_decimal (n : Nat) {rest : CText} (stop : DigitFree rest) :
    (decimal n ++ rest).dropWhile Char.isDigit = rest := by
  rw [List.dropWhile_append_of_pos (fun _ => decimal_isDigit)]
  cases rest with
  | nil => simp
  | cons c _ => simp [stop c (by simp)]

theorem readNumber_decimal (n : Nat) {rest : CText} (stop : DigitFree rest) :
    readNumber (decimal n ++ rest) = some ⟨false, n, rest⟩ := by
  simp [readNumber, skipSpace_decimal, readSign_decimal, takeWhile_decimal n stop,
    dropWhile_decimal n stop, decimal_ne_nil, ofDigitChars_decimal]

theorem readNumber_negative (n : Nat) {rest : CText} (stop : DigitFree rest) :
    readNumber ('-' :: decimal n ++ rest) = some ⟨true, n, rest⟩ := by
  have kept : skipSpace ('-' :: decimal n ++ rest) = '-' :: (decimal n ++ rest) := by
    simp [skipSpace, isSpace]
  rw [readNumber, kept]
  simp [readSign, takeWhile_decimal n stop, dropWhile_decimal n stop, decimal_ne_nil,
    ofDigitChars_decimal]

theorem readNumber_decimalInt (i : Int) {rest : CText} (stop : DigitFree rest) :
    readNumber (decimalInt i ++ rest) = some ⟨decide (i < 0), i.natAbs, rest⟩ := by
  cases i with
  | ofNat n =>
      have sign : decide (Int.ofNat n < 0) = false := by simp
      rw [sign]
      exact readNumber_decimal n stop
  | negSucc n =>
      have sign : decide (Int.negSucc n < 0) = true := by simp
      rw [sign]
      exact readNumber_negative (n + 1) stop

theorem strtoll_decimalInt {i : Int} (low : longLongMin ≤ i) (high : i ≤ longLongMax)
    {rest : CText} (stop : DigitFree rest) :
    strtoll (decimalInt i ++ rest) = some ⟨i, rest, false⟩ := by
  have value : (if decide (i < 0) = true then -(i.natAbs : Int) else i.natAbs) = i := by
    by_cases negative : i < 0
    · rw [if_pos (decide_eq_true negative)]
      omega
    · rw [if_neg (by simpa using negative)]
      omega
  rw [strtoll, readNumber_decimalInt i stop]
  simp only [Option.map_some]
  rw [value, if_neg (by omega), if_neg (by omega)]

theorem strtoul_decimal {n : Nat} (high : n < 2 ^ 64) {rest : CText} (stop : DigitFree rest) :
    strtoul (decimal n ++ rest) = some ⟨n, rest, false⟩ := by
  rw [strtoul, readNumber_decimal n stop]
  simp only [Option.map_some]
  rw [if_neg (by omega)]
  simp

theorem readNumber_blank (s : CText) : readNumber (' ' :: s) = readNumber s := by
  have skipped : skipSpace (' ' :: s) = skipSpace s := List.dropWhile_cons_of_pos (by decide)
  rw [readNumber, skipped, ← readNumber]

theorem strtoll_blank (s : CText) : strtoll (' ' :: s) = strtoll s := by
  rw [strtoll, readNumber_blank, ← strtoll]

theorem strtoul_blank (s : CText) : strtoul (' ' :: s) = strtoul s := by
  rw [strtoul, readNumber_blank, ← strtoul]

theorem readNumber_suffix {s : CText} {n : Number} (read : readNumber s = some n) :
    n.rest <:+ s := by
  have signed (body : CText) : (readSign body).2 <:+ body := by
    unfold readSign
    split
    · exact List.suffix_cons _ _
    · exact List.suffix_cons _ _
    · exact List.suffix_refl _
  unfold readNumber at read
  dsimp only at read
  split at read
  case isTrue => cases read
  case isFalse =>
    obtain rfl := Option.some.inj read
    exact (List.dropWhile_suffix _).trans ((signed _).trans (List.dropWhile_suffix _))

theorem strtoll_suffix {s : CText} {c : Converted} (read : strtoll s = some c) : c.rest <:+ s := by
  obtain ⟨n, number, same⟩ := Option.map_eq_some_iff.mp read
  have kept : c.rest = n.rest := by
    rw [← same]
    simp only [apply_ite Converted.rest, ite_self]
  exact kept ▸ readNumber_suffix number

theorem strtoul_suffix {s : CText} {c : Converted} (read : strtoul s = some c) : c.rest <:+ s := by
  obtain ⟨n, number, same⟩ := Option.map_eq_some_iff.mp read
  have kept : c.rest = n.rest := by
    rw [← same]
    simp only [apply_ite Converted.rest, ite_self]
  exact kept ▸ readNumber_suffix number

theorem not_mem_decimalInt {c : Char} (i : Int) (digit : c.isDigit = false) (sign : c ≠ '-') :
    c ∉ decimalInt i := by
  intro member
  cases i with
  | ofNat n => exact Bool.noConfusion (digit.symm.trans (decimal_isDigit member))
  | negSucc n =>
      rcases List.mem_cons.mp member with same | member
      · exact sign same
      · exact Bool.noConfusion (digit.symm.trans (decimal_isDigit member))

/-! ### Words -/

/-- One `%s` of `sscanf` with its width. -/
def scanWord (width : Nat) (s : CText) : Option (CText × CText) :=
  let body := skipSpace s
  let word := (body.takeWhile fun c => !isSpace c).take width
  if word = [] then none else some (word, body.drop word.length)

theorem skipSpace_cons {c : Char} {rest : CText} (blank : isSpace c = true) :
    skipSpace (c :: rest) = skipSpace rest :=
  List.dropWhile_cons_of_pos blank

theorem scanWord_blank {c : Char} {rest : CText} {width : Nat} (blank : isSpace c = true) :
    scanWord width (c :: rest) = scanWord width rest := by
  rw [scanWord, skipSpace_cons blank, ← scanWord]

theorem scanWord_solid {width : Nat} {word rest : CText} (filled : word ≠ [])
    (solid : ∀ c ∈ word, isSpace c = false) (short : word.length ≤ width)
    (stops : ∀ c ∈ rest.head?, isSpace c = true) :
    scanWord width (word ++ rest) = some (word, rest) := by
  have kept : skipSpace (word ++ rest) = word ++ rest := by
    obtain ⟨c, more, rfl⟩ := List.exists_cons_of_ne_nil filled
    exact List.dropWhile_cons_of_neg (by simp [solid c List.mem_cons_self])
  have whole : (word ++ rest).takeWhile (fun c => !isSpace c) = word := by
    rw [List.takeWhile_append_of_pos fun c member => by simp [solid c member]]
    cases rest with
    | nil => exact List.append_nil _
    | cons c more => simp [stops c rfl]
  unfold scanWord
  dsimp only
  rw [kept, whole, List.take_of_length_le short, if_neg filled, List.drop_left]

theorem scanWord_some {width : Nat} {s word rest : CText}
    (scanned : scanWord width s = some (word, rest)) :
    word ≠ [] ∧ word.length ≤ width ∧ ∀ c ∈ word, isSpace c = false := by
  unfold scanWord at scanned
  dsimp only at scanned
  split at scanned
  case isTrue => cases scanned
  case isFalse filled =>
    cases scanned
    refine ⟨filled, List.length_take_le _ _, fun c member => ?_⟩
    have := List.mem_takeWhile_imp ((List.take_sublist _ _).subset member)
    simpa using this

theorem scanWord_suffix {width : Nat} {s word rest : CText}
    (scanned : scanWord width s = some (word, rest)) : rest <:+ s := by
  unfold scanWord at scanned
  dsimp only at scanned
  split at scanned
  case isTrue => cases scanned
  case isFalse =>
    cases scanned
    exact (List.drop_suffix _ _).trans (List.dropWhile_suffix _)

end CText

/-!
Signed arithmetic of 64 bits.

An integer that fits is what the operation yields; one that does not wraps, so
a result about numbers that fit is one about integers.
-/
namespace LongLong

def Fits (i : Int) : Prop :=
  CText.longLongMin ≤ i ∧ i ≤ CText.longLongMax

instance (i : Int) : Decidable (Fits i) :=
  inferInstanceAs (Decidable (_ ∧ _))

def wrap (i : Int) : Int :=
  Int.bmod i (2 ^ 64)

theorem fits_iff {i : Int} : Fits i ↔ -2 ^ 63 ≤ i ∧ i ≤ 2 ^ 63 - 1 :=
  Iff.rfl

theorem wrap_eq {i : Int} (fits : Fits i) : wrap i = i := by
  rw [fits_iff] at fits
  refine Int.bmod_eq_of_le_mul_two ?_ ?_
  · omega
  · omega

theorem fits_strtoll {text : CText} {converted : CText.Converted}
    (read : CText.strtoll text = some converted) (inRange : converted.outOfRange = false) :
    Fits converted.value := by
  rw [CText.strtoll, Option.map_eq_some_iff] at read
  obtain ⟨number, -, same⟩ := read
  dsimp only at same
  by_cases low : (if number.negative then -number.magnitude else number.magnitude : Int) <
      CText.longLongMin
  · rw [if_pos low] at same
    rw [← same] at inRange
    cases inRange
  · rw [if_neg low] at same
    by_cases high : CText.longLongMax <
        (if number.negative then -number.magnitude else number.magnitude : Int)
    · rw [if_pos high] at same
      rw [← same] at inRange
      cases inRange
    · rw [if_neg high] at same
      rw [← same]
      exact ⟨Int.not_lt.mp low, Int.not_lt.mp high⟩

end LongLong
