import LibreEcho.Lib.JsonGrammar

/-!
`wpa_quote`: a value between quotation marks for `wpa_supplicant`.

The bytes are written one behind the other from the start of the buffer, so what was written is a
list, and a write is in bounds while the list is no longer than the buffer.
-/
namespace LibreEcho.Network
open JsonGrammar

structure Quoted where
  written : Bytes
  /-- The return value is 0. -/
  ok : Bool
deriving DecidableEq

def isEscaped (c : UInt8) : Bool :=
  c == quote || c == backslash

/-- The loop, after `out` was written. -/
def wpaQuoteLoop (size : Nat) : Bytes → Bytes → Quoted
  -- the quotation mark and the terminator are not tested against the size
  | out, [] => ⟨out ++ [quote, 0], true⟩
  | out, c :: value =>
      if isEscaped c ∧ size ≤ out.length + 2 then ⟨out, false⟩
      else
        let out := if isEscaped c then out ++ [backslash] else out
        if c < 32 ∨ size ≤ out.length + 1 then ⟨out, false⟩
        else wpaQuoteLoop size (out ++ [c]) value

def wpaQuote (size : Nat) (value : Bytes) : Quoted :=
  if size ≤ 1 then ⟨[], false⟩ else wpaQuoteLoop size [quote] value

/-- The buffer of `connect_network`. -/
def quotedMax : Nat := 512

/-! ### What is written -/

def escapedByte (c : UInt8) : Bytes :=
  if isEscaped c then [backslash, c] else [c]

def escapedText (value : Bytes) : Bytes :=
  value.flatMap escapedByte

def quotedText (value : Bytes) : Bytes :=
  quote :: (escapedText value ++ [quote])

def isPrintable (value : Bytes) : Bool :=
  value.all fun c => 0x20 ≤ c

theorem escapedText_cons (c : UInt8) (value : Bytes) :
    escapedText (c :: value) = escapedByte c ++ escapedText value := rfl

theorem wpaQuoteLoop_cons {size : Nat} {out : Bytes} {c : UInt8} {value : Bytes} :
    wpaQuoteLoop size out (c :: value) =
      if 0x20 ≤ c ∧ (out ++ escapedByte c).length < size then
        wpaQuoteLoop size (out ++ escapedByte c) value
      else
        ⟨if isEscaped c ∧ out.length + 2 < size then out ++ [backslash] else out, false⟩ := by
  have low : c < 32 ↔ ¬ 0x20 ≤ c := UInt8.not_le.symm
  rw [wpaQuoteLoop, escapedByte]
  simp only [low]
  cases isEscaped c with
  | false =>
      have length : (out ++ [c]).length = out.length + 1 := List.length_append
      grind
  | true =>
      have length : (out ++ [backslash, c]).length = out.length + 2 := List.length_append
      have one : (out ++ [backslash]).length = out.length + 1 := List.length_append
      grind

theorem wpaQuoteLoop_spec {size : Nat} {out value : Bytes} (room : out.length < size) :
    if isPrintable value ∧ out.length + (escapedText value).length < size then
      wpaQuoteLoop size out value = ⟨out ++ escapedText value ++ [quote, 0], true⟩
    else
      (wpaQuoteLoop size out value).ok = false ∧
        (wpaQuoteLoop size out value).written.length < size := by
  induction value generalizing out with
  | nil =>
      rw [if_pos ⟨rfl, room⟩, escapedText, List.flatMap_nil, List.append_nil, wpaQuoteLoop]
  | cons c value ih =>
      rw [wpaQuoteLoop_cons, escapedText_cons]
      have shown : isPrintable (c :: value) = true ↔ 0x20 ≤ c ∧ isPrintable value = true := by
        rw [isPrintable, List.all_cons, Bool.and_eq_true, decide_eq_true_eq]
        rfl
      by_cases fits : 0x20 ≤ c ∧ (out ++ escapedByte c).length < size
      · rw [if_pos fits]
        have later := ih fits.2
        have same : (isPrintable (c :: value) = true ∧
            out.length + (escapedByte c ++ escapedText value).length < size) ↔
            (isPrintable value = true ∧
              (out ++ escapedByte c).length + (escapedText value).length < size) := by
          rw [shown, List.length_append, List.length_append, Nat.add_assoc]
          exact ⟨fun all => ⟨all.1.2, all.2⟩, fun all => ⟨⟨fits.1, all.1⟩, all.2⟩⟩
        simp only [same]
        rw [List.append_assoc out] at later
        exact later
      · rw [if_neg fits]
        have refused : ¬ (isPrintable (c :: value) = true ∧
            out.length + (escapedByte c ++ escapedText value).length < size) := by
          rw [shown, List.length_append]
          rw [List.length_append] at fits
          exact fun all => fits ⟨all.1.1, by omega⟩
        rw [if_neg refused]
        refine ⟨rfl, ?_⟩
        dsimp only
        split
        · rw [List.length_append, List.length_singleton]
          omega
        · exact room

theorem wpaQuote_spec {size : Nat} (value : Bytes) (room : 3 ≤ size) :
    if isPrintable value ∧ (escapedText value).length + 2 ≤ size then
      wpaQuote size value = ⟨quotedText value ++ [0], true⟩
    else (wpaQuote size value).ok = false ∧ (wpaQuote size value).written.length < size := by
  have start : ([quote] : Bytes).length < size := by
    rw [List.length_singleton]
    omega
  have loop := @wpaQuoteLoop_spec size [quote] value start
  have same : [quote].length + (escapedText value).length < size ↔
      (escapedText value).length + 2 ≤ size := by
    rw [List.length_singleton]
    omega
  simp only [same] at loop
  have more : ¬ size ≤ 1 := by omega
  rw [wpaQuote, if_neg more, quotedText, List.cons_append, List.append_assoc]
  exact loop

/-! ### Distinct values -/

/-- A backslash in the text is followed by the byte it stands before. -/
def unescaped : Bytes → Bytes
  | [] => []
  | [c] => [c]
  | c :: d :: rest => if c = backslash then d :: unescaped rest else c :: unescaped (d :: rest)

theorem unescaped_escapedText (value : Bytes) : unescaped (escapedText value) = value := by
  induction value with
  | nil => rfl
  | cons c value ih =>
      rw [escapedText_cons, escapedByte]
      cases special : isEscaped c with
      | true =>
          rw [if_pos rfl, List.cons_append, List.singleton_append, unescaped, if_pos rfl, ih]
      | false =>
          have other : c ≠ backslash := by
            rintro rfl
            exact absurd special (by decide)
          rw [if_neg Bool.false_ne_true, List.singleton_append]
          cases text : escapedText value with
          | nil =>
              rw [text] at ih
              rw [unescaped, ← ih, unescaped]
          | cons d rest => rw [unescaped, if_neg other, ← text, ih]

theorem escapedText_injective {value value' : Bytes}
    (same : escapedText value = escapedText value') : value = value' := by
  rw [← unescaped_escapedText value, same, unescaped_escapedText]

theorem quotedText_injective {value value' : Bytes} (same : quotedText value = quotedText value') :
    value = value' :=
  escapedText_injective (List.append_cancel_right (List.cons.inj same).2)

theorem quotedText_printable {value : Bytes} (shown : isPrintable value = true) :
    isPrintable (quotedText value) = true := by
  have escaped : isPrintable (escapedText value) = true := by
    rw [isPrintable, List.all_eq_true] at shown ⊢
    intro b inside
    obtain ⟨c, member, written⟩ := List.mem_flatMap.mp inside
    rw [escapedByte] at written
    split at written
    · rcases List.mem_cons.mp written with rfl | last
      · rfl
      · rw [List.mem_singleton.mp last]
        exact shown c member
    · rw [List.mem_singleton.mp written]
      exact shown c member
  rw [quotedText, isPrintable, List.all_cons, List.all_append]
  rw [isPrintable] at escaped
  rw [escaped]
  rfl

/-! ### The promise -/

structure QuoteLaw (size : Nat) (value : Bytes) : Prop where
  inBounds : (wpaQuote size value).written.length ≤ size
  text : (wpaQuote size value).ok = true → (wpaQuote size value).written = quotedText value ++ [0]
  shown : (wpaQuote size value).ok = true → isPrintable (quotedText value) = true
  distinct : ∀ value', (wpaQuote size value).ok = true → (wpaQuote size value').ok = true →
    (wpaQuote size value).written = (wpaQuote size value').written → value = value'

/-- The terminator lies behind the buffer when the text and its quotation marks fill it. -/
theorem wpaQuote_law {size : Nat} (value : Bytes) (room : 3 ≤ size) :
    QuoteLaw size value ↔
      ¬ (isPrintable value = true ∧ (quotedText value).length = size) := by
  have spec := fun value => wpaQuote_spec value room
  have accepted (value : Bytes) (ok : (wpaQuote size value).ok = true) :
      isPrintable value = true ∧ (wpaQuote size value).written = quotedText value ++ [0] := by
    have spec := spec value
    split at spec
    case isTrue fits => exact ⟨fits.1, congrArg Quoted.written spec⟩
    case isFalse => exact absurd (ok.symm.trans spec.1) (by decide)
  have length : (quotedText value).length = (escapedText value).length + 2 := by
    rw [quotedText, List.length_cons, List.length_append, List.length_singleton]
  constructor
  · rintro law ⟨shown, full⟩
    have spec := spec value
    rw [if_pos ⟨shown, by omega⟩] at spec
    have bound := law.inBounds
    rw [spec, List.length_append, full, List.length_singleton] at bound
    omega
  · intro other
    refine ⟨?_, fun ok => (accepted value ok).2, fun ok => quotedText_printable (accepted value ok).1,
      fun value' ok ok' same => ?_⟩
    · have spec := spec value
      split at spec
      case isTrue fits =>
        rw [spec, List.length_append, List.length_singleton]
        have short : (quotedText value).length ≠ size := fun full => other ⟨fits.1, full⟩
        omega
      case isFalse => exact Nat.le_of_lt spec.2
    · rw [(accepted value ok).2, (accepted value' ok').2] at same
      exact quotedText_injective (List.append_cancel_right same)

theorem wpaQuote_law_short : QuoteLaw quotedMax [0x61] :=
  (wpaQuote_law [0x61] (by decide)).mpr (by decide)

/-- 255 quotation marks fill the buffer of `connect_network`. -/
theorem wpaQuote_overruns : ¬ QuoteLaw quotedMax (List.replicate 255 quote) := by
  intro law
  have written : (wpaQuote quotedMax (List.replicate 255 quote)).written.length = 513 := by
    decide +kernel
  exact absurd (written ▸ law.inBounds) (by decide)

end LibreEcho.Network
