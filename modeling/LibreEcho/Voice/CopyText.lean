import LibreEcho.Lib.Utf8
import LibreEcho.Voice.History

/-!
What `le_voice_history_copy_text` keeps of a text.

The copy is the text of an unbounded destination filled up with whole code points until the next
one does not fit.
-/
namespace LibreEcho.Voice

open Utf8 (Scalar Unit Valid encode continuation fill)

/-- What the loop writes for each code point or malformed byte it meets. -/
def cleanUnits : Nat → Bytes → List Bytes
  | 0, _ => []
  | _ + 1, [] => []
  | fuel + 1, c :: rest =>
      if c < 0x80 then [foldControl c] :: cleanUnits fuel rest
      else
        let length := utf8SequenceLength (c :: rest)
        if length = 0 then [0x3F] :: cleanUnits fuel rest
        else (c :: rest).take length :: cleanUnits fuel ((c :: rest).drop length)

/-- The copy into a destination that is larger than the source. -/
def cleanText (source : Bytes) : Bytes :=
  (leVoiceHistoryCopyText (source.length + 1) source).1

/-! ### Sequences -/

theorem continuation_of {c : UInt8} (tail : c &&& 0xC0 = 0x80) : c = continuation c.toNat := by
  have byte := (by decide +kernel : ∀ n : Fin 256, UInt8.ofNat n &&& 0xC0 = 0x80 →
    UInt8.ofNat n = continuation n) ⟨c.toNat, c.toNat_lt⟩
  rw [UInt8.ofNat_toNat] at byte
  exact byte tail

theorem continuation_tail (n : Nat) : continuation n &&& 0xC0 = 0x80 := by
  have byte := (by decide +kernel : ∀ r : Fin 64, UInt8.ofNat (0x80 + r) &&& 0xC0 = 0x80)
    ⟨n % 64, Nat.mod_lt n (by decide)⟩
  exact byte

theorem continuation_bits (n : Nat) : (continuation n).toNat % 0x40 = n % 64 := by
  rw [continuation, UInt8.toNat_ofNat']
  omega

theorem continuation_congr {m n : Nat} (same : m % 64 = n % 64) : continuation m = continuation n := by
  rw [continuation, continuation, same]

theorem utf8Continue_succ {count bits codepoint : Nat} {rest : Bytes}
    (read : utf8Continue (count + 1) rest bits = some codepoint) :
    ∃ n tail, rest = continuation n :: tail ∧
      utf8Continue count tail (bits * 64 + n % 64) = some codepoint := by
  cases rest with
  | nil => exact absurd read nofun
  | cons c tail =>
      rw [utf8Continue] at read
      split at read
      case isTrue => exact absurd read nofun
      case isFalse same =>
        exact ⟨c.toNat, tail, congrArg (· :: tail) (continuation_of (not_not.mp same)), read⟩

theorem utf8Continue_continuation (count n bits : Nat) (rest : Bytes) :
    utf8Continue (count + 1) (continuation n :: rest) bits =
      utf8Continue count rest (bits * 64 + n % 64) := by
  rw [utf8Continue, if_neg (not_not.mpr (continuation_tail n)), continuation_bits]

theorem ofNat_of_toNat {c : UInt8} {n : Nat} (same : c.toNat = n) : c = .ofNat n := by
  rw [← same, UInt8.ofNat_toNat]

theorem utf8Lead_cases {c : UInt8} {length bits minimum : Nat}
    (lead : utf8Lead c = some (length, bits, minimum)) :
    (length = 2 ∧ minimum = 0x80 ∧ bits < 0x20 ∧ c = .ofNat (0xC0 + bits)) ∨
    (length = 3 ∧ minimum = 0x800 ∧ bits < 0x10 ∧ c = .ofNat (0xE0 + bits)) ∨
    (length = 4 ∧ minimum = 0x10000 ∧ bits < 0x08 ∧ c = .ofNat (0xF0 + bits)) := by
  rw [utf8Lead] at lead
  split at lead
  case isTrue two =>
    obtain ⟨rfl, rfl, rfl⟩ : 2 = length ∧ _ = bits ∧ _ = minimum := by
      simpa only [Option.some.injEq, Prod.mk.injEq] using lead
    have low := UInt8.le_iff_toNat_le.mp two.1
    have high := UInt8.le_iff_toNat_le.mp two.2
    exact .inl ⟨rfl, rfl, by omega, ofNat_of_toNat (by grind)⟩
  case isFalse =>
    split at lead
    case isTrue three =>
      obtain ⟨rfl, rfl, rfl⟩ : 3 = length ∧ _ = bits ∧ _ = minimum := by
        simpa only [Option.some.injEq, Prod.mk.injEq] using lead
      have low := UInt8.le_iff_toNat_le.mp three.1
      have high := UInt8.le_iff_toNat_le.mp three.2
      exact .inr (.inl ⟨rfl, rfl, by omega, ofNat_of_toNat (by grind)⟩)
    case isFalse =>
      split at lead
      case isTrue four =>
        obtain ⟨rfl, rfl, rfl⟩ : 4 = length ∧ _ = bits ∧ _ = minimum := by
          simpa only [Option.some.injEq, Prod.mk.injEq] using lead
        have low := UInt8.le_iff_toNat_le.mp four.1
        have high := UInt8.le_iff_toNat_le.mp four.2
        exact .inr (.inr ⟨rfl, rfl, by omega, ofNat_of_toNat (by grind)⟩)
      case isFalse => exact absurd lead nofun

theorem utf8Continue_unit {c : UInt8} {rest : Bytes} {length bits minimum codepoint : Nat}
    (lead : utf8Lead c = some (length, bits, minimum))
    (read : utf8Continue (length - 1) rest bits = some codepoint)
    (accepted : ¬ (codepoint < minimum ∨ (0xD800 ≤ codepoint ∧ codepoint ≤ 0xDFFF) ∨
      0x10FFFF < codepoint)) :
    ∃ u tail, Unit u ∧ c :: rest = u ++ tail ∧ u.length = length := by
  have scalar : Scalar codepoint := ⟨by omega, by omega⟩
  refine ⟨encode codepoint, ?_⟩
  rcases utf8Lead_cases lead with ⟨rfl, rfl, small, rfl⟩ | ⟨rfl, rfl, small, rfl⟩ |
    ⟨rfl, rfl, small, rfl⟩
  · obtain ⟨n, tail, rfl, last⟩ := utf8Continue_succ read
    obtain rfl := Option.some.inj last
    refine ⟨tail, ⟨_, scalar, rfl⟩, ?_⟩
    have top : (bits * 64 + n % 64) / 64 = bits := by omega
    have low : continuation (bits * 64 + n % 64) = continuation n :=
      continuation_congr (by omega)
    rw [encode, if_neg (by omega), if_pos (by omega), top, low]
    exact ⟨rfl, rfl⟩
  · obtain ⟨n, _, rfl, later⟩ := utf8Continue_succ read
    obtain ⟨m, tail, rfl, last⟩ := utf8Continue_succ later
    obtain rfl := Option.some.inj last
    refine ⟨tail, ⟨_, scalar, rfl⟩, ?_⟩
    have top : ((bits * 64 + n % 64) * 64 + m % 64) / 4096 = bits := by omega
    have middle : continuation (((bits * 64 + n % 64) * 64 + m % 64) / 64) = continuation n :=
      continuation_congr (by omega)
    have low : continuation ((bits * 64 + n % 64) * 64 + m % 64) = continuation m :=
      continuation_congr (by omega)
    rw [encode, if_neg (by omega), if_neg (by omega), if_pos (by omega), top, middle, low]
    exact ⟨rfl, rfl⟩
  · obtain ⟨n, _, rfl, later⟩ := utf8Continue_succ read
    obtain ⟨m, _, rfl, last⟩ := utf8Continue_succ later
    obtain ⟨k, tail, rfl, end_⟩ := utf8Continue_succ last
    obtain rfl := Option.some.inj end_
    refine ⟨tail, ⟨_, scalar, rfl⟩, ?_⟩
    have top : (((bits * 64 + n % 64) * 64 + m % 64) * 64 + k % 64) / 262144 = bits := by omega
    have second : continuation ((((bits * 64 + n % 64) * 64 + m % 64) * 64 + k % 64) / 4096) =
        continuation n :=
      continuation_congr (by omega)
    have third : continuation ((((bits * 64 + n % 64) * 64 + m % 64) * 64 + k % 64) / 64) =
        continuation m :=
      continuation_congr (by omega)
    have low : continuation (((bits * 64 + n % 64) * 64 + m % 64) * 64 + k % 64) =
        continuation k :=
      continuation_congr (by omega)
    rw [encode, if_neg (by omega), if_neg (by omega), if_neg (by omega), top, second, third, low]
    exact ⟨rfl, rfl⟩

theorem utf8SequenceLength_unit {c : UInt8} {rest : Bytes}
    (valid : utf8SequenceLength (c :: rest) ≠ 0) :
    ∃ u tail, Unit u ∧ c :: rest = u ++ tail ∧ utf8SequenceLength (c :: rest) = u.length := by
  rw [utf8SequenceLength] at valid ⊢
  split
  case isTrue low => exact ⟨[c], rest, Utf8.unit_ascii low, rfl, rfl⟩
  case isFalse high =>
    rw [if_neg high] at valid
    cases lead : utf8Lead c with
    | none =>
        rw [lead] at valid
        exact absurd rfl valid
    | some found =>
        obtain ⟨length, bits, minimum⟩ := found
        rw [lead] at valid
        dsimp only at valid ⊢
        cases read : utf8Continue (length - 1) rest bits with
        | none =>
            rw [read] at valid
            exact absurd rfl valid
        | some codepoint =>
            rw [read] at valid
            dsimp only at valid ⊢
            split at valid
            next => exact absurd rfl valid
            next scalar =>
              rw [if_neg scalar]
              obtain ⟨u, tail, unit, whole, size⟩ := utf8Continue_unit lead read scalar
              exact ⟨u, tail, unit, whole, size.symm⟩

theorem utf8SequenceLength_read {c : UInt8} {rest : Bytes} {length bits minimum codepoint : Nat}
    (lead : utf8Lead c = some (length, bits, minimum))
    (read : utf8Continue (length - 1) rest bits = some codepoint)
    (accepted : ¬ (codepoint < minimum ∨ (0xD800 ≤ codepoint ∧ codepoint ≤ 0xDFFF) ∨
      0x10FFFF < codepoint)) :
    utf8SequenceLength (c :: rest) = length := by
  have high : ¬ c < 0x80 := by
    intro low
    rw [utf8Lead] at lead
    grind
  rw [utf8SequenceLength, if_neg high, lead]
  dsimp only
  rw [read]
  exact if_neg accepted

theorem utf8SequenceLength_encode {u : Bytes} (unit : Unit u) (rest : Bytes) :
    utf8SequenceLength (u ++ rest) = u.length := by
  obtain ⟨codepoint, ⟨high, surrogate⟩, rfl⟩ := unit
  rw [encode]
  split
  case isTrue ascii =>
    exact if_pos (UInt8.lt_iff_toNat_lt.mpr (by rw [UInt8.toNat_ofNat']; grind))
  case isFalse =>
    split
    case isTrue =>
      have lead : utf8Lead (.ofNat (0xC0 + codepoint / 64)) = some (2, codepoint / 64, 0x80) :=
        (by decide +kernel : ∀ b : Fin 0x20, 2 ≤ b.val →
          utf8Lead (.ofNat (0xC0 + b)) = some (2, b.val, 0x80)) ⟨codepoint / 64, by omega⟩
            (by dsimp only; omega)
      refine utf8SequenceLength_read lead (utf8Continue_continuation 0 _ _ _) ?_
      omega
    case isFalse =>
      split
      case isTrue =>
        have lead : utf8Lead (.ofNat (0xE0 + codepoint / 4096)) =
            some (3, codepoint / 4096, 0x800) :=
          (by decide +kernel : ∀ b : Fin 0x10,
            utf8Lead (.ofNat (0xE0 + b)) = some (3, b.val, 0x800)) ⟨codepoint / 4096, by omega⟩
        refine utf8SequenceLength_read lead ((utf8Continue_continuation 1 _ _ _).trans
          (utf8Continue_continuation 0 _ _ _)) ?_
        omega
      case isFalse =>
        have lead : utf8Lead (.ofNat (0xF0 + codepoint / 262144)) =
            some (4, codepoint / 262144, 0x10000) :=
          (by decide +kernel : ∀ b : Fin 5,
            utf8Lead (.ofNat (0xF0 + b)) = some (4, b.val, 0x10000)) ⟨codepoint / 262144, by omega⟩
        refine utf8SequenceLength_read lead (((utf8Continue_continuation 2 _ _ _).trans
          (utf8Continue_continuation 1 _ _ _)).trans (utf8Continue_continuation 0 _ _ _)) ?_
        omega

/-! ### Units -/

theorem foldControl_low {c : UInt8} (low : c < 0x80) : foldControl c < 0x80 := by
  rw [foldControl]
  grind

theorem foldControl_clean {c : UInt8} (control : foldControl c < 0x20) :
    foldControl c = 0x0A ∨ foldControl c = 0x0D ∨ foldControl c = 0x09 := by
  rw [foldControl] at control ⊢
  grind

/-- No control character but newline, carriage return and tab. -/
def Clean (s : Bytes) : Prop :=
  ∀ b ∈ s, b < 0x20 → b = 0x0A ∨ b = 0x0D ∨ b = 0x09

theorem Clean.flatten {units : List Bytes} (all : ∀ u ∈ units, Clean u) : Clean units.flatten := by
  intro b inside
  obtain ⟨u, member, within⟩ := List.mem_flatten.mp inside
  exact all u member b within

theorem unit_high {u : Bytes} {c : UInt8} {rest : Bytes} (unit : Unit u) (start : u = c :: rest)
    (high : ¬ c < 0x80) : ∀ b ∈ u, 0x80 ≤ b := by
  rcases unit.ascii_or_high with ⟨b, low, rfl⟩ | all
  · exact absurd ((List.cons.inj start).1 ▸ low) high
  · exact all

theorem clean_high {u : Bytes} (high : ∀ b ∈ u, 0x80 ≤ b) : Clean u := by
  intro b inside control
  have := high b inside
  grind

theorem cleanUnits_unit (fuel : Nat) (source : Bytes) :
    ∀ u ∈ cleanUnits fuel source, Unit u ∧ Clean u := by
  induction fuel generalizing source with
  | zero => exact nofun
  | succ fuel ih =>
      cases source with
      | nil => exact nofun
      | cons c rest =>
          rw [cleanUnits]
          split
          case isTrue low =>
            refine List.forall_mem_cons.mpr ⟨⟨Utf8.unit_ascii (foldControl_low low), ?_⟩, ih rest⟩
            intro b inside control
            obtain rfl := List.mem_singleton.mp inside
            exact foldControl_clean control
          case isFalse high =>
            dsimp only
            split
            case isTrue =>
              refine List.forall_mem_cons.mpr ⟨⟨Utf8.unit_ascii (by decide), ?_⟩, ih rest⟩
              intro b inside control
              obtain rfl := List.mem_singleton.mp inside
              exact absurd control (by decide)
            case isFalse valid =>
              obtain ⟨u, tail, unit, whole, size⟩ := utf8SequenceLength_unit valid
              rw [size, whole, List.take_left]
              refine List.forall_mem_cons.mpr ⟨⟨unit, clean_high ?_⟩, ih _⟩
              obtain ⟨b, own, rfl⟩ := List.exists_cons_of_ne_nil unit.ne_nil
              obtain rfl := (List.cons.inj whole).1
              exact unit_high unit rfl high

theorem copyTextLoop_fill (fuel : Nat) (source : Bytes) (room : Nat) :
    copyTextLoop fuel source room = fill room (cleanUnits fuel source) := by
  induction fuel generalizing source room with
  | zero =>
      rw [copyTextLoop, cleanUnits, fill]
  | succ fuel ih =>
      cases source with
      | nil => rw [copyTextLoop, cleanUnits, fill]
      | cons c rest =>
          rw [copyTextLoop, cleanUnits]
          dsimp only
          split
          case isTrue low => rw [fill, ih]; rfl
          case isFalse high =>
            split
            case isTrue => rw [fill, ih]; rfl
            case isFalse valid =>
              obtain ⟨u, tail, -, whole, size⟩ := utf8SequenceLength_unit valid
              rw [fill, ih, size, whole, List.take_left]

theorem cleanUnits_length (fuel : Nat) (source : Bytes) :
    (cleanUnits fuel source).flatten.length ≤ source.length := by
  induction fuel generalizing source with
  | zero => exact Nat.zero_le _
  | succ fuel ih =>
      cases source with
      | nil => exact Nat.zero_le _
      | cons c rest =>
          have shorter := ih rest
          rw [cleanUnits]
          split
          case isTrue =>
            simp only [List.flatten_cons, List.length_append, List.length_cons, List.length_nil]
            omega
          case isFalse =>
            dsimp only
            split
            case isTrue =>
              simp only [List.flatten_cons, List.length_append, List.length_cons, List.length_nil]
              omega
            case isFalse =>
              have later := ih ((c :: rest).drop (utf8SequenceLength (c :: rest)))
              have split := congrArg List.length
                (List.take_append_drop (utf8SequenceLength (c :: rest)) (c :: rest))
              rw [List.length_append] at split
              rw [List.flatten_cons, List.length_append]
              omega

theorem cleanText_units (source : Bytes) :
    cleanText source = (cleanUnits source.length source).flatten := by
  rw [cleanText, leVoiceHistoryCopyText, if_neg (Nat.succ_ne_zero _), copyTextLoop_fill,
    Utf8.fill_all (Nat.lt_succ_of_le (cleanUnits_length _ _))]

theorem copyText_fill {size : Nat} (some : 0 < size) (source : Bytes) :
    leVoiceHistoryCopyText size source = fill size (cleanUnits source.length source) := by
  rw [leVoiceHistoryCopyText, if_neg (Nat.ne_of_gt some), copyTextLoop_fill]

/-! ### The copy -/

/-- The whole code points of the cleaned text that fit below `size` bytes. -/
structure CopiedText (size : Nat) (source : Bytes) : Prop where
  valid : Valid (leVoiceHistoryCopyText size source).1
  /-- DEL and the control characters from U+0080 on stay. -/
  clean : Clean (leVoiceHistoryCopyText size source).1
  start : (leVoiceHistoryCopyText size source).1 <+: cleanText source
  fits : (leVoiceHistoryCopyText size source).1.length < size
  longest : ∀ p, Valid p → p <+: cleanText source → p.length < size →
    p <+: (leVoiceHistoryCopyText size source).1
  truncated : (leVoiceHistoryCopyText size source).2 = true ↔ size ≤ (cleanText source).length

theorem cleanUnits_take {source : Bytes} (k : Nat) :
    ∀ u ∈ (cleanUnits source.length source).take k, Unit u ∧ Clean u :=
  fun u inside => cleanUnits_unit _ _ u (List.mem_of_mem_take inside)

theorem copiedText {size : Nat} (some : 0 < size) (source : Bytes) : CopiedText size source := by
  have filled := copyText_fill some source
  have start : (leVoiceHistoryCopyText size source).1 <+: cleanText source := by
    rw [filled, cleanText_units]
    exact Utf8.fill_prefix
  obtain ⟨k, units⟩ := @Utf8.fill_units size (cleanUnits source.length source)
  refine ⟨?_, ?_, start, ?_, ?_, ?_⟩
  · rw [filled, units]
    exact Utf8.valid_flatten fun u inside => (cleanUnits_take k u inside).1
  · rw [filled, units]
    exact Clean.flatten fun u inside => (cleanUnits_take k u inside).2
  · rw [filled]
    exact Utf8.fill_fits some
  · intro p valid within fits
    refine List.prefix_of_prefix_length_le within start ?_
    rw [cleanText_units] at within
    obtain ⟨j, rfl⟩ := Utf8.valid_prefix valid (fun u inside => (cleanUnits_unit _ _ u inside).1)
      within
    rw [filled]
    exact Utf8.fill_longest fits
  · rw [filled, cleanText_units]
    exact Utf8.fill_cut some

theorem copyText_unbounded {size : Nat} {source : Bytes} (large : (cleanText source).length < size) :
    leVoiceHistoryCopyText size source = (cleanText source, false) := by
  rw [cleanText_units] at large ⊢
  rw [copyText_fill (by omega), Utf8.fill_all large]

theorem foldControl_high {u : Bytes} (high : ∀ b ∈ u, 0x80 ≤ b) : u.map foldControl = u := by
  refine (List.map_congr_left fun b inside => ?_).trans (List.map_id u)
  have := high b inside
  rw [foldControl, id]
  grind

theorem cleanUnits_valid (fuel : Nat) {source : Bytes} (enough : source.length ≤ fuel)
    (valid : Valid source) : (cleanUnits fuel source).flatten = source.map foldControl := by
  induction fuel generalizing source with
  | zero =>
      obtain rfl := List.length_eq_zero_iff.mp (Nat.le_zero.mp enough)
      rfl
  | succ fuel ih =>
      cases source with
      | nil => rfl
      | cons c rest =>
          obtain ⟨u, tail, unit, whole, later⟩ := valid.cons
          have size := utf8SequenceLength_encode unit tail
          rw [← whole] at size
          rw [List.length_cons] at enough
          rw [cleanUnits]
          rcases unit.ascii_or_high with ⟨b, low, rfl⟩ | high
          · obtain ⟨rfl, rfl⟩ := List.cons.inj whole
            rw [if_pos low, List.flatten_cons, ih (by omega) later]
            rfl
          · obtain ⟨b, own, rfl⟩ := List.exists_cons_of_ne_nil unit.ne_nil
            have first : c = b := (List.cons.inj whole).1
            have least := high b List.mem_cons_self
            have sizes := congrArg List.length whole
            rw [List.length_append, List.length_cons, List.length_cons] at sizes
            rw [if_neg (by grind)]
            dsimp only
            rw [size, if_neg (by rw [List.length_cons]; omega), whole, List.take_left,
              List.drop_left, List.flatten_cons, ih (by omega) later, List.map_append,
              foldControl_high high]

/-! ### The law of the copy -/

def Control (b : UInt8) : Prop :=
  b < 0x20 ∨ b = 0x7F

theorem copyText_law (size : Nat) (source : Bytes) (some : 0 < size) :
    CopiedText size source ∧
    (∀ larger, (cleanText source).length < larger →
      leVoiceHistoryCopyText larger source = (cleanText source, false)) ∧
    (Valid source → cleanText source = source.map foldControl) := by
  refine ⟨copiedText some source, fun larger large => copyText_unbounded large, fun valid => ?_⟩
  rw [cleanText_units]
  exact cleanUnits_valid _ (Nat.le_refl _) valid

theorem copyText_law_cut :
    CopiedText 4 [0x61, 0x01, 0xE2, 0x82, 0xAC] ∧
    (∀ larger, (cleanText [0x61, 0x01, 0xE2, 0x82, 0xAC]).length < larger →
      leVoiceHistoryCopyText larger [0x61, 0x01, 0xE2, 0x82, 0xAC] =
        (cleanText [0x61, 0x01, 0xE2, 0x82, 0xAC], false)) ∧
    (Valid [0x61, 0x01, 0xE2, 0x82, 0xAC] → cleanText [0x61, 0x01, 0xE2, 0x82, 0xAC] =
      [0x61, 0x01, 0xE2, 0x82, 0xAC].map foldControl) :=
  copyText_law 4 [0x61, 0x01, 0xE2, 0x82, 0xAC] (by decide)

/-- DEL passes through. -/
theorem copyText_keepsDelete :
    ¬ ∀ (size : Nat) (source : Bytes), 1 ≤ size →
      ∀ b ∈ (leVoiceHistoryCopyText size source).1, Control b → b = 0x0A ∨ b = 0x0D ∨ b = 0x09 := by
  intro clean
  have kept : (leVoiceHistoryCopyText 2 [0x7F]).1 = [0x7F] := by decide +kernel
  have delete := clean 2 [0x7F] (by decide) 0x7F (kept ▸ List.mem_singleton.mpr rfl) (.inr rfl)
  revert delete
  decide

end LibreEcho.Voice
