import LibreEcho.Lib.ByteText

/-!
How `adapter/airplayd.c` finds the items in the metadata pipe.

Every byte that arrives goes to the end of a bounded buffer. Where the buffer holds no item
yet, only a beginning of `<item>` at its end is kept, so the buffer is empty whenever a piece
of the stream has ended.
-/
namespace LibreEcho.Airplay
open ByteText

def airplayMetadataItemMax : Nat := 8192

def itemStart : List UInt8 := ascii "<item>"

def itemEnd : List UInt8 := ascii "</item>"

def boundedFind (haystack needle : List UInt8) : Option (List UInt8) :=
  if needle = [] ∨ haystack.length < needle.length then none else strstr needle haystack

theorem boundedFind_some {haystack needle found : List UInt8}
    (hit : boundedFind haystack needle = some found) : needle <+: found ∧ found <:+ haystack := by
  rw [boundedFind] at hit
  split at hit
  case isTrue => cases hit
  case isFalse => exact strstr_some hit

theorem boundedFind_none {haystack needle : List UInt8} (outside : ¬ needle <:+: haystack) :
    boundedFind haystack needle = none := by
  rw [boundedFind]
  split
  case isTrue => rfl
  case isFalse => exact strstr_none outside

def startSuffixLoop (buffer : List UInt8) : Nat → Nat
  | 0 => 0
  | keep + 1 =>
      if buffer.drop (buffer.length - (keep + 1)) = itemStart.take (keep + 1) then keep + 1
      else startSuffixLoop buffer keep

def metadataStartSuffix (buffer : List UInt8) : Nat :=
  startSuffixLoop buffer
    (if buffer.length < itemStart.length then buffer.length else itemStart.length - 1)

/-- What the loop leaves in the buffer, and what it hands to `metadata_process_item`. -/
def scan (buffer : List UInt8) : List UInt8 × List (List UInt8) :=
  match _hit : boundedFind buffer itemStart with
  | some item =>
      match boundedFind item itemEnd with
      | none => (if airplayMetadataItemMax ≤ item.length then [] else item, [])
      | some stop =>
          let completeLength := item.length - stop.length + itemEnd.length
          let rest := scan (item.drop completeLength)
          (rest.1, item.take completeLength :: rest.2)
  | none => (buffer.drop (buffer.length - metadataStartSuffix buffer), [])
termination_by buffer.length
decreasing_by
  obtain ⟨start, inside⟩ := boundedFind_some _hit
  have long : 6 ≤ item.length := start.length_le
  have less := inside.length_le
  have seven : itemEnd.length = 7 := rfl
  rw [List.length_drop]
  omega

theorem scan_length (buffer : List UInt8) : (scan buffer).1.length ≤ buffer.length := by
  fun_induction scan buffer with
  | case1 buffer item hit open_ =>
      have inside := (boundedFind_some hit).2.length_le
      split
      · exact Nat.zero_le _
      · exact inside
  | case2 buffer item hit stop closed completeLength rest ih =>
      have inside := (boundedFind_some hit).2.length_le
      rw [List.length_drop] at ih
      exact ih.trans ((Nat.sub_le _ _).trans inside)
  | case3 buffer miss =>
      rw [List.length_drop]
      omega

/-- The bytes in use of `item`. -/
@[ext] structure MetadataParser where
  item : List UInt8 := []
  fits : item.length ≤ airplayMetadataItemMax := by decide

namespace MetadataParser

/-- The byte at the end of the buffer, which is emptied when it is full. -/
def append (parser : MetadataParser) (b : UInt8) : MetadataParser where
  item := (if airplayMetadataItemMax ≤ parser.item.length then [] else parser.item) ++ [b]
  fits := by
    rw [List.length_append, List.length_singleton]
    split
    case isTrue => decide
    case isFalse room => omega

def feedByte (parser : MetadataParser) (b : UInt8) : MetadataParser × List (List UInt8) :=
  if b = 0 then ({}, [])
  else
    let scanned := scan (parser.append b).item
    (⟨scanned.1, (scan_length _).trans (parser.append b).fits⟩, scanned.2)

/-- `metadata_parser_feed`, with what it hands on. -/
def feed (parser : MetadataParser) : List UInt8 → MetadataParser × List (List UInt8)
  | [] => (parser, [])
  | b :: input =>
      let fed := parser.feedByte b
      let rest := fed.1.feed input
      (rest.1, fed.2 ++ rest.2)

/-- The reads of `metadata_fifo_drain`. -/
def feedReads (parser : MetadataParser) : List (List UInt8) → MetadataParser × List (List UInt8)
  | [] => (parser, [])
  | input :: reads =>
      let fed := parser.feed input
      let rest := fed.1.feedReads reads
      (rest.1, fed.2 ++ rest.2)

theorem feed_append (parser : MetadataParser) (front back : List UInt8) :
    parser.feed (front ++ back) =
      (((parser.feed front).1.feed back).1,
        (parser.feed front).2 ++ ((parser.feed front).1.feed back).2) := by
  induction front generalizing parser with
  | nil => rfl
  | cons b front ih => simp only [List.cons_append, feed, ih, List.append_assoc]

theorem feedReads_flatten (parser : MetadataParser) (reads : List (List UInt8)) :
    parser.feedReads reads = parser.feed reads.flatten := by
  induction reads generalizing parser with
  | nil => rfl
  | cons input reads ih => simp only [feedReads, List.flatten_cons, feed_append, ih]

theorem feed_nul (parser : MetadataParser) (front : List UInt8) :
    parser.feed (front ++ [0]) = ({}, (parser.feed front).2) := by
  rw [feed_append]
  simp [feed, feedByte]

end MetadataParser

structure WellFormed (bytes : List UInt8) : Prop where
  starts : itemStart <+: bytes
  ends : itemEnd <:+ bytes
  first : ¬ itemEnd <:+: bytes.dropLast
  noNul : 0 ∉ bytes
  fits : bytes.length ≤ airplayMetadataItemMax

inductive Piece where
  | item (bytes : List UInt8) (wellFormed : WellFormed bytes)
  /-- A separator without `<`. -/
  | plain (bytes : List UInt8) (noStart : 0x3c ∉ bytes)
  /-- Any bytes that end in a NUL. -/
  | cut (bytes : List UInt8)

namespace Piece

def bytes : Piece → List UInt8
  | item bytes _ => bytes
  | plain bytes _ => bytes
  | cut bytes => bytes ++ [0]

/-- What is handed on for a piece; bytes before a NUL may hold items of their own. -/
def handed : Piece → List (List UInt8)
  | item bytes _ => [bytes]
  | plain _ _ => []
  | cut bytes => (MetadataParser.feed {} bytes).2

end Piece

/-! ### The buffer while an item comes in -/

theorem boundedFind_here {needle : List UInt8} (some : needle ≠ []) (rest : List UInt8) :
    boundedFind (needle ++ rest) needle = .some (needle ++ rest) := by
  rw [boundedFind, if_neg, strstr_here]
  rw [List.length_append]
  exact not_or.mpr ⟨some, by omega⟩

theorem scan_beginning {buffer : List UInt8} (front : buffer <+: itemStart)
    (short : buffer.length < itemStart.length) : scan buffer = (buffer, []) := by
  have miss : boundedFind buffer itemStart = none := by rw [boundedFind, if_pos (.inr short)]
  have whole : metadataStartSuffix buffer = buffer.length := by
    rw [metadataStartSuffix, if_pos short]
    cases length : buffer.length with
    | zero => rfl
    | succ keep =>
        rw [startSuffixLoop, if_pos]
        rw [length, Nat.sub_self, List.drop_zero, ← length]
        exact List.prefix_iff_eq_take.mp front
  rw [scan]
  split
  case h_1 item hit => rw [miss] at hit; cases hit
  case h_2 => rw [whole, Nat.sub_self, List.drop_zero]

theorem scan_open {buffer : List UInt8} (start : itemStart <+: buffer)
    (open_ : ¬ itemEnd <:+: buffer) (room : buffer.length < airplayMetadataItemMax) :
    scan buffer = (buffer, []) := by
  obtain ⟨rest, rfl⟩ := start
  have found : boundedFind (itemStart ++ rest) itemStart = some (itemStart ++ rest) :=
    boundedFind_here (by decide) rest
  rw [scan]
  split
  case h_2 miss => rw [found] at miss; cases miss
  case h_1 item hit =>
    obtain rfl := Option.some.inj (found.symm.trans hit)
    rw [boundedFind_none open_]
    simp only [if_neg (Nat.not_le.mpr room)]

theorem scan_empty : scan [] = ([], []) :=
  scan_beginning (List.nil_prefix) (by decide)

theorem WellFormed.stop {bytes : List UInt8} (wellFormed : WellFormed bytes) :
    boundedFind bytes itemEnd = some itemEnd := by
  obtain ⟨front, rfl⟩ := wellFormed.ends
  have found : (strstr itemEnd (front ++ itemEnd)).isSome = true :=
    strstr_infix ⟨front, [], by rw [List.append_nil]⟩
  obtain ⟨stop, hit⟩ := Option.isSome_iff_exists.mp found
  obtain ⟨⟨rest, rfl⟩, inside⟩ := strstr_some hit
  cases rest using List.reverseRecOn with
  | nil =>
      rw [boundedFind, if_neg, hit, List.append_nil]
      rw [List.length_append]
      exact not_or.mpr ⟨by decide, by omega⟩
  | append_singleton rest b =>
      -- an end before the last byte
      refine absurd ?_ wellFormed.first
      obtain ⟨before, same⟩ := inside
      rw [← same, ← List.append_assoc, ← List.append_assoc, List.dropLast_concat]
      exact ⟨before, rest, rfl⟩

theorem scan_whole {bytes : List UInt8} (wellFormed : WellFormed bytes) :
    scan bytes = ([], [bytes]) := by
  obtain ⟨rest, same⟩ := wellFormed.starts
  have found : boundedFind bytes itemStart = some bytes := by
    rw [← same]
    exact boundedFind_here (by decide) rest
  have length := wellFormed.ends.length_le
  rw [scan]
  split
  case h_2 miss => rw [found] at miss; cases miss
  case h_1 item hit =>
    obtain rfl := Option.some.inj (found.symm.trans hit)
    rw [wellFormed.stop]
    simp only [Nat.sub_add_cancel length, List.drop_length, List.take_length, scan_empty]

theorem scan_plain {b : UInt8} (other : b ≠ 0x3c) : scan [b] = ([], []) := by
  have miss : boundedFind [b] itemStart = none := rfl
  have nothing : metadataStartSuffix [b] = 0 := by
    have short : [b].length < itemStart.length := by
      rw [List.length_singleton]
      decide
    rw [metadataStartSuffix, if_pos short, List.length_singleton, startSuffixLoop, if_neg]
    · rfl
    · intro begins
      exact other (List.cons.inj begins).1
  rw [scan]
  split
  case h_1 item hit => rw [miss] at hit; cases hit
  case h_2 => rw [nothing]; rfl

namespace MetadataParser

theorem feedByte_room (parser left : MetadataParser) {b : UInt8} {handed : List (List UInt8)}
    (byte : b ≠ 0) (room : parser.item.length < airplayMetadataItemMax)
    (scanned : scan (parser.item ++ [b]) = (left.item, handed)) :
    parser.feedByte b = (left, handed) := by
  have buffer : (parser.append b).item = parser.item ++ [b] := by
    simp only [append, if_neg (Nat.not_le.mpr room)]
  rw [feedByte, if_neg byte]
  refine Prod.ext (MetadataParser.ext ?_) ?_
  · simp only [buffer, scanned]
  · simp only [buffer, scanned]

theorem feed_beginning {bytes : List UInt8} (wellFormed : WellFormed bytes) {front : List UInt8}
    (proper : front <+: bytes.dropLast) :
    ∃ fits, MetadataParser.feed {} front = (⟨front, fits⟩, []) := by
  induction front using List.reverseRecOn with
  | nil => exact ⟨Nat.zero_le _, rfl⟩
  | append_singleton front b ih =>
      obtain ⟨fits, fed⟩ := ih ((List.prefix_append front [b]).trans proper)
      have inside : front ++ [b] <+: bytes := proper.trans (List.dropLast_prefix bytes)
      have byte : b ≠ 0 := fun zero => wellFormed.noNul (inside.subset (by simp [zero]))
      have short : (front ++ [b]).length < airplayMetadataItemMax := by
        have less := proper.length_le
        have bound := wellFormed.fits
        have some : 0 < itemStart.length := by decide
        have long := wellFormed.starts.length_le
        rw [List.length_dropLast] at less
        omega
      have scanned : scan (front ++ [b]) = (front ++ [b], []) := by
        obtain begins | begun := List.prefix_or_prefix_of_prefix inside wellFormed.starts
        · by_cases whole : (front ++ [b]).length < itemStart.length
          · exact scan_beginning begins whole
          · have same := begins.eq_of_length_le (Nat.not_lt.mp whole)
            exact scan_open (same ▸ List.prefix_rfl)
              (fun closed => wellFormed.first (closed.trans proper.isInfix)) short
        · exact scan_open begun
            (fun closed => wellFormed.first (closed.trans proper.isInfix)) short
      refine ⟨short.le, ?_⟩
      have room : front.length < airplayMetadataItemMax := by
        rw [List.length_append] at short
        omega
      rw [feed_append, fed]
      simp only [feed, feedByte_room ⟨front, fits⟩ ⟨front ++ [b], short.le⟩ byte room scanned,
        List.append_nil]

theorem feed_item {bytes : List UInt8} (wellFormed : WellFormed bytes) :
    MetadataParser.feed {} bytes = ({}, [bytes]) := by
  have some : bytes ≠ [] := by
    intro none
    have starts := wellFormed.starts
    rw [none] at starts
    cases List.prefix_nil.mp starts
  obtain ⟨fits, fed⟩ := feed_beginning wellFormed (List.prefix_refl bytes.dropLast)
  have parts := List.dropLast_concat_getLast some
  have byte : bytes.getLast some ≠ 0 := fun zero =>
    wellFormed.noNul (zero ▸ List.getLast_mem some)
  have room : bytes.dropLast.length < airplayMetadataItemMax := by
    have bound := wellFormed.fits
    have long := List.length_pos_iff.mpr some
    rw [List.length_dropLast]
    omega
  have scanned : scan (bytes.dropLast ++ [bytes.getLast some]) = ([], [bytes]) := by
    rw [parts]
    exact scan_whole wellFormed
  have last := feedByte_room ⟨bytes.dropLast, fits⟩ {} byte room scanned
  calc MetadataParser.feed {} bytes
      = MetadataParser.feed {} (bytes.dropLast ++ [bytes.getLast some]) := by rw [parts]
    _ = ({}, [bytes]) := by
        rw [feed_append, fed]
        simp only [feed, last, List.nil_append, List.append_nil]

theorem feed_plain {bytes : List UInt8} (noStart : 0x3c ∉ bytes) :
    MetadataParser.feed {} bytes = ({}, []) := by
  induction bytes with
  | nil => rfl
  | cons b bytes ih =>
      obtain ⟨other, noStart⟩ := List.ne_and_not_mem_of_not_mem_cons noStart
      have fed : MetadataParser.feedByte {} b = ({}, []) := by
        by_cases zero : b = 0
        · rw [feedByte, if_pos zero]
        · exact feedByte_room {} {} zero (by decide) (scan_plain other.symm)
      simp only [feed, fed, ih noStart, List.append_nil]

theorem feed_piece (piece : Piece) : MetadataParser.feed {} piece.bytes = ({}, piece.handed) := by
  cases piece with
  | item bytes wellFormed => exact feed_item wellFormed
  | plain bytes noStart => exact feed_plain noStart
  | cut bytes => exact feed_nul {} bytes

theorem feed_pieces (pieces : List Piece) :
    MetadataParser.feed {} (pieces.flatMap Piece.bytes) = ({}, pieces.flatMap Piece.handed) := by
  induction pieces with
  | nil => rfl
  | cons piece pieces ih => simp only [List.flatMap_cons, feed_append, feed_piece, ih]

end MetadataParser

/--
Every item of a stream is handed on once, in order and as it is, however the stream is read;
behind a NUL this holds whatever came before. The buffer is never used beyond its bound.
-/
theorem metadataScanner_law (parser : MetadataParser) (reads : List (List UInt8)) :
    (∀ pieces : List Piece, reads.flatten = pieces.flatMap Piece.bytes →
      MetadataParser.feedReads {} reads = ({}, pieces.flatMap Piece.handed)) ∧
    (∀ (front : List UInt8) (pieces : List Piece),
      reads.flatten = front ++ 0 :: pieces.flatMap Piece.bytes →
      parser.feedReads reads = ({}, (parser.feed front).2 ++ pieces.flatMap Piece.handed)) ∧
    (parser.feedReads reads).1.item.length ≤ airplayMetadataItemMax ∧
    ∀ b, ((parser.feedReads reads).1.append b).item.length ≤ airplayMetadataItemMax := by
  refine ⟨fun pieces cut => ?_, fun front pieces cut => ?_, MetadataParser.fits _,
    fun b => MetadataParser.fits _⟩
  · rw [MetadataParser.feedReads_flatten, cut, MetadataParser.feed_pieces]
  · rw [MetadataParser.feedReads_flatten, cut, ← List.singleton_append, ← List.append_assoc,
      MetadataParser.feed_append, MetadataParser.feed_nul, MetadataParser.feed_pieces]

/-- Two items and a line end between them, in three reads. -/
theorem metadataScanner_law_reads :
    (MetadataParser.feedReads {}
      [ascii "<ite", ascii "m>a</item>\n<item>b</i", ascii "tem>"]).2 =
      [ascii "<item>a</item>", ascii "<item>b</item>"] := by
  have first : WellFormed (ascii "<item>a</item>") :=
    ⟨by decide, by decide, by decide, by decide, by decide⟩
  have second : WellFormed (ascii "<item>b</item>") :=
    ⟨by decide, by decide, by decide, by decide, by decide⟩
  have found := (metadataScanner_law {} [ascii "<ite", ascii "m>a</item>\n<item>b</i",
    ascii "tem>"]).1 [.item _ first, .plain (ascii "\n") (by decide), .item _ second] (by
      simp only [List.flatMap_cons, Piece.bytes]
      decide)
  rw [found]
  simp only [List.flatMap_cons, List.flatMap_nil, Piece.handed, List.singleton_append,
    List.nil_append]

/-! ### Any stream -/

/-- The items are parts of the stream, apart from each other and in its order. -/
inductive Spread : List (List UInt8) → List UInt8 → Prop
  | rest (bytes : List UInt8) : Spread [] bytes
  | item {items : List (List UInt8)} {bytes : List UInt8} (gap item : List UInt8)
      (later : Spread items bytes) : Spread (item :: items) (gap ++ (item ++ bytes))

theorem Spread.behind {items : List (List UInt8)} {bytes : List UInt8} (gap : List UInt8)
    (spread : Spread items bytes) : Spread items (gap ++ bytes) := by
  cases spread with
  | rest bytes => exact .rest _
  | item inner item later =>
      rw [← List.append_assoc]
      exact .item _ item later

theorem Spread.append {front back : List (List UInt8)} {s t : List UInt8}
    (spread : Spread front s) (later : Spread back t) : Spread (front ++ back) (s ++ t) := by
  induction spread with
  | rest bytes => exact later.behind bytes
  | item gap item _ ih =>
      simp only [List.append_assoc]
      exact .item gap item ih

structure Handed (items : List (List UInt8)) (bytes : List UInt8) : Prop where
  wellFormed : ∀ item ∈ items, WellFormed item
  spread : Spread items bytes

theorem boundedFind_first {front found needle : List UInt8}
    (hit : boundedFind (front ++ found) needle = some found) :
    ¬ needle <:+: (front ++ needle).dropLast := by
  rw [boundedFind] at hit
  split at hit
  case isTrue => cases hit
  case isFalse other => exact strstr_first hit (not_or.mp other).1

theorem scan_handed {buffer : List UInt8} (fits : buffer.length ≤ airplayMetadataItemMax)
    (noNul : 0 ∉ buffer) :
    ∃ front, buffer = front ++ (scan buffer).1 ∧ Handed (scan buffer).2 front := by
  fun_induction scan buffer with
  | case1 buffer item hit open_ =>
      obtain ⟨before, rfl⟩ := (boundedFind_some hit).2
      split
      · exact ⟨before ++ item, (List.append_nil _).symm, by simp, .rest _⟩
      · exact ⟨before, rfl, by simp, .rest _⟩
  | case2 buffer item hit stop closed completeLength rest ih =>
      obtain ⟨starts, before, rfl⟩ := boundedFind_some hit
      obtain ⟨⟨tail, rfl⟩, front, rfl⟩ := boundedFind_some closed
      have whole : completeLength = (front ++ itemEnd).length := by
        simp only [completeLength, List.length_append]
        omega
      have cut : (front ++ (itemEnd ++ tail)).take completeLength = front ++ itemEnd := by
        rw [← List.append_assoc, whole, List.take_left]
      have left : (front ++ (itemEnd ++ tail)).drop completeLength = tail := by
        rw [← List.append_assoc, whole, List.drop_left]
      rw [left] at ih
      simp only [List.length_append] at fits
      simp only [List.mem_append, not_or] at noNul
      obtain ⟨gap, split, handed⟩ := ih (by omega) noNul.2.2.2
      have item : WellFormed (front ++ itemEnd) := by
        constructor
        case starts =>
          refine List.prefix_of_prefix_length_le starts ?_ ?_
          · exact ⟨tail, List.append_assoc _ _ _⟩
          · rw [List.length_append]
            exact Nat.le_add_left_of_le (by decide)
        case ends => exact List.suffix_append front itemEnd
        case first => exact boundedFind_first closed
        case noNul =>
          simp only [List.mem_append, not_or]
          exact ⟨noNul.2.1, noNul.2.2.1⟩
        case fits =>
          rw [List.length_append]
          omega
      refine ⟨before ++ (front ++ itemEnd ++ gap), ?_, ?_, ?_⟩
      · simp only [rest, left, List.append_assoc]
        rw [← split]
      · simp only [rest, left, cut]
        exact List.forall_mem_cons.mpr ⟨item, handed.wellFormed⟩
      · simp only [rest, left, cut]
        exact .item before (front ++ itemEnd) handed.spread
  | case3 buffer miss =>
      exact ⟨_, (List.take_append_drop _ buffer).symm, by simp, .rest _⟩

namespace MetadataParser

theorem feedByte_handed {parser : MetadataParser} (noNul : 0 ∉ parser.item) (b : UInt8) :
    0 ∉ (parser.feedByte b).1.item ∧ ∃ front,
      parser.item ++ [b] = front ++ (parser.feedByte b).1.item ∧
        Handed (parser.feedByte b).2 front := by
  rw [feedByte]
  split
  case isTrue => exact ⟨by simp, parser.item ++ [b], (List.append_nil _).symm, by simp, .rest _⟩
  case isFalse other =>
    have clean : 0 ∉ (parser.append b).item := by
      simp only [append, List.mem_append, List.mem_singleton, not_or]
      refine ⟨?_, Ne.symm other⟩
      split
      · simp
      · exact noNul
    obtain ⟨front, split, handed⟩ := scan_handed (parser.append b).fits clean
    refine ⟨fun zero => clean ?_, ?_⟩
    · rw [split]
      exact List.mem_append_right front zero
    by_cases full : airplayMetadataItemMax ≤ parser.item.length
    · simp only [append, if_pos full, List.nil_append] at split handed ⊢
      refine ⟨parser.item ++ front, ?_, handed.wellFormed, handed.spread.behind _⟩
      rw [List.append_assoc, ← split]
    · simp only [append, if_neg full] at split handed ⊢
      exact ⟨front, split, handed⟩

theorem feed_handed {parser : MetadataParser} (noNul : 0 ∉ parser.item) (input : List UInt8) :
    Handed (parser.feed input).2 (parser.item ++ input) := by
  induction input generalizing parser with
  | nil => exact ⟨by simp [feed], .rest _⟩
  | cons b input ih =>
      obtain ⟨clean, front, split, handed⟩ := feedByte_handed noNul b
      have rest := ih clean
      rw [← List.singleton_append, ← List.append_assoc, split, List.append_assoc]
      exact ⟨List.forall_mem_append.mpr ⟨handed.wellFormed, rest.wellFormed⟩,
        handed.spread.append rest.spread⟩

end MetadataParser

/-- Whatever arrives, only whole items are handed on, each as it stands in the stream. -/
theorem metadataScanner_sound (reads : List (List UInt8)) :
    Handed (MetadataParser.feedReads {} reads).2 reads.flatten := by
  rw [MetadataParser.feedReads_flatten]
  exact MetadataParser.feed_handed (by simp) reads.flatten
end LibreEcho.Airplay
