import LibreEcho.Update.Identity
import Mathlib

/-!
The values `update_record_read` reports against the lines of the record.
-/
namespace LibreEcho.Update

open CText (ofBuffer readLines linesOf chop)

/-! ### The reader and what it is for -/

/-- What the reads of `fgets` return. -/
def recordPieces (file : CText) : List CText :=
  readLines recordLineMax file

/-- The field has no value before this piece and one after it. -/
def Supplies (fields : List LeUpdateField) (front : List CText) (piece : CText) (i : Nat) : Prop :=
  ∃ r r', (recordPass (front.map ofBuffer) (fields.map .start))[i]? = some r ∧
    (recordPass ((front ++ [piece]).map ofBuffer) (fields.map .start))[i]? = some r' ∧
    r.taken = false ∧ r'.taken = true

def StartsLine (front : List CText) : Prop :=
  front.flatten = [] ∨ front.flatten.getLast? = some '\n'

/-- The value of the first line of the file that begins with the key and `=`. -/
def FromFirstLine (f : LeUpdateField) (key file value : CText) : Prop :=
  ∃ before line after, linesOf file = before ++ line :: after ∧
    (∀ l ∈ before, ¬ Carries key l) ∧ Carries key line ∧ value = lineText f key line

structure Correct (file : CText) (fields : List LeUpdateField) (i : Nat) (f : LeUpdateField)
    (key : CText) (r : Reading) : Prop where
  fromLine : ∃ value, r.field.value = some value ∧ FromFirstLine f key file value ∧
    identityValid key value = true
  notInside : ∀ front piece back, recordPieces file = front ++ piece :: back →
    Supplies fields front piece i → StartsLine front

/-- Every field that is reported is the first line's; no text inside a line supplies a value. -/
def CorrectLineReader (file : CText) (fields : List LeUpdateField) : Prop :=
  ∀ i f r key, fields[i]? = some f →
    (updateRecordRead (.content file) fields).2[i]? = some r → f.usable = true →
    f.key = some key → r.taken = true → Correct file fields i f key r

/-- The layout under which a field is read right: the first piece of a line, 511 bytes each, that
offers a value that would be reported is the front of the first line that begins with the key, and
the value does not go on behind the piece, unless the buffer is shorter. -/
def Undivided (file : CText) (f : LeUpdateField) (key : CText) : Prop :=
  ∀ before line after pre piece post, linesOf file = before ++ line :: after →
    chop (recordLineMax - 1) line = pre ++ piece :: post →
    (∀ l ∈ before, ∀ p ∈ chop (recordLineMax - 1) l, ¬ Offers f key p) →
    (∀ p ∈ pre, ¬ Offers f key p) → Offers f key piece →
    identityValid key (valueOf key piece) = true →
    pre = [] ∧ (∀ l ∈ before, ¬ Carries key l) ∧
      ((valueOf key line).length + key.length + 1 < recordLineMax ∨
        f.size + key.length < recordLineMax)

/-! ### The result for one field -/

theorem recordPieces_lines (file : CText) :
    recordPieces file = (linesOf file).flatMap (chop (recordLineMax - 1)) :=
  CText.readLines_lines (by decide) file

theorem recordPieces_short (file : CText) : ∀ p ∈ recordPieces file, p.length < recordLineMax := by
  intro p inside
  rw [recordPieces_lines] at inside
  obtain ⟨line, -, within⟩ := List.mem_flatMap.mp inside
  exact Nat.lt_of_le_of_lt (CText.chop_piece (by decide) line p within).2 (by decide)

section Field
variable {f : LeUpdateField} {key : CText}

theorem identityValid_other (opaque_ : ¬ identityKey key = true) (value : CText) :
    identityValid key value = true := by
  rw [identityKey, Bool.or_eq_true, beq_iff_eq, beq_iff_eq, not_or] at opaque_
  rw [identityValid, if_neg opaque_.1, if_neg opaque_.2]

theorem lineText_valid (line : CText) :
    identityValid key (lineText f key line) = identityValid key (valueOf key line) := by
  rw [lineText]
  split
  · rfl
  · next opaque_ => rw [identityValid_other opaque_, identityValid_other opaque_]

theorem usable_value (usable : f.usable = true) (value : CText) :
    { f with value := some value }.usable = true := by
  rw [LeUpdateField.usable] at usable ⊢
  simp only [Bool.and_eq_true, decide_eq_true_eq] at usable ⊢
  exact ⟨⟨usable.1.1, rfl⟩, usable.2⟩

theorem conclude_taken (usable : f.usable = true) (named : f.key = some key) (value : CText) :
    ((⟨{ f with value := some value }, true⟩ : Reading).conclude.taken = true ↔
      identityValid key value = true) ∧
    (identityValid key value = true →
      (⟨{ f with value := some value }, true⟩ : Reading).conclude =
        ⟨{ f with value := some value }, true⟩) := by
  have kept := usable_value usable value
  obtain ⟨_, _, _, _⟩ := f
  obtain rfl := named
  rw [Reading.conclude, if_pos kept]
  dsimp only [Option.getD]
  by_cases exact_ : identityKey key = true
  · rw [if_pos exact_]
    simp only [Bool.true_and]
    by_cases valid : identityValid key value = true
    · rw [if_pos valid]
      exact ⟨iff_of_true rfl valid, fun _ => rfl⟩
    · rw [if_neg valid]
      exact ⟨iff_of_false nofun valid, fun holds => absurd holds valid⟩
  · rw [if_neg exact_]
    exact ⟨iff_of_true rfl (identityValid_other exact_ value), fun _ => rfl⟩

theorem conclude_start (usable : f.usable = true) (named : f.key = some key) :
    (Reading.start f).conclude.taken = false := by
  obtain ⟨_, _, _, _⟩ := f
  obtain rfl := named
  rw [Reading.conclude, Reading.start, if_pos usable]
  dsimp only
  split
  · rfl
  · rfl

end Field

theorem updateRecordRead_field {file : CText} {fields : List LeUpdateField} {i : Nat}
    {f : LeUpdateField} (found : fields[i]? = some f) (usable : f.usable = true)
    (few : fields.length ≤ leUpdateRecordFieldMax) :
    (updateRecordRead (.content file) fields).2[i]? =
      some (offerAll (recordPieces file) (.start f)).conclude := by
  have member := List.mem_of_getElem? found
  have waiting : pending (fields.map .start) ≠ 0 := by
    refine Nat.ne_of_gt (List.countP_pos_iff.mpr ⟨.start f, List.mem_map_of_mem member, ?_⟩)
    rw [Reading.start, usable]
    rfl
  rw [updateRecordRead, if_neg (by
    rintro (none | many | idle)
    · rw [none] at member
      exact absurd member List.not_mem_nil
    · omega
    · exact waiting idle)]
  rw [updateRecordRead.report, recordLines, recordPass_eq, List.map_map, List.map_map,
    List.getElem?_map, found]
  rfl

theorem updateRecordRead_many {file : CText} {fields : List LeUpdateField}
    (many : leUpdateRecordFieldMax < fields.length) :
    (updateRecordRead (.content file) fields).2 = fields.map .start := by
  rw [updateRecordRead, if_pos (.inr (.inl many))]

/-! ### First occurrences -/

theorem first_unique {α : Type} {P : α → Prop} {front front' back back' : List α} {x x' : α}
    (same : front ++ x :: back = front' ++ x' :: back') (none : ∀ y ∈ front, ¬ P y) (here : P x)
    (none' : ∀ y ∈ front', ¬ P y) (here' : P x') : front = front' ∧ x = x' ∧ back = back' := by
  rcases List.append_eq_append_iff.mp same with ⟨a, rfl, rest⟩ | ⟨a, rfl, rest⟩
  · cases a with
    | nil =>
        obtain ⟨first, later⟩ := List.cons.inj rest
        exact ⟨(List.append_nil _).symm, first, later⟩
    | cons y a =>
        obtain ⟨rfl, -⟩ := List.cons.inj rest
        exact absurd here (none' x (List.mem_append_right _ List.mem_cons_self))
  · cases a with
    | nil =>
        obtain ⟨first, later⟩ := List.cons.inj rest
        exact ⟨List.append_nil _, first.symm, later.symm⟩
    | cons y a =>
        obtain ⟨rfl, -⟩ := List.cons.inj rest
        exact absurd here' (none x' (List.mem_append_right _ List.mem_cons_self))

theorem flatMap_split {α β : Type} {g : α → List β} {xs : List α} {front back : List β} {y : β}
    (pieces : xs.flatMap g = front ++ y :: back) :
    ∃ before x after pre post, xs = before ++ x :: after ∧ g x = pre ++ y :: post ∧
      front = before.flatMap g ++ pre ∧ back = post ++ after.flatMap g := by
  induction xs generalizing front with
  | nil => exact absurd pieces (by simp)
  | cons x xs ih =>
      rw [List.flatMap_cons] at pieces
      rcases List.append_eq_append_iff.mp pieces with ⟨a, rfl, rest⟩ | ⟨a, own, rest⟩
      · obtain ⟨before, x', after, pre, post, rfl, own, rfl, rfl⟩ := ih rest
        exact ⟨x :: before, x', after, pre, post, rfl, own, by
          rw [List.flatMap_cons, List.append_assoc], rfl⟩
      · cases a with
        | nil =>
            obtain ⟨before, x', after, pre, post, rfl, own', nothing, rfl⟩ := @ih [] rest.symm
            refine ⟨x :: before, x', after, pre, post, rfl, own', ?_, rfl⟩
            rw [List.flatMap_cons, own, List.append_nil, List.append_assoc, ← nothing,
              List.append_nil]
        | cons z a =>
            obtain ⟨rfl, rfl⟩ := List.cons.inj rest
            exact ⟨[], x, xs, front, a, rfl, own, rfl, rfl⟩

/-! ### Pieces of a line -/

section Piece
variable {f : LeUpdateField} {key : CText}

theorem valueOf_take (line : CText) (room : Nat) :
    valueOf key (line.take room) = (valueOf key line).take (room - (key.length + 1)) := by
  rw [valueOf, valueOf, List.take_takeWhile, List.drop_take]

theorem carries_take {line : CText} {room : Nat} (fits : key.length + 1 ≤ room) :
    Carries key (line.take room) ↔ Carries key line := by
  constructor
  · exact fun front => front.trans (List.take_prefix _ _)
  · intro front
    refine List.prefix_take_iff.mpr ⟨front, ?_⟩
    rw [marked_length]
    exact fits

theorem lineText_take {line : CText} {room : Nat} (some_ : 0 < f.size) :
    lineText f key (line.take room) = lineText f key line ↔
      (valueOf key line).length ≤ room - (key.length + 1) ∨
        (¬ identityKey key = true ∧ f.size - 1 ≤ room - (key.length + 1)) := by
  rw [lineText, lineText, valueOf_take]
  by_cases exact_ : identityKey key = true
  · rw [if_pos exact_, if_pos exact_]
    constructor
    · intro same
      have lengths := congrArg List.length same
      rw [List.length_take] at lengths
      exact .inl (by omega)
    · exact fun fits => List.take_of_length_le (fits.resolve_right fun other => other.1 exact_)
  · rw [if_neg exact_, if_neg exact_, List.take_take]
    constructor
    · intro same
      have lengths := congrArg List.length same
      rw [List.length_take, List.length_take] at lengths
      by_cases short : (valueOf key line).length ≤ room - (key.length + 1)
      · exact .inl short
      · exact .inr ⟨exact_, by omega⟩
    · rintro (short | ⟨-, small⟩)
      · by_cases less : f.size - 1 ≤ room - (key.length + 1)
        · rw [Nat.min_eq_left less]
        · rw [Nat.min_eq_right (by omega), List.take_of_length_le short,
            List.take_of_length_le (by omega)]
      · rw [Nat.min_eq_left small]

theorem identityValid_length {value : CText} (exact_ : identityKey key = true)
    (valid : identityValid key value = true) : value.length ≤ 64 := by
  have rest_length {rest : CText} (tag : tagRestValid rest = true) : rest.length = 41 := by
    rw [tagRestValid] at tag
    simp only [Bool.and_eq_true, beq_iff_eq] at tag
    exact tag.2
  rw [identityKey, Bool.or_eq_true, beq_iff_eq, beq_iff_eq] at exact_
  rw [identityValid] at valid
  split at valid
  case isTrue =>
    rw [updateIdentityTagValid] at valid
    split at valid
    case isTrue =>
      have rest := rest_length valid
      rw [List.length_drop, show tagPrefixBuild.length = 19 from by decide +kernel] at rest
      omega
    case isFalse =>
      split at valid
      case isTrue =>
        have rest := rest_length valid
        rw [List.length_drop, show tagPrefixNightly.length = 21 from by decide +kernel] at rest
        omega
      case isFalse => exact absurd valid (by rintro ⟨⟩)
  case isFalse tag =>
    rw [if_pos (exact_.resolve_left tag), updateIdentitySha256Valid, Bool.and_eq_true,
      beq_iff_eq] at valid
    omega

theorem identityKey_length (exact_ : identityKey key = true) : key.length ≤ 20 := by
  rw [identityKey, Bool.or_eq_true, beq_iff_eq, beq_iff_eq] at exact_
  rcases exact_ with rfl | rfl
  · decide +kernel
  · decide +kernel

end Piece

/-! ### The law -/

section Law
variable {file : CText} {fields : List LeUpdateField} {i : Nat} {f : LeUpdateField} {key : CText}

theorem usable_size (usable : f.usable = true) : 0 < f.size := by
  rw [LeUpdateField.usable] at usable
  simp at usable
  omega

theorem supplies_iff (found : fields[i]? = some f) (front : List CText) (piece : CText) :
    Supplies fields front piece i ↔
      (offerAll front (.start f)).taken = false ∧
      (offerAll (front ++ [piece]) (.start f)).taken = true := by
  have place (pieces : List CText) :
      (recordPass (pieces.map ofBuffer) (fields.map .start))[i]? =
        some (offerAll pieces (.start f)) := by
    rw [recordPass_eq, List.map_map, List.getElem?_map, found]
    rfl
  rw [Supplies]
  constructor
  · rintro ⟨r, r', before, after, waits, taken⟩
    obtain rfl := Option.some.inj ((place _).symm.trans before)
    obtain rfl := Option.some.inj ((place _).symm.trans after)
    exact ⟨waits, taken⟩
  · exact fun taken => ⟨_, _, place _, place _, taken⟩

theorem offerAll_iff (usable : f.usable = true) (named : f.key = some key) {pieces : List CText}
    (short : ∀ p ∈ pieces, p.length < recordLineMax) :
    (offerAll pieces (.start f)).taken = true ↔ ∃ p ∈ pieces, Offers f key p := by
  constructor
  · intro taken
    obtain ⟨front, piece, back, rfl, -, offers⟩ := offerAll_taken usable named short taken
    exact ⟨piece, List.mem_append_right _ List.mem_cons_self, offers⟩
  · rintro ⟨p, inside, offers⟩
    cases first : pieces.find? fun p => decide (Offers f key p) with
    | none => exact absurd (decide_eq_true offers) (List.find?_eq_none.mp first p inside)
    | some piece =>
        obtain ⟨own, front, back, rfl, refused⟩ := List.find?_eq_some_iff_append.mp first
        have before : ∀ p ∈ front, ¬ Offers f key p :=
          fun p within offers => by simpa [offers] using refused p within
        rw [offerAll_first usable named short before (of_decide_eq_true own)]

theorem supplies_first (found : fields[i]? = some f) (usable : f.usable = true)
    (named : f.key = some key) {front back : List CText} {piece : CText}
    (short : ∀ p ∈ front ++ piece :: back, p.length < recordLineMax) :
    Supplies fields front piece i ↔ (∀ p ∈ front, ¬ Offers f key p) ∧ Offers f key piece := by
  have less : ∀ p ∈ front ++ piece :: [], p.length < recordLineMax := by
    rw [List.forall_mem_append, List.forall_mem_cons] at short ⊢
    exact ⟨short.1, short.2.1, nofun⟩
  have front_less : ∀ p ∈ front, p.length < recordLineMax :=
    fun p inside => less p (List.mem_append_left _ inside)
  rw [supplies_iff found]
  constructor
  · rintro ⟨waits, taken⟩
    have refused : ∀ p ∈ front, ¬ Offers f key p := by
      intro p inside offers
      rw [(offerAll_iff usable named front_less).mpr ⟨p, inside, offers⟩] at waits
      cases waits
    obtain ⟨p, inside, offers⟩ := (offerAll_iff usable named less).mp taken
    rcases List.mem_append.mp inside with own | last
    · exact absurd offers (refused p own)
    · exact ⟨refused, List.mem_singleton.mp last ▸ offers⟩
  · rintro ⟨refused, offers⟩
    rw [offerAll_none usable named front_less refused,
      offerAll_first usable named less refused offers]
    exact ⟨rfl, rfl⟩

theorem flatMap_chop (lines : List CText) :
    (lines.flatMap (chop (recordLineMax - 1))).flatten = lines.flatten := by
  induction lines with
  | nil => rfl
  | cons line lines ih =>
      rw [List.flatMap_cons, List.flatten_append, ih, CText.chop_flatten (by decide),
        List.flatten_cons]

theorem startsLine_iff {before after : List CText} {line piece : CText} {pre post : List CText}
    (lines : linesOf file = before ++ line :: after)
    (pieces : chop (recordLineMax - 1) line = pre ++ piece :: post) :
    StartsLine (before.flatMap (chop (recordLineMax - 1)) ++ pre) ↔ pre = [] := by
  have cut : line = pre.flatten ++ (piece ++ post.flatten) := by
    rw [← @CText.chop_flatten (recordLineMax - 1) (by decide) line, pieces,
      List.flatten_append, List.flatten_cons]
  have filled (p : CText) (inside : p ∈ pre ++ piece :: post) : p ≠ [] :=
    (CText.chop_piece (by decide) line p (pieces ▸ inside)).1
  rw [StartsLine, List.flatten_append, flatMap_chop]
  constructor
  · intro starts
    cases pre with
    | nil => rfl
    | cons p pre =>
        have own : (p :: pre).flatten ≠ [] := by
          rw [List.flatten_cons]
          exact fun none => filled p List.mem_cons_self (List.append_eq_nil_iff.mp none).1
        have ends := starts.resolve_left fun none => own (List.append_eq_nil_iff.mp none).2
        rw [List.getLast?_append_of_ne_nil _ own] at ends
        have behind : piece ++ post.flatten ≠ [] := fun none =>
          filled piece (List.mem_append_right _ List.mem_cons_self)
            (List.append_eq_nil_iff.mp none).1
        have free := (CText.linesOf_ends lines).1
        rw [cut, List.dropLast_append_of_ne_nil behind] at free
        exact absurd (List.mem_append_left _ (List.mem_of_getLast? ends)) free
  · rintro rfl
    rw [List.flatten_nil, List.append_nil]
    rcases List.eq_nil_or_concat before with rfl | ⟨front, last, rfl⟩
    · exact .inl rfl
    · rw [List.concat_eq_append, List.append_assoc, List.singleton_append] at lines
      have ends := (CText.linesOf_ends lines).2 nofun
      have some_ := CText.linesOf_filled file last
        (lines ▸ List.mem_append_right _ List.mem_cons_self)
      refine .inr ?_
      rw [List.concat_eq_append, List.flatten_append, List.flatten_cons, List.flatten_nil,
        List.append_nil, List.getLast?_append_of_ne_nil _ some_]
      exact ends

theorem carries_fits {piece : CText} (carries : Carries key piece)
    (short : piece.length < recordLineMax) : key.length + 1 ≤ recordLineMax - 1 := by
  have marked := carries.length_le
  rw [marked_length] at marked
  omega

theorem refused_line {line : CText} (fits : key.length + 1 ≤ recordLineMax - 1)
    (carries : Carries key line) (refused : ∀ p ∈ chop (recordLineMax - 1) line, ¬ Offers f key p) :
    identityKey key = true ∧ f.size ≤ (valueOf key line).length := by
  have filled : line ≠ [] := by
    rintro rfl
    exact absurd carries.length_le (by simp)
  have first : line.take (recordLineMax - 1) ∈ chop (recordLineMax - 1) line := by
    rw [CText.chop_step (by decide) filled]
    exact List.mem_cons_self
  have offered := refused _ first
  rw [Offers, not_and, Classical.not_imp] at offered
  obtain ⟨exact_, large⟩ := offered ((carries_take fits).mpr carries)
  rw [valueOf_take, List.length_take] at large
  exact ⟨exact_, by omega⟩

theorem first_before {before before' after after' : List CText} {line line' l : CText}
    (same : before ++ line :: after = before' ++ line' :: after') (inside : l ∈ before)
    (carries : Carries key l) (none : ∀ m ∈ before', ¬ Carries key m) : line' ∈ before := by
  rcases List.append_eq_append_iff.mp same with ⟨a, rfl, -⟩ | ⟨a, rfl, rest⟩
  · exact absurd carries (none l (List.mem_append_left _ inside))
  · cases a with
    | nil =>
        rw [List.append_nil] at inside
        exact absurd carries (none l inside)
    | cons y a =>
        obtain ⟨rfl, -⟩ := List.cons.inj rest
        exact List.mem_append_right _ List.mem_cons_self

theorem undivided_of_correct (found : fields[i]? = some f) (usable : f.usable = true)
    (named : f.key = some key)
    (correct : ∀ r, r = (offerAll (recordPieces file) (.start f)).conclude → r.taken = true →
      Correct file fields i f key r) : Undivided file f key := by
  intro before line after pre piece post lines own refused refused' offers valid
  have short := recordPieces_short file
  have whole : recordPieces file = (before.flatMap (chop (recordLineMax - 1)) ++ pre) ++
      piece :: (post ++ after.flatMap (chop (recordLineMax - 1))) := by
    rw [recordPieces_lines, lines, List.flatMap_append, List.flatMap_cons, own]
    simp only [List.append_assoc, List.cons_append]
  rw [whole] at short correct
  have front : ∀ p ∈ before.flatMap (chop (recordLineMax - 1)) ++ pre, ¬ Offers f key p := by
    intro p inside
    rcases List.mem_append.mp inside with lineBefore | earlier
    · obtain ⟨l, member, within⟩ := List.mem_flatMap.mp lineBefore
      exact refused l member p within
    · exact refused' p earlier
  have kept := (conclude_taken usable named (lineText f key piece)).2
    ((lineText_valid piece).trans valid)
  rw [offerAll_first usable named short front offers, kept] at correct
  obtain ⟨⟨value, told, ⟨before', line', after', lines', none', carries', text⟩, -⟩, notInside⟩ :=
    correct _ rfl rfl
  obtain rfl := Option.some.inj told
  have starts := notInside _ piece _ whole
    ((supplies_first found usable named short).mpr ⟨front, offers⟩)
  obtain rfl := (startsLine_iff lines own).mp starts
  have filled := CText.linesOf_filled file line
    (lines ▸ List.mem_append_right _ List.mem_cons_self)
  have cut : line.take (recordLineMax - 1) = piece := by
    rw [CText.chop_step (by decide) filled] at own
    exact (List.cons.inj own).1
  have fits := carries_fits offers.1
    (short piece (List.mem_append_right _ List.mem_cons_self))
  subst cut
  have none : ∀ l ∈ before, ¬ Carries key l := by
    intro l inside carries
    have first := first_before (lines.symm.trans lines') inside carries none'
    obtain ⟨exact_, large⟩ := refused_line fits carries' (refused line' first)
    have small := offers.2 exact_
    rw [lineText, lineText, if_pos exact_, if_pos exact_] at text
    rw [text] at small
    omega
  obtain ⟨-, rfl, -⟩ := first_unique (lines.symm.trans lines') none
    ((carries_take fits).mp offers.1) none' carries'
  refine ⟨rfl, none, ?_⟩
  rcases (lineText_take (usable_size usable)).mp text with ends | ⟨-, small⟩
  · exact .inl (by omega)
  · exact .inr (by omega)

theorem correct_of_undivided (found : fields[i]? = some f) (usable : f.usable = true)
    (named : f.key = some key) (undivided : Undivided file f key)
    (taken : (offerAll (recordPieces file) (.start f)).conclude.taken = true) :
    Correct file fields i f key (offerAll (recordPieces file) (.start f)).conclude := by
  have short := recordPieces_short file
  have offered : ∃ p ∈ recordPieces file, Offers f key p := by
    refine Classical.byContradiction fun none => ?_
    rw [offerAll_none usable named short fun p inside offers => none ⟨p, inside, offers⟩,
      conclude_start usable named] at taken
    cases taken
  obtain ⟨front, piece, back, whole, refused, offers⟩ :=
    offerAll_taken usable named short ((offerAll_iff usable named short).mpr offered)
  have split := whole
  rw [recordPieces_lines] at split
  obtain ⟨before, line, after, pre, post, lines, own, rfl, rfl⟩ := flatMap_split split
  rw [whole] at short taken ⊢
  rw [offerAll_first usable named short refused offers] at taken ⊢
  obtain ⟨holds, same⟩ := conclude_taken usable named (lineText f key piece)
  have valid := holds.mp taken
  rw [same valid]
  have valid' := valid
  rw [lineText_valid] at valid'
  obtain ⟨rfl, none, ends⟩ := undivided before line after pre piece post lines own
    (fun l inside p within => refused p
      (List.mem_append_left _ (List.mem_flatMap.mpr ⟨l, inside, within⟩)))
    (fun p inside => refused p (List.mem_append_right _ inside)) offers valid'
  have filled := CText.linesOf_filled file line
    (lines ▸ List.mem_append_right _ List.mem_cons_self)
  have cut : line.take (recordLineMax - 1) = piece := by
    rw [CText.chop_step (by decide) filled] at own
    exact (List.cons.inj own).1
  have fits := carries_fits offers.1 (short piece (List.mem_append_right _ List.mem_cons_self))
  subst cut
  refine ⟨⟨_, rfl, ⟨before, line, after, lines, none, (carries_take fits).mp offers.1, ?_⟩, valid⟩,
    fun front' piece' back' whole' supplied => ?_⟩
  · refine (lineText_take (usable_size usable)).mpr ?_
    by_cases exact_ : identityKey key = true
    · have small := identityValid_length exact_ valid'
      have key_short := identityKey_length exact_
      have limit : recordLineMax = 512 := rfl
      rw [valueOf_take, List.length_take] at small
      exact .inl (by omega)
    · exact ends.imp (fun ends => by omega) fun small => ⟨exact_, by omega⟩
  · rw [whole] at whole'
    obtain ⟨refused', offers'⟩ := (supplies_first found usable named (whole' ▸ short)).mp supplied
    obtain ⟨rfl, -, -⟩ := first_unique whole' refused offers refused' offers'
    exact (startsLine_iff lines own).mpr rfl

end Law

/-- The reader is a correct one exactly for the records in which no piece of a long line comes
before, and no long value ends, a field's line. -/
theorem updateRecordRead_law (file : CText) (fields : List LeUpdateField) :
    CorrectLineReader file fields ↔
      (fields.length ≤ leUpdateRecordFieldMax →
        ∀ f ∈ fields, ∀ key, f.usable = true → f.key = some key → Undivided file f key) := by
  constructor
  · intro correct few f inside key usable named
    obtain ⟨i, found⟩ := List.getElem?_of_mem inside
    refine undivided_of_correct found usable named fun r same taken => ?_
    exact correct i f r key found (same ▸ updateRecordRead_field found usable few) usable named taken
  · intro undivided i f r key found same usable named taken
    by_cases few : fields.length ≤ leUpdateRecordFieldMax
    · rw [updateRecordRead_field found usable few] at same
      obtain rfl := Option.some.inj same
      exact correct_of_undivided found usable named
        (undivided few f (List.mem_of_getElem? found) key usable named) taken
    · rw [updateRecordRead_many (Nat.lt_of_not_le few), List.getElem?_map, found] at same
      obtain rfl := Option.some.inj same
      cases taken

/-- A line of 511 characters and a key behind them, and the line of the key. -/
def longLineRecord : CText :=
  List.replicate 511 'x' ++ "status=failed\nstatus=current\n".toList

def statusField : LeUpdateField where
  key := some "status".toList
  value := some []
  size := 64
  keyText := by decide +kernel

/-- Text inside a line is reported. -/
theorem updateRecordRead_insideLine :
    ¬ ∀ (file : CText) (fields : List LeUpdateField), CorrectLineReader file fields := by
  intro correct
  have usable : statusField.usable = true := by decide +kernel
  have read := @updateRecordRead_field longLineRecord [statusField] 0 _
    rfl usable (by decide)
  have taken : (offerAll (recordPieces longLineRecord) (.start statusField)).conclude.taken =
      true := by
    decide +kernel
  have failed : (offerAll (recordPieces longLineRecord) (.start statusField)).conclude.field.value =
      some "failed".toList := by
    decide +kernel
  obtain ⟨⟨value, told, ⟨before, line, after, lines, -, carries, text⟩, -⟩, -⟩ :=
    correct longLineRecord [statusField] 0 statusField _ "status".toList rfl read usable rfl taken
  obtain rfl := Option.some.inj (failed.symm.trans told)
  have two : linesOf longLineRecord =
      [List.replicate 511 'x' ++ "status=failed\n".toList, "status=current\n".toList] := by
    decide +kernel
  rw [two] at lines
  rcases before with _ | ⟨first, _ | ⟨second, before⟩⟩
  · obtain ⟨rfl, -⟩ := List.cons.inj lines
    revert carries
    decide +kernel
  · obtain ⟨rfl, -⟩ := List.cons.inj (List.cons.inj lines).2
    revert text
    decide +kernel
  · have none := (List.cons.inj (List.cons.inj lines).2).2
    exact List.append_ne_nil_of_right_ne_nil before (List.cons_ne_nil line after) none.symm

end LibreEcho.Update
