import LibreEcho.Lib.LongLines

/-!
The reader of the update check record in `update_identity.c`.

One pass over the file offers every line the buffer holds to every field that has no value yet; the
identity fields are checked afterwards.
-/
namespace LibreEcho.Update

open CText (ofBuffer readLines)

def recordLineMax : Nat := 512
def leUpdateRecordFieldMax : Nat := 16
def leUpdateTagKey : CText := "resolved_release_tag".toList
def leUpdateShaKey : CText := "ota_sha256".toList
def tagPrefixBuild : CText := "radar-puffin-build-".toList
def tagPrefixNightly : CText := "radar-puffin-nightly-".toList

/-! ### Identities -/

def hexDigit (c : Char) : Bool :=
  ('0' ≤ c && c ≤ '9') || ('a' ≤ c && c ≤ 'f')

/-- `count` digits stand at the front of the string. -/
def hexRun (value : CText) (count : Nat) : Bool :=
  count ≤ value.length && (value.take count).all hexDigit

def tagRestValid (rest : CText) : Bool :=
  hexRun rest 7 && rest[7]? == some '-' && hexRun (rest.drop 8) 16 && rest[24]? == some '-' &&
    hexRun (rest.drop 25) 16 && rest.length == 41

def updateIdentityTagValid (value : CText) : Bool :=
  if tagPrefixBuild <+: value then tagRestValid (value.drop tagPrefixBuild.length)
  else if tagPrefixNightly <+: value then tagRestValid (value.drop tagPrefixNightly.length)
  else false

def updateIdentitySha256Valid (value : CText) : Bool :=
  hexRun value 64 && value.length == 64

def identityKey (key : CText) : Bool :=
  key == leUpdateTagKey || key == leUpdateShaKey

/-- The check an identity has to pass; the other values are opaque. -/
def identityValid (key value : CText) : Bool :=
  if key = leUpdateTagKey then updateIdentityTagValid value
  else if key = leUpdateShaKey then updateIdentitySha256Valid value
  else true

/-! ### Lines -/

/-- `strcspn(text, "\r\n")` bytes of a C string. -/
def untilLineEnd (text : CText) : CText :=
  text.takeWhile fun c => c ≠ '\r' && c ≠ '\n'

/-- The value the line holds for the key, as far as it fits `size` bytes. -/
def lineValue (line key : CText) (size : Nat) (exact : Bool) : Option CText :=
  if key ++ ['='] <+: line then
    let value := untilLineEnd (line.drop (key.length + 1))
    if recordLineMax ≤ value.length + key.length + 1 then none
    else if size ≤ value.length then
      if exact then none else some (value.take (size - 1))
    else some value
  else none

/-! ### Fields -/

/-- A null pointer is `none`; `size` is that of the buffer `value`. -/
structure LeUpdateField where
  key : Option CText
  value : Option CText
  size : Nat
  keyText : ∀ k ∈ key, '\x00' ∉ k
deriving DecidableEq

/-- A field with its mark in `taken`. -/
structure Reading where
  field : LeUpdateField
  taken : Bool

def LeUpdateField.usable (f : LeUpdateField) : Bool :=
  (f.key.any fun key => key ≠ []) && f.value.isSome && f.size ≠ 0

def Reading.start (f : LeUpdateField) : Reading :=
  ⟨f, false⟩

def Reading.offer (line : CText) (r : Reading) : Reading :=
  if r.taken || !r.field.usable then r
  else
    match r.field.key with
    | none => r
    | some key =>
        match lineValue line key r.field.size (identityKey key) with
        | none => r
        | some value => ⟨{ r.field with value := some value }, true⟩

def pending (readings : List Reading) : Nat :=
  readings.countP fun r => r.field.usable && !r.taken

def recordPass : List CText → List Reading → List Reading
  | [], readings => readings
  | line :: rest, readings =>
      if pending readings = 0 then readings
      else recordPass rest (readings.map (Reading.offer line))

def Reading.conclude (r : Reading) : Reading :=
  if r.field.usable then
    match r.field.key with
    | none => r
    | some key =>
        if identityKey key then
          if r.taken && identityValid key (r.field.value.getD []) then r
          else ⟨{ r.field with value := some [] }, false⟩
        else r
  else r

/-- What `path` leads to. -/
inductive RecordFile where
  | noPath
  | unreadable
  | content (file : CText)

/-- The lines as the buffer of `fgets` holds them. -/
def recordLines (file : CText) : List CText :=
  (readLines recordLineMax file).map ofBuffer

/-- The number of fields the record carried, and the fields with their values. -/
def updateRecordRead (path : RecordFile) (fields : List LeUpdateField) : Nat × List Reading :=
  let readings := fields.map .start
  if fields = [] ∨ leUpdateRecordFieldMax < fields.length ∨ pending readings = 0 then (0, readings)
  else
    match path with
    | .noPath => (0, readings)
    | .unreadable => report readings
    | .content file => report (recordPass (recordLines file) readings)
where
  report (readings : List Reading) : Nat × List Reading :=
    let concluded := readings.map Reading.conclude
    (concluded.countP fun r => r.field.usable && r.taken, concluded)

end LibreEcho.Update

/-!
When `update_record_read` reports the value of the first line that carries a key.

A line longer than the buffer of `fgets` comes in pieces, and each piece is taken for a line of its
own.
-/
namespace LibreEcho.Update

open CText (ofBuffer readLines linesOf chop)

/-- The line begins with the key and `=`. -/
def Carries (key line : CText) : Prop :=
  key ++ ['='] <+: line

/-- The text behind the `=`, up to a line end or a NUL. -/
def valueOf (key line : CText) : CText :=
  (line.drop (key.length + 1)).takeWhile fun c => c ≠ '\x00' && c ≠ '\r' && c ≠ '\n'

/-- The value as a field reports it: an opaque one is bounded by its buffer. -/
def lineText (f : LeUpdateField) (key line : CText) : CText :=
  if identityKey key then valueOf key line else (valueOf key line).take (f.size - 1)

/-- The field takes its value from such a piece: an identity has to fit. -/
def Offers (f : LeUpdateField) (key piece : CText) : Prop :=
  Carries key piece ∧ (identityKey key = true → (valueOf key piece).length < f.size)

instance (key line : CText) : Decidable (Carries key line) :=
  inferInstanceAs (Decidable (_ <+: _))

instance (f : LeUpdateField) (key piece : CText) : Decidable (Offers f key piece) :=
  inferInstanceAs (Decidable (_ ∧ _))

/-! ### One piece -/

section Piece
variable {f : LeUpdateField} {key : CText}

theorem marked_text (text : '\x00' ∉ key) :
    ∀ c ∈ key ++ ['='], (decide (c ≠ '\x00')) = true := by
  intro c inside
  refine decide_eq_true ?_
  rcases List.mem_append.mp inside with own | mark
  · exact fun null => text (null ▸ own)
  · rw [List.mem_singleton.mp mark]
    decide

theorem carries_ofBuffer (text : '\x00' ∉ key) (piece : CText) :
    key ++ ['='] <+: ofBuffer piece ↔ Carries key piece := by
  constructor
  · exact fun front => front.trans (List.takeWhile_prefix _)
  · rintro ⟨rest, rfl⟩
    rw [ofBuffer, List.takeWhile_append_of_pos (marked_text text)]
    exact List.prefix_append _ _

theorem marked_length : (key ++ ['=']).length = key.length + 1 :=
  List.length_append

theorem untilLineEnd_ofBuffer (text : '\x00' ∉ key) {piece : CText} (carries : Carries key piece) :
    untilLineEnd ((ofBuffer piece).drop (key.length + 1)) = valueOf key piece := by
  obtain ⟨rest, rfl⟩ := carries
  rw [untilLineEnd, valueOf, ofBuffer, List.takeWhile_append_of_pos (marked_text text),
    List.drop_left' marked_length, List.drop_left' marked_length, List.takeWhile_takeWhile]
  refine congrArg (List.takeWhile · rest) (funext fun c => ?_)
  by_cases null : c = '\x00'
  · simp [null]
  · simp [null]

theorem valueOf_length {piece : CText} (carries : Carries key piece) :
    (valueOf key piece).length + key.length + 1 ≤ piece.length := by
  have marked := carries.length_le
  have taken : (valueOf key piece).length ≤ (piece.drop (key.length + 1)).length :=
    (List.takeWhile_prefix _).length_le
  rw [marked_length] at marked
  rw [List.length_drop] at taken
  omega

theorem lineValue_piece (text : '\x00' ∉ key) (some_ : 0 < f.size) {piece : CText}
    (short : piece.length < recordLineMax) :
    lineValue (ofBuffer piece) key f.size (identityKey key) =
      if Offers f key piece then some (lineText f key piece) else none := by
  by_cases carries : Carries key piece
  · have whole := valueOf_length carries
    rw [lineValue, if_pos ((carries_ofBuffer text piece).mpr carries)]
    dsimp only
    rw [untilLineEnd_ofBuffer text carries, if_neg (by omega), lineText]
    by_cases exact_ : identityKey key = true
    · rw [exact_, if_pos rfl, if_pos rfl]
      by_cases fits : (valueOf key piece).length < f.size
      · rw [if_neg (by omega), if_pos ⟨carries, fun _ => fits⟩]
      · rw [if_pos (by omega), if_neg fun offers => fits (offers.2 exact_)]
    · have offers : Offers f key piece := ⟨carries, fun same => absurd same exact_⟩
      rw [if_neg exact_, if_neg exact_, if_pos offers]
      split
      · rfl
      · rw [List.take_of_length_le (by omega)]
  · rw [lineValue, if_neg fun front => carries ((carries_ofBuffer text piece).mp front),
      if_neg fun offers => carries offers.1]

end Piece

/-! ### One field -/

def offerAll (pieces : List CText) (r : Reading) : Reading :=
  pieces.foldl (fun r piece => r.offer (ofBuffer piece)) r

theorem offer_idle {r : Reading} (idle : (r.field.usable && !r.taken) = false) (line : CText) :
    r.offer line = r := by
  rw [Reading.offer, if_pos]
  cases taken : r.taken with
  | true => rfl
  | false =>
      rw [taken] at idle
      simpa using idle

theorem offerAll_idle (pieces : List CText) {r : Reading}
    (idle : (r.field.usable && !r.taken) = false) : offerAll pieces r = r := by
  induction pieces with
  | nil => rfl
  | cons piece pieces ih =>
      rw [offerAll, List.foldl_cons, offer_idle idle]
      exact ih

theorem offerAll_append (front back : List CText) (r : Reading) :
    offerAll (front ++ back) r = offerAll back (offerAll front r) :=
  List.foldl_append

theorem recordPass_eq (pieces : List CText) (readings : List Reading) :
    recordPass (pieces.map ofBuffer) readings = readings.map (offerAll pieces) := by
  induction pieces generalizing readings with
  | nil => exact (List.map_id readings).symm
  | cons piece pieces ih =>
      rw [List.map_cons, recordPass]
      split
      case isTrue none =>
        have idle := List.countP_eq_zero.mp none
        refine (List.map_id readings).symm.trans (List.map_congr_left fun r inside => ?_)
        exact (offerAll_idle (piece :: pieces) (Bool.eq_false_iff.mpr (idle r inside))).symm
      case isFalse =>
        rw [ih, List.map_map]
        rfl

section Field
variable {f : LeUpdateField} {key : CText}

theorem offer_usable (usable : f.usable = true) (named : f.key = some key) {piece : CText}
    (short : piece.length < recordLineMax) :
    (Reading.start f).offer (ofBuffer piece) =
      if Offers f key piece then ⟨{ f with value := some (lineText f key piece) }, true⟩
      else .start f := by
  have text := f.keyText key named
  have size : 0 < f.size := by
    rw [LeUpdateField.usable] at usable
    simp at usable
    omega
  have waits : ¬ ((Reading.start f).taken || !(Reading.start f).field.usable) = true := by
    rw [Reading.start, usable]
    exact nofun
  rw [Reading.offer, if_neg waits]
  have value := @lineValue_piece f key text size piece short
  by_cases offers : Offers f key piece
  · rw [if_pos offers] at value ⊢
    obtain ⟨_, _, _, _⟩ := f
    obtain rfl := named
    rw [Reading.start]
    dsimp only at value ⊢
    rw [value]
  · rw [if_neg offers] at value ⊢
    obtain ⟨_, _, _, _⟩ := f
    obtain rfl := named
    rw [Reading.start]
    dsimp only at value ⊢
    rw [value]

theorem offerAll_none (usable : f.usable = true) (named : f.key = some key) {pieces : List CText}
    (short : ∀ piece ∈ pieces, piece.length < recordLineMax)
    (refused : ∀ piece ∈ pieces, ¬ Offers f key piece) : offerAll pieces (.start f) = .start f := by
  induction pieces with
  | nil => rfl
  | cons piece pieces ih =>
      rw [List.forall_mem_cons] at short refused
      rw [offerAll, List.foldl_cons, offer_usable usable named short.1, if_neg refused.1]
      exact ih short.2 refused.2

theorem offerAll_first (usable : f.usable = true) (named : f.key = some key)
    {front back : List CText} {piece : CText}
    (short : ∀ p ∈ front ++ piece :: back, p.length < recordLineMax)
    (refused : ∀ p ∈ front, ¬ Offers f key p) (offers : Offers f key piece) :
    offerAll (front ++ piece :: back) (.start f) =
      ⟨{ f with value := some (lineText f key piece) }, true⟩ := by
  rw [List.forall_mem_append, List.forall_mem_cons] at short
  rw [offerAll_append, offerAll_none usable named short.1 refused, offerAll, List.foldl_cons,
    offer_usable usable named short.2.1, if_pos offers]
  exact offerAll_idle back (by rw [Bool.not_true, Bool.and_false])

theorem offerAll_taken (usable : f.usable = true) (named : f.key = some key) {pieces : List CText}
    (short : ∀ p ∈ pieces, p.length < recordLineMax)
    (taken : (offerAll pieces (.start f)).taken = true) :
    ∃ front piece back, pieces = front ++ piece :: back ∧ (∀ p ∈ front, ¬ Offers f key p) ∧
      Offers f key piece := by
  cases found : pieces.find? fun p => decide (Offers f key p) with
  | none =>
      have refused := List.find?_eq_none.mp found
      rw [offerAll_none usable named short fun p inside offers =>
        refused p inside (decide_eq_true offers)] at taken
      cases taken
  | some piece =>
      obtain ⟨offers, front, back, rfl, refused⟩ := List.find?_eq_some_iff_append.mp found
      refine ⟨front, piece, back, rfl, fun p inside offers => ?_, of_decide_eq_true offers⟩
      simpa [offers] using refused p inside

end Field

end LibreEcho.Update
