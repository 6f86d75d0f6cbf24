import Mathlib

/-!
Cutting a sequence at a separator, one element at a time.

The cut keeps the elements since the last separator, so it can be continued with
more of the sequence; cutting a concatenation is cutting its parts in turn.
-/
namespace Lines
universe u
variable {α : Type u} [DecidableEq α] (sep : α)

/-- The pieces ended by a separator, and what follows the last one. -/
def cutFrom : List α → List α → List (List α) × List α
  | line, [] => ([], line)
  | line, x :: rest =>
      if x = sep then
        let later := cutFrom [] rest
        (line :: later.1, later.2)
      else cutFrom (line ++ [x]) rest

def cut (s : List α) : List (List α) × List α :=
  cutFrom sep [] s

def joined (pieces : List (List α)) : List α :=
  pieces.flatMap fun piece => piece ++ [sep]

omit [DecidableEq α] in
theorem joined_cons (piece : List α) (rest : List (List α)) :
    joined sep (piece :: rest) = piece ++ sep :: joined sep rest := by
  rw [joined, List.flatMap_cons, List.append_assoc, List.singleton_append, ← joined]

theorem cutFrom_sep (line rest : List α) :
    cutFrom sep line (sep :: rest) =
      (line :: (cutFrom sep [] rest).1, (cutFrom sep [] rest).2) := by
  rw [cutFrom, if_pos rfl]

theorem cutFrom_other {x : α} (other : x ≠ sep) (line rest : List α) :
    cutFrom sep line (x :: rest) = cutFrom sep (line ++ [x]) rest := by
  rw [cutFrom, if_neg other]

theorem cutFrom_free {piece : List α} (free : sep ∉ piece) (line rest : List α) :
    cutFrom sep line (piece ++ rest) = cutFrom sep (line ++ piece) rest := by
  induction piece generalizing line with
  | nil => rw [List.nil_append, List.append_nil]
  | cons x piece ih =>
      rw [List.mem_cons, not_or] at free
      rw [List.cons_append, cutFrom_other sep (Ne.symm free.1), ih free.2, List.append_assoc,
        List.singleton_append]

theorem cut_joined {pieces : List (List α)} (free : ∀ piece ∈ pieces, sep ∉ piece) :
    cut sep (joined sep pieces) = (pieces, []) := by
  induction pieces with
  | nil => rfl
  | cons piece rest ih =>
      have later := ih fun other member => free other (List.mem_cons_of_mem _ member)
      rw [cut] at later
      rw [cut, joined, List.flatMap_cons, List.append_assoc,
        cutFrom_free sep (free piece List.mem_cons_self), List.singleton_append, cutFrom_sep,
        List.nil_append]
      exact congrArg (fun r : List (List α) × List α => (piece :: r.1, r.2)) later

theorem cutFrom_whole (line s : List α) :
    joined sep (cutFrom sep line s).1 ++ (cutFrom sep line s).2 = line ++ s := by
  induction s generalizing line with
  | nil => rw [List.append_nil]; rfl
  | cons x s ih =>
      by_cases ends : x = sep
      · subst ends
        have later := ih []
        rw [cutFrom_sep, joined_cons, List.append_assoc, List.cons_append, later, List.nil_append]
      · rw [cutFrom_other sep ends, ih, List.append_assoc, List.singleton_append]

theorem cut_whole (s : List α) : joined sep (cut sep s).1 ++ (cut sep s).2 = s :=
  cutFrom_whole sep [] s

theorem cutFrom_append (line a b : List α) :
    cutFrom sep line (a ++ b) =
      ((cutFrom sep line a).1 ++ (cutFrom sep (cutFrom sep line a).2 b).1,
        (cutFrom sep (cutFrom sep line a).2 b).2) := by
  induction a generalizing line with
  | nil => rfl
  | cons x a ih =>
      by_cases ends : x = sep
      · subst ends
        simp only [List.cons_append, cutFrom_sep, ih []]
      · simp only [List.cons_append, cutFrom_other sep ends, ih (line ++ [x])]

theorem cut_append {a : List α} (whole : (cut sep a).2 = []) (b : List α) :
    cut sep (a ++ b) = ((cut sep a).1 ++ (cut sep b).1, (cut sep b).2) := by
  rw [cut] at whole
  rw [cut, cutFrom_append, whole]
  rfl

theorem cutFrom_rest_eq_nil (line s : List α) :
    (cutFrom sep line s).2 = [] ↔ (s = [] ∧ line = []) ∨ s.getLast? = some sep := by
  induction s generalizing line with
  | nil => simp [cutFrom]
  | cons x s ih =>
      by_cases ends : x = sep
      · subst ends
        rw [cutFrom_sep, ih []]
        cases s with
        | nil => simp
        | cons y s => simp
      · rw [cutFrom_other sep ends, ih]
        cases s with
        | nil => simp [ends]
        | cons y s => simp

theorem cut_rest_eq_nil (s : List α) :
    (cut sep s).2 = [] ↔ s = [] ∨ s.getLast? = some sep := by
  rw [cut, cutFrom_rest_eq_nil]
  simp

theorem cutFrom_keeps (line s : List α) :
    (∃ piece ∈ (cutFrom sep line s).1, line.length ≤ piece.length) ∨
      line.length ≤ (cutFrom sep line s).2.length := by
  induction s generalizing line with
  | nil => exact .inr (Nat.le_refl _)
  | cons x s ih =>
      by_cases ends : x = sep
      · subst ends
        rw [cutFrom_sep]
        exact .inl ⟨line, List.mem_cons_self, Nat.le_refl _⟩
      · rw [cutFrom_other sep ends]
        have grown : line.length ≤ (line ++ [x]).length := by simp
        obtain ⟨piece, member, long⟩ | long := ih (line ++ [x])
        · exact .inl ⟨piece, member, Nat.le_trans grown long⟩
        · exact .inr (Nat.le_trans grown long)

def size (pieces : List (List α)) : Nat :=
  (pieces.map List.length).sum

omit [DecidableEq α] in
theorem size_append (a b : List (List α)) : size (a ++ b) = size a + size b := by
  simp [size]

omit [DecidableEq α] in
theorem size_cons (piece : List α) (rest : List (List α)) :
    size (piece :: rest) = piece.length + size rest := by
  simp [size]

theorem size_cutFrom (line s : List α) :
    size (cutFrom sep line s).1 + (cutFrom sep line s).2.length =
      line.length + s.countP (· ≠ sep) := by
  induction s generalizing line with
  | nil => simp [cutFrom, size]
  | cons x s ih =>
      by_cases ends : x = sep
      · subst ends
        have later := ih []
        rw [cutFrom_sep, List.countP_cons_of_neg (by simp)]
        simp only [size_cons, List.length_nil] at later ⊢
        omega
      · rw [cutFrom_other sep ends, ih, List.countP_cons_of_pos (by simpa using ends)]
        simp only [List.length_append, List.length_singleton]
        omega

end Lines

/-!
Event streams.

A stream is a sequence of messages, each of them fields on lines of their own and an empty
line. Reading a stream that was written from fields without line ends gives the fields back.
-/
namespace EventStream

abbrev Bytes := List UInt8

def lineFeed : UInt8 := 0x0a
def carriageReturn : UInt8 := 0x0d
def colon : UInt8 := 0x3a
def space : UInt8 := 0x20

structure Field where
  name : Bytes
  value : Bytes
deriving DecidableEq

abbrev Message := List Field

/-! ### Writing -/

/-- `name: value` -/
def Field.line (f : Field) : Bytes :=
  f.name ++ colon :: space :: f.value

def Message.lines (m : Message) : List Bytes :=
  m.map Field.line ++ [[]]

def Message.text (m : Message) : Bytes :=
  Lines.joined lineFeed m.lines

def render (messages : List Message) : Bytes :=
  messages.flatMap Message.text

/-! ### Reading -/

def unspaced (value : Bytes) : Bytes :=
  if value.head? = some space then value.tail else value

def readField (line : Bytes) : Option Field :=
  if carriageReturn ∈ line ∨ colon ∉ line then none
  else
    let name := line.takeWhile (· ≠ colon)
    if name = [] then none
    else some ⟨name, unspaced (line.dropWhile (· ≠ colon)).tail⟩

/-- The messages of the lines; every message is ended by its empty line. -/
def readLines : Message → List Bytes → Option (List Message)
  | [], [] => some []
  | _ :: _, [] => none
  | block, line :: rest =>
      if line = [] then (readLines [] rest).map (block :: ·)
      else
        match readField line with
        | none => none
        | some f => readLines (block ++ [f]) rest

/-- `none` for a stream that is not well formed or not ended. -/
def read (stream : Bytes) : Option (List Message) :=
  let (lines, rest) := Lines.cut lineFeed stream
  if rest = [] then readLines [] lines else none

/-! ### Reading what was written -/

def Unbroken (s : Bytes) : Prop :=
  lineFeed ∉ s ∧ carriageReturn ∉ s

instance (s : Bytes) : Decidable (Unbroken s) :=
  inferInstanceAs (Decidable (_ ∧ _))

def FieldName (s : Bytes) : Prop :=
  s ≠ [] ∧ colon ∉ s ∧ Unbroken s

instance (s : Bytes) : Decidable (FieldName s) :=
  inferInstanceAs (Decidable (_ ∧ _))

structure Field.Sound (f : Field) : Prop where
  name : FieldName f.name
  value : Unbroken f.value

def Message.Sound (m : Message) : Prop :=
  ∀ f ∈ m, f.Sound

section Unbroken
variable {s t : Bytes}

theorem unbroken_append (first : Unbroken s) (second : Unbroken t) : Unbroken (s ++ t) :=
  ⟨fun here => (List.mem_append.mp here).elim first.1 second.1,
    fun here => (List.mem_append.mp here).elim first.2 second.2⟩

theorem Unbroken.take (unbroken : Unbroken s) (n : Nat) : Unbroken (s.take n) :=
  ⟨fun here => unbroken.1 (List.mem_of_mem_take here),
    fun here => unbroken.2 (List.mem_of_mem_take here)⟩

end Unbroken

theorem Field.Sound.line {f : Field} (sound : f.Sound) : Unbroken f.line := by
  have separator : Unbroken [colon, space] := ⟨by decide, by decide⟩
  exact unbroken_append sound.name.2.2 (unbroken_append separator sound.value)

theorem readField_line {f : Field} (sound : f.Sound) : readField f.line = some f := by
  have before : ∀ b ∈ f.name, decide (b ≠ colon) = true := by
    intro b inside
    refine decide_eq_true fun same => sound.name.2.1 ?_
    rw [← same]
    exact inside
  have name : f.line.takeWhile (· ≠ colon) = f.name := by
    rw [Field.line, List.takeWhile_append_of_pos before, List.takeWhile_cons_of_neg (by decide),
      List.append_nil]
  have value : f.line.dropWhile (· ≠ colon) = colon :: space :: f.value := by
    rw [Field.line, List.dropWhile_append_of_pos before, List.dropWhile_cons_of_neg (by decide)]
  have found : colon ∈ f.line := List.mem_append_right _ List.mem_cons_self
  have read : ¬(carriageReturn ∈ f.line ∨ colon ∉ f.line) := by
    rintro (broken | missing)
    · exact sound.line.2 broken
    · exact missing found
  rw [readField, if_neg read]
  dsimp only
  rw [name, value, if_neg sound.name.1]
  rfl

theorem line_ne_nil (f : Field) : f.line ≠ [] := by
  intro empty
  exact List.cons_ne_nil _ _ (List.append_eq_nil_iff.mp empty).2

theorem readLines_message {m : Message} (sound : m.Sound) (block : Message) (rest : List Bytes) :
    readLines block (m.lines ++ rest) = (readLines [] rest).map ((block ++ m) :: ·) := by
  induction m generalizing block with
  | nil =>
      rw [List.append_nil]
      cases block with
      | nil => exact if_pos rfl
      | cons f block => exact if_pos rfl
  | cons f m ih =>
      have first := sound f List.mem_cons_self
      have later := ih (fun g inside => sound g (List.mem_cons_of_mem _ inside)) (block ++ [f])
      rw [List.append_assoc, List.singleton_append] at later
      rw [← later]
      have step (block : Message) : readLines block (f.line :: (Message.lines m ++ rest)) =
          readLines (block ++ [f]) (Message.lines m ++ rest) := by
        cases block with
        | nil => rw [readLines, if_neg (line_ne_nil f), readField_line first]
        | cons g block => rw [readLines, if_neg (line_ne_nil f), readField_line first]
      exact step block

theorem readLines_messages {messages : List Message} (sound : ∀ m ∈ messages, m.Sound) :
    readLines [] (messages.flatMap Message.lines) = some messages := by
  induction messages with
  | nil => rfl
  | cons m messages ih =>
      have later := ih fun other inside => sound other (List.mem_cons_of_mem _ inside)
      rw [List.flatMap_cons, readLines_message (sound m List.mem_cons_self), later]
      rfl

theorem read_render {messages : List Message} (sound : ∀ m ∈ messages, m.Sound) :
    read (render messages) = some messages := by
  have joined : render messages = Lines.joined lineFeed (messages.flatMap Message.lines) := by
    rw [render, Lines.joined, List.flatMap_assoc]
    rfl
  have free : ∀ line ∈ messages.flatMap Message.lines, lineFeed ∉ line := by
    intro line inside
    obtain ⟨m, member, inside⟩ := List.mem_flatMap.mp inside
    rcases List.mem_append.mp inside with field | blank
    · obtain ⟨f, here, rfl⟩ := List.mem_map.mp field
      exact ((sound m member) f here).line.1
    · rw [List.mem_singleton.mp blank]
      exact List.not_mem_nil
  rw [read, joined, Lines.cut_joined lineFeed free]
  exact (if_pos rfl).trans (readLines_messages sound)

end EventStream
