import Mathlib

/-!
The JSON grammar over bytes.

A text is derived at a depth: objects and arrays nest at most that deep in it.
White space is part of a derivation only between the tokens of an object or an
array, never around a value.
-/
namespace JsonGrammar

abbrev Bytes := List UInt8

abbrev quote : UInt8 := 0x22
abbrev backslash : UInt8 := 0x5c
abbrev slash : UInt8 := 0x2f
abbrev comma : UInt8 := 0x2c
abbrev colon : UInt8 := 0x3a
abbrev lbrace : UInt8 := 0x7b
abbrev rbrace : UInt8 := 0x7d
abbrev lbracket : UInt8 := 0x5b
abbrev rbracket : UInt8 := 0x5d
abbrev minus : UInt8 := 0x2d
abbrev plus : UInt8 := 0x2b
abbrev point : UInt8 := 0x2e
abbrev zero : UInt8 := 0x30
abbrev letterB : UInt8 := 0x62
abbrev letterE : UInt8 := 0x65
abbrev capitalE : UInt8 := 0x45
abbrev letterF : UInt8 := 0x66
abbrev letterN : UInt8 := 0x6e
abbrev letterR : UInt8 := 0x72
abbrev letterT : UInt8 := 0x74
abbrev letterU : UInt8 := 0x75

def trueText : Bytes := [letterT, letterR, letterU, letterE]
def falseText : Bytes := [letterF, 0x61, 0x6c, 0x73, letterE]
def nullText : Bytes := [letterN, letterU, 0x6c, 0x6c]

/-- Bytes are tested in turn; `UInt8` is finite, but trying all of it is no test. -/
instance (priority := high) bytesDecidable {p : UInt8 → Prop} [DecidablePred p] (s : Bytes) :
    Decidable (∀ b ∈ s, p b) :=
  List.decidableBAll p s

def isSpace (b : UInt8) : Bool :=
  b == 0x20 || b == 0x09 || b == 0x0d || b == 0x0a

def isDigit (b : UInt8) : Bool :=
  0x30 ≤ b && b ≤ 0x39

def isHex (b : UInt8) : Bool :=
  (0x30 ≤ b && b ≤ 0x39) || (0x61 ≤ b && b ≤ 0x66) || (0x41 ≤ b && b ≤ 0x46)

def isEscape (b : UInt8) : Bool :=
  b == quote || b == backslash || b == slash || b == letterB || b == letterF ||
    b == letterN || b == letterR || b == letterT

def isPlain (b : UInt8) : Bool :=
  0x20 ≤ b && b != quote && b != backslash

def Spaces (s : Bytes) : Prop :=
  ∀ b ∈ s, isSpace b = true

/-- What stands between the quotes of a string. -/
inductive Chars : Bytes → Prop where
  | nil : Chars []
  | plain {b : UInt8} {s : Bytes} : isPlain b = true → Chars s → Chars (b :: s)
  | escape {b : UInt8} {s : Bytes} : isEscape b = true → Chars s → Chars (backslash :: b :: s)
  | unicode {digits s : Bytes} : digits.length = 4 → (∀ b ∈ digits, isHex b = true) → Chars s →
      Chars (backslash :: letterU :: (digits ++ s))

inductive Str : Bytes → Prop where
  | quoted {body : Bytes} : Chars body → Str (quote :: (body ++ [quote]))

def Digits (s : Bytes) : Prop :=
  s ≠ [] ∧ ∀ b ∈ s, isDigit b = true

inductive Integer : Bytes → Prop where
  | zero : Integer [zero]
  | digits {s : Bytes} : Digits s → s.head? ≠ some zero → Integer s

inductive Fraction : Bytes → Prop where
  | none : Fraction []
  | digits {s : Bytes} : Digits s → Fraction (point :: s)

inductive Exponent : Bytes → Prop where
  | none : Exponent []
  | digits {mark : UInt8} {sign s : Bytes} : mark = letterE ∨ mark = capitalE →
      sign = [] ∨ sign = [plus] ∨ sign = [minus] → Digits s → Exponent (mark :: (sign ++ s))

inductive Number : Bytes → Prop where
  | parts {sign i f e : Bytes} : sign = [] ∨ sign = [minus] → Integer i → Fraction f →
      Exponent e → Number (sign ++ (i ++ (f ++ e)))

inductive Kind where
  | value | object | array | members | elements

/-- A text of a kind, nested at most this deep. -/
inductive Derives : Kind → Nat → Bytes → Prop where
  | string {d : Nat} {s : Bytes} : Str s → Derives .value d s
  | number {d : Nat} {s : Bytes} : Number s → Derives .value d s
  | literal {d : Nat} {s : Bytes} : s ∈ [trueText, falseText, nullText] → Derives .value d s
  | ofObject {d : Nat} {s : Bytes} : Derives .object d s → Derives .value d s
  | ofArray {d : Nat} {s : Bytes} : Derives .array d s → Derives .value d s
  | emptyObject {d : Nat} {w : Bytes} : Spaces w → Derives .object (d + 1) (lbrace :: (w ++ [rbrace]))
  | object {d : Nat} {w m w' : Bytes} : Spaces w → Derives .members d m → Spaces w' →
      Derives .object (d + 1) (lbrace :: (w ++ (m ++ (w' ++ [rbrace]))))
  | emptyArray {d : Nat} {w : Bytes} : Spaces w →
      Derives .array (d + 1) (lbracket :: (w ++ [rbracket]))
  | array {d : Nat} {w m w' : Bytes} : Spaces w → Derives .elements d m → Spaces w' →
      Derives .array (d + 1) (lbracket :: (w ++ (m ++ (w' ++ [rbracket]))))
  | member {d : Nat} {k w w' v : Bytes} : Str k → Spaces w → Spaces w' → Derives .value d v →
      Derives .members d (k ++ (w ++ (colon :: (w' ++ v))))
  | members {d : Nat} {k w w' v w₁ w₂ rest : Bytes} : Str k → Spaces w → Spaces w' →
      Derives .value d v → Spaces w₁ → Spaces w₂ → Derives .members d rest →
      Derives .members d (k ++ (w ++ (colon :: (w' ++ (v ++ (w₁ ++ (comma :: (w₂ ++ rest))))))))
  | element {d : Nat} {v : Bytes} : Derives .value d v → Derives .elements d v
  | elements {d : Nat} {v w₁ w₂ rest : Bytes} : Derives .value d v → Spaces w₁ → Spaces w₂ →
      Derives .elements d rest → Derives .elements d (v ++ (w₁ ++ (comma :: (w₂ ++ rest))))

def ObjectText (depth : Nat) (s : Bytes) : Prop :=
  ∃ w object w', Spaces w ∧ Derives .object depth object ∧ Spaces w' ∧ s = w ++ (object ++ w')

theorem spaces_nil : Spaces [] :=
  fun _ member => absurd member List.not_mem_nil

theorem spaces_append {w w' : Bytes} (first : Spaces w) (second : Spaces w') :
    Spaces (w ++ w') :=
  List.forall_mem_append.mpr ⟨first, second⟩

theorem chars_append {s t : Bytes} (first : Chars s) (second : Chars t) : Chars (s ++ t) := by
  induction first with
  | nil => exact second
  | plain here _ ih => exact .plain here ih
  | escape here _ ih => exact .escape here ih
  | unicode four hex _ ih =>
      rw [List.cons_append, List.cons_append, List.append_assoc]
      exact .unicode four hex ih

/-! ### How a text begins -/

theorem integer_head {i : Bytes} (integer : Integer i) : ∃ b s, i = b :: s ∧ isDigit b = true := by
  cases integer with
  | zero => exact ⟨_, [], rfl, rfl⟩
  | digits digits _ =>
      cases i with
      | nil => exact absurd rfl digits.1
      | cons b s => exact ⟨b, s, rfl, digits.2 b List.mem_cons_self⟩

theorem number_head {t : Bytes} (number : Number t) :
    ∃ b s, t = b :: s ∧ (isDigit b = true ∨ b = minus) := by
  cases number with
  | parts signed integer _ _ =>
      cases signed with
      | inl none =>
          obtain ⟨b, s, head, digit⟩ := integer_head integer
          rw [none, head]
          exact ⟨b, _, rfl, .inl digit⟩
      | inr down =>
          rw [down]
          exact ⟨minus, _, rfl, .inr rfl⟩

abbrev Opens (b : UInt8) : Prop :=
  isSpace b = false ∧ b ≠ rbracket

theorem derives_value_head {d : Nat} {v : Bytes} (derived : Derives .value d v) :
    ∃ b s, v = b :: s ∧ Opens b := by
  cases derived with
  | string str =>
      cases str with
      | quoted _ => exact ⟨quote, _, rfl, by decide⟩
  | number number =>
      obtain ⟨b, s, head, first⟩ := number_head number
      refine ⟨b, s, head, ?_, ?_⟩
      · rw [Bool.eq_false_iff]
        intro space
        simp only [isSpace, Bool.or_eq_true, beq_iff_eq] at space
        rcases space with ((rfl | rfl) | rfl) | rfl
        all_goals exact absurd first (by decide)
      · rintro rfl
        exact absurd first (by decide)
  | literal known =>
      simp only [List.mem_cons, List.not_mem_nil, or_false] at known
      rcases known with rfl | rfl | rfl
      all_goals exact ⟨_, _, rfl, by decide⟩
  | ofObject object =>
      cases object with
      | emptyObject _ => exact ⟨lbrace, _, rfl, by decide⟩
      | object _ _ _ => exact ⟨lbrace, _, rfl, by decide⟩
  | ofArray array =>
      cases array with
      | emptyArray _ => exact ⟨lbracket, _, rfl, by decide⟩
      | array _ _ _ => exact ⟨lbracket, _, rfl, by decide⟩

theorem derives_elements_head {d : Nat} {m : Bytes} (derived : Derives .elements d m) :
    ∃ b s, m = b :: s ∧ Opens b := by
  cases derived with
  | element value => exact derives_value_head value
  | elements value _ _ _ =>
      obtain ⟨b, s, head, opens⟩ := derives_value_head value
      rw [head]
      exact ⟨b, _, rfl, opens⟩

theorem derives_members_head {d : Nat} {m : Bytes} (derived : Derives .members d m) :
    ∃ s, m = quote :: s := by
  cases derived with
  | member str _ _ _ | members str _ _ _ _ _ _ =>
      cases str with
      | quoted _ => exact ⟨_, rfl⟩

/-! ### The bytes of a text -/

theorem chars_high {s : Bytes} (chars : Chars s) : ∀ b ∈ s, 0x20 ≤ b := by
  induction chars with
  | nil => exact List.forall_mem_nil _
  | plain here _ ih =>
      simp only [isPlain, Bool.and_eq_true, decide_eq_true_eq] at here
      exact List.forall_mem_cons.mpr ⟨here.1.1, ih⟩
  | escape known _ ih =>
      refine List.forall_mem_cons.mpr ⟨by decide, List.forall_mem_cons.mpr ⟨?_, ih⟩⟩
      simp only [isEscape, Bool.or_eq_true, beq_iff_eq] at known
      rcases known with ((((((rfl | rfl) | rfl) | rfl) | rfl) | rfl) | rfl) | rfl
      all_goals decide
  | unicode _ hex _ ih =>
      refine List.forall_mem_cons.mpr ⟨by decide, List.forall_mem_cons.mpr ⟨by decide, ?_⟩⟩
      refine List.forall_mem_append.mpr ⟨fun b member => ?_, ih⟩
      have digit := hex b member
      simp only [isHex, Bool.or_eq_true, Bool.and_eq_true, decide_eq_true_eq] at digit
      have least : (0x20 : UInt8) ≤ 0x30 ∧ (0x20 : UInt8) ≤ 0x61 ∧ (0x20 : UInt8) ≤ 0x41 := by decide
      rcases digit with (digit | digit) | digit
      · exact UInt8.le_trans least.1 digit.1
      · exact UInt8.le_trans least.2.1 digit.1
      · exact UInt8.le_trans least.2.2 digit.1

def Visible (s : Bytes) : Prop :=
  ∀ b ∈ s, isSpace b = true ∨ 0x20 ≤ b

theorem Visible.append {s t : Bytes} (first : Visible s) (second : Visible t) : Visible (s ++ t) :=
  List.forall_mem_append.mpr ⟨first, second⟩

theorem visible_high {s : Bytes} (high : ∀ b ∈ s, 0x20 ≤ b) : Visible s :=
  fun b member => .inr (high b member)

theorem visible_spaces {w : Bytes} (spaces : Spaces w) : Visible w :=
  fun b member => .inl (spaces b member)

theorem visible_str {s : Bytes} (str : Str s) : Visible s := by
  cases str with
  | quoted chars =>
      refine visible_high (List.forall_mem_cons.mpr ⟨by decide, ?_⟩)
      exact List.forall_mem_append.mpr ⟨chars_high chars, by decide⟩

def isNumeric (b : UInt8) : Bool :=
  isDigit b || b == minus || b == plus || b == point || b == letterE || b == capitalE

theorem number_numeric {s : Bytes} (number : Number s) : ∀ b ∈ s, isNumeric b = true := by
  have all {s : Bytes} (digits : ∀ b ∈ s, isDigit b = true) : ∀ b ∈ s, isNumeric b = true := by
    intro b member
    rw [isNumeric, digits b member]
    rfl
  have signs {sign : Bytes} (known : sign = [] ∨ sign = [plus] ∨ sign = [minus]) :
      ∀ b ∈ sign, isNumeric b = true := by
    rcases known with rfl | rfl | rfl
    all_goals decide
  cases number with
  | parts signed integer fraction exponent =>
      refine List.forall_mem_append.mpr ⟨signs (signed.imp_right .inr), ?_⟩
      refine List.forall_mem_append.mpr ⟨?_, List.forall_mem_append.mpr ⟨?_, ?_⟩⟩
      · cases integer with
        | zero => decide
        | digits digits _ => exact all digits.2
      · cases fraction with
        | none => exact List.forall_mem_nil _
        | digits digits => exact List.forall_mem_cons.mpr ⟨rfl, all digits.2⟩
      · cases exponent with
        | none => exact List.forall_mem_nil _
        | digits marked signed digits =>
            refine List.forall_mem_cons.mpr ⟨?_, ?_⟩
            · rcases marked with rfl | rfl
              · rfl
              · rfl
            · exact List.forall_mem_append.mpr ⟨signs signed, all digits.2⟩

theorem visible_number {s : Bytes} (number : Number s) : Visible s := by
  refine visible_high fun b member => ?_
  have known := number_numeric number b member
  simp only [isNumeric, isDigit, Bool.or_eq_true, Bool.and_eq_true, decide_eq_true_eq,
    beq_iff_eq] at known
  rcases known with ((((digit | rfl) | rfl) | rfl) | rfl) | rfl
  · exact UInt8.le_trans (by decide) digit.1
  all_goals decide

theorem derives_visible {kind : Kind} {d : Nat} {s : Bytes} (derived : Derives kind d s) :
    Visible s := by
  have braces : Visible [lbrace] ∧ Visible [rbrace] :=
    ⟨visible_high (by decide), visible_high (by decide)⟩
  have brackets : Visible [lbracket] ∧ Visible [rbracket] :=
    ⟨visible_high (by decide), visible_high (by decide)⟩
  have colons : Visible [colon] := visible_high (by decide)
  have commas : Visible [comma] := visible_high (by decide)
  induction derived with
  | string str => exact visible_str str
  | number number => exact visible_number number
  | literal known =>
      simp only [List.mem_cons, List.not_mem_nil, or_false] at known
      rcases known with rfl | rfl | rfl
      all_goals exact visible_high (by decide)
  | ofObject _ ih | ofArray _ ih => exact ih
  | emptyObject spaces => exact braces.1.append ((visible_spaces spaces).append braces.2)
  | emptyArray spaces => exact brackets.1.append ((visible_spaces spaces).append brackets.2)
  | object spaces _ spaces' ih =>
      exact braces.1.append ((visible_spaces spaces).append
        (ih.append ((visible_spaces spaces').append braces.2)))
  | array spaces _ spaces' ih =>
      exact brackets.1.append ((visible_spaces spaces).append
        (ih.append ((visible_spaces spaces').append brackets.2)))
  | member str spaces spaces' _ ih =>
      exact (visible_str str).append ((visible_spaces spaces).append
        (colons.append ((visible_spaces spaces').append ih)))
  | members str spaces spaces' _ spaces₁ spaces₂ _ ih ih' =>
      exact (visible_str str).append ((visible_spaces spaces).append
        (colons.append ((visible_spaces spaces').append (ih.append ((visible_spaces spaces₁).append
          (commas.append ((visible_spaces spaces₂).append ih')))))))
  | element _ ih => exact ih
  | elements _ spaces₁ spaces₂ _ ih ih' =>
      exact ih.append ((visible_spaces spaces₁).append
        (commas.append ((visible_spaces spaces₂).append ih')))

end JsonGrammar
