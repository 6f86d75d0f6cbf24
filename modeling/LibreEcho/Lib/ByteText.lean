import Mathlib

/-!
Parts of the C library on byte strings: `strstr`, `isspace`, hexadecimal digits
and decimal numbers.
-/
namespace ByteText

/-- The text from the first occurrence of `needle` on. -/
def strstr {α : Type} [DecidableEq α] (needle : List α) : List α → Option (List α)
  | [] => if needle = [] then some [] else none
  | x :: s => if needle <+: x :: s then some (x :: s) else strstr needle s

section Search
variable {α : Type} [DecidableEq α] {needle s : List α}

theorem strstr_here (rest : List α) : strstr needle (needle ++ rest) = some (needle ++ rest) := by
  cases text : needle ++ rest with
  | nil =>
      rw [strstr, if_pos (List.append_eq_nil_iff.mp text).1]
  | cons x s =>
      rw [strstr, if_pos ⟨rest, text⟩]

theorem strstr_later {x : α} (other : ¬needle <+: x :: s) :
    strstr needle (x :: s) = strstr needle s :=
  if_neg other

theorem strstr_free {x : α} {needle s : List α} (free : x ∉ s) (rest : List α) :
    strstr (x :: needle) (s ++ rest) = strstr (x :: needle) rest := by
  induction s with
  | nil => rfl
  | cons y s ih =>
      obtain ⟨other, free⟩ := List.ne_and_not_mem_of_not_mem_cons free
      have miss : ¬x :: needle <+: y :: (s ++ rest) := fun front =>
        other (List.cons_prefix_cons.mp front).1
      rw [List.cons_append, strstr_later miss, ih free]

theorem strstr_infix (inside : needle <:+: s) : (strstr needle s).isSome = true := by
  obtain ⟨front, rest, rfl⟩ := inside
  induction front with
  | nil => exact congrArg Option.isSome (strstr_here rest)
  | cons x front ih =>
      rw [List.cons_append, List.cons_append, strstr]
      split
      · rfl
      · exact ih

theorem strstr_some {p : List α} (found : strstr needle s = some p) : needle <+: p ∧ p <:+ s := by
  induction s with
  | nil =>
      rw [strstr] at found
      split at found
      · rename_i empty
        rw [← Option.some.inj found, empty]
        exact ⟨List.prefix_rfl, List.suffix_rfl⟩
      · exact absurd found (by simp)
  | cons x s ih =>
      rw [strstr] at found
      split at found
      · rename_i here
        rw [← Option.some.inj found]
        exact ⟨here, List.suffix_rfl⟩
      · exact ⟨(ih found).1, (ih found).2.trans (List.suffix_cons x s)⟩

theorem strstr_none (outside : ¬needle <:+: s) : strstr needle s = none := by
  cases found : strstr needle s with
  | none => rfl
  | some p => exact absurd ((strstr_some found).1.isInfix.trans (strstr_some found).2.isInfix) outside

theorem strstr_early (front rest : List α) :
    ∃ p, strstr needle (front ++ (needle ++ rest)) = some p ∧
      (needle ++ rest).length ≤ p.length := by
  induction front with
  | nil => exact ⟨_, strstr_here rest, le_refl _⟩
  | cons x front ih =>
      by_cases here : needle <+: x :: (front ++ (needle ++ rest))
      · refine ⟨_, if_pos here, ?_⟩
        exact (List.suffix_append (x :: front) (needle ++ rest)).length_le
      · obtain ⟨p, found, long⟩ := ih
        exact ⟨p, (strstr_later here).trans found, long⟩

theorem strstr_first {front p : List α} (found : strstr needle (front ++ p) = some p)
    (some : needle ≠ []) : ¬ needle <:+: (front ++ needle).dropLast := by
  rintro ⟨before, behind, split⟩
  obtain ⟨tail, rfl⟩ := (strstr_some found).1
  have whole : front ++ (needle ++ tail) =
      before ++ (needle ++ (behind ++ (needle.getLast some :: tail))) := by
    have last := List.dropLast_concat_getLast (List.append_ne_nil_of_right_ne_nil front some)
    rw [← split, List.getLast_append_of_ne_nil _ some] at last
    rw [← List.append_assoc, ← last]
    simp only [List.append_assoc, List.singleton_append]
  obtain ⟨q, again, long⟩ :=
    @strstr_early _ _ needle before (behind ++ (needle.getLast some :: tail))
  rw [← whole, found] at again
  obtain rfl := Option.some.inj again
  simp only [List.length_append, List.length_cons] at long
  omega

end Search

/-- `isspace` in the C locale. -/
def isSpace (b : UInt8) : Bool :=
  b == 0x20 || (0x09 ≤ b && b ≤ 0x0d)

def hexText : List UInt8 :=
  [0x30, 0x31, 0x32, 0x33, 0x34, 0x35, 0x36, 0x37, 0x38, 0x39, 0x61, 0x62, 0x63, 0x64, 0x65, 0x66]

/-- `"0123456789abcdef"[d]` -/
def hexDigit (d : Nat) : UInt8 :=
  hexText.getD d 0

/-- The value of a hexadecimal digit, `none` for -1. -/
def hexValue (b : UInt8) : Option Nat :=
  if 0x30 ≤ b ∧ b ≤ 0x39 then some (b.toNat - 0x30)
  else if 0x61 ≤ b ∧ b ≤ 0x66 then some (b.toNat - 0x61 + 10)
  else if 0x41 ≤ b ∧ b ≤ 0x46 then some (b.toNat - 0x41 + 10)
  else none

theorem hexValue_hexDigit {d : Nat} (digit : d < 16) : hexValue (hexDigit d) = some d := by
  have all : ∀ d : Fin 16, hexValue (hexDigit d) = some d.val := by decide
  exact all ⟨d, digit⟩

theorem hexValue_lt {b : UInt8} {d : Nat} (digit : hexValue b = some d) : d < 16 := by
  rw [hexValue] at digit
  simp only [UInt8.le_iff_toNat_le] at digit
  split at digit
  case isTrue range =>
    have top : (0x39 : UInt8).toNat = 0x39 := rfl
    cases digit
    omega
  case isFalse =>
    split at digit
    case isTrue range =>
      have top : (0x66 : UInt8).toNat = 0x66 := rfl
      cases digit
      omega
    case isFalse =>
      split at digit
      case isTrue range =>
        have top : (0x46 : UInt8).toNat = 0x46 := rfl
        cases digit
        omega
      case isFalse => cases digit

def ascii (s : String) : List UInt8 :=
  s.toList.map fun c => UInt8.ofNat c.toNat

/-! ### Decimal numbers -/

def isDigit (b : UInt8) : Bool :=
  0x30 ≤ b && b ≤ 0x39

def decimal (n : Nat) : List UInt8 :=
  (Nat.toDigits 10 n).map fun c => UInt8.ofNat c.toNat

def decimalValue (digits : List UInt8) : Nat :=
  Nat.ofDigitChars 10 (digits.map fun b => Char.ofNat b.toNat) 0

/-- The digits at the start of a text, and what follows them. -/
def readDecimal (s : List UInt8) : List UInt8 × List UInt8 :=
  (s.takeWhile isDigit, s.dropWhile isDigit)

theorem digit_byte {c : Char} (digit : c.isDigit = true) :
    isDigit (UInt8.ofNat c.toNat) = true ∧ Char.ofNat (UInt8.ofNat c.toNat).toNat = c := by
  have range : 48 ≤ c.toNat ∧ c.toNat ≤ 57 := by
    rw [Char.isDigit, Bool.and_eq_true, decide_eq_true_eq, decide_eq_true_eq] at digit
    exact digit
  have value : (UInt8.ofNat c.toNat).toNat = c.toNat := by
    rw [UInt8.toNat_ofNat']
    omega
  refine ⟨?_, ?_⟩
  · rw [isDigit, Bool.and_eq_true, decide_eq_true_eq, decide_eq_true_eq, UInt8.le_iff_toNat_le,
      UInt8.le_iff_toNat_le, value]
    exact range
  · rw [value, Char.ofNat_toNat]

theorem decimal_isDigit {n : Nat} {b : UInt8} (member : b ∈ decimal n) : isDigit b = true := by
  obtain ⟨c, inside, rfl⟩ := List.mem_map.mp member
  exact (digit_byte (Nat.isDigit_of_mem_toDigits (by decide) (by decide) inside)).1

theorem decimal_ne_nil (n : Nat) : decimal n ≠ [] := by
  rw [decimal, Ne, List.map_eq_nil_iff]
  exact List.ne_nil_of_length_pos Nat.length_toDigits_pos

theorem length_decimal_le {n digits : Nat} (some : 0 < digits) (fits : n < 10 ^ digits) :
    (decimal n).length ≤ digits := by
  rw [decimal, List.length_map]
  exact (Nat.length_toDigits_le_iff (by decide) some).mpr fits

theorem decimal_head {n : Nat} (positive : 0 < n) : (decimal n).head? ≠ some 0x30 := by
  induction n using Nat.strongRecOn with
  | _ n ih =>
      by_cases small : n < 10
      · have all : ∀ d : Fin 10, 0 < d.val → UInt8.ofNat (Nat.digitChar d.val).toNat ≠ 0x30 := by
          decide
        rw [decimal, Nat.toDigits_of_lt_base small]
        exact fun same => all ⟨n, small⟩ positive (Option.some.inj same)
      · have front : decimal n = decimal (n / 10) ++ [.ofNat (Nat.digitChar (n % 10)).toNat] := by
          rw [decimal, Nat.toDigits_of_base_le (by decide) (by omega), List.map_append]
          rfl
        rw [front, List.head?_append_of_ne_nil _ (decimal_ne_nil _)]
        exact ih (n / 10) (by omega) (by omega)

theorem decimalValue_decimal (n : Nat) : decimalValue (decimal n) = n := by
  have chars : ((decimal n).map fun b => Char.ofNat b.toNat) = Nat.toDigits 10 n := by
    rw [decimal, List.map_map]
    refine List.map_congr_left (g := id) (fun c inside => ?_) |>.trans (List.map_id _)
    exact (digit_byte (Nat.isDigit_of_mem_toDigits (by decide) (by decide) inside)).2
  rw [decimalValue, chars]
  exact Nat.ofDigitChars_ten_toDigits

theorem readDecimal_decimal (n : Nat) {b : UInt8} (stop : isDigit b = false) (rest : List UInt8) :
    readDecimal (decimal n ++ b :: rest) = (decimal n, b :: rest) := by
  have all : ∀ x ∈ decimal n, isDigit x = true := fun _ => decimal_isDigit
  rw [readDecimal, List.takeWhile_append_of_pos all, List.dropWhile_append_of_pos all,
    List.takeWhile_cons_of_neg (by rw [stop]; exact Bool.false_ne_true),
    List.dropWhile_cons_of_neg (by rw [stop]; exact Bool.false_ne_true), List.append_nil]

end ByteText
