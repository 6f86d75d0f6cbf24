import Mathlib

/-!
Numbers of a fixed width written one behind the other as bits, the highest bit first.

Regrouping the bits of a sequence of numbers is reading the same bits at another width; a shift
register holds the bits that are not grouped yet.
-/
namespace BitGroups

/-- The low `w` bits of a number, the highest of them first. -/
def bits : Nat → Nat → List Bool
  | 0, _ => []
  | w + 1, n => n.testBit w :: bits w n

def concat (w : Nat) (values : List Nat) : List Bool :=
  values.flatMap (bits w)

variable {w m n : Nat}

@[simp] theorem bits_length (w n : Nat) : (bits w n).length = w := by
  induction w with
  | zero => rfl
  | succ w ih => rw [bits, List.length_cons, ih]

theorem bits_congr (same : ∀ i < w, m.testBit i = n.testBit i) : bits w m = bits w n := by
  induction w with
  | zero => rfl
  | succ w ih =>
      rw [bits, bits, same w (Nat.lt_succ_self w), ih fun i low => same i (Nat.lt_succ_of_lt low)]

theorem bits_testBit (same : bits w m = bits w n) {i : Nat} (low : i < w) :
    m.testBit i = n.testBit i := by
  induction w with
  | zero => exact nomatch low
  | succ w ih =>
      obtain ⟨top, rest⟩ := List.cons.inj same
      by_cases last : i = w
      · rw [last]
        exact top
      · exact ih rest (by omega)

theorem bits_injective (left : m < 2 ^ w) (right : n < 2 ^ w) (same : bits w m = bits w n) :
    m = n := by
  refine Nat.eq_of_testBit_eq fun i => ?_
  by_cases low : i < w
  · exact bits_testBit same low
  · have high : 2 ^ w ≤ 2 ^ i := Nat.pow_le_pow_right (by decide) (Nat.not_lt.mp low)
    rw [Nat.testBit_lt_two_pow (Nat.lt_of_lt_of_le left high),
      Nat.testBit_lt_two_pow (Nat.lt_of_lt_of_le right high)]

theorem bits_add (a b n : Nat) : bits (a + b) n = bits a (n >>> b) ++ bits b n := by
  induction a with
  | zero => rw [Nat.zero_add, bits, List.nil_append]
  | succ a ih =>
      rw [Nat.add_right_comm, bits, bits, ih, Nat.testBit_shiftRight, Nat.add_comm b a,
        List.cons_append]

theorem bits_mod {k : Nat} (wide : w ≤ k) (n : Nat) : bits w (n % 2 ^ k) = bits w n := by
  refine bits_congr fun i low => ?_
  rw [Nat.testBit_mod_two_pow, decide_eq_true (Nat.lt_of_lt_of_le low wide), Bool.true_and]

theorem bits_shift {v : Nat} (a k : Nat) (small : v < 2 ^ k) (n : Nat) :
    bits (a + k) (n <<< k ||| v) = bits a n ++ bits k v := by
  have high : (n <<< k ||| v) >>> k = n := by
    refine Nat.eq_of_testBit_eq fun i => ?_
    have outside : v.testBit (k + i) = false := Nat.testBit_lt_two_pow
      (Nat.lt_of_lt_of_le small (Nat.pow_le_pow_right (by decide) (Nat.le_add_right k i)))
    rw [Nat.testBit_shiftRight, Nat.testBit_or, Nat.testBit_shiftLeft, outside,
      decide_eq_true (Nat.le_add_right k i), Nat.add_sub_cancel_left, Bool.true_and, Bool.or_false]
  have low : bits k (n <<< k ||| v) = bits k v := by
    refine bits_congr fun i inside => ?_
    rw [Nat.testBit_or, Nat.testBit_shiftLeft, decide_eq_false (Nat.not_le.mpr inside),
      Bool.false_and, Bool.false_or]
  rw [bits_add, high, low]

theorem concat_append (w : Nat) (a b : List Nat) : concat w (a ++ b) = concat w a ++ concat w b :=
  List.flatMap_append

theorem concat_cons (w n : Nat) (rest : List Nat) :
    concat w (n :: rest) = bits w n ++ concat w rest := rfl

theorem concat_singleton (w n : Nat) : concat w [n] = bits w n :=
  List.flatMap_singleton _ _

@[simp] theorem concat_length (w : Nat) (values : List Nat) :
    (concat w values).length = w * values.length := by
  induction values with
  | nil => rfl
  | cons n rest ih =>
      rw [concat_cons, List.length_append, bits_length, ih, List.length_cons, Nat.mul_succ,
        Nat.add_comm]

theorem concat_injective {a b : List Nat} (left : ∀ n ∈ a, n < 2 ^ w) (right : ∀ n ∈ b, n < 2 ^ w)
    (length : a.length = b.length) (same : concat w a = concat w b) : a = b := by
  induction a generalizing b with
  | nil => exact (List.length_eq_zero_iff.mp length.symm).symm
  | cons m a ih =>
      cases b with
      | nil => exact nomatch length
      | cons n b =>
          rw [concat_cons, concat_cons] at same
          obtain ⟨front, back⟩ := List.append_inj same (by rw [bits_length, bits_length])
          rw [bits_injective (left m List.mem_cons_self) (right n List.mem_cons_self) front,
            ih (fun k inside => left k (List.mem_cons_of_mem m inside))
              (fun k inside => right k (List.mem_cons_of_mem n inside)) (Nat.succ.inj length) back]

end BitGroups
