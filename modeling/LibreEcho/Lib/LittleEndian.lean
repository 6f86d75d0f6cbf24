import Mathlib

/-!
Numbers written in bytes, the lowest byte first.
-/
namespace LittleEndian

abbrev Bytes := List UInt8

def put : Nat → Nat → Bytes
  | 0, _ => []
  | count + 1, n => .ofNat n :: put count (n / 256)

def get : Bytes → Nat
  | [] => 0
  | b :: rest => b.toNat + 256 * get rest

@[simp] theorem put_length (count n : Nat) : (put count n).length = count := by
  induction count generalizing n with
  | zero => rfl
  | succ count ih => rw [put, List.length_cons, ih]

theorem get_put (count n : Nat) : get (put count n) = n % 256 ^ count := by
  induction count generalizing n with
  | zero => rw [put, get, Nat.pow_zero, Nat.mod_one]
  | succ count ih =>
      have high : n % 256 ^ (count + 1) = n % 256 + 256 * (n / 256 % 256 ^ count) := by
        rw [Nat.pow_succ', Nat.mod_mul]
      rw [put, get, ih, high, UInt8.toNat_ofNat']

theorem get_put_lt {count n : Nat} (fits : n < 256 ^ count) : get (put count n) = n := by
  rw [get_put, Nat.mod_eq_of_lt fits]

def field (offset count : Nat) (s : Bytes) : Nat :=
  get ((s.drop offset).take count)

theorem field_append {offset count : Nat} {s : Bytes} (inside : offset + count ≤ s.length)
    (t : Bytes) : field offset count (s ++ t) = field offset count s := by
  rw [field, field, List.drop_append_of_le_length (by omega), List.take_append_of_le_length]
  rw [List.length_drop]
  omega

theorem field_skip {offset count width : Nat} (behind : width ≤ offset) (n : Nat) (s : Bytes) :
    field offset count (put width n ++ s) = field (offset - width) count s := by
  rw [field, field, List.drop_append, put_length,
    List.drop_eq_nil_of_le (Nat.le_trans (Nat.le_of_eq (put_length width n)) behind), List.nil_append]

theorem field_put {count n : Nat} (fits : n < 256 ^ count) (s : Bytes) :
    field 0 count (put count n ++ s) = n := by
  rw [field, List.drop_zero, List.take_left' (put_length count n), get_put_lt fits]

/-! ### Arrays -/

def putAll (count : Nat) (numbers : List Nat) : Bytes :=
  numbers.flatMap (put count)

/-- `length` numbers of `count` bytes each. -/
def getAll (count : Nat) : Nat → Bytes → List Nat
  | 0, _ => []
  | length + 1, s => get (s.take count) :: getAll count length (s.drop count)

theorem putAll_length (count : Nat) (numbers : List Nat) :
    (putAll count numbers).length = numbers.length * count := by
  induction numbers with
  | nil => exact (Nat.zero_mul count).symm
  | cons n numbers ih =>
      rw [putAll, List.flatMap_cons, List.length_append, put_length, List.length_cons]
      rw [putAll] at ih
      rw [ih, Nat.succ_mul, Nat.add_comm]

theorem getAll_putAll {count : Nat} {numbers : List Nat} (fits : ∀ n ∈ numbers, n < 256 ^ count)
    (back : Bytes) : getAll count numbers.length (putAll count numbers ++ back) = numbers := by
  induction numbers with
  | nil => rfl
  | cons n numbers ih =>
      rw [putAll, List.flatMap_cons, List.append_assoc, List.length_cons, getAll,
        List.take_left' (put_length count n), List.drop_left' (put_length count n),
        get_put_lt (fits n List.mem_cons_self)]
      exact congrArg (n :: ·) (ih fun m inside => fits m (List.mem_cons_of_mem n inside))

theorem getAll_append {count length : Nat} {s : Bytes} (inside : length * count ≤ s.length)
    (t : Bytes) : getAll count length (s ++ t) = getAll count length s := by
  induction length generalizing s with
  | zero => rfl
  | succ length ih =>
      rw [Nat.succ_mul] at inside
      rw [getAll, getAll, List.take_append_of_le_length (by omega),
        List.drop_append_of_le_length (by omega), ih]
      rw [List.length_drop]
      omega

end LittleEndian
