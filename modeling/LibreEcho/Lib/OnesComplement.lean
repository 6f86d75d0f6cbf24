import LibreEcho.Lib.BigEndian

/-!
The checksum of sixteen-bit words in ones' complement, where a carry comes back in at the
low end. A sum is its plain sum modulo 65535, and zero only for zeros alone.
-/
namespace OnesComplement

open BigEndian

def ones : Nat := 65535

/-- The words of a text; a zero byte stands behind a last odd one. -/
def words : Bytes → List Nat
  | a :: b :: rest => get [a, b] :: words rest
  | [a] => [get [a, 0]]
  | [] => []

def add (x y : Nat) : Nat :=
  if x + y ≤ ones then x + y else x + y - ones

def total (ws : List Nat) : Nat :=
  ws.foldl add 0

/-- With its checksum in place a text adds up to ones alone. -/
def Verifies (s : Bytes) : Prop :=
  total (words s) = ones

structure Folded (n x : Nat) : Prop where
  short : x ≤ ones
  same : x % ones = n % ones
  zero : x = 0 ↔ n = 0

namespace Folded

theorem refl {n : Nat} (short : n ≤ ones) : Folded n n :=
  ⟨short, rfl, Iff.rfl⟩

theorem unique {n x y : Nat} (left : Folded n x) (right : Folded n y) : x = y := by
  have same := left.same.trans right.same.symm
  have zero := left.zero.trans right.zero.symm
  have := left.short
  have := right.short
  simp only [ones] at *
  omega

theorem add {n x y : Nat} (folded : Folded n x) (short : y ≤ ones) :
    Folded (n + y) (OnesComplement.add x y) := by
  obtain ⟨shortX, same, zero⟩ := folded
  rw [OnesComplement.add]
  by_cases carried : x + y ≤ ones
  · rw [if_pos carried]
    exact ⟨carried, by rw [Nat.add_mod, same, ← Nat.add_mod], by omega⟩
  · rw [if_neg carried]
    simp only [ones] at *
    exact ⟨by simp only [ones]; omega, by simp only [ones]; omega, by omega⟩

theorem eq_ones {n x : Nat} (folded : Folded n x) : x = ones ↔ n ≠ 0 ∧ n % ones = 0 := by
  obtain ⟨short, same, zero⟩ := folded
  simp only [ones] at *
  omega

end Folded

theorem get_pair (a b : UInt8) : get [a, b] = a.toNat * 256 + b.toNat := by
  simp only [BigEndian.get, List.foldl_cons, List.foldl_nil, Nat.zero_mul, Nat.zero_add]

theorem get_pair_le (a b : UInt8) : get [a, b] ≤ ones := by
  have := a.toNat_lt
  have := b.toNat_lt
  rw [get_pair]
  simp only [ones]
  omega

theorem words_le {s : Bytes} : ∀ w ∈ words s, w ≤ ones := by
  fun_induction words s with
  | case1 a b rest ih => exact List.forall_mem_cons.mpr ⟨get_pair_le a b, ih⟩
  | case2 a => exact List.forall_mem_singleton.mpr (get_pair_le a 0)
  | case3 => simp

theorem words_length (s : Bytes) : 2 * (words s).length ≤ s.length + 1 := by
  fun_induction words s with
  | case1 a b rest ih =>
      simp only [List.length_cons]
      omega
  | case2 a => simp
  | case3 => simp

theorem sum_le {ws : List Nat} (short : ∀ w ∈ ws, w ≤ ones) : ws.sum ≤ ws.length * ones := by
  induction ws with
  | nil => exact Nat.le_refl _
  | cons w ws ih =>
      obtain ⟨first, others⟩ := List.forall_mem_cons.mp short
      rw [List.sum_cons, List.length_cons, Nat.succ_mul, Nat.add_comm]
      exact Nat.add_le_add (ih others) first

theorem foldl_folded {ws : List Nat} {n x : Nat} (folded : Folded n x)
    (short : ∀ w ∈ ws, w ≤ ones) : Folded (n + ws.sum) (ws.foldl add x) := by
  induction ws generalizing n x with
  | nil => exact folded
  | cons w ws ih =>
      obtain ⟨first, others⟩ := List.forall_mem_cons.mp short
      rw [List.sum_cons, ← Nat.add_assoc]
      exact ih (folded.add first) others

theorem total_folded (s : Bytes) : Folded (words s).sum (total (words s)) := by
  have folded := foldl_folded (Folded.refl (Nat.zero_le ones)) (words_le (s := s))
  rwa [Nat.zero_add] at folded

theorem verifies_iff {s : Bytes} : Verifies s ↔ (words s).sum ≠ 0 ∧ (words s).sum % ones = 0 :=
  (total_folded s).eq_ones

theorem words_append {front : Bytes} (even : front.length % 2 = 0) (back : Bytes) :
    words (front ++ back) = words front ++ words back := by
  fun_induction words front with
  | case1 a b rest ih =>
      simp only [List.length_cons] at even
      rw [List.cons_append, List.cons_append, words, ih (by omega), List.cons_append]
  | case2 a => simp at even
  | case3 => rfl

theorem sum_field {front : Bytes} (even : front.length % 2 = 0) (a b : UInt8) (back : Bytes) :
    (words (front ++ a :: b :: back)).sum = (words (front ++ 0 :: 0 :: back)).sum + get [a, b] := by
  rw [words_append even, words_append even, words, words, List.sum_append, List.sum_append,
    List.sum_cons, List.sum_cons, get_pair 0 0]
  simp only [UInt8.toNat_zero]
  omega

theorem verifies_stored {front back : Bytes} (even : front.length % 2 = 0) {a b : UInt8}
    (stored : get [a, b] = ones - total (words (front ++ 0 :: 0 :: back))) :
    Verifies (front ++ a :: b :: back) := by
  obtain ⟨short, same, zero⟩ := total_folded (front ++ 0 :: 0 :: back)
  rw [verifies_iff, sum_field even, stored]
  simp only [ones] at *
  omega

end OnesComplement
