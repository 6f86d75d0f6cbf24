import Mathlib

/-!
Numbers written in bytes, the highest byte first.
-/
namespace BigEndian

abbrev Bytes := List UInt8

def get (s : Bytes) : Nat :=
  s.foldl (fun n b => n * 256 + b.toNat) 0

def put : Nat → Nat → Bytes
  | 0, _ => []
  | count + 1, n => .ofNat (n / 256 ^ count) :: put count n

theorem get_concat (s : Bytes) (b : UInt8) : get (s ++ [b]) = get s * 256 + b.toNat := by
  simp only [get, List.foldl_append, List.foldl_cons, List.foldl_nil]

theorem get_lt (s : Bytes) : get s < 256 ^ s.length := by
  induction s using List.reverseRecOn with
  | nil => exact Nat.one_pos
  | append_singleton s b ih =>
      have := b.toNat_lt
      simp only [get_concat, List.length_append, List.length_singleton, Nat.pow_succ]
      omega

@[simp] theorem put_length (count n : Nat) : (put count n).length = count := by
  induction count with
  | zero => rfl
  | succ count ih => simp only [put, List.length_cons, ih]

theorem put_eq_map (count n : Nat) :
    put count n = (List.range count).map fun i => .ofNat (n / 256 ^ (count - 1 - i)) := by
  induction count with
  | zero => rfl
  | succ count ih =>
      rw [put, ih, List.range_succ_eq_map, List.map_cons, List.map_map]
      congr 1
      apply List.map_congr_left
      intro i _
      simp only [Function.comp_apply]
      congr 3
      omega

theorem shift_or (n : Nat) (b : UInt8) : n <<< 8 ||| b.toNat = n * 256 + b.toNat := by
  rw [← Nat.shiftLeft_add_eq_or_of_lt b.toNat_lt, Nat.shiftLeft_eq]

end BigEndian
