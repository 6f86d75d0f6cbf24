import Mathlib

/-!
Numbers in seven-bit groups, the lowest first; every byte but the last has its
high bit set.

A reader takes a bounded number of bytes, and of the last one it may take only
the low bits that are left of the machine word. What it took before is kept when
more bytes arrive.
-/
namespace Varint

abbrev Bytes := List UInt8

def encode (v : Nat) : Bytes :=
  if v < 128 then [UInt8.ofNat v] else UInt8.ofNat (v % 128 + 128) :: encode (v / 128)
termination_by v
decreasing_by omega

inductive Read where
  | more
  | bad
  | done (used value : Nat)
deriving DecidableEq, Repr

def Read.prepend (b : UInt8) : Read → Read
  | .done used value => .done (used + 1) (b.toNat % 128 + 128 * value)
  | .more => .more
  | .bad => .bad

/-- At most `count` bytes are read; the last of them may be at most `last`. -/
def read (last : Nat) : Nat → Bytes → Read
  | 0, _ => .bad
  | _ + 1, [] => .more
  | count + 1, b :: rest =>
      if count = 0 ∧ last < b.toNat then .bad
      else if b.toNat < 128 then .done 1 b.toNat
      else (read last count rest).prepend b

theorem encode_small {v : Nat} (small : v < 128) : encode v = [UInt8.ofNat v] := by
  rw [encode, if_pos small]

theorem encode_large {v : Nat} (large : ¬v < 128) :
    encode v = UInt8.ofNat (v % 128 + 128) :: encode (v / 128) := by
  rw [encode, if_neg large]

theorem length_encode_pos (v : Nat) : 0 < (encode v).length := by
  rw [encode]
  split <;> simp

theorem read_encode {last : Nat} (limit : last < 128) (count v : Nat)
    (fits : v < 128 ^ count * (last + 1)) (rest : Bytes) :
    read last (count + 1) (encode v ++ rest) = .done (encode v).length v := by
  induction count generalizing v with
  | zero =>
      have small : v < 128 := by omega
      have byte : (UInt8.ofNat v).toNat = v := by
        rw [UInt8.toNat_ofNat']
        omega
      rw [encode_small small, List.singleton_append, read, byte, if_neg (by omega),
        if_pos small]
      rfl
  | succ count ih =>
      by_cases small : v < 128
      · have byte : (UInt8.ofNat v).toNat = v := by
          rw [UInt8.toNat_ofNat']
          omega
        rw [encode_small small, List.singleton_append, read, byte, if_neg (by omega),
          if_pos small]
        rfl
      · have byte : (UInt8.ofNat (v % 128 + 128)).toNat = v % 128 + 128 := by
          rw [UInt8.toNat_ofNat']
          omega
        have higher : v / 128 < 128 ^ count * (last + 1) := by
          rw [Nat.div_lt_iff_lt_mul (by decide)]
          have scale : 128 ^ count * (last + 1) * 128 = 128 ^ (count + 1) * (last + 1) := by
            rw [Nat.pow_succ, Nat.mul_right_comm]
          omega
        rw [encode_large small, List.cons_append, read, byte, if_neg (by omega),
          if_neg (by omega), ih (v / 128) higher]
        simp only [Read.prepend, byte, List.length_cons, Read.done.injEq, true_and]
        omega

section reading
variable {last count used value : Nat} {bytes : Bytes}

theorem prepend_done {b : UInt8} {r : Read} (h : r.prepend b = .done used value) :
    ∃ used' value', r = .done used' value' ∧ used = used' + 1 ∧
      value = b.toNat % 128 + 128 * value' := by
  cases r with
  | more | bad => cases h
  | done used' value' =>
      obtain ⟨rfl, rfl⟩ := Read.done.inj h
      exact ⟨used', value', rfl, rfl, rfl⟩

theorem read_used (h : read last count bytes = .done used value) :
    0 < used ∧ used ≤ bytes.length := by
  induction count generalizing bytes used value with
  | zero => cases h
  | succ count ih =>
      cases bytes with
      | nil => cases h
      | cons b rest =>
          rw [read] at h
          split at h
          · cases h
          · split at h
            · cases h
              exact ⟨Nat.one_pos, by simp⟩
            · obtain ⟨used', value', inner, rfl, rfl⟩ := prepend_done h
              have bound := (ih inner).2
              exact ⟨Nat.succ_pos _, Nat.succ_le_succ bound⟩

theorem read_done_append (h : read last count bytes = .done used value) (more : Bytes) :
    read last count (bytes ++ more) = .done used value := by
  induction count generalizing bytes used value with
  | zero => cases h
  | succ count ih =>
      cases bytes with
      | nil => cases h
      | cons b rest =>
          rw [read] at h
          rw [List.cons_append, read]
          split at h
          · cases h
          · rename_i first
            rw [if_neg first]
            split at h
            · rw [if_pos ‹_›]
              exact h
            · rw [if_neg ‹_›]
              obtain ⟨used', value', inner, rfl, rfl⟩ := prepend_done h
              rw [ih inner]
              rfl

theorem read_bad_append (h : read last count bytes = .bad) (more : Bytes) :
    read last count (bytes ++ more) = .bad := by
  induction count generalizing bytes with
  | zero => rfl
  | succ count ih =>
      cases bytes with
      | nil => cases h
      | cons b rest =>
          rw [read] at h
          rw [List.cons_append, read]
          split at h
          · rw [if_pos ‹_›]
          · rename_i first
            rw [if_neg first]
            split at h
            · cases h
            · rw [if_neg ‹_›]
              cases inner : read last count rest with
              | more => rw [inner] at h; cases h
              | done used' value' => rw [inner] at h; cases h
              | bad => rw [ih inner]; rfl

def partialValue : Bytes → Nat
  | [] => 0
  | b :: rest => b.toNat % 128 + 128 * partialValue rest

theorem read_more_iff (limit : last < 128) :
    read last count bytes = .more ↔
      bytes.length < count ∧ ∀ b ∈ bytes, ¬b.toNat < 128 := by
  induction count generalizing bytes with
  | zero => simp [read]
  | succ count ih =>
      cases bytes with
      | nil => simp [read]
      | cons b rest =>
          rw [read]
          by_cases small : b.toNat < 128
          · have unfinished : ¬∀ x ∈ b :: rest, ¬x.toNat < 128 :=
              fun all => all b List.mem_cons_self small
            simp only [small, if_true, unfinished, and_false, iff_false]
            split <;> simp
          · by_cases none_left : count = 0
            · rw [if_pos ⟨none_left, by omega⟩]
              simp only [List.length_cons, none_left]
              refine ⟨fun h => ?_, fun h => ?_⟩
              · cases h
              · omega
            · rw [if_neg fun h => none_left h.1, if_neg small]
              have inner : read last count rest = .more ↔
                  rest.length < count ∧ ∀ x ∈ rest, ¬x.toNat < 128 := ih
              simp only [List.length_cons, List.mem_cons, forall_eq_or_imp, small,
                not_false_eq_true, true_and, Nat.add_lt_add_iff_right]
              rw [← inner]
              cases read last count rest <;> simp [Read.prepend]

theorem read_more_append (h : read last count bytes = .more) (more : Bytes)
    (done : read last count (bytes ++ more) = .done used value) :
    partialValue bytes ≤ value ∧ bytes.length < used := by
  induction count generalizing bytes used value with
  | zero => cases h
  | succ count ih =>
      cases bytes with
      | nil => exact ⟨Nat.zero_le _, (read_used done).1⟩
      | cons b rest =>
          rw [read] at h
          rw [List.cons_append, read] at done
          split at h
          · cases h
          · rename_i first
            rw [if_neg first] at done
            split at h
            · cases h
            · rw [if_neg ‹_›] at done
              have inner : read last count rest = .more := by
                cases step : read last count rest with
                | more => rfl
                | bad => rw [step] at h; cases h
                | done used' value' => rw [step] at h; cases h
              obtain ⟨used', value', finished, rfl, rfl⟩ := prepend_done done
              have bound := ih inner finished
              simp only [partialValue, List.length_cons]
              omega

theorem read_more_zero (h : read last count bytes = .more) (rest : Bytes) :
    read last count (bytes ++ 0 :: rest) = .done (bytes.length + 1) (partialValue bytes) := by
  induction count generalizing bytes with
  | zero => cases h
  | succ count ih =>
      cases bytes with
      | nil =>
          rw [List.nil_append, read, if_neg (by simp), if_pos (by decide)]
          rfl
      | cons b front =>
          rw [read] at h
          rw [List.cons_append, read]
          split at h
          · cases h
          · rename_i first
            rw [if_neg first]
            split at h
            · cases h
            · rw [if_neg ‹_›]
              have inner : read last count front = .more := by
                cases step : read last count front with
                | more => rfl
                | bad => rw [step] at h; cases h
                | done used' value' => rw [step] at h; cases h
              rw [ih inner]
              rfl

end reading
end Varint
