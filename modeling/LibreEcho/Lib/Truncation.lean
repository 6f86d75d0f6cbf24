import Mathlib

/-!
Rational numbers cast to integers.

The cast drops the fraction, so it is the floor of a number that is not negative, and it keeps
integer bounds on either side of zero.
-/
namespace Truncation

def truncate (value : ℚ) : Int :=
  value.num.tdiv value.den

variable {value : ℚ}

theorem den_pos (value : ℚ) : 0 < (value.den : Int) :=
  Int.natCast_pos.mpr value.den_pos

theorem le_truncate {low : Int} (above : (low : ℚ) ≤ value) : low ≤ truncate value := by
  have positive := den_pos value
  have scaled : low * value.den ≤ value.num := by
    rw [← Rat.num_div_den value, le_div_iff₀ (by exact_mod_cast positive)] at above
    exact_mod_cast above
  calc low = (low * value.den).tdiv value.den := (Int.mul_tdiv_cancel _ positive.ne').symm
    _ ≤ truncate value := Int.tdiv_le_tdiv positive scaled

theorem truncate_le {high : Int} (below : value ≤ high) : truncate value ≤ high := by
  have positive := den_pos value
  have scaled : value.num ≤ high * value.den := by
    rw [← Rat.num_div_den value, div_le_iff₀ (by exact_mod_cast positive)] at below
    exact_mod_cast below
  calc truncate value ≤ (high * value.den).tdiv value.den := Int.tdiv_le_tdiv positive scaled
    _ = high := Int.mul_tdiv_cancel _ positive.ne'

theorem truncate_floor (started : 0 ≤ value) : truncate value = ⌊value⌋ := by
  have floor := Rat.floor_intCast_div_natCast value.num value.den
  rw [Rat.num_div_den] at floor
  rw [floor]
  exact Int.tdiv_eq_ediv_of_nonneg (Rat.num_nonneg.mpr started)

theorem truncate_lt (started : 0 ≤ value) {bound : Int} : truncate value < bound ↔ value < bound := by
  rw [truncate_floor started]
  exact Int.floor_lt

theorem truncate_add (started : 0 ≤ value) (shift : Nat) :
    truncate (value + shift) = truncate value + shift := by
  rw [truncate_floor started, truncate_floor (add_nonneg started (Nat.cast_nonneg shift))]
  exact Int.floor_add_natCast value shift

end Truncation
