import Mathlib

/-!
How many instants of a log fall into a window of fixed width.

Two groups of instants that lie further apart than the width never share a
window, so a bound for each group bounds their union.
-/
namespace Window

/-- The instants in the closed window of the given width from `start` on. -/
def count (width start : Int) (times : List Int) : Nat :=
  times.countP fun t => start ≤ t ∧ t ≤ start + width

/-- Every window holds at most `limit` instants. -/
def Bounded (width : Int) (limit : Nat) (times : List Int) : Prop :=
  ∀ start, count width start times ≤ limit

theorem count_append (width start : Int) (a b : List Int) :
    count width start (a ++ b) = count width start a + count width start b :=
  List.countP_append

theorem count_le_length (width start : Int) (times : List Int) :
    count width start times ≤ times.length :=
  List.countP_le_length

theorem count_eq_zero {width start : Int} {times : List Int}
    (outside : ∀ t ∈ times, t < start ∨ start + width < t) : count width start times = 0 := by
  refine List.countP_eq_zero.mpr ?_
  intro t member
  have := outside t member
  simp only [decide_eq_true_eq]
  omega

theorem bounded_nil (width : Int) (limit : Nat) : Bounded width limit [] :=
  fun _ => Nat.zero_le _

theorem bounded_append {width : Int} {limit : Nat} {late early : List Int}
    (apart : ∀ t ∈ late, ∀ u ∈ early, u + width < t)
    (lateBounded : Bounded width limit late) (earlyBounded : Bounded width limit early) :
    Bounded width limit (late ++ early) := by
  intro start
  rw [count_append]
  by_cases shared : ∃ t ∈ late, start ≤ t ∧ t ≤ start + width
  · obtain ⟨t, member, -, inside⟩ := shared
    have none : count width start early = 0 := by
      refine count_eq_zero ?_
      intro u other
      have := apart t member u other
      omega
    rw [none]
    exact lateBounded start
  · have none : count width start late = 0 := by
      refine count_eq_zero ?_
      intro t member
      by_contra inside
      exact shared ⟨t, member, by omega, by omega⟩
    rw [none, Nat.zero_add]
    exact earlyBounded start

theorem bounded_cons {width : Int} {limit : Nat} {t : Int} {times : List Int}
    (bounded : Bounded width limit times) (newest : ∀ u ∈ times, u ≤ t)
    (room : count width (t - width) (t :: times) ≤ limit) : Bounded width limit (t :: times) := by
  intro start
  by_cases inside : start ≤ t ∧ t ≤ start + width
  · refine Nat.le_trans (List.countP_mono_left fun u member counted => ?_) room
    have before : u ≤ t := by
      obtain rfl | older := List.mem_cons.mp member
      · exact le_refl u
      · exact newest u older
    simp only [decide_eq_true_eq] at counted ⊢
    omega
  · rw [count, List.countP_cons_of_neg (by simpa only [decide_eq_true_eq] using inside)]
    exact bounded start

theorem bounded_of_length {width : Int} {limit : Nat} {times : List Int}
    (few : times.length ≤ limit) : Bounded width limit times :=
  fun start => (count_le_length width start times).trans few

end Window
