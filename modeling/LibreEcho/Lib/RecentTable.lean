import Mathlib

/-!
A table of fixed size whose entries are overwritten in turn.

The table holds the newest entries of everything stored: as many as it has
places, the newest right before the place to be written next.
-/
namespace RecentTable
universe u
variable {α : Type u} {cap : Nat}

/-- The place of the entry stored `k` entries before the newest one. -/
def place (next : Fin cap) (k : Nat) : Fin cap :=
  ⟨(next.val + (cap - 1 - k)) % cap, Nat.mod_lt _ (Nat.zero_lt_of_lt next.isLt)⟩

def advance (next : Fin cap) : Fin cap :=
  ⟨(next.val + 1) % cap, Nat.mod_lt _ (Nat.zero_lt_of_lt next.isLt)⟩

/-- The table holds the newest of the stored entries, given newest first. -/
def Holds (table : Fin cap → Option α) (next : Fin cap) (stored : List α) : Prop :=
  ∀ k < cap, table (place next k) = stored[k]?

theorem holds_nil (next : Fin cap) : Holds (fun _ => none) next ([] : List α) :=
  fun _ _ => rfl

/-- How many entries before the newest one the entry of a place was stored. -/
def age (next i : Fin cap) : Nat :=
  (next.val + (cap - 1 - i.val)) % cap

theorem age_lt (next i : Fin cap) : age next i < cap :=
  Nat.mod_lt _ (Nat.zero_lt_of_lt next.isLt)

theorem place_age (next i : Fin cap) : place next (age next i) = i := by
  refine Fin.ext ?_
  have bound := next.isLt
  have here := i.isLt
  simp only [place, age]
  by_cases wraps : next.val + (cap - 1 - i.val) < cap
  · rw [Nat.mod_eq_of_lt wraps]
    have sum : next.val + (cap - 1 - (next.val + (cap - 1 - i.val))) = i.val := by omega
    rw [sum, Nat.mod_eq_of_lt here]
  · have once : (next.val + (cap - 1 - i.val)) % cap = next.val + (cap - 1 - i.val) - cap := by
      rw [Nat.mod_eq_sub_mod (by omega), Nat.mod_eq_of_lt (by omega)]
    have sum : next.val + (cap - 1 - (next.val + (cap - 1 - i.val) - cap)) = i.val + cap := by
      omega
    rw [once, sum, Nat.add_mod_right, Nat.mod_eq_of_lt here]

theorem place_advance_zero (next : Fin cap) : place (advance next) 0 = next := by
  refine Fin.ext ?_
  have bound := next.isLt
  simp only [place, advance]
  rw [Nat.mod_add_mod]
  have sum : next.val + 1 + (cap - 1 - 0) = next.val + cap := by omega
  rw [sum, Nat.add_mod_right, Nat.mod_eq_of_lt bound]

theorem place_advance_succ (next : Fin cap) {k : Nat} (inside : k + 1 < cap) :
    place (advance next) (k + 1) = place next k := by
  refine Fin.ext ?_
  simp only [place, advance]
  rw [Nat.mod_add_mod]
  have sum : next.val + 1 + (cap - 1 - (k + 1)) = next.val + (cap - 1 - k) := by omega
  rw [sum]

theorem place_ne_next (next : Fin cap) {k : Nat} (inside : k + 1 < cap) :
    place next k ≠ next := by
  intro same
  have bound := next.isLt
  have value : (next.val + (cap - 1 - k)) % cap = next.val := congrArg Fin.val same
  by_cases wraps : next.val + (cap - 1 - k) < cap
  · rw [Nat.mod_eq_of_lt wraps] at value
    omega
  · rw [Nat.mod_eq_sub_mod (by omega), Nat.mod_eq_of_lt (by omega)] at value
    omega

theorem Holds.store {table : Fin cap → Option α} {next : Fin cap} {stored : List α}
    (holds : Holds table next stored) (x : α) :
    Holds (Function.update table next (some x)) (advance next) (x :: stored) := by
  intro k inside
  cases k with
  | zero =>
      rw [place_advance_zero, Function.update_self]
      rfl
  | succ k =>
      rw [place_advance_succ next inside, Function.update_of_ne (place_ne_next next inside),
        List.getElem?_cons_succ]
      exact holds k (by omega)

theorem Holds.mem_iff {table : Fin cap → Option α} {next : Fin cap} {stored : List α}
    (holds : Holds table next stored) (x : α) :
    (∃ i, table i = some x) ↔ x ∈ stored.take cap := by
  rw [List.mem_iff_getElem?]
  constructor
  · intro ⟨i, here⟩
    refine ⟨age next i, ?_⟩
    rw [List.getElem?_take_of_lt (age_lt next i), ← holds _ (age_lt next i), place_age]
    exact here
  · intro ⟨k, there⟩
    have inside : k < cap := by
      by_contra outside
      rw [List.getElem?_take_eq_none (Nat.le_of_not_lt outside)] at there
      exact absurd there (by simp)
    rw [List.getElem?_take_of_lt inside, ← holds k inside] at there
    exact ⟨place next k, there⟩

theorem Holds.place_unique {β : Type u} {key : α → β} {table : Fin cap → Option α}
    {next : Fin cap} {stored : List α} (holds : Holds table next stored)
    (distinct : ((stored.take cap).map key).Nodup) {i j : Fin cap} {x y : α}
    (first : table i = some x) (second : table j = some y) (same : key x = key y) : i = j := by
  have atAge (i : Fin cap) {x : α} (here : table i = some x) :
      ((stored.take cap).map key)[age next i]? = some (key x) := by
    rw [List.getElem?_map, List.getElem?_take_of_lt (age_lt next i), ← holds _ (age_lt next i),
      place_age, here]
    rfl
  have ages : age next i = age next j := by
    have one := atAge i first
    have two := atAge j second
    obtain ⟨inI, atI⟩ := List.getElem?_eq_some_iff.mp one
    obtain ⟨inJ, atJ⟩ := List.getElem?_eq_some_iff.mp two
    exact (distinct.getElem_inj_iff).mp (atI.trans (same.trans atJ.symm))
  rw [← place_age next i, ages, place_age]

/-! ### Tables without a mark for an empty place -/

/-- As far as entries were stored, the table holds the newest of them. -/
def Newest (table : Fin cap → α) (next : Fin cap) (stored : List α) : Prop :=
  ∀ k < cap, ∀ x, stored[k]? = some x → table (place next k) = x

theorem newest_nil (table : Fin cap → α) (next : Fin cap) : Newest table next [] := by
  intro k _ x found
  cases found

theorem Newest.store {table : Fin cap → α} {next : Fin cap} {stored : List α}
    (newest : Newest table next stored) (x : α) :
    Newest (Function.update table next x) (advance next) (x :: stored) := by
  intro k inside y found
  cases k with
  | zero =>
      rw [place_advance_zero, Function.update_self]
      exact Option.some.inj found
  | succ k =>
      rw [place_advance_succ next inside, Function.update_of_ne (place_ne_next next inside)]
      exact newest k (by omega) y found

theorem place_inj {next : Fin cap} {j k : Nat} (first : j < cap) (second : k < cap)
    (same : place next j = place next k) : j = k := by
  have bound := next.isLt
  have value : (next.val + (cap - 1 - j)) % cap = (next.val + (cap - 1 - k)) % cap :=
    congrArg Fin.val same
  have one (i : Nat) (inside : i < cap) :
      (next.val + (cap - 1 - i)) % cap =
        if next.val + (cap - 1 - i) < cap then next.val + (cap - 1 - i)
        else next.val + (cap - 1 - i) - cap := by
    split
    · exact Nat.mod_eq_of_lt ‹_›
    · rw [Nat.mod_eq_sub_mod (by omega), Nat.mod_eq_of_lt (by omega)]
  rw [one j first, one k second] at value
  split at value <;> split at value <;> omega

theorem Newest.replace {table : Fin cap → α} {next : Fin cap} {stored : List α}
    (newest : Newest table next stored) {k : Nat} (inside : k < cap) (x : α) :
    Newest (Function.update table (place next k) x) next (stored.set k x) := by
  intro j within y found
  by_cases same : j = k
  · subst same
    rw [Function.update_self]
    rw [List.getElem?_set_self'] at found
    cases here : stored[j]? with
    | none => rw [here] at found; cases found
    | some z =>
        rw [here] at found
        exact Option.some.inj found
  · rw [Function.update_of_ne fun e => same (place_inj within inside e)]
    rw [List.getElem?_set_ne (Ne.symm same)] at found
    exact newest j within y found

end RecentTable
