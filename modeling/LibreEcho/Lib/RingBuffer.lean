import Mathlib

/-!
A bounded ring of numbered elements.

Every element has an absolute number; a full ring forgets its oldest element
when a new one is stored. `Retains` relates a ring to the whole history of
stored elements, so readers of the ring are described by slices of the history.
-/
namespace RingBuffer
universe u
variable {α : Type u} {cap : Nat}

/-- `count` elements numbered from `first` on; the slot of a number is its
remainder modulo the capacity. -/
structure Ring (α : Type u) (cap : Nat) where
  slots : Fin cap → α
  first : Nat
  count : Nat
  fits : count ≤ cap

namespace Ring

def stop (r : Ring α cap) : Nat := r.first + r.count

def reset (r : Ring α cap) : Ring α cap :=
  { r with first := 0, count := 0, fits := Nat.zero_le _ }

/-- An empty ring whose next element gets number `n`. -/
def primeAt (r : Ring α cap) (n : Nat) : Ring α cap :=
  { r with first := n, count := 0, fits := Nat.zero_le _ }

variable [NeZero cap]

def get (r : Ring α cap) (n : Nat) : α :=
  r.slots (Fin.ofNat cap n)

def push (r : Ring α cap) (x : α) : Ring α cap :=
  if h : r.count = cap then
    { slots := Function.update r.slots (Fin.ofNat cap r.stop) x
      first := r.first + 1
      count := r.count
      fits := r.fits }
  else
    { slots := Function.update r.slots (Fin.ofNat cap r.stop) x
      first := r.first
      count := r.count + 1
      fits := Nat.lt_of_le_of_ne r.fits h }

def append (r : Ring α cap) (xs : List α) : Ring α cap :=
  xs.foldl push r

/-- The elements numbered `n`, `n + 1`, … , `n + len - 1`. -/
def slice (r : Ring α cap) (n len : Nat) : List α :=
  (List.range len).map fun i => r.get (n + i)

theorem slice_add (r : Ring α cap) (n a b : Nat) :
    r.slice n (a + b) = r.slice n a ++ r.slice (n + a) b := by
  rw [slice, slice, slice, List.range_add, List.map_append, List.map_map]
  congr 1
  exact List.map_congr_left fun i _ => congrArg r.get (Nat.add_assoc n a i).symm

theorem slice_length (r : Ring α cap) (n len : Nat) : (r.slice n len).length = len := by
  rw [slice, List.length_map, List.length_range]

theorem push_stop (r : Ring α cap) (x : α) : (r.push x).stop = r.stop + 1 := by
  unfold push stop
  split <;> simp only <;> omega

theorem push_count (r : Ring α cap) (x : α) :
    (r.push x).count = min cap (r.count + 1) := by
  have := r.fits
  unfold push
  split <;> simp only <;> omega

theorem push_get (r : Ring α cap) (x : α) (n : Nat) :
    (r.push x).get n =
      if Fin.ofNat cap n = Fin.ofNat cap r.stop then x else r.get n := by
  unfold push get
  split <;> simp only [Function.update_apply]

theorem slot_ne {n m : Nat} (lower : n < m) (upper : m < n + cap) :
    Fin.ofNat cap n ≠ Fin.ofNat cap m := by
  intro h
  have hmod : n % cap = m % cap := congrArg Fin.val h
  have hdiv : (m - n) % cap = 0 := Nat.sub_mod_eq_zero_of_mod_eq hmod.symm
  rw [Nat.mod_eq_of_lt (by omega)] at hdiv
  omega

theorem append_stop (r : Ring α cap) (xs : List α) :
    (r.append xs).stop = r.stop + xs.length := by
  induction xs generalizing r with
  | nil => rfl
  | cons x xs ih =>
      have h := ih (r.push x)
      rw [push_stop] at h
      simp only [append, List.foldl_cons, List.length_cons] at h ⊢
      omega

theorem append_count (r : Ring α cap) (xs : List α) :
    (r.append xs).count = min cap (r.count + xs.length) := by
  induction xs generalizing r with
  | nil =>
      have := r.fits
      simp only [append, List.foldl_nil, List.length_nil]
      omega
  | cons x xs ih =>
      have h := ih (r.push x)
      rw [push_count] at h
      simp only [append, List.foldl_cons, List.length_cons] at h ⊢
      omega

end Ring

/-- `r` holds the newest elements of `history`, whose oldest number is `base`. -/
structure Retains [NeZero cap] (r : Ring α cap) (base : Nat) (history : List α) : Prop where
  stop : r.stop = base + history.length
  start : base ≤ r.first
  value : ∀ n, r.first ≤ n → n < r.stop → history[n - base]? = some (r.get n)

namespace Retains
variable [NeZero cap]

theorem primeAt (r : Ring α cap) (n : Nat) : Retains (r.primeAt n) n [] where
  stop := rfl
  start := Nat.le_refl _
  value m lower upper := by
    simp only [Ring.primeAt, Ring.stop] at lower upper
    omega

theorem push {r : Ring α cap} {base : Nat} {history : List α}
    (h : Retains r base history) (x : α) :
    Retains (r.push x) base (history ++ [x]) where
  stop := by
    rw [Ring.push_stop, h.stop, List.length_append, List.length_singleton]
    omega
  start := by
    have := h.start
    unfold Ring.push
    split <;> simp only <;> omega
  value n lower upper := by
    have hstop := h.stop
    have hstart := h.start
    have hfits := r.fits
    have hfirst : r.first ≤ n ∧ r.stop < n + cap + 1 ∧ (n < r.stop → r.stop < n + cap) := by
      have hs : r.stop = r.first + r.count := rfl
      unfold Ring.push at lower
      split at lower <;> simp only at lower <;> omega
    rw [Ring.push_stop] at upper
    rw [Ring.push_get]
    by_cases hn : n = r.stop
    · have : n - base = history.length := by omega
      simp [hn, ← this]
    · rw [if_neg (Ring.slot_ne (by omega) (hfirst.2.2 (by omega))),
        List.getElem?_append_left (by omega)]
      exact h.value n hfirst.1 (by omega)

theorem append {r : Ring α cap} {base : Nat} {history : List α}
    (h : Retains r base history) (xs : List α) :
    Retains (r.append xs) base (history ++ xs) := by
  induction xs generalizing r history with
  | nil => simpa [Ring.append] using h
  | cons x xs ih =>
      have := ih (h.push x)
      simpa [Ring.append] using this

theorem slice {r : Ring α cap} {base : Nat} {history : List α}
    (h : Retains r base history) {n len : Nat} (lower : r.first ≤ n)
    (upper : n + len ≤ r.stop) :
    r.slice n len = (history.drop (n - base)).take len := by
  have hstart := h.start
  have hstop := h.stop
  apply List.ext_getElem?
  intro i
  by_cases hi : i < len
  · have hv := h.value (n + i) (by omega) (by omega)
    rw [List.getElem?_take_of_lt hi, List.getElem?_drop, Ring.slice]
    simp only [List.getElem?_map, List.getElem?_range hi, Option.map_some]
    rw [← hv]
    congr 1
    omega
  · rw [List.getElem?_eq_none (by simp [Ring.slice]; omega),
      List.getElem?_eq_none (by simp; omega)]

end Retains
end RingBuffer
