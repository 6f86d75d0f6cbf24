import Mathlib

/-!
A bounded queue in an array of slots.

What is taken leaves at the read index and what is put enters at the write index, and both go
around. `contents` lists what waits, so a queue is reasoned about as that list.
-/
universe u

structure CircularQueue (α : Type u) (cap : Nat) where
  slots : Fin cap → α
  readIndex : Nat
  writeIndex : Nat
  count : Nat
  fits : count ≤ cap
  /-- The write index lies as far behind the read index as there are elements. -/
  lined : writeIndex % cap = (readIndex + count) % cap

namespace CircularQueue
variable {α : Type u} {cap : Nat}

def empty (x : α) : CircularQueue α cap where
  slots _ := x
  readIndex := 0
  writeIndex := 0
  count := 0
  fits := Nat.zero_le cap
  lined := rfl

def clear (q : CircularQueue α cap) : CircularQueue α cap :=
  { q with readIndex := q.writeIndex, count := 0, fits := Nat.zero_le cap, lined := rfl }

variable [NeZero cap]

def first (q : CircularQueue α cap) : α :=
  q.slots (Fin.ofNat cap q.readIndex)

def put (q : CircularQueue α cap) (x : α) (room : q.count < cap) : CircularQueue α cap where
  slots := Function.update q.slots (Fin.ofNat cap q.writeIndex) x
  readIndex := q.readIndex
  writeIndex := (q.writeIndex + 1) % cap
  count := q.count + 1
  fits := room
  lined := by rw [Nat.mod_mod, Nat.add_mod, q.lined, ← Nat.add_mod, Nat.add_assoc]

def take (q : CircularQueue α cap) (some : 0 < q.count) : CircularQueue α cap where
  slots := q.slots
  readIndex := (q.readIndex + 1) % cap
  writeIndex := q.writeIndex
  count := q.count - 1
  fits := (Nat.sub_le q.count 1).trans q.fits
  lined := by
    have same : q.readIndex + 1 + (q.count - 1) = q.readIndex + q.count := by omega
    rw [q.lined, Nat.mod_add_mod, same]

def contents (q : CircularQueue α cap) : List α :=
  (List.range q.count).map fun i => q.slots (Fin.ofNat cap (q.readIndex + i))

@[simp] theorem length_contents (q : CircularQueue α cap) : q.contents.length = q.count := by
  rw [contents, List.length_map, List.length_range]

@[simp] theorem contents_empty (x : α) : (empty x : CircularQueue α cap).contents = [] := rfl

@[simp] theorem contents_clear (q : CircularQueue α cap) : q.clear.contents = [] := rfl

theorem contents_eq_nil {q : CircularQueue α cap} : q.contents = [] ↔ q.count = 0 := by
  rw [← List.length_eq_zero_iff, length_contents]

theorem contents_put (q : CircularQueue α cap) (x : α) (room : q.count < cap) :
    (q.put x room).contents = q.contents ++ [x] := by
  have slot : Fin.ofNat cap q.writeIndex = Fin.ofNat cap (q.readIndex + q.count) :=
    Fin.ext q.lined
  rw [contents, contents]
  simp only [put, List.range_succ, List.map_append, List.map_cons, List.map_nil, slot,
    Function.update_self]
  congr 1
  refine List.map_congr_left fun i inside => Function.update_of_ne (fun same => ?_) _ _
  -- two places less than the capacity apart are not the same slot
  have equal := Nat.ModEq.add_left_cancel' q.readIndex (Fin.val_eq_of_eq same)
  have less := List.mem_range.mp inside
  have here := Nat.ModEq.eq_of_lt_of_lt equal (less.trans room) room
  omega

theorem contents_take (q : CircularQueue α cap) (some : 0 < q.count) :
    q.contents = q.first :: (q.take some).contents := by
  obtain ⟨n, size⟩ := Nat.exists_eq_add_of_lt some
  have count : q.count = n + 1 := by omega
  rw [contents, contents]
  simp only [take, count, List.range_succ_eq_map, List.map_cons, List.map_map, Nat.add_zero,
    Nat.add_sub_cancel]
  refine congrArg (q.first :: ·) (List.map_congr_left fun i _ => congrArg q.slots (Fin.ext ?_))
  change (q.readIndex + (i + 1)) % cap = ((q.readIndex + 1) % cap + i) % cap
  rw [Nat.mod_add_mod, Nat.add_assoc, Nat.add_comm 1 i]

end CircularQueue
