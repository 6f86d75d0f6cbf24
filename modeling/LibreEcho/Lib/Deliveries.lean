import Mathlib

/-!
Blocking reads and writes on a byte stream.

The stream hands its bytes over in pieces of any size, with interruptions between them. A reader
that asks for a number of bytes, or for a line byte by byte, gets what the stream holds, however it
is cut.
-/
namespace Deliveries

universe u
variable {α : Type u}

/-- What one wait on the stream ends with: at least one element, or nothing yet. -/
inductive Delivery (α : Type u) where
  | chunk (first : α) (more : List α)
  | interrupted

def Delivery.content : Delivery α → List α
  | .chunk first more => first :: more
  | .interrupted => []

def contents (deliveries : List (Delivery α)) : List α :=
  deliveries.flatMap Delivery.content

def putBack (left : List α) (deliveries : List (Delivery α)) : List (Delivery α) :=
  match left with
  | [] => deliveries
  | first :: more => .chunk first more :: deliveries

/-- Reads until `size` elements are there; `none` when the stream ends before. -/
def readAll : Nat → List (Delivery α) → Option (List α × List (Delivery α))
  | 0, deliveries => some ([], deliveries)
  | _ + 1, [] => none
  | size + 1, .interrupted :: deliveries => readAll (size + 1) deliveries
  | size + 1, .chunk first more :: deliveries =>
      if more.length ≤ size then
        (readAll (size - more.length) deliveries).map fun read => (first :: more ++ read.1, read.2)
      else some (first :: more.take size, putBack (more.drop size) deliveries)

def readOne : List (Delivery α) → Option (α × List (Delivery α))
  | [] => none
  | .interrupted :: deliveries => readOne deliveries
  | .chunk first more :: deliveries => some (first, putBack more deliveries)

/-- Element by element up to `stop`, which is taken and left out; `none` when there is no room
for the next one. -/
def readUntil [DecidableEq α] (stop : α) :
    Nat → List (Delivery α) → Option (List α × List (Delivery α))
  | 0, _ => none
  | room + 1, deliveries =>
      match readOne deliveries with
      | none => none
      | some (next, deliveries) =>
          if next = stop then some ([], deliveries)
          else (readUntil stop room deliveries).map fun read => (next :: read.1, read.2)

theorem contents_cons (delivery : Delivery α) (deliveries : List (Delivery α)) :
    contents (delivery :: deliveries) = delivery.content ++ contents deliveries :=
  List.flatMap_cons

theorem contents_putBack (left : List α) (deliveries : List (Delivery α)) :
    contents (putBack left deliveries) = left ++ contents deliveries := by
  cases left with
  | nil => rfl
  | cons first more => exact contents_cons _ _

theorem putBack_length (left : List α) (deliveries : List (Delivery α)) :
    (putBack left deliveries).length ≤ deliveries.length + 1 := by
  cases left with
  | nil => exact Nat.le_succ _
  | cons first more => exact Nat.le_refl _

theorem readAll_takes {deliveries : List (Delivery α)} {front later : List α}
    (holds : contents deliveries = front ++ later) :
    ∃ rest, readAll front.length deliveries = some (front, rest) ∧ contents rest = later := by
  induction deliveries generalizing front with
  | nil =>
      obtain ⟨rfl, rfl⟩ := List.append_eq_nil_iff.mp holds.symm
      exact ⟨[], rfl, rfl⟩
  | cons delivery deliveries ih =>
      cases front with
      | nil => exact ⟨_, rfl, holds⟩
      | cons head tail =>
          rw [contents_cons] at holds
          cases delivery with
          | interrupted => exact ih holds
          | chunk first more =>
              obtain ⟨rfl, (same : more ++ contents deliveries = tail ++ later)⟩ :=
                List.cons.inj holds
              rw [List.length_cons, readAll]
              by_cases whole : more.length ≤ tail.length
              · obtain ⟨left, rfl⟩ : more <+: tail :=
                  List.prefix_of_prefix_length_le ⟨_, same⟩ ⟨_, rfl⟩ whole
                rw [List.append_assoc] at same
                obtain ⟨rest, read, rests⟩ := ih (List.append_cancel_left same)
                have count : (more ++ left).length - more.length = left.length := by
                  rw [List.length_append]
                  omega
                refine ⟨rest, ?_, rests⟩
                rw [if_pos whole, count, read]
                rfl
              · obtain ⟨left, rfl⟩ : tail <+: more :=
                  List.prefix_of_prefix_length_le ⟨_, rfl⟩ ⟨_, same⟩ (Nat.le_of_not_le whole)
                rw [List.append_assoc] at same
                refine ⟨putBack left deliveries, ?_, ?_⟩
                · rw [if_neg whole, List.take_left, List.drop_left]
                · rw [contents_putBack]
                  exact List.append_cancel_left same

theorem readOne_takes {deliveries : List (Delivery α)} {first : α} {later : List α}
    (holds : contents deliveries = first :: later) :
    ∃ rest, readOne deliveries = some (first, rest) ∧ contents rest = later := by
  induction deliveries with
  | nil => cases holds
  | cons delivery deliveries ih =>
      rw [contents_cons] at holds
      cases delivery with
      | interrupted => exact ih holds
      | chunk head more =>
          obtain ⟨rfl, same⟩ := List.cons.inj holds
          exact ⟨putBack more deliveries, rfl, (contents_putBack _ _).trans same⟩

theorem readUntil_takes [DecidableEq α] {stop : α} {line : List α} (free : stop ∉ line)
    {room : Nat} (fits : line.length < room) {deliveries : List (Delivery α)} {later : List α}
    (holds : contents deliveries = line ++ stop :: later) :
    ∃ rest, readUntil stop room deliveries = some (line, rest) ∧ contents rest = later := by
  induction line generalizing room deliveries with
  | nil =>
      obtain ⟨room, rfl⟩ := Nat.exists_eq_add_of_lt fits
      obtain ⟨rest, read, rests⟩ := readOne_takes holds
      refine ⟨rest, ?_, rests⟩
      rw [readUntil, read]
      exact if_pos rfl
  | cons head tail ih =>
      obtain ⟨room, rfl⟩ : ∃ n, room = n + 1 := ⟨room - 1, by omega⟩
      obtain ⟨other, free⟩ := List.ne_and_not_mem_of_not_mem_cons free
      obtain ⟨rest, read, rests⟩ := readOne_takes holds
      obtain ⟨left, line, lefts⟩ := ih free (Nat.lt_of_succ_lt_succ fits) rests
      refine ⟨left, ?_, lefts⟩
      rw [readUntil, read]
      dsimp only
      rw [if_neg (Ne.symm other), line]
      rfl

/-! ### Writing -/

/-- What one write ends with. -/
inductive WriteAnswer where
  | wrote (count : Nat)
  | interrupted
  | failed
deriving DecidableEq, Repr

/-- Writes until nothing is left; the elements written, `none` when a write fails. -/
def writeAll : List WriteAnswer → List α → Option (List α × List WriteAnswer)
  | answers, [] => some ([], answers)
  | [], _ :: _ => none
  | .interrupted :: answers, first :: more => writeAll answers (first :: more)
  | .failed :: _, _ :: _ => none
  | .wrote count :: answers, first :: more =>
      if count = 0 then none
      else
        (writeAll answers ((first :: more).drop count)).map fun written =>
          ((first :: more).take count ++ written.1, written.2)

theorem writeAll_whole {answers rest : List WriteAnswer} {buffer written : List α}
    (wrote : writeAll answers buffer = some (written, rest)) : written = buffer := by
  induction answers generalizing buffer written with
  | nil =>
      cases buffer with
      | nil => exact (Prod.mk.inj (Option.some.inj wrote)).1.symm
      | cons first more => cases wrote
  | cons answer answers ih =>
      cases buffer with
      | nil => exact (Prod.mk.inj (Option.some.inj wrote)).1.symm
      | cons first more =>
          cases answer with
          | interrupted => exact ih wrote
          | failed => cases wrote
          | wrote count =>
              rw [writeAll] at wrote
              split at wrote
              · cases wrote
              · obtain ⟨⟨tail, left⟩, later, same⟩ := Option.map_eq_some_iff.mp wrote
                obtain ⟨rfl, rfl⟩ := Prod.mk.inj same
                rw [ih later, List.take_append_drop]

theorem writeAll_long {count n : Nat} {buffer : List α} (filled : 0 < count)
    (long : buffer.length ≤ count) (left : 0 < n) :
    ∃ j, n ≤ j + 1 ∧ writeAll (.replicate n (.wrote count)) buffer =
      some (buffer, .replicate j (.wrote count)) := by
  obtain ⟨k, rfl⟩ : ∃ k, n = k + 1 := ⟨n - 1, by omega⟩
  cases buffer with
  | nil => exact ⟨k + 1, Nat.le_succ _, rfl⟩
  | cons first more =>
      refine ⟨k, Nat.le_refl _, ?_⟩
      rw [List.replicate_succ, writeAll, if_neg (Nat.ne_of_gt filled),
        List.take_of_length_le long, List.drop_eq_nil_of_le long]
      cases k <;> simp [writeAll]

end Deliveries
