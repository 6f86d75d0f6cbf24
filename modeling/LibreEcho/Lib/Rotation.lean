import Mathlib.Data.List.Basic
import Mathlib.Logic.Function.Basic

/-!
Files that are rotated: the current one has the number 0 and the older ones follow.

A number holds one file at most, and renaming puts a file in the place of what was there. A
directory is reasoned about as the list of its files, the newest one first.
-/
universe u v
namespace Rotation
variable {α : Type u} {β : Type v}

def rename (files : Nat → Option α) (old new : Nat) : Nat → Option α :=
  match files old with
  | none => files
  | some file => Function.update (Function.update files new (some file)) old none

/-- The files before the number `n` are renamed to the next number, the oldest one first. -/
def moveOn : Nat → (Nat → Option α) → Nat → Option α
  | 0, files => files
  | n + 1, files => moveOn n (rename files n (n + 1))

theorem rename_next {files : Nat → Option α} {n : Nat} (free : files (n + 1) = none) (i : Nat) :
    rename files n (n + 1) i =
      if i = n then none else if i = n + 1 then files n else files i := by
  rw [rename]
  cases found : files n with
  | none => grind
  | some file =>
      show Function.update (Function.update files (n + 1) (some file)) n none i = _
      rw [Function.update_apply, Function.update_apply]

theorem moveOn_apply {files : Nat → Option α} {n : Nat} (free : files n = none) (i : Nat) :
    moveOn n files i = if n < i then files i else if i = 0 then none else files (i - 1) := by
  induction n generalizing files with
  | zero =>
      rw [moveOn]
      by_cases first : i = 0
      · subst first
        rw [free]
        rfl
      · rw [if_pos (Nat.pos_of_ne_zero first)]
  | succ n ih =>
      have moved := rename_next free
      have left : rename files n (n + 1) n = none := by rw [moved, if_pos rfl]
      rw [moveOn, ih left, moved, moved]
      grind

/-- The files of a list, the first one under the number 0. -/
def listed (file : β → α) (generations : List β) (i : Nat) : Option α :=
  generations[i]?.map file

theorem update_listed (file : β → α) (old new : β) (older : List β) :
    Function.update (listed file (old :: older)) 0 (some (file new)) = listed file (new :: older) := by
  funext i
  cases i with
  | zero => rfl
  | succ i => rfl

/-- Without the last file the others move on, and a new one takes the first place. -/
theorem rotated (file : β → α) {generations : List β} {n : Nat}
    (fits : generations.length ≤ n + 1) (new : β) :
    Function.update (moveOn n (Function.update (listed file generations) n none)) 0 (some (file new)) =
      listed file (new :: generations.take n) := by
  funext i
  rw [Function.update_apply, moveOn_apply (Function.update_self ..)]
  cases i with
  | zero => rfl
  | succ i =>
      rw [if_neg (Nat.succ_ne_zero i), if_neg (Nat.succ_ne_zero i), listed, List.getElem?_cons_succ,
        Nat.add_sub_cancel]
      split
      case isTrue beyond =>
        rw [Function.update_of_ne (by omega), listed, List.getElem?_eq_none (by omega),
          List.getElem?_eq_none (by rw [List.length_take]; omega)]
      case isFalse within =>
        rw [Function.update_of_ne (by omega), listed, List.getElem?_take_of_lt (by omega)]

end Rotation
